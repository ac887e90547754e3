/-!
The command line: options that may stand before and after the name of a command, a command, and the
file that it works on.
-/
namespace FactScript.Command

inductive Action
  | check | tokens | ast
  deriving DecidableEq, Repr

namespace Action

def all : List Action := [check, tokens, ast]

def name : Action → String
  | check => "check"
  | tokens => "tokens"
  | ast => "ast"

def ofName? (s : String) : Option Action := all.find? (·.name == s)

end Action

structure Invocation where
  action : Action
  file : String
  /-- Statements are to be printed as JSON. -/
  json : Bool
  verbose : Bool
  config : Option String
  deriving DecidableEq, Repr

inductive Topic
  | program
  | action (action : Action)
  | help
  deriving DecidableEq, Repr

inductive Arguments
  | run (invocation : Invocation)
  | version
  | help (topic : Topic)
  /-- The command line is not understood. -/
  | misuse
  deriving DecidableEq, Repr

inductive Word
  /-- Two dashes: no options follow. -/
  | dashes
  /-- An option by its name, with the text after an equals sign. -/
  | long (name : String) (value : Option String)
  /-- Options by their letters. -/
  | short (letters : List Char)
  | plain (text : String)

def Word.ofArg (arg : String) : Word :=
  match arg.toList with
  | ['-', '-'] => .dashes
  | '-' :: '-' :: cs =>
    match cs.dropWhile (· ≠ '=') with
    | [] => .long (String.ofList cs) none
    | _ :: value => .long (String.ofList (cs.takeWhile (· ≠ '='))) (some (String.ofList value))
  | ['-'] => .plain arg
  | '-' :: cs => .short cs
  | _ => .plain arg

/-- An argument together with the value that belongs to it. -/
inductive Item
  | config (path : String)
  | flag (name : String)
  | letters (letters : List Char)
  | plain (text : String)
  /-- All that follows two dashes. -/
  | files (paths : List String)
  /-- An option without the value that it needs, or with one that it does not take. -/
  | faulty

namespace Item

/-- An argument that is not followed by a value of its own. -/
def ofWord : Word → Item
  | .dashes => files []
  | .long "config" (some path) => config path
  | .long "config" none => faulty
  | .long _ (some _) => faulty
  | .long name none => flag name
  | .short cs => letters cs
  | .plain text => plain text

/-- Groups arguments; after two dashes or a fault there is nothing more to group. -/
def ofArgs : List String → List Item
  | [] => []
  | [arg] => [ofWord (Word.ofArg arg)]
  | arg :: next :: rest =>
    match Word.ofArg arg, Word.ofArg next with
    | .dashes, _ => [files (next :: rest)]
    | .long "config" none, .plain path => config path :: ofArgs rest
    | .long "config" none, _ => [faulty]
    | word, _ => ofWord word :: ofArgs (next :: rest)

end Item

/-- What has been given at one level of the command line, that is, before or after the name of the
command. -/
structure Given where
  verbose : Bool := false
  json : Bool := false
  config : Option String := none
  file : Option String := none

/-- The effect of one item: it is noted, or it ends the reading. -/
abbrev Noted := Except Arguments Given

namespace Given

/-- A flag may be given once. -/
def setVerbose (g : Given) : Noted :=
  if g.verbose then .error .misuse else .ok { g with verbose := true }

def setJson (g : Given) : Noted :=
  if g.json then .error .misuse else .ok { g with json := true }

/-- A path may be given once and is not empty. -/
def setConfig (g : Given) (path : String) : Noted :=
  if g.config.isSome || path.isEmpty then .error .misuse else .ok { g with config := some path }

def setFile (g : Given) (path : String) : Noted :=
  if g.file.isSome || path.isEmpty then .error .misuse else .ok { g with file := some path }

/-- The version can be asked for before the command only, and only `ast` prints JSON. -/
def setFlag (g : Given) (action? : Option Action) (name : String) : Noted :=
  match name with
  | "verbose" => g.setVerbose
  | "help" => .error (.help (match action? with | some a => .action a | none => .program))
  | "version" => .error (if action?.isNone then .version else .misuse)
  | "json" => if action? = some .ast then g.setJson else .error .misuse
  | _ => .error .misuse

/-- The flag that a letter stands for. -/
def letterName (c : Char) : String :=
  match c with
  | 'v' => "verbose"
  | 'h' => "help"
  | 'V' => "version"
  | _ => ""

/-- Notes an item after the name of the command, or before it if there is none yet. -/
def note (g : Given) (action? : Option Action) : Item → Noted
  | .config path => g.setConfig path
  | .flag name => g.setFlag action? name
  | .letters cs => cs.foldlM (fun g c => g.setFlag action? (letterName c)) g
  | .plain text => g.setFile text
  | .files paths => paths.foldlM setFile g
  | .faulty => .error .misuse

end Given

namespace Arguments

/-- The command with all that was given before its name (`outer`) and after it. What stands closer
to the file prevails. -/
def finish (action : Action) (outer g : Given) : Arguments :=
  match g.file with
  | none => misuse
  | some file => run ⟨action, file, g.json, outer.verbose || g.verbose, g.config <|> outer.config⟩

def readAction (action : Action) (outer g : Given) : List Item → Arguments
  | [] => finish action outer g
  | item :: items =>
    match g.note (some action) item with
    | .error a => a
    | .ok g => readAction action outer g items

def readTopic : List Item → Arguments
  | [] => help .program
  | [.plain name] =>
    if name == "help" then help .help
    else
      match Action.ofName? name with
      | some action => help (.action action)
      | none => misuse
  | _ => misuse

def readItems (g : Given) : List Item → Arguments
  | [] => misuse
  | .plain name :: items =>
    if name == "help" then readTopic items
    else
      match Action.ofName? name with
      | some action => readAction action g {} items
      | none => misuse
  | .files _ :: _ => misuse
  | item :: items =>
    match g.note none item with
    | .error a => a
    | .ok g => readItems g items

def read (args : List String) : Arguments := readItems {} (Item.ofArgs args)

end Arguments

end FactScript.Command
