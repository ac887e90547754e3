import FactScript.Command.Arguments
import FactScript.Lexeme.Unicode
import FactScript.Log.Event
import FactScript.Settings
import FactScript.Statement.Json

/-!
What the commands do. How files are looked up is left open, so that the commands can also be run on
given contents.
-/
namespace FactScript.Command

def programName : String := "Litex"

def version : String := "0.2.0"

/-- What is left after a run: the exit code and the texts of the two output streams. -/
structure Outcome where
  exit : Nat
  stdout : String := ""
  stderr : String := ""
  deriving DecidableEq, Repr

/-- A message with what it is about before it. -/
def about (contexts : List String) : String := ": ".intercalate contexts

def readSource (path : String) (status : FileStatus) : Except String String :=
  status.text.mapError fun e => about [s!"Failed to read file: {path}", e.message]

/-- The result of a command, with what it logs on the way. -/
structure Logged (α : Type) where
  events : List Log.Event
  result : Except String α

/-- Reads the program in a file and records it in a new session. -/
def checkFile (tabWidth : Nat) (path : String) (status : FileStatus) : Logged Session :=
  let start := Log.Event.debug s!"checking {path}"
  match readSource path status with
  | .error message => ⟨[start], .error message⟩
  | .ok source =>
    let reading := start :: Program.events source (Block.ofSource tabWidth source)
    match Session.check {} tabWidth source with
    | (.error e, _) => ⟨reading, .error (about [s!"Failed to check: {path}", e.report])⟩
    | (.ok statements, session) =>
      let recording := Session.events {} (statements.map TopStatement.statement)
      ⟨reading ++ recording ++ [.debug s!"Recorded {statements.length} statements"], .ok session⟩

def summary (path : String) (s : Session) : String :=
  let n := s.memory.stats
  s!"{path}: {s.statements} statements; memory: {n.ground} ground, {n.conditional} conditional, " ++
    s!"{n.universal} universal; declared: {n.vars} var, {n.properties} property, {n.fns} fn, " ++
    s!"{n.aliases} alias\n"

def check (tabWidth : Nat) (path : String) (status : FileStatus) : Logged String :=
  let ⟨events, result⟩ := checkFile tabWidth path status
  ⟨events, (summary path) <$> result⟩

def tokens (tabWidth : Nat) (path : String) (status : FileStatus) : Logged String :=
  match readSource path status with
  | .error message => ⟨[], .error message⟩
  | .ok source =>
    let blocks := Block.ofSource tabWidth source
    ⟨Block.events source blocks,
      match blocks with
      | .ok bs => .ok (Block.textOfAll bs)
      | .error e => .error (about [s!"Failed to tokenize: {path}", e.message])⟩

def ast (tabWidth : Nat) (json : Bool) (path : String) (status : FileStatus) : Logged String :=
  match readSource path status with
  | .error message => ⟨[], .error message⟩
  | .ok source =>
    ⟨Program.events source (Block.ofSource tabWidth source),
      match Program.parse tabWidth source with
      | .ok statements =>
        .ok (if json then (Json.arr (statements.map TopStatement.toJson)).pretty ++ "\n"
          else Program.text statements)
      | .error e => .error (about [s!"Failed to parse: {path}", e.report])⟩

def perform (i : Invocation) (tabWidth : Nat) (status : FileStatus) : Logged String :=
  match i.action with
  | .check => check tabWidth i.file status
  | .tokens => tokens tabWidth i.file status
  | .ast => ast tabWidth i.json i.file status

/-- The line that reports a failure; the word before the message is bold and red. -/
def failureLine (message : String) : String :=
  s!"\x1b[1m\x1b[31merror:\x1b[39m\x1b[0m {message}\n"

def configPath (i : Invocation) : String := i.config.getD Settings.defaultPath

/-- Verbose runs log from the debug level on, whatever the settings say. -/
def logLevel (i : Invocation) (settings : Settings) : Log.Level :=
  if i.verbose then .debug else settings.level

def banner (i : Invocation) : String :=
  if i.verbose then s!"{programName} version: {version}\n" else ""

/-- The outcome of a command once its settings are known. -/
def outcome (i : Invocation) (settings : Settings) (status : FileStatus) : Outcome :=
  let ⟨events, result⟩ := perform i settings.tabWidth status
  let log := banner i ++ Log.Event.log (logLevel i settings) events
  match result with
  | .ok stdout => { exit := 0, stdout, stderr := log }
  | .error message => { exit := 1, stderr := log ++ failureLine message }

def usageLine : String := "Usage: litex [OPTIONS] <COMMAND>\n"

def optionHelp : String :=
  "  -v, --verbose        Enable verbose output\n" ++
  "      --config <PATH>  Configuration file (defaults to ./litex.toml)\n" ++
  "  -h, --help           Print help\n"

def actionSummary : Action → String
  | .check => "Parse a source file and record its facts"
  | .tokens => "Print the indentation block tree of a source file"
  | .ast => "Print the parsed statements of a source file"

def helpSummary : String := "Print this message or the help of the given subcommand(s)"

def helpText : Topic → String
  | .program =>
    programName ++ "\n\n" ++ usageLine ++ "\nCommands:\n" ++
      s!"  check   {actionSummary .check}\n  tokens  {actionSummary .tokens}\n" ++
      s!"  ast     {actionSummary .ast}\n  help    {helpSummary}\n\nOptions:\n" ++ optionHelp ++
      "  -V, --version        Print version\n"
  | .action a =>
    actionSummary a ++ s!"\n\nUsage: litex {a.name} [OPTIONS] <FILE>\n\n" ++
      "Arguments:\n  <FILE>" ++ (if a = .check then "  Source file to check" else "") ++
      "\n\nOptions:\n" ++
      (if a = .ast then "      --json           Emit JSON instead of source form\n" else "") ++
        optionHelp
  | .help =>
    helpSummary ++ "\n\nUsage: litex help [COMMAND]...\n\n" ++
      "Arguments:\n  [COMMAND]...  Print help for the subcommand(s)\n"

/-- Runs a command line. The settings are looked up before the command's own file. -/
def run {m : Type → Type} [Monad m] (look : String → m FileStatus) (args : List String) :
    m Outcome := do
  match Arguments.read args with
  | .misuse => return { exit := 2, stderr := usageLine }
  | .version => return { exit := 0, stdout := s!"litex {version}\n" }
  | .help topic => return { exit := 0, stdout := helpText topic }
  | .run i =>
    let path := configPath i
    match Settings.load path (← look path) with
    | .error e =>
      let messages := "Failed to load configuration" :: e.messages
      return { exit := 1, stderr := failureLine (about messages) }
    | .ok settings => return outcome i settings (← look i.file)

end FactScript.Command
