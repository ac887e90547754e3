import FactScript.Log.Level
import FactScript.Memory.Session
import FactScript.Text.Quoted

/-!
What is logged while a program is read and recorded.
-/
namespace FactScript

namespace Log

structure Event where
  level : Level
  message : String
  deriving DecidableEq, Repr

namespace Event

def debug (message : String) : Event := ⟨.debug, message⟩

def trace (message : String) : Event := ⟨.trace, message⟩

/-- Spells out a character that a terminal would act on instead of showing it. -/
def inert (c : Char) : List Char :=
  if [0x07, 0x08, 0x0C, 0x1B, 0x7F].contains c.toNat then
    ['\\', 'x'] ++ (if c.toNat < 16 then ['0'] else []) ++ Text.hexDigits c.toNat
  else if 0x80 ≤ c.toNat && c.toNat ≤ 0x9F then Text.byCodePoint c
  else [c]

/-- A line of the log: the level, set flush right in five places, and the message. -/
def line (e : Event) : String :=
  let label := e.level.label
  String.ofList (List.replicate (5 - label.length) ' ') ++ label ++ " " ++
    String.ofList (e.message.toList.flatMap inert) ++ "\n"

/-- The log at a level: what is at least as severe. -/
def log (level : Level) (events : List Event) : String :=
  String.join ((events.filter (level.rank ≤ ·.level.rank)).map line)

end Event

end Log

open Log Log.Event

def Block.events (source : String) (blocks : Except LexError (List Block)) : List Event :=
  debug s!"lexing {source.utf8ByteSize} bytes" ::
    match blocks with
    | .ok bs => [debug s!"lexed {bs.length} top-level blocks"]
    | .error _ => []

def TopStatement.event (t : TopStatement) : Event :=
  trace s!"parsed {t.statement.kind} statement at {t.position.text}"

/-- The statements of the blocks before the first that is not a statement. -/
def TopStatement.readable (bs : List Block) : List TopStatement :=
  ((bs.map TopStatement.ofBlock).takeWhile (·.isOk)).filterMap (·.toOption)

def Program.events (source : String) (blocks : Except LexError (List Block)) : List Event :=
  debug s!"Parsing source ({source.utf8ByteSize} bytes)" :: Block.events source blocks ++
    match blocks with
    | .error _ => []
    | .ok bs =>
      let read := TopStatement.readable bs
      debug "Starting parsing..." :: read.map TopStatement.event ++
        if read.length = bs.length then
          [debug s!"Parsing successful, got {bs.length} statements"]
        else []

def Entry.keyText (e : Entry) : String :=
  match e with
  | .ground _ | .conditional _ | .universal _ => Text.quotedList e.keys
  | .var param => param.name
  | .property decl => decl.name
  | .fn decl => decl.name
  | .synonym name _ => name

def Session.events (s : Session) : List Statement → List Event
  | [] => []
  | statement :: rest =>
    let (recorded, s') := s.record statement
    let stored :=
      (statement.entries.zip recorded).map fun (e, r) => debug s!"{r.text} <- {e.keyText}"
    stored ++ trace s!"{statement.kind} statement recorded {recorded.length} entries" ::
      s'.events rest

end FactScript
