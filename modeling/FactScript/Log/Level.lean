/-!
Log levels.
-/
namespace FactScript.Log

/-- From the most to the least talkative. -/
inductive Level
  | trace | debug | info | warn | error
  deriving DecidableEq, Repr

namespace Level

def all : List Level := [trace, debug, info, warn, error]

def name : Level → String
  | trace => "trace"
  | debug => "debug"
  | info => "info"
  | warn => "warn"
  | error => "error"

def label : Level → String
  | trace => "TRACE"
  | debug => "DEBUG"
  | info => "INFO"
  | warn => "WARN"
  | error => "ERROR"

def ofName? (s : String) : Option Level := all.find? (·.name == s)

def rank : Level → Nat
  | trace => 0
  | debug => 1
  | info => 2
  | warn => 3
  | error => 4

def asciiLower (s : String) : String := String.ofList (s.toList.map Char.toLower)

/-- The level that a user names, in capital or small letters. A name that is not known is given back
as it was understood. -/
def ofText (s : String) : Except String Level :=
  let word := asciiLower s
  if word == "warning" then .ok warn
  else
    match ofName? word with
    | some level => .ok level
    | none => .error word

def unknownMessage (word : String) : String := s!"unknown log level '{word}'"

end Level

end FactScript.Log
