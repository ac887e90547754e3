import FactScript.File
import FactScript.Log.Level
import FactScript.Toml.Parser

/-!
Settings, and how they are read from a TOML document. Missing settings have defaults and unknown
ones are passed over. A section is a table, or an array that lists its settings in order; such an
array may also be written as repeated tables.
-/
namespace FactScript

structure Settings where
  tabWidth : Nat := 4
  level : Log.Level := .info
  deriving DecidableEq, Repr

namespace Settings

open Toml

/-- A number that is not negative. -/
def tabWidth? : Node → Option Nat
  | .integer n => if 0 ≤ n then some n.toNat else none
  | _ => none

/-- The name of a level, as a string or as the only key of a table with an empty value. -/
def level? : Node → Option Log.Level
  | .string s => Log.Level.ofName? s
  | .table _ [(name, .table _ [])] => Log.Level.ofName? name
  | .table _ [(name, .array [])] => Log.Level.ofName? name
  | _ => none

/-- The only setting of a section. A date counts as a section that sets nothing. -/
def section? {α : Type} (name : String) (read : Node → Option α) (default : α) : Node → Option α
  | .table _ fields =>
    match fields.lookup name with
    | some node => read node
    | none => some default
  | .array (first :: _) => read first
  | .tables (first :: _) => read first
  | .array [] => some default
  | .datetime => some default
  | _ => none

def ofFields? (fields : Fields) : Option Settings := do
  let read {α : Type} (section_ name : String) (f : Node → Option α) (default : α) : Option α :=
    match fields.lookup section_ with
    | some node => section? name f default node
    | none => some default
  let tabWidth ← read "lexer" "tab_width" tabWidth? 4
  let level ← read "log" "level" level? .info
  return ⟨tabWidth, level⟩

def ofToml? (text : String) : Option Settings := do ofFields? (← Toml.parse? text)

/-- Where settings are looked for when no other file is named. -/
def defaultPath : String := "litex.toml"

end Settings

inductive SettingsError
  | unreadable (path : String) (error : FileError)
  | malformed (path : String)
  /-- A tab must stand for at least one space. -/
  | zeroTabWidth
  deriving DecidableEq, Repr

namespace SettingsError

/-- What lies behind the error, if it is more than the error itself. -/
def cause? : SettingsError → Option String
  | unreadable _ error => some error.message
  | malformed _ => some "invalid document"
  | zeroTabWidth => none

def message : SettingsError → String
  | unreadable path error => s!"IO error reading {path}: {error.message}"
  | malformed path => s!"Config parse error in {path}: invalid document"
  | zeroTabWidth => "Invalid config: lexer.tab_width must be at least 1"

def messages (e : SettingsError) : List String := e.message :: e.cause?.toList

end SettingsError

/-- The settings in a file; a file that does not exist stands for the defaults. -/
def Settings.load (path : String) (status : FileStatus) : Except SettingsError Settings :=
  match status with
  | .missing | .blocked | .nameTooLong => .ok {}
  | status =>
    match status.text with
    | .error error => .error (.unreadable path error)
    | .ok text =>
      match Settings.ofToml? text with
      | none => .error (.malformed path)
      | some settings => if settings.tabWidth = 0 then .error .zeroTabWidth else .ok settings

end FactScript
