import FactScript.Toml.Scalar

/-!
Values and whole documents of TOML.
-/
namespace FactScript.Toml

open Scan

/-- The values of an array, after its opening bracket; a comma may follow the last one. -/
def arrayRest (value : Scan Node) : Scan (List Node) :=
  loop do
    gap
    if ← skip [']'] then return ([], false)
    let v ← value
    gap
    if ← skip [','] then return ([v], true)
    char ']'
    return ([v], false)

def keyValue (value : Scan Node) : Scan (List String × String × Node) := do
  let (path, last) ← key
  char '='
  spaces
  let v ← value
  return (path, last, v)

/-- The fields of a table in braces, after the opening one; it stands on one line and no comma
follows the last field. -/
def tableRest (value : Scan Node) : Scan Fields := do
  spaces
  if ← skip ['\x7d'] then return []
  let entries ← loop do
    let entry ← keyValue value
    spaces
    if ← skip [','] then return ([entry], true)
    char '\x7d'
    return ([entry], false)
  let fields := entries.foldlM (fun fields (path, last, v) => Fields.insert last v path fields) []
  match fields with
  | some fields => return fields
  | none => failure

/-- A value in which values are nested at most `depth` deep. -/
def valueUpTo (depth : Nat) : Scan Node := do
  if let some s ← string? then return .string s
  match depth with
  | 0 => scalar
  | depth + 1 =>
    if ← skip ['['] then return .array (← arrayRest (valueUpTo depth))
    if ← skip ['\x7b'] then return .table .inline (← tableRest (valueUpTo depth))
    scalar

def value : Scan Node := valueUpTo (limit - 1)

/-- Adds what the next line says, if there is one. -/
def line (d : Document) : Scan (Option Document) := do
  spaces
  match ← peek with
  | none => return none
  | some '[' => do
    char '['
    let isNext ← skip ['[']
    let (path, last) ← key
    char ']'
    if isNext then char ']'
    lineEnd
    let path := path ++ [last]
    match if isNext then d.addNext path else d.addTable path with
    | some d => return some d
    | none => failure
  | some c =>
    if c == '#' || c == '\n' || c == '\r' then
      lineEnd
      return some d
    else
      let (path, last, v) ← keyValue value
      lineEnd
      match d.addKey path last v with
      | some d => return some d
      | none => failure

def linesUpTo : Nat → Document → Scan Document
  | 0, _ => failure
  | n + 1, d => do
    match ← line d with
    | some d => linesUpTo n d
    | none => return d

/-- The root table of a document, which may begin with a byte order mark. -/
def parse? (text : String) : Option Fields := do
  let cs := match text.toList with
    | c :: cs => if c.toNat = 0xFEFF then cs else c :: cs
    | [] => []
  let (d, _) ← linesUpTo (cs.length + 1) {} cs
  return d.root

end FactScript.Toml
