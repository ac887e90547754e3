/-!
TOML documents as trees of tables, and the rules by which keys and table headers add to them: no key
is given twice, and a table is written in one place only.
-/
namespace FactScript.Toml

/-- How a table came to be, which decides what may still be added to it. -/
inductive Origin
  /-- By a header of its own. -/
  | header
  /-- By the header of a table inside it. -/
  | implied
  /-- By a dotted key. -/
  | dotted
  /-- Written in braces, and complete. -/
  | inline
  deriving DecidableEq, Repr

/-- A value. Of floating-point numbers and dates only their presence is kept. -/
inductive Node
  | string (text : String)
  | integer (value : Int)
  | float
  | boolean (value : Bool)
  | datetime
  | array (items : List Node)
  | table (origin : Origin) (fields : List (String × Node))
  /-- Tables written one by one under repeated double-bracket headers. -/
  | tables (entries : List Node)

abbrev Fields := List (String × Node)

namespace Fields

def set (key : String) (node : Node) : Fields → Fields
  | [] => [(key, node)]
  | (k, v) :: rest => if k = key then (k, node) :: rest else (k, v) :: set key node rest

/-- The fields of the last of several tables, and how to put new ones in their place. -/
def last? (entries : List Node) : Option (Fields × (Fields → List Node)) :=
  match entries.getLast? with
  | some (.table origin fields) =>
    some (fields, fun fields' => entries.dropLast ++ [.table origin fields'])
  | _ => none

/-- Adds the value of a key with the given path of tables before it. A dotted key may open new
tables and add to those that dotted keys have opened, and pass through tables that are
only implied. -/
def insert (key : String) (node : Node) : (path : List String) → Fields → Option Fields
  | [], fields => if (fields.lookup key).isSome then none else some (fields ++ [(key, node)])
  | p :: path, fields =>
    match fields.lookup p with
    | none => do
      let inner ← insert key node path []
      return fields ++ [(p, .table .dotted inner)]
    | some (.table origin inner) =>
      if origin = .dotted || (origin = .implied && !path.isEmpty) then do
        return set p (.table origin (← insert key node path inner)) fields
      else none
    | some (.tables entries) =>
      if path.isEmpty then none
      else do
        let (inner, replace) ← last? entries
        return set p (.tables (replace (← insert key node path inner))) fields
    | some _ => none

/-- Changes what stands at the end of a header's path. The tables on the way are opened if they are
missing; in repeated tables the last one is meant. -/
def update (change : Option Node → Option Node) : (path : List String) → Fields → Option Fields
  | [], _ => none
  | [key], fields => do return set key (← change (fields.lookup key)) fields
  | p :: q :: path, fields =>
    match fields.lookup p with
    | none => do
      let inner ← update change (q :: path) []
      return fields ++ [(p, .table .implied inner)]
    | some (.table origin inner) =>
      if origin = .inline then none
      else do return set p (.table origin (← update change (q :: path) inner)) fields
    | some (.tables entries) => do
      let (inner, replace) ← last? entries
      return set p (.tables (replace (← update change (q :: path) inner))) fields
    | some _ => none

/-- A header opens a table that is new or was only implied. -/
def openTable : Option Node → Option Node
  | none => some (.table .header [])
  | some (.table .implied fields) => some (.table .header fields)
  | some _ => none

/-- A double-bracket header adds one more table. -/
def openNext : Option Node → Option Node
  | none => some (.tables [.table .header []])
  | some (.tables entries) => some (.tables (entries ++ [.table .header []]))
  | some _ => none

def insertHere (path : List String) (key : String) (node : Node) : Option Node → Option Node
  | some (.table origin fields) => do return .table origin (← insert key node path fields)
  | some (.tables entries) => do
    let (inner, replace) ← last? entries
    return .tables (replace (← insert key node path inner))
  | _ => none

end Fields

/-- A document as far as it has been read, with the path of the table that keys are added to. -/
structure Document where
  root : Fields := []
  current : List String := []

namespace Document

def addKey (d : Document) (path : List String) (key : String) (node : Node) : Option Document := do
  let root ←
    if d.current.isEmpty then Fields.insert key node path d.root
    else Fields.update (Fields.insertHere path key node) d.current d.root
  return { d with root }

def addTable (d : Document) (path : List String) : Option Document := do
  return ⟨← Fields.update Fields.openTable path d.root, path⟩

def addNext (d : Document) (path : List String) : Option Document := do
  return ⟨← Fields.update Fields.openNext path d.root, path⟩

end Document

end FactScript.Toml
