import FactScript.Memory.Store
import FactScript.Statement.Basic

/-!
The memory of a session. Facts are filed under what they are about, declarations under the declared
name; every kind of entry has a store of its own.
-/
namespace FactScript

/-- A fact that holds where its guards do. -/
structure Conditional where
  guards : List Fact
  consequence : Fact

/-- Facts that hold of all parameters that satisfy the guards. -/
structure Rule where
  generics : List GenericParam
  params : List Param
  guards : List Fact
  consequences : List Fact

inductive Entry
  | ground (fact : Fact)
  | conditional (entry : Conditional)
  | universal (rule : Rule)
  | var (param : Param)
  | property (decl : PropertyDecl)
  | fn (decl : FnDecl)
  | synonym (name : String) (value : Term)

inductive StoreKind
  | ground | conditional | universal | var | property | fn | synonym
  deriving DecidableEq, Repr

def StoreKind.text : StoreKind → String
  | ground => "ground"
  | conditional => "conditional"
  | universal => "universal"
  | var => "var"
  | property => "property"
  | fn => "fn"
  | synonym => "alias"

namespace Entry

/-- A known fact: a rule if it is universal. -/
def ofFact : Fact → Entry
  | .universal generics params premises conclusions =>
    universal ⟨generics, params, premises, conclusions⟩
  | fact => ground fact

def kind : Entry → StoreKind
  | ground _ => .ground
  | conditional _ => .conditional
  | universal _ => .universal
  | var _ => .var
  | property _ => .property
  | fn _ => .fn
  | synonym .. => .synonym

def keys : Entry → List String
  | ground fact => fact.keys
  | conditional entry => entry.consequence.keys
  | universal rule => Fact.keysOfAll rule.consequences
  | var param => [param.name]
  | property decl => [decl.name]
  | fn decl => [decl.name]
  | synonym name _ => [name]

end Entry

/-- Where an entry was put. -/
structure Recorded where
  kind : StoreKind
  id : Nat
  deriving DecidableEq, Repr

def Store.idText (id : Nat) : String := s!"#{id}"

def Recorded.text (r : Recorded) : String := s!"{r.kind.text} {Store.idText r.id}"

structure Memory where
  ground : Store Fact := {}
  conditional : Store Conditional := {}
  universal : Store Rule := {}
  vars : Store Param := {}
  properties : Store PropertyDecl := {}
  fns : Store FnDecl := {}
  aliases : Store Term := {}

structure Stats where
  ground : Nat
  conditional : Nat
  universal : Nat
  vars : Nat
  properties : Nat
  fns : Nat
  aliases : Nat
  deriving DecidableEq, Repr

namespace Memory

def stats (m : Memory) : Stats where
  ground := m.ground.size
  conditional := m.conditional.size
  universal := m.universal.size
  vars := m.vars.size
  properties := m.properties.size
  fns := m.fns.size
  aliases := m.aliases.size

def isEmpty (m : Memory) : Bool := m.stats == ⟨0, 0, 0, 0, 0, 0, 0⟩

/-- Adds an entry to the store of its kind, and tells where it was put. -/
def insert (m : Memory) (e : Entry) : Recorded × Memory :=
  match e with
  | .ground fact =>
    let (id, ground) := m.ground.insert e.keys fact
    (⟨.ground, id⟩, { m with ground })
  | .conditional entry =>
    let (id, conditional) := m.conditional.insert e.keys entry
    (⟨.conditional, id⟩, { m with conditional })
  | .universal rule =>
    let (id, universal) := m.universal.insert e.keys rule
    (⟨.universal, id⟩, { m with universal })
  | .var param =>
    let (id, vars) := m.vars.insert e.keys param
    (⟨.var, id⟩, { m with vars })
  | .property decl =>
    let (id, properties) := m.properties.insert e.keys decl
    (⟨.property, id⟩, { m with properties })
  | .fn decl =>
    let (id, fns) := m.fns.insert e.keys decl
    (⟨.fn, id⟩, { m with fns })
  | .synonym _ value =>
    let (id, aliases) := m.aliases.insert e.keys value
    (⟨.synonym, id⟩, { m with aliases })

def insertAll (m : Memory) : List Entry → List Recorded × Memory
  | [] => ([], m)
  | e :: es =>
    let (recorded, m') := m.insert e
    let (others, m'') := m'.insertAll es
    (recorded :: others, m'')

end Memory

end FactScript
