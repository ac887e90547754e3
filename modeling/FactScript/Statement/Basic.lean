import FactScript.Position
import FactScript.Term.Basic

/-!
Declarations and statements.
-/
namespace FactScript

structure FnDecl where
  name : String
  signature : Signature
  result : Ty

structure PropertyDecl where
  name : String
  signature : Signature

inductive Decl
  | var (vars : List Param)
  | fn (decl : FnDecl)
  | property (decl : PropertyDecl)

/-- Declarations sorted by what they declare, in order within each sort. -/
structure Members where
  vars : List (List Param) := []
  fns : List FnDecl := []
  properties : List PropertyDecl := []

namespace Members

def isEmpty (m : Members) : Bool := m.vars.isEmpty && m.fns.isEmpty && m.properties.isEmpty

def ofDecls (decls : List Decl) : Members where
  vars := decls.filterMap fun | .var vars => some vars | _ => none
  fns := decls.filterMap fun | .fn d => some d | _ => none
  properties := decls.filterMap fun | .property d => some d | _ => none

/-- The declarations again, variables first and properties last. -/
def decls (m : Members) : List Decl :=
  m.vars.map .var ++ m.fns.map .fn ++ m.properties.map .property

end Members

structure ConceptBody where
  inherits : List String := []
  typeMembers : Members := {}
  members : Members := {}
  facts : List Fact := []

def ConceptBody.isEmpty (b : ConceptBody) : Bool :=
  b.inherits.isEmpty && b.typeMembers.isEmpty && b.members.isEmpty && b.facts.isEmpty

inductive Statement
  | var (vars : List Param) (facts : List Fact)
  | concept (typeVar name : String) (body : ConceptBody)
  | type (name : String) (body : ConceptBody)
  | property (decl : PropertyDecl) (premises conclusions : List Fact)
  | fn (decl : FnDecl) (premises conclusions : List Fact)
  /-- The goals are proved by the statements; without a goal this is a mere proof. -/
  | claim (goals : List Fact) (proof : List Statement)
  | know (facts : List Fact)
  | use (name : String) (value : Term)
  | exist (decl : PropertyDecl) (premises : List Fact) (members : List Decl)
    (conclusions : List Fact)
  /-- Names for the members of something that is known to exist. -/
  | witness (existence : Predication) (names : List String)
  | member (owner : GenericParam) (self : Param) (decl : Decl) (facts : List Fact)
  | typeMember (owner : GenericParam) (decl : Decl) (facts : List Fact)
  | fact (fact : Fact)

namespace Statement

def kind : Statement → String
  | var .. => "var"
  | concept .. => "concept"
  | type .. => "type"
  | property .. => "property"
  | fn .. => "fn"
  | claim .. => "claim"
  | know _ => "know"
  | use .. => "use"
  | exist .. => "exist"
  | witness .. => "have"
  | member .. => "member"
  | typeMember .. => "type_member"
  | fact f => if f.isSpecific then "fact" else "forall"

end Statement

/-- A statement of a program, with the place of its header. -/
structure TopStatement where
  statement : Statement
  isPublic : Bool
  position : Position

end FactScript
