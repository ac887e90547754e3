import FactScript.Lexeme.Basic

/-!
Terms, types and facts. A fact speaks about terms, a term may be ascribed a signature, and a
signature guards its parameters with facts, so the families are defined together.
-/
namespace FactScript

/-- A type variable with the concept that it satisfies: `T Group`. -/
structure GenericParam where
  name : String
  concept : String
  deriving DecidableEq, Repr

/-- A type given where a name is used: `T`, or `as(T, Group)`. -/
inductive TypeArg
  | plain (name : String)
  | ascribed (name concept : String)
  deriving DecidableEq, Repr

/-- The types that leave open what is declared: `?fn`, `?var`, `?property`. -/
inductive Placeholder
  | fn | var | property
  deriving DecidableEq, Repr

def Placeholder.keyword : Placeholder → Keyword
  | fn => .fn
  | var => .var
  | property => .property

mutual

inductive Term
  /-- An identifier, or the spelling of an operator that is called. -/
  | atom (name : String)
  | number (text : String)
  /-- Segments joined by dots, at least two. -/
  | chain (parts : List Term)
  | call (call : Call)
  /-- A term said to satisfy a property: `as(x, property(y Nat))`. -/
  | ascribed (term : Term) (signature : Signature)

/-- One application; a curried application has a call as its callee. -/
structure Call where
  callee : Term
  typeArgs : List TypeArg
  args : List Term

/-- The parameters of a function or property, with the facts that guard them. -/
structure Signature where
  generics : List GenericParam
  params : List Param
  guards : List Fact

/-- A parameter with its type: `x Nat`. -/
structure Param where
  name : String
  type : Ty

inductive Ty
  | named (name : String)
  | fn (signature : Signature) (result : Ty)
  | property (signature : Signature)
  | placeholder (kind : Placeholder)

inductive Fact
  /-- One operator between successive operands: `a = b = c`. -/
  | relational (holds : Bool) (operator : Symbol) (operands : List Term)
  /-- A property that a call names: `$p(x)`. -/
  | property (holds : Bool) (call : Call)
  /-- The conclusions hold of all parameters that satisfy the premises. -/
  | universal (generics : List GenericParam) (params : List Param)
    (premises conclusions : List Fact)

end

/-- A property asserted or denied of its arguments. -/
structure Predication where
  holds : Bool
  call : Call

def Predication.fact (p : Predication) : Fact := .property p.holds p.call

/-- The operators that are written between or before their operands. -/
def Term.operators : List Symbol := [.plus, .minus, .star, .slash, .caret]

def Term.apply (operator : Symbol) (operands : List Term) : Term :=
  .call ⟨.atom operator.text, [], operands⟩

mutual

/-- The name under which facts about the term are filed. -/
def Term.headName : Term → String
  | .atom name => name
  | .number text => text
  | .chain parts => ".".intercalate (Term.headNames parts)
  | .call ⟨callee, _, _⟩ => callee.headName
  | .ascribed term _ => term.headName

def Term.headNames : List Term → List String
  | [] => []
  | t :: ts => t.headName :: Term.headNames ts

end

def Call.headName (c : Call) : String := c.callee.headName

mutual

/-- The names under which a fact is filed: the relation or property that it is about, and for a
universal fact those of its conclusions, each once and in order of first occurrence. -/
def Fact.keys : Fact → List String
  | .relational _ operator _ => [operator.text]
  | .property _ call => [call.headName]
  | .universal _ _ _ conclusions => Fact.keysOfAll conclusions

def Fact.keysOfAll : List Fact → List String
  | [] => []
  | f :: fs => f.keys ++ (Fact.keysOfAll fs).filter (!f.keys.contains ·)

end

/-- The fact is about particular terms. -/
def Fact.isSpecific : Fact → Bool
  | .universal .. => false
  | _ => true

end FactScript
