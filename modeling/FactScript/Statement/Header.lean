import FactScript.Statement.Basic
import FactScript.Term.Parser

/-!
The headers of facts, declarations and statements: what the first line of a block says before its
body is looked at.
-/
namespace FactScript

/-- A fact on one line, or the line that opens a universal fact; the guards of the latter become
premises. -/
inductive FactHeader
  | specific (fact : Fact)
  | universal (generics : List GenericParam) (params : List Param) (guards : List Fact)

/-- The first line of a statement. `opens` says that it ends in a colon where that is optional. -/
inductive Header
  | var (vars : List Param) (opens : Bool)
  | concept (typeVar name : String) (opens : Bool)
  | type (name : String) (opens : Bool)
  | property (decl : PropertyDecl) (opens : Bool)
  | fn (decl : FnDecl) (opens : Bool)
  | claim
  | proof
  | know
  | knowFact (fact : FactHeader)
  | use (name : String) (value : Term)
  | exist (decl : PropertyDecl) (opens : Bool)
  | witness (existence : Predication)
  | member (owner : GenericParam) (self : Param) (decl : Decl) (opens : Bool)
  | typeMember (owner : GenericParam) (decl : Decl) (opens : Bool)
  | fact (fact : FactHeader)

namespace Parser

def universalHeader : Parser FactHeader := do
  expectKeyword .forallKw
  let (generics, guards) ← full.guardedGenerics
  let params ← full.params
  let guards' ← full.guards
  expectSymbol .colon
  return .universal generics params (guards ++ guards')

def factHeader : Parser FactHeader := do
  if ← atKeyword .forallKw then universalHeader else return .specific (← full.specificFact)

def varDecl : Parser (List Param) := do
  expectKeyword .var
  full.params

def fnDecl : Parser FnDecl := do
  expectKeyword .fn
  let name ← identifier
  let signature ← full.signature
  return ⟨name, signature, ← type⟩

def signedName (k : Keyword) : Parser PropertyDecl := do
  expectKeyword k
  let name ← identifier
  return ⟨name, ← full.signature⟩

def propertyDecl : Parser PropertyDecl := signedName .property

def decl : Parser Decl := do
  if ← atKeyword .var then return .var (← varDecl)
  else if ← atKeyword .fn then return .fn (← fnDecl)
  else if ← atKeyword .property then return .property (← propertyDecl)
  else expected "var, fn or property declaration"

/-- The colon that opens a body, if there is one. -/
def opens : Parser Bool := skipSymbol .colon

def conceptHeader : Parser Header := do
  expectKeyword .concept
  let typeVar ← identifier
  let name ← identifier
  return .concept typeVar name (← opens)

def typeHeader : Parser Header := do
  expectKeyword .type
  let name ← identifier
  return .type name (← opens)

def propertyHeader : Parser Header := do
  let decl ← propertyDecl
  return .property decl (← opens)

def fnHeader : Parser Header := do
  let decl ← fnDecl
  return .fn decl (← opens)

def varHeader : Parser Header := do
  let vars ← varDecl
  return .var vars (← opens)

def claimHeader : Parser Header := do
  expectKeyword .claim
  expectSymbol .colon
  return .claim

def proofHeader : Parser Header := do
  expectKeyword .proof
  expectSymbol .colon
  return .proof

def useHeader : Parser Header := do
  expectKeyword .use
  let name ← identifier
  return .use name (← term)

def knowHeader : Parser Header := do
  expectKeyword .know
  if ← opens then return .know
  return .knowFact (← factHeader)

def existHeader : Parser Header := do
  let decl ← signedName .exist
  return .exist decl (← opens)

def witnessHeader : Parser Header := do
  expectKeyword .haveKw
  let existence ← full.predication true
  expectSymbol .colon
  return .witness existence

def memberHeader : Parser Header := do
  expectKeyword .member
  let owner ← single .owner (← genericParams)
  let self ← single .self (← full.valueParams)
  let decl ← decl
  return .member owner self decl (← opens)

def typeMemberHeader : Parser Header := do
  expectKeyword .typeMember
  let owner ← single .owner (← genericParams)
  let decl ← decl
  return .typeMember owner decl (← opens)

/-- The first lexeme of a header says what it is the header of. -/
def header : Parser Header := do
  match ← peek with
  | none => throw .unexpectedEnd
  | some (.keyword .concept) => conceptHeader
  | some (.keyword .type) => typeHeader
  | some (.keyword .property) => propertyHeader
  | some (.keyword .fn) => fnHeader
  | some (.keyword .var) => varHeader
  | some (.keyword .claim) => claimHeader
  | some (.keyword .proof) => proofHeader
  | some (.keyword .use) => useHeader
  | some (.keyword .know) => knowHeader
  | some (.keyword .exist) => existHeader
  | some (.keyword .haveKw) => witnessHeader
  | some (.keyword .member) => memberHeader
  | some (.keyword .typeMember) => typeMemberHeader
  | some _ => return .fact (← factHeader)

end Parser

end FactScript
