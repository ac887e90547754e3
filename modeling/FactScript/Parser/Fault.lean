import FactScript.Block

/-!
What can be wrong with a block, and where: the fault itself, under one level for each block that
encloses it.
-/
namespace FactScript

/-- What has to be given exactly once. -/
inductive Sole
  | typeArgument | owner | self
  deriving DecidableEq, Repr

def Sole.text : Sole → String
  | typeArgument => "type argument after 'is'"
  | owner => "type-concept pair"
  | self => "instance parameter"

/-- The statements whose bodies are divided into sections. -/
inductive Sectioned
  | concept | type | exist
  deriving DecidableEq, Repr

def Sectioned.text : Sectioned → String
  | concept => "concept"
  | type => "type"
  | exist => "exist"

inductive Fault
  | expectedToken (expected found : String)
  | expectedBeforeEnd (expected : String)
  | unexpectedEnd
  | invalidNumber (text : String)
  | notRelational (symbol : Symbol)
  | expectedCall (found : String)
  | notSingle (what : Sole) (found : Nat)
  | trailingToken (found : String)
  | negatedUniversal
  | missingProof
  | ifWithoutThen
  | trailingBlock (header : String)
  | unexpectedBlock (host : Sectioned) (header : String)
  | duplicateBlock (host : Sectioned) (keyword : Keyword)
  | witnessLines (found : Nat)
  deriving DecidableEq, Repr

namespace Fault

/-- The fault lies in how blocks are put together rather than in one line. -/
def isStructural : Fault → Bool
  | missingProof | ifWithoutThen | trailingBlock _ | unexpectedBlock .. | duplicateBlock ..
  | witnessLines _ => true
  | _ => false

def message : Fault → String
  | expectedToken expected found => s!"expected '{expected}', found '{found}'"
  | expectedBeforeEnd expected => s!"expected '{expected}' before end of line"
  | unexpectedEnd => "unexpected end of line"
  | invalidNumber text => s!"invalid number literal '{text}'"
  | notRelational symbol => s!"'{symbol.text}' is not a relational operator"
  | expectedCall found => s!"'$' must be followed by a predicate call, found '{found}'"
  | notSingle what found => s!"expected exactly 1 {what.text}, found {found}"
  | trailingToken found => s!"unexpected '{found}' after end of statement"
  | negatedUniversal => "'not' cannot negate a forall fact"
  | missingProof => "claim must end with a 'proof' block"
  | ifWithoutThen => "'if' block must be followed by a 'then' block"
  | trailingBlock header => s!"unexpected block '{header}' after 'then'"
  | unexpectedBlock host header => s!"unexpected block '{header}' in {host.text}"
  | duplicateBlock host keyword => s!"duplicate '{keyword.text}' block in {host.text}"
  | witnessLines found => s!"have expects 1 sub-block(s), found {found}"

/-- The fault of finding the lexemes `ts` where `what` should stand. -/
def expected (what : String) : List Lexeme → Fault
  | t :: _ => expectedToken what t.text
  | [] => expectedBeforeEnd what

end Fault

/-- A block that a fault lies in, with the number of its header's tokens that had been read. -/
structure Level where
  header : String
  offset : Nat
  position : Position
  deriving DecidableEq, Repr

def Level.message (l : Level) : String := s!"{l.position.text}: in `{l.header}` (token {l.offset})"

/-- A fault with the blocks that it lies in, the outermost first. -/
structure ParseError where
  levels : List Level
  fault : Fault
  deriving DecidableEq, Repr

namespace ParseError

/-- A fault not yet placed in any block. -/
def bare (fault : Fault) : ParseError := ⟨[], fault⟩

def within (level : Level) (e : ParseError) : ParseError := ⟨level :: e.levels, e.fault⟩

def headers (e : ParseError) : List String := e.levels.map Level.header

def messages (e : ParseError) : List String := e.levels.map Level.message ++ [e.fault.message]

end ParseError

end FactScript
