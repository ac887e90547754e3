import FactScript.Memory.Basic
import FactScript.Program

/-!
Sessions: a memory that grows as the statements of programs are recorded.
-/
namespace FactScript

/-- What a definition with a signature adds for its conclusions: each holds under the signature's
guards and the premises. -/
def Signature.consequences (signature : Signature) (premises conclusions : List Fact) :
    List Entry :=
  conclusions.map fun fact => .conditional ⟨signature.guards ++ premises, fact⟩

/-- What a statement adds to memory, in order. -/
def Statement.entries : Statement → List Entry
  | .know facts => facts.map .ofFact
  | .var vars _ => vars.map .var
  | .property decl premises conclusions =>
    .property decl :: decl.signature.consequences premises conclusions
  | .fn decl premises conclusions => .fn decl :: decl.signature.consequences premises conclusions
  | .exist decl premises _ conclusions =>
    .property decl :: decl.signature.consequences premises conclusions
  | .use name value => [.synonym name value]
  | _ => []

structure Session where
  memory : Memory := {}
  /-- The number of statements recorded so far. -/
  statements : Nat := 0

namespace Session

def record (s : Session) (statement : Statement) : List Recorded × Session :=
  let (recorded, memory) := s.memory.insertAll statement.entries
  (recorded, ⟨memory, s.statements + 1⟩)

/-- Records statements one after the other; what each has added is listed for itself. -/
def recordAll (s : Session) : List Statement → List (List Recorded) × Session
  | [] => ([], s)
  | statement :: rest =>
    let (recorded, s') := s.record statement
    let (others, s'') := s'.recordAll rest
    (recorded :: others, s'')

/-- Reads a program and records its statements; if it cannot be read, nothing is recorded. -/
def check [Alphabet] (s : Session) (tabWidth : Nat) (source : String) :
    Except ProgramError (List TopStatement) × Session :=
  match Program.parse tabWidth source with
  | .error e => (.error e, s)
  | .ok statements => (.ok statements, (s.recordAll (statements.map TopStatement.statement)).2)

end Session

end FactScript
