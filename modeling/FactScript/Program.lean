import FactScript.Statement.Parser
import FactScript.Statement.Printer

/-!
Programs: texts that are read as a list of statements.
-/
namespace FactScript

inductive ProgramError
  | lexical (error : LexError)
  | parse (error : ParseError)
  deriving DecidableEq, Repr

namespace ProgramError

/-- The stage at which a text was found not to be a program. -/
def phase : ProgramError → String
  | lexical _ => "lexical error"
  | parse _ => "parse error"

def messages : ProgramError → List String
  | lexical e => [e.message]
  | parse e => e.messages

/-- The stage and all messages, on one line. -/
def report (e : ProgramError) : String := ": ".intercalate (e.phase :: e.messages)

end ProgramError

namespace Program

def defaultTabWidth : Nat := 4

def parse [Alphabet] (tabWidth : Nat) (source : String) :
    Except ProgramError (List TopStatement) := do
  let blocks ← (Block.ofSource tabWidth source).mapError .lexical
  (blocks.mapM TopStatement.ofBlock).mapError .parse

/-- The text of a program: each statement and a line feed. -/
def text (statements : List TopStatement) : String :=
  String.join (statements.map fun t => t.text ++ "\n")

end Program

end FactScript
