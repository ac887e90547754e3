import FactScript.Parser.Basic

/-!
A place in the header of a block, from which parsers can be run one after the other.
-/
namespace FactScript

/-- A block with the number of its header's tokens that have been read. -/
structure Cursor where
  block : Block
  offset : Nat

namespace Cursor

def ofBlock (b : Block) : Cursor := ⟨b, 0⟩

def rest (c : Cursor) : List Lexeme := c.block.lexemes.drop c.offset

def isAtEnd (c : Cursor) : Bool := c.block.header.length ≤ c.offset

/-- The token `n` places further on. -/
def peek? (c : Cursor) (n : Nat) : Option Token := c.block.header[c.offset + n]?

/-- The cursor when only the lexemes `rest` are left. -/
def leaving (c : Cursor) (rest : List Lexeme) : Cursor :=
  { c with offset := c.block.header.length - rest.length }

/-- Runs a parser and then a function on what it read. The cursor moves past what the parser took,
whether or not it failed. -/
def run {η α : Type} (c : Cursor) (p : Parser η) (build : η → Except ParseError α) :
    Except ParseError α × Cursor :=
  match p c.rest with
  | .ok h rest => (build h, c.leaving rest)
  | .error fault rest => (.error (.bare fault), c.leaving rest)

def wrap (c : Cursor) (e : ParseError) : ParseError := e.within (c.block.level c.rest)

end Cursor

end FactScript
