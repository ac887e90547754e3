import FactScript.Parser.Fault

/-!
Parsers of header lines. A parser takes lexemes off the front of a list; whether it succeeds or
fails, it leaves the lexemes that it has not read. A block is read by a parser for its header and a
function that puts the result together with the body.
-/
namespace FactScript

abbrev Parser := EStateM Fault (List Lexeme)

namespace Parser

/-- Fails because something else should stand here. -/
def expected {α : Type} (what : String) : Parser α := fun ts => .error (.expected what ts) ts

def at_ (l : Lexeme) : Parser Bool := fun ts => .ok (ts.head? == some l) ts

/-- Takes the next lexeme if it is this one, and tells whether it was. -/
def skip (l : Lexeme) : Parser Bool := fun ts =>
  match ts with
  | t :: rest => if t = l then .ok true rest else .ok false ts
  | [] => .ok false []

def expect (l : Lexeme) : Parser Unit := do
  unless ← skip l do expected l.text

abbrev skipSymbol (s : Symbol) : Parser Bool := skip (.symbol s)

abbrev skipKeyword (k : Keyword) : Parser Bool := skip (.keyword k)

abbrev atSymbol (s : Symbol) : Parser Bool := at_ (.symbol s)

abbrev atKeyword (k : Keyword) : Parser Bool := at_ (.keyword k)

abbrev expectSymbol (s : Symbol) : Parser Unit := expect (.symbol s)

abbrev expectKeyword (k : Keyword) : Parser Unit := expect (.keyword k)

def peek : Parser (Option Lexeme) := fun ts => .ok ts.head? ts

def next : Parser Lexeme := fun ts =>
  match ts with
  | t :: rest => .ok t rest
  | [] => .error .unexpectedEnd []

def identifier : Parser String := fun ts =>
  match ts with
  | .identifier name :: rest => .ok name rest
  | _ => .error (.expected "identifier" ts) ts

/-- Nothing may be left. -/
def atEnd : Parser Unit := fun ts =>
  match ts with
  | [] => .ok () []
  | t :: _ => .error (.trailingToken t.text) ts

/-- At most `bound` items, as long as the next lexeme begins one. -/
def manyUpTo {α : Type} (begins : Lexeme → Bool) (item : Parser α) : Nat → Parser (List α)
  | 0 => pure []
  | n + 1 => do
    if (← peek).any begins then
      let a ← item
      return a :: (← manyUpTo begins item n)
    else return []

/-- Items as long as the next lexeme begins one. Every item takes a lexeme, so there are no more
items than lexemes. -/
def many {α : Type} (begins : Lexeme → Bool) (item : Parser α) : Parser (List α) := fun ts =>
  manyUpTo begins item ts.length ts

/-- One item or several with the symbol `s` between them. -/
def separated {α : Type} (s : Symbol) (item : Parser α) : Parser (List α) := do
  let first ← item
  return first :: (← many (· == .symbol s) (do expectSymbol s; item))

def names : Parser (List String) := separated .comma identifier

/-- The one item of a list of one. -/
def single {α : Type} (what : Sole) : List α → Parser α
  | [a] => pure a
  | as => throw (.notSingle what as.length)

end Parser

namespace Block

/-- The block as a level of an error that arose with the lexemes `rest` still unread. -/
def level (b : Block) (rest : List Lexeme) : Level :=
  ⟨b.headerText, b.header.length - rest.length, b.position⟩

/-- Reads a header with `header`, goes on with `build`, and then requires that the header was read
to its end. An error is placed in this block. -/
def read {η α : Type} (b : Block) (header : Parser η) (build : η → Except ParseError α) :
    Except ParseError α :=
  match header b.lexemes with
  | .error fault rest => .error ⟨[b.level rest], fault⟩
  | .ok h rest =>
    match build h with
    | .error e => .error (e.within (b.level rest))
    | .ok a =>
      match rest with
      | [] => .ok a
      | t :: _ => .error ⟨[b.level rest], .trailingToken t.text⟩

def readLine {α : Type} (b : Block) (header : Parser α) : Except ParseError α := b.read header .ok

/-- The first lexeme of the header is this reserved word. -/
def startsWith (b : Block) (k : Keyword) : Bool := b.lexemes.head? == some (.keyword k)

/-- Reads a block that is headed by one reserved word and a colon. -/
def readSection {α : Type} (b : Block) (k : Keyword) (build : Unit → Except ParseError α) :
    Except ParseError α :=
  b.read (do Parser.expectKeyword k; Parser.expectSymbol .colon; Parser.atEnd) build

end Block

end FactScript
