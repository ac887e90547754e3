import FactScript.Parser.Basic
import FactScript.Term.Printer
import FactScript.Text.Decimal

/-!
Parsers for terms, types and the facts that fit on one line. Terms and types contain one another, so
each parser is first written over given parsers for the terms and types inside it (`Nested`); `term`
and `type` then tie the knot, one level of nesting for each lexeme that is left.
-/
namespace FactScript

/-- An operator between two operands, with how strongly it binds each of them. -/
structure Infix where
  symbol : Symbol
  left : Nat
  right : Nat

namespace Infix

def ofSymbol? (s : Symbol) : Option Infix :=
  match s with
  | .plus | .minus => some ⟨s, 60, 61⟩
  | .star | .slash => some ⟨s, 70, 71⟩
  | .caret => some ⟨s, 90, 90⟩
  | _ => none

def ofLexeme? : Lexeme → Option Infix
  | .symbol s => ofSymbol? s
  | _ => none

/-- How strongly a leading minus binds its operand. -/
def negation : Nat := 80

end Infix

/-- The call that a predicate is written as; in a dotted name, the last segment carries the
arguments. -/
def Term.toCall? : Term → Option Call
  | .call c => some c
  | .chain parts =>
    match parts.getLast? with
    | some (.call last) => some ⟨.chain (parts.dropLast ++ [last.callee]), last.typeArgs, last.args⟩
    | _ => none
  | _ => none

namespace Parser

def number : Parser Term := fun ts =>
  match ts with
  | .number whole :: rest =>
    if isWholePart whole then
      match rest with
      | .symbol .dot :: .number fraction :: rest' =>
        if fitsWord fraction then .ok (.number (whole ++ "." ++ fraction)) rest'
        else .error (.invalidNumber (whole ++ "." ++ fraction)) (.number fraction :: rest')
      | .symbol .dot :: rest' => .error (.invalidNumber (whole ++ ".")) rest'
      | _ => .ok (.number whole) rest
    else .error (.invalidNumber whole) rest
  | [] => .error .unexpectedEnd []
  | _ => .error (.expected "number" ts) ts

def typeArg : Parser TypeArg := do
  if ← skipKeyword .as then
    expectSymbol .lparen
    let name ← identifier
    expectSymbol .comma
    let concept ← identifier
    expectSymbol .rparen
    return .ascribed name concept
  else return .plain (← identifier)

def typeArgs : Parser (List TypeArg) := do
  expectSymbol .lbracket
  let args ← separated .comma typeArg
  expectSymbol .rbracket
  return args

def genericParam : Parser GenericParam := do
  let name ← identifier
  return ⟨name, ← identifier⟩

def genericParams : Parser (List GenericParam) := do
  expectSymbol .lbracket
  let params ← separated .comma genericParam
  expectSymbol .rbracket
  return params

/-- The parsers for what stands inside a larger term or type. -/
structure Nested where
  term : Parser Term
  type : Parser Ty

namespace Nested

variable (inner : Nested)

def args : Parser (List Term) := do
  expectSymbol .lparen
  if ← skipSymbol .rparen then return []
  let args ← separated .comma inner.term
  expectSymbol .rparen
  return args

/-- One application: type arguments, arguments, or both. -/
def application : Parser (List TypeArg × List Term) := do
  let types ← if ← atSymbol .lbracket then typeArgs else pure []
  let values ← if ← atSymbol .lparen then inner.args else pure []
  return (types, values)

/-- A name and what it is applied to, one application after the other. -/
def segment : Parser Term := do
  let name ← identifier
  let applications ← many (fun l => l == .symbol .lbracket || l == .symbol .lparen)
    inner.application
  return applications.foldl (fun callee a => .call ⟨callee, a.1, a.2⟩) (.atom name)

def chain : Parser Term := do
  match ← separated .dot inner.segment with
  | [part] => return part
  | parts => return .chain parts

def predication (holds : Bool) : Parser Predication := do
  expectSymbol .dollar
  let term ← inner.chain
  match term.toCall? with
  | some call => return ⟨holds, call⟩
  | none => throw (.expectedCall term.text)

/-- A property said of a term, `x is p`, or one relation between two or more terms. -/
def relational (holds : Bool) : Parser Fact := do
  let first ← inner.term
  if ← skipKeyword .is then
    let name ← identifier
    let types ← if ← atSymbol .lbracket then
        let arg ← single .typeArgument (← typeArgs)
        pure [arg]
      else pure []
    return .property holds ⟨.atom name, types, [first]⟩
  match ← peek with
  | some (.symbol s) =>
    if s.isRelational then
      let others ← many (· == .symbol s) (do expectSymbol s; inner.term)
      return .relational holds s (first :: others)
    else throw (.notRelational s)
  | _ => expected "relational operator"

def specificFact : Parser Fact := do
  let holds := !(← skipKeyword .not)
  if ← atKeyword .forallKw then
    if holds then expected "relational or property fact" else throw .negatedUniversal
  else if ← atSymbol .dollar then return (← inner.predication holds).fact
  else inner.relational holds

/-- Facts after a double colon, or none. -/
def guards : Parser (List Fact) := do
  if ← skipSymbol .colonColon then separated .comma inner.specificFact else return []

def param : Parser Param := do
  let name ← identifier
  return ⟨name, ← inner.type⟩

def params : Parser (List Param) := separated .comma inner.param

def valueParams : Parser (List Param) := do
  expectSymbol .lparen
  if ← skipSymbol .rparen then return []
  let params ← inner.params
  expectSymbol .rparen
  return params

/-- Type parameters in brackets, with guards of their own, or none. -/
def guardedGenerics : Parser (List GenericParam × List Fact) := do
  if ← skipSymbol .lbracket then
    let params ← separated .comma genericParam
    let guards ← inner.guards
    expectSymbol .rbracket
    return (params, guards)
  else return ([], [])

/-- Parameters in parentheses, possibly none, with guards. -/
def guardedParams : Parser (List Param × List Fact) := do
  expectSymbol .lparen
  let params ← if (← atSymbol .rparen) || (← atSymbol .colonColon) then pure [] else inner.params
  let guards ← inner.guards
  expectSymbol .rparen
  return (params, guards)

/-- All guards of a signature are kept together, those of the type parameters first. -/
def signature : Parser Signature := do
  let (generics, guards) ← inner.guardedGenerics
  let (params, guards') ← inner.guardedParams
  return ⟨generics, params, guards ++ guards'⟩

def propertyType : Parser Signature := do
  expectKeyword .property
  inner.signature

def fnType : Parser (Signature × Ty) := do
  expectKeyword .fn
  let signature ← inner.signature
  return (signature, ← inner.type)

def placeholder : Parser Placeholder := do
  if ← skipKeyword .fn then return .fn
  else if ← skipKeyword .var then return .var
  else if ← skipKeyword .property then return .property
  else expected "fn, var or property"

/-- A type whose parts are read by `inner`. -/
def typeStep : Parser Ty := do
  if ← atKeyword .fn then
    let (signature, result) ← inner.fnType
    return .fn signature result
  else if ← atKeyword .property then return .property (← inner.propertyType)
  else if ← skipSymbol .question then return .placeholder (← placeholder)
  else return .named (← identifier)

def ascription : Parser Term := do
  expectKeyword .as
  expectSymbol .lparen
  let term ← inner.term
  expectSymbol .comma
  let signature ← inner.propertyType
  expectSymbol .rparen
  return .ascribed term signature

/-- A term that is no application of an operator, or a term in parentheses. -/
def atom : Parser Term := do
  if ← skipSymbol .lparen then
    let term ← inner.term
    expectSymbol .rparen
    return term
  else
    match ← peek with
    | none => throw .unexpectedEnd
    | some (.keyword .as) => inner.ascription
    | some (.number _) => number
    | some (.identifier _) => inner.chain
    | some _ => expected "expression"

end Nested

mutual

/-- A term in which every operator binds at least as strongly as `strength`; at most `bound`
operators are read. -/
def climb (atom : Parser Term) : (bound strength : Nat) → Parser Term
  | 0, _ => atom
  | n + 1, strength => do
    let first ←
      if strength ≤ Infix.negation then
        if ← skipSymbol .minus then
          let operand ← climb atom n (Infix.negation + 1)
          pure (.apply .minus [operand])
        else atom
      else atom
    extend atom n strength first

/-- Goes on from a left operand with the operators that bind it strongly enough. -/
def extend (atom : Parser Term) : (bound strength : Nat) → Term → Parser Term
  | 0, _, left => pure left
  | n + 1, strength, left => do
    match (← peek).bind Infix.ofLexeme? with
    | none => return left
    | some op =>
      if op.left < strength then return left
      else
        expectSymbol op.symbol
        let right ← climb atom n op.right
        extend atom n strength (.apply op.symbol [left, right])

end

/-- Operands read by `atom` with operators between and before them. Every operator is a lexeme, so
there are no more operators than lexemes. -/
def operation (atom : Parser Term) : Parser Term := fun ts => climb atom ts.length 0 ts

/-- The parsers for terms and types of at most this many lexemes. -/
def nested : Nat → Nested
  | 0 => ⟨throw .unexpectedEnd, expected "identifier"⟩
  | n + 1 =>
    let inner := nested n
    ⟨operation inner.atom, inner.typeStep⟩

def term : Parser Term := fun ts => (nested ts.length).term ts

def type : Parser Ty := fun ts => (nested ts.length).type ts

def full : Nested := ⟨term, type⟩

end Parser

def Term.ofBlock (b : Block) : Except ParseError Term := b.readLine Parser.term

end FactScript
