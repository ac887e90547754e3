/-!
The words of the language: reserved words, symbols, identifiers and runs of digits.
-/
namespace FactScript

inductive Keyword
  | concept | inherit | typeMember | varMember | property | ifKw | thenKw | forallKw | exist
  | haveKw | var | type | fn | localKw | pub | know | claim | proof | importKw | package
  | returnKw | not | is | use | member | as
  deriving DecidableEq, Repr

namespace Keyword

def all : List Keyword :=
  [concept, inherit, typeMember, varMember, property, ifKw, thenKw, forallKw, exist, haveKw, var,
   type, fn, localKw, pub, know, claim, proof, importKw, package, returnKw, not, is, use, member,
   as]

def text : Keyword → String
  | concept => "concept"
  | inherit => "inherit"
  | typeMember => "type_member"
  | varMember => "var_member"
  | property => "property"
  | ifKw => "if"
  | thenKw => "then"
  | forallKw => "forall"
  | exist => "exist"
  | haveKw => "have"
  | var => "var"
  | type => "type"
  | fn => "fn"
  | localKw => "local"
  | pub => "pub"
  | know => "know"
  | claim => "claim"
  | proof => "proof"
  | importKw => "import"
  | package => "package"
  | returnKw => "return"
  | not => "not"
  | is => "is"
  | use => "use"
  | member => "member"
  | as => "as"

def ofText? (word : String) : Option Keyword := all.find? (·.text == word)

end Keyword

inductive Symbol
  | colon | lbracket | rbracket | lparen | rparen | comma | dollar | eq | slash | plus | minus
  | star | caret | lt | gt | bang | pipe | tilde | amp | dot | question
  | colonColon | plusPlus | minusMinus | andAnd | orOr | eqEq | notEq
  deriving DecidableEq, Repr

namespace Symbol

def all : List Symbol :=
  [colon, lbracket, rbracket, lparen, rparen, comma, dollar, eq, slash, plus, minus, star, caret,
   lt, gt, bang, pipe, tilde, amp, dot, question, colonColon, plusPlus, minusMinus, andAnd, orOr,
   eqEq, notEq]

def chars : Symbol → List Char
  | colon => [':']
  | lbracket => ['[']
  | rbracket => [']']
  | lparen => ['(']
  | rparen => [')']
  | comma => [',']
  | dollar => ['$']
  | eq => ['=']
  | slash => ['/']
  | plus => ['+']
  | minus => ['-']
  | star => ['*']
  | caret => ['^']
  | lt => ['<']
  | gt => ['>']
  | bang => ['!']
  | pipe => ['|']
  | tilde => ['~']
  | amp => ['&']
  | dot => ['.']
  | question => ['?']
  | colonColon => [':', ':']
  | plusPlus => ['+', '+']
  | minusMinus => ['-', '-']
  | andAnd => ['&', '&']
  | orOr => ['|', '|']
  | eqEq => ['=', '=']
  | notEq => ['!', '=']

def text (s : Symbol) : String := String.ofList s.chars

def ofChars? (cs : List Char) : Option Symbol := all.find? (·.chars == cs)

/-- The symbol may stand between the operands of a relational fact. -/
def isRelational : Symbol → Bool
  | eq | eqEq | notEq | lt | gt => true
  | _ => false

theorem mem_all (s : Symbol) : s ∈ all := by cases s <;> decide

theorem ofChars?_chars (s : Symbol) : ofChars? s.chars = some s := by cases s <;> decide

theorem chars_injective {s s' : Symbol} (h : s.chars = s'.chars) : s = s' := by
  have hs := s.ofChars?_chars
  rw [h, s'.ofChars?_chars] at hs
  exact (Option.some.inj hs).symm

theorem chars_of_ofChars? {cs : List Char} {s : Symbol} (h : ofChars? cs = some s) :
    s.chars = cs := by
  simpa using List.find?_some h

end Symbol

inductive Lexeme
  | keyword (word : Keyword)
  | symbol (sign : Symbol)
  | identifier (name : String)
  | number (digits : String)
  deriving DecidableEq, Repr

namespace Lexeme

def text : Lexeme → String
  | keyword k => k.text
  | symbol s => s.text
  | identifier name => name
  | number digits => digits

def chars (l : Lexeme) : List Char := l.text.toList

/-- A word is a reserved one or else an identifier. -/
def ofWord (word : String) : Lexeme :=
  match Keyword.ofText? word with
  | some k => keyword k
  | none => identifier word

end Lexeme

end FactScript
