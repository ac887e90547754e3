/-!
Places in a program text. Lines and columns count from one, columns in characters; the offset counts
UTF-8 bytes from the beginning of the text.
-/
namespace FactScript

def utf8Length : List Char → Nat
  | [] => 0
  | c :: cs => c.utf8Size + utf8Length cs

@[simp] theorem utf8Length_nil : utf8Length [] = 0 := rfl

@[simp] theorem utf8Length_cons (c : Char) (cs : List Char) :
    utf8Length (c :: cs) = c.utf8Size + utf8Length cs := rfl

@[simp] theorem utf8Length_append (cs ds : List Char) :
    utf8Length (cs ++ ds) = utf8Length cs + utf8Length ds := by
  induction cs with
  | nil => simp
  | cons c cs ih => simp [ih, Nat.add_assoc]

structure Position where
  line : Nat
  column : Nat
  offset : Nat
  deriving DecidableEq, Repr

namespace Position

def start : Position := ⟨1, 1, 0⟩

/-- The place reached by going over a piece of text on the same line. -/
def after (p : Position) (cs : List Char) : Position :=
  ⟨p.line, p.column + cs.length, p.offset + utf8Length cs⟩

/-- The beginning of the line that follows the line `cs`. -/
def nextLine (p : Position) (cs : List Char) : Position :=
  ⟨p.line + 1, 1, p.offset + utf8Length cs + 1⟩

@[simp] theorem after_nil (p : Position) : p.after [] = p := rfl

theorem after_append (p : Position) (cs ds : List Char) :
    p.after (cs ++ ds) = (p.after cs).after ds := by
  simp [after, Nat.add_assoc]

def text (p : Position) : String := s!"{p.line}:{p.column}"

end Position

/-- A stretch of text, from `first` up to and not including `last`. -/
structure Span where
  first : Position
  last : Position
  deriving DecidableEq, Repr

def Span.text (s : Span) : String := s!"[{s.first.text} - {s.last.text}]"

end FactScript
