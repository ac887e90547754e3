import FactScript.Lexeme.Scan
import FactScript.Text.Decimal

/-!
How lexemes are spelled. A lexeme taken off a text is one that can be written (`Lexeme.Spelled`),
and its characters are what was taken; the other way round, a lexeme that can be written is taken
off a text that begins with it, unless the next character would have been taken along
(`Lexeme.endsAt`).
-/
namespace FactScript

namespace Text

section

variable [Alphabet]

/-- A word or a number may have this character. -/
def isWordChar (c : Char) : Bool := c.isDigit || isIdentifierContinue c

theorem isWordChar_of_digit {c : Char} (h : c.isDigit = true) : isWordChar c = true := by
  rw [isWordChar, h, Bool.true_or]

theorem isWordChar_of_continue {c : Char} (h : isIdentifierContinue c = true) :
    isWordChar c = true := by
  rw [isWordChar, h, Bool.or_true]

/-- A word: a character that may begin an identifier, and more that may go on with it. -/
def isWord : List Char → Bool
  | [] => false
  | c :: cs => isIdentifierStart c && cs.all isIdentifierContinue

theorem isIdentifierContinue_of_isWord {cs : List Char} (h : isWord cs = true) :
    ∀ c ∈ cs, isIdentifierContinue c = true := by
  cases cs with
  | nil => nofun
  | cons c cs =>
    rw [isWord, Bool.and_eq_true, List.all_eq_true] at h
    exact List.forall_mem_cons.mpr ⟨isIdentifierContinue_of_start h.1, h.2⟩

/-- An identifier is a word that is not reserved. -/
def isName (name : String) : Bool := isWord name.toList && (Keyword.ofText? name).isNone

end

theorem dot_notMem_digits {digits : String} (h : isDigits digits = true) : '.' ∉ digits.toList := by
  intro hdot
  rw [isDigits, Bool.and_eq_true] at h
  exact absurd (List.all_eq_true.mp h.2 _ hdot) (by decide)

end Text

namespace Keyword

theorem ofText?_text (k : Keyword) : ofText? k.text = some k := by cases k <;> decide

theorem text_of_ofText? {word : String} {k : Keyword} (h : ofText? word = some k) :
    k.text = word := by
  simpa using List.find?_some h

/-- A reserved word is made of the letters and the low line of ASCII. -/
theorem isWord_text [Alphabet] (k : Keyword) : Text.isWord k.text.toList = true := by
  have hstart (c : Char) (h : (c == '_' || c.isAlpha) = true) :
      Text.isIdentifierStart c = true := by
    rw [Text.isIdentifierStart]
    rw [Bool.or_eq_true] at h ⊢
    exact h.imp_right Alphabet.isStart_of_isAlpha
  have hspelled : (k.text.toList.all fun c => c == '_' || c.isAlpha) = true := by cases k <;> decide
  have hstarts (c : Char) (hc : c ∈ k.text.toList) := hstart c (List.all_eq_true.mp hspelled c hc)
  cases hchars : k.text.toList with
  | nil => cases k <;> cases hchars
  | cons c cs =>
    rw [hchars] at hstarts
    obtain ⟨hc, hcs⟩ := List.forall_mem_cons.mp hstarts
    rw [Text.isWord, hc, Bool.true_and, List.all_eq_true]
    exact fun d hd => Text.isIdentifierContinue_of_start (hcs d hd)

end Keyword

namespace Lexeme

section

variable [Alphabet]

def Spelled : Lexeme → Prop
  | keyword _ | symbol _ => True
  | identifier name => Text.isName name = true
  | number digits => Text.isDigits digits = true

@[simp] theorem spelled_keyword (k : Keyword) : (keyword k).Spelled := trivial

@[simp] theorem spelled_symbol (s : Symbol) : (symbol s).Spelled := trivial

def AllSpelled (ts : List Lexeme) : Prop := ∀ l ∈ ts, l.Spelled

@[simp] theorem allSpelled_nil : AllSpelled [] := nofun

@[simp] theorem allSpelled_cons {l : Lexeme} {ts : List Lexeme} :
    AllSpelled (l :: ts) ↔ l.Spelled ∧ AllSpelled ts := List.forall_mem_cons

@[simp] theorem allSpelled_append {ts us : List Lexeme} :
    AllSpelled (ts ++ us) ↔ AllSpelled ts ∧ AllSpelled us := List.forall_mem_append

def endsAt (l : Lexeme) (c : Char) : Bool :=
  match l with
  | symbol s => s.chars.length == 2 || (Symbol.ofChars? (s.chars ++ [c])).isNone
  | number _ => !c.isDigit
  | keyword _ | identifier _ => !Text.isIdentifierContinue c

end

end Lexeme

theorem Symbol.chars_append_of_take? {cs rest : List Char} {s : Symbol}
    (h : take? cs = some (s, rest)) :
    cs = s.chars ++ rest := by
  unfold take? at h
  split at h
  · next s' hs =>
    cases h
    rw [chars_of_ofChars? hs, List.take_append_drop]
  · simp only [Option.map_eq_some_iff, Prod.mk.injEq] at h
    obtain ⟨s', hs, rfl, rfl⟩ := h
    rw [chars_of_ofChars? hs, List.take_append_drop]

theorem Symbol.chars_ne_nil (s : Symbol) : s.chars ≠ [] := by cases s <;> decide

theorem Symbol.isWordChar_of_mem [Alphabet] {s : Symbol} {c : Char} (h : c ∈ s.chars) :
    Text.isWordChar c = false := by
  have hdigits : ∀ s ∈ all, s.chars.all (!·.isDigit) = true := by decide
  have hdigit := List.all_eq_true.mp (hdigits s (mem_all s)) c h
  rw [Bool.not_eq_true'] at hdigit
  rw [Text.isWordChar, hdigit, Text.isIdentifierContinue, Alphabet.isContinue_of_mem_chars h]
  rfl

theorem Symbol.isIdentifierStart_of_mem [Alphabet] {s : Symbol} {c : Char} (h : c ∈ s.chars) :
    Text.isIdentifierStart c = false := by
  rw [Bool.eq_false_iff]
  intro hstart
  have hword := Text.isWordChar_of_continue (Text.isIdentifierContinue_of_start hstart)
  rw [Symbol.isWordChar_of_mem h] at hword
  cases hword

theorem Symbol.isWord_chars [Alphabet] (s : Symbol) : Text.isWord s.chars = false := by
  cases hchars : s.chars with
  | nil => rfl
  | cons c cs =>
    have hc : c ∈ s.chars := by rw [hchars]; exact List.mem_cons_self
    rw [Text.isWord, Symbol.isIdentifierStart_of_mem hc, Bool.false_and]

theorem Symbol.isName_text [Alphabet] (s : Symbol) : Text.isName s.text = false := by
  rw [Text.isName, Symbol.text, String.toList_ofList, s.isWord_chars, Bool.false_and]

theorem Symbol.take?_eq_none [Alphabet] {c : Char} (h : Text.isWordChar c = true) (cs : List Char) :
    take? (c :: cs) = none := by
  cases hs : take? (c :: cs) with
  | none => rfl
  | some a =>
    obtain ⟨s, rest⟩ := a
    have hc := Symbol.chars_append_of_take? hs
    cases hchars : s.chars with
    | nil => exact absurd hchars s.chars_ne_nil
    | cons d ds =>
      rw [hchars, List.cons_append] at hc
      obtain ⟨rfl, -⟩ := List.cons.inj hc
      have hno := s.isWordChar_of_mem (c := c) (by simp [hchars])
      rw [h] at hno
      cases hno

theorem Symbol.take?_chars [Alphabet] {s : Symbol} {rest : List Char}
    (hr : ∀ c ∈ rest.head?, (Lexeme.symbol s).endsAt c = true) :
    take? (s.chars ++ rest) = some (s, rest) := by
  by_cases hlen : s.chars.length = 2
  · rw [take?, List.take_left' hlen, ofChars?_chars, List.drop_left' hlen]
  · have hone : s.chars.length = 1 := by cases s <;> simp_all [chars]
    obtain ⟨c, hc⟩ := List.length_eq_one_iff.mp hone
    have hs := hc ▸ ofChars?_chars s
    rw [hc]
    cases rest with
    | nil => simp [take?, hs]
    | cons d rest =>
      have hd : ofChars? [c, d] = none := by simpa [Lexeme.endsAt, hc] using hr d rfl
      simp [take?, hd, hs]

theorem takeWhile_append_of_head {p : Char → Bool} {cs rest : List Char}
    (hcs : ∀ c ∈ cs, p c = true) (hr : ∀ c ∈ rest.head?, p c = false) :
    (cs ++ rest).takeWhile p = cs := by
  rw [List.takeWhile_append_of_pos hcs]
  cases rest with
  | nil => simp
  | cons c rest => simp [hr c rfl]

theorem dropWhile_append_of_head {p : Char → Bool} {cs rest : List Char}
    (hcs : ∀ c ∈ cs, p c = true) (hr : ∀ c ∈ rest.head?, p c = false) :
    (cs ++ rest).dropWhile p = rest := by
  rw [List.dropWhile_append_of_pos hcs]
  cases rest with
  | nil => simp
  | cons c rest => simp [hr c rfl]

namespace Lexeme

variable {l : Lexeme} {cs rest : List Char}

theorem chars_ofWord (word : String) : (ofWord word).chars = word.toList := by
  unfold ofWord
  split
  · next k hk => rw [chars, text, Keyword.text_of_ofText? hk]
  · rfl

variable [Alphabet]

theorem spelled_ofWord {word : String} (h : Text.isWord word.toList = true) :
    (ofWord word).Spelled := by
  unfold ofWord
  split
  · trivial
  · next hk => simp [Spelled, Text.isName, h, hk]

/-- What is taken can be written, and is what stood at the front. -/
theorem spelled_of_take? (h : take? cs = some (l, rest)) : l.Spelled ∧ cs = l.chars ++ rest := by
  unfold take? at h
  split at h
  · next s r hs =>
    cases h
    exact ⟨trivial, by rw [Symbol.chars_append_of_take? hs]; simp [chars, text, Symbol.text]⟩
  · cases h
  · next c cs _ =>
    split at h
    · next hd =>
      cases h
      refine ⟨?_, by simp [chars, text]⟩
      simp [Spelled, Text.isDigits, hd, List.all_takeWhile]
    · split at h
      · next hi =>
        cases h
        have hword : Text.isWord ((c :: cs).takeWhile Text.isIdentifierContinue) = true := by
          rw [List.takeWhile_cons, if_pos (Text.isIdentifierContinue_of_start hi)]
          simp [Text.isWord, hi, List.all_takeWhile]
        refine ⟨spelled_ofWord (by simpa using hword), ?_⟩
        rw [chars_ofWord, String.toList_ofList, List.takeWhile_append_dropWhile]
      · cases h

theorem take?_word {w : List Char} (hw : Text.isWord w = true)
    (hr : ∀ c ∈ rest.head?, Text.isIdentifierContinue c = false) :
    take? (w ++ rest) = some (ofWord (String.ofList w), rest) := by
  cases w with
  | nil => cases hw
  | cons c cs =>
    have hall := Text.isIdentifierContinue_of_isWord hw
    rw [Text.isWord, Bool.and_eq_true] at hw
    have hsymbol :=
      Symbol.take?_eq_none (Text.isWordChar_of_continue (hall c List.mem_cons_self)) (cs ++ rest)
    unfold take?
    simp only [List.cons_append, hsymbol, Text.isDigit_of_start hw.1, hw.1, if_true,
      Bool.false_eq_true, if_false]
    rw [← List.cons_append, takeWhile_append_of_head hall hr, dropWhile_append_of_head hall hr]

theorem take?_number {digits : String} (hd : Text.isDigits digits = true)
    (hr : ∀ c ∈ rest.head?, c.isDigit = false) :
    take? (digits.toList ++ rest) = some (number digits, rest) := by
  rw [Text.isDigits, Bool.and_eq_true] at hd
  have hall := List.all_eq_true.mp hd.2
  cases hcs : digits.toList with
  | nil => simp [hcs] at hd
  | cons c cs =>
    rw [hcs] at hall
    have hc := hall c List.mem_cons_self
    have hsymbol := Symbol.take?_eq_none (Text.isWordChar_of_digit hc) (cs ++ rest)
    unfold take?
    simp only [List.cons_append, hsymbol, hc, if_true]
    rw [← List.cons_append, takeWhile_append_of_head hall hr, dropWhile_append_of_head hall hr,
      ← hcs, String.ofList_toList]

/-- A lexeme that ends where the rest of the text begins is taken off the front. -/
theorem take?_chars (hl : l.Spelled) (hr : ∀ c ∈ rest.head?, l.endsAt c = true) :
    take? (l.chars ++ rest) = some (l, rest) := by
  cases l with
  | symbol s =>
    have hs := Symbol.take?_chars (s := s) hr
    simp only [take?, chars, text, Symbol.text, String.toList_ofList]
    rw [hs]
  | number digits => exact take?_number hl (by simpa [endsAt] using hr)
  | identifier name =>
    rw [Spelled, Text.isName, Bool.and_eq_true, Option.isNone_iff_eq_none] at hl
    have hword := take?_word hl.1 (by simpa [endsAt] using hr)
    rwa [String.ofList_toList, ofWord, hl.2] at hword
  | keyword k =>
    have hword := take?_word k.isWord_text (by simpa [endsAt] using hr)
    rwa [String.ofList_toList, ofWord, k.ofText?_text] at hword

end Lexeme

end FactScript
