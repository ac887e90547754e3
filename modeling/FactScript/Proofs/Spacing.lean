import FactScript.Proofs.Nesting
import FactScript.Term.Printer
import Mathlib.Data.List.Chain

/-!
Printed lines. Nothing but spaces stands between the pieces of a line, so a line can be read again
if no two lexemes run together; `Tidy` says so piece by piece, and `Sealed` says it of a part of a
line that goes on with a symbol or a space.
-/
namespace FactScript

namespace Text

variable [Alphabet] {c : Char}

theorem isBlank_of_wordChar (h : isWordChar c = true) : isBlank c = false := by
  rw [isWordChar, Bool.or_eq_true] at h
  rcases h with h | h
  · have hdigit : Ranges.has [(48, 57)] c = true :=
      Ranges.has_iff.mpr ⟨_, List.mem_singleton_self _, isDigit_iff.mp h⟩
    exact Ranges.has_eq_false_of_disjoint (by decide) hdigit
  · exact Alphabet.isBlank_of_isContinue h

theorem isWordChar_space : isWordChar ' ' = false := by
  rw [Bool.eq_false_iff]
  intro h
  exact absurd (isBlank_of_wordChar h) (by decide)

end Text

namespace Symbol

/-- Brackets and the like: part of no longer symbol. -/
def isPunctuation : Symbol → Bool
  | lbracket | rbracket | lparen | rparen | comma | dollar | dot | question => true
  | _ => false

/-- The characters that a symbol of two characters can end with. -/
def seconds : List Char := [':', '+', '-', '&', '|', '=']

theorem extension {s s' : Symbol} {c : Char} (h : ofChars? (s.chars ++ [c]) = some s') :
    s.isPunctuation = false ∧ c ∈ seconds := by
  have hall : ∀ s ∈ all, ∀ s' ∈ all, s'.chars.dropLast = s.chars →
      s.isPunctuation = false ∧ s'.chars.getLast?.all seconds.contains = true := by decide +kernel
  have hchars := chars_of_ofChars? h
  obtain ⟨hs, hc⟩ := hall s (mem_all s) s' (mem_all s') (by simp [hchars])
  exact ⟨hs, by simpa [hchars] using hc⟩

theorem isBlank_of_mem {s : Symbol} {c : Char} (h : c ∈ s.chars) : Text.isBlank c = false := by
  have hall : ∀ s ∈ all, s.chars.all (!Text.isBlank ·) = true := by decide +kernel
  simpa using List.all_eq_true.mp (hall s (mem_all s)) c h

theorem notMem_seconds_of_isPunctuation {s : Symbol} {c : Char} (hs : s.isPunctuation = true)
    (h : c ∈ s.chars) : c ∉ seconds := by
  have hall : ∀ s ∈ all, s.isPunctuation = true → s.chars.all (!seconds.contains ·) = true := by
    decide +kernel
  simpa using List.all_eq_true.mp (hall s (mem_all s) hs) c h

theorem notMem_seconds_of_wordChar [Alphabet] {c : Char} (h : Text.isWordChar c = true) :
    c ∉ seconds := by
  have hseconds : seconds.all (fun c => all.any (·.chars.contains c)) = true := by decide
  intro hc
  obtain ⟨s, -, hs⟩ := List.any_eq_true.mp (List.all_eq_true.mp hseconds c hc)
  rw [isWordChar_of_mem (List.contains_iff_mem.mp hs)] at h
  cases h

end Symbol

namespace Lexeme

@[simp] def isSymbol : Lexeme → Bool
  | symbol _ => true
  | _ => false

variable [Alphabet] {l : Lexeme}

theorem chars_ne_nil (hl : l.Spelled) : l.chars ≠ [] := by
  cases l with
  | keyword k => cases k <;> decide
  | symbol s => simpa [chars, text, Symbol.text] using s.chars_ne_nil
  | identifier name =>
    intro hnil
    rw [Spelled, Text.isName, show name.toList = [] from hnil] at hl
    cases hl
  | number digits =>
    intro hnil
    rw [Spelled, Text.isDigits, show digits.toList = [] from hnil] at hl
    cases hl

theorem isWordChar_of_mem (hl : l.Spelled) (hs : l.isSymbol = false) :
    ∀ c ∈ l.chars, Text.isWordChar c = true := by
  intro c hc
  cases l with
  | keyword k =>
    exact Text.isWordChar_of_continue (Text.isIdentifierContinue_of_isWord k.isWord_text c hc)
  | symbol s => cases hs
  | identifier name =>
    rw [Spelled, Text.isName, Bool.and_eq_true] at hl
    exact Text.isWordChar_of_continue (Text.isIdentifierContinue_of_isWord hl.1 c hc)
  | number digits =>
    rw [Spelled, Text.isDigits, Bool.and_eq_true, List.all_eq_true] at hl
    exact Text.isWordChar_of_digit (hl.2 c hc)

theorem isBlank_of_mem_chars (hl : l.Spelled) : ∀ c ∈ l.chars, Text.isBlank c = false := by
  intro c hc
  cases l with
  | symbol s =>
    rw [chars, text, Symbol.text, String.toList_ofList] at hc
    exact Symbol.isBlank_of_mem hc
  | keyword | identifier | number =>
    exact Text.isBlank_of_wordChar (isWordChar_of_mem hl rfl c hc)

theorem endsAt_symbol {s : Symbol} {c : Char} (h : s.isPunctuation = true ∨ c ∉ Symbol.seconds) :
    (symbol s).endsAt c = true := by
  rw [endsAt, Bool.or_eq_true, Option.isNone_iff_eq_none]
  right
  cases hext : Symbol.ofChars? (s.chars ++ [c]) with
  | none => rfl
  | some s' =>
    obtain ⟨hs, hc⟩ := Symbol.extension hext
    rcases h with h | h
    · rw [hs] at h
      cases h
    · exact absurd hc h

/-- Before a character that is in no word and no number every word and number ends. -/
theorem endsAt_of_not_wordChar (hs : l.isSymbol = false) {c : Char}
    (hc : Text.isWordChar c = false) :
    l.endsAt c = true := by
  rw [Text.isWordChar, Bool.or_eq_false_iff] at hc
  cases l with
  | keyword | identifier => rw [endsAt, hc.2]; rfl
  | symbol s => cases hs
  | number => rw [endsAt, hc.1]; rfl

end Lexeme

namespace Piece

def lexemes (ps : List Piece) : List Lexeme :=
  ps.filterMap fun | lexeme l => some l | space => none

@[simp] theorem lexemes_nil : lexemes [] = [] := rfl

@[simp] theorem lexemes_cons_lexeme (l : Lexeme) (ps : List Piece) :
    lexemes (lexeme l :: ps) = l :: lexemes ps := rfl

@[simp] theorem lexemes_cons_space (ps : List Piece) : lexemes (space :: ps) = lexemes ps := rfl

@[simp] theorem lexemes_append (ps qs : List Piece) :
    lexemes (ps ++ qs) = lexemes ps ++ lexemes qs :=
  List.filterMap_append

/-- A piece before which every word and every number ends. -/
def isBreak : Piece → Bool
  | space | lexeme (.symbol _) => true
  | lexeme _ => false

/-- A piece before which every symbol ends. -/
def isClosed : Piece → Bool
  | lexeme (.symbol s) => s.isPunctuation
  | lexeme _ | space => true

def apart : Piece → Piece → Bool
  | space, _ => true
  | lexeme (.symbol s), y => s.isPunctuation || y.isClosed
  | lexeme _, y => y.isBreak

section

variable [Alphabet]

structure Tidy (ps : List Piece) : Prop where
  spelled : Lexeme.AllSpelled (lexemes ps)
  apart : ps.IsChain fun x y => x.apart y = true

def Sealed (ps : List Piece) : Prop := Tidy (ps ++ [sym .colon])

theorem endsAt_of_isBreak {l : Lexeme} {y : Piece} (hl : l.isSymbol = false)
    (hy : y.isBreak = true) :
    ∀ c ∈ y.chars.head?, l.endsAt c = true := by
  intro c hc
  have hmem : c ∈ y.chars := List.mem_of_mem_head? hc
  apply Lexeme.endsAt_of_not_wordChar hl
  match y with
  | space =>
    cases hc
    exact Text.isWordChar_space
  | lexeme (.symbol s) =>
    simp only [chars, Lexeme.chars, Lexeme.text, Symbol.text, String.toList_ofList] at hmem
    exact Symbol.isWordChar_of_mem hmem

theorem notMem_seconds_of_isClosed {y : Piece} (hy : Lexeme.AllSpelled (lexemes [y]))
    (h : y.isClosed = true) : ∀ c ∈ y.chars.head?, c ∉ Symbol.seconds := by
  intro c hc
  have hmem : c ∈ y.chars := List.mem_of_mem_head? hc
  cases y with
  | space =>
    cases hc
    decide
  | lexeme l =>
    cases l with
    | symbol s =>
      simp only [chars, Lexeme.chars, Lexeme.text, Symbol.text, String.toList_ofList] at hmem
      exact Symbol.notMem_seconds_of_isPunctuation h hmem
    | keyword | identifier | number =>
      have hword := Lexeme.isWordChar_of_mem (Lexeme.allSpelled_cons.mp hy).1 rfl c hmem
      exact Symbol.notMem_seconds_of_wordChar hword

theorem endsAt_of_apart {l : Lexeme} {y : Piece} (hy : Lexeme.AllSpelled (lexemes [y]))
    (h : (lexeme l).apart y = true) : ∀ c ∈ y.chars.head?, l.endsAt c = true := by
  intro c hc
  cases l with
  | symbol s =>
    rw [apart, Bool.or_eq_true] at h
    exact Lexeme.endsAt_symbol
      (h.imp_right fun hclosed => notMem_seconds_of_isClosed hy hclosed c hc)
  | keyword | identifier | number => exact endsAt_of_isBreak rfl h c hc

theorem head?_line {x : Piece} (hx : Lexeme.AllSpelled (lexemes [x])) (ps : List Piece) :
    (line (x :: ps)).head? = x.chars.head? := by
  have hne : x.chars ≠ [] := by
    cases x with
    | space => exact List.cons_ne_nil _ _
    | lexeme l => exact Lexeme.chars_ne_nil (Lexeme.allSpelled_cons.mp hx).1
  rw [line, List.flatMap_cons, List.head?_append_of_ne_nil _ hne]

theorem Tidy.of_cons {x : Piece} {ps : List Piece} (h : Tidy (x :: ps)) :
    Lexeme.AllSpelled (lexemes [x]) ∧ (∀ y ∈ ps.head?, x.apart y = true) ∧ Tidy ps := by
  have hspelled : Lexeme.AllSpelled (lexemes ([x] ++ ps)) := h.spelled
  rw [lexemes_append, Lexeme.allSpelled_append] at hspelled
  obtain ⟨hhead, hchain⟩ := List.isChain_cons.mp h.apart
  exact ⟨hspelled.1, hhead, hspelled.2, hchain⟩

/-- Reading a tidy line gives its lexemes. -/
theorem Tidy.scan_line {ps : List Piece} (h : Tidy ps) (p : Position) :
    ∃ ts, Token.scan p (line ps) = .ok ts ∧ ts.map Token.lexeme = lexemes ps := by
  induction ps generalizing p with
  | nil => exact ⟨[], by rw [line, List.flatMap_nil, Token.scan], rfl⟩
  | cons x ps ih =>
    obtain ⟨hx, hapart, hps⟩ := h.of_cons
    cases x with
    | space =>
      obtain ⟨ts, hts, hlexemes⟩ := ih hps (p.after [' '])
      exact ⟨ts, Token.scan_cons_eq_ok.mpr (.inl ⟨rfl, hts⟩), hlexemes⟩
    | lexeme l =>
      have hl : l.Spelled := (Lexeme.allSpelled_cons.mp hx).1
      have hends : ∀ c ∈ (line ps).head?, l.endsAt c = true := by
        cases ps with
        | nil => simp [line]
        | cons y ps =>
          rw [head?_line hps.of_cons.1]
          exact endsAt_of_apart hps.of_cons.1 (hapart y rfl)
      obtain ⟨ts, hts, hlexemes⟩ := ih hps (p.after l.chars)
      refine ⟨⟨l, p, p.after l.chars⟩ :: ts, ?_, by simp [hlexemes]⟩
      have htake := Lexeme.take?_chars hl hends
      have hline : line (lexeme l :: ps) = l.chars ++ line ps := rfl
      rw [hline]
      cases hchars : l.chars with
      | nil => exact absurd hchars (Lexeme.chars_ne_nil hl)
      | cons c cs =>
        have hc : c ≠ ' ' := by
          rintro rfl
          exact absurd (Lexeme.isBlank_of_mem_chars hl ' ' (by simp [hchars])) (by decide)
        rw [hchars] at htake
        exact Token.scan_cons_eq_ok.mpr (.inr ⟨hc, l, line ps, ts, htake, hts, by rw [hchars]⟩)

end

def Leads (ps : List Piece) : Prop := ∃ l qs, ps = .lexeme l :: qs

theorem leads_cons (l : Lexeme) (ps : List Piece) : Leads (.lexeme l :: ps) := ⟨l, ps, rfl⟩

theorem Leads.append {ps : List Piece} (h : Leads ps) (qs : List Piece) : Leads (ps ++ qs) := by
  obtain ⟨l, ps, rfl⟩ := h
  exact leads_cons l (ps ++ qs)

theorem apart_of_colon {x y : Piece} (h : x.apart (sym .colon) = true) (hy : y.isBreak = true) :
    x.apart y = true := by
  match x with
  | space => rfl
  | lexeme (.symbol s) =>
    have hs : s.isPunctuation = true := by simpa [apart, isClosed, Symbol.isPunctuation] using h
    rw [apart, hs, Bool.true_or]
  | lexeme (.keyword _) | lexeme (.identifier _) | lexeme (.number _) => exact hy

section Sealed

variable [Alphabet] {ps qs : List Piece} {s : Symbol}

@[simp] theorem sealed_nil : Sealed [] := ⟨by simp, List.isChain_singleton _⟩

@[simp] theorem sealed_cons {x : Piece} : Sealed (x :: ps) ↔
    Lexeme.AllSpelled (lexemes [x]) ∧
      (∀ y ∈ (ps ++ [sym .colon]).head?, x.apart y = true) ∧ Sealed ps := by
  constructor
  · exact Tidy.of_cons
  · rintro ⟨hx, hhead, hps⟩
    have hspelled : Lexeme.AllSpelled (lexemes ([x] ++ (ps ++ [sym .colon]))) := by
      rw [lexemes_append, Lexeme.allSpelled_append]
      exact ⟨hx, hps.spelled⟩
    exact ⟨hspelled, List.isChain_cons.mpr ⟨hhead, hps.apart⟩⟩

theorem Sealed.append (hp : Sealed ps) (hq : Sealed qs) (hb : ∀ y ∈ qs.head?, y.isBreak = true) :
    Sealed (ps ++ qs) := by
  induction ps with
  | nil => exact hq
  | cons x ps ih =>
    obtain ⟨hx, hhead, hps⟩ := sealed_cons.mp hp
    refine sealed_cons.mpr ⟨hx, ?_, ih hps⟩
    intro y hy
    cases ps with
    | cons z ps => exact hhead y hy
    | nil =>
      cases qs with
      | nil => exact hhead y hy
      | cons z qs =>
        cases hy
        exact apart_of_colon (hhead _ rfl) (hb _ rfl)

theorem Sealed.punctuation_cons (hp : Sealed ps) (hs : s.isPunctuation = true) :
    Sealed (sym s :: ps) :=
  sealed_cons.mpr ⟨by simp, by simp [apart, hs], hp⟩

theorem Sealed.word_cons {l : Lexeme} (hp : Sealed ps) (hs : l.isSymbol = false) (hl : l.Spelled)
    (hb : ∀ y ∈ ps.head?, y.isBreak = true) : Sealed (lexeme l :: ps) := by
  have hword : Sealed [lexeme l] := by
    cases l with
    | symbol => cases hs
    | keyword | identifier | number => simp [apart, isBreak, hl]
  exact hword.append hp hb

theorem Sealed.of_append (h : Sealed (ps ++ qs)) : Sealed qs := by
  induction ps with
  | nil => exact h
  | cons x ps ih => exact ih (sealed_cons.mp h).2.2

@[simp] theorem sealed_append_symbol (hp : Sealed ps) :
    Sealed (ps ++ sym s :: qs) ↔ Sealed (sym s :: qs) :=
  ⟨Sealed.of_append, fun hq => hp.append hq (by simp [isBreak])⟩

@[simp] theorem sealed_append_space (hp : Sealed ps) : Sealed (ps ++ space :: qs) ↔ Sealed qs := by
  constructor
  · intro h
    exact (sealed_cons.mp h.of_append).2.2
  · intro hq
    exact hp.append (sealed_cons.mpr ⟨by simp, fun _ _ => rfl, hq⟩) (by simp [isBreak])

end Sealed

end Piece

end FactScript
