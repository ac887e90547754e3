import FactScript.Lexeme.Unicode
import FactScript.Proofs.Spacing

/-!
Lines fall into spaces and lexemes in one way only, if no lexeme may be followed by a character that
would make it longer. A lexeme is taken off a text exactly if it stands at the front and ends there,
so reading a line finds this division, or it stops at the first character where the division cannot
go on. Of the symbols the longest is taken, as from a table that has the longest first.
-/
namespace FactScript

theorem Text.exists_cons_of_isDigits {digits : String} (h : isDigits digits = true) :
    ∃ c cs, digits.toList = c :: cs ∧ c.isDigit = true := by
  rw [isDigits, Bool.and_eq_true] at h
  cases hdigits : digits.toList with
  | nil => simp [hdigits] at h
  | cons c cs => exact ⟨c, cs, rfl, List.all_eq_true.mp h.2 c (by simp [hdigits])⟩

theorem eq_false_of_head?_dropWhile {p : Char → Bool} {cs : List Char} {c : Char}
    (h : c ∈ (cs.dropWhile p).head?) : p c = false := by
  have hnot := List.head?_dropWhile_not p cs
  rw [Option.mem_def.mp h] at hnot
  exact hnot

namespace Symbol

theorem length_chars (s : Symbol) : s.chars.length = 1 ∨ s.chars.length = 2 := by
  cases s <;> decide

/-- After a symbol of one character no character follows that goes with it. -/
theorem endsAt_of_take? [Alphabet] {cs rest : List Char} {s : Symbol}
    (h : take? cs = some (s, rest)) :
    ∀ c ∈ rest.head?, (Lexeme.symbol s).endsAt c = true := by
  intro c hc
  have hcs := chars_append_of_take? h
  rw [Lexeme.endsAt, Bool.or_eq_true, Option.isNone_iff_eq_none, beq_iff_eq]
  by_cases hlen : s.chars.length = 2
  · exact .inl hlen
  · right
    have hone : s.chars.length = 1 := s.length_chars.resolve_right hlen
    cases rest with
    | nil => cases hc
    | cons d rest =>
      cases hc
      obtain ⟨a, ha⟩ := List.length_eq_one_iff.mp hone
      have htwo : cs.take 2 = s.chars ++ [c] := by
        rw [hcs, ha]
        rfl
      unfold take? at h
      split at h
      · next s' hs' =>
        simp only [Option.some.injEq, Prod.mk.injEq] at h
        obtain ⟨rfl, -⟩ := h
        have hchars := congrArg List.length ((chars_of_ofChars? hs').trans htwo)
        simp at hchars
      · next hnone => rw [← htwo, hnone]

theorem exists_take? {cs : List Char} {s : Symbol} (h : s.chars <+: cs) :
    ∃ a, take? cs = some a := by
  obtain ⟨rest, rfl⟩ := h
  have hs := s.ofChars?_chars
  rw [take?]
  cases htwo : ofChars? ((s.chars ++ rest).take 2) with
  | some s' => exact ⟨_, rfl⟩
  | none =>
    rcases s.length_chars with hlen | hlen
    · have hone : (s.chars ++ rest).take 1 = s.chars := List.take_left' hlen
      exact ⟨_, by rw [hone, hs]; rfl⟩
    · rw [List.take_left' hlen, hs] at htwo
      cases htwo

theorem length_le_of_take? {cs rest : List Char} {s s' : Symbol} (h : take? cs = some (s, rest))
    (h' : s'.chars <+: cs) : s'.chars.length ≤ s.chars.length := by
  rcases s'.length_chars with hlen | hlen
  · rw [hlen]
    exact List.length_pos_iff.mpr s.chars_ne_nil
  · obtain ⟨rest', rfl⟩ := h'
    rw [take?, List.take_left' hlen, s'.ofChars?_chars] at h
    cases h
    exact Nat.le_refl _

def longestFirst : List Symbol := all.mergeSort fun s s' => s'.chars.length ≤ s.chars.length

theorem mem_longestFirst (s : Symbol) : s ∈ longestFirst := List.mem_mergeSort.mpr (mem_all s)

theorem pairwise_longestFirst :
    longestFirst.Pairwise fun s s' => s'.chars.length ≤ s.chars.length := by
  have hsorted :
      longestFirst.Pairwise fun s s' => decide (s'.chars.length ≤ s.chars.length) = true := by
    apply List.pairwise_mergeSort
    · intro s s' s'' h h'
      simp only [decide_eq_true_eq] at h h' ⊢
      exact Nat.le_trans h' h
    · intro s s'
      simp only [Bool.or_eq_true, decide_eq_true_eq]
      exact Nat.le_total _ _
  exact hsorted.imp of_decide_eq_true

/-- The symbol that is taken is the first of these that the text begins with. -/
theorem take?_eq_find? (cs : List Char) :
    take? cs = (longestFirst.find? (·.chars.isPrefixOf cs)).map fun s =>
      (s, cs.drop s.chars.length) := by
  cases hfind : longestFirst.find? (·.chars.isPrefixOf cs) with
  | none =>
    rw [Option.map_none, Option.eq_none_iff_forall_ne_some]
    rintro ⟨s, rest⟩ htake
    have hbegins : s.chars <+: cs := ⟨rest, (chars_append_of_take? htake).symm⟩
    exact List.find?_eq_none.mp hfind s s.mem_longestFirst (List.isPrefixOf_iff_prefix.mpr hbegins)
  | some s =>
    obtain ⟨hs, before, after, htable, hbefore⟩ := List.find?_eq_some_iff_append.mp hfind
    have hbegins : s.chars <+: cs := List.isPrefixOf_iff_prefix.mp hs
    obtain ⟨⟨s', rest⟩, htake⟩ := exists_take? hbegins
    have hcs := chars_append_of_take? htake
    have hlater : s' = s ∨ s' ∈ after := by
      have hmem := s'.mem_longestFirst
      rw [htable, List.mem_append, List.mem_cons] at hmem
      refine hmem.resolve_left fun hbad => ?_
      have hno := hbefore s' hbad
      rw [List.isPrefixOf_iff_prefix.mpr ⟨rest, hcs.symm⟩] at hno
      cases hno
    have hle : s'.chars.length ≤ s.chars.length := by
      rcases hlater with rfl | hafter
      · exact Nat.le_refl _
      · have hsorted := pairwise_longestFirst
        rw [htable, List.pairwise_append] at hsorted
        exact List.rel_of_pairwise_cons hsorted.2.1 hafter
    have hge := length_le_of_take? htake hbegins
    have hchars : s.chars = s'.chars :=
      (List.prefix_of_prefix_length_le hbegins ⟨rest, hcs.symm⟩ hge).eq_of_length_le hle
    rw [htake, Option.map_some, hchars, hcs, List.drop_left, chars_injective hchars]

end Symbol

namespace Lexeme

variable [Alphabet] {l : Lexeme} {cs rest : List Char}

theorem endsAt_ofWord {word : String} {c : Char} (h : Text.isIdentifierContinue c = false) :
    (ofWord word).endsAt c = true := by
  rw [ofWord]
  split <;> simp [endsAt, h]

theorem endsAt_of_take? (h : take? cs = some (l, rest)) : ∀ c ∈ rest.head?, l.endsAt c = true := by
  unfold take? at h
  split at h
  · next s r hs =>
    cases h
    exact Symbol.endsAt_of_take? hs
  · cases h
  · split at h
    · cases h
      intro c hc
      rw [endsAt, eq_false_of_head?_dropWhile hc]
      rfl
    · split at h
      · cases h
        intro c hc
        exact endsAt_ofWord (eq_false_of_head?_dropWhile hc)
      · cases h

/-- One lexeme is taken off a text exactly if the text begins with it and it ends there. -/
theorem take?_eq_some_iff : take? cs = some (l, rest) ↔
    l.Spelled ∧ cs = l.chars ++ rest ∧ ∀ c ∈ rest.head?, l.endsAt c = true := by
  constructor
  · intro h
    have hspelled := spelled_of_take? h
    exact ⟨hspelled.1, hspelled.2, endsAt_of_take? h⟩
  · rintro ⟨hl, rfl, hends⟩
    exact take?_chars hl hends

theorem exists_take?_of_head {c : Char} (h : c.isDigit = true ∨ Text.isIdentifierStart c = true) :
    ∃ a, take? (c :: cs) = some a := by
  have hword : Text.isWordChar c = true := by
    rcases h with hd | hi
    · exact Text.isWordChar_of_digit hd
    · exact Text.isWordChar_of_continue (Text.isIdentifierContinue_of_start hi)
  have hsymbol := Symbol.take?_eq_none hword cs
  unfold take?
  rw [hsymbol]
  by_cases hd : c.isDigit = true
  · simp [hd]
  · have hi : Text.isIdentifierStart c = true := h.resolve_left hd
    simp [hd, hi]

theorem exists_take? (hl : l.Spelled) (h : l.chars <+: cs) : ∃ a, take? cs = some a := by
  have hword {w : List Char} (hw : Text.isWord w = true) (hbegins : w <+: cs) :
      ∃ a, take? cs = some a := by
    obtain ⟨rest, rfl⟩ := hbegins
    cases w with
    | nil => cases hw
    | cons c w =>
      rw [Text.isWord, Bool.and_eq_true] at hw
      exact exists_take?_of_head (.inr hw.1)
  cases l with
  | symbol s =>
    rw [chars, text, Symbol.text, String.toList_ofList] at h
    obtain ⟨a, ha⟩ := Symbol.exists_take? h
    unfold take?
    rw [ha]
    exact ⟨(symbol a.1, a.2), rfl⟩
  | number digits =>
    obtain ⟨rest, rfl⟩ := h
    obtain ⟨c, ds, hdigits, hc⟩ := Text.exists_cons_of_isDigits hl
    rw [chars, text, hdigits]
    exact exists_take?_of_head (.inl hc)
  | identifier name =>
    rw [Spelled, Text.isName, Bool.and_eq_true] at hl
    exact hword hl.1 h
  | keyword k => exact hword k.isWord_text h

/-- No lexeme is taken exactly if none stands at the front, whether it could be longer or not. -/
theorem take?_eq_none_iff : take? cs = none ↔ ∀ l : Lexeme, l.Spelled → ¬l.chars <+: cs := by
  constructor
  · intro hnone l hl hbegins
    obtain ⟨a, ha⟩ := exists_take? hl hbegins
    rw [hnone] at ha
    cases ha
  · intro h
    cases htake : take? cs with
    | none => rfl
    | some a =>
      have hspelled := spelled_of_take? htake
      exact absurd ⟨a.2, hspelled.2.symm⟩ (h a.1 hspelled.1)

theorem keyword_iff (hl : l.Spelled) (hword : Text.isWord l.chars = true) :
    (∃ k, l = keyword k) ↔ Keyword.ofText? l.text ≠ none := by
  cases l with
  | keyword k => simp [text, k.ofText?_text]
  | identifier name =>
    rw [Spelled, Text.isName, Bool.and_eq_true, Option.isNone_iff_eq_none] at hl
    simp [text, hl.2]
  | symbol s =>
    rw [chars, text, Symbol.text, String.toList_ofList, s.isWord_chars] at hword
    cases hword
  | number digits =>
    obtain ⟨c, ds, hdigits, hc⟩ := Text.exists_cons_of_isDigits hl
    rw [chars, text, hdigits, Text.isWord, Bool.and_eq_true] at hword
    rw [Text.isDigit_of_start hword.1] at hc
    cases hc

end Lexeme

namespace Piece

/-- Spaces and lexemes that can be written; with `rest` after them, none of the lexemes could be
longer. -/
inductive Munched [Alphabet] (rest : List Char) : List Piece → Prop
  | nil : Munched rest []
  | space {ps : List Piece} : Munched rest ps → Munched rest (space :: ps)
  | lexeme {l : Lexeme} {ps : List Piece} :
      l.Spelled → (∀ c ∈ (line ps ++ rest).head?, l.endsAt c = true) → Munched rest ps →
        Munched rest (lexeme l :: ps)

/-- Neither a space nor a lexeme stands at the front. -/
def Stuck [Alphabet] (c : Char) (cs : List Char) : Prop :=
  c ≠ ' ' ∧ ∀ l : Lexeme, l.Spelled → ¬l.chars <+: c :: cs

theorem line_cons (x : Piece) (ps : List Piece) : line (x :: ps) = x.chars ++ line ps :=
  List.flatMap_cons

def tokensFrom (p : Position) : List Piece → List Token
  | [] => []
  | space :: ps => tokensFrom (p.after [' ']) ps
  | lexeme l :: ps => ⟨l, p, p.after l.chars⟩ :: tokensFrom (p.after l.chars) ps

theorem lexeme_tokensFrom (p : Position) (ps : List Piece) :
    (tokensFrom p ps).map Token.lexeme = lexemes ps := by
  induction ps generalizing p with
  | nil => rfl
  | cons x ps ih =>
    cases x with
    | space => exact ih _
    | lexeme l => rw [tokensFrom, List.map_cons, ih, lexemes_cons_lexeme]

end Piece

open Piece

/-! One step of the scan. -/

theorem Token.scan_space [Alphabet] (p : Position) (cs : List Char) :
    scan p (' ' :: cs) = scan (p.after [' ']) cs := by
  rw [scan, if_pos rfl]

theorem Token.scan_lexeme [Alphabet] {l : Lexeme} {rest : List Char} (hl : l.Spelled)
    (hends : ∀ c ∈ rest.head?, l.endsAt c = true) (p : Position) :
    scan p (l.chars ++ rest) = (⟨l, p, p.after l.chars⟩ :: ·) <$> scan (p.after l.chars) rest := by
  have htake := Lexeme.take?_chars hl hends
  cases hchars : l.chars with
  | nil => exact absurd hchars (Lexeme.chars_ne_nil hl)
  | cons c cs =>
    have hc : c ≠ ' ' := by
      rintro rfl
      exact absurd (Lexeme.isBlank_of_mem_chars hl ' ' (by simp [hchars])) (by decide)
    rw [hchars, List.cons_append] at htake
    rw [List.cons_append, scan, if_neg hc]
    split
    · next hnone =>
      rw [htake] at hnone
      cases hnone
    · next l' rest' hsome =>
      rw [htake] at hsome
      cases hsome
      rw [hchars]

theorem Token.scan_stuck [Alphabet] {c : Char} {cs : List Char} (h : Stuck c cs) (p : Position) :
    scan p (c :: cs) = .error (.unexpectedChar c p) := by
  have hnone : Lexeme.take? (c :: cs) = none := Lexeme.take?_eq_none_iff.mpr h.2
  rw [scan, if_neg h.1]
  split
  · rfl
  · next hsome =>
    rw [hnone] at hsome
    cases hsome

/-! The whole line. -/

namespace Piece.Munched

variable [Alphabet] {rest : List Char} {ps : List Piece}

theorem scan (h : Munched rest ps) (p : Position) :
    Token.scan p (line ps ++ rest) =
      (tokensFrom p ps ++ ·) <$> Token.scan (p.after (line ps)) rest := by
  induction h generalizing p with
  | nil =>
    change Token.scan p rest = id <$> Token.scan p rest
    rw [id_map]
  | @space ps _ ih =>
    have hline : line (Piece.space :: ps) ++ rest = ' ' :: (line ps ++ rest) := rfl
    have hafter : p.after (line (Piece.space :: ps)) = (p.after [' ']).after (line ps) := by
      rw [← Position.after_append]
      rfl
    rw [hline, Token.scan_space, ih, hafter, tokensFrom]
  | @lexeme l ps hl hends _ ih =>
    have hline : line (Piece.lexeme l :: ps) ++ rest = l.chars ++ (line ps ++ rest) := by
      rw [line_cons, List.append_assoc]
      rfl
    have hafter : p.after (line (Piece.lexeme l :: ps)) = (p.after l.chars).after (line ps) := by
      rw [line_cons, Position.after_append]
      rfl
    rw [hline, Token.scan_lexeme hl hends, ih, hafter, Functor.map_map, tokensFrom]
    rfl

/-- Every text falls into pieces, to its end or up to a character where no piece begins. -/
theorem exists_of_text (cs : List Char) :
    ∃ ps rest, Munched rest ps ∧ line ps ++ rest = cs ∧
      ∀ c after, rest = c :: after → Stuck c after := by
  induction hlen : cs.length using Nat.strongRecOn generalizing cs with
  | ind len ih =>
    cases cs with
    | nil => exact ⟨[], [], .nil, rfl, by simp⟩
    | cons c cs =>
      rw [List.length_cons] at hlen
      by_cases hc : c = ' '
      · obtain ⟨ps, rest, hps, hline, hstop⟩ := ih cs.length (by omega) cs rfl
        refine ⟨.space :: ps, rest, .space hps, ?_, hstop⟩
        rw [line_cons, List.append_assoc, hline, hc]
        rfl
      · cases htake : Lexeme.take? (c :: cs) with
        | none =>
          refine ⟨[], c :: cs, .nil, rfl, ?_⟩
          rintro c after ⟨⟩
          exact ⟨hc, Lexeme.take?_eq_none_iff.mp htake⟩
        | some a =>
          obtain ⟨hl, hcs, hends⟩ := Lexeme.take?_eq_some_iff.mp htake
          have hlt := Lexeme.take?_length htake
          rw [List.length_cons] at hlt
          obtain ⟨ps, rest, hps, hline, hstop⟩ := ih a.2.length (by omega) a.2 rfl
          refine ⟨.lexeme a.1 :: ps, rest, .lexeme hl (by rwa [hline]) hps, ?_, hstop⟩
          rw [line_cons, List.append_assoc, hline, hcs]
          rfl

/-- A text falls into pieces in one way: a lexeme that ends before a character ends there in every
division. -/
theorem unique {ps' : List Piece} (h : Munched [] ps) (h' : Munched [] ps')
    (hline : line ps = line ps') :
    ps = ps' := by
  have hspace {l : Lexeme} {ps ps' : List Piece} (hl : l.Spelled)
      (hlines : line (Piece.space :: ps) = line (Piece.lexeme l :: ps')) : False := by
    have hhead := congrArg List.head? hlines
    rw [head?_line (x := Piece.lexeme l)
      (Lexeme.allSpelled_cons.mpr ⟨hl, Lexeme.allSpelled_nil⟩)] at hhead
    have hmem : ' ' ∈ l.chars := List.mem_of_mem_head? hhead.symm
    exact absurd (Lexeme.isBlank_of_mem_chars hl ' ' hmem) (by decide)
  have hnil {l : Lexeme} {ps : List Piece} (hl : l.Spelled)
      (hlines : [] = line (Piece.lexeme l :: ps)) : False := by
    rw [line_cons, eq_comm, List.append_eq_nil_iff] at hlines
    exact Lexeme.chars_ne_nil hl hlines.1
  induction h generalizing ps' with
  | nil =>
    cases h' with
    | nil => rfl
    | space _ => cases hline
    | lexeme hl' _ _ => exact (hnil hl' hline).elim
  | @space ps _ ih =>
    cases h' with
    | nil => cases hline
    | space h' => rw [ih h' (List.cons.inj hline).2]
    | lexeme hl' _ _ => exact (hspace hl' hline).elim
  | @lexeme l ps hl hends _ ih =>
    cases h' with
    | nil => exact (hnil hl hline.symm).elim
    | space _ => exact (hspace hl hline.symm).elim
    | @lexeme l' ps' hl' hends' h' =>
      rw [List.append_nil] at hends hends'
      have htake := Lexeme.take?_chars hl hends
      have htake' := Lexeme.take?_chars hl' hends'
      have hlines : l.chars ++ line ps = l'.chars ++ line ps' := hline
      rw [hlines, htake'] at htake
      obtain ⟨rfl, hrest⟩ := Prod.mk.inj (Option.some.inj htake)
      rw [ih h' hrest.symm]

end Piece.Munched

/-- A text is read exactly if it falls into pieces, and then as the lexemes among them. -/
theorem Token.scan_eq_ok_iff [Alphabet] {p : Position} {cs : List Char} {ts : List Token} :
    scan p cs = .ok ts ↔ ∃ ps, Munched [] ps ∧ line ps = cs ∧ tokensFrom p ps = ts := by
  have hscan {ps : List Piece} (h : Munched [] ps) : scan p (line ps) = .ok (tokensFrom p ps) := by
    have h := h.scan p
    rw [List.append_nil, scan] at h
    rw [h]
    exact congrArg Except.ok (List.append_nil _)
  constructor
  · intro hts
    obtain ⟨ps, rest, hps, rfl, hstop⟩ := Munched.exists_of_text cs
    cases rest with
    | nil =>
      rw [List.append_nil] at hts ⊢
      rw [hscan hps] at hts
      exact ⟨ps, hps, rfl, Except.ok.inj hts⟩
    | cons c after =>
      rw [hps.scan, scan_stuck (hstop c after rfl)] at hts
      cases hts
  · rintro ⟨ps, hps, rfl, rfl⟩
    exact hscan hps

/-- A text is not read exactly if a character is reached where no piece begins, and then this is
reported. -/
theorem Token.scan_eq_error_iff [Alphabet] {p : Position} {cs : List Char} {e : LexError} :
    scan p cs = .error e ↔ ∃ ps c after, cs = line ps ++ c :: after ∧ Munched (c :: after) ps ∧
      Stuck c after ∧ e = .unexpectedChar c (p.after (line ps)) := by
  have hscan {ps : List Piece} {c : Char} {after : List Char} (h : Munched (c :: after) ps)
      (hstuck : Stuck c after) :
      scan p (line ps ++ c :: after) = .error (.unexpectedChar c (p.after (line ps))) := by
    rw [h.scan, scan_stuck hstuck]
    rfl
  constructor
  · intro he
    obtain ⟨ps, rest, hps, rfl, hstop⟩ := Munched.exists_of_text cs
    cases rest with
    | nil =>
      rw [scan_eq_ok_iff.mpr ⟨ps, hps, (List.append_nil _).symm, rfl⟩] at he
      cases he
    | cons c after =>
      have hstuck := hstop c after rfl
      rw [hscan hps hstuck] at he
      exact ⟨ps, c, after, rfl, hps, hstuck, (Except.error.inj he).symm⟩
  · rintro ⟨ps, c, after, rfl, hps, hstuck, rfl⟩
    exact hscan hps hstuck

theorem Token.eq_space_of_scan [Alphabet] {p : Position} {cs : List Char} (h : scan p cs = .ok []) :
    ∀ c ∈ cs, c = ' ' := by
  obtain ⟨ps, hps, rfl, hts⟩ := scan_eq_ok_iff.mp h
  clear h
  induction hps generalizing p with
  | nil => exact List.forall_mem_nil _
  | space _ ih => exact List.forall_mem_cons.mpr ⟨rfl, ih hts⟩
  | lexeme => cases hts

namespace Line

theorem scan_eq [Alphabet] (p : Position) (cs : List Char) : scan p cs =
    (fun ts => ⟨(cs.takeWhile (· == ' ')).length, ts, p.after (cs.takeWhile (· == ' '))⟩) <$>
      Token.scan (p.after (cs.takeWhile (· == ' '))) (cs.dropWhile (· == ' ')) := by
  rw [scan]
  cases Token.scan (p.after (cs.takeWhile (· == ' '))) (cs.dropWhile (· == ' ')) <;> rfl

theorem tokens_ne_nil [Alphabet] {p : Position} {cs : List Char} {l : Line}
    (hcs : cs.all Text.isBlank = false) (h : scan p cs = .ok l) : l.tokens ≠ [] := by
  intro hnil
  rw [scan_eq, exceptMap_eq_ok] at h
  obtain ⟨ts, hts, rfl⟩ := h
  rw [show ts = [] from hnil] at hts
  have hspaces := Token.eq_space_of_scan hts
  have hblank : cs.all Text.isBlank = true := by
    rw [← List.takeWhile_append_dropWhile (p := (· == ' ')) (l := cs), List.all_append,
      Bool.and_eq_true]
    constructor
    · apply List.all_eq_true.mpr
      intro c hc
      have hspace := List.all_eq_true.mp List.all_takeWhile c hc
      rw [eq_of_beq hspace, Text.isBlank_space]
    · apply List.all_eq_true.mpr
      intro c hc
      rw [hspaces c hc, Text.isBlank_space]
  rw [hblank] at hcs
  cases hcs

/-- After its indentation a line is read as the only division of the text into spaces and lexemes
none of which could be longer. If there is none, the first character is reported at which a division
from the left cannot go on. Words are keywords if they are reserved, and a line that is not blank
has a token. -/
theorem scan_exact [Alphabet] (p : Position) (cs : List Char) (hcs : cs.all Text.isBlank = false) :
    (∀ ls, (∃ l, scan p cs = .ok l ∧ l.tokens.map Token.lexeme = ls) ↔
        ∃ ps, Munched [] ps ∧ line ps = cs.dropWhile (· == ' ') ∧ lexemes ps = ls) ∧
      (∀ ps ps', Munched [] ps → Munched [] ps' → line ps = line ps' → ps = ps') ∧
      (∀ l, scan p cs = .ok l → l.tokens ≠ [] ∧ ∀ t ∈ l.tokens, Text.isWord t.lexeme.chars = true →
        ((∃ k, t.lexeme = .keyword k) ↔ Keyword.ofText? t.lexeme.text ≠ none)) ∧
      ∀ e, scan p cs = .error e ↔ ∃ ps c after, cs.dropWhile (· == ' ') = line ps ++ c :: after ∧
        Munched (c :: after) ps ∧ Stuck c after ∧
        e = .unexpectedChar c (p.after (cs.takeWhile (· == ' ') ++ line ps)) := by
  refine ⟨?_, fun _ _ => Munched.unique, ?_, ?_⟩
  · intro ls
    simp only [scan_eq, exceptMap_eq_ok, Token.scan_eq_ok_iff]
    constructor
    · rintro ⟨_, ⟨_, ⟨ps, hps, hline, rfl⟩, rfl⟩, rfl⟩
      exact ⟨ps, hps, hline, (lexeme_tokensFrom _ ps).symm⟩
    · rintro ⟨ps, hps, hline, rfl⟩
      exact ⟨_, ⟨_, ⟨ps, hps, hline, rfl⟩, rfl⟩, lexeme_tokensFrom _ ps⟩
  · intro l hl
    refine ⟨tokens_ne_nil hcs hl, ?_⟩
    rw [scan_eq, exceptMap_eq_ok] at hl
    obtain ⟨ts, hts, rfl⟩ := hl
    intro t ht
    exact Lexeme.keyword_iff (Token.spelled_of_scan hts t ht)
  · intro e
    simp only [Position.after_append]
    rw [scan_eq, ← Token.scan_eq_error_iff]
    cases Token.scan (p.after (cs.takeWhile (· == ' '))) (cs.dropWhile (· == ' ')) <;>
      simp [Functor.map, Except.map]

/-- Symbols, digits and letters that run into one another; and a digit that begins neither a number
nor a word. -/
theorem scan_exact_joined :
    (∃ ps, Munched [] ps ∧ line ps = "know é1:::=-12x _y".toList ∧ lexemes ps =
      [.keyword .know, .identifier "é1", .symbol .colonColon, .symbol .colon, .symbol .eq,
        .symbol .minus, .number "12", .identifier "x", .identifier "_y"]) ∧
      ∃ ps, line ps = "12".toList ∧ Munched "٣ = a".toList ps ∧ Stuck '٣' " = a".toList := by
  constructor
  · apply ((scan_exact .start "  know é1:::=-12x _y".toList (by decide +kernel)).1 _).mp
    exact exists_ok_of_map (f := fun l : Line => l.tokens.map Token.lexeme) (by decide +kernel)
  · have hfails : scan .start "12٣ = a".toList = .error (.unexpectedChar '٣' ⟨1, 3, 2⟩) := by
      decide +kernel
    obtain ⟨ps, c, after, hline, hps, hstuck, he⟩ :=
      ((scan_exact .start "12٣ = a".toList (by decide +kernel)).2.2.2 _).mp hfails
    have hlength : (line ps).length = 2 := by
      have hcolumn := congrArg (fun e => e.position.column) he
      have hspaces : "12٣ = a".toList.takeWhile (· == ' ') = [] := by decide +kernel
      simp only [LexError.position, hspaces, Position.after, Position.start,
        List.nil_append] at hcolumn
      omega
    have hsplit : "12".toList ++ '٣' :: " = a".toList = line ps ++ c :: after := hline
    have hparts := List.append_inj hsplit hlength.symm
    cases hparts.2
    exact ⟨ps, hparts.1.symm, hps, hstuck⟩

end Line

end FactScript
