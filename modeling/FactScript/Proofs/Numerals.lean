import FactScript.Proofs.HeaderGrammar
import FactScript.Proofs.Indentation
import FactScript.Proofs.Locality
import FactScript.Proofs.Munch
import FactScript.Proofs.RoundTrip

/-!
The literals of numbers. A text of digits and dots is one line, and it falls into the runs of digits
and the dots between them; such a line is a term exactly if it is a literal (`Numeral`), and the
term is then the text itself. Zeros in front and numbers of more than 64 bits are found at the first
run of digits.
-/
namespace FactScript

namespace Lexeme

def isNumeric : Lexeme → Bool
  | number _ => true
  | symbol s => s == .dot
  | _ => false

end Lexeme

open Piece

theorem Piece.munched_number [Alphabet] {digits : String} {ps : List Piece}
    (hd : Text.isDigits digits = true) (hend : ∀ c ∈ (line ps).head?, c.isDigit = false)
    (hps : Munched [] ps) :
    Munched [] (lexeme (.number digits) :: ps) := by
  refine .lexeme hd (fun c hc => ?_) hps
  rw [List.append_nil] at hc
  rw [Lexeme.endsAt, hend c hc]
  rfl

theorem Piece.munched_dot [Alphabet] {ps : List Piece} (hps : Munched [] ps) :
    Munched [] (lexeme (.symbol .dot) :: ps) :=
  .lexeme trivial (fun _ _ => Lexeme.endsAt_symbol (.inl rfl)) hps

theorem Piece.line_number (digits : String) (ps : List Piece) :
    line (lexeme (.number digits) :: ps) = digits.toList ++ line ps := line_cons _ _

theorem Piece.line_dot (ps : List Piece) : line (lexeme (.symbol .dot) :: ps) = '.' :: line ps :=
  line_cons _ _

theorem Piece.exists_numeric [Alphabet] {cs : List Char}
    (h : ∀ c ∈ cs, c.isDigit = true ∨ c = '.') :
    ∃ ts : List Lexeme, (∀ l ∈ ts, l.isNumeric = true) ∧ Munched [] (ts.map lexeme) ∧
      line (ts.map lexeme) = cs := by
  induction hlen : cs.length using Nat.strongRecOn generalizing cs with
  | ind len ih =>
    cases cs with
    | nil => exact ⟨[], List.forall_mem_nil _, .nil, rfl⟩
    | cons c cs =>
      obtain ⟨hc, hcs⟩ := List.forall_mem_cons.mp h
      rcases hc with hdigit | rfl
      · have hshort := length_dropWhile_cons_lt hdigit cs
        obtain ⟨ts, hts, hmunched, hline⟩ := ih ((c :: cs).dropWhile Char.isDigit).length (by omega)
          (fun d hd => h d ((List.dropWhile_suffix _).subset hd)) rfl
        refine ⟨.number (String.ofList ((c :: cs).takeWhile Char.isDigit)) :: ts,
          List.forall_mem_cons.mpr ⟨rfl, hts⟩, munched_number ?_ ?_ hmunched, ?_⟩
        · simp [Text.isDigits, hdigit, List.all_takeWhile]
        · rw [hline]
          exact fun _ => eq_false_of_head?_dropWhile
        · rw [List.map_cons, line_number, hline, String.toList_ofList,
            List.takeWhile_append_dropWhile]
      · obtain ⟨ts, hts, hmunched, hline⟩ := ih cs.length (by simp at hlen; omega) hcs rfl
        refine ⟨.symbol .dot :: ts, List.forall_mem_cons.mpr ⟨rfl, hts⟩, munched_dot hmunched, ?_⟩
        rw [List.map_cons, line_dot, hline]

theorem Piece.lexemes_map_lexeme (ts : List Lexeme) : lexemes (ts.map lexeme) = ts := by
  induction ts with
  | nil => rfl
  | cons l ts ih => rw [List.map_cons, lexemes_cons_lexeme, ih]

theorem Text.isBlank_of_numeric {c : Char} (h : c.isDigit = true ∨ c = '.') :
    isBlank c = false := by
  rcases h with hdigit | rfl
  · exact isBlank_of_wordChar (isWordChar_of_digit hdigit)
  · decide

theorem Source.lines_numeric [Alphabet] (tabWidth : Nat) {s : String} (hne : s ≠ "")
    (hs : ∀ c ∈ s.toList, c.isDigit = true ∨ c = '.') :
    ∃ ts : List Lexeme, (∀ l ∈ ts, l.isNumeric = true) ∧ Munched [] (ts.map lexeme) ∧
      line (ts.map lexeme) = s.toList ∧
      lines tabWidth s = .ok [⟨0, tokensFrom .start (ts.map lexeme), .start⟩] := by
  obtain ⟨ts, hts, hmunched, hline⟩ := exists_numeric hs
  obtain ⟨c, cs, hcs⟩ : ∃ c cs, s.toList = c :: cs := by
    cases hcs : s.toList with
    | nil => exact absurd (String.toList_eq_nil_iff.mp hcs) hne
    | cons c cs => exact ⟨c, cs, rfl⟩
  have hother {d : Char} (hd : Text.isBlank d = true) : d ∉ s.toList := by
    intro hmem
    rw [Text.isBlank_of_numeric (hs d hmem)] at hd
    cases hd
  have hplain : plain tabWidth s.toList = s.toList := plain_eq fun d hd =>
    ⟨fun heq => hother (by decide) (heq ▸ hd), fun heq => hother (by decide) (heq ▸ hd)⟩
  have hblank : s.toList.all Text.isBlank = false := by
    rw [hcs, List.all_cons, Text.isBlank_of_numeric (hs c (by simp [hcs])), Bool.false_and]
  have hspace : (c == ' ') = false := by
    rw [beq_eq_false_iff_ne]
    rintro rfl
    exact hother Text.isBlank_space (by simp [hcs])
  have hscan : Line.scan .start s.toList = .ok ⟨0, tokensFrom .start (ts.map lexeme), .start⟩ := by
    have htokens : Token.scan .start s.toList = .ok (tokensFrom .start (ts.map lexeme)) :=
      Token.scan_eq_ok_iff.mpr ⟨_, hmunched, hline, rfl⟩
    have htake : s.toList.takeWhile (· == ' ') = [] := by simp [hcs, hspace]
    have hdrop : s.toList.dropWhile (· == ' ') = s.toList := by simp [hcs, hspace]
    rw [Line.scan_eq, htake, hdrop, Position.after_nil, htokens]
    rfl
  refine ⟨ts, hts, hmunched, hline, ?_⟩
  rw [lines, hplain, Text.cut_of_notMem (hother (by decide)), Line.scanAll_cons_eq_ok]
  exact .inr ⟨hblank, _, hscan, [], rfl, rfl⟩

theorem Line.opensBlock_of_numeric {l : Line} (h : ∀ t ∈ l.tokens, t.lexeme.isNumeric = true) :
    l.opensBlock = false := by
  rw [opensBlock, Option.any_eq_false]
  intro t ht
  rw [beq_eq_false_iff_ne]
  intro hcolon
  have hnumeric := h t (List.mem_of_getLast? ht)
  rw [hcolon] at hnumeric
  cases hnumeric

/-- A text of digits and dots is one block, with nothing nested in it. -/
theorem Block.ofSource_numeric [Alphabet] (tabWidth : Nat) {s : String} (hne : s ≠ "")
    (hs : ∀ c ∈ s.toList, c.isDigit = true ∨ c = '.') :
    ∃ b, ofSource tabWidth s = .ok [b] ∧ (∀ l ∈ b.lexemes, l.isNumeric = true) ∧
      Munched [] (b.lexemes.map lexeme) ∧ Piece.line (b.lexemes.map lexeme) = s.toList := by
  obtain ⟨ts, hts, hmunched, hline, hlines⟩ := Source.lines_numeric tabWidth hne hs
  have hlexemes := lexeme_tokensFrom .start (ts.map lexeme)
  rw [lexemes_map_lexeme] at hlexemes
  have hleaf : Line.opensBlock ⟨0, tokensFrom .start (ts.map lexeme), .start⟩ = false :=
    Line.opensBlock_of_numeric fun t ht => hts _ (hlexemes ▸ List.mem_map_of_mem ht)
  refine ⟨⟨tokensFrom .start (ts.map lexeme), [], 0, .start⟩, ?_, ?_⟩
  · rw [ofSource, hlines]
    change forest 0 [_] = _
    rw [forest_leaf rfl hleaf, forest_nil]
    rfl
  · rw [lexemes, hlexemes]
    exact ⟨hts, hmunched, hline⟩

/-! Terms of digits and dots. -/

section Numeric

variable {ts : List Lexeme} {t : Term}

theorem Lexeme.notMem_of_numeric (hts : ∀ l ∈ ts, l.isNumeric = true) {l : Lexeme}
    (hl : l.isNumeric = false) :
    l ∉ ts := by
  intro hmem
  rw [hts l hmem] at hl
  cases hl

theorem Reads.atom_of_numeric (hts : ∀ l ∈ ts, l.isNumeric = true) (h : Reads .sum ts t) :
    Reads .atom ts t := by
  have hno {s : Symbol} (hs : Lexeme.isNumeric (.symbol s) = false) : .symbol s ∉ ts :=
    Lexeme.notMem_of_numeric hts hs
  cases h with
  | addition op hop =>
    rcases hop with rfl | rfl
    · exact absurd (by simp) (hno (s := .plus) rfl)
    · exact absurd (by simp) (hno (s := .minus) rfl)
  | summand h =>
    cases h with
    | multiplication op hop =>
      rcases hop with rfl | rfl
      · exact absurd (by simp) (hno (s := .star) rfl)
      · exact absurd (by simp) (hno (s := .slash) rfl)
    | factor h =>
      cases h with
      | negation => exact absurd (by simp) (hno (s := .minus) rfl)
      | unsigned h =>
        cases h with
        | exponentiation => exact absurd (by simp) (hno (s := .caret) rfl)
        | base h => exact h

theorem Reads.numeric (hts : ∀ l ∈ ts, l.isNumeric = true) :
    Reads .sum ts t ↔ (∃ w, Numeral.Whole w ∧ ts = [.number w] ∧ t = .number w) ∨
      ∃ w f, Numeral.Whole w ∧ Numeral.Fraction f ∧ ts = [.number w, .symbol .dot, .number f] ∧
        t = .number (w ++ "." ++ f) := by
  have hno {l : Lexeme} (hl : l.isNumeric = false) : l ∉ ts := Lexeme.notMem_of_numeric hts hl
  constructor
  · intro h
    cases atom_of_numeric hts h with
    | parenthesized => exact absurd (by simp) (hno (l := .symbol .lparen) rfl)
    | ascription => exact absurd (by simp) (hno (l := .keyword .as) rfl)
    | whole hw => exact .inl ⟨_, hw, rfl, rfl⟩
    | fraction hw hf => exact .inr ⟨_, _, hw, hf, rfl, rfl⟩
    | chainAtom h =>
      have hbegun := h.begun
      cases ts with
      | nil => cases hbegun
      | cons l ts =>
        cases l with
        | identifier name => exact absurd (by simp) (hno (l := .identifier name) rfl)
        | _ => cases hbegun
  · rintro (⟨w, hw, rfl, rfl⟩ | ⟨w, f, hw, hf, rfl, rfl⟩)
    · exact Reads.sum_of_atom (.whole hw)
    · exact Reads.sum_of_atom (.fraction hw hf)

end Numeric

/-- A whole part that cannot be one is found before anything else. -/
theorem Parser.term_of_not_whole {w : String} (hw : isWholePart w = false) (rest : List Lexeme) :
    term (.number w :: rest) = .error (.invalidNumber w) rest := by
  have hnumber : number (.number w :: rest) = .error (.invalidNumber w) rest := by
    unfold number
    simp only [hw, Bool.false_eq_true, if_false]
  change (number >>= extend (nested rest.length).atom rest.length 0) (.number w :: rest) = _
  exact bind_of_error hnumber

/-! Literals as lexemes. -/

/-- The lexemes of a block are known if they can be munched and give the same text. -/
theorem Block.lexemes_eq [Alphabet] {b : Block} {ts : List Lexeme}
    (hb : Munched [] (b.lexemes.map lexeme)) (hts : Munched [] (ts.map lexeme))
    (hline : Piece.line (b.lexemes.map lexeme) = Piece.line (ts.map lexeme)) :
    b.lexemes = ts := by
  have hmap := congrArg Piece.lexemes (hb.unique hts hline)
  rwa [lexemes_map_lexeme, lexemes_map_lexeme] at hmap

section Blocks

variable {b : Block} {s : String}

theorem Term.ofBlock_numeric_eq_ok_iff [Alphabet] (hts : ∀ l ∈ b.lexemes, l.isNumeric = true)
    (hmunched : Munched [] (b.lexemes.map lexeme))
    (hline : Piece.line (b.lexemes.map lexeme) = s.toList) {t : Term} :
    ofBlock b = .ok t ↔ t = .number s ∧ Numeral s := by
  have hwhole (w : String) : Piece.line [lexeme (.number w)] = w.toList := by
    rw [line_number, Piece.line]; simp
  have hfraction (w f : String) :
      Piece.line [lexeme (.number w), lexeme (.symbol .dot), lexeme (.number f)] =
        (w ++ "." ++ f).toList := by
    rw [line_number, line_dot, hwhole, String.toList_append, String.toList_append,
      List.append_assoc]
    rfl
  rw [ofBlock, Block.readLine_eq_ok, Parser.term_exact.eq_ok_nil, Reads.numeric hts]
  constructor
  · rintro (⟨w, hw, hb, rfl⟩ | ⟨w, f, hw, hf, hb, rfl⟩)
    · rw [hb] at hline
      obtain rfl : w = s := String.toList_inj.mp ((hwhole w).symm.trans hline)
      exact ⟨rfl, .whole hw⟩
    · rw [hb] at hline
      obtain rfl : w ++ "." ++ f = s := String.toList_inj.mp ((hfraction w f).symm.trans hline)
      exact ⟨rfl, .fraction hw hf⟩
  · rintro ⟨rfl, hs⟩
    have hlast {digits : String} (hd : Text.isDigits digits = true) :
        Munched [] [lexeme (.number digits)] :=
      munched_number hd (by simp [Piece.line]) .nil
    cases hs with
    | whole hw =>
      refine .inl ⟨s, hw, ?_, rfl⟩
      exact Block.lexemes_eq hmunched (hlast hw.digits) (hline.trans (hwhole s).symm)
    | @fraction w f hw hf =>
      refine .inr ⟨w, f, hw, hf, ?_, rfl⟩
      have hdot : ∀ c ∈ (Piece.line [lexeme (.symbol .dot), lexeme (.number f)]).head?,
          c.isDigit = false := by
        rw [line_dot]
        simp
      exact Block.lexemes_eq hmunched
        (munched_number hw.digits hdot (munched_dot (hlast hf.digits)))
        (hline.trans (hfraction w f).symm)

theorem Term.ofBlock_of_not_whole [Alphabet] (hmunched : Munched [] (b.lexemes.map lexeme))
    (hline : Piece.line (b.lexemes.map lexeme) = s.toList) {run rest : String}
    (hs : s = run ++ rest) (hrest : ∀ c ∈ rest.toList, c.isDigit = true ∨ c = '.')
    (hrun : Text.isDigits run = true) (hend : ∀ c ∈ rest.toList.head?, c.isDigit = false)
    (hnot : ¬Numeral.Whole run) :
    ∃ levels, ofBlock b = .error ⟨levels, .invalidNumber run⟩ := by
  obtain ⟨ts, -, hts, htext⟩ := exists_numeric hrest
  have hb : b.lexemes = .number run :: ts := by
    refine Block.lexemes_eq hmunched (munched_number hrun (by rwa [htext]) hts) ?_
    rw [List.map_cons, line_number, htext, hline, hs, String.toList_append]
  have hwhole : isWholePart run = false := by
    rw [Bool.eq_false_iff]
    intro hwhole
    exact hnot (Numeral.isWholePart_iff.mp hwhole)
  refine ⟨[b.level ts], ?_⟩
  rw [ofBlock, Block.readLine, Block.read, hb, Parser.term_of_not_whole hwhole]

end Blocks

/-- A text of digits and dots is read as a number exactly if it is a literal, and then as the number
with this text. Every other such text is refused, and with its first run of digits if that is no
whole part. -/
theorem Term.ofBlock_numeric [Alphabet] (tabWidth : Nat) (s : String) (hne : s ≠ "")
    (hs : ∀ c ∈ s.toList, c.isDigit = true ∨ c = '.') :
    ∃ b, Block.ofSource tabWidth s = .ok [b] ∧ (ofBlock b = .ok (.number s) ↔ Numeral s) ∧
      (¬Numeral s → ∃ e, ofBlock b = .error e) ∧
      ∀ run rest : String, s = run ++ rest → Text.isDigits run = true →
        (∀ c ∈ rest.toList.head?, c.isDigit = false) → ¬Numeral.Whole run →
        ∃ levels, ofBlock b = .error ⟨levels, .invalidNumber run⟩ := by
  obtain ⟨b, hb, hts, hmunched, hline⟩ := Block.ofSource_numeric tabWidth hne hs
  have hiff {t : Term} := ofBlock_numeric_eq_ok_iff hts hmunched hline (t := t)
  refine ⟨b, hb, hiff.trans (and_iff_right rfl), fun hnot => ?_, ?_⟩
  · cases hok : ofBlock b with
    | error e => exact ⟨e, rfl⟩
    | ok t => exact absurd (hiff.mp hok).2 hnot
  · intro run rest heq hrun hend hnot
    refine ofBlock_of_not_whole hmunched hline heq (fun c hc => hs c ?_) hrun hend hnot
    rw [heq, String.toList_append]
    exact List.mem_append_right _ hc

/-- The largest fraction with zeros before it, and the smallest whole number that is too large. -/
theorem Term.ofBlock_numeric_limits :
    (∃ b, Block.ofSource 2 "0.00018446744073709551615" = .ok [b] ∧
      ofBlock b = .ok (.number "0.00018446744073709551615")) ∧
    ∃ b, Block.ofSource 0 "18446744073709551616.1." = .ok [b] ∧
      ∃ levels, ofBlock b = .error ⟨levels, .invalidNumber "18446744073709551616"⟩ := by
  have hnumeric {s : String} (h : s.toList.all (fun c => c.isDigit || c == '.') = true) :
      ∀ c ∈ s.toList, c.isDigit = true ∨ c = '.' := by
    intro c hc
    simpa using List.all_eq_true.mp h c hc
  constructor
  · obtain ⟨b, hb, hiff, -⟩ :=
      ofBlock_numeric 2 "0.00018446744073709551615" (by decide) (hnumeric (by decide))
    have hzero : Numeral.Whole "0" := Numeral.isWholePart_iff.mp (by decide)
    have hfraction : Numeral.Fraction "00018446744073709551615" :=
      Numeral.fitsWord_iff.mp (by decide)
    exact ⟨b, hb, hiff.mpr (.fraction hzero hfraction)⟩
  · obtain ⟨b, hb, -, -, hinvalid⟩ :=
      ofBlock_numeric 0 "18446744073709551616.1." (by decide) (hnumeric (by decide))
    have hlarge : ¬Numeral.Whole "18446744073709551616" := by
      rw [← Numeral.isWholePart_iff]
      decide
    exact ⟨b, hb, hinvalid "18446744073709551616" ".1." (by decide) (by decide) (by simp) hlarge⟩

end FactScript
