import FactScript.Program
import FactScript.Proofs.Layout
import FactScript.Proofs.StatementGrammar

/-!
Reading printed programs. The lines of a tidy outline are read as a block with the outline's
skeleton, so a program of well-formed statements is read back from its text whatever stands for a
tab. Together with the grammar this tells which statements a text can have.
-/
namespace FactScript

open Piece

/-! The characters of printed lines. -/

namespace Piece

variable {ps : List Piece}

theorem eq_space_of_mem_line [Alphabet] (h : Lexeme.AllSpelled (lexemes ps)) {c : Char}
    (hc : c ∈ line ps) (hblank : Text.isBlank c = true) : c = ' ' := by
  obtain ⟨x, hx, hcx⟩ := List.mem_flatMap.mp hc
  cases x with
  | space => simpa [chars] using hcx
  | lexeme l =>
    have hl : l.Spelled := h l (List.mem_filterMap.mpr ⟨.lexeme l, hx, rfl⟩)
    rw [Lexeme.isBlank_of_mem_chars hl c hcx] at hblank
    cases hblank

/-- A line that begins with a lexeme begins with a character that is not blank. -/
theorem Leads.line_eq [Alphabet] (h : Leads ps) (hspelled : Lexeme.AllSpelled (lexemes ps)) :
    ∃ c cs, line ps = c :: cs ∧ Text.isBlank c = false := by
  obtain ⟨l, qs, rfl⟩ := h
  have hl : l.Spelled := hspelled l (by simp)
  cases hchars : l.chars with
  | nil => exact absurd hchars (Lexeme.chars_ne_nil hl)
  | cons c cs =>
    refine ⟨c, cs ++ line qs, ?_, Lexeme.isBlank_of_mem_chars hl c (by simp [hchars])⟩
    rw [line, List.flatMap_cons, chars, hchars, List.cons_append]
    rfl

end Piece

theorem Line.scan_indented [Alphabet] {ps : List Piece} (htidy : Tidy ps) (hleads : Leads ps)
    (n : Nat) (p : Position) :
    ∃ l : Line, scan p (List.replicate n ' ' ++ line ps) = .ok l ∧ l.indent = n ∧
      l.tokens.map Token.lexeme = lexemes ps := by
  obtain ⟨c, cs, hline, hblank⟩ := hleads.line_eq htidy.spelled
  have hc : ∀ d ∈ (line ps).head?, (d == ' ') = false := by
    rw [hline]
    rintro d ⟨⟩
    rw [beq_eq_false_iff_ne]
    rintro rfl
    exact absurd hblank (by decide)
  have hspaces : ∀ d ∈ List.replicate n ' ', (d == ' ') = true := by simp
  obtain ⟨ts, hts, hlexemes⟩ := htidy.scan_line (p.after (List.replicate n ' '))
  refine ⟨⟨n, ts, p.after (List.replicate n ' ')⟩, ?_, rfl, hlexemes⟩
  rw [scan, takeWhile_append_of_head hspaces hc, dropWhile_append_of_head hspaces hc]
  rw [hts, List.length_replicate]
  rfl

/-! The lines of outlines. -/

/-- The block and all that is nested under it are indented as printed at this depth. -/
inductive Block.Stepped : Nat → Block → Prop
  | mk {depth : Nat} {b : Block} : b.indent = depth * Outline.indentWidth →
      (∀ b' ∈ b.body, Stepped (depth + 1) b') → Stepped depth b

namespace Outline

/-- At every depth, the lines of the outline are read as a block with its skeleton; `p'` is where
the text goes on. -/
def Scans [Alphabet] (o : Outline) : Prop :=
  ∀ (depth : Nat) (p : Position), ∃ (b : Block) (p' : Position),
    Block.Nested (depth * indentWidth) b ∧ b.Stepped depth ∧ b.skeleton = o.skeleton ∧
      ∀ {rest ls}, Line.scanAll p' rest = .ok ls →
        Line.scanAll p (o.linesAt depth ++ rest) = .ok (b.lines ++ ls)

theorem scans_all [Alphabet] {os : List Outline} (h : ∀ o ∈ os, o.Scans) (depth : Nat)
    (p : Position) :
    ∃ (bs : List Block) (p' : Position), (∀ b ∈ bs, Block.Nested (depth * indentWidth) b) ∧
      (∀ b ∈ bs, b.Stepped depth) ∧ Block.skeletons bs = skeletons os ∧
      ∀ {rest ls}, Line.scanAll p' rest = .ok ls →
        Line.scanAll p (linesOfAllAt depth os ++ rest) = .ok (Block.linesOfAll bs ++ ls) := by
  induction os generalizing p with
  | nil => exact ⟨[], p, List.forall_mem_nil _, List.forall_mem_nil _, rfl, id⟩
  | cons o os ih =>
    obtain ⟨ho, hos⟩ := List.forall_mem_cons.mp h
    obtain ⟨b, p', hb, hstep, hskeleton, hlines⟩ := ho depth p
    obtain ⟨bs, p'', hbs, hsteps, hskeletons, hrest⟩ := ih hos p'
    refine ⟨b :: bs, p'', List.forall_mem_cons.mpr ⟨hb, hbs⟩,
      List.forall_mem_cons.mpr ⟨hstep, hsteps⟩, ?_, ?_⟩
    · rw [Block.skeletons, skeletons, hskeleton, hskeletons]
    · intro rest ls hls
      rw [linesOfAllAt, Block.linesOfAll, List.append_assoc, List.append_assoc]
      exact hlines (hrest hls)

theorem scanAll_header [Alphabet] {header : List Piece} (htidy : Piece.Tidy header)
    (hleads : Leads header) (n : Nat) (p : Position) :
      ∃ l : Line, l.indent = n ∧ l.tokens.map Token.lexeme = lexemes header ∧
        ∀ {rest ls}, Line.scanAll (p.nextLine (List.replicate n ' ' ++ line header)) rest = .ok ls →
          Line.scanAll p ((List.replicate n ' ' ++ line header) :: rest) = .ok (l :: ls) := by
  obtain ⟨l, hl, hindent, hlexemes⟩ := Line.scan_indented htidy hleads n p
  refine ⟨l, hindent, hlexemes, ?_⟩
  intro rest ls hls
  have hblank : (List.replicate n ' ' ++ line header).all Text.isBlank = false := by
    obtain ⟨c, cs, hline, hc⟩ := hleads.line_eq htidy.spelled
    rw [hline, List.all_append, List.all_cons, hc, Bool.false_and, Bool.and_false]
  rw [Line.scanAll, hblank, hl]
  simp [hls, exceptBind_eq_ok]

theorem skeletons_eq_nil {os : List Outline} : skeletons os = [] ↔ os = [] := by
  simp [skeletons_eq_map]

/-- A block whose header ends in a colon exactly when it has a body is nested as deep as its body
allows. -/
theorem nested_of_colon {b : Block} {inner : Nat}
    (hcolon : b.body ≠ [] ↔ b.lexemes.getLast? = some (.symbol .colon)) (hlt : b.indent < inner)
    (hbody : ∀ b' ∈ b.body, Block.Nested inner b') : Block.Nested b.indent b := by
  rw [← b.opensBlock_iff] at hcolon
  by_cases hnil : b.body = []
  · have hno : b.line.opensBlock = false := by simpa [hnil] using hcolon
    exact .leaf hno hnil
  · exact .opening (hcolon.mp hnil) hnil hlt hbody

/-- Every tidy outline is read as a block, by induction on its nesting. -/
theorem Tidy.scans [Alphabet] {o : Outline} (h : o.Tidy) : o.Scans := by
  induction h with
  | @mk header body htidy hleads hcolon _ ih =>
    intro depth p
    obtain ⟨l, hindent, hlexemes, hheader⟩ := scanAll_header htidy hleads (depth * indentWidth) p
    obtain ⟨bs, p', hbs, hsteps, hskeletons, hlines⟩ := scans_all ih (depth + 1)
      (p.nextLine (List.replicate (depth * indentWidth) ' ' ++ line header))
    refine ⟨⟨l.tokens, bs, depth * indentWidth, l.position⟩, p', ?_, .mk rfl hsteps, ?_, ?_⟩
    · have hnil : bs = [] ↔ body = [] := by
        rw [← Block.skeletons_eq_nil, hskeletons, skeletons_eq_nil]
      refine nested_of_colon (b := ⟨l.tokens, bs, depth * indentWidth, l.position⟩) ?_ ?_ hbs
      · rw [Block.lexemes, hlexemes, ← hcolon, ne_eq, hnil]
      · simp only [indentWidth]
        omega
    · rw [Block.skeleton, skeleton, hlexemes, hskeletons]
    · intro rest ls hls
      have hl : (⟨depth * indentWidth, l.tokens, l.position⟩ : Line) = l := by rw [← hindent]
      rw [linesAt, Block.lines, List.cons_append, List.cons_append, hl]
      exact hheader (hlines hls)

theorem mem_linesOfAllAt {os : List Outline} {depth : Nat} {cs : List Char} :
    cs ∈ linesOfAllAt depth os ↔ ∃ o ∈ os, cs ∈ o.linesAt depth := by
  induction os with
  | nil => simp [linesOfAllAt]
  | cons o os ih => simp [linesOfAllAt, ih]

theorem Tidy.eq_space_of_mem [Alphabet] {o : Outline} (h : o.Tidy) {depth : Nat} {cs : List Char}
    {c : Char} (hcs : cs ∈ o.linesAt depth) (hc : c ∈ cs) (hblank : Text.isBlank c = true) :
    c = ' ' := by
  induction h generalizing depth with
  | mk htidy _ _ _ ih =>
    rw [linesAt, List.mem_cons] at hcs
    rcases hcs with rfl | hcs
    · rcases List.mem_append.mp hc with hc | hc
      · exact List.eq_of_mem_replicate hc
      · exact eq_space_of_mem_line htidy.spelled hc hblank
    · obtain ⟨o, ho, hcs⟩ := mem_linesOfAllAt.mp hcs
      exact ih o ho hcs

end Outline

/-! Program texts. -/

namespace Text

theorem cut_terminated {sep : Char} {lines : List (List Char)} (h : ∀ cs ∈ lines, sep ∉ cs) :
    cut sep (lines.flatMap fun cs => cs ++ [sep]) = lines ++ [[]] := by
  induction lines with
  | nil => rfl
  | cons cs lines ih =>
    obtain ⟨hcs, hlines⟩ := List.forall_mem_cons.mp h
    rw [List.flatMap_cons, List.append_assoc, List.singleton_append, cut_append hcs, ih hlines]
    rfl

theorem intercalate_append {sep : Char} {lines : List (List Char)} (h : lines ≠ []) :
    [sep].intercalate lines ++ [sep] = lines.flatMap fun cs => cs ++ [sep] := by
  induction lines with
  | nil => exact absurd rfl h
  | cons cs lines ih =>
    cases lines with
    | nil => simp [List.intercalate]
    | cons cs' lines =>
      have hrest := ih (List.cons_ne_nil _ _)
      rw [List.flatMap_cons, ← hrest]
      simp [List.intercalate]

end Text

theorem Source.plain_eq {tabWidth : Nat} {cs : List Char} (h : ∀ c ∈ cs, c ≠ '\r' ∧ c ≠ '\t') :
    plain tabWidth cs = cs := by
  induction cs with
  | nil => rfl
  | cons c cs ih =>
    obtain ⟨hc, hcs⟩ := List.forall_mem_cons.mp h
    have hrest := ih hcs
    rw [plain] at hrest ⊢
    rw [List.flatMap_cons, hrest, if_neg hc.1, if_neg hc.2, List.singleton_append]

theorem Outline.linesAt_ne_nil (o : Outline) (depth : Nat) : o.linesAt depth ≠ [] := by
  cases o
  simp [linesAt]

theorem Program.toList_text (ts : List TopStatement) : (text ts).toList =
    (Outline.linesOfAllAt 0 (ts.map TopStatement.outline)).flatMap fun cs => cs ++ ['\n'] := by
  induction ts with
  | nil => rfl
  | cons t ts ih =>
    rw [text] at ih ⊢
    rw [List.map_cons, List.map_cons, Outline.linesOfAllAt, List.flatMap_append, ← ih,
      ← Text.intercalate_append (t.outline.linesAt_ne_nil 0), String.join_cons]
    simp [TopStatement.text, Outline.text]

/-- The lines of outlines, each ended by a line feed, are read as blocks with their skeletons,
whatever stands for a tab. -/
theorem Outline.ofSource_lines [Alphabet] {os : List Outline} (h : ∀ o ∈ os, o.Tidy)
    (tabWidth : Nat) {text : String}
    (htext : text.toList = (linesOfAllAt 0 os).flatMap fun cs => cs ++ ['\n']) :
    ∃ bs, Block.ofSource tabWidth text = .ok bs ∧ Block.skeletons bs = skeletons os ∧
      ∀ b ∈ bs, b.Stepped 0 := by
  have hblank : ∀ cs ∈ linesOfAllAt 0 os, ∀ c ∈ cs, Text.isBlank c = true → c = ' ' := by
    intro cs hcs c hc
    obtain ⟨o, ho, hcs⟩ := mem_linesOfAllAt.mp hcs
    exact (h o ho).eq_space_of_mem hcs hc
  have hfeed : ∀ cs ∈ linesOfAllAt 0 os, '\n' ∉ cs := fun cs hcs hc =>
    absurd (hblank cs hcs '\n' hc (by decide)) (by decide)
  have hplain : Source.plain tabWidth text.toList = text.toList := by
    apply Source.plain_eq
    intro c hc
    rw [htext, List.mem_flatMap] at hc
    obtain ⟨cs, hcs, hc⟩ := hc
    rcases List.mem_append.mp hc with hc | hc
    · constructor <;> rintro rfl <;> exact absurd (hblank cs hcs _ hc (by decide)) (by decide)
    · rw [List.mem_singleton.mp hc]
      decide
  obtain ⟨bs, p, hnested, hsteps, hskeletons, hlines⟩ :=
    scans_all (fun o ho => (h o ho).scans) 0 .start
  have hend : Line.scanAll p [[]] = .ok [] := rfl
  refine ⟨bs, ?_, hskeletons, hsteps⟩
  have hscan := hlines hend
  rw [List.append_nil] at hscan
  rw [Block.ofSource, Source.lines, hplain, htext, Text.cut_terminated hfeed, hscan]
  rw [Nat.zero_mul] at hnested
  exact Block.forest_eq_ok.mpr ⟨hnested, rfl⟩

theorem Block.ofSource_text [Alphabet] {ts : List TopStatement} (h : ∀ t ∈ ts, t.outline.Tidy)
    (tabWidth : Nat) :
    ∃ bs, ofSource tabWidth (Program.text ts) = .ok bs ∧
      skeletons bs = Outline.skeletons (ts.map TopStatement.outline) := by
  have htidy : ∀ o ∈ ts.map TopStatement.outline, o.Tidy := by simpa using h
  obtain ⟨bs, hbs, hskeletons, -⟩ := Outline.ofSource_lines htidy tabWidth (Program.toList_text ts)
  exact ⟨bs, hbs, hskeletons⟩

def TopStatement.content (t : TopStatement) : Statement × Bool := (t.statement, t.isPublic)

theorem TopStatement.ofBlocks_of_skeletons [Alphabet] {ts : List TopStatement}
    (h : ∀ t ∈ ts, t.statement.WellFormed) {bs : List Block} (hbs : ∀ b ∈ bs, b.skeleton.Laid)
    (hskeletons : Block.skeletons bs = Outline.skeletons (ts.map TopStatement.outline)) :
    ∃ ts', bs.mapM TopStatement.ofBlock = .ok ts' ∧ ts'.map content = ts.map content := by
  rw [Block.skeletons_eq_map, Outline.skeletons_eq_map, List.map_map] at hskeletons
  simp only [mapM_eq_ok]
  induction ts generalizing bs with
  | nil =>
    rw [List.map_nil, List.map_eq_nil_iff] at hskeletons
    subst hskeletons
    exact ⟨[], .nil, rfl⟩
  | cons t ts ih =>
    obtain ⟨ht, hts⟩ := List.forall_mem_cons.mp h
    obtain ⟨b, bs, rfl, hb, hskeletons⟩ := List.map_eq_cons_iff.mp hskeletons
    obtain ⟨hlaid, hlaids⟩ := List.forall_mem_cons.mp hbs
    obtain ⟨ts', hts', hcontent⟩ := ih hts hlaids hskeletons
    have hreads := (TopStatement.laid ht).reads
    rw [Function.comp_apply] at hb
    rw [← hb] at hreads
    have hok := (TopStatement.ofBlock_eq_ok (t := ⟨t.statement, t.isPublic, b.position⟩) hlaid).mpr
      ⟨rfl, hreads⟩
    exact ⟨_ :: ts', .cons hok hts', by rw [List.map_cons, List.map_cons, hcontent]; rfl⟩

namespace Program

theorem parse_eq_ok [Alphabet] {tabWidth : Nat} {source : String} {ts : List TopStatement} :
    parse tabWidth source = .ok ts ↔
      ∃ bs, Block.ofSource tabWidth source = .ok bs ∧ bs.mapM TopStatement.ofBlock = .ok ts := by
  simp only [parse, exceptBind_eq_ok, exceptMapError_eq_ok]

/-- A program of well-formed statements is read back from its text. -/
theorem parse_text [Alphabet] {ts : List TopStatement} (h : ∀ t ∈ ts, t.statement.WellFormed)
    (tabWidth : Nat) :
    ∃ ts', parse tabWidth (text ts) = .ok ts' ∧
      ts'.map TopStatement.content = ts.map TopStatement.content := by
  obtain ⟨bs, hbs, hskeletons⟩ :=
    Block.ofSource_text (fun t ht => (TopStatement.laid (h t ht)).tidy) tabWidth
  obtain ⟨ts', hts', hcontent⟩ :=
    TopStatement.ofBlocks_of_skeletons h (Block.laid_of_ofSource hbs) hskeletons
  exact ⟨ts', parse_eq_ok.mpr ⟨bs, hbs, hts'⟩, hcontent⟩

theorem wellFormed_of_parse [Alphabet] {tabWidth : Nat} {source : String} {ts : List TopStatement}
    (h : parse tabWidth source = .ok ts) : ∀ t ∈ ts, t.statement.WellFormed := by
  obtain ⟨bs, hbs, hts⟩ := parse_eq_ok.mp h
  have hlaid := Block.laid_of_ofSource hbs
  rw [mapM_eq_ok] at hts
  clear h hbs
  induction hts with
  | nil => exact List.forall_mem_nil _
  | cons hok _ ih =>
    obtain ⟨hb, hbs⟩ := List.forall_mem_cons.mp hlaid
    have hreads := ((TopStatement.ofBlock_eq_ok hb).mp hok).2
    exact List.forall_mem_cons.mpr ⟨hreads.wellFormed hb, ih hbs⟩

/-- The statements that a text can have are the well-formed ones, whatever stands for a tab. -/
theorem exists_parse_iff [Alphabet] (tabWidth : Nat) (contents : List (Statement × Bool)) :
    (∃ source ts, parse tabWidth source = .ok ts ∧ ts.map TopStatement.content = contents) ↔
      ∀ a ∈ contents, a.1.WellFormed := by
  constructor
  · rintro ⟨source, ts, hparse, rfl⟩ a ha
    obtain ⟨t, ht, rfl⟩ := List.mem_map.mp ha
    exact wellFormed_of_parse hparse t ht
  · intro h
    let ts : List TopStatement := contents.map fun a => ⟨a.1, a.2, .start⟩
    have hts : ∀ t ∈ ts, t.statement.WellFormed := by
      intro t ht
      obtain ⟨a, ha, rfl⟩ := List.mem_map.mp ht
      exact h a ha
    obtain ⟨ts', hparse, hcontent⟩ := parse_text hts tabWidth
    refine ⟨text ts, ts', hparse, ?_⟩
    rw [hcontent, List.map_map]
    exact List.map_id contents

/-- A program that is read, printed and read again is the same program. -/
theorem parse_text_of_parse [Alphabet] {tabWidth : Nat} {source : String} {ts : List TopStatement}
    (h : parse tabWidth source = .ok ts) :
    ∃ ts', parse defaultTabWidth (text ts) = .ok ts' ∧
      ts'.map TopStatement.content = ts.map TopStatement.content :=
  parse_text (wellFormed_of_parse h) defaultTabWidth

/-- Guards in brackets, a section of one fact and a bare proof, indented by tabs: all are printed
otherwise. -/
theorem parse_text_of_parse_pub : ∃ ts,
    parse 2
        "pub fn f[T C :: $q(T)](x T) T\nknow:\n\tforall y T :: y is p:\n\t\t-y ^ 2 = 0.50\nproof:\n\ty < 1" =
        .ok ts ∧
      ts.length = 3 ∧ ∃ ts', parse defaultTabWidth (text ts) = .ok ts' ∧
        ts'.map TopStatement.content = ts.map TopStatement.content := by
  obtain ⟨ts, hts, hlength⟩ := exists_ok_of_length (x := parse 2
    "pub fn f[T C :: $q(T)](x T) T\nknow:\n\tforall y T :: y is p:\n\t\t-y ^ 2 = 0.50\nproof:\n\ty < 1")
    (n := 3) (by decide +kernel)
  exact ⟨ts, hts, hlength, parse_text_of_parse hts⟩

end Program

end FactScript
