import FactScript.Proofs.Munch
import FactScript.Proofs.RoundTrip

/-!
Reading printed blocks. The print of a block depends on its skeleton only: single spaces keep the
lexemes of a header apart, and four spaces for each level keep the nesting. So what is read again
has the same skeleton, however the text was laid out before, and is printed as the same text.
-/
namespace FactScript

/-! Headers. -/

namespace Piece

def spread (ls : List Lexeme) : List Piece := List.intersperse space (ls.map lexeme)

theorem spread_cons_cons (l l' : Lexeme) (ls : List Lexeme) :
    spread (l :: l' :: ls) = lexeme l :: space :: spread (l' :: ls) := rfl

@[simp] theorem lexemes_spread (ls : List Lexeme) : lexemes (spread ls) = ls := by
  induction ls with
  | nil => rfl
  | cons l ls ih =>
    cases ls with
    | nil => rfl
    | cons l' ls => rw [spread_cons_cons, lexemes_cons_lexeme, lexemes_cons_space, ih]

theorem apart_space (l : Lexeme) : (lexeme l).apart space = true := by
  cases l <;> simp [apart, isClosed, isBreak]

theorem tidy_spread [Alphabet] {ls : List Lexeme} (h : Lexeme.AllSpelled ls) :
    Tidy (spread ls) := by
  refine ⟨by rwa [lexemes_spread], ?_⟩
  clear h
  induction ls with
  | nil => exact List.isChain_nil
  | cons l ls ih =>
    cases ls with
    | nil => exact List.isChain_singleton _
    | cons l' ls =>
      rw [spread_cons_cons]
      exact .cons_cons (apart_space l) (List.isChain_cons.mpr ⟨fun _ _ => rfl, ih⟩)

theorem leads_spread {ls : List Lexeme} (h : ls ≠ []) : Leads (spread ls) := by
  cases ls with
  | nil => exact absurd rfl h
  | cons l ls =>
    cases ls with
    | nil => exact leads_cons l []
    | cons l' ls => exact leads_cons l _

end Piece

open Piece

/-! The print of a skeleton. -/

mutual

def Skeleton.outline : Skeleton → Outline
  | ⟨header, body⟩ => ⟨spread header, outlines body⟩

def Skeleton.outlines : List Skeleton → List Outline
  | [] => []
  | k :: ks => k.outline :: outlines ks

end

namespace Skeleton

theorem outlines_eq_map (ks : List Skeleton) : outlines ks = ks.map outline := by
  induction ks with
  | nil => rfl
  | cons k ks ih => rw [outlines, ih, List.map_cons]

theorem skeleton_outline (k : Skeleton) : k.outline.skeleton = k := by
  induction k using Skeleton.induction with
  | h header body ih =>
    have hbody : Outline.skeletons (outlines body) = body := by
      rw [outlines_eq_map, Outline.skeletons_eq_map, List.map_map]
      exact (List.map_congr_left ih).trans (List.map_id body)
    rw [outline, Outline.skeleton, lexemes_spread, hbody]

/-- At every depth the header has a lexeme. -/
inductive Headed : Skeleton → Prop
  | mk {header : List Lexeme} {body : List Skeleton} : header ≠ [] → (∀ k ∈ body, Headed k) →
      Headed ⟨header, body⟩

/-- The print of a skeleton that is laid out can be read again. -/
theorem Headed.tidy [Alphabet] {k : Skeleton} (h : k.Headed) (hlaid : k.Laid) : k.outline.Tidy := by
  induction h with
  | @mk header body hheader _ ih =>
    have hnil : outlines body = [] ↔ body = [] := by rw [outlines_eq_map, List.map_eq_nil_iff]
    refine .mk (tidy_spread hlaid.spelled) (leads_spread hheader) ?_ ?_
    · rw [ne_eq, hnil, lexemes_spread]
      exact hlaid.nonempty_iff
    · intro o ho
      rw [outlines_eq_map, List.mem_map] at ho
      obtain ⟨k, hk, rfl⟩ := ho
      exact ih k hk (hlaid.of_mem k hk)

end Skeleton

/-! The print of blocks. -/

theorem Line.tokens_ne_nil_of_scanAll [Alphabet] {p : Position} {css : List (List Char)}
    {ls : List Line} (h : scanAll p css = .ok ls) : ∀ l ∈ ls, l.tokens ≠ [] := by
  induction css generalizing p ls with
  | nil =>
    cases h
    exact List.forall_mem_nil _
  | cons cs css ih =>
    rcases scanAll_cons_eq_ok.mp h with ⟨-, hrest⟩ | ⟨hblank, l, hl, ls, hls, rfl⟩
    · exact ih hrest
    · exact List.forall_mem_cons.mpr ⟨tokens_ne_nil hblank hl, ih hls⟩

namespace Block

def text (b : Block) : String := textOfAll [b]

theorem toList_textOfAll (bs : List Block) : (textOfAll bs).toList =
    (Outline.linesOfAllAt 0 (outlines bs)).flatMap fun cs => cs ++ ['\n'] := by
  rw [textOfAll, String.toList_ofList]

theorem join_text (bs : List Block) : String.join (bs.map text) = textOfAll bs := by
  induction bs with
  | nil => rfl
  | cons b bs ih =>
    apply String.toList_injective
    rw [List.map_cons, String.join_cons, String.toList_append, ih, text, toList_textOfAll,
      toList_textOfAll, toList_textOfAll]
    simp [outlines, Outline.linesOfAllAt]

theorem outlines_eq_map (bs : List Block) : outlines bs = bs.map outline := by
  induction bs with
  | nil => rfl
  | cons b bs ih => rw [outlines, ih, List.map_cons]

theorem outline_eq (b : Block) : b.outline = b.skeleton.outline := by
  induction b using Block.induction with
  | h b ih =>
    have hbody : outlines b.body = Skeleton.outlines (skeletons b.body) := by
      rw [outlines_eq_map, Skeleton.outlines_eq_map, skeletons_eq_map, List.map_map]
      exact List.map_congr_left ih
    have hheader : b.outline = ⟨spread b.lexemes, outlines b.body⟩ := by
      cases b
      simp [outline, spread, lexemes, Function.comp_def]
    rw [hheader, hbody, skeleton_eq, Skeleton.outline]

theorem outlines_eq (bs : List Block) : outlines bs = Skeleton.outlines (skeletons bs) := by
  rw [outlines_eq_map, Skeleton.outlines_eq_map, skeletons_eq_map, List.map_map]
  exact List.map_congr_left fun b _ => outline_eq b

theorem textOfAll_of_skeletons {bs bs' : List Block} (h : skeletons bs = skeletons bs') :
    textOfAll bs = textOfAll bs' := by
  rw [textOfAll, textOfAll, outlines_eq, outlines_eq, h]

theorem headed_skeleton (b : Block) : (∀ l ∈ b.lines, l.tokens ≠ []) → b.skeleton.Headed := by
  induction b using Block.induction with
  | h b ih =>
    intro hlines
    rw [lines_eq, List.forall_mem_cons] at hlines
    rw [skeleton_eq]
    refine .mk (by simpa [lexemes, line] using hlines.1) ?_
    intro k hk
    obtain ⟨b', hb', rfl⟩ := mem_skeletons.mp hk
    exact ih b' hb' fun l hl => hlines.2 l (mem_linesOfAll.mpr ⟨b', hb', hl⟩)

theorem headed_of_ofSource [Alphabet] {tabWidth : Nat} {source : String} {bs : List Block}
    (h : ofSource tabWidth source = .ok bs) : ∀ b ∈ bs, b.skeleton.Headed := by
  rw [ofSource, exceptBind_eq_ok] at h
  obtain ⟨ls, hls, hbs⟩ := h
  obtain ⟨-, rfl⟩ := forest_eq_ok.mp hbs
  intro b hb
  apply headed_skeleton
  intro l hl
  exact Line.tokens_ne_nil_of_scanAll hls l (mem_linesOfAll.mpr ⟨b, hb, hl⟩)

/-- A block at the end of a path is as deep as the path is long. -/
theorem Stepped.indent_of_find? {bs : List Block} {depth : Nat} (h : ∀ b ∈ bs, b.Stepped depth)
    {path : List Nat} {b : Block} (hb : find? bs path = some b) :
    b.indent = (depth + (path.length - 1)) * Outline.indentWidth := by
  induction path generalizing bs depth with
  | nil => cases bs <;> cases hb
  | cons i path ih =>
    cases path with
    | nil =>
      cases h b (List.mem_of_getElem? hb) with
      | mk hindent _ => exact hindent
    | cons j path =>
      obtain ⟨b', hb', hb⟩ := Option.bind_eq_some_iff.mp hb
      cases h b' (List.mem_of_getElem? hb') with
      | mk _ hbody =>
        rw [ih hbody hb]
        congr 1
        simp only [List.length_cons]
        omega

/-- The print of the blocks of a text is read as blocks of the same shape with the same lexemes in
every header, each indented by four spaces for every block around it; and these are printed as the
same text. -/
theorem ofSource_print [Alphabet] {tabWidth : Nat} {source : String} {bs : List Block}
    (h : ofSource tabWidth source = .ok bs) :
    ∃ bs', ofSource Program.defaultTabWidth (String.join (bs.map text)) = .ok bs' ∧
      skeletons bs' = skeletons bs ∧
      (∀ path b, find? bs' path = some b → b.indent = 4 * (path.length - 1)) ∧
      String.join (bs'.map text) = String.join (bs.map text) := by
  have hheaded := headed_of_ofSource h
  have hlaid := laid_of_ofSource h
  have htidy : ∀ o ∈ outlines bs, o.Tidy := by
    intro o ho
    rw [outlines_eq_map, List.mem_map] at ho
    obtain ⟨b, hb, rfl⟩ := ho
    rw [outline_eq]
    exact (hheaded b hb).tidy (hlaid b hb)
  have hskeletons : Outline.skeletons (outlines bs) = skeletons bs := by
    rw [outlines_eq_map, Outline.skeletons_eq_map, skeletons_eq_map, List.map_map]
    apply List.map_congr_left
    intro b _
    rw [Function.comp_apply, outline_eq, Skeleton.skeleton_outline]
  obtain ⟨bs', hbs', hskeletons', hstepped⟩ :=
    Outline.ofSource_lines htidy Program.defaultTabWidth (toList_textOfAll bs)
  have hsame : skeletons bs' = skeletons bs := hskeletons'.trans hskeletons
  simp only [join_text]
  refine ⟨bs', hbs', hsame, ?_, textOfAll_of_skeletons hsame⟩
  intro path b hb
  rw [Stepped.indent_of_find? hstepped hb, Nat.zero_add, Nat.mul_comm, Outline.indentWidth]

/-- Uneven indentation by tabs and spaces, and lexemes that run into one another. -/
theorem ofSource_print_uneven : ∃ bs, ofSource 3 "know:\n\tx:: :\n\t     12y=== é\n\tz" = .ok bs ∧
    String.join (bs.map text) = "know :\n    x :: :\n        12 y == = é\n    z\n" ∧
    ∃ bs', ofSource Program.defaultTabWidth "know :\n    x :: :\n        12 y == = é\n    z\n" =
        .ok bs' ∧
      skeletons bs' = skeletons bs ∧
      (∀ path b, find? bs' path = some b → b.indent = 4 * (path.length - 1)) ∧
      String.join (bs'.map text) = "know :\n    x :: :\n        12 y == = é\n    z\n" := by
  obtain ⟨bs, hbs, htext⟩ := exists_ok_of_map
    (x := ofSource 3 "know:\n\tx:: :\n\t     12y=== é\n\tz")
    (f := fun bs => String.join (bs.map text))
    (b := "know :\n    x :: :\n        12 y == = é\n    z\n") (by decide +kernel)
  have hprint := ofSource_print hbs
  rw [htext] at hprint
  exact ⟨bs, hbs, htext, hprint⟩

end Block

end FactScript
