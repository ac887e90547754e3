import FactScript.Proofs.Grammar
import FactScript.Proofs.Spelling
import FactScript.Proofs.Success

/-!
The nesting of blocks. A forest of blocks is built from lines exactly when its own lines, written
out in order, are those lines and every block stands where its indentation puts it (`Block.Nested`).
The skeletons of the blocks of a text are laid out accordingly (`Skeleton.Laid`).
-/
namespace FactScript

theorem Skeleton.induction {P : Skeleton → Prop}
    (h : ∀ header body, (∀ k ∈ body, P k) → P ⟨header, body⟩) : ∀ k, P k
  | ⟨header, body⟩ => h header body fun k _ => induction h k

namespace Block

/-- What holds of a block whenever it holds of the blocks nested directly under it holds of every
block. -/
theorem induction {P : Block → Prop} (h : ∀ b : Block, (∀ b' ∈ b.body, P b') → P b) : ∀ b, P b
  | ⟨header, body, indent, position⟩ => h _ fun b' _ => induction h b'

def line (b : Block) : Line := ⟨b.indent, b.header, b.position⟩

mutual

def lines : Block → List Line
  | ⟨header, body, indent, position⟩ => ⟨indent, header, position⟩ :: linesOfAll body

def linesOfAll : List Block → List Line
  | [] => []
  | b :: bs => lines b ++ linesOfAll bs

end

theorem lines_eq (b : Block) : b.lines = b.line :: linesOfAll b.body := by
  cases b
  rfl

theorem mem_linesOfAll {bs : List Block} {l : Line} :
    l ∈ linesOfAll bs ↔ ∃ b ∈ bs, l ∈ b.lines := by
  induction bs with
  | nil => simp [linesOfAll]
  | cons b bs ih => simp [linesOfAll, ih]

/-- The block stands at this indentation; its body, if its header opens one, stands at a
larger one. -/
inductive Nested : Nat → Block → Prop
  | leaf {b : Block} : b.line.opensBlock = false → b.body = [] → Nested b.indent b
  | opening {b : Block} {inner : Nat} : b.line.opensBlock = true → b.body ≠ [] → b.indent < inner →
      (∀ b' ∈ b.body, Nested inner b') → Nested b.indent b

namespace Nested

variable {n : Nat} {b : Block} {bs : List Block}

theorem indent_eq (h : Nested n b) : b.indent = n := by
  cases h <;> rfl

theorem le_of_mem_lines (b : Block) : ∀ {n : Nat}, Nested n b → ∀ l ∈ b.lines, n ≤ l.indent := by
  induction b using Block.induction with
  | h b ih =>
    intro n h l hl
    rw [lines_eq, List.mem_cons] at hl
    rcases hl with rfl | hl
    · exact Nat.le_of_eq h.indent_eq.symm
    · obtain ⟨b', hb', hl⟩ := mem_linesOfAll.mp hl
      cases h with
      | leaf _ hnil => simp [hnil] at hb'
      | opening _ _ hlt hbody =>
        have := ih b' hb' (hbody b' hb') l hl
        omega

/-- After the lines of one body comes the end or a line that is not nested in it. -/
theorem takeWhile_lines {body : List Block} {inner : Nat} (hlt : n < inner)
    (hbody : ∀ b ∈ body, Nested inner b) (hbs : ∀ b ∈ bs, Nested n b) :
    (linesOfAll body ++ linesOfAll bs).takeWhile (n < ·.indent) = linesOfAll body ∧
      (linesOfAll body ++ linesOfAll bs).dropWhile (n < ·.indent) = linesOfAll bs := by
  have hdeep : ∀ l ∈ linesOfAll body, decide (n < l.indent) = true := by
    intro l hl
    obtain ⟨b, hb, hl⟩ := mem_linesOfAll.mp hl
    have := le_of_mem_lines b (hbody b hb) l hl
    simp only [decide_eq_true_eq]
    omega
  rw [List.takeWhile_append_of_pos hdeep, List.dropWhile_append_of_pos hdeep]
  cases bs with
  | nil => simp [linesOfAll]
  | cons b bs =>
    have hb := (hbs b List.mem_cons_self).indent_eq
    rw [linesOfAll, lines_eq]
    simp [line, hb]

end Nested

/-- One step of the construction: the first line heads a block, with a body if it opens one. -/
theorem forest_cons_eq_ok {n : Nat} {l : Line} {rest : List Line} {bs : List Block} :
    forest n (l :: rest) = .ok bs ↔ l.indent = n ∧ ∃ body others,
      bs = ⟨l.tokens, body, n, l.position⟩ :: others ∧
      ((l.opensBlock = false ∧ body = [] ∧ forest n rest = .ok others) ∨
        l.opensBlock = true ∧ ∃ first more, rest.takeWhile (n < ·.indent) = first :: more ∧
          forest first.indent (first :: more) = .ok body ∧
          forest n (rest.dropWhile (n < ·.indent)) = .ok others) := by
  rw [forest]
  by_cases hn : l.indent = n
  · rw [if_neg (by simpa using hn)]
    by_cases hopens : l.opensBlock = true
    · rw [if_pos hopens]
      split
      · next htake => simp [htake, hopens]
      · next first more htake =>
        simp only [htake, exceptBind_eq_ok, exceptPure_eq_ok]
        constructor
        · rintro ⟨body, hbody, others, hothers, rfl⟩
          exact ⟨hn, body, others, rfl, .inr ⟨hopens, first, more, rfl, hbody, hothers⟩⟩
        · rintro ⟨-, body, others, rfl, ⟨hno, -⟩ | ⟨-, first', more', heq, hbody, hothers⟩⟩
          · exact absurd hopens (by simp [hno])
          · cases heq
            exact ⟨body, hbody, others, hothers, rfl⟩
    · simp only [hopens, Bool.false_eq_true, if_false, exceptBind_eq_ok, exceptPure_eq_ok]
      constructor
      · rintro ⟨others, hothers, rfl⟩
        exact ⟨hn, [], others, rfl, .inl ⟨by simp, rfl, hothers⟩⟩
      · rintro ⟨-, body, others, rfl, ⟨-, rfl, hothers⟩ | ⟨hyes, -⟩⟩
        · exact ⟨others, hothers, rfl⟩
        · cases hyes
  · rw [if_pos hn]
    simp [hn]

theorem forest_linesOfAll {n : Nat} {bs : List Block} (h : ∀ b ∈ bs, Nested n b)
    (hbodies : ∀ b ∈ bs, ∀ m, (∀ b' ∈ b.body, Nested m b') →
      forest m (linesOfAll b.body) = .ok b.body) :
    forest n (linesOfAll bs) = .ok bs := by
  induction bs with
  | nil => rw [linesOfAll, forest]
  | cons b bs ih =>
    obtain ⟨hb, hbs⟩ := List.forall_mem_cons.mp h
    obtain ⟨hbody, hbodies⟩ := List.forall_mem_cons.mp hbodies
    have hrest := ih hbs hbodies
    rw [linesOfAll, lines_eq, List.cons_append, forest_cons_eq_ok]
    refine ⟨hb.indent_eq, b.body, bs, by rw [← hb.indent_eq]; cases b; rfl, ?_⟩
    cases hb with
    | leaf hline hnil => exact .inl ⟨hline, hnil, by rw [hnil]; exact hrest⟩
    | @opening _ inner hline hne hlt hinner =>
      obtain ⟨htake, hdrop⟩ := Nested.takeWhile_lines hlt hinner hbs
      have hforest := hbody inner hinner
      rw [htake, hdrop]
      cases hbody' : b.body with
      | nil => exact absurd hbody' hne
      | cons b' bs' =>
        have hb' := (hinner b' (by simp [hbody'])).indent_eq
        rw [hbody', linesOfAll, lines_eq, List.cons_append] at hforest
        rw [linesOfAll, lines_eq, List.cons_append]
        refine .inr ⟨hline, _, _, rfl, ?_, hrest⟩
        rw [show b'.line.indent = inner from hb']
        exact hforest

theorem nested_of_forest {n : Nat} {lines : List Line} {bs : List Block}
    (h : forest n lines = .ok bs) :
    (∀ b ∈ bs, Nested n b) ∧ linesOfAll bs = lines := by
  induction hlen : lines.length using Nat.strongRecOn generalizing n lines bs with
  | ind len ih =>
    cases lines with
    | nil =>
      rw [forest] at h
      cases h
      exact ⟨List.forall_mem_nil _, rfl⟩
    | cons l rest =>
      obtain ⟨rfl, body, others, rfl, hcases⟩ := forest_cons_eq_ok.mp h
      rw [List.length_cons] at hlen
      rcases hcases with ⟨hno, rfl, hothers⟩ | ⟨hyes, first, more, htake, hbody, hothers⟩
      · obtain ⟨hnested, hlines⟩ := ih rest.length (by omega) hothers rfl
        have hleaf := Nested.leaf (b := ⟨l.tokens, [], l.indent, l.position⟩) hno rfl
        refine ⟨List.forall_mem_cons.mpr ⟨hleaf, hnested⟩, ?_⟩
        rw [linesOfAll, lines_eq, hlines]
        rfl
      · have hsplit := List.takeWhile_append_dropWhile (p := (l.indent < ·.indent)) (l := rest)
        have hlengths := congrArg List.length hsplit
        rw [List.length_append] at hlengths
        obtain ⟨hnested, hlines⟩ := ih _ (by rw [← htake]; omega) hbody rfl
        obtain ⟨hnested', hlines'⟩ := ih _ (by omega) hothers rfl
        have hfirst : l.indent < first.indent := by
          have hall := List.all_takeWhile (p := (l.indent < ·.indent)) (l := rest)
          rw [htake, List.all_cons, Bool.and_eq_true] at hall
          simpa using hall.1
        have hne : body ≠ [] := by
          rintro rfl
          cases hlines
        have hopening :=
          Nested.opening (b := ⟨l.tokens, body, l.indent, l.position⟩) hyes hne hfirst hnested
        refine ⟨List.forall_mem_cons.mpr ⟨hopening, hnested'⟩, ?_⟩
        rw [linesOfAll, lines_eq, hlines, hlines', ← htake, List.cons_append, hsplit]
        rfl

/-- The blocks of some lines are those that are nested and have these lines. -/
theorem forest_eq_ok {n : Nat} {lines : List Line} {bs : List Block} :
    forest n lines = .ok bs ↔ (∀ b ∈ bs, Nested n b) ∧ linesOfAll bs = lines := by
  have hbodies (b : Block) : ∀ m, (∀ b' ∈ b.body, Nested m b') →
      forest m (linesOfAll b.body) = .ok b.body := by
    induction b using Block.induction with
    | h b ih =>
      intro m hm
      exact forest_linesOfAll hm ih
  constructor
  · exact nested_of_forest
  · rintro ⟨hbs, rfl⟩
    exact forest_linesOfAll hbs fun b _ => hbodies b

end Block

/-! Skeletons of nested blocks. -/

theorem getLast?_cons_iff {α : Type} {a b : α} {l : List α} (hab : a ≠ b) :
    (a :: l).getLast? = some b ↔ l.getLast? = some b := by
  cases l with
  | nil => simp [hab]
  | cons c l => simp

/-- At every depth, the header is made of lexemes that can be written, and something is nested under
it exactly when it ends in a colon. -/
inductive Skeleton.Laid [Alphabet] : Skeleton → Prop
  | mk {h body} : (∀ l ∈ h, l.Spelled) → (body ≠ [] ↔ h.getLast? = some (.symbol .colon)) →
      (∀ k ∈ body, Laid k) → Laid ⟨h, body⟩

namespace Skeleton.Laid

variable [Alphabet] {k : Skeleton}

theorem spelled (hk : k.Laid) : ∀ l ∈ k.header, l.Spelled := by
  cases hk with
  | mk h _ _ => exact h

theorem nonempty_iff (hk : k.Laid) : k.body ≠ [] ↔ k.header.getLast? = some (.symbol .colon) := by
  cases hk with
  | mk _ h _ => exact h

theorem of_mem (hk : k.Laid) : ∀ k' ∈ k.body, k'.Laid := by
  cases hk with
  | mk _ _ h => exact h

theorem tail {l : Lexeme} {h : List Lexeme} {body : List Skeleton} (hk : Laid ⟨l :: h, body⟩)
    (hl : l ≠ .symbol .colon) : Laid ⟨h, body⟩ :=
  .mk (Lexeme.allSpelled_cons.mp hk.spelled).2
    (hk.nonempty_iff.trans (getLast?_cons_iff hl)) hk.of_mem

theorem body_eq_nil (hk : k.Laid) (hcolon : .symbol .colon ∉ k.header) : k.body = [] := by
  by_contra hne
  have hlast := hk.nonempty_iff.mp hne
  exact hcolon (List.mem_of_getLast? hlast)

end Skeleton.Laid

namespace Block

variable {b : Block} {bs : List Block}

@[simp] theorem skeleton_header (b : Block) : b.skeleton.header = b.lexemes := by
  cases b
  rfl

@[simp] theorem skeleton_body (b : Block) : b.skeleton.body = skeletons b.body := by
  cases b
  rfl

theorem skeleton_eq (b : Block) : b.skeleton = ⟨b.lexemes, skeletons b.body⟩ := by
  cases b
  rfl

theorem skeletons_eq_map (bs : List Block) : skeletons bs = bs.map skeleton := by
  induction bs with
  | nil => rfl
  | cons b bs ih => rw [skeletons, ih, List.map_cons]

@[simp] theorem skeletons_eq_nil : skeletons bs = [] ↔ bs = [] := by
  rw [skeletons_eq_map, List.map_eq_nil_iff]

theorem mem_skeletons {k : Skeleton} : k ∈ skeletons bs ↔ ∃ b ∈ bs, b.skeleton = k := by
  rw [skeletons_eq_map, List.mem_map]

theorem laid_body [Alphabet] (hb : b.skeleton.Laid) : ∀ b' ∈ b.body, b'.skeleton.Laid := by
  intro b' hb'
  refine hb.of_mem _ ?_
  rw [skeleton_body, mem_skeletons]
  exact ⟨b', hb', rfl⟩

theorem getLast?_lexemes [Alphabet] (hb : b.skeleton.Laid) (hne : b.body ≠ []) :
    b.lexemes.getLast? = some (.symbol .colon) := by
  rw [← skeleton_header]
  exact hb.nonempty_iff.mp (by simpa using hne)

theorem opensBlock_iff (b : Block) :
    b.line.opensBlock = true ↔ b.lexemes.getLast? = some (.symbol .colon) := by
  simp only [line, Line.opensBlock, lexemes, List.getLast?_map]
  cases b.header.getLast? <;> simp

theorem Nested.laid [Alphabet] (b : Block) : ∀ {n : Nat}, Nested n b →
    (∀ l ∈ b.lines, ∀ t ∈ l.tokens, t.lexeme.Spelled) → b.skeleton.Laid := by
  induction b using Block.induction with
  | h b ih =>
    intro n hb hspelled
    rw [lines_eq, List.forall_mem_cons] at hspelled
    rw [skeleton_eq]
    refine .mk ?_ ?_ ?_
    · intro l hl
      obtain ⟨t, ht, rfl⟩ := List.mem_map.mp hl
      exact hspelled.1 t ht
    · rw [← opensBlock_iff, ne_eq, skeletons_eq_nil]
      cases hb with
      | leaf hno hnil => simp [hno, hnil]
      | opening hyes hne _ _ => simp [hyes, hne]
    · intro k hk
      obtain ⟨b', hb', rfl⟩ := mem_skeletons.mp hk
      have hlines : ∀ l ∈ b'.lines, ∀ t ∈ l.tokens, t.lexeme.Spelled := fun l hl =>
        hspelled.2 l (mem_linesOfAll.mpr ⟨b', hb', hl⟩)
      cases hb with
      | leaf _ hnil => simp [hnil] at hb'
      | opening _ _ _ hbody => exact ih b' hb' (hbody b' hb') hlines

end Block

variable [Alphabet]

/-- One step of the scan: a space is skipped, anything else begins a token. -/
theorem Token.scan_cons_eq_ok {p : Position} {c : Char} {cs : List Char} {ts : List Token} :
    scan p (c :: cs) = .ok ts ↔ (c = ' ' ∧ scan (p.after [' ']) cs = .ok ts) ∨
      c ≠ ' ' ∧ ∃ l cs' ts', Lexeme.take? (c :: cs) = some (l, cs') ∧
        scan (p.after l.chars) cs' = .ok ts' ∧ ts = ⟨l, p, p.after l.chars⟩ :: ts' := by
  rw [scan]
  by_cases hc : c = ' '
  · simp [hc]
  · rw [if_neg hc]
    split
    · next h => simp [hc, h]
    · next l cs' h =>
      simp only [exceptMap_eq_ok, h]
      constructor
      · rintro ⟨ts', hts', rfl⟩
        exact .inr ⟨hc, l, cs', ts', rfl, hts', rfl⟩
      · rintro (⟨hc', -⟩ | ⟨-, l', cs'', ts', hl, hts', rfl⟩)
        · exact absurd hc' hc
        · cases hl
          exact ⟨ts', hts', rfl⟩

theorem Token.spelled_of_scan {p : Position} {cs : List Char} {ts : List Token}
    (h : scan p cs = .ok ts) :
    ∀ t ∈ ts, t.lexeme.Spelled := by
  induction hlen : cs.length using Nat.strongRecOn generalizing p cs ts with
  | ind len ih =>
    cases cs with
    | nil =>
      rw [scan] at h
      cases h
      exact List.forall_mem_nil _
    | cons c cs =>
      rw [List.length_cons] at hlen
      rcases scan_cons_eq_ok.mp h with ⟨-, hrest⟩ | ⟨-, l, cs', ts', hl, hrest, rfl⟩
      · exact ih cs.length (by omega) hrest rfl
      · have hlt := Lexeme.take?_length hl
        rw [List.length_cons] at hlt
        have htail := ih cs'.length (by omega) hrest rfl
        exact List.forall_mem_cons.mpr ⟨(Lexeme.spelled_of_take? hl).1, htail⟩

/-- One step through the lines: a blank one is left out, and the next begins where it ends. -/
theorem Line.scanAll_cons_eq_ok {p : Position} {cs : List Char} {css : List (List Char)}
    {ls : List Line} :
    scanAll p (cs :: css) = .ok ls ↔
      (cs.all Text.isBlank = true ∧ scanAll (p.nextLine cs) css = .ok ls) ∨
        cs.all Text.isBlank = false ∧ ∃ l, scan p cs = .ok l ∧
          ∃ ls', scanAll (p.nextLine cs) css = .ok ls' ∧ l :: ls' = ls := by
  rw [scanAll]
  by_cases hblank : cs.all Text.isBlank = true
  · simp [hblank]
  · simp only [hblank, exceptBind_eq_ok, exceptPure_eq_ok, Bool.false_eq_true, if_false, false_and,
      false_or, true_and]

theorem Line.spelled_of_scanAll {p : Position} {css : List (List Char)} {ls : List Line}
    (h : scanAll p css = .ok ls) : ∀ l ∈ ls, ∀ t ∈ l.tokens, t.lexeme.Spelled := by
  induction css generalizing p ls with
  | nil =>
    cases h
    exact List.forall_mem_nil _
  | cons cs css ih =>
    rcases scanAll_cons_eq_ok.mp h with ⟨-, hrest⟩ | ⟨-, l, hl, ls, hls, rfl⟩
    · exact ih hrest
    · simp only [scan, exceptBind_eq_ok, exceptPure_eq_ok] at hl
      obtain ⟨ts, hts, rfl⟩ := hl
      exact List.forall_mem_cons.mpr ⟨Token.spelled_of_scan hts, ih hls⟩

theorem Block.laid_of_ofSource {tabWidth : Nat} {text : String} {bs : List Block}
    (h : ofSource tabWidth text = .ok bs) : ∀ b ∈ bs, b.skeleton.Laid := by
  rw [ofSource, exceptBind_eq_ok] at h
  obtain ⟨ls, hls, hbs⟩ := h
  obtain ⟨hnested, rfl⟩ := forest_eq_ok.mp hbs
  intro b hb
  exact Nested.laid b (hnested b hb) fun l hl =>
    Line.spelled_of_scanAll hls l (mem_linesOfAll.mpr ⟨b, hb, hl⟩)

theorem Block.laid_of_find? {bs : List Block} {path : List Nat} {b : Block}
    (hbs : ∀ b ∈ bs, b.skeleton.Laid) (h : find? bs path = some b) : b.skeleton.Laid := by
  induction path generalizing bs with
  | nil => cases bs <;> cases h
  | cons i path ih =>
    cases path with
    | nil => exact hbs b (List.mem_of_getElem? h)
    | cons j path =>
      obtain ⟨b', hb', h⟩ := Option.bind_eq_some_iff.mp h
      exact ih (laid_body (hbs b' (List.mem_of_getElem? hb'))) h

end FactScript
