import FactScript.Lexeme.Unicode
import FactScript.Proofs.Nesting
import Mathlib.Algebra.GroupWithZero.Nat
import Mathlib.Data.List.TakeWhile

/-!
The block structure of lines is determined by their indentation. A forest is well indented when its
blocks stand at the margin and every body stands at one indentation of its own, deeper than its
header; some lines have a block structure exactly when they are the lines of such a forest, and then
of this one only. The same forest is found by going through the lines once, from one level of
indentation to the next.
-/
namespace FactScript.Block

/-- The blocks directly under a block are equally indented and deeper than the block, there are some
exactly when its header ends in a colon, and the same holds of each of them. -/
inductive WellIndented : Block → Prop
  | mk {b : Block} : (∀ b₁ ∈ b.body, ∀ b₂ ∈ b.body, b₁.indent = b₂.indent) →
      (∀ b' ∈ b.body, b.indent < b'.indent) →
      (b.body ≠ [] ↔ b.lexemes.getLast? = some (.symbol .colon)) →
      (∀ b' ∈ b.body, WellIndented b') → WellIndented b

structure WellIndentedForest (bs : List Block) : Prop where
  margin : ∀ b ∈ bs, b.indent = 0
  blocks : ∀ b ∈ bs, b.WellIndented

theorem Nested.wellIndented (b : Block) : ∀ {n : Nat}, Nested n b → b.WellIndented := by
  induction b using Block.induction with
  | h b ih =>
    intro n h
    have hopens := b.opensBlock_iff
    cases h with
    | leaf hno hnil =>
      have hcolon : b.lexemes.getLast? ≠ some (.symbol .colon) := by simp [← hopens, hno]
      exact .mk (by simp [hnil]) (by simp [hnil]) (by simp [hnil, hcolon]) (by simp [hnil])
    | @opening _ inner hyes hne hlt hbody =>
      have hindent : ∀ b' ∈ b.body, b'.indent = inner := fun b' hb' => (hbody b' hb').indent_eq
      refine .mk ?_ ?_ ?_ fun b' hb' => ih b' hb' (hbody b' hb')
      · intro b₁ h₁ b₂ h₂
        rw [hindent b₁ h₁, hindent b₂ h₂]
      · intro b' hb'
        rw [hindent b' hb']
        exact hlt
      · simp [hne, ← hopens, hyes]

theorem WellIndented.nested {b : Block} (h : b.WellIndented) : Nested b.indent b := by
  induction h with
  | @mk b hequal hdeeper hcolon _ ih =>
    rw [← opensBlock_iff] at hcolon
    by_cases hnil : b.body = []
    · have hno : b.line.opensBlock = false := by simpa [hnil] using hcolon
      exact .leaf hno hnil
    · have hfirst : b.body.head hnil ∈ b.body := List.head_mem hnil
      refine .opening (hcolon.mp hnil) hnil (hdeeper _ hfirst) ?_
      intro b' hb'
      rw [hequal _ hfirst b' hb']
      exact ih b' hb'

theorem nested_iff {n : Nat} {b : Block} : Nested n b ↔ b.indent = n ∧ b.WellIndented := by
  constructor
  · intro h
    exact ⟨h.indent_eq, h.wellIndented⟩
  · rintro ⟨rfl, h⟩
    exact h.nested

theorem wellIndentedForest_iff {bs : List Block} :
    WellIndentedForest bs ↔ ∀ b ∈ bs, Nested 0 b := by
  simp only [nested_iff]
  constructor
  · intro h b hb
    exact ⟨h.margin b hb, h.blocks b hb⟩
  · intro h
    exact ⟨fun b hb => (h b hb).1, fun b hb => (h b hb).2⟩

/-- The block structure of some lines is the well indented forest with these lines. -/
theorem forest_eq_ok_iff {lines : List Line} {bs : List Block} :
    forest 0 lines = .ok bs ↔ WellIndentedForest bs ∧ linesOfAll bs = lines := by
  rw [forest_eq_ok, wellIndentedForest_iff]

/-! Every block of a forest takes up one line. -/

theorem sizeOfAll_eq_length {bs : List Block} (h : ∀ b ∈ bs, b.size = b.lines.length) :
    sizeOfAll bs = (linesOfAll bs).length := by
  induction bs with
  | nil => rfl
  | cons b bs ih =>
    obtain ⟨hb, hbs⟩ := List.forall_mem_cons.mp h
    rw [sizeOfAll, linesOfAll, List.length_append, hb, ih hbs]

theorem size_eq_length (b : Block) : b.size = b.lines.length := by
  induction b using Block.induction with
  | h b ih =>
    have hsize : b.size = 1 + sizeOfAll b.body := by
      cases b
      rfl
    rw [hsize, lines_eq, List.length_cons, sizeOfAll_eq_length ih, Nat.add_comm]

theorem sum_size (bs : List Block) : (bs.map size).sum = (linesOfAll bs).length := by
  induction bs with
  | nil => rfl
  | cons b bs ih =>
    rw [List.map_cons, List.sum_cons, linesOfAll, List.length_append, ih, size_eq_length]

/-! Going through the lines once. -/

/-- The blocks at an indentation that stand at the front of the lines, and the lines that are left.
A body is taken at the indentation of its first line; it ends at the first line further to the left,
and so may several levels at once. -/
def siblings (indent : Nat) (lines : List Line) :
    Except LexError (List Block × { rest : List Line // rest.length ≤ lines.length }) :=
  match lines with
  | [] => .ok ([], ⟨[], Nat.le_refl _⟩)
  | line :: rest =>
    if line.indent < indent then .ok ([], ⟨line :: rest, Nat.le_refl _⟩)
    else if indent < line.indent then .error (.unexpectedIndent line.position)
    else if line.opensBlock then
      match rest with
      | [] => .error (.unterminatedBlock line.position)
      | next :: more =>
        if indent < next.indent then do
          let (body, ⟨rest', h⟩) ← siblings next.indent (next :: more)
          let (others, ⟨rest'', h'⟩) ← siblings indent rest'
          return (⟨line.tokens, body, indent, line.position⟩ :: others,
            ⟨rest'', Nat.le_succ_of_le (Nat.le_trans h' h)⟩)
        else .error (.unterminatedBlock line.position)
    else do
      let (others, ⟨rest', h⟩) ← siblings indent rest
      return (⟨line.tokens, [], indent, line.position⟩ :: others, ⟨rest', Nat.le_succ_of_le h⟩)
termination_by lines.length
decreasing_by
  · simp
  · simp only [List.length_cons] at h ⊢
    omega
  · simp

section Runs

variable {α : Type} {p q : α → Bool} (h : ∀ a, p a = true → q a = true)
include h

theorem takeWhile_eq_append (l : List α) :
    l.takeWhile q = l.takeWhile p ++ (l.dropWhile p).takeWhile q := by
  induction l with
  | nil => rfl
  | cons a l ih =>
    by_cases hp : p a = true
    · simp [hp, h a hp, ih]
    · simp [hp]

theorem dropWhile_dropWhile (l : List α) : (l.dropWhile p).dropWhile q = l.dropWhile q := by
  induction l with
  | nil => rfl
  | cons a l ih =>
    by_cases hp : p a = true
    · simp [hp, h a hp, ih]
    · simp [hp]

theorem dropWhile_takeWhile (l : List α) :
    (l.takeWhile q).dropWhile p = (l.dropWhile p).takeWhile q := by
  induction l with
  | nil => rfl
  | cons a l ih =>
    by_cases hp : p a = true
    · simp [hp, h a hp, ih]
    · by_cases hq : q a = true <;> simp [hp, hq]

theorem takeWhile_takeWhile (l : List α) : (l.takeWhile q).takeWhile p = l.takeWhile p := by
  have hboth : (fun a => decide (p a = true ∧ q a = true)) = p := by
    funext a
    by_cases hp : p a = true
    · simp [hp, h a hp]
    · simp [hp]
  rw [List.takeWhile_takeWhile, hboth]

end Runs

section Cases

variable {n : Nat} {l : Line} {rest : List Line}

theorem forest_nil (n : Nat) : forest n [] = .ok [] := by rw [forest]

theorem forest_of_ne (h : l.indent ≠ n) :
    forest n (l :: rest) = .error (.unexpectedIndent l.position) := by
  rw [forest, if_pos h]

theorem forest_leaf (hl : l.indent = n) (hno : l.opensBlock = false) :
    forest n (l :: rest) = (⟨l.tokens, [], n, l.position⟩ :: ·) <$> forest n rest := by
  rw [forest, if_neg (by simpa using hl), if_neg (by simp [hno])]
  rfl

theorem forest_bare (hl : l.indent = n) (hyes : l.opensBlock = true)
    (hbody : rest.takeWhile (n < ·.indent) = []) :
    forest n (l :: rest) = .error (.unterminatedBlock l.position) := by
  rw [forest, if_neg (by simpa using hl), if_pos hyes]
  split
  · rfl
  · next h => simp [hbody] at h

theorem forest_opening {first : Line} {more : List Line} (hl : l.indent = n)
    (hyes : l.opensBlock = true) (hbody : rest.takeWhile (n < ·.indent) = first :: more) :
    forest n (l :: rest) = (do
      let body ← forest first.indent (first :: more)
      let others ← forest n (rest.dropWhile (n < ·.indent))
      return ⟨l.tokens, body, n, l.position⟩ :: others) := by
  rw [forest, if_neg (by simpa using hl), if_pos hyes]
  split
  · next h => simp [hbody] at h
  · next h =>
    rw [hbody] at h
    cases h
    rfl

end Cases

theorem takeWhile_append_cons {α : Type} {p : α → Bool} {a : α} (ha : p a = false) (l r : List α) :
    (l ++ a :: r).takeWhile p = l.takeWhile p ∧
      (l ++ a :: r).dropWhile p = l.dropWhile p ++ a :: r := by
  induction l with
  | nil => simp [ha]
  | cons b l ih => by_cases hb : p b = true <;> simp [hb, ih]

/-- The lines before one that is too far to the left are at fault, or else that line is. -/
theorem forest_append_of_lt {n : Nat} {l : Line} (hl : l.indent < n) (before after : List Line) :
    forest n (before ++ l :: after) = (do
      let _ ← forest n before
      .error (.unexpectedIndent l.position)) := by
  induction hlen : before.length using Nat.strongRecOn generalizing before with
  | ind len ih =>
    cases before with
    | nil =>
      rw [List.nil_append, forest_of_ne (Nat.ne_of_lt hl), forest_nil]
      rfl
    | cons first before =>
      rw [List.length_cons] at hlen
      rw [List.cons_append]
      by_cases hfirst : first.indent = n
      · by_cases hyes : first.opensBlock = true
        · have hdeep : decide (n < l.indent) = false := decide_eq_false (by omega)
          obtain ⟨htake, hdrop⟩ :=
            takeWhile_append_cons (p := fun l' : Line => n < l'.indent) hdeep before after
          cases hbody : before.takeWhile (n < ·.indent) with
          | nil =>
            rw [forest_bare hfirst hyes hbody, forest_bare hfirst hyes (htake.trans hbody)]
            rfl
          | cons inner more =>
            have hlt : (before.dropWhile (n < ·.indent)).length < len := by
              have := (List.dropWhile_suffix (l := before)
                fun l' : Line => decide (n < l'.indent)).length_le
              omega
            rw [forest_opening hfirst hyes hbody, forest_opening hfirst hyes (htake.trans hbody),
              hdrop, ih _ hlt _ rfl]
            cases forest inner.indent (inner :: more) with
            | error e => rfl
            | ok body => cases forest n (before.dropWhile (n < ·.indent)) <;> rfl
        · have hno : first.opensBlock = false := by simpa using hyes
          rw [forest_leaf hfirst hno, forest_leaf hfirst hno,
            ih before.length (by omega) before rfl]
          cases forest n before <;> rfl
      · rw [forest_of_ne hfirst, forest_of_ne hfirst]
        rfl

/-- The lines that are left, as a plain list. -/
def walk (indent : Nat) (lines : List Line) : Except LexError (List Block × List Line) :=
  (fun r => (r.1, r.2.val)) <$> siblings indent lines

section Walk

variable {n : Nat} {l : Line} {rest : List Line}

theorem walk_nil (n : Nat) : walk n [] = .ok ([], []) := by
  rw [walk, siblings]
  rfl

theorem walk_of_lt (h : l.indent < n) : walk n (l :: rest) = .ok ([], l :: rest) := by
  rw [walk, siblings.eq_def]
  simp only [if_pos h]
  rfl

theorem walk_of_gt (h : n < l.indent) :
    walk n (l :: rest) = .error (.unexpectedIndent l.position) := by
  rw [walk, siblings.eq_def]
  simp only [if_neg (Nat.lt_asymm h), if_pos h]
  rfl

theorem walk_leaf (hl : l.indent = n) (hno : l.opensBlock = false) :
    walk n (l :: rest) =
      (fun r => (⟨l.tokens, [], n, l.position⟩ :: r.1, r.2)) <$> walk n rest := by
  rw [walk, siblings.eq_def]
  simp only [hl, Nat.lt_irrefl, hno, Bool.false_eq_true, if_false, walk]
  cases siblings n rest <;> rfl

theorem walk_bare (hl : l.indent = n) (hyes : l.opensBlock = true)
    (hrest : ∀ next ∈ rest.head?, next.indent ≤ n) :
    walk n (l :: rest) = .error (.unterminatedBlock l.position) := by
  rw [walk]
  cases rest with
  | nil =>
    rw [siblings, if_neg (by omega), if_neg (by omega), if_pos hyes]
    rfl
  | cons next more =>
    have hnext := hrest next rfl
    rw [siblings, if_neg (by omega), if_neg (by omega), if_pos hyes]
    simp only [if_neg (Nat.not_lt.mpr hnext)]
    rfl

theorem walk_opening {next : Line} {more : List Line} (hl : l.indent = n)
    (hyes : l.opensBlock = true) (hnext : n < next.indent) :
    walk n (l :: next :: more) = (do
      let (body, rest) ← walk next.indent (next :: more)
      let (others, rest') ← walk n rest
      return (⟨l.tokens, body, n, l.position⟩ :: others, rest')) := by
  rw [walk, siblings, if_neg (by omega), if_neg (by omega), if_pos hyes]
  simp only [if_pos hnext, walk]
  cases siblings next.indent (next :: more) with
  | error e => rfl
  | ok r =>
    obtain ⟨body, rest, h⟩ := r
    change (_ <$> (siblings n rest >>= _)) = ((_ <$> siblings n rest) >>= _)
    cases siblings n rest <;> rfl

end Walk

/-- Where a body at the indentation `m` ends, the lines go on at `n` or further to the left, or else
with a line that stands between the two. -/
theorem body_ends {n m : Nat} (h : n < m) (rest : List Line) :
    (rest.takeWhile (n < ·.indent) = rest.takeWhile (m ≤ ·.indent) ∧
        rest.dropWhile (n < ·.indent) = rest.dropWhile (m ≤ ·.indent)) ∨
      ∃ l after, rest.dropWhile (m ≤ ·.indent) = l :: after ∧ n < l.indent ∧ l.indent < m := by
  have hdeep (l : Line) (hl : decide (m ≤ l.indent) = true) : decide (n < l.indent) = true :=
    decide_eq_true (Nat.lt_of_lt_of_le h (of_decide_eq_true hl))
  have htake := takeWhile_eq_append hdeep rest
  have hdrop := dropWhile_dropWhile hdeep rest
  cases hleft : rest.dropWhile (m ≤ ·.indent) with
  | nil =>
    rw [hleft] at htake hdrop
    exact .inl ⟨by simpa using htake, hdrop.symm⟩
  | cons l after =>
    by_cases hl : n < l.indent
    · have hend := List.head?_dropWhile_not (fun l : Line => decide (m ≤ l.indent)) rest
      simp only [hleft, List.head?_cons, decide_eq_false_iff_not] at hend
      exact .inr ⟨l, after, rfl, hl, by omega⟩
    · rw [hleft] at htake hdrop
      simp only [List.takeWhile_cons, List.dropWhile_cons, hl, decide_false, Bool.false_eq_true,
        if_false, List.append_nil] at htake hdrop
      exact .inl ⟨htake, hdrop.symm⟩

def Walks (n : Nat) (lines : List Line) : Prop :=
  walk n lines = (·, lines.dropWhile (n ≤ ·.indent)) <$> forest n (lines.takeWhile (n ≤ ·.indent))

theorem walks_opening {n : Nat} {l next : Line} {more : List Line} (hl : l.indent = n)
    (hyes : l.opensBlock = true) (hnext : n < next.indent)
    (hbody : Walks next.indent (next :: more))
    (hothers : Walks n ((next :: more).dropWhile (next.indent ≤ ·.indent))) :
    walk n (l :: next :: more) = (·, (next :: more).dropWhile (n ≤ ·.indent)) <$>
      forest n (l :: (next :: more).takeWhile (n ≤ ·.indent)) := by
  have hdeep (l : Line) (h : decide (n < l.indent) = true) : decide (n ≤ l.indent) = true :=
    decide_eq_true (Nat.le_of_lt (of_decide_eq_true h))
  have hbelow (l : Line) (h : decide (next.indent ≤ l.indent) = true) :
      decide (n < l.indent) = true :=
    decide_eq_true (Nat.lt_of_lt_of_le hnext (of_decide_eq_true h))
  have hinner (l : Line) (h : decide (next.indent ≤ l.indent) = true) :
      decide (n ≤ l.indent) = true :=
    hdeep l (hbelow l h)
  have hrun : ((next :: more).takeWhile (n ≤ ·.indent)).takeWhile (n < ·.indent) =
      next :: more.takeWhile (n < ·.indent) := by
    rw [takeWhile_takeWhile hdeep]
    simp [hnext]
  have hrun' : (next :: more).takeWhile (n < ·.indent) = next :: more.takeWhile (n < ·.indent) := by
    simp [hnext]
  rw [walk_opening hl hyes hnext, forest_opening hl hyes hrun, dropWhile_takeWhile hdeep, ← hrun',
    hbody]
  rw [Walks, dropWhile_dropWhile hinner] at hothers
  rcases body_ends hnext (next :: more) with ⟨htake, hdrop⟩ | ⟨l', after, hleft, hlow, hhigh⟩
  · rw [htake, hdrop]
    cases forest next.indent ((next :: more).takeWhile (next.indent ≤ ·.indent)) with
    | error e => rfl
    | ok body =>
      change (walk n _ >>= _) = _
      rw [hothers]
      cases forest n
        (((next :: more).dropWhile (next.indent ≤ ·.indent)).takeWhile (n ≤ ·.indent)) <;> rfl
  · have hbetween : (next :: more).takeWhile (n < ·.indent) =
        (next :: more).takeWhile (next.indent ≤ ·.indent) ++
          l' :: after.takeWhile (n < ·.indent) := by
      rw [takeWhile_eq_append hbelow, hleft]
      simp [hlow]
    rw [hbetween, forest_append_of_lt hhigh, hleft]
    cases forest next.indent ((next :: more).takeWhile (next.indent ≤ ·.indent)) with
    | error e => rfl
    | ok body =>
      change (walk n (l' :: after) >>= _) = _
      rw [walk_of_gt hlow]
      rfl

/-- Going through the lines at an indentation finds the block structure of the lines as deep as
that, and leaves the others. -/
theorem walk_eq (n : Nat) (lines : List Line) : Walks n lines := by
  rw [Walks]
  induction hlen : lines.length using Nat.strongRecOn generalizing n lines with
  | ind len ih =>
    cases lines with
    | nil =>
      rw [walk_nil, List.takeWhile_nil, List.dropWhile_nil, forest_nil]
      rfl
    | cons l rest =>
      rw [List.length_cons] at hlen
      by_cases hlt : l.indent < n
      · have hstop : ¬n ≤ l.indent := by omega
        simp only [walk_of_lt hlt, List.takeWhile_cons, List.dropWhile_cons, hstop, decide_false,
          Bool.false_eq_true, if_false, forest_nil]
        rfl
      have hle : n ≤ l.indent := by omega
      simp only [List.takeWhile_cons, List.dropWhile_cons, hle, decide_true, if_true]
      by_cases hl : l.indent = n
      · by_cases hyes : l.opensBlock = true
        · cases rest with
          | nil =>
            rw [walk_bare hl hyes (by simp), List.takeWhile_nil, forest_bare hl hyes rfl]
            rfl
          | cons next more =>
            by_cases hnext : n < next.indent
            · have hlen' := (List.dropWhile_suffix (fun l : Line => decide (next.indent ≤ l.indent))
                (l := next :: more)).length_le
              exact walks_opening hl hyes hnext (ih _ (by omega) _ _ rfl) (ih _ (by omega) _ _ rfl)
            · have hnone :
                  ((next :: more).takeWhile (n ≤ ·.indent)).takeWhile (n < ·.indent) = [] := by
                rw [takeWhile_takeWhile (by simp; omega)]
                simp [hnext]
              rw [walk_bare hl hyes (by simpa using hnext), forest_bare hl hyes hnone]
              rfl
        · have hno : l.opensBlock = false := by simpa using hyes
          rw [walk_leaf hl hno, forest_leaf hl hno, ih rest.length (by omega) n rest rfl]
          cases forest n (rest.takeWhile (n ≤ ·.indent)) <;> rfl
      · rw [walk_of_gt (by omega), forest_of_ne hl]
        rfl

theorem walk_zero (lines : List Line) : walk 0 lines = (·, []) <$> forest 0 lines := by
  have h := walk_eq 0 lines
  have htake : lines.takeWhile (0 ≤ ·.indent) = lines := List.takeWhile_eq_self_iff.mpr (by simp)
  have hdrop : lines.dropWhile (0 ≤ ·.indent) = [] := List.dropWhile_eq_nil_iff.mpr (by simp)
  rwa [Walks, htake, hdrop] at h

/-- The block structure of some lines is the only well indented forest with these lines, and cannot
be built exactly when there is none. It has a block for each line, and one pass through the lines
finds it and leaves none of them. -/
theorem forest_exact (lines : List Line) :
    (∀ bs, forest 0 lines = .ok bs ↔ WellIndentedForest bs ∧ linesOfAll bs = lines) ∧
      (∀ bs bs', WellIndentedForest bs → linesOfAll bs = lines → WellIndentedForest bs' →
        linesOfAll bs' = lines → bs = bs') ∧
      ((∃ e, forest 0 lines = .error e) ↔ ¬∃ bs, WellIndentedForest bs ∧ linesOfAll bs = lines) ∧
      (∀ bs, forest 0 lines = .ok bs → (bs.map size).sum = lines.length) ∧
      walk 0 lines = (·, []) <$> forest 0 lines := by
  refine ⟨fun _ => forest_eq_ok_iff, ?_, ?_, ?_, walk_zero lines⟩
  · intro bs bs' h hlines h' hlines'
    have hok := forest_eq_ok_iff.mpr ⟨h, hlines⟩
    have hok' := forest_eq_ok_iff.mpr ⟨h', hlines'⟩
    exact Except.ok.inj (hok.symm.trans hok')
  · simp only [← forest_eq_ok_iff]
    cases forest 0 lines <;> simp
  · intro bs hbs
    rw [sum_size, (forest_eq_ok_iff.mp hbs).2]

/-- The last line closes two levels at once; a line between two levels belongs to neither. -/
theorem forest_exact_dedent :
    (∃ ls bs, Source.lines 4 "a:\n  b:\n    c\nd" = .ok ls ∧ forest 0 ls = .ok bs ∧ bs.length = 2 ∧
      WellIndentedForest bs ∧ linesOfAll bs = ls ∧
      (∀ bs', WellIndentedForest bs' → linesOfAll bs' = ls → bs' = bs) ∧
      (bs.map size).sum = ls.length) ∧
    ∃ ls, Source.lines 4 "a:\n    b\n  c" = .ok ls ∧
      ¬∃ bs, WellIndentedForest bs ∧ linesOfAll bs = ls := by
  constructor
  · obtain ⟨bs, hbs, hlength⟩ := exists_ok_of_length (x := ofSource 4 "a:\n  b:\n    c\nd") (n := 2)
      (by decide +kernel)
    obtain ⟨ls, hls, hforest⟩ := exceptBind_eq_ok.mp hbs
    obtain ⟨hiff, hunique, -, hcount, -⟩ := forest_exact ls
    obtain ⟨hindented, hlines⟩ := (hiff bs).mp hforest
    exact ⟨ls, bs, hls, hforest, hlength, hindented, hlines,
      fun bs' h' hlines' => hunique bs' bs h' hlines' hindented hlines, hcount bs hforest⟩
  · obtain ⟨ls, hls, -⟩ := exists_ok_of_length (x := Source.lines 4 "a:\n    b\n  c") (n := 3)
      (by decide +kernel)
    obtain ⟨e, he⟩ := exists_error_of_isOk (x := ofSource 4 "a:\n    b\n  c") (by decide +kernel)
    have hfails : forest 0 ls = .error e := by
      rw [ofSource, hls] at he
      exact he
    exact ⟨ls, hls, (forest_exact ls).2.2.1.mp ⟨e, hfails⟩⟩

end FactScript.Block
