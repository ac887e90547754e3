import FactScript.Proofs.Indentation

/-!
The line that an indentation error names. The lines are gone through one by one, and what has to be
kept of those before is how far the open levels are indented and whether a body has to come next
(`Margins`). So a list of lines has no block structure because of a first line that cannot stand
where it does, and the lines after it have no part in that.
-/
namespace FactScript

/-- What the lines so far leave open: the indentations of the levels, the innermost first, and the
last line if it is a header, whose body has to begin. -/
structure Margins where
  levels : List Nat
  header : Option Line

namespace Margins

def start : Margins := ⟨[0], none⟩

/-- The levels that are open at a line. The first line of a body opens a level; every other line
closes those that are further to the right and must then stand at the innermost level. -/
def enter (m : Margins) (l : Line) : Except LexError (List Nat) :=
  match m.header with
  | some h =>
    if h.indent < l.indent then .ok (l.indent :: m.levels)
    else .error (.unterminatedBlock h.position)
  | none =>
    if (m.levels.dropWhile (l.indent < ·)).head? = some l.indent then
      .ok (m.levels.dropWhile (l.indent < ·))
    else .error (.unexpectedIndent l.position)

def step (m : Margins) (l : Line) : Except LexError Margins :=
  (⟨·, if l.opensBlock then some l else none⟩) <$> m.enter l

def finish (m : Margins) : Except LexError Unit :=
  match m.header with
  | some h => .error (.unterminatedBlock h.position)
  | none => .ok ()

def check (m : Margins) (lines : List Line) : Except LexError Unit := lines.foldlM step m >>= finish

variable {m m' : Margins} {l l' : Line} {rest : List Line}

@[simp] theorem check_nil (m : Margins) : m.check [] = m.finish := rfl

theorem check_cons (m : Margins) (l : Line) (rest : List Line) :
    m.check (l :: rest) = m.step l >>= fun m' => m'.check rest := by
  rw [check, List.foldlM_cons, bind_assoc]
  rfl

theorem check_of_step (h : m.step l = .ok m') : m.check (l :: rest) = m'.check rest := by
  rw [check_cons, h]
  rfl

theorem check_of_error {e : LexError} (h : m.step l = .error e) :
    m.check (l :: rest) = .error e := by
  rw [check_cons, h]
  rfl

theorem check_after {lines : List Line} (h : lines.foldlM step m = .ok m') :
    m.check (lines ++ rest) = m'.check rest := by
  rw [check, List.foldlM_append, h]
  rfl

/-! Single lines. -/

theorem step_eq_ok : m.step l = .ok m' ↔
    m.enter l = .ok m'.levels ∧ m'.header = if l.opensBlock then some l else none := by
  obtain ⟨levels, header⟩ := m'
  rw [step, exceptMap_eq_ok]
  simp

theorem step_eq_error {e : LexError} : m.step l = .error e ↔ m.enter l = .error e := by
  rw [step]
  cases m.enter l <;> simp [Functor.map, Except.map]

theorem enter_congr (h : l'.indent = l.indent) : (m.enter l').toOption = (m.enter l).toOption := by
  unfold enter
  rw [h]
  cases m.header with
  | some header => rfl
  | none =>
    dsimp only
    split <;> rfl

theorem enter_eq_ok_congr (h : l'.indent = l.indent) {levels : List Nat}
    (hl : m.enter l = .ok levels) :
    m.enter l' = .ok levels := by
  have hsame := enter_congr (m := m) h
  rw [hl] at hsame
  cases hl' : m.enter l' with
  | ok levels' =>
    rw [hl'] at hsame
    exact congrArg Except.ok (Option.some.inj hsame)
  | error e =>
    rw [hl'] at hsame
    cases hsame

theorem enter_eq_error_congr (h : l'.indent = l.indent) {e : LexError} (hl : m.enter l = .error e) :
    ∃ e', m.enter l' = .error e' := by
  have hsame := enter_congr (m := m) h
  rw [hl] at hsame
  cases hl' : m.enter l' with
  | ok levels' =>
    rw [hl'] at hsame
    cases hsame
  | error e' => exact ⟨e', rfl⟩

/-- Where no body has to begin, only a line itself can be at fault. -/
theorem enter_eq_unexpectedIndent {p : Position} :
    m.enter l = .error (.unexpectedIndent p) → m.header = none ∧ l.position = p := by
  unfold enter
  cases m.header with
  | some h =>
    dsimp only
    split <;> simp
  | none =>
    dsimp only
    split <;> simp

/-- Where a body has to begin, only its header can be at fault. -/
theorem enter_eq_unterminatedBlock {p : Position} : m.enter l = .error (.unterminatedBlock p) ↔
    ∃ h, m.header = some h ∧ l.indent ≤ h.indent ∧ h.position = p := by
  unfold enter
  cases m.header with
  | some h =>
    dsimp only
    split
    · next hlt =>
      simp
      omega
    · next hle =>
      simp
      omega
  | none =>
    dsimp only
    split <;> simp

/-! Levels. -/

section Levels

variable {n : Nat} {levels : List Nat}

theorem enter_level (hl : l.indent = n) :
    (⟨n :: levels, none⟩ : Margins).enter l = .ok (n :: levels) := by
  simp [enter, hl]

theorem step_of_lt (hl : l.indent < n) :
    (⟨n :: levels, none⟩ : Margins).step l = (⟨levels, none⟩ : Margins).step l := by
  simp [step, enter, hl]

theorem enter_of_gt (hl : n < l.indent) :
    (⟨n :: levels, none⟩ : Margins).enter l = .error (.unexpectedIndent l.position) := by
  have hkeep : ¬l.indent < n := by omega
  have hne : n ≠ l.indent := by omega
  simp [enter, hkeep, hne]

/-- The first line of a body stands as if the level of the body had been open. -/
theorem step_body {h : Line} (hl : h.indent < l.indent) :
    (⟨levels, some h⟩ : Margins).step l = (⟨l.indent :: levels, none⟩ : Margins).step l := by
  rw [step, step, enter_level rfl]
  simp [enter, hl]

theorem step_leaf (hl : l.indent = n) (hno : l.opensBlock = false) :
    (⟨n :: levels, none⟩ : Margins).step l = .ok ⟨n :: levels, none⟩ :=
  step_eq_ok.mpr ⟨enter_level hl, by simp [hno]⟩

theorem step_header (hl : l.indent = n) (hyes : l.opensBlock = true) :
    (⟨n :: levels, none⟩ : Margins).step l = .ok ⟨n :: levels, some l⟩ :=
  step_eq_ok.mpr ⟨enter_level hl, by simp [hyes]⟩

theorem check_bare {h : Line} (hrest : ∀ next ∈ rest.head?, next.indent ≤ h.indent) :
    (⟨levels, some h⟩ : Margins).check rest = .error (.unterminatedBlock h.position) := by
  cases rest with
  | nil => rfl
  | cons next rest =>
    exact check_of_error (step_eq_error.mpr
      (enter_eq_unterminatedBlock.mpr ⟨h, rfl, hrest next rfl, rfl⟩))

end Levels

theorem walk_length_le {n : Nat} {lines : List Line} {r : List Block × List Line}
    (h : Block.walk n lines = .ok r) : r.2.length ≤ lines.length := by
  obtain ⟨⟨bs, rest, hrest⟩, -, rfl⟩ := exceptMap_eq_ok.mp h
  exact hrest

/-- Going through the blocks of a level ends where the check finds that the level is closed. -/
theorem check_eq_walk (n : Nat) (levels : List Nat) (lines : List Line) :
    (⟨n :: levels, none⟩ : Margins).check lines =
      Block.walk n lines >>= fun r => (⟨levels, none⟩ : Margins).check r.2 := by
  induction hlen : lines.length using Nat.strongRecOn generalizing n levels lines with
  | ind len ih =>
    cases lines with
    | nil =>
      rw [Block.walk_nil]
      rfl
    | cons l rest =>
      rw [List.length_cons] at hlen
      rcases Nat.lt_trichotomy l.indent n with hlt | heq | hgt
      · rw [Block.walk_of_lt hlt, check_cons, step_of_lt hlt, ← check_cons]
        rfl
      · by_cases hyes : l.opensBlock = true
        · rw [check_of_step (step_header heq hyes)]
          by_cases hbare : ∀ next ∈ rest.head?, next.indent ≤ l.indent
          · rw [check_bare hbare, Block.walk_bare heq hyes (heq ▸ hbare)]
            rfl
          · cases rest with
            | nil => simp at hbare
            | cons next more =>
              have hnext : l.indent < next.indent := by simpa using hbare
              rw [Block.walk_opening heq hyes (heq ▸ hnext), check_cons, step_body hnext,
                ← check_cons, ih _ (by omega) _ _ _ rfl]
              cases hbody : Block.walk next.indent (next :: more) with
              | error e => rfl
              | ok r =>
                have hshort := walk_length_le hbody
                change (⟨n :: levels, none⟩ : Margins).check r.2 = ((Block.walk n r.2 >>= _) >>= _)
                rw [ih _ (by omega) _ _ _ rfl]
                cases Block.walk n r.2 <;> rfl
        · have hno : l.opensBlock = false := by simpa using hyes
          rw [check_of_step (step_leaf heq hno), ih _ (by omega) _ _ _ rfl, Block.walk_leaf heq hno]
          cases Block.walk n rest <;> rfl
      · rw [check_of_error (step_eq_error.mpr (enter_of_gt hgt)), Block.walk_of_gt hgt]
        rfl

/-- Some lines have a block structure exactly if they pass the check, and fail for the
same reason. -/
theorem check_start (lines : List Line) :
    start.check lines = (fun _ => ()) <$> Block.forest 0 lines := by
  rw [start, check_eq_walk, Block.walk_zero]
  cases Block.forest 0 lines <;> rfl

/-! The line at fault. -/

theorem foldlM_eq_error {ε α β : Type} {f : β → α → Except ε β} {b : β} {as : List α} {e : ε}
    (h : as.foldlM f b = .error e) :
    ∃ before a after b', as = before ++ a :: after ∧ before.foldlM f b = .ok b' ∧
      f b' a = .error e := by
  induction as generalizing b with
  | nil => cases h
  | cons a as ih =>
    rw [List.foldlM_cons] at h
    cases ha : f b a with
    | error e' =>
      rw [ha] at h
      cases h
      exact ⟨[], a, as, b, rfl, rfl, ha⟩
    | ok b₁ =>
      rw [ha] at h
      obtain ⟨before, a', after, b', rfl, hbefore, ha'⟩ := ih h
      refine ⟨a :: before, a', after, b', rfl, ?_, ha'⟩
      rw [List.foldlM_cons, ha]
      exact hbefore

theorem header_of_foldlM {lines : List Line} (h : lines.foldlM step start = .ok m)
    (hm : m.header = some l) :
    ∃ before m', lines = before ++ [l] ∧ before.foldlM step start = .ok m' ∧
      m'.enter l = .ok m.levels ∧ l.opensBlock = true := by
  rcases List.eq_nil_or_concat lines with rfl | ⟨before, last, rfl⟩
  · cases h
    cases hm
  · rw [List.concat_eq_append, List.foldlM_append, exceptBind_eq_ok] at h
    obtain ⟨m', hbefore, hlast⟩ := h
    rw [List.foldlM_cons, exceptBind_eq_ok] at hlast
    obtain ⟨m'', hstep, hend⟩ := hlast
    cases hend
    obtain ⟨henter, hheader⟩ := step_eq_ok.mp hstep
    rw [hm] at hheader
    split at hheader
    · next hopens =>
      obtain rfl := Option.some.inj hheader
      exact ⟨before, m', List.concat_eq_append, hbefore, henter, hopens⟩
    · cases hheader

theorem check_eq_unexpectedIndent {lines : List Line} {p : Position}
    (h : start.check lines = .error (.unexpectedIndent p)) :
    ∃ before l after m, lines = before ++ l :: after ∧ before.foldlM step start = .ok m ∧
      m.enter l = .error (.unexpectedIndent p) := by
  rw [check] at h
  cases hrun : lines.foldlM step start with
  | error e =>
    rw [hrun] at h
    cases h
    obtain ⟨before, l, after, m, hlines, hbefore, hstep⟩ := foldlM_eq_error hrun
    exact ⟨before, l, after, m, hlines, hbefore, step_eq_error.mp hstep⟩
  | ok m =>
    rw [hrun] at h
    change m.finish = _ at h
    unfold finish at h
    split at h <;> cases h

theorem check_eq_unterminatedBlock {lines : List Line} {p : Position}
    (h : start.check lines = .error (.unterminatedBlock p)) :
    ∃ before l after m levels, lines = before ++ l :: after ∧ before.foldlM step start = .ok m ∧
      m.enter l = .ok levels ∧ l.opensBlock = true ∧ l.position = p ∧
      ∀ next ∈ after.head?, next.indent ≤ l.indent := by
  rw [check] at h
  cases hrun : lines.foldlM step start with
  | error e =>
    rw [hrun] at h
    cases h
    obtain ⟨before, next, after, m, rfl, hbefore, hstep⟩ := foldlM_eq_error hrun
    obtain ⟨l, hheader, hle, hp⟩ := enter_eq_unterminatedBlock.mp (step_eq_error.mp hstep)
    obtain ⟨before, m', rfl, hbefore, henter, hopens⟩ := header_of_foldlM hbefore hheader
    exact ⟨before, l, next :: after, m', _, by simp, hbefore, henter, hopens, hp,
      by simpa using hle⟩
  | ok m =>
    rw [hrun] at h
    change m.finish = _ at h
    unfold finish at h
    split at h
    · next l hheader =>
      cases h
      obtain ⟨before, m', rfl, hbefore, henter, hopens⟩ := header_of_foldlM hrun hheader
      exact ⟨before, l, [], m', _, rfl, hbefore, henter, hopens, rfl, by simp⟩
    · cases h

end Margins

theorem getElem?_after {α : Type} (before : List α) (a : α) (after : List α) :
    (before ++ a :: after)[before.length + 1]? = after.head? := by
  rw [List.getElem?_append_right (by omega), Nat.add_sub_cancel_left, List.getElem?_cons_succ,
    List.head?_eq_getElem?]

/-- A list that agrees with another up to the element after `a` goes on alike after `a`. -/
theorem exists_append_of_agree {α : Type} {before after as : List α} {a : α}
    (h : ∀ i ≤ before.length + 1, as[i]? = (before ++ a :: after)[i]?) :
    ∃ after', as = before ++ a :: after' ∧ after'.head? = after.head? := by
  have hfront : as.take (before.length + 1) = before ++ [a] := by
    refine List.ext_getElem? fun i => ?_
    by_cases hi : i < before.length + 1
    · rw [List.getElem?_take_of_lt hi, h i (by omega), List.append_cons,
        List.getElem?_append_left (by simpa using hi)]
    · rw [List.getElem?_eq_none (by simp; omega), List.getElem?_eq_none (by simp; omega)]
  refine ⟨as.drop (before.length + 1), ?_, ?_⟩
  · rw [List.append_cons, ← hfront, List.take_append_drop]
  · rw [List.head?_drop, h _ (Nat.le_refl _), getElem?_after]

namespace Block

theorem forest_ok_iff_check {lines : List Line} :
    (∃ bs, forest 0 lines = .ok bs) ↔ Margins.start.check lines = .ok () := by
  rw [Margins.check_start]
  cases forest 0 lines <;> simp [Functor.map, Except.map]

theorem forest_eq_error_iff {lines : List Line} {e : LexError} :
    forest 0 lines = .error e ↔ Margins.start.check lines = .error e := by
  rw [Margins.check_start]
  cases forest 0 lines <;> simp [Functor.map, Except.map]

/-- An indentation error names the first line that is at fault. A line that is indented unexpectedly
comes after lines that have a block structure, and no line could stand in its place at its
indentation. A header without a body could be replaced by a line that needs none. What follows the
line after it plays no part. -/
theorem forest_blames_first (lines : List Line) (p : Position) :
    (forest 0 lines = .error (.unexpectedIndent p) → ∃ k l, lines[k]? = some l ∧ l.position = p ∧
      (∃ bs, forest 0 (lines.take k) = .ok bs) ∧
      (∀ l' : Line, l'.indent = l.indent → l'.opensBlock = false →
        ∃ e, forest 0 (lines.take k ++ [l']) = .error e) ∧
      ∀ lines' : List Line, (∀ i ≤ k + 1, lines'[i]? = lines[i]?) →
        forest 0 lines' = .error (.unexpectedIndent p)) ∧
    (forest 0 lines = .error (.unterminatedBlock p) → ∃ k l, lines[k]? = some l ∧ l.position = p ∧
      l.opensBlock = true ∧ (∀ next, lines[k + 1]? = some next → next.indent ≤ l.indent) ∧
      (∀ l' : Line, l'.indent = l.indent → l'.opensBlock = false →
        ∃ bs, forest 0 (lines.take k ++ [l']) = .ok bs) ∧
      ∀ lines' : List Line, (∀ i ≤ k + 1, lines'[i]? = lines[i]?) →
        forest 0 lines' = .error (.unterminatedBlock p)) := by
  constructor
  · intro h
    obtain ⟨before, l, after, m, rfl, hbefore, henter⟩ :=
      Margins.check_eq_unexpectedIndent (forest_eq_error_iff.mp h)
    obtain ⟨hheader, hp⟩ := Margins.enter_eq_unexpectedIndent henter
    refine ⟨before.length, l, by simp, hp, ?_, ?_, ?_⟩
    · rw [List.take_left, forest_ok_iff_check, ← List.append_nil before,
        Margins.check_after hbefore, Margins.check_nil, Margins.finish, hheader]
    · intro l' hindent _
      obtain ⟨e, he⟩ := Margins.enter_eq_error_congr hindent henter
      refine ⟨e, ?_⟩
      rw [List.take_left, forest_eq_error_iff, Margins.check_after hbefore]
      exact Margins.check_of_error (Margins.step_eq_error.mpr he)
    · intro lines' hagree
      obtain ⟨after', rfl, -⟩ := exists_append_of_agree hagree
      rw [forest_eq_error_iff, Margins.check_after hbefore]
      exact Margins.check_of_error (Margins.step_eq_error.mpr henter)
  · intro h
    obtain ⟨before, l, after, m, levels, rfl, hbefore, henter, hopens, hp, hnext⟩ :=
      Margins.check_eq_unterminatedBlock (forest_eq_error_iff.mp h)
    refine ⟨before.length, l, by simp, hp, hopens, ?_, ?_, ?_⟩
    · intro next hat
      rw [getElem?_after] at hat
      exact hnext next hat
    · intro l' hindent hno
      have hstep : m.step l' = .ok ⟨levels, none⟩ :=
        Margins.step_eq_ok.mpr ⟨Margins.enter_eq_ok_congr hindent henter, by simp [hno]⟩
      rw [List.take_left, forest_ok_iff_check, Margins.check_after hbefore,
        Margins.check_of_step hstep]
      rfl
    · intro lines' hagree
      obtain ⟨after', rfl, hhead⟩ := exists_append_of_agree hagree
      have hstep : m.step l = .ok ⟨levels, some l⟩ :=
        Margins.step_eq_ok.mpr ⟨henter, by simp [hopens]⟩
      rw [forest_eq_error_iff, Margins.check_after hbefore, Margins.check_of_step hstep,
        Margins.check_bare (hhead ▸ hnext), hp]

theorem exists_lines_of_error [Alphabet] (tabWidth : Nat) (text : String) {n : Nat} {e : LexError}
    (hlines : (Source.lines tabWidth text).toOption.map List.length = some n)
    (h : (fun _ => ()) <$> ofSource tabWidth text = .error e) :
    ∃ ls, Source.lines tabWidth text = .ok ls ∧ forest 0 ls = .error e := by
  obtain ⟨ls, hls, -⟩ := exists_ok_of_length hlines
  refine ⟨ls, hls, ?_⟩
  rw [ofSource, hls] at h
  rwa [forest_eq_error_iff, Margins.check_start]

/-- A line between two levels is at fault itself; right after a header it is the header that is. -/
theorem forest_blames_first_dedent :
    (∃ ls k l, Source.lines 4 "a:\n    b\n  c" = .ok ls ∧
      forest 0 ls = .error (.unexpectedIndent ⟨3, 3, 11⟩) ∧ ls[k]? = some l ∧
      l.position = ⟨3, 3, 11⟩ ∧ ∃ bs, forest 0 (ls.take k) = .ok bs) ∧
    ∃ ls k l, Source.lines 4 "a:\n    b:\n  c" = .ok ls ∧
      forest 0 ls = .error (.unterminatedBlock ⟨2, 5, 7⟩) ∧ ls[k]? = some l ∧
      l.position = ⟨2, 5, 7⟩ ∧ l.opensBlock = true ∧
        ∀ l' : Line, l'.indent = l.indent → l'.opensBlock = false →
          ∃ bs, forest 0 (ls.take k ++ [l']) = .ok bs := by
  constructor
  · obtain ⟨ls, hls, h⟩ := exists_lines_of_error 4 "a:\n    b\n  c" (n := 3)
      (e := .unexpectedIndent ⟨3, 3, 11⟩) (by decide +kernel) (by decide +kernel)
    obtain ⟨k, l, hl, hp, hbefore, -⟩ := (forest_blames_first ls _).1 h
    exact ⟨ls, k, l, hls, h, hl, hp, hbefore⟩
  · obtain ⟨ls, hls, h⟩ := exists_lines_of_error 4 "a:\n    b:\n  c" (n := 3)
      (e := .unterminatedBlock ⟨2, 5, 7⟩) (by decide +kernel) (by decide +kernel)
    obtain ⟨k, l, hl, hp, hopens, -, hrepair, -⟩ := (forest_blames_first ls _).2 h
    exact ⟨ls, k, l, hls, h, hl, hp, hopens, hrepair⟩

end Block

end FactScript
