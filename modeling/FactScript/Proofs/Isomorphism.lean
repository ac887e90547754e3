import FactScript.Proofs.Indentation
import FactScript.Proofs.Placement

/-!
Lines are nested by the order of their indentations alone. Two lists of lines with the same lexemes,
whose indentations are in the same order and which keep to the margin in the same lines, are nested
in the same way or break off at the same line for the same reason, and the same statements or faults
are found in them.

The two runs are followed on the list of the pairs of corresponding lines.
-/
namespace FactScript

namespace Line

def lexemes (l : Line) : List Lexeme := l.tokens.map Token.lexeme

theorem opensBlock_of_lexemes {l l' : Line} (h : l.lexemes = l'.lexemes) :
    l.opensBlock = l'.opensBlock := by
  have hlast (l : Line) : l.opensBlock = l.lexemes.getLast?.any (· == .symbol .colon) := by
    rw [opensBlock, lexemes, List.getLast?_map, Option.any_map]
  rw [hlast, hlast, h]

/-- The lines have the same lexemes, and their indentations are in the same order and nil in the
same lines. -/
structure Isomorphic (ls ls' : List Line) : Prop where
  lexemes : ls.map lexemes = ls'.map Line.lexemes
  order : ∀ p ∈ (ls.map indent).zip (ls'.map indent), ∀ q ∈ (ls.map indent).zip (ls'.map indent),
    (p.1 < q.1 ↔ p.2 < q.2)
  margin : ∀ p ∈ (ls.map indent).zip (ls'.map indent), (p.1 = 0 ↔ p.2 = 0)

instance (ls ls' : List Line) : Decidable (Isomorphic ls ls') :=
  decidable_of_iff (_ ∧ _ ∧ _) ⟨fun h => ⟨h.1, h.2.1, h.2.2⟩,
    fun h => ⟨h.lexemes, h.order, h.margin⟩⟩

theorem exists_isomorphic {ε : Type} {x y : Except ε (List Line)}
    (h : (x.toOption.bind fun ls => y.toOption.map fun ls' => decide (Isomorphic ls ls')) =
      some true) :
    ∃ ls ls', x = .ok ls ∧ y = .ok ls' ∧ Isomorphic ls ls' := by
  cases x with
  | error e => cases h
  | ok ls =>
    cases y with
    | error e => cases h
    | ok ls' => exact ⟨ls, ls', rfl, rfl, of_decide_eq_true (Option.some.inj h)⟩

end Line

/-- The ways in which lines fail to be nested, each found at the place of a line. -/
def LexError.nesting : List (Position → LexError) := [unexpectedIndent, unterminatedBlock]

theorem LexError.eq_of_nesting {e e' : Position → LexError} {p p' : Position} (he : e ∈ nesting)
    (he' : e' ∈ nesting) (h : e p = e' p') : e = e' ∧ p = p' := by
  simp only [nesting, List.mem_cons, List.not_mem_nil, or_false] at he he'
  rcases he with rfl | rfl <;> rcases he' with rfl | rfl <;> simp_all

namespace Block

/-! Corresponding lines. -/

section Paired

variable {K : Nat → Nat → Prop} {f : Position → Position} {n n' : Nat}

def SameOrder (K : Nat → Nat → Prop) : Prop :=
  ∀ ⦃a a' b b'⦄, K a a' → K b b' → (a < b ↔ a' < b')

theorem SameOrder.eq_iff (hK : SameOrder K) {a a' b b' : Nat} (ha : K a a') (hb : K b b') :
    a = b ↔ a' = b' := by
  have hlt := hK ha hb
  have hgt := hK hb ha
  omega

/-- The lines of a pair have the same lexemes, corresponding indentations and, under `f`, the same
place. -/
structure Alike (K : Nat → Nat → Prop) (f : Position → Position) (p : Line × Line) : Prop where
  lexemes : p.1.lexemes = p.2.lexemes
  indent : K p.1.indent p.2.indent
  position : f p.1.position = f p.2.position

theorem Alike.header {p : Line × Line} (h : Alike K f p) :
    p.1.tokens.map Token.bare = p.2.tokens.map Token.bare := by
  have hbare (l : Line) : l.tokens.map Token.bare = l.lexemes.map fun t => ⟨t, .start, .start⟩ := by
    rw [Line.lexemes, List.map_map]
    rfl
  rw [hbare, hbare, h.lexemes]

theorem takeWhile_pairs {ps : List (Line × Line)} (hK : SameOrder K) (hn : K n n')
    (h : ∀ p ∈ ps, Alike K f p) :
    (ps.map Prod.snd).takeWhile (n' < ·.indent) = (ps.takeWhile (n < ·.1.indent)).map Prod.snd ∧
      (ps.map Prod.snd).dropWhile (n' < ·.indent) =
        (ps.dropWhile (n < ·.1.indent)).map Prod.snd := by
  induction ps with
  | nil => exact ⟨rfl, rfl⟩
  | cons p ps ih =>
    obtain ⟨hp, hps⟩ := List.forall_mem_cons.mp h
    obtain ⟨htake, hdrop⟩ := ih hps
    have hlt : n < p.1.indent ↔ n' < p.2.indent := hK hn hp.indent
    by_cases hdeep : n < p.1.indent
    · simp [hdeep, hlt.mp hdeep, htake, hdrop]
    · have hdeep' : ¬n' < p.2.indent := mt hlt.mpr hdeep
      simp [hdeep, hdeep']

/-- Both runs yield blocks that agree in everything but the places and indentations, or both break
off at the lines of one pair for one reason. -/
inductive SameOutcome (f : Position → Position) (ps : List (Line × Line)) :
    Except LexError (List Block) → Except LexError (List Block) → Prop
  | ok {bs bs' : List Block} (h : bs.map (place f) = bs'.map (place f)) :
      SameOutcome f ps (.ok bs) (.ok bs')
  | error {e : Position → LexError} {p : Line × Line}
      (he : e ∈ LexError.nesting) (hp : p ∈ ps) :
      SameOutcome f ps (.error (e p.1.position)) (.error (e p.2.position))

namespace SameOutcome

variable {ps qs : List (Line × Line)} {x x' y y' : Except LexError (List Block)}

theorem mono (h : SameOutcome f qs x x') (hsub : ∀ p ∈ qs, p ∈ ps) : SameOutcome f ps x x' := by
  cases h with
  | ok h => exact .ok h
  | error he hp => exact .error he (hsub _ hp)

/-- If one run breaks off at a place, the other breaks off at a line that corresponds to one at that
place. -/
theorem error_of_left {e : Position → LexError} {q : Position} (h : SameOutcome f ps x x')
    (he : e ∈ LexError.nesting) (hx : x = .error (e q)) :
    ∃ p ∈ ps, p.1.position = q ∧ x' = .error (e p.2.position) := by
  cases h with
  | ok _ => cases hx
  | @error e' p he' hp =>
    obtain ⟨rfl, hposition⟩ := LexError.eq_of_nesting he' he (Except.error.inj hx)
    exact ⟨p, hp, hposition, rfl⟩

theorem cons {p : Line × Line} (hp : Alike K f p) (hx : SameOutcome f ps x x')
    (hy : SameOutcome f ps y y') :
    SameOutcome f ps
      (do let body ← x; let others ← y
          return ⟨p.1.tokens, body, n, p.1.position⟩ :: others)
      (do let body ← x'; let others ← y'
          return ⟨p.2.tokens, body, n', p.2.position⟩ :: others) := by
  cases hx with
  | error he hp => exact .error he hp
  | ok hbody =>
    cases hy with
    | error he hp => exact .error he hp
    | ok hothers =>
      refine .ok ?_
      simp only [List.map_cons, place_eq, hp.header, hp.position, hbody, hothers]

end SameOutcome

/-- A line that opens a block, if shorter lists of the pairs after it have the same outcome. -/
theorem forest_pairs_opening (hK : SameOrder K) (hn : K n n') {p : Line × Line}
    {ps : List (Line × Line)} (hp : Alike K f p) (hps : ∀ q ∈ ps, Alike K f q) (hl : p.1.indent = n)
    (hl' : p.2.indent = n') (hyes : p.1.opensBlock = true)
    (ih : ∀ {m m' : Nat} (qs : List (Line × Line)),
      K m m' → qs.length ≤ ps.length → (∀ q ∈ qs, q ∈ ps) →
        SameOutcome f (p :: ps) (forest m (qs.map Prod.fst)) (forest m' (qs.map Prod.snd))) :
    SameOutcome f (p :: ps) (forest n (p.1 :: ps.map Prod.fst))
      (forest n' (p.2 :: ps.map Prod.snd)) := by
  have hyes' : p.2.opensBlock = true := Line.opensBlock_of_lexemes hp.lexemes ▸ hyes
  have htake : (ps.map Prod.fst).takeWhile (n < ·.indent) =
      (ps.takeWhile (n < ·.1.indent)).map Prod.fst := List.takeWhile_map
  have hdrop : (ps.map Prod.fst).dropWhile (n < ·.indent) =
      (ps.dropWhile (n < ·.1.indent)).map Prod.fst := List.dropWhile_map
  have hothers := ih _ hn (List.dropWhile_suffix (n < ·.1.indent)).length_le
    fun _ hr => (List.dropWhile_suffix (n < ·.1.indent)).subset hr
  have hbegins := List.takeWhile_prefix (l := ps) (n < ·.1.indent)
  -- Both lists are cut after the same pair, although each by an indentation of its own.
  obtain ⟨htake', hdrop'⟩ := takeWhile_pairs hK hn hps
  cases hbody : ps.takeWhile (n < ·.1.indent) with
  | nil =>
    rw [hbody] at htake htake'
    rw [forest_bare hl hyes htake, forest_bare hl' hyes' htake']
    exact .error (by simp [LexError.nesting]) List.mem_cons_self
  | cons q qs =>
    rw [hbody] at hbegins
    have hq : Alike K f q := hps q (hbegins.subset List.mem_cons_self)
    have hinner := ih (q :: qs) hq.indent hbegins.length_le fun _ hr => hbegins.subset hr
    rw [hbody, List.map_cons] at htake htake'
    rw [forest_opening hl hyes htake, forest_opening hl' hyes' htake', hdrop, hdrop']
    exact SameOutcome.cons hp hinner hothers

/-- The lines of pairs are nested with the same outcome, by induction on the number of pairs. -/
theorem forest_pairs (hK : SameOrder K) (hn : K n n') {ps : List (Line × Line)}
    (h : ∀ p ∈ ps, Alike K f p) :
    SameOutcome f ps (forest n (ps.map Prod.fst)) (forest n' (ps.map Prod.snd)) := by
  induction hlen : ps.length using Nat.strongRecOn generalizing n n' ps with
  | ind len ih =>
    cases ps with
    | nil =>
      rw [List.map_nil, List.map_nil, forest_nil, forest_nil]
      exact .ok rfl
    | cons p ps =>
      obtain ⟨hp, hps⟩ := List.forall_mem_cons.mp h
      have ih {m m' : Nat} (qs : List (Line × Line)) (hm : K m m') (hle : qs.length ≤ ps.length)
          (hsub : ∀ q ∈ qs, q ∈ ps) :
          SameOutcome f (p :: ps) (forest m (qs.map Prod.fst)) (forest m' (qs.map Prod.snd)) :=
        (ih _ (hlen ▸ Nat.lt_succ_of_le hle) hm (fun q hq => hps q (hsub q hq)) rfl).mono
          fun q hq => List.mem_cons_of_mem p (hsub q hq)
      have heq : p.1.indent = n ↔ p.2.indent = n' := hK.eq_iff hp.indent hn
      rw [List.map_cons, List.map_cons]
      by_cases hl : p.1.indent = n
      · have hl' := heq.mp hl
        by_cases hyes : p.1.opensBlock = true
        · exact forest_pairs_opening hK hn hp hps hl hl' hyes ih
        · have hno : p.1.opensBlock = false := by simpa using hyes
          have hno' : p.2.opensBlock = false := Line.opensBlock_of_lexemes hp.lexemes ▸ hno
          rw [forest_leaf hl hno, forest_leaf hl' hno']
          exact SameOutcome.cons hp (.ok rfl) (ih ps hn (Nat.le_refl _) fun _ hq => hq)
      · rw [forest_of_ne hl, forest_of_ne (mt heq.mpr hl)]
        exact .error (by simp [LexError.nesting]) List.mem_cons_self

end Paired

end Block

namespace Line.Isomorphic

open Block

variable {ls ls' : List Line} {f : Position → Position}

theorem length_eq (h : Isomorphic ls ls') : ls.length = ls'.length := by
  have hlength := congrArg List.length h.lexemes
  rwa [List.length_map, List.length_map] at hlength

theorem refl (ls : List Line) : Isomorphic ls ls := by
  have heq : ∀ p ∈ (ls.map indent).zip (ls.map indent), p.1 = p.2 := by
    intro p hp
    rw [List.zip_eq_zipWith, List.zipWith_self] at hp
    obtain ⟨n, -, rfl⟩ := List.mem_map.mp hp
    rfl
  refine ⟨rfl, fun p hp q hq => ?_, fun p hp => ?_⟩
  · rw [heq p hp, heq q hq]
  · rw [heq p hp]

def Related (ls ls' : List Line) (a a' : Nat) : Prop :=
  (a, a') = (0, 0) ∨ (a, a') ∈ (ls.map indent).zip (ls'.map indent)

theorem sameOrder (h : Isomorphic ls ls') : SameOrder (Related ls ls') := by
  intro a a' b b' ha hb
  rcases ha with ha | ha
  · cases ha
    rcases hb with hb | hb
    · cases hb
      exact Iff.rfl
    · have hmargin : b = 0 ↔ b' = 0 := h.margin _ hb
      omega
  · rcases hb with hb | hb
    · cases hb
      omega
    · exact h.order _ ha _ hb

theorem alike (h : Isomorphic ls ls') (hf : ∀ p ∈ ls.zip ls', f p.1.position = f p.2.position) :
    ∀ p ∈ ls.zip ls', Alike (Related ls ls') f p := by
  intro p hp
  obtain ⟨i, hi⟩ := List.mem_iff_getElem?.mp hp
  obtain ⟨hl, hl'⟩ := List.getElem?_zip_eq_some.mp hi
  refine ⟨?_, .inr ?_, hf p hp⟩
  · have hlexemes := congrArg (·[i]?) h.lexemes
    simpa [hl, hl'] using hlexemes
  · rw [List.zip_map]
    exact List.mem_map_of_mem hp

theorem sameOutcome (h : Isomorphic ls ls')
    (hf : ∀ p ∈ ls.zip ls', f p.1.position = f p.2.position) :
    SameOutcome f (ls.zip ls') (forest 0 ls) (forest 0 ls') := by
  have houtcome := forest_pairs h.sameOrder (.inl rfl) (h.alike hf)
  rwa [List.map_fst_zip (Nat.le_of_eq h.length_eq),
    List.map_snd_zip (Nat.le_of_eq h.length_eq.symm)] at houtcome

end Line.Isomorphic

/-! The line at which the nesting breaks off. -/

def Line.reposition (g : Nat → Position) (ls : List Line) : List Line :=
  ls.mapIdx fun i l => { l with position := g i }

namespace Line

variable {g : Nat → Position} {ls ls' : List Line}

@[simp] theorem getElem?_reposition (k : Nat) :
    (reposition g ls)[k]? = ls[k]?.map fun l => { l with position := g k } := by
  rw [reposition, List.getElem?_mapIdx]

theorem map_reposition {α : Type} {view : Line → α}
    (hview : ∀ l p, view { l with position := p } = view l) :
    (reposition g ls).map view = ls.map view := by
  apply List.ext_getElem?
  intro k
  rw [List.getElem?_map, List.getElem?_map, getElem?_reposition, Option.map_map]
  exact congrArg (Option.map · ls[k]?) (funext fun l => hview l (g k))

theorem lexemes_reposition : (reposition g ls).map Line.lexemes = ls.map Line.lexemes :=
  map_reposition fun _ _ => rfl

theorem indent_reposition : (reposition g ls).map indent = ls.map indent :=
  map_reposition fun _ _ => rfl

theorem Isomorphic.reposition_left (h : Isomorphic ls ls') : Isomorphic (reposition g ls) ls' := by
  constructor
  · rw [lexemes_reposition, h.lexemes]
  · rw [indent_reposition]
    exact h.order
  · rw [indent_reposition]
    exact h.margin

theorem Isomorphic.reposition_right (h : Isomorphic ls ls') : Isomorphic ls (reposition g ls') := by
  constructor
  · rw [lexemes_reposition, h.lexemes]
  · rw [indent_reposition]
    exact h.order
  · rw [indent_reposition]
    exact h.margin

end Line

/-- The lines cannot be nested, which is found at line number `k` and not merely at some line that
stands at the same place: with other places, it is found at the place of that line. -/
structure Block.FailsAt (e : Position → LexError) (k : Nat) (ls : List Line) : Prop where
  error : ∃ l, ls[k]? = some l ∧ forest 0 ls = .error (e l.position)
  moved : ∀ g : Nat → Position, forest 0 (Line.reposition g ls) = .error (e (g k))

namespace Block

variable {e : Position → LexError} {ls ls' : List Line} {k : Nat}

def numbered (k : Nat) : Position := ⟨k, 0, 0⟩

/-- If the numbered lines fail at line `k`, lines in the same order fail there as well. -/
theorem error_of_numbered (h : Line.Isomorphic ls ls') (he : e ∈ LexError.nesting)
    (hn : forest 0 (Line.reposition numbered ls) = .error (e (numbered k))) :
    ∃ l', ls'[k]? = some l' ∧ forest 0 ls' = .error (e l'.position) := by
  have houtcome :=
    h.reposition_left (g := numbered).sameOutcome (f := fun _ => .start) fun _ _ => rfl
  obtain ⟨p, hp, hposition, herror⟩ := houtcome.error_of_left he hn
  obtain ⟨i, hi⟩ := List.mem_iff_getElem?.mp hp
  obtain ⟨hl, hl'⟩ := List.getElem?_zip_eq_some.mp hi
  rw [Line.getElem?_reposition] at hl
  obtain ⟨l, -, hl⟩ := Option.map_eq_some_iff.mp hl
  rw [← hl] at hposition
  cases hposition
  exact ⟨p.2, hl', herror⟩

theorem failsAt_of_numbered (h : Line.Isomorphic ls ls') (he : e ∈ LexError.nesting)
    (hn : forest 0 (Line.reposition numbered ls) = .error (e (numbered k))) : FailsAt e k ls' := by
  refine ⟨error_of_numbered h he hn, fun g => ?_⟩
  obtain ⟨l, hl, herror⟩ := error_of_numbered (h.reposition_right (g := g)) he hn
  rw [Line.getElem?_reposition] at hl
  obtain ⟨l', -, rfl⟩ := Option.map_eq_some_iff.mp hl
  exact herror

theorem exists_numbered {p : Position} (he : e ∈ LexError.nesting)
    (herror : forest 0 ls = .error (e p)) :
    ∃ k, forest 0 (Line.reposition numbered ls) = .error (e (numbered k)) := by
  have houtcome := (Line.Isomorphic.refl ls).reposition_right (g := numbered).sameOutcome
    (f := fun _ => .start) fun _ _ => rfl
  obtain ⟨p, hp, -, hnumbered⟩ := houtcome.error_of_left he herror
  obtain ⟨i, hi⟩ := List.mem_iff_getElem?.mp hp
  obtain ⟨-, hl'⟩ := List.getElem?_zip_eq_some.mp hi
  rw [Line.getElem?_reposition] at hl'
  obtain ⟨l, -, hl⟩ := Option.map_eq_some_iff.mp hl'
  rw [← hl] at hnumbered
  exact ⟨i, hnumbered⟩

/-- Lines in the same order are nested in the same way and read as the same statements or with the
same fault, or they cannot be nested for the same reason, found at the same line. -/
theorem same_of_isomorphic (h : Line.Isomorphic ls ls') :
    (∃ e ∈ LexError.nesting, ∃ k, FailsAt e k ls ∧ FailsAt e k ls') ∨
      ∃ bs bs', forest 0 ls = .ok bs ∧ forest 0 ls' = .ok bs' ∧
        ((∃ ts ts', bs.mapM TopStatement.ofBlock = .ok ts ∧
          bs'.mapM TopStatement.ofBlock = .ok ts' ∧
          ts.map TopStatement.content = ts'.map TopStatement.content) ∨
        ∃ e e', bs.mapM TopStatement.ofBlock = .error e ∧
          bs'.mapM TopStatement.ofBlock = .error e' ∧ e.fault = e'.fault ∧ e.headers = e'.headers ∧
          e.levels.map Level.offset = e'.levels.map Level.offset) := by
  have houtcome := h.sameOutcome (f := fun _ => .start) fun _ _ => rfl
  generalize hx : forest 0 ls = x at houtcome
  generalize hx' : forest 0 ls' = x' at houtcome
  cases houtcome with
  | error he hp =>
    -- Several lines may stand at one place, so the line is found with the numbers in place of the
    -- places.
    obtain ⟨k, hk⟩ := exists_numbered he hx
    exact .inl ⟨_, he, k, failsAt_of_numbered (.refl ls) he hk, failsAt_of_numbered h he hk⟩
  | @ok bs bs' hplace =>
    refine .inr ⟨bs, bs', rfl, rfl, ?_⟩
    rcases TopStatement.same_of_place hplace with ⟨ts, ts', hts, hts', heq⟩ |
      ⟨e, e', herror, herror', heq⟩
    · have hcontent := congrArg (List.map TopStatement.content) heq
      simp only [List.map_map, Function.comp_def, TopStatement.content_place] at hcontent
      exact .inl ⟨ts, ts', hts, hts', hcontent⟩
    · have hfault := congrArg ParseError.fault heq
      exact .inr ⟨e, e', herror, herror', hfault, ParseError.map_levels_of_place (fun _ => rfl) heq,
        ParseError.map_levels_of_place (fun _ => rfl) heq⟩

/-- Narrow and wide indentation, of lines that are statements and of lines that are in no block. -/
theorem same_of_isomorphic_wider :
    (∃ ls ls' bs bs' ts ts', Source.lines 4 "know:\n a = b\n forall x T:\n  x = x\na = a" = .ok ls ∧
      Source.lines 4 "know:\n\ta =  b\n\tforall x T :\n\n\t\t\tx=x\na = a" = .ok ls' ∧
      Line.Isomorphic ls ls' ∧ forest 0 ls = .ok bs ∧ forest 0 ls' = .ok bs' ∧
      bs.mapM TopStatement.ofBlock = .ok ts ∧ bs'.mapM TopStatement.ofBlock = .ok ts' ∧
      ts.map TopStatement.content = ts'.map TopStatement.content) ∧
    ∃ ls ls', Source.lines 4 "a:\n   b\n  c\nd:" = .ok ls ∧
      Source.lines 4 "a:\n\t\t b\n\t\tc\nd:" = .ok ls' ∧ Line.Isomorphic ls ls' ∧
      FailsAt .unexpectedIndent 2 ls ∧ FailsAt .unexpectedIndent 2 ls' := by
  constructor
  · obtain ⟨ls, ls', hls, hls', hiso⟩ := Line.exists_isomorphic
      (x := Source.lines 4 "know:\n a = b\n forall x T:\n  x = x\na = a")
      (y := Source.lines 4 "know:\n\ta =  b\n\tforall x T :\n\n\t\t\tx=x\na = a")
      (by decide +kernel)
    obtain ⟨ts, hparse, -⟩ := exists_ok_of_length (n := 2)
      (x := Program.parse 4 "know:\n a = b\n forall x T:\n  x = x\na = a") (by decide +kernel)
    obtain ⟨bs, hbs, hts⟩ := Program.parse_eq_ok.mp hparse
    obtain ⟨ls₀, hls₀, hforest⟩ := exceptBind_eq_ok.mp hbs
    cases hls.symm.trans hls₀
    rcases same_of_isomorphic hiso with ⟨e, -, k, hfails, -⟩ | ⟨bs₀, bs', hbs₀, hbs', hread⟩
    · obtain ⟨l, -, herror⟩ := hfails.error
      cases hforest.symm.trans herror
    · cases hforest.symm.trans hbs₀
      rcases hread with ⟨ts₀, ts', hts₀, hts', hcontent⟩ | ⟨e, e', herror, -⟩
      · exact ⟨ls, ls', bs, bs', ts₀, ts', hls, hls', hiso, hbs₀, hbs', hts₀, hts', hcontent⟩
      · cases hts.symm.trans herror
  · obtain ⟨ls, ls', hls, hls', hiso⟩ := Line.exists_isomorphic
      (x := Source.lines 4 "a:\n   b\n  c\nd:")
      (y := Source.lines 4 "a:\n\t\t b\n\t\tc\nd:") (by decide +kernel)
    have hline : List.length <$> (Source.lines 4 "a:\n   b\n  c\nd:" >>= fun ls =>
        forest 0 (Line.reposition numbered ls)) = .error (.unexpectedIndent (numbered 2)) := by
      decide +kernel
    rw [hls] at hline
    rcases same_of_isomorphic hiso with ⟨e, he, k, hfails, hfails'⟩ | ⟨bs, bs', hbs, -⟩
    · rw [show (Except.ok ls >>= fun ls => forest 0 (Line.reposition numbered ls)) = _ from
        hfails.moved numbered] at hline
      obtain ⟨rfl, hk⟩ :=
        LexError.eq_of_nesting he (by simp [LexError.nesting]) (Except.error.inj hline)
      cases hk
      exact ⟨ls, ls', hls, hls', hiso, hfails, hfails'⟩
    · obtain ⟨e, herror⟩ :=
        exists_error_of_isOk (x := ofSource 4 "a:\n   b\n  c\nd:") (by decide +kernel)
      rw [ofSource, hls] at herror
      cases hbs.symm.trans herror

end Block

end FactScript
