import FactScript.Proofs.PhraseSound

/-!
The bounds on the nesting and on the number of operators are never felt. A parser looks inside a
term only after it has taken a lexeme, so what it does on a list of lexemes depends on the parsers
inside it only for shorter lists; hence `term` and `type` satisfy the equations of a recursion
without bounds.
-/
namespace FactScript

namespace Parser

section Agree

variable {α β : Type} {k n : ℕ} {p p' q q' : Parser α} {f f' : α → Parser β}

theorem bind_of_error {ts rest : List Lexeme} {fault : Fault} (h : p ts = .error fault rest) :
    (p >>= f) ts = .error fault rest := by
  change EStateM.bind p f ts = _
  simp [EStateM.bind, h]

theorem bind_of_eq {ts ts' : List Lexeme} (h : p ts = p' ts') : (p >>= f) ts = (p' >>= f) ts' := by
  change EStateM.bind p f ts = EStateM.bind p' f ts'
  unfold EStateM.bind
  rw [h]

/-- What follows has to be the same only where a parser can have succeeded. -/
theorem bind_congr_of_ok {ts : List Lexeme}
    (h : ∀ a rest, p ts = .ok a rest → f a rest = f' a rest) :
    (p >>= f) ts = (p >>= f') ts := by
  cases hp : p ts with
  | ok a rest => rw [bind_of_ok hp, bind_of_ok hp, h a rest hp]
  | error fault rest => rw [bind_of_error hp, bind_of_error hp]

/-- The parsers do the same on fewer than `n` lexemes, and take at least `k` of them if they
succeed. -/
def Agree (k n : ℕ) (p p' : Parser α) : Prop :=
  ∀ ⦃ts : List Lexeme⦄, ts.length < n →
    p ts = p' ts ∧ ∀ ⦃a rest⦄, p ts = .ok a rest → rest.length + k ≤ ts.length

theorem Agree.mono {j m : ℕ} (h : Agree k n p p') (hj : j ≤ k) (hm : m ≤ n) : Agree j m p p' := by
  intro ts hts
  obtain ⟨heq, hle⟩ := h (Nat.lt_of_lt_of_le hts hm)
  exact ⟨heq, fun _ _ hok => Nat.le_trans (Nat.add_le_add_left hj _) (hle hok)⟩

theorem agree_zero : Agree k 0 p p' := fun _ hts => absurd hts (Nat.not_lt_zero _)

theorem agree_one (heq : p [] = p' []) (hle : ∀ ⦃a rest⦄, p [] = .ok a rest → rest.length + k ≤ 0) :
    Agree k 1 p p' := by
  intro ts hts
  obtain rfl : ts = [] := List.eq_nil_of_length_eq_zero (Nat.lt_one_iff.mp hts)
  exact ⟨heq, hle⟩

theorem Agree.symm (h : Agree k n p p') : Agree k n p' p := by
  intro ts hts
  obtain ⟨heq, hle⟩ := h hts
  exact ⟨heq.symm, heq ▸ hle⟩

theorem Agree.weak (h : Agree k n p p') : Agree 0 n p p' := h.mono (Nat.zero_le k) (Nat.le_refl n)

/-- What follows a parser is given a list that is shorter by what the parser takes. -/
theorem Agree.bind {j : ℕ} (hp : Agree j n p p') (hf : ∀ a, Agree k (n - j) (f a) (f' a)) :
    Agree (k + j) n (p >>= f) (p' >>= f') := by
  intro ts hts
  obtain ⟨heq, hle⟩ := hp hts
  cases h : p ts with
  | error fault rest =>
    rw [bind_of_error h, bind_of_error (heq ▸ h)]
    exact ⟨rfl, fun _ _ hok => by cases hok⟩
  | ok a rest =>
    have hrest := hle h
    obtain ⟨heq', hle'⟩ := @hf a rest (by omega)
    rw [bind_of_ok h, bind_of_ok (heq ▸ h)]
    refine ⟨heq', fun _ _ hok => ?_⟩
    have := hle' hok
    omega

theorem Agree.ite {c : Prop} [Decidable c] (hp : Agree k n p p') (hq : Agree k n q q') :
    Agree k n (if c then p else q) (if c then p' else q') := by
  split
  · exact hp
  · exact hq

theorem Agree.skip_ite {l : Lexeme} (hp : Agree (k - 1) (n - 1) p p') (hq : Agree k n q q') :
    Agree k n (skip l >>= fun here => if here = true then p else q)
      (skip l >>= fun here => if here = true then p' else q') := by
  intro ts hts
  rw [skip_bind_ite, skip_bind_ite]
  by_cases h : ts.head? = some l
  · obtain ⟨rest, rfl⟩ := List.head?_eq_some_iff.mp h
    rw [List.length_cons] at hts
    obtain ⟨heq, hle⟩ := @hp rest (by omega)
    rw [branch_cons, branch_cons]
    refine ⟨heq, fun _ _ hok => ?_⟩
    have := hle hok
    rw [List.length_cons]
    omega
  · rw [branch_of_ne h, branch_of_ne h]
    exact hq hts

/-! Parsers of their own. -/

theorem agree_self (h : ∀ ⦃ts a rest⦄, p ts = .ok a rest → rest.length + k ≤ ts.length) :
    Agree k n p p :=
  fun _ _ => ⟨rfl, fun _ _ hok => h hok⟩

theorem agree_pure (a : α) : Agree 0 n (pure a) (pure a) := agree_self fun ts b rest h => by
  obtain ⟨-, rfl⟩ := pure_eq_ok.mp h
  exact Nat.le_refl _

theorem agree_throw (fault : Fault) : Agree k n (throw fault : Parser α) (throw fault) :=
  agree_self fun _ _ _ h => absurd h throw_ne_ok

theorem agree_expected (what : String) : Agree k n (expected what : Parser α) (expected what) :=
  agree_self fun _ _ _ h => absurd h expected_ne_ok

theorem agree_peek : Agree 0 n peek peek := agree_self fun ts b rest h => by
  cases h
  exact Nat.le_refl _

theorem agree_at (l : Lexeme) : Agree 0 n (at_ l) (at_ l) := agree_self fun ts b rest h => by
  cases h
  exact Nat.le_refl _

theorem agree_skip (l : Lexeme) : Agree 0 n (skip l) (skip l) := agree_self fun ts b rest h => by
  rcases skip_eq_ok.mp h with ⟨-, rfl⟩ | ⟨-, -, rfl⟩
  · simp
  · exact Nat.le_refl _

theorem agree_expect (l : Lexeme) : Agree 1 n (expect l) (expect l) := by
  refine agree_self fun ts b rest h => ?_
  rw [expect_eq_ok] at h
  simp [h]

theorem agree_identifier : Agree 1 n identifier identifier := agree_self fun ts b rest h => by
  rw [identifier_eq_ok] at h
  simp [h]

theorem agree_single (what : Sole) (as : List α) : Agree 0 n (single what as) (single what as) :=
  agree_self fun ts b rest h => by
    obtain ⟨-, rfl⟩ := single_eq_ok.mp h
    exact Nat.le_refl _

theorem Sound.agree {φ : Phrase} {r : Parser φ.Meaning} (h : Sound φ r) : Agree 0 n r r :=
  agree_self fun ts a rest hok => by
    obtain ⟨u, rfl, -⟩ := h hok
    simp

theorem Agree.manyUpTo {begins : Lexeme → Bool} (h : Agree 0 n p p') (bound : ℕ) :
    Agree 0 n (manyUpTo begins p bound) (manyUpTo begins p' bound) := by
  induction bound with
  | zero => exact agree_pure []
  | succ bound ih =>
    exact agree_peek.bind fun l => .ite (h.bind fun a => ih.bind fun as => agree_pure _)
      (agree_pure [])

theorem Agree.many {begins : Lexeme → Bool} (h : Agree 0 n p p') :
    Agree 0 n (many begins p) (many begins p') := fun ts hts => Agree.manyUpTo h ts.length hts

/-- Items that take a lexeme each are the same whatever bound is set, as long as there are no more
lexemes. -/
theorem manyUpTo_agree {begins : Lexeme → Bool} (h : ∀ n, Agree 1 n p p) {b b' : ℕ} (hb : n ≤ b + 1)
    (hb' : n ≤ b' + 1) : Agree 0 n (Parser.manyUpTo begins p b) (Parser.manyUpTo begins p b') := by
  induction n generalizing b b' with
  | zero => exact agree_zero
  | succ n ih =>
    by_cases hn : n = 0
    · subst hn
      have hnil (b : ℕ) : Parser.manyUpTo begins p b [] = .ok [] [] := by cases b <;> rfl
      refine agree_one (by rw [hnil, hnil]) fun _ _ hok => ?_
      rw [hnil] at hok
      cases hok
      exact Nat.le_refl _
    obtain ⟨c, rfl⟩ : ∃ c, b = c + 1 := Nat.exists_eq_add_one.mpr (by omega)
    obtain ⟨c', rfl⟩ : ∃ c', b' = c' + 1 := Nat.exists_eq_add_one.mpr (by omega)
    have hmore := ih (Nat.le_of_succ_le_succ hb) (Nat.le_of_succ_le_succ hb')
    exact agree_peek.bind fun l =>
      .ite (((h _).bind fun _ => hmore.bind fun _ => agree_pure _).weak) (agree_pure _)

theorem many_eq {begins : Lexeme → Bool} (h : ∀ n, Agree 1 n p p) : Parser.many begins p = (do
    if (← peek).any begins then
      let a ← p
      return a :: (← Parser.many begins p)
    else return []) := by
  funext ts
  have hmany (b : ℕ) : Agree 0 (b + 1) (Parser.manyUpTo begins p b) (Parser.many begins p) :=
    fun ts hts => manyUpTo_agree h hts (Nat.le_refl _) (Nat.lt_succ_self ts.length)
  rw [← (hmany (ts.length + 1) (by omega)).1]
  have hitem :=
    (h (ts.length + 2)).bind fun a => (hmany ts.length).bind fun as => agree_pure (a :: as)
  have hstep := (agree_peek (n := ts.length + 2)).bind fun l =>
    .ite (c := l.any begins = true) hitem.weak (agree_pure [])
  exact (hstep (Nat.lt_add_of_pos_right Nat.two_pos)).1

theorem Agree.separated {s : Symbol} (h : Agree k n p p') :
    Agree k n (separated s p) (separated s p') := by
  have hmore : Agree 0 n (Parser.many (· == .symbol s) (do expectSymbol s; p))
      (Parser.many (· == .symbol s) (do expectSymbol s; p')) :=
    ((agree_expect _).weak.bind fun _ => h.weak).many
  have hall :=
    h.bind (f := fun first => (first :: ·) <$> Parser.many (· == .symbol s) (do expectSymbol s; p))
    fun _ => (hmore.mono (Nat.le_refl 0) (Nat.sub_le n k)).bind fun _ => agree_pure _
  rwa [Nat.zero_add] at hall

end Agree

/-! Phrases inside one another. -/

namespace Nested

structure Agree (n : ℕ) (inner inner' : Nested) : Prop where
  term : Parser.Agree 0 n inner.term inner'.term
  type : Parser.Agree 0 n inner.type inner'.type

variable {n : ℕ} {inner inner' : Nested}

theorem args_agree (h : inner.Agree n inner') : Parser.Agree 0 n inner.args inner'.args := by
  unfold args
  refine (agree_expect _).weak.bind fun _ => (agree_skip _).bind fun _ => .ite (agree_pure _) ?_
  exact h.term.separated.bind fun _ => (agree_expect _).weak.bind fun _ => agree_pure _

theorem application_agree (h : inner.Agree n inner') :
    Parser.Agree 0 n inner.application inner'.application := by
  unfold application
  refine (agree_at _).bind fun _ =>
    .ite (typeArgs_sound.agree.bind fun types => ?_) ((agree_pure _).bind fun types => ?_)
  all_goals
    exact (agree_at _).bind fun _ =>
      .ite ((args_agree h).bind fun _ => agree_pure _) ((agree_pure _).bind fun _ => agree_pure _)

theorem segment_agree (h : inner.Agree n inner') :
    Parser.Agree 1 (n + 1) inner.segment inner'.segment :=
  agree_identifier.bind fun _ => (application_agree h).many.bind fun _ => agree_pure _

theorem chain_agree (h : inner.Agree n inner') :
    Parser.Agree 1 (n + 1) inner.chain inner'.chain := by
  refine (segment_agree h).separated.bind fun parts => ?_
  split
  · exact agree_pure _
  · exact agree_pure _

theorem predication_agree (h : inner.Agree n inner') (holds : Bool) :
    Parser.Agree 0 n (inner.predication holds) (inner'.predication holds) := by
  refine (agree_expect _).weak.bind fun _ =>
    ((chain_agree h).mono (Nat.zero_le 1) (Nat.le_succ n)).bind fun term => ?_
  split
  · exact agree_pure _
  · exact agree_throw _

theorem relational_agree (h : inner.Agree n inner') (holds : Bool) :
    Parser.Agree 0 n (inner.relational holds) (inner'.relational holds) := by
  unfold relational
  refine h.term.bind fun first => (agree_skip _).bind fun _ => .ite ?_ ?_
  · refine agree_identifier.weak.bind fun name => (agree_at _).bind fun _ => .ite ?_ ?_
    · exact typeArgs_sound.agree.bind fun _ => (agree_single _ _).bind fun _ =>
        (agree_pure _).bind fun _ =>
        agree_pure _
    · exact (agree_pure _).bind fun _ => agree_pure _
  · refine agree_peek.bind fun l => ?_
    split
    · split
      · exact ((agree_expect _).weak.bind fun _ => h.term).many.bind fun _ => agree_pure _
      · exact agree_throw _
    · exact agree_expected _

theorem specificFact_agree (h : inner.Agree n inner') :
    Parser.Agree 0 n inner.specificFact inner'.specificFact := by
  refine (agree_skip _).bind fun _ => (agree_at _).bind fun _ => .ite ?_ ?_
  · exact .ite (agree_expected _) (agree_throw _)
  · exact (agree_at _).bind fun _ =>
      .ite ((predication_agree h _).bind fun _ => agree_pure _) (relational_agree h _)

theorem guards_agree (h : inner.Agree n inner') : Parser.Agree 0 n inner.guards inner'.guards :=
  (agree_skip _).bind fun _ => .ite (specificFact_agree h).separated (agree_pure _)

theorem params_agree (h : inner.Agree n inner') : Parser.Agree 0 n inner.params inner'.params :=
  .separated (agree_identifier.weak.bind fun _ => h.type.bind fun _ => agree_pure _)

theorem guardedGenerics_agree (h : inner.Agree n inner') :
    Parser.Agree 0 n inner.guardedGenerics inner'.guardedGenerics :=
  (agree_skip _).bind fun _ => .ite
    (genericParam_sound.agree.separated.bind fun _ => (guards_agree h).bind fun _ =>
      (agree_expect _).weak.bind fun _ => agree_pure _)
    (agree_pure _)

theorem guardedParams_agree (h : inner.Agree n inner') :
    Parser.Agree 0 n inner.guardedParams inner'.guardedParams := by
  unfold guardedParams
  refine (agree_expect _).weak.bind fun _ => (agree_at _).bind fun _ => (agree_at _).bind fun _ =>
    .ite ((agree_pure _).bind fun params => ?_) ((params_agree h).bind fun params => ?_)
  all_goals exact (guards_agree h).bind fun _ => (agree_expect _).weak.bind fun _ => agree_pure _

theorem signature_agree (h : inner.Agree n inner') :
    Parser.Agree 0 n inner.signature inner'.signature :=
  (guardedGenerics_agree h).bind fun _ => (guardedParams_agree h).bind fun _ => agree_pure _

theorem propertyType_agree (h : inner.Agree n inner') :
    Parser.Agree 1 (n + 1) inner.propertyType inner'.propertyType :=
  (agree_expect _).bind fun _ => signature_agree h

theorem fnType_agree (h : inner.Agree n inner') :
    Parser.Agree 1 (n + 1) inner.fnType inner'.fnType :=
  (agree_expect _).bind fun _ => (signature_agree h).bind fun _ => h.type.bind fun _ => agree_pure _

theorem placeholder_agree {m : ℕ} : Parser.Agree 0 m placeholder placeholder :=
  (agree_skip _).bind fun _ => .ite (agree_pure _) <| (agree_skip _).bind fun _ =>
    .ite (agree_pure _) <|
    (agree_skip _).bind fun _ => .ite (agree_pure _) (agree_expected _)

/-- A type depends on the types and terms inside it only for shorter lists. -/
theorem typeStep_agree (h : inner.Agree n inner') :
    Parser.Agree 1 (n + 1) inner.typeStep inner'.typeStep := by
  refine (agree_at _).bind fun _ => .ite ((fnType_agree h).bind fun _ => agree_pure _) ?_
  refine (agree_at _).bind fun _ => .ite ((propertyType_agree h).bind fun _ => agree_pure _) ?_
  exact .skip_ite (placeholder_agree.bind fun _ => agree_pure _)
    (agree_identifier.bind fun _ => agree_pure _)

theorem ascription_agree (h : inner.Agree n inner') :
    Parser.Agree 1 (n + 1) inner.ascription inner'.ascription :=
  (agree_expect _).bind fun _ => (agree_expect _).weak.bind fun _ => h.term.bind fun _ =>
    (agree_expect _).weak.bind fun _ =>
      ((propertyType_agree h).mono (Nat.zero_le 1) (Nat.le_succ n)).bind fun _ =>
        (agree_expect _).weak.bind fun _ => agree_pure _

theorem number_agree {m : ℕ} : Parser.Agree 1 m number number := agree_self fun ts t rest h => by
  obtain ⟨u, rfl, hu⟩ := number_sound h
  have hlen : 0 < u.length := List.length_pos_iff.mpr (hu.ne_nil rfl)
  rw [List.length_append]
  omega

/-- An atom depends on the types and terms inside it only for shorter lists. -/
theorem atom_agree (h : inner.Agree n inner') : Parser.Agree 1 (n + 1) inner.atom inner'.atom := by
  refine .skip_ite (h.term.bind fun _ => (agree_expect _).weak.bind fun _ => agree_pure _) ?_
  refine agree_peek.bind fun l => ?_
  split
  · exact agree_throw _
  · exact ascription_agree h
  · exact number_agree
  · exact chain_agree h
  · exact agree_expected _

end Nested

/-! Operators. -/

section Climb

variable {atom atom' : Parser Term} {n : ℕ}

/-- The first operand of an operation: one that `operand` reads after a minus, where that is strong
enough, or an atom. -/
def lead (operand atom : Parser Term) (s : ℕ) : Parser Term :=
  if s ≤ Infix.negation then do
    if ← skipSymbol .minus then return .apply .minus [← operand] else atom
  else atom

theorem climb_succ (b s : ℕ) :
    climb atom (b + 1) s = lead (climb atom b (Infix.negation + 1)) atom s >>= extend atom b s := by
  rw [climb, lead]
  by_cases hs : s ≤ Infix.negation
  · rw [if_pos hs, if_pos hs, bind_assoc]
    refine congrArg (skipSymbol .minus >>= ·) (funext fun here => ?_)
    cases here with
    | false => rfl
    | true => simp only [if_true, bind_assoc, pure_bind]
  · rw [if_neg hs, if_neg hs]

theorem lead_agree {operand operand' : Parser Term} (h : Agree 1 (n + 1) atom atom')
    (ho : Agree 0 n operand operand') (s : ℕ) :
    Agree 1 (n + 1) (lead operand atom s) (lead operand' atom' s) :=
  .ite (.skip_ite (ho.bind fun _ => agree_pure _) h) h

theorem extend_nil (b s : ℕ) (t : Term) : extend atom b s t [] = .ok t [] := by
  cases b <;> rfl

theorem climb_nil (h : Agree 1 1 atom atom') (b s : ℕ) : climb atom b s [] = atom [] := by
  cases b with
  | zero => rfl
  | succ b =>
    have hlead : lead (climb atom b (Infix.negation + 1)) atom s [] = atom [] := by
      rw [lead]
      split <;> rfl
    rw [climb_succ]
    cases hatom : atom [] with
    | error fault rest => exact bind_of_error (hlead.trans hatom)
    | ok t rest =>
      have hlen : rest.length + 1 ≤ 0 := (@h [] Nat.one_pos).2 hatom
      omega

theorem climb_extend_agree_nil (h : Agree 1 1 atom atom') (s b b' : ℕ) :
    Agree 1 1 (climb atom b s) (climb atom' b' s) ∧
      ∀ t, Agree 0 1 (extend atom b s t) (extend atom' b' s t) := by
  constructor
  · exact agree_one (by rw [climb_nil h, climb_nil h.symm, (@h [] Nat.one_pos).1])
      (by rw [climb_nil h]; exact (@h [] Nat.one_pos).2)
  · intro t
    refine agree_one (by rw [extend_nil, extend_nil]) fun _ _ hok => ?_
    rw [extend_nil] at hok
    cases hok
    exact Nat.le_refl _

/-- Operations on few lexemes are the same whatever bound is set, as long as there are no more
lexemes. -/
theorem climb_extend_agree (h : Agree 1 n atom atom') (s : ℕ) {b b' : ℕ} (hb : n ≤ b + 1)
    (hb' : n ≤ b' + 1) :
    Agree 1 n (climb atom b s) (climb atom' b' s) ∧
      ∀ t, Agree 0 n (extend atom b s t) (extend atom' b' s t) := by
  induction n generalizing b b' s with
  | zero => exact ⟨agree_zero, fun _ => agree_zero⟩
  | succ n ih =>
    by_cases hn : n = 0
    · subst hn
      exact climb_extend_agree_nil h s b b'
    -- There is more than the empty list, so both bounds allow one more step.
    obtain ⟨c, rfl⟩ : ∃ c, b = c + 1 := Nat.exists_eq_add_one.mpr (by omega)
    obtain ⟨c', rfl⟩ : ∃ c', b' = c' + 1 := Nat.exists_eq_add_one.mpr (by omega)
    have hnext (s : ℕ) := ih (h.mono (Nat.le_refl 1) (Nat.le_succ n)) s (Nat.le_of_succ_le_succ hb)
      (Nat.le_of_succ_le_succ hb')
    constructor
    · rw [climb_succ, climb_succ]
      exact (lead_agree h (hnext _).1.weak s).bind (hnext s).2
    · intro t
      rw [extend, extend]
      refine agree_peek.bind fun l => ?_
      split
      · exact agree_pure _
      · refine .ite (agree_pure _) ?_
        exact ((agree_expect _).bind fun _ => (hnext _).1.weak.bind fun _ => (hnext s).2 _).weak

theorem operation_agree (h : Agree 1 n atom atom') :
    Agree 1 n (operation atom) (operation atom') := by
  intro ts hts
  have hts' := climb_extend_agree (h.mono (Nat.le_refl 1) hts) 0 (Nat.le_refl _) (Nat.le_refl _)
  exact hts'.1 (Nat.lt_succ_self ts.length)

end Climb

/-! Terms and types. -/

theorem nested_nil (m : ℕ) : (nested m).term [] = .error .unexpectedEnd [] ∧
    (nested m).type [] = .error (.expected "identifier" []) [] := by
  cases m <;> exact ⟨rfl, rfl⟩

/-- Terms and types of few lexemes are the same whatever bound is set, as long as there are no more
lexemes. -/
theorem nested_agree {n m m' : ℕ} (hm : n ≤ m + 1) (hm' : n ≤ m' + 1) :
    (nested m).Agree n (nested m') := by
  induction n generalizing m m' with
  | zero => exact ⟨agree_zero, agree_zero⟩
  | succ n ih =>
    by_cases hn : n = 0
    · subst hn
      -- Where nothing is left, a term or type fails before anything inside it is looked for.
      obtain ⟨hterm, htype⟩ := nested_nil m
      obtain ⟨hterm', htype'⟩ := nested_nil m'
      exact ⟨agree_one (hterm.trans hterm'.symm) fun _ _ hok => (by cases hterm.symm.trans hok),
        agree_one (htype.trans htype'.symm) fun _ _ hok => (by cases htype.symm.trans hok)⟩
    obtain ⟨c, rfl⟩ : ∃ c, m = c + 1 := Nat.exists_eq_add_one.mpr (by omega)
    obtain ⟨c', rfl⟩ : ∃ c', m' = c' + 1 := Nat.exists_eq_add_one.mpr (by omega)
    have hinner := ih (Nat.le_of_succ_le_succ hm) (Nat.le_of_succ_le_succ hm')
    exact ⟨(operation_agree (Nested.atom_agree hinner)).weak, (Nested.typeStep_agree hinner).weak⟩

theorem nested_agree_full (m : ℕ) : (nested m).Agree (m + 1) full := by
  have hts {ts : List Lexeme} (hts : ts.length < m + 1) :
      (nested m).Agree (ts.length + 1) (nested ts.length) :=
    nested_agree hts (Nat.le_refl _)
  exact ⟨fun _ h => (hts h).term (Nat.lt_succ_self _), fun _ h => (hts h).type (Nat.lt_succ_self _)⟩

/-- A term is an operation on atoms, the terms and types inside which are any terms and types. -/
theorem term_eq : term = operation full.atom := by
  funext ts
  have hbound : (nested ts.length).term ts = (nested (ts.length + 1)).term ts :=
    ((nested_agree (Nat.le_refl _) (Nat.le_succ _)).term (Nat.lt_succ_self ts.length)).1
  have hfull : operation (nested ts.length).atom ts = operation full.atom ts :=
    (operation_agree (Nested.atom_agree (nested_agree_full ts.length)) (by omega)).1
  exact hbound.trans hfull

theorem type_eq : type = full.typeStep := by
  funext ts
  have hbound : (nested ts.length).type ts = (nested (ts.length + 1)).type ts :=
    ((nested_agree (Nat.le_refl _) (Nat.le_succ _)).type (Nat.lt_succ_self ts.length)).1
  have hfull : (nested ts.length).typeStep ts = full.typeStep ts :=
    (Nested.typeStep_agree (nested_agree_full ts.length) (by omega)).1
  exact hbound.trans hfull

end Parser

end FactScript
