import FactScript.Proofs.Strength
import FactScript.Proofs.Success

/-!
The parsers of a line accept every phrase: put before lexemes that do not extend it, a phrase is
taken off the front as a whole, and its meaning is returned. The parsers never go back, so what has
to be shown is that nothing they take early could have belonged to what comes next.
-/
namespace FactScript

namespace Parser

/-- On at most `N` lexemes, `q` takes a phrase of sort `p` as a whole and returns its meaning. -/
def Complete (N : ℕ) (p : Phrase) (q : Parser p.Meaning) : Prop :=
  ∀ ⦃u a⦄, Reads p u a → ∀ ⦃rest⦄, p.Ended rest → (u ++ rest).length ≤ N →
    q (u ++ rest) = .ok a rest

variable {N : ℕ} {p : Phrase} {s : Symbol}

theorem Complete.mono {M : ℕ} {q : Parser p.Meaning} (h : Complete N p q) (hMN : M ≤ N) :
    Complete M p q :=
  fun _ _ hu _ hr hlen => h hu hr (Nat.le_trans hlen hMN)

theorem manyUpTo_stop {α : Type} {begins : Lexeme → Bool} {item : Parser α} {ts : List Lexeme}
    (h : ts.head?.any begins = false) (n : ℕ) : manyUpTo begins item n ts = .ok [] ts := by
  cases n with
  | zero => rfl
  | succ n => simp [manyUpTo, h]

theorem many_complete {item : Parser p.Meaning} (hc : Complete N p item)
    (hs : p.extendedBy (.symbol s) = false) {u rest : List Lexeme} {as : List p.Meaning} {n : ℕ}
    (h : Reads (.separated s p) u as) (hr : (Phrase.separated s p).Ended rest)
    (hN : (u ++ rest).length ≤ N) (hn : as.length ≤ n) :
    manyUpTo (· == .symbol s) (do expectSymbol s; item) n (.symbol s :: u ++ rest) =
      .ok as rest := by
  induction as generalizing u n with
  | nil => cases h
  | cons a as ih =>
    obtain ⟨n, rfl⟩ : ∃ k, n = k + 1 := ⟨n - 1, by simp at hn; omega⟩
    simp only [manyUpTo, peek_bind, List.cons_append, List.head?_cons, Option.any_some, BEq.rfl,
      if_true, bind_eq_ok, expect_eq_ok, pure_eq_ok]
    cases h with
    | one ha =>
      have hstop : rest.head?.any (· == .symbol s) = false := by
        cases rest <;> simp_all [Phrase.extendedBy]
      have hend : p.Ended rest := hr.mono (by simp [Phrase.extendedBy])
      exact ⟨a, rest, ⟨(), _, rfl, hc ha hend hN⟩, [], rest, manyUpTo_stop hstop n, rfl, rfl⟩
    | more ha has =>
      rw [List.append_assoc] at hN ⊢
      have hN' := hN
      simp only [List.length_append, List.length_cons, List.cons_append] at hN'
      exact ⟨a, _, ⟨(), _, rfl, hc ha hs hN⟩, as, rest,
        ih has (by rw [List.length_append]; omega) (by simpa using hn), rfl, rfl⟩

theorem separated_complete {item : Parser p.Meaning} (hc : Complete N p item)
    (hs : p.extendedBy (.symbol s) = false) : Complete N (.separated s p) (separated s item) := by
  intro u as h rest hr hN
  simp only [separated, bind_eq_ok, pure_eq_ok]
  cases h with
  | one ha =>
    have hstop : rest.head?.any (· == .symbol s) = false := by
      cases rest <;> simp_all [Phrase.extendedBy]
    have hend : p.Ended rest := hr.mono (by simp [Phrase.extendedBy])
    exact ⟨_, rest, hc ha hend hN, [], rest, manyUpTo_stop hstop _, rfl, rfl⟩
  | more ha has =>
    rw [List.append_assoc] at hN ⊢
    have hN' := hN
    simp only [List.length_append, List.length_cons, List.cons_append] at hN'
    refine ⟨_, _, hc ha hs hN, _, rest, many_complete hc hs has hr ?_ ?_, rfl, rfl⟩
    · rw [List.length_append]; omega
    · have := has.length_le
      simp only [List.length_append, List.length_cons, List.cons_append]
      omega

theorem identifier_complete : Complete N .name identifier := by
  intro u a h rest _ _
  cases h
  rw [identifier_eq_ok]
  rfl

theorem typeArg_complete : Complete N .typeArg typeArg := by
  intro u a h rest _ _
  simp only [typeArg, skip_bind_ite, branch_eq_ok, bind_eq_ok, expect_eq_ok, identifier_eq_ok,
    pure_eq_ok]
  cases h with
  | plainTypeArg n => exact .inr ⟨by simp, n, rest, rfl, rfl, rfl⟩
  | ascribedTypeArg n c =>
    exact .inl ⟨_, rfl, (), _, rfl, n, _, rfl, (), _, rfl, c, _, rfl, (), _, rfl, rfl, rfl⟩

theorem typeArgs_complete : Complete N .typeArgs typeArgs := by
  intro u as h rest _ hN
  simp only [typeArgs, bind_eq_ok, expect_eq_ok, pure_eq_ok]
  cases h with
  | typeArgs hu =>
    simp only [List.cons_append, List.append_assoc, List.nil_append] at hN ⊢
    exact ⟨(), _, rfl, _, _, separated_complete typeArg_complete rfl hu rfl (Nat.le_refl _), (), _,
      rfl, rfl, rfl⟩

theorem genericParam_complete : Complete N .genericParam genericParam := by
  intro u g h rest _ _
  simp only [genericParam, bind_eq_ok, identifier_eq_ok, pure_eq_ok]
  cases h with
  | genericParam n c => exact ⟨n, _, rfl, c, _, rfl, rfl, rfl⟩

theorem whole_complete {w : String} {rest : List Lexeme} (hw : isWholePart w = true)
    (hdot : rest.head? ≠ some (.symbol .dot)) :
    number (.number w :: rest) = .ok (.number w) rest := by
  unfold number
  simp only [hw, if_true]
  split
  · simp at hdot
  · simp at hdot
  · rfl

theorem fraction_complete {w f : String} (hw : isWholePart w = true) (hf : fitsWord f = true)
    (rest : List Lexeme) : number (.number w :: .symbol .dot :: .number f :: rest) =
      .ok (.number (w ++ "." ++ f)) rest := by
  unfold number
  simp only [hw, hf, if_true]

namespace Nested

structure Complete (inner : Nested) (N : ℕ) : Prop where
  term : Parser.Complete N .sum inner.term
  type : Parser.Complete N .type inner.type

variable {inner : Nested}

theorem args_complete (hi : inner.Complete N) : Parser.Complete (N + 1) .args inner.args := by
  intro u as h rest _ hN
  simp only [args, skip_bind_ite, branch_eq_ok, bind_eq_ok, expect_eq_ok, pure_eq_ok]
  cases h with
  | noArgs => exact ⟨(), _, rfl, .inl ⟨_, rfl, rfl, rfl⟩⟩
  | someArgs hu =>
    simp only [List.cons_append, List.append_assoc, List.nil_append, List.length_cons] at hN ⊢
    exact ⟨(), _, rfl, .inr ⟨hu.head_ne rfl rfl _, as, _,
      separated_complete hi.term rfl hu rfl (by omega), (), _, rfl, rfl, rfl⟩⟩

theorem args_head {u : List Lexeme} {as : List Term} (h : Reads .args u as) (v : List Lexeme) :
    (u ++ v).head? = some (.symbol .lparen) :=
  h.head_eq rfl (by simp [Phrase.begins]) v

theorem typeArgs_head {u : List Lexeme} {as : List TypeArg} (h : Reads .typeArgs u as)
    (v : List Lexeme) : (u ++ v).head? = some (.symbol .lbracket) :=
  h.head_eq rfl (by simp [Phrase.begins]) v

/-- One application before others, or before lexemes that no application begins with. -/
theorem application_complete (hi : inner.Complete N) {u rest : List Lexeme}
    {a : List TypeArg × List Term} {l : List (List TypeArg × List Term)}
    (h : Reads .applications u (a :: l)) (hr : Phrase.applications.Ended rest)
    (hN : (u ++ rest).length ≤ N + 1) :
    ∃ v, v.length < u.length ∧ Reads .applications v l ∧
      (u ++ rest).head?.any beginsApplication = true ∧
      inner.application (u ++ rest) = .ok a (v ++ rest) := by
  simp only [application, at_bind_ite, fork_eq_ok, bind_eq_ok, pure_eq_ok]
  cases h with
  | @valueApplication u v as _ hu hv =>
    have hpos := List.length_pos_iff.mpr (hu.ne_nil rfl)
    rw [List.append_assoc] at hN ⊢
    have hval := args_complete hi hu (Phrase.ended_of_closed (fun _ => rfl) _) hN
    refine ⟨v, by rw [List.length_append]; omega, hv, by rw [args_head hu]; rfl, .inr ⟨?_, ?_⟩⟩
    · simp [args_head hu]
    · exact ⟨[], _, ⟨rfl, rfl⟩, .inl ⟨args_head hu _, as, _, hval, rfl, rfl⟩⟩
  | @typeApplication u v ts _ hu hv hne =>
    have hpos := List.length_pos_iff.mpr (hu.ne_nil rfl)
    rw [List.append_assoc] at hN ⊢
    have htyp := typeArgs_complete hu (Phrase.ended_of_closed (fun _ => rfl) _) hN
    refine ⟨v, by rw [List.length_append]; omega, hv, by rw [typeArgs_head hu]; rfl,
      .inl ⟨typeArgs_head hu _, ts, _, htyp, .inr ⟨?_, [], _, ⟨rfl, rfl⟩, rfl, rfl⟩⟩⟩
    cases v with
    | nil => exact hr.head_ne rfl
    | cons t v => simpa using hne
  | @fullApplication u v w ts as _ hu hv hw =>
    have hpos := List.length_pos_iff.mpr (hu.ne_nil rfl)
    simp only [List.append_assoc] at hN ⊢
    have htyp := typeArgs_complete hu (Phrase.ended_of_closed (fun _ => rfl) _) hN
    have hval := args_complete hi hv (Phrase.ended_of_closed (fun _ => rfl) (w ++ rest))
      (by rw [List.length_append] at hN; omega)
    exact ⟨w, by simp only [List.length_append]; omega, hw, by rw [typeArgs_head hu]; rfl,
      .inl ⟨typeArgs_head hu _, ts, _, htyp, .inl ⟨args_head hv _, as, _, hval, rfl, rfl⟩⟩⟩

theorem applications_complete (hi : inner.Complete N) {u rest : List Lexeme}
    {l : List (List TypeArg × List Term)} {n : ℕ} (h : Reads .applications u l)
    (hr : Phrase.applications.Ended rest) (hN : (u ++ rest).length ≤ N + 1) (hn : u.length ≤ n) :
    manyUpTo beginsApplication inner.application n (u ++ rest) = .ok l rest := by
  induction l generalizing u n with
  | nil =>
    cases h
    exact manyUpTo_stop (by cases rest <;> simp_all [Phrase.extendedBy, beginsApplication]) n
  | cons a l ih =>
    obtain ⟨v, hlt, hv, hb, happ⟩ := application_complete hi h hr hN
    obtain ⟨n, rfl⟩ : ∃ k, n = k + 1 := ⟨n - 1, by omega⟩
    simp only [manyUpTo, peek_bind, hb, if_true, bind_eq_ok, pure_eq_ok]
    rw [List.length_append] at hN
    exact ⟨a, _, happ, l, rest, ih hv (by rw [List.length_append]; omega) (by omega), rfl, rfl⟩

theorem segment_complete (hi : inner.Complete N) :
    Parser.Complete (N + 1) .segment inner.segment := by
  intro u t h rest hr hN
  simp only [segment, bind_eq_ok, identifier_eq_ok, pure_eq_ok]
  cases h with
  | @segment n u l hu =>
    simp only [List.cons_append, List.length_cons] at hN ⊢
    exact ⟨n, _, rfl, l, rest,
      applications_complete hi hu hr (by omega) (by rw [List.length_append]; omega), rfl, rfl⟩

theorem chain_complete (hi : inner.Complete N) : Parser.Complete (N + 1) .chain inner.chain := by
  intro u t h rest hr hN
  simp only [chain, bind_eq_ok]
  have hend : (Phrase.separated .dot .segment).Ended rest :=
    hr.mono (by simp +contextual [Phrase.extendedBy])
  have hsep := separated_complete (s := .dot) (segment_complete hi) rfl
  cases h with
  | soleSegment hu => exact ⟨_, rest, hsep (.one hu) hend hN, rfl⟩
  | @dotted _ ts hu hlen =>
    refine ⟨ts, rest, hsep hu hend hN, ?_⟩
    cases ts with
    | nil => simp at hlen
    | cons t ts =>
      cases ts with
      | nil => simp at hlen
      | cons t' ts => rfl

theorem predication_complete (hi : inner.Complete N) {holds : Bool} {u rest : List Lexeme}
    {c : Call} (h : Reads .predicate u c) (hr : Phrase.predicate.Ended rest)
    (hN : (u ++ rest).length ≤ N + 1) :
    inner.predication holds (.symbol .dollar :: u ++ rest) = .ok ⟨holds, c⟩ rest := by
  simp only [predication, bind_eq_ok, expect_eq_ok]
  cases h with
  | solePredicate hu =>
    exact ⟨(), _, rfl, _, rest, chain_complete hi (.soleSegment hu) hr hN, rfl⟩
  | @dottedPredicate u v ts c hu hv =>
    have hlen : 2 ≤ (ts ++ [Term.call c]).length := by cases hu <;> simp
    refine ⟨(), _, rfl, _, rest, chain_complete hi (.dotted (hu.concat hv) hlen) hr hN, ?_⟩
    simp only [Term.toCall?, List.getLast?_concat, List.dropLast_concat]
    rfl

theorem isA_complete (hi : inner.Complete N) (holds : Bool) {u rest : List Lexeme} {t : Term}
    {name : String} (h : Reads .sum u t) (hr : Phrase.specific.Ended rest)
    (hN : (u ++ .keyword .is :: .identifier name :: rest).length ≤ N) :
    inner.relational holds (u ++ .keyword .is :: .identifier name :: rest) =
      .ok (.property holds ⟨.atom name, [], [t]⟩) rest := by
  simp only [relational, skip_bind_ite, at_bind_ite, branch_eq_ok, fork_eq_ok, bind_eq_ok,
    peek_bind, identifier_eq_ok, single_eq_ok, pure_eq_ok]
  exact ⟨t, _, hi.term h rfl hN, .inl ⟨_, rfl, name, rest, rfl,
    .inr ⟨hr.head_ne rfl, [], rest, ⟨rfl, rfl⟩, rfl, rfl⟩⟩⟩

theorem isATyped_complete (hi : inner.Complete N) (holds : Bool) {u v rest : List Lexeme} {t : Term}
    {name : String} {a : TypeArg} (h : Reads .sum u t) (ha : Reads .typeArg v a)
    (hN : (u ++ .keyword .is :: .identifier name :: .symbol .lbracket ::
      (v ++ .symbol .rbracket :: rest)).length ≤ N) :
    inner.relational holds (u ++ .keyword .is :: .identifier name :: .symbol .lbracket ::
        (v ++ .symbol .rbracket :: rest)) =
      .ok (.property holds ⟨.atom name, [a], [t]⟩) rest := by
  simp only [relational, skip_bind_ite, at_bind_ite, branch_eq_ok, fork_eq_ok, bind_eq_ok,
    peek_bind, identifier_eq_ok, single_eq_ok, pure_eq_ok]
  have htypes :
      typeArgs (.symbol .lbracket :: (v ++ .symbol .rbracket :: rest)) = .ok [a] rest := by
    simpa using typeArgs_complete (.typeArgs (.one ha)) (Phrase.ended_of_closed (fun _ => rfl) rest)
      (Nat.le_refl _)
  exact ⟨t, _, hi.term h rfl hN, .inl ⟨_, rfl, name, _, rfl,
    .inl ⟨rfl, [a], rest, htypes, a, rest, ⟨rfl, rfl⟩, [a], rest, ⟨rfl, rfl⟩, rfl, rfl⟩⟩⟩

theorem relation_complete (hi : inner.Complete N) (holds : Bool) {u rest : List Lexeme} {s : Symbol}
    {ts : List Term} (hrel : s.isRelational = true) (h : Reads (.separated s .sum) u ts)
    (hlen : 2 ≤ ts.length) (hr : Phrase.specific.Ended rest) (hN : (u ++ rest).length ≤ N) :
    inner.relational holds (u ++ rest) = .ok (.relational holds s ts) rest := by
  simp only [relational, skip_bind_ite, branch_eq_ok, bind_eq_ok, peek_bind]
  have hs : Phrase.sum.extendedBy (.symbol s) = false := by
    revert hrel
    cases s <;> decide
  have hend : (Phrase.separated s .sum).Ended rest := by
    refine hr.mono ?_
    intro l hl
    simp only [Phrase.extendedBy, Bool.or_eq_false_iff, beq_eq_false_iff_ne] at hl ⊢
    refine ⟨?_, hl.1⟩
    rintro rfl
    rw [Lexeme.isRelational, hrel] at hl
    exact absurd hl.2 (by decide)
  cases h with
  | one _ => simp at hlen
  | @more _ _ u v t ts hu hv =>
    rw [List.append_assoc, List.cons_append] at hN ⊢
    have hN' := hN
    simp only [List.length_append, List.length_cons] at hN'
    have hle := hv.length_le
    have hmany := many_complete hi.term hs hv hend (by rw [List.length_append]; omega)
      (n := (.symbol s :: v ++ rest).length) (by simp; omega)
    refine ⟨t, _, hi.term hu hs hN, .inr ⟨by simp, ?_⟩⟩
    simp only [List.head?_cons, hrel, if_true, bind_eq_ok, pure_eq_ok]
    exact ⟨ts, rest, hmany, rfl, rfl⟩

theorem affirmation_complete (hi : inner.Complete N) (holds : Bool) {u rest : List Lexeme}
    {f : Fact} (h : Reads .specific u f) (hf : f.sign true = f) (hr : Phrase.specific.Ended rest)
    (hN : (u ++ rest).length ≤ N) :
    inner.affirmation holds (u ++ rest) = .ok (f.sign holds) rest := by
  have hforall := h.head_ne rfl (l := .keyword .forallKw) rfl rest
  simp only [affirmation, at_bind_ite, fork_eq_ok, bind_eq_ok, pure_eq_ok]
  refine .inr ⟨hforall, ?_⟩
  cases h with
  | predication hu =>
    have hend := hr.mono (q := .predicate) (by simp +contextual [Phrase.extendedBy])
    exact .inl ⟨rfl, _, rest, predication_complete hi hu hend (by simp at hN ⊢; omega), rfl, rfl⟩
  | isA hu =>
    simp only [List.append_assoc, List.cons_append, List.nil_append] at hN ⊢
    exact .inr ⟨hu.head_ne rfl rfl _, isA_complete hi holds hu hr hN⟩
  | isATyped hu hv =>
    simp only [List.append_assoc, List.cons_append, List.nil_append] at hN ⊢
    exact .inr ⟨hu.head_ne rfl rfl _, isATyped_complete hi holds hu hv hN⟩
  | relation s hs hu hlen =>
    exact .inr ⟨hu.head_ne rfl rfl _, relation_complete hi holds hs hu hlen hr hN⟩
  | deniedProperty _ => simp [Fact.sign] at hf
  | deniedRelation _ => simp [Fact.sign] at hf

/-- A specific fact is asserted without the word `not`, or is an asserted one denied by it. -/
theorem specific_cases {u : List Lexeme} {f : Fact} (h : Reads .specific u f) :
    (f.sign true = f ∧ ∀ v, (u ++ v).head? ≠ some (.keyword .not)) ∨
    ∃ u' f', u = .keyword .not :: u' ∧ f = f'.sign false ∧ f'.sign true = f' ∧
      Reads .specific u' f' := by
  cases h with
  | predication hu => exact .inl ⟨rfl, by simp⟩
  | isA hu =>
    simp only [List.append_assoc]
    exact .inl ⟨rfl, fun v => hu.head_ne rfl rfl _⟩
  | isATyped hu hv =>
    simp only [List.append_assoc]
    exact .inl ⟨rfl, fun v => hu.head_ne rfl rfl _⟩
  | relation s hs hu hlen => exact .inl ⟨rfl, fun v => hu.head_ne rfl rfl v⟩
  | deniedProperty hu => exact .inr ⟨_, _, rfl, rfl, rfl, hu⟩
  | deniedRelation hu => exact .inr ⟨_, _, rfl, rfl, rfl, hu⟩

theorem specificFact_complete (hi : inner.Complete N) :
    Parser.Complete N .specific inner.specificFact := by
  intro u f h rest hr hN
  rw [specificFact_eq, bind_eq_ok]
  rcases specific_cases h with ⟨hf, hnot⟩ | ⟨u', f', rfl, rfl, hf', hu'⟩
  · refine ⟨false, _, skip_eq_ok.mpr (.inr ⟨rfl, hnot rest, rfl⟩), ?_⟩
    exact (affirmation_complete hi true h hf hr hN).trans (by rw [hf])
  · refine ⟨true, _, skip_eq_ok.mpr (.inl ⟨rfl, rfl⟩), ?_⟩
    exact affirmation_complete hi false hu' hf' hr (by simp at hN ⊢; omega)

theorem guards_complete (hi : inner.Complete N) : Parser.Complete (N + 1) .guards inner.guards := by
  intro u fs h rest hr hN
  simp only [guards, skip_bind_ite, branch_eq_ok, pure_eq_ok]
  cases h with
  | noGuards => exact .inr ⟨hr.head_ne (by decide), rfl, rfl⟩
  | someGuards hu =>
    have hend :=
      hr.mono (q := .separated .comma .specific) (by simp +contextual [Phrase.extendedBy])
    exact .inl
      ⟨_, rfl, separated_complete (specificFact_complete hi) rfl hu hend (by simpa using hN)⟩

theorem param_complete (hi : inner.Complete N) : Parser.Complete (N + 1) .param inner.param := by
  intro u q h rest _ hN
  simp only [param, bind_eq_ok, identifier_eq_ok, pure_eq_ok]
  cases h with
  | @param n u t hu =>
    exact ⟨n, _, rfl, t, rest,
      hi.type hu (Phrase.ended_of_closed (fun _ => rfl) rest) (by simpa using hN), rfl, rfl⟩

theorem params_complete (hi : inner.Complete N) :
    Parser.Complete (N + 1) (.separated .comma .param) inner.params :=
  separated_complete (param_complete hi) rfl

theorem guardedGenerics_complete (hi : inner.Complete N) :
    Parser.Complete (N + 1) .generics inner.guardedGenerics := by
  intro u a h rest hr hN
  simp only [guardedGenerics, skip_bind_ite, branch_eq_ok, bind_eq_ok, expect_eq_ok, pure_eq_ok]
  cases h with
  | noGenerics => exact .inr ⟨hr.head_ne (by decide), rfl, rfl⟩
  | @someGenerics u v gs fs hu hv =>
    simp only [List.cons_append, List.append_assoc, List.nil_append, List.length_cons,
      List.length_append] at hN ⊢
    have hend : (Phrase.separated .comma .genericParam).Ended (v ++ .symbol .rbracket :: rest) := by
      cases hv <;> rfl
    exact .inl ⟨_, rfl, gs, _, separated_complete genericParam_complete rfl hu hend (Nat.le_refl _),
      fs, _, guards_complete hi hv rfl (by simp only [List.length_append, List.length_cons]; omega),
      (), _, rfl, rfl, rfl⟩

theorem guardedParams_complete (hi : inner.Complete N) :
    Parser.Complete (N + 1) .valueParams inner.guardedParams := by
  intro u a h rest _ hN
  simp only [guardedParams, bind_eq_ok, expect_eq_ok, at_bind]
  cases h with
  | @noParams v fs hv =>
    simp only [List.cons_append, List.append_assoc, List.nil_append, List.length_cons] at hN ⊢
    refine ⟨(), _, rfl, ?_⟩
    have hguards : inner.guards (v ++ .symbol .rparen :: rest) = .ok fs (.symbol .rparen :: rest) :=
      guards_complete hi hv rfl (by omega)
    rw [if_pos (by cases hv <;> simp)]
    simp only [bind_eq_ok, expect_eq_ok, pure_eq_ok]
    exact ⟨[], _, ⟨rfl, rfl⟩, fs, _, hguards, (), _, rfl, rfl, rfl⟩
  | @someParams u v ps fs hu hv =>
    simp only [List.cons_append, List.append_assoc, List.nil_append, List.length_cons] at hN ⊢
    refine ⟨(), _, rfl, ?_⟩
    have hend : (Phrase.separated .comma .param).Ended (v ++ .symbol .rparen :: rest) := by
      cases hv <;> rfl
    have hparams := params_complete hi hu hend (by omega)
    have hguards : inner.guards (v ++ .symbol .rparen :: rest) = .ok fs (.symbol .rparen :: rest) :=
      guards_complete hi hv rfl (by simp only [List.length_append] at hN ⊢; omega)
    have h₁ := hu.head_ne rfl (l := .symbol .rparen) rfl (v ++ .symbol .rparen :: rest)
    have h₂ := hu.head_ne rfl (l := .symbol .colonColon) rfl (v ++ .symbol .rparen :: rest)
    rw [if_neg (by simp only [Bool.or_eq_true, beq_iff_eq, h₁, h₂, or_self, not_false_eq_true])]
    simp only [bind_eq_ok, expect_eq_ok, pure_eq_ok]
    exact ⟨ps, _, hparams, fs, _, hguards, (), _, rfl, rfl, rfl⟩

theorem signature_complete (hi : inner.Complete N) :
    Parser.Complete (N + 1) .signature inner.signature := by
  intro u a h rest _ hN
  simp only [signature, bind_eq_ok, pure_eq_ok]
  cases h with
  | @signature u v gs ps fs fs' hu hv =>
    rw [List.append_assoc] at hN ⊢
    have hend : Phrase.generics.Ended (v ++ rest) := by cases hv <;> rfl
    exact ⟨(gs, fs), _, guardedGenerics_complete hi hu hend hN, (ps, fs'), rest,
      guardedParams_complete hi hv (Phrase.ended_of_closed (fun _ => rfl) rest)
        (by rw [List.length_append] at hN; omega), rfl, rfl⟩

theorem propertyType_complete (hi : inner.Complete N) {u rest : List Lexeme} {a : Signature}
    (h : Reads .signature u a) (hN : (u ++ rest).length ≤ N + 1) :
    inner.propertyType (.keyword .property :: u ++ rest) = .ok a rest := by
  simp only [propertyType, bind_eq_ok, expect_eq_ok]
  exact ⟨(), _, rfl, signature_complete hi h (Phrase.ended_of_closed (fun _ => rfl) rest) hN⟩

theorem placeholder_complete (k : Placeholder) (rest : List Lexeme) :
    placeholder (.keyword k.keyword :: rest) = .ok k rest := by
  cases k <;> rfl

theorem typeStep_complete (hi : inner.Complete N) :
    Parser.Complete (N + 1) .type inner.typeStep := by
  intro u t h rest _ hN
  simp only [typeStep, fnType, at_bind_ite, skip_bind_ite, fork_eq_ok, branch_eq_ok, bind_eq_ok,
    expect_eq_ok, identifier_eq_ok, pure_eq_ok]
  cases h with
  | named n => exact .inr ⟨by simp, .inr ⟨by simp, .inr ⟨by simp, n, rest, rfl, rfl, rfl⟩⟩⟩
  | @fnType u v s r hu hv =>
    simp only [List.cons_append, List.append_assoc, List.length_cons] at hN ⊢
    have hsig :=
      signature_complete hi hu (Phrase.ended_of_closed (fun _ => rfl) (v ++ rest)) (by omega)
    have htype := hi.type hv (Phrase.ended_of_closed (fun _ => rfl) rest)
      (by rw [List.length_append] at hN; omega)
    exact .inl ⟨rfl, (s, r), rest, ⟨(), _, rfl, s, _, hsig, r, rest, htype, rfl, rfl⟩, rfl, rfl⟩
  | propertyType hu =>
    have hprop := propertyType_complete hi hu (Nat.le_succ_of_le (Nat.le_of_lt_succ hN))
    exact .inr ⟨by simp, .inl ⟨rfl, _, rest, hprop, rfl, rfl⟩⟩
  | placeholder k =>
    exact .inr ⟨by simp, .inr
      ⟨by simp, .inl ⟨_, rfl, k, rest, placeholder_complete k rest, rfl, rfl⟩⟩⟩

theorem ascription_complete (hi : inner.Complete N) {u v rest : List Lexeme} {t : Term}
    {a : Signature} (h : Reads .sum u t) (ha : Reads .signature v a)
    (hN : (u ++ .symbol .comma :: .keyword .property ::
      (v ++ .symbol .rparen :: rest)).length ≤ N) :
    inner.ascription (.keyword .as :: .symbol .lparen ::
        (u ++ .symbol .comma :: .keyword .property :: (v ++ .symbol .rparen :: rest))) =
      .ok (.ascribed t a) rest := by
  simp only [ascription, bind_eq_ok, expect_eq_ok, pure_eq_ok]
  have hprop : inner.propertyType (.keyword .property :: (v ++ .symbol .rparen :: rest)) =
      .ok a (.symbol .rparen :: rest) :=
    propertyType_complete hi ha (by simp at hN ⊢; omega)
  exact ⟨(), _, rfl, (), _, rfl, t, _, hi.term h rfl hN, (), _, rfl, a, _, hprop, (), _, rfl, rfl,
    rfl⟩

theorem atom_complete (hi : inner.Complete N) : Parser.Complete (N + 1) .atom inner.atom := by
  intro u t h rest hr hN
  simp only [atom, skip_bind_ite, branch_eq_ok, bind_eq_ok, peek_bind, expect_eq_ok, pure_eq_ok]
  cases h with
  | parenthesized hu =>
    simp only [List.cons_append, List.append_assoc, List.nil_append, List.length_cons] at hN ⊢
    exact .inl ⟨_, rfl, t, _, hi.term hu rfl (by omega), (), rest, rfl, rfl, rfl⟩
  | ascription hu hv =>
    simp only [List.cons_append, List.append_assoc, List.nil_append, List.length_cons] at hN ⊢
    exact .inr ⟨by simp, ascription_complete hi hu hv (by omega)⟩
  | @whole w hw =>
    exact .inr ⟨by simp, whole_complete (Numeral.isWholePart_iff.mpr hw) (hr.head_ne rfl)⟩
  | @fraction w f hw hf =>
    have hwhole := Numeral.isWholePart_iff.mpr hw
    exact .inr ⟨by simp, fraction_complete hwhole (Numeral.fitsWord_iff.mpr hf) rest⟩
  | chainAtom hu =>
    have hend := hr.mono (q := .chain) (by simp +contextual [Phrase.extendedBy])
    have hchain := chain_complete hi hu hend hN
    refine .inr ⟨hu.head_ne rfl rfl rest, ?_⟩
    have hb := hu.begun
    cases u with
    | nil => exact absurd rfl (hu.ne_nil rfl)
    | cons l u =>
      cases l with
      | identifier n => exact hchain
      | _ => exact absurd hb (by simp [Phrase.Begun, Phrase.begins, Lexeme.isIdentifier])

end Nested

section Climb

open Infix

variable {atom : Parser Term}

theorem extend_stop {m n : ℕ} {t : Term} {rest : List Lexeme} (h : Below m rest) :
    extend atom n m t rest = .ok t rest := by
  cases n with
  | zero => rfl
  | succ n =>
    cases hnext : next? rest with
    | none => exact extend_of_none hnext
    | some op =>
      rw [extend_of_some hnext, if_pos (h op hnext)]
      rfl

theorem Below.of_admits {m k : ℕ} {rest : List Lexeme} (h : Admits k rest) (hk : k < m) :
    Below m rest := by
  intro op hop
  have := strengths hop
  have := h op hop
  omega

theorem Ended.of_infix {rest : List Lexeme} {s : Symbol} {op : Infix} (h : ofSymbol? s = some op) :
    Phrase.atom.Ended (.symbol s :: rest) := by
  obtain ⟨-, ⟨rfl | rfl, -⟩ | ⟨rfl | rfl, -⟩ | ⟨rfl, -⟩⟩ := ofSymbol?_cases h <;> rfl

theorem climb_atom {N m n : ℕ} {u rest : List Lexeme} {t : Term} (ha : Complete N .atom atom)
    (hu : Reads .atom u t) (hr : Phrase.atom.Ended rest) (hN : (u ++ rest).length ≤ N) :
    climb atom (n + 1) m (u ++ rest) = extend atom n m t rest := by
  have hminus := hu.head_ne rfl (l := .symbol .minus) rfl rest
  have hatom := ha hu hr hN
  simp only [climb]
  split
  · rw [skip_bind_ite, branch_of_ne hminus, bind_of_ok hatom]
  · rw [bind_of_ok hatom]

/-- An operation of strength `k` is taken by a climb that asks for no more, and the climb goes on
after it. The induction is on the length of the operation, since its operands are shorter. -/
theorem climb_complete {N k m n : ℕ} {u rest : List Lexeme} {t : Term} (ha : Complete N .atom atom)
    (hu : ReadsAt k u t) (hmk : m ≤ k) (hm : m ≤ 90) (hadm : Admits k rest)
    (hr : Phrase.atom.Ended rest) (hN : (u ++ rest).length ≤ N) (hn : (u ++ rest).length ≤ n) :
    ∃ n', rest.length ≤ n' ∧ climb atom n m (u ++ rest) = extend atom n' m t rest := by
  induction hlen : u.length using Nat.strongRecOn generalizing k m n u rest t with
  | ind len ih =>
    subst hlen
    have hc := hu.composed
    cases hc with
    | atom hu =>
      have hpos := List.length_pos_iff.mpr (hu.ne_nil rfl)
      rw [List.length_append] at hn
      obtain ⟨n, rfl⟩ : ∃ j, n = j + 1 := ⟨n - 1, by omega⟩
      exact ⟨n, by omega, climb_atom ha hu hr hN⟩
    | @negation v t hk hv =>
      simp only [List.cons_append, List.length_cons, List.length_append] at hn hN ⊢
      obtain ⟨n, rfl⟩ : ∃ j, n = j + 1 := ⟨n - 1, by omega⟩
      refine ⟨n, by omega, ?_⟩
      obtain ⟨n', -, hclimb⟩ := ih v.length (by simp) hv (Nat.le_refl _) (by decide)
        (hadm.mono (Nat.le_succ_of_le hk)) hr (n := n) (by simp; omega) (by simp; omega) rfl
      have hstop : Below (negation + 1) rest := Below.of_admits hadm (Nat.lt_succ_of_le hk)
      rw [extend_stop hstop] at hclimb
      simp only [climb]
      rw [if_pos (Nat.le_trans hmk hk), skip_bind_ite, branch_cons, bind_of_ok hclimb]
      rfl
    | @operation v w l r s op hop hk hv hw =>
      obtain ⟨hs, -⟩ := ofSymbol?_cases hop
      have hnext : next? (.symbol s :: (w ++ rest)) = some op := next?_eq_some.mpr ⟨s, _, rfl, hop⟩
      have hstr := strengths hnext
      simp only [List.append_assoc, List.cons_append] at hn hN ⊢
      have hn' := hn
      simp only [List.length_append, List.length_cons] at hn' hN
      have hadm' : Admits op.leftStrength (.symbol s :: (w ++ rest)) := by
        intro op' hop'
        cases hnext.symm.trans hop'
        exact Nat.le_refl _
      obtain ⟨n₁, hn₁, hleft⟩ := ih v.length (by simp) hv (by omega) hm hadm' (Ended.of_infix hop)
        (by simp; omega) hn rfl
      rw [List.length_cons, List.length_append] at hn₁
      obtain ⟨n₁, rfl⟩ : ∃ j, n₁ = j + 1 := ⟨n₁ - 1, by omega⟩
      obtain ⟨n₂, -, hright⟩ := ih w.length (by simp; omega) hw (Nat.le_refl _) (by omega)
        (hadm.mono (by omega)) hr (n := n₁) (by simp; omega) (by simp; omega) rfl
      have hstop : Below op.right rest := by
        intro op' hop'
        have := strengths hop'
        have := hadm op' hop'
        omega
      rw [extend_stop hstop] at hright
      refine ⟨n₁, by omega, hleft.trans ?_⟩
      have hexpect : expectSymbol op.symbol (.symbol s :: (w ++ rest)) = .ok () (w ++ rest) :=
        expect_eq_ok.mpr (by rw [hs])
      rw [extend_of_some hnext, if_neg (by omega), bind_of_ok hexpect, bind_of_ok hright, hs]

theorem operation_complete {N : ℕ} (ha : Complete N .atom atom) :
    Complete N .sum (operation atom) := by
  intro u t h rest hr hN
  have hadm : Admits 0 rest := by
    intro op hop
    obtain ⟨s, ts, rfl, hs⟩ := next?_eq_some.mp hop
    simp [Phrase.extendedBy, ofLexeme?, hs] at hr
  have hend := hr.mono (q := .atom) (by simp +contextual [Phrase.extendedBy])
  obtain ⟨n, -, hclimb⟩ :=
    climb_complete ha (ReadsAt.sum_iff.mpr h) (Nat.le_refl _) (Nat.zero_le _) hadm
    hend hN (Nat.le_refl _)
  have hstop : Below 0 rest := by
    intro op hop
    have := strengths hop
    have := hadm op hop
    omega
  exact hclimb.trans (extend_stop hstop)

end Climb

theorem nested_complete (N : ℕ) : (nested N).Complete N := by
  induction N with
  | zero =>
    constructor
    · intro u t h rest _ hN
      have := h.ne_nil rfl
      simp_all
    · intro u t h rest _ hN
      have := h.ne_nil rfl
      simp_all
  | succ N ih => exact ⟨operation_complete (Nested.atom_complete ih), Nested.typeStep_complete ih⟩

theorem full_complete (N : ℕ) : full.Complete N where
  term := fun _ _ h _ hr _ => (nested_complete _).term h hr (Nat.le_refl _)
  type := fun _ _ h _ hr _ => (nested_complete _).type h hr (Nat.le_refl _)

end Parser

end FactScript
