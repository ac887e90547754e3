import FactScript.Proofs.Strength
import FactScript.Proofs.Success

/-!
The parsers of a line accept nothing but phrases: whatever a parser takes off the front is a phrase
of its sort, and means what the parser returns.
-/
namespace FactScript

namespace Parser

/-- Everything that `q` takes is a phrase of sort `p` with the meaning that `q` gives it. -/
def Sound (p : Phrase) (q : Parser p.Meaning) : Prop :=
  ∀ ⦃ts : List Lexeme⦄ ⦃a : p.Meaning⦄ ⦃rest : List Lexeme⦄, q ts = .ok a rest →
    ∃ u, ts = u ++ rest ∧ Reads p u a

variable {p : Phrase} {s : Symbol}

theorem many_sound {item : Parser p.Meaning} (hi : Sound p item) {n : ℕ} {ts rest : List Lexeme}
    {as : List p.Meaning}
    (h : manyUpTo (· == .symbol s) (do expectSymbol s; item) n ts = .ok as rest) :
    (as = [] ∧ ts = rest) ∨ ∃ u, ts = .symbol s :: u ++ rest ∧ Reads (.separated s p) u as := by
  induction n generalizing ts as with
  | zero =>
    simp only [manyUpTo, pure_eq_ok] at h
    exact .inl ⟨h.1.symm, h.2⟩
  | succ n ih =>
    simp only [manyUpTo, peek_bind] at h
    split at h
    · simp only [bind_eq_ok, expect_eq_ok, pure_eq_ok] at h
      obtain ⟨a, ts₁, ⟨-, ts₂, rfl, hitem⟩, as', ts₃, htail, rfl, rfl⟩ := h
      obtain ⟨u, rfl, hu⟩ := hi hitem
      right
      rcases ih htail with ⟨rfl, rfl⟩ | ⟨v, rfl, hv⟩
      · exact ⟨u, rfl, .one hu⟩
      · exact ⟨u ++ .symbol s :: v, by simp, .more hu hv⟩
    · simp only [pure_eq_ok] at h
      exact .inl ⟨h.1.symm, h.2⟩

/-- At the separator at least one phrase follows. -/
theorem many_cons_sound {item : Parser p.Meaning} (hi : Sound p item) {ts rest : List Lexeme}
    {as : List p.Meaning}
    (h : many (· == .symbol s) (do expectSymbol s; item) (.symbol s :: ts) = .ok as rest) :
    ∃ u, ts = u ++ rest ∧ Reads (.separated s p) u as := by
  rcases many_sound hi h with ⟨rfl, rfl⟩ | ⟨u, hu, h⟩
  · simp [many, manyUpTo] at h
  · exact ⟨u, by simpa using hu, h⟩

theorem separated_sound {item : Parser p.Meaning} (hi : Sound p item) :
    Sound (.separated s p) (separated s item) := by
  intro ts as rest h
  simp only [separated, bind_eq_ok, pure_eq_ok] at h
  obtain ⟨a, ts₁, hitem, as', ts₂, hmany, rfl, rfl⟩ := h
  obtain ⟨u, rfl, hu⟩ := hi hitem
  rcases many_sound hi hmany with ⟨rfl, rfl⟩ | ⟨v, rfl, hv⟩
  · exact ⟨u, rfl, .one hu⟩
  · exact ⟨u ++ .symbol s :: v, by simp, .more hu hv⟩

theorem identifier_sound : Sound .name identifier := by
  intro ts n rest h
  exact ⟨[.identifier n], by simpa using h, .name n⟩

theorem typeArg_sound : Sound .typeArg typeArg := by
  intro ts a rest h
  simp only [typeArg, skip_bind_ite, branch_eq_ok, bind_eq_ok, expect_eq_ok, identifier_eq_ok,
    pure_eq_ok] at h
  rcases h with
    ⟨ts₁, rfl, -, ts₂, rfl, n, ts₃, rfl, -, ts₄, rfl, c, ts₅, rfl, -, ts₆, rfl, rfl, rfl⟩ |
    ⟨-, n, ts₁, rfl, rfl, rfl⟩
  · exact ⟨_, rfl, .ascribedTypeArg n c⟩
  · exact ⟨_, rfl, .plainTypeArg n⟩

theorem typeArgs_sound : Sound .typeArgs typeArgs := by
  intro ts as rest h
  simp only [typeArgs, bind_eq_ok, expect_eq_ok, pure_eq_ok] at h
  obtain ⟨-, ts₁, rfl, as', ts₂, hargs, -, ts₃, rfl, rfl, rfl⟩ := h
  obtain ⟨u, rfl, hu⟩ := separated_sound typeArg_sound hargs
  exact ⟨_, by simp, .typeArgs hu⟩

theorem genericParam_sound : Sound .genericParam genericParam := by
  intro ts g rest h
  simp only [genericParam, bind_eq_ok, identifier_eq_ok, pure_eq_ok] at h
  obtain ⟨n, ts₁, rfl, c, ts₂, rfl, rfl, rfl⟩ := h
  exact ⟨_, rfl, .genericParam n c⟩

theorem number_sound {ts rest : List Lexeme} {t : Term} (h : number ts = .ok t rest) :
    ∃ u, ts = u ++ rest ∧ Reads .atom u t := by
  unfold number at h
  split at h
  · next w ts =>
    split at h
    · next hw =>
      split at h
      · next f ts' =>
        split at h
        · next hf =>
          cases h
          exact ⟨_, rfl, .fraction (Numeral.isWholePart_iff.mp hw) (Numeral.fitsWord_iff.mp hf)⟩
        · cases h
      · cases h
      · cases h
        exact ⟨_, rfl, .whole (Numeral.isWholePart_iff.mp hw)⟩
    · cases h
  · cases h
  · cases h

namespace Nested

structure Sound (inner : Nested) : Prop where
  term : Parser.Sound .sum inner.term
  type : Parser.Sound .type inner.type

variable {inner : Nested}

theorem args_sound (hi : inner.Sound) : Parser.Sound .args inner.args := by
  intro ts as rest h
  simp only [args, bind_eq_ok, skip_bind_ite, branch_eq_ok, expect_eq_ok, pure_eq_ok] at h
  obtain ⟨-, ts₁, rfl, ⟨ts₂, rfl, rfl, rfl⟩ | ⟨-, as', ts₂, hargs, -, ts₃, rfl, rfl, rfl⟩⟩ := h
  · exact ⟨_, rfl, .noArgs⟩
  · obtain ⟨u, rfl, hu⟩ := separated_sound hi.term hargs
    exact ⟨_, by simp, .someArgs hu⟩

theorem application_sound (hi : inner.Sound) {ts v rest : List Lexeme}
    {a : List TypeArg × List Term} {l : List (List TypeArg × List Term)}
    (hb : ts.head?.any beginsApplication = true) (h : inner.application ts = .ok a (v ++ rest))
    (hv : Reads .applications v l) :
    ∃ u, ts = u ++ rest ∧ Reads .applications u (a :: l) := by
  simp only [application, at_bind_ite, fork_eq_ok, bind_eq_ok, pure_eq_ok] at h
  rcases h with ⟨-, types, ts₁, htypes, ⟨-, values, ts₂, hvalues, rfl, rfl⟩ | ⟨hne, h⟩⟩ |
    ⟨hne, types, ts₁, ⟨rfl, rfl⟩, ⟨-, values, ts₂, hvalues, rfl, rfl⟩ | ⟨hne', h⟩⟩
  · obtain ⟨u, rfl, hu⟩ := typeArgs_sound htypes
    obtain ⟨w, rfl, hw⟩ := args_sound hi hvalues
    exact ⟨_, by simp, .fullApplication hu hw hv⟩
  · obtain ⟨values, ts₂, ⟨rfl, rfl⟩, rfl, rfl⟩ := h
    obtain ⟨u, rfl, hu⟩ := typeArgs_sound htypes
    refine ⟨u ++ v, by simp, .typeApplication hu hv ?_⟩
    intro hlp
    exact hne (by simp [hlp])
  · obtain ⟨u, rfl, hu⟩ := args_sound hi hvalues
    exact ⟨_, by simp, .valueApplication hu hv⟩
  · cases ts with
    | nil => simp at hb
    | cons t ts => simp_all [beginsApplication]

theorem applications_sound (hi : inner.Sound) {n : ℕ} {ts rest : List Lexeme}
    {l : List (List TypeArg × List Term)}
    (h : manyUpTo beginsApplication inner.application n ts = .ok l rest) :
    ∃ u, ts = u ++ rest ∧ Reads .applications u l := by
  induction n generalizing ts l with
  | zero =>
    simp only [manyUpTo, pure_eq_ok] at h
    obtain ⟨rfl, rfl⟩ := h
    exact ⟨[], rfl, .noApplications⟩
  | succ n ih =>
    simp only [manyUpTo, peek_bind] at h
    split at h
    · next hb =>
      simp only [bind_eq_ok, pure_eq_ok] at h
      obtain ⟨a, ts₁, happ, l', ts₂, htail, rfl, rfl⟩ := h
      obtain ⟨v, rfl, hv⟩ := ih htail
      exact application_sound hi hb happ hv
    · simp only [pure_eq_ok] at h
      obtain ⟨rfl, rfl⟩ := h
      exact ⟨[], rfl, .noApplications⟩

theorem segment_sound (hi : inner.Sound) : Parser.Sound .segment inner.segment := by
  intro ts t rest h
  simp only [segment, bind_eq_ok, identifier_eq_ok, pure_eq_ok] at h
  obtain ⟨n, ts₁, rfl, l, ts₂, happs, rfl, rfl⟩ := h
  obtain ⟨u, rfl, hu⟩ := applications_sound hi happs
  exact ⟨_, rfl, .segment hu⟩

theorem chain_sound (hi : inner.Sound) : Parser.Sound .chain inner.chain := by
  intro ts t rest h
  simp only [chain, bind_eq_ok] at h
  obtain ⟨parts, ts₁, hparts, h⟩ := h
  obtain ⟨u, rfl, hu⟩ := separated_sound (segment_sound hi) hparts
  split at h <;> simp only [pure_eq_ok] at h <;> obtain ⟨rfl, rfl⟩ := h
  · cases hu with
    | one hu => exact ⟨u, rfl, .soleSegment hu⟩
    | more _ hv => cases hv
  · next hne =>
    refine ⟨u, rfl, .dotted hu ?_⟩
    cases hu with
    | one _ => exact absurd rfl (hne _)
    | more _ hv => cases hv <;> simp

theorem predication_sound (hi : inner.Sound) {holds : Bool} {ts rest : List Lexeme}
    {p : Predication} (h : inner.predication holds ts = .ok p rest) :
    ∃ u, ts = .symbol .dollar :: u ++ rest ∧ p.holds = holds ∧ Reads .predicate u p.call := by
  simp only [predication, bind_eq_ok, expect_eq_ok] at h
  obtain ⟨-, ts₁, rfl, t, ts₂, hchain, h⟩ := h
  obtain ⟨u, rfl, hu⟩ := chain_sound hi hchain
  cases hc : t.toCall? with
  | none =>
    simp only [hc] at h
    exact absurd h throw_ne_ok
  | some c =>
    simp only [hc, pure_eq_ok] at h
    obtain ⟨rfl, rfl⟩ := h
    exact ⟨u, rfl, rfl, hu.predicate hc⟩

theorem relational_sound (hi : inner.Sound) {holds : Bool} {ts rest : List Lexeme} {f : Fact}
    (h : inner.relational holds ts = .ok f rest) :
    ∃ u, ts = u ++ rest ∧ ((∃ c, f = .property holds c ∧ Reads .specific u (.property true c)) ∨
      ∃ s operands, f = .relational holds s operands ∧
        Reads .specific u (.relational true s operands)) := by
  simp only [relational, skip_bind_ite, at_bind_ite, branch_eq_ok, fork_eq_ok, bind_eq_ok,
    peek_bind, identifier_eq_ok, single_eq_ok, pure_eq_ok] at h
  obtain ⟨t, ts₁, hterm, h⟩ := h
  obtain ⟨u, rfl, hu⟩ := hi.term hterm
  rcases h with ⟨ts₂, rfl, n, ts₃, rfl, h⟩ | ⟨-, h⟩
  · rcases h with ⟨-, types, ts₄, htypes, a, ts₅, ⟨rfl, rfl⟩, types', ts₆, ⟨rfl, rfl⟩, rfl, rfl⟩ |
      ⟨-, types, ts₄, ⟨rfl, rfl⟩, rfl, rfl⟩
    · obtain ⟨v, rfl, hv⟩ := typeArgs_sound htypes
      cases hv with
      | typeArgs hv =>
        cases hv with
        | one hv => exact ⟨_, by simp, .inl ⟨_, rfl, .isATyped hu hv⟩⟩
        | more _ hv => cases hv
    · exact ⟨_, by simp, .inl ⟨_, rfl, .isA hu⟩⟩
  · cases ts₁ with
    | nil => exact absurd h expected_ne_ok
    | cons l ts₂ =>
      cases l with
      | symbol s =>
        simp only [List.head?_cons] at h
        by_cases hs : s.isRelational = true
        · simp only [hs, if_true, bind_eq_ok, pure_eq_ok] at h
          obtain ⟨others, ts₃, hmany, rfl, rfl⟩ := h
          obtain ⟨v, rfl, hv⟩ := many_cons_sound hi.term hmany
          refine ⟨u ++ .symbol s :: v, by simp, .inr ⟨s, _, rfl, .relation s hs (.more hu hv) ?_⟩⟩
          cases hv <;> simp
        · rw [if_neg hs] at h
          exact absurd h throw_ne_ok
      | _ => exact absurd h expected_ne_ok

theorem affirmation_sound (hi : inner.Sound) {holds : Bool} {ts rest : List Lexeme} {f : Fact}
    (h : inner.affirmation holds ts = .ok f rest) :
    ∃ u, ts = u ++ rest ∧ ((∃ c, f = .property holds c ∧ Reads .specific u (.property true c)) ∨
      ∃ s operands, f = .relational holds s operands ∧
        Reads .specific u (.relational true s operands)) := by
  simp only [affirmation, at_bind_ite, fork_eq_ok, bind_eq_ok, pure_eq_ok] at h
  rcases h with ⟨-, h⟩ | ⟨-, ⟨-, p, ts₁, hp, rfl, rfl⟩ | ⟨-, h⟩⟩
  · cases holds
    · exact absurd h throw_ne_ok
    · exact absurd h expected_ne_ok
  · obtain ⟨u, rfl, rfl, hu⟩ := predication_sound hi hp
    exact ⟨_, rfl, .inl ⟨p.call, rfl, .predication hu⟩⟩
  · exact relational_sound hi h

theorem specificFact_sound (hi : inner.Sound) : Parser.Sound .specific inner.specificFact := by
  intro ts f rest h
  rw [specificFact_eq, bind_eq_ok] at h
  obtain ⟨denied, ts₁, hnot, h⟩ := h
  obtain ⟨u, rfl, hu⟩ := affirmation_sound hi h
  rcases skip_eq_ok.mp hnot with ⟨rfl, rfl⟩ | ⟨rfl, -, rfl⟩
  · rcases hu with ⟨c, rfl, hu⟩ | ⟨r, operands, rfl, hu⟩
    · exact ⟨_, rfl, .deniedProperty hu⟩
    · exact ⟨_, rfl, .deniedRelation hu⟩
  · rcases hu with ⟨c, rfl, hu⟩ | ⟨r, operands, rfl, hu⟩
    · exact ⟨u, rfl, hu⟩
    · exact ⟨u, rfl, hu⟩

theorem guards_sound (hi : inner.Sound) : Parser.Sound .guards inner.guards := by
  intro ts fs rest h
  simp only [guards, skip_bind_ite, branch_eq_ok, pure_eq_ok] at h
  rcases h with ⟨ts₁, rfl, h⟩ | ⟨-, rfl, rfl⟩
  · obtain ⟨u, rfl, hu⟩ := separated_sound (specificFact_sound hi) h
    exact ⟨_, rfl, .someGuards hu⟩
  · exact ⟨[], rfl, .noGuards⟩

theorem param_sound (hi : inner.Sound) : Parser.Sound .param inner.param := by
  intro ts p rest h
  simp only [param, bind_eq_ok, identifier_eq_ok, pure_eq_ok] at h
  obtain ⟨n, ts₁, rfl, t, ts₂, htype, rfl, rfl⟩ := h
  obtain ⟨u, rfl, hu⟩ := hi.type htype
  exact ⟨_, rfl, .param hu⟩

theorem params_sound (hi : inner.Sound) : Parser.Sound (.separated .comma .param) inner.params :=
  separated_sound (param_sound hi)

theorem guardedGenerics_sound (hi : inner.Sound) :
    Parser.Sound .generics inner.guardedGenerics := by
  intro ts a rest h
  simp only [guardedGenerics, skip_bind_ite, branch_eq_ok, bind_eq_ok, expect_eq_ok,
    pure_eq_ok] at h
  rcases h with ⟨ts₁, rfl, gs, ts₂, hgs, fs, ts₃, hfs, -, ts₄, rfl, rfl, rfl⟩ | ⟨-, rfl, rfl⟩
  · obtain ⟨u, rfl, hu⟩ := separated_sound genericParam_sound hgs
    obtain ⟨v, rfl, hv⟩ := guards_sound hi hfs
    exact ⟨_, by simp, .someGenerics hu hv⟩
  · exact ⟨[], rfl, .noGenerics⟩

theorem guardedParams_sound (hi : inner.Sound) : Parser.Sound .valueParams inner.guardedParams := by
  intro ts a rest h
  simp only [guardedParams, bind_eq_ok, expect_eq_ok, at_bind] at h
  obtain ⟨-, ts₁, rfl, h⟩ := h
  split at h
  · simp only [bind_eq_ok, expect_eq_ok, pure_eq_ok] at h
    obtain ⟨ps, ts₂, ⟨rfl, rfl⟩, fs, ts₃, hfs, -, ts₄, rfl, rfl, rfl⟩ := h
    obtain ⟨v, rfl, hv⟩ := guards_sound hi hfs
    exact ⟨_, by simp, .noParams hv⟩
  · simp only [bind_eq_ok, expect_eq_ok, pure_eq_ok] at h
    obtain ⟨ps, ts₂, hps, fs, ts₃, hfs, -, ts₄, rfl, rfl, rfl⟩ := h
    obtain ⟨u, rfl, hu⟩ := params_sound hi hps
    obtain ⟨v, rfl, hv⟩ := guards_sound hi hfs
    exact ⟨_, by simp, .someParams hu hv⟩

theorem signature_sound (hi : inner.Sound) : Parser.Sound .signature inner.signature := by
  intro ts a rest h
  simp only [signature, bind_eq_ok, pure_eq_ok] at h
  obtain ⟨⟨gs, fs⟩, ts₁, hgs, ⟨ps, fs'⟩, ts₂, hps, rfl, rfl⟩ := h
  obtain ⟨u, rfl, hu⟩ := guardedGenerics_sound hi hgs
  obtain ⟨v, rfl, hv⟩ := guardedParams_sound hi hps
  exact ⟨_, by simp, .signature hu hv⟩

theorem propertyType_sound (hi : inner.Sound) {ts rest : List Lexeme} {a : Signature}
    (h : inner.propertyType ts = .ok a rest) :
    ∃ u, ts = .keyword .property :: u ++ rest ∧ Reads .signature u a := by
  simp only [propertyType, bind_eq_ok, expect_eq_ok] at h
  obtain ⟨-, ts₁, rfl, h⟩ := h
  obtain ⟨u, rfl, hu⟩ := signature_sound hi h
  exact ⟨u, rfl, hu⟩

theorem placeholder_sound {ts rest : List Lexeme} {k : Placeholder}
    (h : placeholder ts = .ok k rest) : ts = .keyword k.keyword :: rest := by
  simp only [placeholder, skip_bind_ite, branch_eq_ok, pure_eq_ok, expected_ne_ok, and_false,
    or_false] at h
  rcases h with ⟨ts₁, rfl, rfl, rfl⟩ | ⟨-, ⟨ts₁, rfl, rfl, rfl⟩ | ⟨-, ts₁, rfl, rfl, rfl⟩⟩ <;> rfl

theorem typeStep_sound (hi : inner.Sound) : Parser.Sound .type inner.typeStep := by
  intro ts t rest h
  simp only [typeStep, fnType, at_bind_ite, skip_bind_ite, fork_eq_ok, branch_eq_ok, bind_eq_ok,
    expect_eq_ok, identifier_eq_ok, pure_eq_ok] at h
  rcases h with ⟨-, a, ts₁, ⟨-, ts₂, rfl, s, ts₃, hs, r, ts₄, hr, rfl, rfl⟩, rfl, rfl⟩ |
    ⟨-, ⟨-, s, ts₁, hs, rfl, rfl⟩ |
      ⟨-, ⟨ts₁, rfl, k, ts₂, hk, rfl, rfl⟩ | ⟨-, n, ts₁, rfl, rfl, rfl⟩⟩⟩
  · obtain ⟨u, rfl, hu⟩ := signature_sound hi hs
    obtain ⟨v, rfl, hv⟩ := hi.type hr
    exact ⟨_, by simp, .fnType hu hv⟩
  · obtain ⟨u, rfl, hu⟩ := propertyType_sound hi hs
    exact ⟨_, rfl, .propertyType hu⟩
  · obtain rfl := placeholder_sound hk
    exact ⟨_, rfl, .placeholder k⟩
  · exact ⟨_, rfl, .named n⟩

theorem ascription_sound (hi : inner.Sound) {ts rest : List Lexeme} {t : Term}
    (h : inner.ascription ts = .ok t rest) : ∃ u, ts = u ++ rest ∧ Reads .atom u t := by
  simp only [ascription, bind_eq_ok, expect_eq_ok, pure_eq_ok] at h
  obtain ⟨-, ts₁, rfl, -, ts₂, rfl, t', ts₃, ht, -, ts₄, rfl, s, ts₅, hs, -, ts₆, rfl, h⟩ := h
  obtain ⟨rfl, rfl⟩ := h
  obtain ⟨u, rfl, hu⟩ := hi.term ht
  obtain ⟨v, rfl, hv⟩ := propertyType_sound hi hs
  exact ⟨_, by simp, .ascription hu hv⟩

theorem atom_sound (hi : inner.Sound) : Parser.Sound .atom inner.atom := by
  intro ts t rest h
  simp only [atom, skip_bind_ite, branch_eq_ok, bind_eq_ok, peek_bind, expect_eq_ok,
    pure_eq_ok] at h
  rcases h with ⟨ts₁, rfl, t', ts₂, ht, -, ts₃, rfl, rfl, rfl⟩ | ⟨-, h⟩
  · obtain ⟨u, rfl, hu⟩ := hi.term ht
    exact ⟨_, by simp, .parenthesized hu⟩
  · cases ts with
    | nil => exact absurd h throw_ne_ok
    | cons l ts =>
      cases l with
      | number _ => exact number_sound h
      | identifier _ =>
        obtain ⟨u, hts, hu⟩ := chain_sound hi h
        exact ⟨u, hts, .chainAtom hu⟩
      | keyword k =>
        cases k with
        | as => exact ascription_sound hi h
        | _ => exact absurd h expected_ne_ok
      | symbol _ => exact absurd h expected_ne_ok

end Nested

section Climb

open Infix

variable {atom : Parser Term} {n : ℕ}

/-- With fuel `n` for what is left, `climb` reads an operation of the required strength and stops
before an operator that binds its left operand as strongly. -/
def ClimbSound (atom : Parser Term) (n : ℕ) : Prop :=
  ∀ ⦃m ts t rest⦄, m ≤ 90 → ts.length ≤ n → climb atom n m ts = .ok t rest →
    ∃ u, ts = u ++ rest ∧ ReadsAt m u t ∧ Below m rest

/-- The same for `extend`, when the operation so far is of strength `k` and the next operator can
take it as its left operand. -/
def ExtendSound (atom : Parser Term) (n : ℕ) : Prop :=
  ∀ ⦃m k left v ts t rest⦄, m ≤ k → ts.length ≤ n → ReadsAt k v left → Admits k ts →
    extend atom n m left ts = .ok t rest → ∃ u, ts = u ++ rest ∧ ReadsAt m (v ++ u) t ∧ Below m rest

/-- An atom is strong enough to be the left operand of every operator. -/
theorem atom_extend_sound (ha : Sound .atom atom) (ihe : ExtendSound atom n) {m : ℕ}
    {ts rest : List Lexeme} {t : Term} (hm : m ≤ 90) (hlen : ts.length ≤ n + 1)
    (h : (atom >>= fun first => extend atom n m first) ts = .ok t rest) :
    ∃ u, ts = u ++ rest ∧ ReadsAt m u t ∧ Below m rest := by
  rw [bind_eq_ok] at h
  obtain ⟨first, ts₁, hfirst, hext⟩ := h
  obtain ⟨u, rfl, hu⟩ := ha hfirst
  have hpos := List.length_pos_iff.mpr (hu.ne_nil rfl)
  rw [List.length_append] at hlen
  obtain ⟨w, rfl, hw, hb⟩ :=
    ihe (k := 91) (by omega) (by omega) (ReadsAt.atom_iff.mpr hu) (admits_atom _) hext
  exact ⟨u ++ w, by simp, hw, hb⟩

theorem climb_sound_succ (ha : Sound .atom atom) (ihc : ClimbSound atom n)
    (ihe : ExtendSound atom n) :
    ClimbSound atom (n + 1) := by
  intro m ts t rest hm hlen h
  simp only [climb] at h
  split at h
  · next hneg =>
    simp only [skip_bind_ite, branch_eq_ok] at h
    rcases h with ⟨ts₁, rfl, h⟩ | ⟨-, h⟩
    · simp only [bind_eq_ok, pure_eq_ok] at h
      obtain ⟨operand, ts₂, hoperand, first, ts₃, ⟨rfl, rfl⟩, hext⟩ := h
      obtain ⟨u, rfl, hu, hb⟩ := ihc (by decide) (by simpa using hlen) hoperand
      have hadm : Admits negation ts₂ := by
        intro op hop
        have := strengths hop
        have : op.left < 81 := hb op hop
        change op.leftStrength ≤ 80
        omega
      have hlen' : ts₂.length ≤ n := by simp at hlen; omega
      obtain ⟨w, rfl, hw, hb'⟩ := ihe hneg hlen' hu.negation hadm hext
      exact ⟨.symbol .minus :: u ++ w, by simp, hw, hb'⟩
    · exact atom_extend_sound ha ihe hm hlen h
  · exact atom_extend_sound ha ihe hm hlen h

theorem extend_sound_succ (ihc : ClimbSound atom n) (ihe : ExtendSound atom n) :
    ExtendSound atom (n + 1) := by
  intro m k left v ts t rest hmk hlen hv hadm h
  have hstop : Below m ts → left = t → ts = rest →
      ∃ u, ts = u ++ rest ∧ ReadsAt m (v ++ u) t ∧ Below m rest := by
    rintro hb rfl rfl
    exact ⟨[], rfl, by simpa using hv.mono hmk, hb⟩
  cases hnext : next? ts with
  | none =>
    rw [extend_of_none hnext] at h
    cases h
    exact hstop (by simp [Below, hnext]) rfl rfl
  | some op =>
    rw [extend_of_some hnext] at h
    split at h
    · next hlt =>
      simp only [pure_eq_ok] at h
      exact hstop (by simpa [Below, hnext] using hlt) h.1 h.2
    · next hge =>
      simp only [bind_eq_ok, expect_eq_ok] at h
      obtain ⟨-, ts₁, rfl, right, ts₂, hright, hext⟩ := h
      have hstr := strengths hnext
      obtain ⟨s, ts', heq, hop⟩ := next?_eq_some.mp hnext
      cases heq
      obtain ⟨u, rfl, hu, hb⟩ := ihc (by omega) (by simpa using hlen) hright
      have hadm' : Admits op.left ts₂ := by
        intro op' hop'
        have := strengths hop'
        have := hb op' hop'
        omega
      have hlen' : ts₂.length ≤ n := by simp at hlen; omega
      obtain ⟨w, rfl, hw, hb'⟩ := ihe (by omega) hlen'
        (ReadsAt.operation hop (hv.mono (hadm op hnext)) hu) hadm' hext
      exact ⟨.symbol op.symbol :: u ++ w, by simp, by simpa using hw, hb'⟩

theorem climb_extend_sound (ha : Sound .atom atom) (n : ℕ) :
    ClimbSound atom n ∧ ExtendSound atom n := by
  induction n with
  | zero =>
    constructor
    · intro m ts t rest _ hlen h
      obtain ⟨u, rfl, hu⟩ := ha h
      have := hu.ne_nil rfl
      simp_all
    · intro m k left v ts t rest hmk hlen hv _ h
      simp only [extend, pure_eq_ok] at h
      obtain ⟨rfl, rfl⟩ := h
      obtain rfl : ts = [] := by simpa using hlen
      exact ⟨[], rfl, by simpa using hv.mono hmk, by simp [Below, next?]⟩
  | succ n ih => exact ⟨climb_sound_succ ha ih.1 ih.2, extend_sound_succ ih.1 ih.2⟩

end Climb

theorem operation_sound {atom : Parser Term} (ha : Sound .atom atom) :
    Sound .sum (operation atom) := by
  intro ts t rest h
  obtain ⟨u, hts, hu, -⟩ := (climb_extend_sound ha ts.length).1 (by omega) (Nat.le_refl _) h
  exact ⟨u, hts, ReadsAt.sum_iff.mp hu⟩

theorem nested_sound (n : ℕ) : (nested n).Sound := by
  induction n with
  | zero =>
    constructor
    · intro ts t rest h
      exact absurd h throw_ne_ok
    · intro ts t rest h
      exact absurd h expected_ne_ok
  | succ n ih => exact ⟨operation_sound (Nested.atom_sound ih), Nested.typeStep_sound ih⟩

theorem full_sound : full.Sound where
  term := fun ts _ _ h => (nested_sound ts.length).term h
  type := fun ts _ _ h => (nested_sound ts.length).type h

end Parser
end FactScript
