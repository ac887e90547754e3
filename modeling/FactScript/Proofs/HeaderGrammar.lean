import FactScript.Proofs.PhraseComplete
import FactScript.Proofs.PhraseSound

/-!
The headers of statements. A parser is exact for a sort of phrase when it takes such phrases and
nothing else; here the parsers that make up a line on their own are shown to be exact, and the
headers that the parser of headers accepts are listed as a relation (`ReadsHeader`).
-/
namespace FactScript

namespace Parser

/-- The phrases of sort `p` are exactly what `q` takes. -/
structure Exact (p : Phrase) (q : Parser p.Meaning) : Prop where
  sound : Sound p q
  complete : ∀ N, Complete N p q

section Exact

variable {p : Phrase} {q : Parser p.Meaning} {a : p.Meaning} {u rest ts : List Lexeme}

theorem Exact.eq_ok (hq : Exact p q) (hu : Reads p u a) (hr : p.Ended rest) :
    q (u ++ rest) = .ok a rest :=
  hq.complete _ hu hr (Nat.le_refl _)

theorem Exact.eq_ok_nil (hq : Exact p q) : q ts = .ok a [] ↔ Reads p ts a := by
  constructor
  · intro h
    obtain ⟨u, rfl, hu⟩ := hq.sound h
    simpa using hu
  · intro h
    simpa using hq.eq_ok h (Phrase.ended_nil p)

theorem Exact.separated {s : Symbol} (hq : Exact p q) (hs : p.extendedBy (.symbol s) = false) :
    Exact (.separated s p) (separated s q) :=
  ⟨separated_sound hq.sound, fun N => separated_complete (hq.complete N) hs⟩

theorem names_exact : Exact (.separated .comma .name) names :=
  Exact.separated ⟨identifier_sound, fun _ => identifier_complete⟩ rfl

theorem genericParams_exact :
    Exact (.separated .comma .genericParam) (separated .comma genericParam) :=
  Exact.separated ⟨genericParam_sound, fun _ => genericParam_complete⟩ rfl

theorem typeArgs_exact : Exact .typeArgs typeArgs := ⟨typeArgs_sound, fun _ => typeArgs_complete⟩

theorem term_exact : Exact .sum term := ⟨full_sound.term, fun N => (full_complete N).term⟩

theorem type_exact : Exact .type type := ⟨full_sound.type, fun N => (full_complete N).type⟩

theorem specificFact_exact : Exact .specific full.specificFact :=
  ⟨Nested.specificFact_sound full_sound, fun N => Nested.specificFact_complete (full_complete N)⟩

theorem specificFacts_exact :
    Exact (.separated .comma .specific) (separated .comma full.specificFact) :=
  specificFact_exact.separated rfl

theorem guards_exact : Exact .guards full.guards :=
  ⟨Nested.guards_sound full_sound,
    fun N => (Nested.guards_complete (full_complete N)).mono (Nat.le_succ N)⟩

theorem params_exact : Exact (.separated .comma .param) full.params :=
  ⟨Nested.params_sound full_sound,
    fun N => (Nested.params_complete (full_complete N)).mono (Nat.le_succ N)⟩

theorem guardedGenerics_exact : Exact .generics full.guardedGenerics :=
  ⟨Nested.guardedGenerics_sound full_sound,
    fun N => (Nested.guardedGenerics_complete (full_complete N)).mono (Nat.le_succ N)⟩

theorem signature_exact : Exact .signature full.signature :=
  ⟨Nested.signature_sound full_sound,
    fun N => (Nested.signature_complete (full_complete N)).mono (Nat.le_succ N)⟩

theorem varDecl_sound {ps : List Param} (h : varDecl ts = .ok ps rest) :
    ∃ u, ts = u ++ rest ∧ Reads .decl u (.var ps) := by
  simp only [varDecl, bind_eq_ok, expect_eq_ok] at h
  obtain ⟨-, ts₁, rfl, h⟩ := h
  obtain ⟨u, rfl, hu⟩ := params_exact.sound h
  exact ⟨.keyword .var :: u, rfl, .varDecl hu⟩

theorem fnDecl_sound {d : FnDecl} (h : fnDecl ts = .ok d rest) :
    ∃ u, ts = u ++ rest ∧ Reads .decl u (.fn d) := by
  simp only [fnDecl, bind_eq_ok, expect_eq_ok, identifier_eq_ok, pure_eq_ok] at h
  obtain ⟨-, ts₁, rfl, n, ts₂, rfl, s, ts₃, hs, r, ts₄, hr, rfl, rfl⟩ := h
  obtain ⟨u, rfl, hu⟩ := signature_exact.sound hs
  obtain ⟨v, rfl, hv⟩ := type_exact.sound hr
  exact ⟨.keyword .fn :: .identifier n :: u ++ v, by simp, .fnDecl hu hv⟩

theorem signedName_sound {k : Keyword} {d : PropertyDecl} (h : signedName k ts = .ok d rest) :
    ∃ u, ts = .keyword k :: .identifier d.name :: u ++ rest ∧ Reads .signature u d.signature := by
  simp only [signedName, bind_eq_ok, expect_eq_ok, identifier_eq_ok, pure_eq_ok] at h
  obtain ⟨-, ts₁, rfl, n, ts₂, rfl, s, ts₃, hs, rfl, rfl⟩ := h
  obtain ⟨u, rfl, hu⟩ := signature_exact.sound hs
  exact ⟨u, rfl, hu⟩

theorem propertyDecl_sound {d : PropertyDecl} (h : propertyDecl ts = .ok d rest) :
    ∃ u, ts = u ++ rest ∧ Reads .decl u (.property d) := by
  obtain ⟨u, rfl, hu⟩ := signedName_sound h
  exact ⟨.keyword .property :: .identifier d.name :: u, rfl, .propertyDecl hu⟩

theorem signedName_eq_ok (k : Keyword) (name : String) {s : Signature} (hu : Reads .signature u s)
    (rest : List Lexeme) :
    signedName k (.keyword k :: .identifier name :: u ++ rest) = .ok ⟨name, s⟩ rest := by
  simp only [signedName, bind_eq_ok, expect_eq_ok, identifier_eq_ok, pure_eq_ok]
  exact ⟨(), _, rfl, name, _, rfl, s, rest,
    signature_exact.eq_ok hu (Phrase.ended_of_closed (fun _ => rfl) rest), rfl, rfl⟩

theorem varDecl_eq_ok {ps : List Param} (h : Reads .decl u (.var ps))
    (hr : Phrase.decl.Ended rest) :
    varDecl (u ++ rest) = .ok ps rest := by
  simp only [varDecl, bind_eq_ok, expect_eq_ok]
  cases h with
  | varDecl hu =>
    have hend : (Phrase.separated .comma .param).Ended rest :=
      hr.mono (by simp [Phrase.extendedBy])
    exact ⟨(), _, rfl, params_exact.eq_ok hu hend⟩

theorem fnDecl_eq_ok {d : FnDecl} (h : Reads .decl u (.fn d)) (rest : List Lexeme) :
    fnDecl (u ++ rest) = .ok d rest := by
  simp only [fnDecl, bind_eq_ok, expect_eq_ok, identifier_eq_ok, pure_eq_ok]
  cases h with
  | @fnDecl n u v s r hu hv =>
    simp only [List.cons_append, List.append_assoc]
    exact ⟨(), _, rfl, n, _, rfl, s, _,
      signature_exact.eq_ok hu (Phrase.ended_of_closed (fun _ => rfl) _), r, rest,
      type_exact.eq_ok hv (Phrase.ended_of_closed (fun _ => rfl) _), rfl, rfl⟩

theorem propertyDecl_eq_ok {d : PropertyDecl} (h : Reads .decl u (.property d))
    (rest : List Lexeme) :
    propertyDecl (u ++ rest) = .ok d rest := by
  cases h with
  | propertyDecl hu => exact signedName_eq_ok .property _ hu rest

theorem decl_exact : Exact .decl decl := by
  constructor
  · intro ts d rest h
    simp only [decl, at_bind_ite, fork_eq_ok, bind_eq_ok, pure_eq_ok] at h
    obtain ⟨-, ps, ts', h, rfl, rfl⟩ | ⟨-, ⟨-, d, ts', h, rfl, rfl⟩ |
      ⟨-, ⟨-, d, ts', h, rfl, rfl⟩ | ⟨-, h⟩⟩⟩ := h
    · exact varDecl_sound h
    · exact fnDecl_sound h
    · exact propertyDecl_sound h
    · exact absurd h expected_ne_ok
  · intro N u d h rest hr _
    simp only [decl, at_bind_ite, fork_eq_ok, bind_eq_ok, pure_eq_ok]
    cases d with
    | var ps => exact .inl ⟨by cases h; rfl, ps, rest, varDecl_eq_ok h hr, rfl, rfl⟩
    | fn d =>
      exact .inr ⟨by cases h; simp, .inl ⟨by cases h; rfl, d, rest, fnDecl_eq_ok h rest, rfl, rfl⟩⟩
    | property d =>
      exact .inr ⟨by cases h; simp, .inr ⟨by cases h; simp,
        .inl ⟨by cases h; rfl, d, rest, propertyDecl_eq_ok h rest, rfl, rfl⟩⟩⟩

end Exact

end Parser

def opening : Bool → List Lexeme
  | true => [.symbol .colon]
  | false => []

inductive ReadsFactHeader : List Lexeme → FactHeader → Prop
  | specific {h f} : Reads .specific h f → ReadsFactHeader h (.specific f)
  | universal {h gs ps guards} : Reads .quantifier h (gs, ps, guards) →
      ReadsFactHeader (h ++ [.symbol .colon]) (.universal gs ps guards)

/-- A fact begins with the word `forall` or as a fact on one line does. -/
theorem ReadsFactHeader.head_ne {ts : List Lexeme} {f : FactHeader} {l : Lexeme}
    (h : ReadsFactHeader ts f) (hspecific : Phrase.specific.begins l = false)
    (hforall : .keyword .forallKw ≠ l) : ts.head? ≠ some l := by
  cases h with
  | specific hu => simpa using hu.head_ne rfl hspecific []
  | universal hu => cases hu; simpa using hforall

inductive ReadsHeader : List Lexeme → Header → Prop
  | var {h vars} (opens : Bool) : Reads .decl h (.var vars) →
      ReadsHeader (h ++ opening opens) (.var vars opens)
  | concept (typeVar name : String) (opens : Bool) :
      ReadsHeader ([.keyword .concept, .identifier typeVar, .identifier name] ++ opening opens)
        (.concept typeVar name opens)
  | type (name : String) (opens : Bool) :
      ReadsHeader ([.keyword .type, .identifier name] ++ opening opens) (.type name opens)
  | property {h d} (opens : Bool) : Reads .decl h (.property d) →
      ReadsHeader (h ++ opening opens) (.property d opens)
  | fn {h d} (opens : Bool) : Reads .decl h (.fn d) → ReadsHeader (h ++ opening opens) (.fn d opens)
  | claim : ReadsHeader [.keyword .claim, .symbol .colon] .claim
  | proof : ReadsHeader [.keyword .proof, .symbol .colon] .proof
  | know : ReadsHeader [.keyword .know, .symbol .colon] .know
  | knowFact {h f} : ReadsFactHeader h f → ReadsHeader (.keyword .know :: h) (.knowFact f)
  | use {u name value} : Reads .sum u value →
      ReadsHeader (.keyword .use :: .identifier name :: u) (.use name value)
  | exist {u name s} (opens : Bool) : Reads .signature u s →
      ReadsHeader (.keyword .exist :: .identifier name :: u ++ opening opens)
        (.exist ⟨name, s⟩ opens)
  | witness {u c} : Reads .predicate u c →
      ReadsHeader (.keyword .haveKw :: .symbol .dollar :: u ++ [.symbol .colon])
        (.witness ⟨true, c⟩)
  | member {v w name concept self t d} (opens : Bool) : Reads .type v t → Reads .decl w d →
      ReadsHeader
        ((.keyword .member :: .symbol .lbracket :: .identifier name :: .identifier concept ::
          .symbol .rbracket :: .symbol .lparen :: .identifier self :: v ++ .symbol .rparen :: w) ++
          opening opens)
        (.member ⟨name, concept⟩ ⟨self, t⟩ d opens)
  | typeMember {w name concept d} (opens : Bool) : Reads .decl w d →
      ReadsHeader
        ((.keyword .typeMember :: .symbol .lbracket :: .identifier name :: .identifier concept ::
          .symbol .rbracket :: w) ++ opening opens)
        (.typeMember ⟨name, concept⟩ d opens)
  | fact {h f} : ReadsFactHeader h f → ReadsHeader h (.fact f)

namespace Parser

variable {ts : List Lexeme} {hd : Header}

theorem opens_eq_ok {b : Bool} : opens ts = .ok b [] ↔ ts = opening b := by
  rw [opens, skip_eq_ok]
  cases b with
  | true => simp [opening]
  | false =>
    constructor
    · rintro (⟨h, -⟩ | ⟨-, -, h⟩)
      · cases h
      · exact h
    · rintro rfl
      exact .inr ⟨rfl, by simp [opening], rfl⟩

theorem ended_opening {p : Phrase} (hp : p.extendedBy (.symbol .colon) = false) (b : Bool) :
    p.Ended (opening b) := by
  cases b with
  | true => exact hp
  | false => trivial

theorem universalHeader_sound {f : FactHeader} (h : universalHeader ts = .ok f []) :
    ReadsFactHeader ts f := by
  simp only [universalHeader, bind_eq_ok, expect_eq_ok, pure_eq_ok] at h
  obtain ⟨-, ts₁, rfl, ⟨gs, fs⟩, ts₂, hg, ps, ts₃, hp, fs', ts₄, hf, -, ts₅, rfl, rfl, rfl⟩ := h
  obtain ⟨u, rfl, hu⟩ := guardedGenerics_exact.sound hg
  obtain ⟨v, rfl, hv⟩ := params_exact.sound hp
  obtain ⟨w, rfl, hw⟩ := guards_exact.sound hf
  have hq := ReadsFactHeader.universal (Reads.quantifier hu hv hw)
  simpa using hq

theorem universalHeader_eq_ok {u : List Lexeme} {gs : List GenericParam} {ps : List Param}
    {fs : List Fact} (h : Reads .quantifier u (gs, ps, fs)) :
    universalHeader (u ++ [.symbol .colon]) = .ok (.universal gs ps fs) [] := by
  simp only [universalHeader, bind_eq_ok, expect_eq_ok, pure_eq_ok]
  cases h with
  | @quantifier u v w gs ps fs fs' hu hv hw =>
    simp only [List.cons_append, List.append_assoc]
    have hgenerics : Phrase.generics.Ended (v ++ (w ++ [.symbol .colon])) := by
      have hne := hv.head_ne rfl (l := .symbol .lbracket) rfl (w ++ [.symbol .colon])
      cases hvw : v ++ (w ++ [.symbol .colon]) with
      | nil => trivial
      | cons l r =>
        rw [hvw] at hne
        simpa [Phrase.extendedBy] using hne
    have hparams : (Phrase.separated .comma .param).Ended (w ++ [.symbol .colon]) := by
      cases hw <;> rfl
    exact ⟨(), _, rfl, (gs, fs), _, guardedGenerics_exact.eq_ok hu hgenerics, ps, _,
      params_exact.eq_ok hv hparams, fs', _, guards_exact.eq_ok hw rfl, (), _, rfl, rfl, rfl⟩

theorem factHeader_eq_ok {f : FactHeader} : factHeader ts = .ok f [] ↔ ReadsFactHeader ts f := by
  simp only [factHeader, at_bind_ite, fork_eq_ok, bind_eq_ok, pure_eq_ok]
  constructor
  · rintro (⟨-, h⟩ | ⟨-, f, ts', h, rfl, rfl⟩)
    · exact universalHeader_sound h
    · exact .specific (specificFact_exact.eq_ok_nil.mp h)
  · intro h
    cases h with
    | specific h =>
      have hne := h.head_ne rfl (l := .keyword .forallKw) rfl []
      rw [List.append_nil] at hne
      exact .inr ⟨hne, _, [], specificFact_exact.eq_ok_nil.mpr h, rfl, rfl⟩
    | universal h => exact .inl ⟨by cases h; rfl, universalHeader_eq_ok h⟩

theorem conceptHeader_sound (h : conceptHeader ts = .ok hd []) : ReadsHeader ts hd := by
  simp only [conceptHeader, bind_eq_ok,
      expect_eq_ok, identifier_eq_ok, pure_eq_ok] at h
  obtain ⟨-, ts₁, rfl, typeVar, ts₂, rfl, name, ts₃, rfl, b, ts₄, h, rfl, rfl⟩ := h
  rw [opens_eq_ok.mp h]
  exact .concept typeVar name b

theorem typeHeader_sound (h : typeHeader ts = .ok hd []) : ReadsHeader ts hd := by
  simp only [typeHeader, bind_eq_ok, expect_eq_ok, identifier_eq_ok, pure_eq_ok] at h
  obtain ⟨-, ts₁, rfl, name, ts₂, rfl, b, ts₃, h, rfl, rfl⟩ := h
  rw [opens_eq_ok.mp h]
  exact .type name b

theorem propertyHeader_sound (h : propertyHeader ts = .ok hd []) : ReadsHeader ts hd := by
  simp only [propertyHeader, bind_eq_ok, pure_eq_ok] at h
  obtain ⟨d, ts₁, hd, b, ts₂, h, rfl, rfl⟩ := h
  obtain ⟨u, rfl, hu⟩ := propertyDecl_sound hd
  rw [opens_eq_ok.mp h]
  exact .property b hu

theorem fnHeader_sound (h : fnHeader ts = .ok hd []) : ReadsHeader ts hd := by
  simp only [fnHeader, bind_eq_ok, pure_eq_ok] at h
  obtain ⟨d, ts₁, hd, b, ts₂, h, rfl, rfl⟩ := h
  obtain ⟨u, rfl, hu⟩ := fnDecl_sound hd
  rw [opens_eq_ok.mp h]
  exact .fn b hu

theorem varHeader_sound (h : varHeader ts = .ok hd []) : ReadsHeader ts hd := by
  simp only [varHeader, bind_eq_ok, pure_eq_ok] at h
  obtain ⟨ps, ts₁, hd, b, ts₂, h, rfl, rfl⟩ := h
  obtain ⟨u, rfl, hu⟩ := varDecl_sound hd
  rw [opens_eq_ok.mp h]
  exact .var b hu

theorem useHeader_sound (h : useHeader ts = .ok hd []) : ReadsHeader ts hd := by
  simp only [useHeader, bind_eq_ok, expect_eq_ok,
      identifier_eq_ok, pure_eq_ok] at h
  obtain ⟨-, ts₁, rfl, name, ts₂, rfl, t, ts₃, h, rfl, rfl⟩ := h
  exact .use (term_exact.eq_ok_nil.mp h)

theorem knowHeader_sound (h : knowHeader ts = .ok hd []) : ReadsHeader ts hd := by
  simp only [knowHeader, opens, bind_eq_ok, skip_bind_ite,
      branch_eq_ok, expect_eq_ok, pure_eq_ok] at h
  obtain ⟨-, ts₁, rfl, ⟨ts₂, rfl, rfl, rfl⟩ | ⟨-, f, ts₂, h, rfl, rfl⟩⟩ := h
  · exact .know
  · exact .knowFact (factHeader_eq_ok.mp h)

theorem existHeader_sound (h : existHeader ts = .ok hd []) : ReadsHeader ts hd := by
  simp only [existHeader, bind_eq_ok, pure_eq_ok] at h
  obtain ⟨d, ts₁, hd, b, ts₂, h, rfl, rfl⟩ := h
  obtain ⟨u, rfl, hu⟩ := signedName_sound hd
  rw [opens_eq_ok.mp h]
  exact .exist b hu

theorem witnessHeader_sound (h : witnessHeader ts = .ok hd []) : ReadsHeader ts hd := by
  simp only [witnessHeader, bind_eq_ok,
      expect_eq_ok, pure_eq_ok] at h
  obtain ⟨-, ts₁, rfl, ⟨holds, c⟩, ts₂, he, -, ts₃, rfl, rfl, rfl⟩ := h
  obtain ⟨u, rfl, rfl, hu⟩ := Nested.predication_sound full_sound he
  exact .witness hu

theorem owner_eq_ok {rest : List Lexeme} {g : GenericParam} : genericParams ts = .ok [g] rest ↔
    ts = .symbol .lbracket :: .identifier g.name :: .identifier g.concept :: .symbol .rbracket ::
      rest := by
  simp only [genericParams, bind_eq_ok, expect_eq_ok, pure_eq_ok]
  constructor
  · rintro ⟨-, ts₁, rfl, gs, ts₂, h, -, ts₃, rfl, rfl, rfl⟩
    obtain ⟨u, rfl, hu⟩ := genericParams_exact.sound h
    cases hu with
    | one hu => cases hu; rfl
    | more _ hv => cases hv
  · rintro rfl
    have hg :
        Reads (.separated .comma .genericParam) [.identifier g.name, .identifier g.concept] [g] :=
      .one (.genericParam g.name g.concept)
    exact ⟨(), _, rfl, [g], _, genericParams_exact.eq_ok hg rfl, (), rest, rfl, rfl, rfl⟩

theorem self_eq_ok {rest : List Lexeme} {p : Param} : full.valueParams ts = .ok [p] rest ↔
    ∃ v, ts = .symbol .lparen :: .identifier p.name :: v ++ .symbol .rparen :: rest ∧
      Reads .type v p.type := by
  simp only [Nested.valueParams, bind_eq_ok, expect_eq_ok, skip_bind_ite, branch_eq_ok, pure_eq_ok]
  constructor
  · rintro ⟨-, ts₁, rfl, ⟨ts₂, rfl, h, -⟩ | ⟨-, ps, ts₂, h, -, ts₃, rfl, rfl, rfl⟩⟩
    · cases h
    · obtain ⟨u, rfl, hu⟩ := params_exact.sound h
      cases hu with
      | one hu => cases hu with | param hv => exact ⟨_, rfl, hv⟩
      | more _ hv => cases hv
  · rintro ⟨v, rfl, hv⟩
    obtain ⟨n, t⟩ := p
    have hp : Reads (.separated .comma .param) (.identifier n :: v) [⟨n, t⟩] := .one (.param hv)
    exact ⟨(), _, rfl, .inr ⟨by simp, [⟨n, t⟩], _, params_exact.eq_ok hp rfl, (), rest, rfl, rfl,
      rfl⟩⟩

theorem memberHeader_sound (h : memberHeader ts = .ok hd []) : ReadsHeader ts hd := by
  simp only [memberHeader, bind_eq_ok, expect_eq_ok, single_eq_ok, pure_eq_ok] at h
  obtain ⟨-, ts₁, rfl, gs, ts₂, hg, g, _, ⟨rfl, rfl⟩, ps, ts₃, hp, ⟨self, t⟩, _, ⟨rfl, rfl⟩,
    d, ts₄, hd, b, ts₅, h, rfl, rfl⟩ := h
  obtain rfl := owner_eq_ok.mp hg
  obtain ⟨v, rfl, hv⟩ := self_eq_ok.mp hp
  obtain ⟨w, rfl, hw⟩ := decl_exact.sound hd
  have hmember : ReadsHeader _ (.member g ⟨self, t⟩ d b) := .member b hv hw
  rw [opens_eq_ok.mp h]
  simpa [Param.name] using hmember

theorem typeMemberHeader_sound (h : typeMemberHeader ts = .ok hd []) : ReadsHeader ts hd := by
  simp only [typeMemberHeader, bind_eq_ok,
      expect_eq_ok, single_eq_ok, pure_eq_ok] at h
  obtain ⟨-, ts₁, rfl, gs, ts₂, hg, g, _, ⟨rfl, rfl⟩, d, ts₄, hd, b, ts₅, h, rfl, rfl⟩ := h
  obtain rfl := owner_eq_ok.mp hg
  obtain ⟨w, rfl, hw⟩ := decl_exact.sound hd
  rw [opens_eq_ok.mp h]
  exact .typeMember b hw

theorem claimHeader_sound (h : claimHeader ts = .ok hd []) : ReadsHeader ts hd := by
  simp only [claimHeader, bind_eq_ok, expect_eq_ok, pure_eq_ok] at h
  obtain ⟨-, ts₁, rfl, -, ts₂, rfl, rfl, rfl⟩ := h
  exact .claim

theorem proofHeader_sound (h : proofHeader ts = .ok hd []) : ReadsHeader ts hd := by
  simp only [proofHeader, bind_eq_ok, expect_eq_ok, pure_eq_ok] at h
  obtain ⟨-, ts₁, rfl, -, ts₂, rfl, rfl, rfl⟩ := h
  exact .proof

theorem header_sound (h : header ts = .ok hd []) : ReadsHeader ts hd := by
  have hfact (h : (do return Header.fact (← factHeader)) ts = .ok hd []) : ReadsHeader ts hd := by
    simp only [bind_eq_ok, pure_eq_ok] at h
    obtain ⟨f, ts', h, rfl, rfl⟩ := h
    exact .fact (factHeader_eq_ok.mp h)
  cases ts with
  | nil => cases h
  | cons l ts =>
    cases l with
    | identifier n => exact hfact h
    | number n => exact hfact h
    | symbol s => exact hfact h
    | keyword k =>
      cases k with
      | concept => exact conceptHeader_sound h
      | type => exact typeHeader_sound h
      | property => exact propertyHeader_sound h
      | fn => exact fnHeader_sound h
      | var => exact varHeader_sound h
      | claim => exact claimHeader_sound h
      | proof => exact proofHeader_sound h
      | use => exact useHeader_sound h
      | know => exact knowHeader_sound h
      | exist => exact existHeader_sound h
      | haveKw => exact witnessHeader_sound h
      | member => exact memberHeader_sound h
      | typeMember => exact typeMemberHeader_sound h
      | _ => exact hfact h

/-- A fact is not taken for any other statement. -/
theorem header_fact {f : FactHeader} (h : ReadsFactHeader ts f) :
    header ts = (do return Header.fact (← factHeader)) ts := by
  have hbegun : ∃ l ts', ts = l :: ts' ∧
      (Phrase.specific.begins l = true ∨ l = .keyword .forallKw) := by
    cases h with
    | specific h =>
      have hb := h.begun
      cases ts with
      | nil => exact absurd rfl (h.ne_nil rfl)
      | cons l ts => exact ⟨l, ts, rfl, .inl hb⟩
    | universal h => cases h; exact ⟨_, _, rfl, .inr rfl⟩
  obtain ⟨l, ts, rfl, hl⟩ := hbegun
  cases l with
  | keyword k =>
    cases k with
    | not | as | forallKw => rfl
    | _ => rcases hl with hl | hl <;> cases hl
  | _ => rfl

theorem header_complete (h : ReadsHeader ts hd) : header ts = .ok hd [] := by
  cases h with
  | concept typeVar name b =>
    simp only [header, peek_bind, List.cons_append, List.head?_cons, conceptHeader, bind_eq_ok,
      expect_eq_ok, identifier_eq_ok, pure_eq_ok]
    exact ⟨(), _, rfl, typeVar, _, rfl, name, _, rfl, b, _, opens_eq_ok.mpr rfl, rfl, rfl⟩
  | type name b =>
    simp only [header, peek_bind, List.cons_append, List.head?_cons, typeHeader, bind_eq_ok,
      expect_eq_ok, identifier_eq_ok, pure_eq_ok]
    exact ⟨(), _, rfl, name, _, rfl, b, _, opens_eq_ok.mpr rfl, rfl, rfl⟩
  | @property u d b hu =>
    have hheader : header (u ++ opening b) = propertyHeader (u ++ opening b) := by cases hu; rfl
    simp only [hheader, propertyHeader, bind_eq_ok, pure_eq_ok]
    exact ⟨d, _, propertyDecl_eq_ok hu _, b, _, opens_eq_ok.mpr rfl, rfl, rfl⟩
  | @fn u d b hu =>
    have hheader : header (u ++ opening b) = fnHeader (u ++ opening b) := by cases hu; rfl
    simp only [hheader, fnHeader, bind_eq_ok, pure_eq_ok]
    exact ⟨d, _, fnDecl_eq_ok hu _, b, _, opens_eq_ok.mpr rfl, rfl, rfl⟩
  | @var u ps b hu =>
    have hheader : header (u ++ opening b) = varHeader (u ++ opening b) := by cases hu; rfl
    simp only [hheader, varHeader, bind_eq_ok, pure_eq_ok]
    exact ⟨ps, _, varDecl_eq_ok hu (ended_opening rfl b), b, _, opens_eq_ok.mpr rfl, rfl, rfl⟩
  | claim => rfl
  | proof => rfl
  | know => rfl
  | @knowFact u f hf =>
    simp only [header, peek_bind, List.head?_cons, knowHeader, opens, bind_eq_ok, skip_bind_ite,
      branch_eq_ok, expect_eq_ok, pure_eq_ok]
    have hcolon : u.head? ≠ some (.symbol .colon) := hf.head_ne rfl (by simp)
    exact ⟨(), _, rfl, .inr ⟨hcolon, f, _, factHeader_eq_ok.mpr hf, rfl, rfl⟩⟩
  | @use u name t hu =>
    simp only [header, peek_bind, List.head?_cons, useHeader, bind_eq_ok, expect_eq_ok,
      identifier_eq_ok, pure_eq_ok]
    exact ⟨(), _, rfl, name, _, rfl, t, _, term_exact.eq_ok_nil.mpr hu, rfl, rfl⟩
  | @exist u name a b hu =>
    simp only [header, peek_bind, List.cons_append, List.head?_cons, existHeader, bind_eq_ok,
      pure_eq_ok]
    exact ⟨⟨name, a⟩, _, signedName_eq_ok .exist name hu _, b, _, opens_eq_ok.mpr rfl, rfl, rfl⟩
  | @witness u c hu =>
    simp only [header, peek_bind, List.cons_append, List.head?_cons, witnessHeader, bind_eq_ok,
      expect_eq_ok, pure_eq_ok]
    exact ⟨(), _, rfl, ⟨true, c⟩, _,
      Nested.predication_complete (full_complete _) hu rfl (Nat.le_succ _), (), _, rfl, rfl, rfl⟩
  | @member v w name concept self t d b hv hw =>
    simp only [header, peek_bind, List.cons_append, List.head?_cons, memberHeader, bind_eq_ok,
      expect_eq_ok, single_eq_ok, pure_eq_ok, List.append_assoc]
    exact ⟨(), _, rfl, [⟨name, concept⟩], _, owner_eq_ok.mpr rfl, ⟨name, concept⟩, _, ⟨rfl, rfl⟩,
      [⟨self, t⟩], _, self_eq_ok.mpr ⟨v, rfl, hv⟩, ⟨self, t⟩, _, ⟨rfl, rfl⟩, d, _,
      decl_exact.eq_ok hw (ended_opening rfl b), b, _, opens_eq_ok.mpr rfl, rfl, rfl⟩
  | @typeMember w name concept d b hw =>
    simp only [header, peek_bind, List.cons_append, List.head?_cons, typeMemberHeader, bind_eq_ok,
      expect_eq_ok, single_eq_ok, pure_eq_ok]
    exact ⟨(), _, rfl, [⟨name, concept⟩], _, owner_eq_ok.mpr rfl, ⟨name, concept⟩, _, ⟨rfl, rfl⟩, d,
      _, decl_exact.eq_ok hw (ended_opening rfl b), b, _, opens_eq_ok.mpr rfl, rfl, rfl⟩
  | @fact _ f hf =>
    simp only [header_fact hf, bind_eq_ok, pure_eq_ok]
    exact ⟨f, _, factHeader_eq_ok.mpr hf, rfl, rfl⟩

/-- The headers that are accepted are exactly those of the grammar. -/
theorem header_eq_ok : header ts = .ok hd [] ↔ ReadsHeader ts hd := ⟨header_sound, header_complete⟩

theorem head_ne_pub (h : ReadsHeader ts hd) : ts.head? ≠ some (.keyword .pub) := by
  cases h with
  | fact hf => exact hf.head_ne rfl (by simp)
  | property _ hu => cases hu; simp
  | fn _ hu => cases hu; simp
  | var _ hu => cases hu; simp
  | _ => simp

theorem markedHeader_eq_ok {isPublic : Bool} :
    (do return (← skipKeyword .pub, ← header)) ts = .ok (isPublic, hd) [] ↔
      ∃ ts', ts = (if isPublic then [.keyword .pub] else []) ++ ts' ∧ ReadsHeader ts' hd := by
  simp only [bind_eq_ok, skip_eq_ok, pure_eq_ok, Prod.mk.injEq]
  constructor
  · rintro ⟨b, ts₁, hb, hd, ts₂, h, ⟨rfl, rfl⟩, rfl⟩
    obtain ⟨rfl, rfl⟩ | ⟨rfl, -, rfl⟩ := hb
    · exact ⟨ts₁, rfl, header_eq_ok.mp h⟩
    · exact ⟨ts, rfl, header_eq_ok.mp h⟩
  · rintro ⟨ts', rfl, h⟩
    refine ⟨isPublic, ts', ?_, hd, [], header_eq_ok.mpr h, ⟨rfl, rfl⟩, rfl⟩
    cases isPublic with
    | true => exact .inl ⟨rfl, rfl⟩
    | false => exact .inr ⟨rfl, head_ne_pub h, rfl⟩

end Parser

end FactScript
