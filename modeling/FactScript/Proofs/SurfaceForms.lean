import FactScript.Proofs.Placement
import FactScript.Statement.Json

/-!
Things that can be written in more than one way. A fact is a statement, and is known when it stands
behind the word `know` or under it; a property of a term is stated with `is` or with `$`; a proof
alone is a claim without goals; conclusions need no `then` above them. Blocks are told by their
skeletons, so their layout is any.
-/
namespace FactScript

/-! The sorts of facts among the statements. -/

/-- The name of the only field of a document. -/
def Json.tag? : Json → Option String
  | obj [(tag, _)] => some tag
  | _ => none

namespace Statement

variable {s : Statement}

theorem kind_eq_forall_iff : s.kind = "forall" ↔
    ∃ generics params premises conclusions,
      s = .fact (.universal generics params premises conclusions) := by
  cases s with
  | fact f => cases f <;> simp [kind, Fact.isSpecific]
  | _ => simp [kind]

theorem kind_eq_fact_iff : s.kind = "fact" ↔ ∃ f, f.isSpecific = true ∧ s = .fact f := by
  cases s with
  | fact f => cases f <;> simp [kind, Fact.isSpecific]
  | _ => simp [kind]

theorem tag_toJson_fact (f : Fact) :
    (fact f).toJson.tag? = some (if f.isSpecific then "Fact" else "Forall") := by
  cases f <;> rfl

theorem tag_toJson_iff : (s.toJson.tag? = some "Forall" ↔ s.kind = "forall") ∧
    (s.toJson.tag? = some "Fact" ↔ s.kind = "fact") := by
  cases s with
  | fact f => cases f <;> simp [tag_toJson_fact, kind, Fact.isSpecific]
  | _ => simp [toJson, Json.tagged, Json.tag?, kind]

end Statement

theorem ReadsOpening.head?_header {α : Type} {body : List Skeleton → α → Prop} {absent a : α}
    {l : Lexeme} {h : List Lexeme} {k : Skeleton} (ho : ReadsOpening body absent (l :: h) k a) :
    k.header.head? = some l := by
  cases ho <;> rfl

theorem ReadsFact.isSpecific_eq_false_iff {k : Skeleton} {f : Fact} (h : ReadsFact k f) :
    f.isSpecific = false ↔ k.header.head? = some (.keyword .forallKw) := by
  cases h with
  | specific hu =>
    have hspecific : f.isSpecific = true := by cases hu <;> rfl
    have hhead := hu.head_ne (l := .keyword .forallKw) rfl rfl []
    rw [List.append_nil] at hhead
    simpa [hspecific] using hhead
  | universal hu => cases hu; simp [Fact.isSpecific]

theorem ReadsStatement.kind_eq_forall_iff {k : Skeleton} {s : Statement} (h : ReadsStatement k s) :
    s.kind = "forall" ↔ k.header.head? = some (.keyword .forallKw) := by
  cases h with
  | fact hf => simp [Statement.kind, ← hf.isSpecific_eq_false_iff]
  | property hd ho => cases hd; simp [Statement.kind, ho.head?_header]
  | fn hd ho => cases hd; simp [Statement.kind, ho.head?_header]
  | var hd ho => cases hd; simp [Statement.kind, ho.head?_header]
  | concept ho => simp [Statement.kind, ho.head?_header]
  | type ho => simp [Statement.kind, ho.head?_header]
  | exist _ ho => simp [Statement.kind, ho.head?_header]
  | member _ _ ho => simp [Statement.kind, ho.head?_header]
  | typeMember _ ho => simp [Statement.kind, ho.head?_header]
  | claim | proof | use | knowFact | know | witness => simp [Statement.kind, Skeleton.section_]

/-- The first word tells whether a statement is a universal fact. -/
theorem Statement.kind_of_ofBlock {b : Block} {s : Statement} (hb : b.skeleton.Laid)
    (h : Statement.ofBlock b = .ok s) : s.kind = "forall" ↔ b.startsWith .forallKw = true := by
  rw [Block.startsWith_iff, ← b.skeleton_header]
  exact (((Statement.exact b hb).1 s).mp h).kind_eq_forall_iff

/-! Facts as statements. -/

def Skeleton.known (k : Skeleton) : Skeleton := ⟨.keyword .know :: k.header, k.body⟩

section Know

variable {b k : Block} {f : Fact} {s : Statement}

/-- After the word `know` there is a colon and no more, or the first line of a fact. -/
theorem Parser.header_know {ts : List Lexeme} {hd : Header} :
    header (.keyword .know :: ts) = .ok hd [] ↔
      (ts = [.symbol .colon] ∧ hd = .know) ∨ ∃ h, ReadsFactHeader ts h ∧ hd = .knowFact h := by
  constructor
  · intro h
    change knowHeader (.keyword .know :: ts) = .ok hd [] at h
    simp only [knowHeader, opens, bind_eq_ok, skip_bind_ite, branch_eq_ok, expect_eq_ok,
      pure_eq_ok] at h
    obtain ⟨-, ts₁, hts, ⟨ts₂, rfl, rfl, rfl⟩ | ⟨-, h, ts₂, hh, rfl, rfl⟩⟩ := h
    · exact .inl ⟨(List.cons.inj hts).2, rfl⟩
    · rw [(List.cons.inj hts).2]
      exact .inr ⟨h, factHeader_eq_ok.mp hh, rfl⟩
  · rintro (⟨rfl, rfl⟩ | ⟨h, hh, rfl⟩)
    · rfl
    · exact header_eq_ok.mpr (.knowFact hh)

theorem Statement.ofBlock_fact (h : Fact.ofBlock b = .ok f) :
    Statement.ofBlock b = .ok (.fact f) := by
  obtain ⟨hd, hhd, hbuild⟩ := Fact.ofBlock_eq_ok_iff.mp h
  refine Statement.ofBlock_eq_ok_iff.mpr ⟨.fact hd, Parser.header_eq_ok.mpr (.fact hhd), ?_⟩
  rw [Header.build, Header.buildWith, hbuild]
  rfl

theorem Fact.lexemes_head_ne (h : Fact.ofBlock b = .ok f) {l : Lexeme}
    (hspecific : Phrase.specific.begins l = false) (hforall : .keyword .forallKw ≠ l) :
    b.lexemes.head? ≠ some l := by
  obtain ⟨hd, hhd, -⟩ := Fact.ofBlock_eq_ok_iff.mp h
  exact hhd.head_ne hspecific hforall

theorem Statement.ofBlock_known (hk : k.skeleton = b.skeleton.known)
    (hcolon : b.lexemes.head? ≠ some (.symbol .colon)) :
    Statement.ofBlock k = .ok s ↔ ∃ f, Fact.ofBlock b = .ok f ∧ s = .know [f] := by
  have hcolon : b.lexemes ≠ [.symbol .colon] := by
    intro h
    exact hcolon (by rw [h]; rfl)
  -- In the layout of their skeletons, the two blocks have the same body.
  simp only [← Fact.ofBlock_block (b := b)]
  rw [← Statement.ofBlock_block, hk, Skeleton.known]
  simp only [Statement.ofBlock_eq_ok_iff, Fact.ofBlock_eq_ok_iff, Skeleton.lexemes_block,
    Skeleton.body_block, Parser.header_know, Block.skeleton_header, hcolon, false_and, false_or]
  constructor
  · rintro ⟨_, ⟨h, hh, rfl⟩, hbuild⟩
    obtain ⟨f, hf, hs⟩ := exceptBind_eq_ok.mp hbuild
    cases hs
    exact ⟨f, ⟨h, hh, hf⟩, rfl⟩
  · rintro ⟨f, ⟨h, hh, hf⟩, rfl⟩
    exact ⟨.knowFact h, ⟨h, hh, rfl⟩, exceptBind_eq_ok.mpr ⟨f, hf, rfl⟩⟩

theorem Statement.ofBlock_know_section (hk : k.skeleton = .section_ .know [b.skeleton]) :
    Statement.ofBlock k = .ok s ↔ ∃ f, Fact.ofBlock b = .ok f ∧ s = .know [f] := by
  have hheader : Parser.header (Skeleton.section_ .know [b.skeleton]).block.lexemes =
      .ok .know [] := rfl
  simp only [← Fact.ofBlock_block (b := b)]
  rw [← Statement.ofBlock_block, hk, Statement.ofBlock_of_header hheader, Skeleton.body_block,
    Skeleton.body_section]
  simp only [Header.build, Header.buildWith, Skeleton.blocks, Fact.ofBlocks, exceptBind_eq_ok,
    exceptPure_eq_ok]
  constructor
  · rintro ⟨_, ⟨f, hf, _, ⟨⟩, rfl⟩, rfl⟩
    exact ⟨f, hf, rfl⟩
  · rintro ⟨f, hf, rfl⟩
    exact ⟨[f], ⟨f, hf, [], rfl, rfl⟩, rfl⟩

end Know

/-! Properties of a term. -/

def denial : Bool → List Lexeme
  | true => []
  | false => [.keyword .not]

/-- The property `p` of the term `e`, stated with the word `is`. -/
def isForm (p : String) (types e : List Lexeme) : List Lexeme :=
  e ++ .keyword .is :: .identifier p :: types

/-- The property `p` of the term `e`, stated as a call. -/
def callForm (p : String) (types e : List Lexeme) : List Lexeme :=
  .symbol .dollar :: .identifier p :: types ++ .symbol .lparen :: e ++ [.symbol .rparen]

/-- At most one type argument, in brackets. -/
inductive ReadsSoleTypeArg : List Lexeme → List TypeArg → Prop
  | none : ReadsSoleTypeArg [] []
  | one {ts a} : Parser.typeArgs ts = .ok [a] [] → ReadsSoleTypeArg ts [a]

section Properties

variable {p : String} {types e : List Lexeme} {as : List TypeArg} {t : Term}

theorem Reads.isForm (ht : Reads .sum e t) (has : ReadsSoleTypeArg types as) :
    Reads .specific (isForm p types e) (.property true ⟨.atom p, as, [t]⟩) := by
  cases has with
  | none => exact .isA ht
  | one h =>
    cases Parser.typeArgs_exact.eq_ok_nil.mp h with
    | typeArgs ha =>
      cases ha with
      | one ha => simpa [FactScript.isForm] using Reads.isATyped (n := p) ht ha
      | more _ hnone => cases hnone

theorem Reads.callForm (ht : Reads .sum e t) (has : ReadsSoleTypeArg types as) :
    Reads .specific (callForm p types e) (.property true ⟨.atom p, as, [t]⟩) := by
  have hargs : Reads .args (.symbol .lparen :: e ++ [.symbol .rparen]) [t] := .someArgs (.one ht)
  have happlied :
      Reads .applications (types ++ .symbol .lparen :: e ++ [.symbol .rparen]) [(as, [t])] := by
    cases has with
    | none => simpa using Reads.valueApplication hargs .noApplications
    | one h =>
      simpa using Reads.fullApplication (Parser.typeArgs_exact.eq_ok_nil.mp h) hargs .noApplications
  exact .predication (.solePredicate (.segment happlied))

theorem Reads.denial {u : List Lexeme} {c : Call} (h : Reads .specific u (.property true c))
    (holds : Bool) :
    Reads .specific (denial holds ++ u) (.property holds c) := by
  cases holds with
  | true => exact h
  | false => exact .deniedProperty h

/-- Either form states the property, and denies it with the word `not` before it. -/
theorem Reads.property_form (ht : Reads .sum e t) (has : ReadsSoleTypeArg types as) (holds : Bool)
    {form : List Lexeme}
    (hform : form ∈ [FactScript.isForm p types e, FactScript.callForm p types e]) :
    Reads .specific (FactScript.denial holds ++ form) (.property holds ⟨.atom p, as, [t]⟩) := by
  simp only [List.mem_cons, List.not_mem_nil, or_false] at hform
  rcases hform with rfl | rfl
  · exact (Reads.isForm ht has).denial holds
  · exact (Reads.callForm ht has).denial holds

end Properties

/-! Proofs without goals. -/

theorem Statement.ofBlock_proof {b b' : Block} {body : List Skeleton} {s : Statement}
    (hb : b.skeleton = .section_ .proof body)
    (hb' : b'.skeleton = .section_ .claim [.section_ .proof body]) :
    Statement.ofBlock b = .ok s ↔ Statement.ofBlock b' = .ok s := by
  have hproof : Parser.header (Skeleton.section_ .proof body).block.lexemes = .ok .proof [] := rfl
  have hclaim : Parser.header (Skeleton.section_ .claim [.section_ .proof body]).block.lexemes =
      .ok .claim [] := rfl
  have hend : Block.endInProof (Skeleton.blocks [.section_ .proof body]) = true := rfl
  rw [← Statement.ofBlock_block, ← Statement.ofBlock_block (b := b'), hb, hb',
    Statement.ofBlock_of_header hproof, Statement.ofBlock_of_header hclaim]
  simp only [Skeleton.body_block, Skeleton.body_section, Header.build, Header.buildWith, hend,
    if_true]
  simp only [Skeleton.blocks, Statement.goalsAndProof_alone, exceptBind_eq_ok, exceptMap_eq_ok,
    exceptPure_eq_ok, Block.readSection_eq_ok, Skeleton.lexemes_block, Skeleton.header_section,
    Skeleton.body_block, Skeleton.body_section, true_and]
  constructor
  · rintro ⟨proof, hproof, rfl⟩
    exact ⟨_, ⟨proof, hproof, rfl⟩, rfl⟩
  · rintro ⟨_, ⟨proof, hproof, rfl⟩, rfl⟩
    exact ⟨proof, hproof, rfl⟩

/-! Conclusions without a section of their own. -/

def Skeleton.Bare (k : Skeleton) : Prop :=
  k.header.head? ≠ some (.keyword .ifKw) ∧ k.header.head? ≠ some (.keyword .thenKw)

theorem Fact.skeleton_bare {b : Block} {f : Fact} (h : Fact.ofBlock b = .ok f) :
    b.skeleton.Bare := by
  rw [Skeleton.Bare, Block.skeleton_header]
  exact ⟨Fact.lexemes_head_ne h rfl (by simp), Fact.lexemes_head_ne h rfl (by simp)⟩

section Conclusions

variable {ks : List Skeleton}

theorem Fact.ifThen_section (hks : ∀ k ∈ ks, k.Bare) (a : List Fact × List Fact) :
    Fact.ifThen (Skeleton.blocks ks) = .ok a ↔
      Fact.ifThen (Skeleton.blocks [.section_ .thenKw ks]) = .ok a := by
  obtain ⟨premises, conclusions⟩ := a
  have hthen : (Skeleton.section_ .thenKw ks).block.startsWith .thenKw = true := rfl
  have hsection : Fact.ifThen (Skeleton.blocks [.section_ .thenKw ks]) =
      .ok (premises, conclusions) ↔
      premises = [] ∧ Fact.ofBlocks (Skeleton.blocks ks) = .ok conclusions := by
    rw [Skeleton.blocks, Fact.ifThen_of_then hthen]
    simp [Skeleton.blocks]
  rw [hsection]
  -- Only the first block tells whether there are sections.
  cases ks with
  | nil =>
    constructor
    · rintro ⟨⟩
      exact ⟨rfl, rfl⟩
    · rintro ⟨rfl, ⟨⟩⟩
      rfl
  | cons k ks =>
    obtain ⟨hi, ht⟩ := hks k List.mem_cons_self
    rw [Skeleton.blocks, Fact.ifThen_of_bare]
    · simpa [Block.startsWith] using hi
    · simpa [Block.startsWith] using ht

theorem FactHeader.build_section (hks : ∀ k ∈ ks, k.Bare) (hd : FactHeader) (f : Fact) :
    hd.build (Skeleton.blocks ks) = .ok f ↔
      hd.build (Skeleton.blocks [.section_ .thenKw ks]) = .ok f := by
  cases hd with
  | specific fact => rfl
  | universal gs ps guards =>
    simp only [FactHeader.build, exceptBind_eq_ok, Fact.ifThen_section hks]

theorem Header.build_section (hks : ∀ k ∈ ks, k.Bare) {ts : List Lexeme} {hd : Header}
    (hhd : Parser.header ts = .ok hd [])
    (hts : ∃ k ∈ [Keyword.forallKw, .property, .fn], ts.head? = some (.keyword k)) (s : Statement) :
    hd.build (Skeleton.blocks ks) = .ok s ↔
      hd.build (Skeleton.blocks [.section_ .thenKw ks]) = .ok s := by
  obtain ⟨k, hk, hts⟩ := hts
  simp only [List.mem_cons, List.not_mem_nil, or_false] at hk
  simp only [Parser.header, Parser.peek_bind, hts] at hhd
  rcases hk with rfl | rfl | rfl
  · simp only [Parser.bind_eq_ok, Parser.pure_eq_ok] at hhd
    obtain ⟨f, ts₁, -, rfl, -⟩ := hhd
    simp only [Header.build, Header.buildWith, exceptBind_eq_ok, FactHeader.build_section hks]
  · simp only [Parser.propertyHeader, Parser.bind_eq_ok, Parser.pure_eq_ok] at hhd
    obtain ⟨decl, ts₁, -, opens, ts₂, -, rfl, -⟩ := hhd
    cases opens with
    | false => rfl
    | true =>
      simp only [Header.build, Header.buildWith, if_true, exceptBind_eq_ok, Fact.ifThen_section hks]
  · simp only [Parser.fnHeader, Parser.bind_eq_ok, Parser.pure_eq_ok] at hhd
    obtain ⟨decl, ts₁, -, opens, ts₂, -, rfl, -⟩ := hhd
    cases opens with
    | false => rfl
    | true =>
      simp only [Header.build, Header.buildWith, if_true, exceptBind_eq_ok, Fact.ifThen_section hks]

variable {b b' : Block} {ts : List Lexeme}

theorem Fact.ofBlock_section (hks : ∀ k ∈ ks, k.Bare) (hb : b.skeleton = ⟨ts, ks⟩)
    (hb' : b'.skeleton = ⟨ts, [.section_ .thenKw ks]⟩) (f : Fact) :
    Fact.ofBlock b = .ok f ↔ Fact.ofBlock b' = .ok f := by
  rw [← Fact.ofBlock_block, ← Fact.ofBlock_block (b := b'), hb, hb']
  simp only [Fact.ofBlock_eq_ok_iff, Skeleton.lexemes_block, Skeleton.body_block,
    FactHeader.build_section hks]

theorem Statement.ofBlock_section (hks : ∀ k ∈ ks, k.Bare) (hb : b.skeleton = ⟨ts, ks⟩)
    (hb' : b'.skeleton = ⟨ts, [.section_ .thenKw ks]⟩)
    (hts : ∃ k ∈ [Keyword.forallKw, .property, .fn], ts.head? = some (.keyword k)) (s : Statement) :
    Statement.ofBlock b = .ok s ↔ Statement.ofBlock b' = .ok s := by
  rw [← Statement.ofBlock_block, ← Statement.ofBlock_block (b := b'), hb, hb']
  simp only [Statement.ofBlock_eq_ok_iff, Skeleton.lexemes_block, Skeleton.body_block]
  exact exists_congr fun hd => and_congr_right fun hhd => Header.build_section hks hhd hts s

end Conclusions

/-- Facts behind the word `know` and under it, properties stated with `is` and with `$`, proofs with
and without `claim`, and conclusions with and without `then`: each of two ways of writing gives the
same. -/
theorem surface_forms_agree :
    (∀ b f, Fact.ofBlock b = .ok f → Statement.ofBlock b = .ok (.fact f) ∧
      ∀ k : Block, k.skeleton = b.skeleton.known ∨ k.skeleton = .section_ .know [b.skeleton] →
        Statement.ofBlock k = .ok (.know [f])) ∧
    (∀ b k : Block, k.skeleton = b.skeleton.known ∧ b.lexemes.head? ≠ some (.symbol .colon) ∨
        k.skeleton = .section_ .know [b.skeleton] →
      ∀ s, Statement.ofBlock k = .ok s → ∃ f, Fact.ofBlock b = .ok f ∧ s = .know [f]) ∧
    (∀ p e t types as holds, Parser.term e = .ok t [] → ReadsSoleTypeArg types as →
      ∀ form ∈ [isForm p types e, callForm p types e],
        (∀ rest, Phrase.specific.Ended rest →
          Parser.full.specificFact (denial holds ++ form ++ rest) =
            .ok (.property holds ⟨.atom p, as, [t]⟩) rest) ∧
        ∀ b : Block, b.lexemes = denial holds ++ form →
          Fact.ofBlock b = .ok (.property holds ⟨.atom p, as, [t]⟩)) ∧
    (∀ body, ∀ b b' : Block, b.skeleton = .section_ .proof body →
      b'.skeleton = .section_ .claim [.section_ .proof body] →
      ∀ s, Statement.ofBlock b = .ok s ↔ Statement.ofBlock b' = .ok s) ∧
    (∀ b f, Fact.ofBlock b = .ok f → b.skeleton.Bare) ∧
    (∀ ts ks, (∀ k ∈ ks, k.Bare) → ∀ b b' : Block, b.skeleton = ⟨ts, ks⟩ →
      b'.skeleton = ⟨ts, [.section_ .thenKw ks]⟩ →
      (∀ f, Fact.ofBlock b = .ok f ↔ Fact.ofBlock b' = .ok f) ∧
      ((∃ k ∈ [Keyword.forallKw, .property, .fn], ts.head? = some (.keyword k)) →
        ∀ s, Statement.ofBlock b = .ok s ↔ Statement.ofBlock b' = .ok s)) := by
  refine ⟨?_, ?_, ?_, ?_, ?_, ?_⟩
  · intro b f hf
    refine ⟨Statement.ofBlock_fact hf, ?_⟩
    rintro k (hk | hk)
    · exact (Statement.ofBlock_known hk (Fact.lexemes_head_ne hf rfl (by simp))).mpr ⟨f, hf, rfl⟩
    · exact (Statement.ofBlock_know_section hk).mpr ⟨f, hf, rfl⟩
  · rintro b k (⟨hk, hcolon⟩ | hk) s hs
    · exact (Statement.ofBlock_known hk hcolon).mp hs
    · exact (Statement.ofBlock_know_section hk).mp hs
  · intro p e t types as holds ht has form hform
    rw [Parser.term_exact.eq_ok_nil] at ht
    have hreads := Reads.property_form ht has holds hform
    refine ⟨fun rest hrest => Parser.specificFact_exact.eq_ok hreads hrest, fun b hb => ?_⟩
    rw [← hb] at hreads
    exact Fact.ofBlock_eq_ok_iff.mpr ⟨_, .specific hreads, rfl⟩
  · intro body b b' hb hb' s
    exact Statement.ofBlock_proof hb hb'
  · intro b f hf
    exact Fact.skeleton_bare hf
  · intro ts ks hks b b' hb hb'
    exact ⟨Fact.ofBlock_section hks hb hb', Statement.ofBlock_section hks hb hb'⟩

/-- The fact `not x is p[T]` in each of its forms, a universal fact with the conclusion `x is p`,
and a proof with the single step `x is p`. -/
theorem surface_forms_agree_denied :
    (∃ f, Fact.ofBlock (Skeleton.block
        ⟨[.keyword .not, .identifier "x", .keyword .is, .identifier "p", .symbol .lbracket,
          .identifier "T", .symbol .rbracket], []⟩) = .ok f ∧
      Fact.ofBlock (Skeleton.block
        ⟨[.keyword .not, .symbol .dollar, .identifier "p", .symbol .lbracket, .identifier "T",
          .symbol .rbracket, .symbol .lparen, .identifier "x", .symbol .rparen], []⟩) = .ok f ∧
      Statement.ofBlock (Skeleton.block
        ⟨[.keyword .know, .keyword .not, .identifier "x", .keyword .is, .identifier "p",
          .symbol .lbracket, .identifier "T", .symbol .rbracket], []⟩) = .ok (.know [f])) ∧
    (∃ f, Fact.ofBlock
        (Skeleton.block ⟨[.identifier "x", .keyword .is, .identifier "p"], []⟩) = .ok f ∧
      Statement.ofBlock (Skeleton.section_ .know
        [⟨[.identifier "x", .keyword .is, .identifier "p"], []⟩]).block = .ok (.know [f])) ∧
    (∃ s, Statement.ofBlock (Skeleton.block
        ⟨[.keyword .forallKw, .identifier "x", .identifier "T", .symbol .colon],
          [⟨[.identifier "x", .keyword .is, .identifier "p"], []⟩]⟩) = .ok s ∧
      Statement.ofBlock (Skeleton.block
        ⟨[.keyword .forallKw, .identifier "x", .identifier "T", .symbol .colon],
          [.section_ .thenKw [⟨[.identifier "x", .keyword .is, .identifier "p"], []⟩]]⟩) = .ok s) ∧
    ∃ s, Statement.ofBlock (Skeleton.section_ .proof
        [⟨[.identifier "x", .keyword .is, .identifier "p"], []⟩]).block = .ok s ∧
      Statement.ofBlock (Skeleton.section_ .claim [.section_ .proof
        [⟨[.identifier "x", .keyword .is, .identifier "p"], []⟩]]).block = .ok s := by
  obtain ⟨hfact, hknown, hproperty, hproof, hbare, hthen⟩ := surface_forms_agree
  have hforms := hproperty "p" [.identifier "x"] (.atom "x")
    [.symbol .lbracket, .identifier "T", .symbol .rbracket] [.plain "T"] false rfl (.one rfl)
  refine ⟨?_, ?_, ?_, ?_⟩
  · have his := (hforms _ List.mem_cons_self).2 _ (Skeleton.lexemes_block ⟨_, []⟩)
    have hcall :=
      (hforms _ (List.mem_cons_of_mem _ List.mem_cons_self)).2 _ (Skeleton.lexemes_block ⟨_, []⟩)
    refine ⟨_, his, hcall, (hfact _ _ his).2 _ (.inl ?_)⟩
    rw [Skeleton.skeleton_block, Skeleton.skeleton_block]
    rfl
  · obtain ⟨f, hf, hknow⟩ :=
      hknown (Skeleton.block ⟨[.identifier "x", .keyword .is, .identifier "p"], []⟩)
      (Skeleton.section_ .know [⟨[.identifier "x", .keyword .is, .identifier "p"], []⟩]).block
      (.inr (by simp)) _ rfl
    exact ⟨f, hf, hknow ▸ rfl⟩
  · refine ⟨_, rfl, ?_⟩
    refine ((hthen _ [⟨[.identifier "x", .keyword .is, .identifier "p"], []⟩] ?_ _ _
      (Skeleton.skeleton_block _) (Skeleton.skeleton_block _)).2 ⟨.forallKw, by simp, rfl⟩ _).mp rfl
    intro k hk
    obtain rfl := List.mem_singleton.mp hk
    have hk := hbare (Skeleton.block ⟨[.identifier "x", .keyword .is, .identifier "p"], []⟩) _ rfl
    rwa [Skeleton.skeleton_block] at hk
  · refine ⟨_, rfl, ?_⟩
    exact (hproof _ _ _ (Skeleton.skeleton_block _) (Skeleton.skeleton_block _) _).mp rfl

end FactScript
