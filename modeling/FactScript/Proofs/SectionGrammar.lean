import FactScript.Proofs.BlockGrammar

/-!
Bodies that are made of lines, and bodies that are made of sections. The sections of a body are read
one by one into a record that starts out empty; the invariant of that loop (`Slot`) says for each
field whether its section is still to come.
-/
namespace FactScript

theorem mapM_eq_ok {ε α β : Type} {f : α → Except ε β} {as : List α} {bs : List β} :
    as.mapM f = .ok bs ↔ List.Forall₂ (fun a b => f a = .ok b) as bs := by
  induction as generalizing bs with
  | nil => rw [List.mapM_nil, exceptPure_eq_ok, List.forall₂_nil_left_iff, eq_comm]
  | cons a as ih =>
    simp only [List.mapM_cons, exceptBind_eq_ok, exceptPure_eq_ok, ih, List.forall₂_cons_left_iff]
    constructor
    · rintro ⟨b, hb, bs, hbs, rfl⟩
      exact ⟨b, bs, hb, hbs, rfl⟩
    · rintro ⟨b, bs, hb, hbs, rfl⟩
      exact ⟨b, hb, bs, hbs, rfl⟩

theorem exists_mapM_eq_ok {ε α β : Type} {f : α → Except ε β} {as : List α} :
    (∃ bs, as.mapM f = .ok bs) ↔ ∀ a ∈ as, ∃ b, f a = .ok b := by
  induction as with
  | nil => simp [exceptPure_eq_ok]
  | cons a as ih =>
    rw [List.forall_mem_cons, ← ih]
    simp only [List.mapM_cons, exceptBind_eq_ok, exceptPure_eq_ok]
    constructor
    · rintro ⟨-, b, hb, bs, hbs, -⟩
      exact ⟨⟨b, hb⟩, bs, hbs⟩
    · rintro ⟨⟨b, hb⟩, bs, hbs⟩
      exact ⟨_, b, hb, bs, hbs, rfl⟩

section Lines

variable [Alphabet] {bs : List Block}

theorem Block.readLines_eq_ok {p : Phrase} {q : Parser p.Meaning} {as : List p.Meaning}
    (hq : q.Exact p) (hp : p.NoColon) (hbs : ∀ b ∈ bs, b.skeleton.Laid) :
    bs.mapM (·.readLine q) = .ok as ↔ ReadsLines p (skeletons bs) as := by
  rw [mapM_eq_ok, ReadsLines, skeletons_eq_map, List.forall₂_map_left_iff]
  induction bs generalizing as with
  | nil => simp
  | cons b bs ih =>
    obtain ⟨hb, hbs⟩ := List.forall_mem_cons.mp hbs
    simp only [List.forall₂_cons_left_iff, readLine_iff hq hp hb, ih hbs]

theorem Decl.ofBlocks_eq_ok {ds : List Decl} (hbs : ∀ b ∈ bs, b.skeleton.Laid) :
    Decl.ofBlocks bs = .ok ds ↔ ReadsLines .decl (Block.skeletons bs) ds :=
  Block.readLines_eq_ok Parser.decl_exact trivial hbs

theorem Members.ofBlocks_eq_ok {m : Members} (hbs : ∀ b ∈ bs, b.skeleton.Laid) :
    Members.ofBlocks bs = .ok m ↔ ReadsMembers (Block.skeletons bs) m := by
  simp only [Members.ofBlocks, exceptMap_eq_ok, Decl.ofBlocks_eq_ok hbs, ReadsMembers]

theorem Block.names_eq_ok {names : List String} (hbs : ∀ b ∈ bs, b.skeleton.Laid) :
    Block.names bs = .ok names ↔ ReadsNames (skeletons bs) names := by
  have hlines (lines : List (List String)) :
      bs.mapM (·.readLine Parser.names) = .ok lines ↔
        ReadsLines (.separated .comma .name) (skeletons bs) lines :=
    Block.readLines_eq_ok Parser.names_exact ⟨nofun, trivial⟩ hbs
  simp only [Block.names, exceptMap_eq_ok, hlines, ReadsNames]

end Lines

/-! Sections. -/

theorem Block.readSection_iff {α : Type} {b : Block} {k : Keyword} {parse : Except ParseError α}
    {a : α} {body : List Skeleton → α → Prop} (h : parse = .ok a ↔ body (skeletons b.body) a) :
    b.readSection k (fun _ => parse) = .ok a ↔ ∃ ks, b.skeleton = .section_ k ks ∧ body ks a := by
  rw [readSection_eq_ok, h]
  simp only [skeleton_eq_section]
  constructor
  · rintro ⟨hts, ha⟩
    exact ⟨_, ⟨hts, rfl⟩, ha⟩
  · rintro ⟨ks, ⟨hts, rfl⟩, ha⟩
    exact ⟨hts, ha⟩

theorem Block.startsWith_of_section {b : Block} {k : Keyword} {ks : List Skeleton}
    (h : b.skeleton = .section_ k ks) : b.startsWith k = true := by
  rw [startsWith_iff, (skeleton_eq_section.mp h).1]
  rfl

theorem Sectioned.keyword_eq_ok {host : Sectioned} {allowed seen : List Keyword} {b : Block}
    {k : Keyword} :
    host.keyword allowed seen b = .ok k ↔ k ∈ allowed ∧ b.startsWith k = true ∧ k ∉ seen := by
  have hunique {j : Keyword} (hj : b.startsWith j = true) (hk : b.startsWith k = true) : j = k := by
    rw [Block.startsWith_iff] at hj hk
    simpa [hj] using hk
  unfold Sectioned.keyword
  cases hfind : allowed.find? b.startsWith with
  | none =>
    rw [List.find?_eq_none] at hfind
    constructor
    · nofun
    · rintro ⟨hmem, hk, -⟩
      exact absurd hk (hfind k hmem)
  | some j =>
    have hj := List.find?_some hfind
    have hmem := List.mem_of_find?_eq_some hfind
    by_cases hseen : j ∈ seen
    · simp only [List.contains_eq_mem, hseen, decide_true, if_true]
      constructor
      · nofun
      · rintro ⟨-, hk, hns⟩
        exact absurd (hunique hj hk ▸ hseen) hns
    · simp only [List.contains_eq_mem, hseen, decide_false, Bool.false_eq_true, if_false]
      constructor
      · rintro ⟨⟩
        exact ⟨hmem, hj, hseen⟩
      · rintro ⟨-, hk, -⟩
        rw [hunique hj hk]

/-- Of the sections to come, those headed by `k` change a field from `start` to `a`; there is none
if `k` has been seen. -/
def Slot {α : Type} (seen : List Keyword) (k : Keyword) (body : List Skeleton → α → Prop)
    (start : α) (ks : List Skeleton) (a : α) : Prop :=
  (k ∈ seen → ks = []) ∧ ReadsSection k body start ks a

namespace Slot

variable {α : Type} {seen : List Keyword} {j k : Keyword} {body : List Skeleton → α → Prop}
  {start a : α} {ks : List Skeleton}

theorem nil_iff : Slot seen k body start [] a ↔ a = start := by
  constructor
  · rintro ⟨-, ⟨⟩⟩
    rfl
  · rintro rfl
    exact ⟨fun _ => rfl, .absent⟩

theorem of_cons (h : Slot (j :: seen) k body start ks a) : Slot seen k body start ks a :=
  ⟨fun hk => h.1 (List.mem_cons_of_mem j hk), h.2⟩

theorem cons_of_ne (h : Slot seen k body start ks a) (hjk : k ≠ j) :
    Slot (j :: seen) k body start ks a :=
  ⟨fun hk => h.1 ((List.mem_cons.mp hk).resolve_left hjk), h.2⟩

/-- Once its section has been read, a field does not change. -/
theorem eq_of_seen (h : Slot (k :: seen) k body start ks a) : ks = [] ∧ a = start := by
  obtain rfl := h.1 List.mem_cons_self
  exact ⟨rfl, nil_iff.mp h⟩

theorem singleton (hk : k ∉ seen) {body' : List Skeleton} (h : body body' a) :
    Slot seen k body start [.section_ k body'] a :=
  ⟨fun h => absurd h hk, .present h⟩

theorem of_mem {x : Skeleton} (h : Slot seen k body start ks a) (hx : x ∈ ks) :
    k ∉ seen ∧ ∃ body', x = .section_ k body' ∧ ks = [x] ∧ body body' a := by
  obtain ⟨hseen, hs⟩ := h
  cases hs with
  | absent => cases hx
  | present hb =>
    obtain rfl := List.mem_singleton.mp hx
    exact ⟨fun hk => absurd (hseen hk) (by simp), _, rfl, rfl, hb⟩

end Slot

theorem perm_cons_middle {x : Skeleton} {ks l r : List Skeleton} :
    (x :: ks).Perm (l ++ x :: r) ↔ ks.Perm (l ++ r) :=
  ⟨fun h => (h.trans List.perm_middle).cons_inv, fun h => (h.cons x).trans List.perm_middle.symm⟩

namespace ConceptBody

/-- What the sections still to come make of the record. -/
def Slots (seen : List Keyword) (c : ConceptBody) (ks : List Skeleton) (c' : ConceptBody) : Prop :=
  ∃ i t m f, ks.Perm (i ++ t ++ m ++ f) ∧ Slot seen .inherit ReadsNames c.inherits i c'.inherits ∧
    Slot seen .typeMember ReadsMembers c.typeMembers t c'.typeMembers ∧
    Slot seen .member ReadsMembers c.members m c'.members ∧
    Slot seen .thenKw ReadsFacts c.facts f c'.facts

variable {host : Sectioned} {seen : List Keyword} {c c' : ConceptBody} {b : Block} {bs : List Block}

theorem slots_nil : Slots seen c [] c' ↔ c = c' := by
  constructor
  · rintro ⟨i, t, m, f, hperm, hi, ht, hm, hf⟩
    have hnil := hperm.nil_eq
    simp only [List.nil_eq, List.append_eq_nil_iff] at hnil
    obtain ⟨⟨⟨rfl, rfl⟩, rfl⟩, rfl⟩ := hnil
    cases c
    cases c'
    simp_all [Slot.nil_iff]
  · rintro rfl
    exact ⟨[], [], [], [], .nil, Slot.nil_iff.mpr rfl, Slot.nil_iff.mpr rfl, Slot.nil_iff.mpr rfl,
      Slot.nil_iff.mpr rfl⟩

variable [Alphabet]

theorem withSection_inherit (hb : b.skeleton.Laid) : c.withSection .inherit b = .ok c' ↔
    ∃ v, (∃ ks, b.skeleton = .section_ .inherit ks ∧ ReadsNames ks v) ∧
      { c with inherits := v } = c' := by
  simp only [withSection, exceptBind_eq_ok, exceptPure_eq_ok,
    Block.readSection_iff (Block.names_eq_ok (Block.laid_body hb))]

theorem withSection_typeMember (hb : b.skeleton.Laid) : c.withSection .typeMember b = .ok c' ↔
    ∃ v, (∃ ks, b.skeleton = .section_ .typeMember ks ∧ ReadsMembers ks v) ∧
      { c with typeMembers := v } = c' := by
  simp only [withSection, exceptBind_eq_ok, exceptPure_eq_ok,
    Block.readSection_iff (Members.ofBlocks_eq_ok (Block.laid_body hb))]

theorem withSection_member (hb : b.skeleton.Laid) : c.withSection .member b = .ok c' ↔
    ∃ v, (∃ ks, b.skeleton = .section_ .member ks ∧ ReadsMembers ks v) ∧
      { c with members := v } = c' := by
  simp only [withSection, exceptBind_eq_ok, exceptPure_eq_ok,
    Block.readSection_iff (Members.ofBlocks_eq_ok (Block.laid_body hb))]

theorem withSection_then (hb : b.skeleton.Laid) : c.withSection .thenKw b = .ok c' ↔
    ∃ v, (∃ ks, b.skeleton = .section_ .thenKw ks ∧ ReadsFacts ks v) ∧
      { c with facts := v } = c' := by
  simp only [withSection, exceptBind_eq_ok, exceptPure_eq_ok,
    Block.readSection_iff (Fact.ofBlocks_eq_ok (Block.laid_body hb))]

/-- The first section fills its field, and the rest goes on from there. -/
theorem slots_of_withSection {k : Keyword} {c₁ : ConceptBody} {ks : List Skeleton}
    (hb : b.skeleton.Laid) (hk : k ∈ keywords) (hseen : k ∉ seen) (hc : c.withSection k b = .ok c₁)
    (h : Slots (k :: seen) c₁ ks c') : Slots seen c (b.skeleton :: ks) c' := by
  obtain ⟨i, t, m, f, hperm, hi, ht, hm, hf⟩ := h
  simp only [keywords, List.mem_cons, List.not_mem_nil, or_false] at hk
  obtain rfl | rfl | rfl | rfl := hk
  · obtain ⟨v, ⟨ks', hsec, hv⟩, rfl⟩ := (withSection_inherit hb).mp hc
    obtain ⟨rfl, heq⟩ := hi.eq_of_seen
    refine ⟨[b.skeleton], t, m, f, by simpa using hperm, ?_, ht.of_cons, hm.of_cons, hf.of_cons⟩
    rw [hsec, heq]
    exact .singleton hseen hv
  · obtain ⟨v, ⟨ks', hsec, hv⟩, rfl⟩ := (withSection_typeMember hb).mp hc
    obtain ⟨rfl, heq⟩ := ht.eq_of_seen
    refine ⟨i, [b.skeleton], m, f, ?_, hi.of_cons, ?_, hm.of_cons, hf.of_cons⟩
    · simp only [List.append_assoc, List.singleton_append, List.nil_append] at hperm ⊢
      exact perm_cons_middle.mpr hperm
    · rw [hsec, heq]
      exact .singleton hseen hv
  · obtain ⟨v, ⟨ks', hsec, hv⟩, rfl⟩ := (withSection_member hb).mp hc
    obtain ⟨rfl, heq⟩ := hm.eq_of_seen
    refine ⟨i, t, [b.skeleton], f, ?_, hi.of_cons, ht.of_cons, ?_, hf.of_cons⟩
    · rw [List.append_assoc _ _ f]
      exact perm_cons_middle.mpr (by simpa using hperm)
    · rw [hsec, heq]
      exact .singleton hseen hv
  · obtain ⟨v, ⟨ks', hsec, hv⟩, rfl⟩ := (withSection_then hb).mp hc
    obtain ⟨rfl, heq⟩ := hf.eq_of_seen
    refine ⟨i, t, m, [b.skeleton], ?_, hi.of_cons, ht.of_cons, hm.of_cons, ?_⟩
    · exact perm_cons_middle.mpr (by simpa using hperm)
    · rw [hsec, heq]
      exact .singleton hseen hv

theorem withSection_of_slots {ks : List Skeleton} (hb : b.skeleton.Laid)
    (h : Slots seen c (b.skeleton :: ks) c') :
    ∃ k, (k ∈ keywords ∧ b.startsWith k = true ∧ k ∉ seen) ∧
      ∃ c₁, c.withSection k b = .ok c₁ ∧ Slots (k :: seen) c₁ ks c' := by
  obtain ⟨i, t, m, f, hperm, hi, ht, hm, hf⟩ := h
  have hmem : b.skeleton ∈ i ++ t ++ m ++ f := hperm.subset List.mem_cons_self
  simp only [List.mem_append] at hmem
  rcases hmem with ((hmem | hmem) | hmem) | hmem
  · obtain ⟨hseen, ks', hsec, rfl, hv⟩ := hi.of_mem hmem
    refine ⟨.inherit, ⟨by decide, Block.startsWith_of_section hsec, hseen⟩, _,
      (withSection_inherit hb).mpr ⟨_, ⟨ks', hsec, hv⟩, rfl⟩, [], t, m, f, by simpa using hperm,
      Slot.nil_iff.mpr rfl, ht.cons_of_ne nofun, hm.cons_of_ne nofun, hf.cons_of_ne nofun⟩
  · obtain ⟨hseen, ks', hsec, rfl, hv⟩ := ht.of_mem hmem
    refine ⟨.typeMember, ⟨by decide, Block.startsWith_of_section hsec, hseen⟩, _,
      (withSection_typeMember hb).mpr ⟨_, ⟨ks', hsec, hv⟩, rfl⟩, i, [], m, f, ?_,
      hi.cons_of_ne nofun, Slot.nil_iff.mpr rfl, hm.cons_of_ne nofun, hf.cons_of_ne nofun⟩
    simp only [List.append_assoc, List.singleton_append, List.nil_append] at hperm ⊢
    exact perm_cons_middle.mp hperm
  · obtain ⟨hseen, ks', hsec, rfl, hv⟩ := hm.of_mem hmem
    refine ⟨.member, ⟨by decide, Block.startsWith_of_section hsec, hseen⟩, _,
      (withSection_member hb).mpr ⟨_, ⟨ks', hsec, hv⟩, rfl⟩, i, t, [], f, ?_,
      hi.cons_of_ne nofun, ht.cons_of_ne nofun, Slot.nil_iff.mpr rfl, hf.cons_of_ne nofun⟩
    rw [List.append_assoc _ _ f] at hperm
    simpa using perm_cons_middle.mp hperm
  · obtain ⟨hseen, ks', hsec, rfl, hv⟩ := hf.of_mem hmem
    refine ⟨.thenKw, ⟨by decide, Block.startsWith_of_section hsec, hseen⟩, _,
      (withSection_then hb).mpr ⟨_, ⟨ks', hsec, hv⟩, rfl⟩, i, t, m, [], ?_,
      hi.cons_of_ne nofun, ht.cons_of_ne nofun, hm.cons_of_ne nofun, Slot.nil_iff.mpr rfl⟩
    exact perm_cons_middle.mp hperm

theorem addSections_eq_ok (hbs : ∀ b ∈ bs, b.skeleton.Laid) :
    addSections host seen c bs = .ok c' ↔ Slots seen c (Block.skeletons bs) c' := by
  induction bs generalizing seen c with
  | nil =>
    rw [addSections, Block.skeletons, slots_nil, Except.ok.injEq]
  | cons b bs ih =>
    obtain ⟨hb, hbs⟩ := List.forall_mem_cons.mp hbs
    simp only [addSections, exceptBind_eq_ok, Sectioned.keyword_eq_ok, ih hbs, Block.skeletons]
    constructor
    · rintro ⟨k, ⟨hk, -, hseen⟩, c₁, hc, h⟩
      exact slots_of_withSection hb hk hseen hc h
    · exact withSection_of_slots hb

theorem ofBlocks_eq_ok (hbs : ∀ b ∈ bs, b.skeleton.Laid) :
    ofBlocks host bs = .ok c ↔ ReadsConceptBody (Block.skeletons bs) c := by
  rw [ofBlocks, addSections_eq_ok hbs]
  simp [Slots, Slot, ReadsConceptBody]

end ConceptBody

namespace ExistBody

def Slots (seen : List Keyword) (e : ExistBody) (ks : List Skeleton) (e' : ExistBody) : Prop :=
  ∃ p m c, ks.Perm (p ++ m ++ c) ∧ Slot seen .ifKw ReadsFacts e.premises p e'.premises ∧
    Slot seen .member (ReadsLines .decl) e.members m e'.members ∧
    Slot seen .thenKw ReadsFacts e.conclusions c e'.conclusions

variable {seen : List Keyword} {e e' : ExistBody} {b : Block} {bs : List Block}

theorem slots_nil : Slots seen e [] e' ↔ e = e' := by
  constructor
  · rintro ⟨p, m, c, hperm, hp, hm, hc⟩
    have hnil := hperm.nil_eq
    simp only [List.nil_eq, List.append_eq_nil_iff] at hnil
    obtain ⟨⟨rfl, rfl⟩, rfl⟩ := hnil
    cases e
    cases e'
    simp_all [Slot.nil_iff]
  · rintro rfl
    exact ⟨[], [], [], .nil, Slot.nil_iff.mpr rfl, Slot.nil_iff.mpr rfl, Slot.nil_iff.mpr rfl⟩

variable [Alphabet]

theorem withSection_if (hb : b.skeleton.Laid) : e.withSection .ifKw b = .ok e' ↔
    ∃ v, (∃ ks, b.skeleton = .section_ .ifKw ks ∧ ReadsFacts ks v) ∧
      { e with premises := v } = e' := by
  simp only [withSection, exceptBind_eq_ok, exceptPure_eq_ok,
    Block.readSection_iff (Fact.ofBlocks_eq_ok (Block.laid_body hb))]

theorem withSection_member (hb : b.skeleton.Laid) : e.withSection .member b = .ok e' ↔
    ∃ v, (∃ ks, b.skeleton = .section_ .member ks ∧ ReadsLines .decl ks v) ∧
      { e with members := v } = e' := by
  simp only [withSection, exceptBind_eq_ok, exceptPure_eq_ok,
    Block.readSection_iff (Decl.ofBlocks_eq_ok (Block.laid_body hb))]

theorem withSection_then (hb : b.skeleton.Laid) : e.withSection .thenKw b = .ok e' ↔
    ∃ v, (∃ ks, b.skeleton = .section_ .thenKw ks ∧ ReadsFacts ks v) ∧
      { e with conclusions := v } = e' := by
  simp only [withSection, exceptBind_eq_ok, exceptPure_eq_ok,
    Block.readSection_iff (Fact.ofBlocks_eq_ok (Block.laid_body hb))]

theorem slots_of_withSection {k : Keyword} {e₁ : ExistBody} {ks : List Skeleton}
    (hb : b.skeleton.Laid) (hk : k ∈ keywords) (hseen : k ∉ seen) (he : e.withSection k b = .ok e₁)
    (h : Slots (k :: seen) e₁ ks e') : Slots seen e (b.skeleton :: ks) e' := by
  obtain ⟨p, m, c, hperm, hp, hm, hc⟩ := h
  simp only [keywords, List.mem_cons, List.not_mem_nil, or_false] at hk
  obtain rfl | rfl | rfl := hk
  · obtain ⟨v, ⟨ks', hsec, hv⟩, rfl⟩ := (withSection_if hb).mp he
    obtain ⟨rfl, heq⟩ := hp.eq_of_seen
    refine ⟨[b.skeleton], m, c, by simpa using hperm, ?_, hm.of_cons, hc.of_cons⟩
    rw [hsec, heq]
    exact .singleton hseen hv
  · obtain ⟨v, ⟨ks', hsec, hv⟩, rfl⟩ := (withSection_member hb).mp he
    obtain ⟨rfl, heq⟩ := hm.eq_of_seen
    refine ⟨p, [b.skeleton], c, ?_, hp.of_cons, ?_, hc.of_cons⟩
    · simp only [List.append_assoc, List.singleton_append, List.nil_append] at hperm ⊢
      exact perm_cons_middle.mpr hperm
    · rw [hsec, heq]
      exact .singleton hseen hv
  · obtain ⟨v, ⟨ks', hsec, hv⟩, rfl⟩ := (withSection_then hb).mp he
    obtain ⟨rfl, heq⟩ := hc.eq_of_seen
    refine ⟨p, m, [b.skeleton], perm_cons_middle.mpr (by simpa using hperm), hp.of_cons, hm.of_cons,
      ?_⟩
    rw [hsec, heq]
    exact .singleton hseen hv

theorem withSection_of_slots {ks : List Skeleton} (hb : b.skeleton.Laid)
    (h : Slots seen e (b.skeleton :: ks) e') :
    ∃ k, (k ∈ keywords ∧ b.startsWith k = true ∧ k ∉ seen) ∧
      ∃ e₁, e.withSection k b = .ok e₁ ∧ Slots (k :: seen) e₁ ks e' := by
  obtain ⟨p, m, c, hperm, hp, hm, hc⟩ := h
  have hmem : b.skeleton ∈ p ++ m ++ c := hperm.subset List.mem_cons_self
  simp only [List.mem_append] at hmem
  rcases hmem with (hmem | hmem) | hmem
  · obtain ⟨hseen, ks', hsec, rfl, hv⟩ := hp.of_mem hmem
    exact ⟨.ifKw, ⟨by decide, Block.startsWith_of_section hsec, hseen⟩, _,
      (withSection_if hb).mpr ⟨_, ⟨ks', hsec, hv⟩, rfl⟩, [], m, c, by simpa using hperm,
      Slot.nil_iff.mpr rfl, hm.cons_of_ne nofun, hc.cons_of_ne nofun⟩
  · obtain ⟨hseen, ks', hsec, rfl, hv⟩ := hm.of_mem hmem
    refine ⟨.member, ⟨by decide, Block.startsWith_of_section hsec, hseen⟩, _,
      (withSection_member hb).mpr ⟨_, ⟨ks', hsec, hv⟩, rfl⟩, p, [], c, ?_,
      hp.cons_of_ne nofun, Slot.nil_iff.mpr rfl, hc.cons_of_ne nofun⟩
    simp only [List.append_assoc, List.singleton_append, List.nil_append] at hperm ⊢
    exact perm_cons_middle.mp hperm
  · obtain ⟨hseen, ks', hsec, rfl, hv⟩ := hc.of_mem hmem
    exact ⟨.thenKw, ⟨by decide, Block.startsWith_of_section hsec, hseen⟩, _,
      (withSection_then hb).mpr ⟨_, ⟨ks', hsec, hv⟩, rfl⟩, p, m, [], perm_cons_middle.mp hperm,
      hp.cons_of_ne nofun, hm.cons_of_ne nofun, Slot.nil_iff.mpr rfl⟩

theorem addSections_eq_ok (hbs : ∀ b ∈ bs, b.skeleton.Laid) :
    addSections seen e bs = .ok e' ↔ Slots seen e (Block.skeletons bs) e' := by
  induction bs generalizing seen e with
  | nil => rw [addSections, Block.skeletons, slots_nil, Except.ok.injEq]
  | cons b bs ih =>
    obtain ⟨hb, hbs⟩ := List.forall_mem_cons.mp hbs
    simp only [addSections, exceptBind_eq_ok, Sectioned.keyword_eq_ok, ih hbs, Block.skeletons]
    constructor
    · rintro ⟨k, ⟨hk, -, hseen⟩, e₁, he, h⟩
      exact slots_of_withSection hb hk hseen he h
    · exact withSection_of_slots hb

theorem ofBlocks_eq_ok (hbs : ∀ b ∈ bs, b.skeleton.Laid) :
    ofBlocks bs = .ok e ↔ ReadsExistBody (Block.skeletons bs) e := by
  rw [ofBlocks, addSections_eq_ok hbs]
  simp [Slots, Slot, ReadsExistBody]

end ExistBody

end FactScript
