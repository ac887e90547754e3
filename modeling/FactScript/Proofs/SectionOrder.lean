import FactScript.Proofs.StatementGrammar

/-!
The order of sections and members does not matter. Sections are read into a record, each into a
field of its own, so that the changes they make can be made in any order; the declarations of a
section are sorted by what they declare, so that only the order within each sort is seen. Nothing
here asks that the blocks come from a text.
-/
namespace FactScript

/-! Sections. -/

namespace Sectioned

variable {ρ : Type}

/-- Reads sections one by one, each headed by a word that is allowed and has not been used. What a
section says is put into the record. -/
def fill (host : Sectioned) (allowed : List Keyword)
    (put : ρ → Keyword → Block → Except ParseError ρ) :
    List Keyword → ρ → List Block → Except ParseError ρ
  | _, r, [] => .ok r
  | seen, r, b :: bs => do
    let k ← host.keyword allowed seen b
    fill host allowed put (k :: seen) (← put r k b) bs

variable {host : Sectioned} {allowed seen seen' : List Keyword}
  {put : ρ → Keyword → Block → Except ParseError ρ}
  {r r' : ρ} {b b' : Block} {bs bs' before after : List Block}

theorem fill_cons_eq_ok : host.fill allowed put seen r (b :: bs) = .ok r' ↔
    ∃ k, (k ∈ allowed ∧ b.startsWith k = true ∧ k ∉ seen) ∧ ∃ r₁, put r k b = .ok r₁ ∧
      host.fill allowed put (k :: seen) r₁ bs = .ok r' := by
  simp only [fill, exceptBind_eq_ok, keyword_eq_ok]

/-- It matters which words have been used, but not in which order. -/
theorem fill_congr_seen (h : ∀ k, k ∈ seen ↔ k ∈ seen') :
    host.fill allowed put seen r bs = .ok r' ↔ host.fill allowed put seen' r bs = .ok r' := by
  induction bs generalizing seen seen' r with
  | nil => rfl
  | cons b bs ih =>
    have hcons (k : Keyword) : ∀ j, j ∈ k :: seen ↔ j ∈ k :: seen' := by
      intro j
      rw [List.mem_cons, List.mem_cons, h]
    simp only [fill_cons_eq_ok, h, ih (hcons _)]

/-- Sections under different words can be put into the record in either order. -/
def Commutes (allowed : List Keyword) (put : ρ → Keyword → Block → Except ParseError ρ) : Prop :=
  ∀ ⦃j k : Keyword⦄, j ∈ allowed → k ∈ allowed → j ≠ k → ∀ ⦃r r₁ r₂ : ρ⦄ ⦃a b : Block⦄,
    put r j a = .ok r₁ → put r₁ k b = .ok r₂ → ∃ r₁', put r k b = .ok r₁' ∧ put r₁' j a = .ok r₂

theorem fill_swap (hcomm : Commutes allowed put)
    (h : host.fill allowed put seen r (b :: b' :: bs) = .ok r') :
    host.fill allowed put seen r (b' :: b :: bs) = .ok r' := by
  simp only [fill_cons_eq_ok] at h ⊢
  obtain ⟨j, ⟨hj, hbj, hseen⟩, r₁, hr₁, k, ⟨hk, hbk, hseen'⟩, r₂, hr₂, hrest⟩ := h
  have hne : j ≠ k := (List.ne_of_not_mem_cons hseen').symm
  obtain ⟨r₁', hr₁', hr₂'⟩ := hcomm hj hk hne hr₁ hr₂
  have hnew : j ∉ k :: seen := List.not_mem_cons_of_ne_of_not_mem hne hseen
  refine ⟨k, ⟨hk, hbk, List.not_mem_of_not_mem_cons hseen'⟩, r₁', hr₁', j, ⟨hj, hbj, hnew⟩, r₂,
    hr₂', ?_⟩
  refine (fill_congr_seen fun i => ?_).mp hrest
  simp only [List.mem_cons]
  exact or_left_comm

/-- Sections may come in any order. -/
theorem fill_perm (hcomm : Commutes allowed put) (h : bs.Perm bs') :
    host.fill allowed put seen r bs = .ok r' ↔ host.fill allowed put seen r bs' = .ok r' := by
  induction h generalizing seen r with
  | nil => rfl
  | cons b _ ih => simp only [fill_cons_eq_ok, ih]
  | swap b b' bs => exact ⟨fill_swap hcomm, fill_swap hcomm⟩
  | trans _ _ ih ih' => exact ih.trans ih'

/-- A section may be replaced by one that is headed alike and says the same. -/
theorem fill_replace (hhead : ∀ k, b'.startsWith k = b.startsWith k)
    (hput : ∀ k, b.startsWith k = true → ∀ r r₁, put r k b = .ok r₁ ↔ put r k b' = .ok r₁) :
    host.fill allowed put seen r (before ++ b :: after) = .ok r' ↔
      host.fill allowed put seen r (before ++ b' :: after) = .ok r' := by
  induction before generalizing seen r with
  | nil =>
    simp only [List.nil_append, fill_cons_eq_ok, hhead]
    refine exists_congr fun k => and_congr_right fun hk => exists_congr fun r₁ =>
      and_congr_left fun _ => ?_
    exact hput k hk.2.1 r r₁
  | cons a before ih => simp only [List.cons_append, fill_cons_eq_ok, ih]

theorem put_of_fill_concat (h : host.fill allowed put seen r (bs ++ [b]) = .ok r') :
    ∃ k r₁, b.startsWith k = true ∧ put r₁ k b = .ok r' := by
  induction bs generalizing seen r with
  | nil =>
    obtain ⟨k, ⟨-, hk, -⟩, r₁, hr₁, hend⟩ := fill_cons_eq_ok.mp h
    cases hend
    exact ⟨k, r, hk, hr₁⟩
  | cons a bs ih =>
    obtain ⟨k, -, r₁, -, hrest⟩ := fill_cons_eq_ok.mp h
    exact ih hrest

end Sectioned

theorem Block.startsWith_unique {b : Block} {j k : Keyword} (hj : b.startsWith j = true)
    (hk : b.startsWith k = true) : j = k := by
  rw [startsWith_iff] at hj hk
  rw [hj] at hk
  exact Lexeme.keyword.inj (Option.some.inj hk)

namespace ConceptBody

theorem addSections_eq_fill (host : Sectioned) (seen : List Keyword) (c : ConceptBody)
    (bs : List Block) :
    addSections host seen c bs = host.fill keywords withSection seen c bs := by
  induction bs generalizing seen c with
  | nil => rfl
  | cons b bs ih => simp only [addSections, Sectioned.fill, ih]

theorem withSection_commutes : Sectioned.Commutes keywords withSection := by
  intro j k hj hk hne c c₁ c₂ a b hj' hk'
  simp only [keywords, List.mem_cons, List.not_mem_nil, or_false] at hj hk
  rcases hj with rfl | rfl | rfl | rfl <;> rcases hk with rfl | rfl | rfl | rfl <;>
    try exact absurd rfl hne
  all_goals
    simp only [withSection, exceptBind_eq_ok, exceptPure_eq_ok] at hj' hk' ⊢
    obtain ⟨v, hv, rfl⟩ := hj'
    obtain ⟨w, hw, rfl⟩ := hk'
    exact ⟨_, ⟨w, hw, rfl⟩, v, hv, rfl⟩

theorem ofBlocks_perm {host : Sectioned} {bs bs' : List Block} (h : bs.Perm bs') (c : ConceptBody) :
    ofBlocks host bs = .ok c ↔ ofBlocks host bs' = .ok c := by
  rw [ofBlocks, ofBlocks, addSections_eq_fill, addSections_eq_fill]
  exact Sectioned.fill_perm withSection_commutes h

end ConceptBody

namespace ExistBody

theorem addSections_eq_fill (seen : List Keyword) (e : ExistBody) (bs : List Block) :
    addSections seen e bs = Sectioned.exist.fill keywords withSection seen e bs := by
  induction bs generalizing seen e with
  | nil => rfl
  | cons b bs ih => simp only [addSections, Sectioned.fill, ih]

theorem withSection_commutes : Sectioned.Commutes keywords withSection := by
  intro j k hj hk hne e e₁ e₂ a b hj' hk'
  simp only [keywords, List.mem_cons, List.not_mem_nil, or_false] at hj hk
  rcases hj with rfl | rfl | rfl <;> rcases hk with rfl | rfl | rfl <;> try exact absurd rfl hne
  all_goals
    simp only [withSection, exceptBind_eq_ok, exceptPure_eq_ok] at hj' hk' ⊢
    obtain ⟨v, hv, rfl⟩ := hj'
    obtain ⟨w, hw, rfl⟩ := hk'
    exact ⟨_, ⟨w, hw, rfl⟩, v, hv, rfl⟩

theorem ofBlocks_perm {bs bs' : List Block} (h : bs.Perm bs') (e : ExistBody) :
    ofBlocks bs = .ok e ↔ ofBlocks bs' = .ok e := by
  rw [ofBlocks, ofBlocks, addSections_eq_fill, addSections_eq_fill]
  exact Sectioned.fill_perm withSection_commutes h

end ExistBody

/-! Members. -/

def Decl.keyword : Decl → Keyword
  | .var _ => .var
  | .fn _ => .fn
  | .property _ => .property

theorem Decl.startsWith_of_ofBlock {b : Block} {d : Decl} (h : Decl.ofBlock b = .ok d)
    (k : Keyword) :
    b.startsWith k = decide (d.keyword = k) := by
  have hreads := Parser.decl_exact.eq_ok_nil.mp (Block.readLine_eq_ok.mp h)
  have hhead : b.lexemes.head? = some (.keyword d.keyword) := by
    generalize b.lexemes = ts at hreads
    cases hreads <;> rfl
  rw [Bool.eq_iff_iff, Block.startsWith_iff, hhead]
  simp

theorem Decl.ofBlocks_filter {lines : List Block} {ds : List Decl}
    (h : Decl.ofBlocks lines = .ok ds) (k : Keyword) :
    Decl.ofBlocks (lines.filter (·.startsWith k)) = .ok (ds.filter (·.keyword = k)) := by
  rw [Decl.ofBlocks, mapM_eq_ok] at h ⊢
  induction h with
  | nil => exact .nil
  | @cons b d lines ds hb _ ih =>
    rw [List.filter_cons, List.filter_cons, Decl.startsWith_of_ofBlock hb]
    split
    · exact .cons hb ih
    · exact ih

namespace Members

/-- Each of the three lists has the declarations of one sort, in the order of their lines. -/
structure InOrder (m : Members) (lines : List Block) : Prop where
  vars : Decl.ofBlocks (lines.filter (·.startsWith .var)) = .ok (m.vars.map .var)
  fns : Decl.ofBlocks (lines.filter (·.startsWith .fn)) = .ok (m.fns.map .fn)
  properties : Decl.ofBlocks (lines.filter (·.startsWith .property)) =
    .ok (m.properties.map .property)

theorem map_ofDecls (ds : List Decl) :
    (ofDecls ds).vars.map .var = ds.filter (·.keyword = .var) ∧
      (ofDecls ds).fns.map .fn = ds.filter (·.keyword = .fn) ∧
      (ofDecls ds).properties.map .property = ds.filter (·.keyword = .property) := by
  induction ds with
  | nil => exact ⟨rfl, rfl, rfl⟩
  | cons d ds ih =>
    obtain ⟨hvars, hfns, hproperties⟩ := ih
    simp only [ofDecls] at hvars hfns hproperties ⊢
    cases d <;> simp [Decl.keyword, hvars, hfns, hproperties]

theorem inOrder_of_ofBlocks {lines : List Block} {m : Members}
    (h : Members.ofBlocks lines = .ok m) :
    m.InOrder lines := by
  obtain ⟨ds, hds, rfl⟩ := exceptMap_eq_ok.mp h
  obtain ⟨hvars, hfns, hproperties⟩ := map_ofDecls ds
  constructor
  · rw [hvars, Decl.ofBlocks_filter hds]
  · rw [hfns, Decl.ofBlocks_filter hds]
  · rw [hproperties, Decl.ofBlocks_filter hds]

theorem InOrder.unique {m m' : Members} {lines : List Block} (h : m.InOrder lines)
    (h' : m'.InOrder lines) :
    m = m' := by
  have hvars := Except.ok.inj (h.vars.symm.trans h'.vars)
  have hfns := Except.ok.inj (h.fns.symm.trans h'.fns)
  have hproperties := Except.ok.inj (h.properties.symm.trans h'.properties)
  obtain ⟨vars, fns, properties⟩ := m
  obtain ⟨vars', fns', properties'⟩ := m'
  rw [Members.mk.injEq]
  exact ⟨List.map_injective_iff.mpr (fun _ _ => Decl.var.inj) hvars,
    List.map_injective_iff.mpr (fun _ _ => Decl.fn.inj) hfns,
    List.map_injective_iff.mpr (fun _ _ => Decl.property.inj) hproperties⟩

theorem ofBlocks_eq_ok_iff {lines : List Block} {m : Members} : Members.ofBlocks lines = .ok m ↔
    (∀ l ∈ lines, ∃ d, Decl.ofBlock l = .ok d) ∧ m.InOrder lines := by
  constructor
  · intro h
    refine ⟨fun l hl => ?_, inOrder_of_ofBlocks h⟩
    obtain ⟨ds, hds, -⟩ := exceptMap_eq_ok.mp h
    exact exists_mapM_eq_ok.mp ⟨ds, hds⟩ l hl
  · rintro ⟨hlines, hm⟩
    obtain ⟨ds, hds⟩ := exists_mapM_eq_ok.mpr hlines
    have hread : Members.ofBlocks lines = .ok (.ofDecls ds) := exceptMap_eq_ok.mpr ⟨ds, hds, rfl⟩
    rw [hread, hm.unique (inOrder_of_ofBlocks hread)]

/-- Lines may be put in another order, as long as those that declare things of one sort stay in
order. -/
theorem ofBlocks_reorder {lines lines' : List Block} (hperm : lines.Perm lines')
    (hkeep : ∀ k ∈ [Keyword.var, .fn, .property],
      lines'.filter (·.startsWith k) = lines.filter (·.startsWith k)) (m : Members) :
    Members.ofBlocks lines = .ok m ↔ Members.ofBlocks lines' = .ok m := by
  have horder : m.InOrder lines ↔ m.InOrder lines' := by
    constructor
    · intro h
      exact ⟨by rw [hkeep _ (by simp), h.vars], by rw [hkeep _ (by simp), h.fns],
        by rw [hkeep _ (by simp), h.properties]⟩
    · intro h
      exact ⟨by rw [← hkeep _ (by simp), h.vars], by rw [← hkeep _ (by simp), h.fns],
        by rw [← hkeep _ (by simp), h.properties]⟩
  simp only [ofBlocks_eq_ok_iff, hperm.mem_iff, horder]

end Members

namespace ConceptBody

variable {host : Sectioned} {c : ConceptBody} {sec : Block} {lines' before after bs : List Block}

theorem withSection_member_eq_ok {c' : ConceptBody} : c.withSection .member sec = .ok c' ↔
    sec.lexemes = [.keyword .member, .symbol .colon] ∧
      ∃ m, Members.ofBlocks sec.body = .ok m ∧ { c with members := m } = c' := by
  simp only [withSection, exceptBind_eq_ok, exceptPure_eq_ok, Block.readSection_eq_ok, and_assoc,
    exists_and_left]

theorem withSection_typeMember_eq_ok {c' : ConceptBody} : c.withSection .typeMember sec = .ok c' ↔
    sec.lexemes = [.keyword .typeMember, .symbol .colon] ∧
      ∃ m, Members.ofBlocks sec.body = .ok m ∧ { c with typeMembers := m } = c' := by
  simp only [withSection, exceptBind_eq_ok, exceptPure_eq_ok, Block.readSection_eq_ok, and_assoc,
    exists_and_left]

theorem ofBlocks_reorder_lines
    (hsec : sec.startsWith .member = true ∨ sec.startsWith .typeMember = true)
    (h : ∀ m, Members.ofBlocks sec.body = .ok m ↔ Members.ofBlocks lines' = .ok m) :
    ofBlocks host (before ++ sec :: after) = .ok c ↔
      ofBlocks host (before ++ { sec with body := lines' } :: after) = .ok c := by
  rw [ofBlocks, ofBlocks, addSections_eq_fill, addSections_eq_fill]
  refine Sectioned.fill_replace (fun k => rfl) fun k hk c c' => ?_
  rcases hsec with hsec | hsec
  · obtain rfl := Block.startsWith_unique hk hsec
    simp only [withSection_member_eq_ok, h]
    rfl
  · obtain rfl := Block.startsWith_unique hk hsec
    simp only [withSection_typeMember_eq_ok, h]
    rfl

/-- What a section says is in the record in the end, as it could have been read last. -/
theorem withSection_of_mem (h : ofBlocks host bs = .ok c) (hsec : sec ∈ bs) :
    ∃ k, ∃ c₁ : ConceptBody, sec.startsWith k = true ∧ c₁.withSection k sec = .ok c := by
  obtain ⟨before, after, rfl⟩ := List.append_of_mem hsec
  have hlast : (before ++ sec :: after).Perm (before ++ after ++ [sec]) :=
    List.perm_middle.trans (List.perm_append_singleton sec _).symm
  rw [ofBlocks_perm hlast, ofBlocks, addSections_eq_fill] at h
  exact Sectioned.put_of_fill_concat h

theorem members_inOrder (h : ofBlocks host bs = .ok c) (hmem : sec ∈ bs)
    (hsec : sec.startsWith .member = true) :
    c.members.InOrder sec.body := by
  obtain ⟨k, c₁, hk, hc⟩ := withSection_of_mem h hmem
  obtain rfl := Block.startsWith_unique hk hsec
  obtain ⟨-, m, hm, rfl⟩ := withSection_member_eq_ok.mp hc
  exact Members.inOrder_of_ofBlocks hm

theorem typeMembers_inOrder (h : ofBlocks host bs = .ok c) (hmem : sec ∈ bs)
    (hsec : sec.startsWith .typeMember = true) : c.typeMembers.InOrder sec.body := by
  obtain ⟨k, c₁, hk, hc⟩ := withSection_of_mem h hmem
  obtain rfl := Block.startsWith_unique hk hsec
  obtain ⟨-, m, hm, rfl⟩ := withSection_typeMember_eq_ok.mp hc
  exact Members.inOrder_of_ofBlocks hm

end ConceptBody

/-! Statements. -/

/-- The blocks that are read under a header: those below it, if it ends in a colon. -/
def Block.under (ts : List Lexeme) (body : List Block) : List Block :=
  if ts.getLast? = some (.symbol .colon) then body else []

theorem Block.under_append_opening {ts : List Lexeme} (hts : .symbol .colon ∉ ts) (opens : Bool)
    (body : List Block) : under (ts ++ opening opens) body = if opens then body else [] := by
  cases opens with
  | true => simp [under, opening]
  | false =>
    have hlast : ts.getLast? ≠ some (.symbol .colon) := fun h => hts (List.mem_of_getLast? h)
    simp [under, opening, hlast]

def Statement.conceptBody? : Statement → Option ConceptBody
  | .concept _ _ c | .type _ c => some c
  | _ => none

namespace Header

variable {ts : List Lexeme} {hd : Header} {body : List Block}

theorem of_concept (h : Parser.header ts = .ok hd []) (hts : ts.head? = some (.keyword .concept)) :
    ∃ typeVar name opens,
      ts = [.keyword .concept, .identifier typeVar, .identifier name] ++ opening opens ∧
      hd = .concept typeVar name opens := by
  simp only [Parser.header, Parser.peek_bind, hts, Parser.conceptHeader, Parser.bind_eq_ok,
    Parser.expect_eq_ok, Parser.identifier_eq_ok, Parser.pure_eq_ok] at h
  obtain ⟨-, ts₁, rfl, typeVar, ts₂, rfl, name, ts₃, rfl, opens, ts₄, hopens, rfl, rfl⟩ := h
  rw [Parser.opens_eq_ok.mp hopens]
  exact ⟨typeVar, name, opens, rfl, rfl⟩

theorem of_type (h : Parser.header ts = .ok hd []) (hts : ts.head? = some (.keyword .type)) :
    ∃ name opens, ts = [.keyword .type, .identifier name] ++ opening opens ∧
      hd = .type name opens := by
  simp only [Parser.header, Parser.peek_bind, hts, Parser.typeHeader, Parser.bind_eq_ok,
    Parser.expect_eq_ok, Parser.identifier_eq_ok, Parser.pure_eq_ok] at h
  obtain ⟨-, ts₁, rfl, name, ts₂, rfl, opens, ts₃, hopens, rfl, rfl⟩ := h
  rw [Parser.opens_eq_ok.mp hopens]
  exact ⟨name, opens, rfl, rfl⟩

theorem of_exist (h : Parser.header ts = .ok hd []) (hts : ts.head? = some (.keyword .exist)) :
    ∃ decl opens, hd = .exist decl opens := by
  simp only [Parser.header, Parser.peek_bind, hts, Parser.existHeader, Parser.bind_eq_ok,
    Parser.pure_eq_ok] at h
  obtain ⟨decl, ts₁, -, opens, ts₂, -, rfl, -⟩ := h
  exact ⟨decl, opens, rfl⟩

theorem build_of_concept (h : Parser.header ts = .ok hd [])
    (hts : ts.head? = some (.keyword .concept) ∨ ts.head? = some (.keyword .type)) :
    ∃ (host : Sectioned) (wrap : ConceptBody → Statement), (∀ c, (wrap c).conceptBody? = some c) ∧
      ∀ body, hd.build body = wrap <$> ConceptBody.ofBlocks host (Block.under ts body) := by
  rcases hts with hts | hts
  · obtain ⟨typeVar, name, opens, rfl, rfl⟩ := of_concept h hts
    refine ⟨.concept, .concept typeVar name, fun c => rfl, fun body => ?_⟩
    rw [Block.under_append_opening (by simp)]
    cases opens with
    | false => rfl
    | true => cases ConceptBody.ofBlocks .concept body <;> rfl
  · obtain ⟨name, opens, rfl, rfl⟩ := of_type h hts
    refine ⟨.type, .type name, fun c => rfl, fun body => ?_⟩
    rw [Block.under_append_opening (by simp)]
    cases opens with
    | false => rfl
    | true => cases ConceptBody.ofBlocks .type body <;> rfl

theorem build_exist (decl : PropertyDecl) (opens : Bool) (body : List Block) :
    (Header.exist decl opens).build body =
      (fun e => .exist decl e.premises e.members e.conclusions) <$>
        ExistBody.ofBlocks (if opens then body else []) := by
  cases opens with
  | false => rfl
  | true => cases ExistBody.ofBlocks body <;> rfl

end Header

namespace Statement

variable {b sec : Block} {body' before after lines' : List Block} {s : Statement}

theorem ofBlock_congr (h : ∀ hd, Parser.header b.lexemes = .ok hd [] → ∀ s,
      hd.build b.body = .ok s ↔ hd.build body' = .ok s) (s : Statement) :
    ofBlock b = .ok s ↔ ofBlock { b with body := body' } = .ok s := by
  rw [ofBlock_eq_ok_iff, ofBlock_eq_ok_iff]
  exact exists_congr fun hd => and_congr_right fun hhd => h hd hhd s

theorem ofBlock_congr_concept (hb : b.startsWith .concept = true ∨ b.startsWith .type = true)
    (h : ∀ host c, ConceptBody.ofBlocks host (Block.under b.lexemes b.body) = .ok c ↔
      ConceptBody.ofBlocks host (Block.under b.lexemes body') = .ok c) (s : Statement) :
    ofBlock b = .ok s ↔ ofBlock { b with body := body' } = .ok s := by
  refine ofBlock_congr (fun hd hhd s => ?_) s
  simp only [Block.startsWith_iff] at hb
  obtain ⟨host, wrap, -, hbuild⟩ := Header.build_of_concept hhd hb
  simp only [hbuild, exceptMap_eq_ok, h]

theorem ofBlock_perm
    (hb : b.startsWith .concept = true ∨ b.startsWith .type = true ∨ b.startsWith .exist = true)
    (hperm : b.body.Perm body') (s : Statement) :
    ofBlock b = .ok s ↔ ofBlock { b with body := body' } = .ok s := by
  rw [← or_assoc] at hb
  rcases hb with hb | hb
  · refine ofBlock_congr_concept hb (fun host c => ConceptBody.ofBlocks_perm ?_ c) s
    unfold Block.under
    split
    · exact hperm
    · exact .nil
  · refine ofBlock_congr (fun hd hhd s => ?_) s
    obtain ⟨decl, opens, rfl⟩ := Header.of_exist hhd (Block.startsWith_iff.mp hb)
    have hsections : (if opens then b.body else []).Perm (if opens then body' else []) := by
      split
      · exact hperm
      · exact .nil
    simp only [Header.build_exist, exceptMap_eq_ok, ExistBody.ofBlocks_perm hsections]

theorem ofBlock_reorder_lines (hb : b.startsWith .concept = true ∨ b.startsWith .type = true)
    (hbody : b.body = before ++ sec :: after)
    (hsec : sec.startsWith .member = true ∨ sec.startsWith .typeMember = true)
    (hperm : sec.body.Perm lines') (hkeep : ∀ k ∈ [Keyword.var, .fn, .property],
      lines'.filter (·.startsWith k) = sec.body.filter (·.startsWith k)) (s : Statement) :
    ofBlock b = .ok s ↔
      ofBlock { b with body := before ++ { sec with body := lines' } :: after } = .ok s := by
  refine ofBlock_congr_concept hb (fun host c => ?_) s
  unfold Block.under
  split
  · rw [hbody]
    exact ConceptBody.ofBlocks_reorder_lines hsec (Members.ofBlocks_reorder hperm hkeep)
  · rfl

theorem members_inOrder (hb : b.startsWith .concept = true ∨ b.startsWith .type = true)
    (h : ofBlock b = .ok s) : ∃ c, s.conceptBody? = some c ∧ ∀ sec ∈ Block.under b.lexemes b.body,
      (sec.startsWith .member = true → c.members.InOrder sec.body) ∧
      (sec.startsWith .typeMember = true → c.typeMembers.InOrder sec.body) := by
  obtain ⟨hd, hhd, hs⟩ := ofBlock_eq_ok_iff.mp h
  simp only [Block.startsWith_iff] at hb
  obtain ⟨host, wrap, hwrap, hbuild⟩ := Header.build_of_concept hhd hb
  rw [hbuild, exceptMap_eq_ok] at hs
  obtain ⟨c, hc, rfl⟩ := hs
  refine ⟨c, hwrap c, fun sec hmem => ?_⟩
  exact ⟨ConceptBody.members_inOrder hc hmem, ConceptBody.typeMembers_inOrder hc hmem⟩

/-- The sections of a concept, a type or an existence statement may stand in any order: with the
same statement or, in whatever order, with none. In a section with members of a concept or type,
lines that declare things of different sorts may change places; the things of each sort are listed
in the order of their lines. -/
theorem ofBlock_orderless {b : Block}
    (hb : b.startsWith .concept = true ∨ b.startsWith .type = true ∨ b.startsWith .exist = true) :
    (∀ body', b.body.Perm body' → ∀ s, ofBlock b = .ok s ↔
      ofBlock { b with body := body' } = .ok s) ∧
    (b.startsWith .concept = true ∨ b.startsWith .type = true →
      (∀ before sec after lines', b.body = before ++ sec :: after →
        (sec.startsWith .member = true ∨ sec.startsWith .typeMember = true) → sec.body.Perm lines' →
        (∀ k ∈ [Keyword.var, .fn, .property],
          lines'.filter (·.startsWith k) = sec.body.filter (·.startsWith k)) →
        ∀ s, ofBlock b = .ok s ↔
          ofBlock { b with body := before ++ { sec with body := lines' } :: after } = .ok s) ∧
      ∀ s, ofBlock b = .ok s → ∃ c, s.conceptBody? = some c ∧ ∀ sec ∈ Block.under b.lexemes b.body,
        (sec.startsWith .member = true → c.members.InOrder sec.body) ∧
        (sec.startsWith .typeMember = true → c.typeMembers.InOrder sec.body)) := by
  refine ⟨fun body' hperm => ofBlock_perm hb hperm, fun hconcept => ⟨?_, ?_⟩⟩
  · intro before sec after lines' hbody hsec hperm hkeep
    exact ofBlock_reorder_lines hconcept hbody hsec hperm hkeep
  · intro s hs
    exact members_inOrder hconcept hs

/-- A concept with its sections the other way round, and with the two lines of the first section
exchanged. -/
theorem ofBlock_orderless_concept : ∃ bs b, Block.ofSource 4
      "concept T G:\n  member:\n    fn f(x T) T\n    var e T\n  then:\n    e = e\n  inherit:\n    H" =
      .ok bs ∧
    Block.find? bs [0] = some b ∧ b.startsWith .concept = true ∧ ∃ s, ofBlock b = .ok s ∧
      ofBlock { b with body := b.body.reverse } = .ok s ∧
      ∃ sec after, b.body = sec :: after ∧ sec.startsWith .member = true ∧
        ofBlock { b with body := { sec with body := sec.body.reverse } :: after } = .ok s := by
  obtain ⟨bs, b, hbs, hb, htest⟩ := Block.exists_of_any 4
    "concept T G:\n  member:\n    fn f(x T) T\n    var e T\n  then:\n    e = e\n  inherit:\n    H"
    [0] (fun b => b.startsWith .concept && (ofBlock b).isOk && b.body.head?.any fun sec =>
      sec.startsWith .member &&
      sec.body.map (fun l => (l.startsWith .var, l.startsWith .fn, l.startsWith .property)) =
        [(false, true, false), (true, false, false)]) (by decide +kernel)
  simp only [Bool.and_eq_true, Option.any_eq_true, decide_eq_true_eq] at htest
  obtain ⟨⟨hconcept, hok⟩, sec, hsec, hmember, hlines⟩ := htest
  obtain ⟨s, hs⟩ := exists_ok_of_isOk hok
  obtain ⟨after, hbody⟩ := List.head?_eq_some_iff.mp hsec
  obtain ⟨hperm, hrest⟩ := ofBlock_orderless (.inl hconcept)
  refine ⟨bs, b, hbs, hb, hconcept, s, hs, (hperm _ (List.reverse_perm _).symm s).mp hs, sec, after,
    hbody, hmember, ?_⟩
  refine ((hrest (.inl hconcept)).1 [] sec after _ hbody (.inl hmember)
    (List.reverse_perm _).symm ?_ s).mp hs
  obtain ⟨l, l', hpair, hl, hl'⟩ : ∃ l l', sec.body = [l, l'] ∧
      (l.startsWith .var, l.startsWith .fn, l.startsWith .property) = (false, true, false) ∧
      (l'.startsWith .var, l'.startsWith .fn, l'.startsWith .property) = (true, false, false) := by
    simpa [List.map_eq_cons_iff, and_assoc] using hlines
  simp only [Prod.mk.injEq] at hl hl'
  simp [hpair, hl, hl']

end Statement

end FactScript
