import FactScript.Proofs.Printing

/-!
The outlines of facts and statements. An outline is tidy when each of its lines can be read again
and something is nested under a line exactly when it ends in a colon; its skeleton is what is read.
The outline of a well-formed statement is tidy, and the grammar derives the statement from its
skeleton.
-/
namespace FactScript

open Piece

namespace Outline

mutual

def skeleton : Outline → Skeleton
  | ⟨header, body⟩ => ⟨lexemes header, skeletons body⟩

def skeletons : List Outline → List Skeleton
  | [] => []
  | o :: os => o.skeleton :: skeletons os

end

theorem skeletons_eq_map (os : List Outline) : skeletons os = os.map skeleton := by
  induction os with
  | nil => rfl
  | cons o os ih => rw [skeletons, ih, List.map_cons]

@[simp] theorem skeletons_append (os os' : List Outline) :
    skeletons (os ++ os') = skeletons os ++ skeletons os' := by
  simp [skeletons_eq_map]

theorem skeleton_section (k : Keyword) (body : List Outline) :
    (section_ k body).skeleton = .section_ k (skeletons body) := rfl

@[simp] theorem section?_eq_nil {k : Keyword} {os : List Outline} : section? k os = [] ↔
    os = [] := by
  by_cases hne : os = [] <;> simp [section?, hne]

theorem ifThen_eq_nil {premises conclusions : List Outline} :
    ifThen premises conclusions = [] ↔ premises = [] ∧ conclusions = [] := by
  by_cases hempty : premises = [] <;> simp [ifThen, hempty]

end Outline

theorem Fact.outlines_eq_map (fs : List Fact) : Fact.outlines fs = fs.map Fact.outline := by
  induction fs with
  | nil => rfl
  | cons f fs ih => rw [Fact.outlines, ih, List.map_cons]

@[simp] theorem Fact.outlines_eq_nil {fs : List Fact} : Fact.outlines fs = [] ↔ fs = [] := by
  simp [Fact.outlines_eq_map]

theorem Piece.Leads.joined {ps : List Piece} (h : Leads ps) (sep : List Piece)
    (parts : List (List Piece)) :
    Leads (joined sep (ps :: parts)) := by
  cases parts with
  | nil => simpa [Piece.joined] using h
  | cons part parts =>
    rw [joined_cons_cons]
    exact h.append _

theorem Decl.leads (d : Decl) : Leads d.pieces := by
  cases d <;> exact leads_cons _ _

theorem Members.ofDecls_decls (m : Members) : Members.ofDecls m.decls = m := by
  obtain ⟨vars, fns, properties⟩ := m
  simp [Members.ofDecls, Members.decls, List.filterMap_append, List.filterMap_map]

theorem Members.eq_empty {m : Members} (h : Outline.ofDecls m.decls = []) : m = {} := by
  rw [Outline.ofDecls, List.map_eq_nil_iff] at h
  rw [← m.ofDecls_decls, h]
  rfl

theorem ConceptBody.eq_empty {c : ConceptBody} (h : c.outlines = []) : c = {} := by
  obtain ⟨inherits, typeMembers, members, facts⟩ := c
  simp only [ConceptBody.outlines, List.append_eq_nil_iff, Outline.section?_eq_nil] at h
  obtain ⟨⟨⟨hi, ht⟩, hm⟩, hf⟩ := h
  rw [Members.eq_empty ht, Members.eq_empty hm, Fact.outlines_eq_nil.mp hf,
    show inherits = [] by simpa using hi]

variable [Alphabet]

/-- A header up to its colon. -/
structure Piece.Heading (ps : List Piece) : Prop where
  closed : Sealed ps
  leads : Leads ps
  colon : .symbol .colon ∉ lexemes ps

/-- Every line can be read again, and has lines below it exactly when it ends in a colon. -/
inductive Outline.Tidy : Outline → Prop
  | mk {header body} : Piece.Tidy header → Leads header →
      (body ≠ [] ↔ (lexemes header).getLast? = some (.symbol .colon)) → (∀ o ∈ body, o.Tidy) →
      Tidy ⟨header, body⟩

theorem Piece.Sealed.tidy {ps : List Piece} (h : Sealed ps) : Tidy ps := by
  have hspelled := h.spelled
  rw [lexemes_append, Lexeme.allSpelled_append] at hspelled
  exact ⟨hspelled.1, (List.isChain_append.mp h.apart).1⟩

namespace Piece.Heading

variable {ps : List Piece}

theorem leaf (h : Heading ps) : (Outline.leaf ps).Tidy := by
  refine .mk h.closed.tidy h.leads ?_ (List.forall_mem_nil _)
  constructor
  · exact absurd rfl
  · intro hlast
    exact absurd (List.mem_of_getLast? hlast) h.colon

theorem opened (h : Heading ps) {body : List Outline} (hne : body ≠ [])
    (hbody : ∀ o ∈ body, o.Tidy) :
    Outline.Tidy ⟨ps ++ [sym .colon], body⟩ := by
  refine .mk h.closed (h.leads.append _) ?_ hbody
  simp [hne]

theorem opening (h : Heading ps) {body : List Outline} (hbody : ∀ o ∈ body, o.Tidy) :
    (Outline.opening ps body).Tidy := by
  by_cases hne : body = []
  · subst hne
    simpa [Outline.opening, Outline.leaf] using h.leaf
  · simpa [Outline.opening, hne] using h.opened hne hbody

end Piece.Heading

theorem Outline.tidy_section {k : Keyword} {body : List Outline} (hne : body ≠ [])
    (hbody : ∀ o ∈ body, o.Tidy) : (Outline.section_ k body).Tidy := by
  have hheading : Heading [kw k] := ⟨by simp [apart, isBreak], leads_cons _ _, by simp⟩
  exact hheading.opened hne hbody

/-- A word in front of an outline makes no difference. -/
theorem Outline.Tidy.marked {header : List Piece} {body : List Outline} (h : Tidy ⟨header, body⟩)
    (k : Keyword) : Tidy ⟨[kw k, space] ++ header, body⟩ := by
  cases h with
  | mk htidy hleads hcolon hbody =>
    refine .mk ?_ (leads_cons _ _) ?_ hbody
    · refine ⟨by simpa using htidy.spelled, ?_⟩
      refine List.isChain_cons.mpr
        ⟨by simp [apart, isBreak], List.isChain_cons.mpr ⟨?_, htidy.apart⟩⟩
      exact fun _ _ => rfl
    · rw [hcolon]
      exact (getLast?_cons_iff (a := Lexeme.keyword k) (by simp)).symm

/-! Lines that are phrases. -/

theorem Term.WellFormed.leads {t : Term} (h : t.WellFormed) : Leads t.pieces := by
  cases h with
  | segment h => exact h.prints.leads
  | @chain parts hlen h =>
    rw [Term.pieces, Term.piecesOfAll_eq_map]
    cases parts with
    | nil => simp at hlen
    | cons t ts => exact (h t (by simp)).prints.leads.joined _ _
  | number h =>
    rw [Term.pieces]
    cases h with
    | whole hw =>
      rw [numeral_whole hw.digits]
      exact leads_cons _ _
    | fraction hw hf =>
      rw [numeral_fraction hw.digits hf.digits]
      exact leads_cons _ _
  | ascribed _ _ => exact leads_cons _ _
  | binary hop _ _ =>
    rw [Term.pieces_operation hop]
    exact leads_cons _ _
  | negation _ =>
    rw [Term.pieces_negation]
    exact leads_cons _ _

theorem Fact.WellFormed.leads {f : Fact} (h : f.WellFormed) : Leads f.pieces := by
  cases h with
  | @relational holds _ operands _ hlen h =>
    rw [Fact.pieces, Term.piecesOfAll_eq_map]
    cases holds with
    | false => exact leads_cons _ _
    | true =>
      cases operands with
      | nil => simp at hlen
      | cons t ts => exact (h t (by simp)).leads.joined _ _
  | @property holds _ _ => cases holds <;> exact leads_cons _ _
  | universal => exact leads_cons _ _

theorem Prints.heading {p : Phrase} {ps : List Piece} {a : p.Meaning} (h : Prints p ps a)
    (hp : p.NoColon) (hleads : Leads ps) : Heading ps :=
  ⟨h.closed, hleads, h.reads.colon_notMem hp⟩

theorem Fact.WellFormed.heading {f : Fact} (h : f.WellFormed) (hf : f.isSpecific = true) :
    Heading f.pieces :=
  (h.prints hf).heading trivial h.leads

/-! Bodies. -/

/-- The outlines are tidy, and what stands in their place is read as `a`. -/
structure LaysOut {α : Type} (body : List Skeleton → α → Prop) (os : List Outline) (a : α) :
    Prop where
  reads : body (Outline.skeletons os) a
  tidy : ∀ o ∈ os, o.Tidy

structure Lays {α : Type} (block : Skeleton → α → Prop) (o : Outline) (a : α) : Prop where
  reads : block o.skeleton a
  tidy : o.Tidy

section Parts

variable {α : Type} {R : List Skeleton → α → Prop} {os : List Outline} {a : α}

theorem LaysOut.section? (h : LaysOut R os a) (k : Keyword) (absent : α)
    (habsent : os = [] → a = absent) :
    LaysOut (ReadsSection k R absent) (Outline.section? k os) a := by
  by_cases hne : os = []
  · subst hne
    rw [habsent rfl]
    exact ⟨.absent, List.forall_mem_nil _⟩
  · rw [Outline.section?, if_neg (by simpa using hne)]
    refine ⟨.present h.reads, ?_⟩
    simpa using Outline.tidy_section hne h.tidy

theorem LaysOut.opening (h : LaysOut R os a) {ps : List Piece} (hps : Heading ps) (absent : α)
    (habsent : os = [] → a = absent) :
    Lays (ReadsOpening R absent (lexemes ps)) (Outline.opening ps os) a := by
  refine ⟨?_, hps.opening h.tidy⟩
  by_cases hne : os = []
  · subst hne
    rw [habsent rfl]
    simpa [Outline.opening, Outline.skeleton, Outline.skeletons] using ReadsOpening.closed
  · have hopened : ReadsOpening R absent (lexemes ps) _ a := .opened h.reads
    simpa [Outline.opening, hne, Outline.skeleton] using hopened

end Parts

/-! Facts. -/

theorem LaysOut.facts {fs : List Fact} (h : ∀ f ∈ fs, Lays ReadsFact f.outline f) :
    LaysOut ReadsFacts (Fact.outlines fs) fs := by
  induction fs with
  | nil => exact ⟨.nil, List.forall_mem_nil _⟩
  | cons f fs ih =>
    obtain ⟨hf, hfs⟩ := List.forall_mem_cons.mp h
    have hrest := ih hfs
    exact ⟨.cons hf.reads hrest.reads, List.forall_mem_cons.mpr ⟨hf.tidy, hrest.tidy⟩⟩

theorem LaysOut.ifThen {premises conclusions : List Fact}
    (hp : LaysOut ReadsFacts (Fact.outlines premises) premises)
    (hc : LaysOut ReadsFacts (Fact.outlines conclusions) conclusions)
    (hne : premises ≠ [] → conclusions ≠ []) :
    LaysOut (fun ks b => ReadsIfThen ks b.1 b.2)
      (Outline.ifThen (Fact.outlines premises) (Fact.outlines conclusions))
      (premises, conclusions) := by
  by_cases hempty : premises = []
  · subst hempty
    exact ⟨.bare hc.reads, hc.tidy⟩
  · have hif := Outline.tidy_section (k := .ifKw) (by simpa using hempty) hp.tidy
    have hthen := Outline.tidy_section (k := .thenKw) (by simpa using hne hempty) hc.tidy
    rw [Outline.ifThen, if_neg (by simpa using hempty)]
    exact ⟨.both hp.reads hc.reads, by simp [hif, hthen]⟩

def Fact.quantifierPieces (gs : List GenericParam) (ps : List Param) : List Piece :=
  [kw .forallKw, space] ++
    (if gs.isEmpty then [] else bracketed (gs.map GenericParam.pieces) ++ [space]) ++ Param.list ps

theorem Prints.quantifier {gs : List GenericParam} {ps : List Param} (hgs : ∀ g ∈ gs, g.WellFormed)
    (hne : ps ≠ []) (hps : ∀ p ∈ ps, p.WellFormed) :
    Prints .quantifier (Fact.quantifierPieces gs ps) (gs, ps, []) := by
  have hgenerics := Prints.generics hgs
  have hparams :=
    Prints.commaSeparated (p := .param) (f := Param.pieces) hne fun p hp => (hps p hp).prints
  have hreads := Reads.quantifier hgenerics.reads hparams.reads .noGuards
  rw [Fact.quantifierPieces, Param.list, Param.piecesOfAll_eq_map]
  by_cases hempty : gs = []
  · subst hempty
    exact ⟨by simpa [bracketed] using hreads, by simp [hparams.closed, apart, isBreak]⟩
  · exact ⟨by simpa [hempty] using hreads,
      by simp [hempty, hgenerics.closed, hparams.closed, apart, isBreak]⟩

theorem Lays.universal {gs : List GenericParam} {ps : List Param} {premises conclusions : List Fact}
    (hgs : ∀ g ∈ gs, g.WellFormed) (hne : ps ≠ []) (hps : ∀ p ∈ ps, p.WellFormed)
    (hcne : conclusions ≠ []) (hp : LaysOut ReadsFacts (Fact.outlines premises) premises)
    (hc : LaysOut ReadsFacts (Fact.outlines conclusions) conclusions) :
    Lays ReadsFact (Fact.universal gs ps premises conclusions).outline
      (.universal gs ps premises conclusions) := by
  have hheader := Prints.quantifier hgs hne hps
  have hbody := hp.ifThen hc fun _ => hcne
  have hpieces : (Fact.universal gs ps premises conclusions).pieces =
      Fact.quantifierPieces gs ps ++ [sym .colon] := by
    simp [Fact.pieces, Fact.quantifierPieces, Param.list, hcne]
  rw [Fact.outline, hpieces]
  constructor
  · rw [Outline.skeleton, lexemes_append]
    exact .universal hheader.reads hbody.reads
  · have hheading := hheader.heading trivial (leads_cons _ _)
    exact hheading.opened (by simp [Outline.ifThen_eq_nil, hcne]) hbody.tidy

theorem Fact.WellFormed.laid : ∀ {f : Fact}, f.WellFormed → Lays ReadsFact f.outline f
  | _, .relational hs hlen h =>
    have hf := Fact.WellFormed.relational hs hlen h
    ⟨.specific (hf.prints rfl).reads, (hf.heading rfl).leaf⟩
  | _, .property h =>
    have hf := Fact.WellFormed.property h
    ⟨.specific (hf.prints rfl).reads, (hf.heading rfl).leaf⟩
  | _, .universal hgs hne hps hp hcne hc =>
    .universal hgs hne hps hcne (.facts fun f hf => Fact.WellFormed.laid (hp f hf))
      (.facts fun f hf => Fact.WellFormed.laid (hc f hf))

theorem LaysOut.wellFormed {fs : List Fact} (h : ∀ f ∈ fs, f.WellFormed) :
    LaysOut ReadsFacts (Fact.outlines fs) fs :=
  .facts fun f hf => (h f hf).laid

/-! Declarations and names. -/

theorem Prints.varDecl {vars : List Param} (hne : vars ≠ []) (h : ∀ p ∈ vars, p.WellFormed) :
    Prints .decl (Decl.var vars).pieces (.var vars) := by
  have hparams :=
    Prints.commaSeparated (p := .param) (f := Param.pieces) hne fun p hp => (h p hp).prints
  rw [Decl.pieces, Param.list, Param.piecesOfAll_eq_map]
  exact ⟨.varDecl hparams.reads, by simp [hparams.closed, apart, isBreak]⟩

theorem PropertyDecl.piecesAfter_closed {d : PropertyDecl} (h : d.WellFormed) (k : Keyword) :
    Sealed (d.piecesAfter k) := by
  have hname :=
    h.2.prints.closed.word_cons (l := .identifier d.name) rfl h.1 d.signature.isBreak_pieces
  have hspace : Sealed (space :: ident d.name :: d.signature.pieces) :=
    sealed_cons.mpr ⟨by simp, fun _ _ => rfl, hname⟩
  exact hspace.word_cons rfl trivial (by simp [isBreak])

theorem Decl.WellFormed.prints {d : Decl} (h : d.WellFormed) : Prints .decl d.pieces d := by
  cases d with
  | var vars => exact .varDecl h.1 h.2
  | property d =>
    exact ⟨.propertyDecl h.2.prints.reads, PropertyDecl.piecesAfter_closed h .property⟩
  | fn d =>
    obtain ⟨hname, hsignature, hresult⟩ := h
    have hclosed :=
      PropertyDecl.piecesAfter_closed (d := ⟨d.name, d.signature⟩) ⟨hname, hsignature⟩ .fn
    have hpieces : (Decl.fn d).pieces =
        PropertyDecl.piecesAfter .fn ⟨d.name, d.signature⟩ ++ space :: d.result.pieces := by
      simp [Decl.pieces, FnDecl.pieces, PropertyDecl.piecesAfter]
    have hreads := Reads.fnDecl (n := d.name) hsignature.prints.reads hresult.prints.reads
    rw [hpieces]
    refine ⟨?_, (sealed_append_space hclosed).mpr hresult.prints.closed⟩
    simpa [PropertyDecl.piecesAfter] using hreads

theorem LaysOut.decls {ds : List Decl} (h : ∀ d ∈ ds, d.WellFormed) :
    LaysOut (ReadsLines .decl) (Outline.ofDecls ds) ds := by
  induction ds with
  | nil => exact ⟨.nil, List.forall_mem_nil _⟩
  | cons d ds ih =>
    obtain ⟨hd, hds⟩ := List.forall_mem_cons.mp h
    have hrest := ih hds
    have hheading := hd.prints.heading trivial d.leads
    exact ⟨.cons ⟨rfl, hd.prints.reads⟩ hrest.reads,
      List.forall_mem_cons.mpr ⟨hheading.leaf, hrest.tidy⟩⟩

theorem LaysOut.members {m : Members} (h : ∀ d ∈ m.decls, d.WellFormed) :
    LaysOut ReadsMembers (Outline.ofDecls m.decls) m := by
  have hdecls := LaysOut.decls h
  exact ⟨⟨m.decls, hdecls.reads, m.ofDecls_decls.symm⟩, hdecls.tidy⟩

theorem Prints.names {names : List String} (hne : names ≠ [])
    (h : ∀ n ∈ names, Text.isName n = true) :
    Prints (.separated .comma .name) (Outline.ofNames names).header names :=
  .commaSeparated (p := .name) (f := fun n => [ident n]) hne fun n hn => .name (h n hn)

theorem Lays.names {names : List String} (hne : names ≠ [])
    (h : ∀ n ∈ names, Text.isName n = true) :
    Lays (ReadsLine (.separated .comma .name)) (Outline.ofNames names) names := by
  have hnames := Prints.names hne h
  have hleads : Leads (Outline.ofNames names).header := by
    cases names with
    | nil => exact absurd rfl hne
    | cons n ns => exact (leads_cons _ _).joined _ _
  exact ⟨⟨rfl, hnames.reads⟩, (hnames.heading ⟨by decide, trivial⟩ hleads).leaf⟩

theorem LaysOut.inherits {names : List String} (h : ∀ n ∈ names, Text.isName n = true) :
    LaysOut ReadsNames (if names.isEmpty then [] else [.ofNames names]) names := by
  by_cases hne : names = []
  · subst hne
    exact ⟨⟨[], .nil, rfl⟩, List.forall_mem_nil _⟩
  · have hline := Lays.names hne h
    rw [if_neg (by simpa using hne)]
    exact ⟨⟨[names], .cons hline.reads .nil, by simp⟩, by simpa using hline.tidy⟩

theorem LaysOut.conceptBody {c : ConceptBody} (h : c.WellFormed) :
    LaysOut ReadsConceptBody c.outlines c := by
  have hi := (LaysOut.inherits h.inherits).section? .inherit [] (by simp)
  have ht := (LaysOut.members h.typeMembers).section? .typeMember {} Members.eq_empty
  have hm := (LaysOut.members h.members).section? .member {} Members.eq_empty
  have hf := (LaysOut.wellFormed h.facts).section? .thenKw [] (by simp)
  constructor
  · refine ⟨_, _, _, _, ?_, hi.reads, ht.reads, hm.reads, hf.reads⟩
    simp [ConceptBody.outlines]
  · simp only [ConceptBody.outlines, List.forall_mem_append]
    exact ⟨⟨⟨hi.tidy, ht.tidy⟩, hm.tidy⟩, hf.tidy⟩

theorem LaysOut.existBody {e : ExistBody} (h : e.WellFormed) :
    LaysOut ReadsExistBody
      (Outline.section? .ifKw (Fact.outlines e.premises) ++
        Outline.section? .member (Outline.ofDecls e.members) ++
        Outline.section? .thenKw (Fact.outlines e.conclusions)) e := by
  have hp := (LaysOut.wellFormed h.premises).section? .ifKw [] (by simp)
  have hm := (LaysOut.decls h.members).section? .member [] (by simp [Outline.ofDecls])
  have hc := (LaysOut.wellFormed h.conclusions).section? .thenKw [] (by simp)
  constructor
  · refine ⟨_, _, _, ?_, hp.reads, hm.reads, hc.reads⟩
    simp
  · simp only [List.forall_mem_append]
    exact ⟨⟨hp.tidy, hm.tidy⟩, hc.tidy⟩

/-! Statements. -/

namespace Lays

theorem imp {α β : Type} {R : Skeleton → α → Prop} {S : Skeleton → β → Prop} {o : Outline} {a : α}
    {b : β} (h : Lays R o a) (himp : R o.skeleton a → S o.skeleton b) : Lays S o b :=
  ⟨himp h.reads, h.tidy⟩

theorem knowFact {f : Fact} (h : Lays ReadsFact f.outline f) :
    Lays ReadsStatement (Statement.know [f]).outline (.know [f]) := by
  rw [Statement.outline]
  generalize f.outline = o at h
  obtain ⟨header, body⟩ := o
  exact ⟨.knowFact h.reads, h.tidy.marked .know⟩

theorem know {facts : List Fact} (hne : facts ≠ []) (h : ∀ f ∈ facts, f.WellFormed) :
    Lays ReadsStatement (Statement.know facts).outline (.know facts) := by
  match facts with
  | [] => exact absurd rfl hne
  | [f] => exact knowFact (h f (by simp)).laid
  | f :: f' :: fs =>
    have hbody := LaysOut.wellFormed h
    exact ⟨.know hbody.reads, Outline.tidy_section (by simp) hbody.tidy⟩

theorem claim {goals : List Fact} {proof : List Statement} (hgoals : ∀ f ∈ goals, f.WellFormed)
    (hne : proof ≠ []) (h : LaysOut ReadsStatements (Statement.outlines proof) proof) :
    Lays ReadsStatement (Statement.claim goals proof).outline (.claim goals proof) := by
  have houtlines : Statement.outlines proof ≠ [] := by
    cases proof with
    | nil => exact absurd rfl hne
    | cons s ss => exact List.cons_ne_nil _ _
  have hsection := Outline.tidy_section (k := .proof) houtlines h.tidy
  rw [Statement.outline]
  by_cases hempty : goals = []
  · subst hempty
    exact ⟨.proof h.reads, hsection⟩
  · have hfacts := LaysOut.wellFormed hgoals
    rw [if_neg (by simpa using hempty)]
    constructor
    · rw [Outline.skeleton_section, Outline.skeletons_append]
      exact .claim hfacts.reads h.reads
    · refine Outline.tidy_section (by simp) (List.forall_mem_append.mpr ⟨hfacts.tidy, ?_⟩)
      simpa using hsection

theorem witness {call : Call} {names : List String} (hcall : call.Predicate) (hne : names ≠ [])
    (hnames : ∀ n ∈ names, Text.isName n = true) :
    Lays ReadsStatement (Statement.witness ⟨true, call⟩ names).outline
      (.witness ⟨true, call⟩ names) := by
  have hpredicate := hcall.prints
  have hline := Lays.names hne hnames
  have hclosed : Sealed (kw .haveKw :: space :: sym .dollar :: call.pieces) := by
    simp [hpredicate.closed, apart, isBreak, Symbol.isPunctuation]
  have hcolon := hpredicate.reads.colon_notMem trivial
  have hheading : Heading (kw .haveKw :: space :: sym .dollar :: call.pieces) :=
    ⟨hclosed, leads_cons _ _, by simpa using hcolon⟩
  constructor
  · have hreads := ReadsStatement.witness hpredicate.reads hline.reads
    simpa [Statement.outline, Outline.skeleton, Outline.skeletons, Predication.pieces,
      Predication.fact, Fact.pieces, denial] using hreads
  · have htidy := hheading.opened (List.cons_ne_nil _ _) (List.forall_mem_singleton.mpr hline.tidy)
    simpa [Statement.outline, Predication.pieces, Predication.fact, Fact.pieces, denial] using htidy

theorem use {name : String} {value : Term} (hname : Text.isName name = true)
    (hvalue : value.WellFormed) :
    Lays ReadsStatement (Statement.use name value).outline (.use name value) := by
  have hsum := hvalue.prints.sum
  have hcolon := hsum.reads.colon_notMem trivial
  have hheading : Heading (kw .use :: space :: ident name :: space :: value.pieces) :=
    ⟨by simp [hsum.closed, Lexeme.Spelled, hname, apart, isBreak], leads_cons _ _,
      by simpa using hcolon⟩
  exact ⟨.use hsum.reads, hheading.leaf⟩

theorem exist {d : PropertyDecl} {e : ExistBody} (hd : d.WellFormed) (he : e.WellFormed) :
    Lays ReadsStatement (Statement.exist d e.premises e.members e.conclusions).outline
      (.exist d e.premises e.members e.conclusions) := by
  have hcolon := hd.2.prints.reads.colon_notMem trivial
  have hheading : Heading (d.piecesAfter .exist) :=
    ⟨PropertyDecl.piecesAfter_closed hd .exist, leads_cons _ _,
      by simpa [PropertyDecl.piecesAfter] using hcolon⟩
  refine ((LaysOut.existBody he).opening hheading {} ?_).imp (.exist hd.2.prints.reads)
  intro hnil
  obtain ⟨premises, members, conclusions⟩ := e
  simp_all [Outline.ofDecls]

theorem conditions {d : Decl} {premises conclusions : List Fact} (hd : d.WellFormed)
    (h : Fact.ConditionsWellFormed premises conclusions) :
    Lays (ReadsOpening (fun ks b => ReadsIfThen ks b.1 b.2) ([], []) (lexemes d.pieces))
      (.opening d.pieces (Outline.ifThen (Fact.outlines premises) (Fact.outlines conclusions)))
      (premises, conclusions) := by
  have hbody := (LaysOut.wellFormed h.premises).ifThen (.wellFormed h.conclusions) h.nonempty
  have hheading := hd.prints.heading trivial d.leads
  exact hbody.opening hheading ([], []) (by simp [Outline.ifThen_eq_nil])

theorem member {owner : GenericParam} {self : Param} {d : Decl} {facts : List Fact}
    (howner : owner.WellFormed) (hself : self.WellFormed) (hd : d.WellFormed)
    (hfacts : ∀ f ∈ facts, f.WellFormed) :
    Lays ReadsStatement (Statement.member owner self d facts).outline
      (.member owner self d facts) := by
  have hdecl := hd.prints
  have hcolon := hdecl.reads.colon_notMem trivial
  have hgeneric := Prints.genericParam howner
  have hparam := hself.prints
  have hcolon' := hparam.reads.colon_notMem trivial
  have hheading : Heading ([kw .member, space, sym .lbracket] ++ owner.pieces ++
      [sym .rbracket, space, sym .lparen] ++ self.pieces ++ [sym .rparen, space] ++ d.pieces) :=
    ⟨by simp [hgeneric.closed, hparam.closed, hdecl.closed, apart, isBreak, isClosed,
      Symbol.isPunctuation], leads_cons _ _, by simp [GenericParam.pieces, hcolon, hcolon']⟩
  refine ((LaysOut.wellFormed hfacts).opening hheading [] (by simp)).imp fun hopening => ?_
  cases hself with
  | mk hname htype =>
    exact .member htype.prints.reads hdecl.reads
      (by simpa [GenericParam.pieces, Param.pieces] using hopening)

theorem typeMember {owner : GenericParam} {d : Decl} {facts : List Fact} (howner : owner.WellFormed)
    (hd : d.WellFormed) (hfacts : ∀ f ∈ facts, f.WellFormed) :
    Lays ReadsStatement (Statement.typeMember owner d facts).outline
      (.typeMember owner d facts) := by
  have hdecl := hd.prints
  have hcolon := hdecl.reads.colon_notMem trivial
  have hgeneric := Prints.genericParam howner
  have hheading : Heading
      ([kw .typeMember, space, sym .lbracket] ++ owner.pieces ++ [sym .rbracket, space] ++
        d.pieces) :=
    ⟨by simp [hgeneric.closed, hdecl.closed, apart, isBreak, Symbol.isPunctuation], leads_cons _ _,
      by simp [GenericParam.pieces, hcolon]⟩
  refine ((LaysOut.wellFormed hfacts).opening hheading [] (by simp)).imp fun hopening => ?_
  exact .typeMember hdecl.reads (by simpa [GenericParam.pieces] using hopening)

end Lays

theorem LaysOut.statements {ss : List Statement} (h : ∀ s ∈ ss, Lays ReadsStatement s.outline s) :
    LaysOut ReadsStatements (Statement.outlines ss) ss := by
  induction ss with
  | nil => exact ⟨.nil, List.forall_mem_nil _⟩
  | cons s ss ih =>
    obtain ⟨hs, hss⟩ := List.forall_mem_cons.mp h
    have hrest := ih hss
    exact ⟨.cons hs.reads hrest.reads, List.forall_mem_cons.mpr ⟨hs.tidy, hrest.tidy⟩⟩

/-- The outline of a well-formed statement is tidy and read as the statement. -/
theorem Statement.WellFormed.laid {s : Statement} (h : s.WellFormed) :
    Lays ReadsStatement s.outline s := by
  induction h with
  | var hne hvars hfacts =>
    have hdecl := Prints.varDecl hne hvars
    have hheading := hdecl.heading trivial (Decl.leads _)
    exact ((LaysOut.wellFormed hfacts).opening hheading [] (by simp)).imp (.var hdecl.reads)
  | @concept typeVar name body htypeVar hname hbody =>
    have hheading : Heading [kw .concept, space, ident typeVar, space, ident name] :=
      ⟨by simp [Lexeme.Spelled, htypeVar, hname, apart, isBreak], leads_cons _ _, by simp⟩
    exact ((LaysOut.conceptBody hbody).opening hheading {} ConceptBody.eq_empty).imp .concept
  | @type name body hname hbody =>
    have hheading : Heading [kw .type, space, ident name] :=
      ⟨by simp [Lexeme.Spelled, hname, apart, isBreak], leads_cons _ _, by simp⟩
    exact ((LaysOut.conceptBody hbody).opening hheading {} ConceptBody.eq_empty).imp .type
  | @property d _ _ hd h =>
    have hdecl := Decl.WellFormed.prints (d := .property d) hd
    exact (Lays.conditions (d := .property d) hd h).imp (.property hdecl.reads)
  | @fn d _ _ hd h =>
    have hdecl := Decl.WellFormed.prints (d := .fn d) hd
    exact (Lays.conditions (d := .fn d) hd h).imp (.fn hdecl.reads)
  | claim hgoals hne _ ih => exact .claim hgoals hne (.statements ih)
  | know hne hfacts => exact .know hne hfacts
  | use hname hvalue => exact .use hname hvalue
  | exist hd hp hm hc => exact .exist (e := ⟨_, _, _⟩) hd ⟨hp, hm, hc⟩
  | witness hcall hne hnames => exact .witness hcall hne hnames
  | member howner hself hd hfacts => exact .member howner hself hd hfacts
  | typeMember howner hd hfacts => exact .typeMember howner hd hfacts
  | fact hf => exact hf.laid.imp .fact

theorem TopStatement.laid {t : TopStatement} (h : t.statement.WellFormed) :
    Lays (fun k s => ReadsTop k t.isPublic s) t.outline t.statement := by
  have hlaid := h.laid
  rw [TopStatement.outline]
  generalize t.statement.outline = o at hlaid
  obtain ⟨header, body⟩ := o
  cases hpub : t.isPublic with
  | false => exact hlaid.imp .plain
  | true => exact ⟨.marked hlaid.reads, hlaid.tidy.marked .pub⟩

end FactScript
