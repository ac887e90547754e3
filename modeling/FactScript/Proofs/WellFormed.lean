import FactScript.Proofs.BlockGrammar
import FactScript.Term.Printer

/-!
Well-formed statements: the statements that some text stands for. The conditions are on the
statement alone. Here it is shown that whatever the grammar derives from a text that is laid out in
lines is well formed; the converse is about printing.
-/
namespace FactScript

theorem Term.operator?_of_mem {op : Symbol} (h : op ∈ Term.operators) :
    (Term.atom op.text).operator? [] = some op := by
  have hall : ∀ op ∈ Term.operators, (Term.atom op.text).operator? [] = some op := by decide +kernel
  exact hall op h

theorem Members.mem_decls_ofDecls {ds : List Decl} {d : Decl} :
    d ∈ (ofDecls ds).decls ↔ d ∈ ds := by
  induction ds with
  | nil => simp [decls, ofDecls]
  | cons d' ds ih =>
    simp only [decls, ofDecls] at ih
    cases d' <;> cases d <;> simp_all [decls, ofDecls]

theorem ReadsFacts.ne_nil {ks : List Skeleton} {fs : List Fact} (h : ReadsFacts ks fs)
    (hks : ks ≠ []) :
    fs ≠ [] := by
  cases h with
  | nil => exact absurd rfl hks
  | cons _ _ => exact List.cons_ne_nil _ _

theorem ReadsStatements.ne_nil {ks : List Skeleton} {ss : List Statement}
    (h : ReadsStatements ks ss) (hks : ks ≠ []) : ss ≠ [] := by
  cases h with
  | nil => exact absurd rfl hks
  | cons _ _ => exact List.cons_ne_nil _ _

variable [Alphabet]

def GenericParam.WellFormed (g : GenericParam) : Prop :=
  Text.isName g.name = true ∧ Text.isName g.concept = true

def TypeArg.WellFormed : TypeArg → Prop
  | .plain name => Text.isName name = true
  | .ascribed name concept => Text.isName name = true ∧ Text.isName concept = true

mutual

/-- A name, applied any number of times. -/
inductive Term.Segment : Term → Prop
  | atom {name} : Text.isName name = true → Term.Segment (.atom name)
  | call {callee typeArgs args} : Term.Segment callee → (∀ a ∈ typeArgs, a.WellFormed) →
      (∀ t ∈ args, Term.WellFormed t) → Term.Segment (.call ⟨callee, typeArgs, args⟩)

inductive Term.WellFormed : Term → Prop
  | segment {t} : Term.Segment t → Term.WellFormed t
  | chain {parts} :
      2 ≤ parts.length → (∀ t ∈ parts, Term.Segment t) → Term.WellFormed (.chain parts)
  | number {text} : Numeral text → Term.WellFormed (.number text)
  | ascribed {t s} : Term.WellFormed t → Signature.WellFormed s → Term.WellFormed (.ascribed t s)
  | binary {op l r} : op ∈ Term.operators → Term.WellFormed l → Term.WellFormed r →
      Term.WellFormed (.apply op [l, r])
  | negation {t} : Term.WellFormed t → Term.WellFormed (.apply .minus [t])

/-- The call of a property: of a segment, or of a chain of at least two. -/
inductive Call.Predicate : Call → Prop
  | plain {callee typeArgs args} : Term.Segment callee → (∀ a ∈ typeArgs, a.WellFormed) →
      (∀ t ∈ args, Term.WellFormed t) → Call.Predicate ⟨callee, typeArgs, args⟩
  | chain {parts typeArgs args} : 2 ≤ parts.length → (∀ t ∈ parts, Term.Segment t) →
      (∀ a ∈ typeArgs, a.WellFormed) → (∀ t ∈ args, Term.WellFormed t) →
      Call.Predicate ⟨.chain parts, typeArgs, args⟩

/-- No guard is a universal fact. -/
inductive Signature.WellFormed : Signature → Prop
  | mk {generics params guards} :
      (∀ g ∈ generics, g.WellFormed) → (∀ p ∈ params, Param.WellFormed p) →
      (∀ f ∈ guards, Fact.WellFormed f) → (∀ f ∈ guards, f.isSpecific = true) →
        Signature.WellFormed ⟨generics, params, guards⟩

inductive Param.WellFormed : Param → Prop
  | mk {name type} : Text.isName name = true → Ty.WellFormed type → Param.WellFormed ⟨name, type⟩

inductive Ty.WellFormed : Ty → Prop
  | named {name} : Text.isName name = true → Ty.WellFormed (.named name)
  | fn {s r} : Signature.WellFormed s → Ty.WellFormed r → Ty.WellFormed (.fn s r)
  | property {s} : Signature.WellFormed s → Ty.WellFormed (.property s)
  | placeholder (k : Placeholder) : Ty.WellFormed (.placeholder k)

inductive Fact.WellFormed : Fact → Prop
  | relational {holds operator operands} : operator.isRelational = true → 2 ≤ operands.length →
      (∀ t ∈ operands, Term.WellFormed t) → Fact.WellFormed (.relational holds operator operands)
  | property {holds call} : Call.Predicate call → Fact.WellFormed (.property holds call)
  | universal {generics params premises conclusions} :
      (∀ g ∈ generics, g.WellFormed) → params ≠ [] → (∀ p ∈ params, Param.WellFormed p) →
      (∀ f ∈ premises, Fact.WellFormed f) → conclusions ≠ [] →
      (∀ f ∈ conclusions, Fact.WellFormed f) →
        Fact.WellFormed (.universal generics params premises conclusions)

end

def FnDecl.WellFormed (d : FnDecl) : Prop :=
  Text.isName d.name = true ∧ d.signature.WellFormed ∧ d.result.WellFormed

def PropertyDecl.WellFormed (d : PropertyDecl) : Prop :=
  Text.isName d.name = true ∧ d.signature.WellFormed

def Decl.WellFormed : Decl → Prop
  | .var vars => vars ≠ [] ∧ ∀ p ∈ vars, p.WellFormed
  | .fn d => d.WellFormed
  | .property d => d.WellFormed

structure ConceptBody.WellFormed (c : ConceptBody) : Prop where
  inherits : ∀ n ∈ c.inherits, Text.isName n = true
  typeMembers : ∀ d ∈ c.typeMembers.decls, d.WellFormed
  members : ∀ d ∈ c.members.decls, d.WellFormed
  facts : ∀ f ∈ c.facts, f.WellFormed

/-- Premises do not stand alone. -/
structure Fact.ConditionsWellFormed (ps cs : List Fact) : Prop where
  premises : ∀ f ∈ ps, f.WellFormed
  conclusions : ∀ f ∈ cs, f.WellFormed
  nonempty : ps ≠ [] → cs ≠ []

inductive Statement.WellFormed : Statement → Prop
  | var {vars facts} : vars ≠ [] → (∀ p ∈ vars, p.WellFormed) → (∀ f ∈ facts, f.WellFormed) →
      WellFormed (.var vars facts)
  | concept {typeVar name body} : Text.isName typeVar = true → Text.isName name = true →
      body.WellFormed → WellFormed (.concept typeVar name body)
  | type {name body} : Text.isName name = true → body.WellFormed → WellFormed (.type name body)
  | property {d premises conclusions} : d.WellFormed →
      Fact.ConditionsWellFormed premises conclusions → WellFormed (.property d premises conclusions)
  | fn {d premises conclusions} : d.WellFormed → Fact.ConditionsWellFormed premises conclusions →
      WellFormed (.fn d premises conclusions)
  | claim {goals proof} : (∀ f ∈ goals, f.WellFormed) → proof ≠ [] → (∀ s ∈ proof, s.WellFormed) →
      WellFormed (.claim goals proof)
  | know {facts} : facts ≠ [] → (∀ f ∈ facts, f.WellFormed) → WellFormed (.know facts)
  | use {name value} : Text.isName name = true → value.WellFormed → WellFormed (.use name value)
  | exist {d premises members conclusions} : d.WellFormed → (∀ f ∈ premises, f.WellFormed) →
      (∀ d ∈ members, d.WellFormed) → (∀ f ∈ conclusions, f.WellFormed) →
      WellFormed (.exist d premises members conclusions)
  | witness {call names} : call.Predicate → names ≠ [] → (∀ n ∈ names, Text.isName n = true) →
      WellFormed (.witness ⟨true, call⟩ names)
  | member {owner self d facts} : owner.WellFormed → self.WellFormed → d.WellFormed →
      (∀ f ∈ facts, f.WellFormed) → WellFormed (.member owner self d facts)
  | typeMember {owner d facts} : owner.WellFormed → d.WellFormed → (∀ f ∈ facts, f.WellFormed) →
      WellFormed (.typeMember owner d facts)
  | fact {f} : f.WellFormed → WellFormed (.fact f)

/-! What phrases stand for. -/

def Fact.Guards (fs : List Fact) : Prop := ∀ f ∈ fs, f.WellFormed ∧ f.isSpecific = true

def Phrase.WellFormed : (p : Phrase) → p.Meaning → Prop
  | .name, n => Text.isName n = true
  | .typeArg, a => a.WellFormed
  | .typeArgs, as => ∀ a ∈ as, a.WellFormed
  | .genericParam, g => g.WellFormed
  | .generics, (gs, fs) => (∀ g ∈ gs, g.WellFormed) ∧ Fact.Guards fs
  | .param, p => p.WellFormed
  | .valueParams, (ps, fs) => (∀ p ∈ ps, p.WellFormed) ∧ Fact.Guards fs
  | .signature, s => s.WellFormed
  | .args, ts => ∀ t ∈ ts, t.WellFormed
  | .applications, l => ∀ a ∈ l, (∀ x ∈ a.1, x.WellFormed) ∧ ∀ t ∈ a.2, t.WellFormed
  | .segment, t => t.Segment
  | .chain, t => t.WellFormed
  | .predicate, c => c.Predicate
  | .atom, t => t.WellFormed
  | .power, t => t.WellFormed
  | .unary, t => t.WellFormed
  | .product, t => t.WellFormed
  | .sum, t => t.WellFormed
  | .type, t => t.WellFormed
  | .specific, f => f.WellFormed ∧ f.isSpecific = true
  | .guards, fs => Fact.Guards fs
  | .quantifier, (gs, ps, fs) =>
    (∀ g ∈ gs, g.WellFormed) ∧ ps ≠ [] ∧ (∀ p ∈ ps, p.WellFormed) ∧ Fact.Guards fs
  | .decl, d => d.WellFormed
  | .separated _ p, as => as ≠ [] ∧ ∀ a ∈ as, p.WellFormed a

section Calls

theorem Term.Segment.applied {t : Term} (ht : t.Segment) (l : List (List TypeArg × List Term))
    (hl : Phrase.WellFormed .applications l) : (t.applied l).Segment := by
  induction l generalizing t with
  | nil => exact ht
  | cons a l ih =>
    obtain ⟨⟨htypeArgs, hargs⟩, hrest⟩ := List.forall_mem_cons.mp hl
    exact ih (.call ht htypeArgs hargs) hrest

/-- The spelling of an operator is no name. -/
theorem Term.operator?_of_isName {name : String} (h : Text.isName name = true)
    (typeArgs : List TypeArg) :
    (Term.atom name).operator? typeArgs = none := by
  rw [Term.operator?]
  split
  · rw [List.find?_eq_none]
    intro op hop heq
    rw [← beq_iff_eq.mp heq, op.isName_text] at h
    cases h
  · rfl

theorem Term.Segment.operator?_eq_none {t : Term} (h : t.Segment) (typeArgs : List TypeArg) :
    t.operator? typeArgs = none := by
  cases h with
  | atom hname => exact Term.operator?_of_isName hname typeArgs
  | call => rfl

theorem Term.Segment.predicate {c : Call} (h : (Term.call c).Segment) : c.Predicate := by
  cases h with
  | call hcallee htypeArgs hargs => exact .plain hcallee htypeArgs hargs

theorem Term.Segment.dottedPredicate {ts : List Term} {c : Call} (hne : ts ≠ [])
    (hts : ∀ t ∈ ts, t.Segment) (h : (Term.call c).Segment) :
    Call.Predicate ⟨.chain (ts ++ [c.callee]), c.typeArgs, c.args⟩ := by
  have hlen : 0 < ts.length := List.length_pos_iff.mpr hne
  cases h with
  | call hcallee htypeArgs hargs =>
    refine .chain (by simp; omega) ?_ htypeArgs hargs
    exact List.forall_mem_append.mpr ⟨hts, by simpa using hcallee⟩

end Calls

theorem Fact.Guards.append {fs fs' : List Fact} (h : Guards fs) (h' : Guards fs') :
    Guards (fs ++ fs') :=
  List.forall_mem_append.mpr ⟨h, h'⟩

theorem Signature.wellFormed_mk {gs : List GenericParam} {ps : List Param} {fs : List Fact}
    (hgs : ∀ g ∈ gs, g.WellFormed) (hps : ∀ p ∈ ps, p.WellFormed) (hfs : Fact.Guards fs) :
    Signature.WellFormed ⟨gs, ps, fs⟩ :=
  .mk hgs hps (fun f hf => (hfs f hf).1) fun f hf => (hfs f hf).2

theorem Reads.wellFormed {p : Phrase} {u : List Lexeme} {a : p.Meaning} (h : Reads p u a)
    (hu : Lexeme.AllSpelled u) : p.WellFormed a := by
  induction h with
  | name n => exact (Lexeme.allSpelled_cons.mp hu).1
  | one _ ih => exact ⟨by simp, by simpa using ih hu⟩
  | more _ _ ih ih' =>
    simp only [Lexeme.allSpelled_append, Lexeme.allSpelled_cons] at hu
    exact ⟨by simp, List.forall_mem_cons.mpr ⟨ih hu.1, (ih' hu.2.2).2⟩⟩
  | plainTypeArg n => exact (Lexeme.allSpelled_cons.mp hu).1
  | ascribedTypeArg n c =>
    simp only [Lexeme.allSpelled_cons] at hu
    exact ⟨hu.2.2.1, hu.2.2.2.2.1⟩
  | typeArgs _ ih =>
    simp only [List.cons_append, Lexeme.allSpelled_cons, Lexeme.allSpelled_append] at hu
    exact (ih hu.2.1).2
  | genericParam n c =>
    simp only [Lexeme.allSpelled_cons] at hu
    exact ⟨hu.1, hu.2.1⟩
  | noGuards => exact List.forall_mem_nil _
  | someGuards _ ih => exact (ih (Lexeme.allSpelled_cons.mp hu).2).2
  | noGenerics => exact ⟨List.forall_mem_nil _, List.forall_mem_nil _⟩
  | someGenerics _ _ ih ih' =>
    simp only [List.cons_append, Lexeme.allSpelled_cons, Lexeme.allSpelled_append] at hu
    exact ⟨(ih hu.2.1.1).2, ih' hu.2.1.2⟩
  | param _ ih =>
    rw [Lexeme.allSpelled_cons] at hu
    exact .mk hu.1 (ih hu.2)
  | noParams _ ih =>
    simp only [List.cons_append, Lexeme.allSpelled_cons, Lexeme.allSpelled_append] at hu
    exact ⟨List.forall_mem_nil _, ih hu.2.1⟩
  | someParams _ _ ih ih' =>
    simp only [List.cons_append, Lexeme.allSpelled_cons, Lexeme.allSpelled_append] at hu
    exact ⟨(ih hu.2.1.1).2, ih' hu.2.1.2⟩
  | signature _ _ ih ih' =>
    rw [Lexeme.allSpelled_append] at hu
    obtain ⟨hgs, hfs⟩ := ih hu.1
    obtain ⟨hps, hfs'⟩ := ih' hu.2
    exact Signature.wellFormed_mk hgs hps (hfs.append hfs')
  | named n => exact .named (Lexeme.allSpelled_cons.mp hu).1
  | fnType _ _ ih ih' =>
    simp only [List.cons_append, Lexeme.allSpelled_cons, Lexeme.allSpelled_append] at hu
    exact .fn (ih hu.2.1) (ih' hu.2.2)
  | propertyType _ ih => exact .property (ih (Lexeme.allSpelled_cons.mp hu).2)
  | placeholder k => exact .placeholder k
  | noArgs => exact List.forall_mem_nil _
  | someArgs _ ih =>
    simp only [List.cons_append, Lexeme.allSpelled_cons, Lexeme.allSpelled_append] at hu
    exact (ih hu.2.1).2
  | noApplications => exact List.forall_mem_nil _
  | valueApplication _ _ ih ih' =>
    rw [Lexeme.allSpelled_append] at hu
    exact List.forall_mem_cons.mpr ⟨⟨List.forall_mem_nil _, ih hu.1⟩, ih' hu.2⟩
  | typeApplication _ _ _ ih ih' =>
    rw [Lexeme.allSpelled_append] at hu
    exact List.forall_mem_cons.mpr ⟨⟨ih hu.1, List.forall_mem_nil _⟩, ih' hu.2⟩
  | fullApplication _ _ _ ih ih' ih'' =>
    simp only [Lexeme.allSpelled_append] at hu
    exact List.forall_mem_cons.mpr ⟨⟨ih hu.1.1, ih' hu.1.2⟩, ih'' hu.2⟩
  | segment _ ih =>
    rw [Lexeme.allSpelled_cons] at hu
    exact Term.Segment.applied (.atom hu.1) _ (ih hu.2)
  | soleSegment _ ih => exact .segment (ih hu)
  | dotted _ hlen ih => exact .chain hlen (ih hu).2
  | solePredicate _ ih => exact (ih hu).predicate
  | dottedPredicate _ _ ih ih' =>
    simp only [Lexeme.allSpelled_append, Lexeme.allSpelled_cons] at hu
    obtain ⟨hne, hts⟩ := ih hu.1
    exact Term.Segment.dottedPredicate hne hts (ih' hu.2.2)
  | parenthesized _ ih =>
    simp only [List.cons_append, Lexeme.allSpelled_cons, Lexeme.allSpelled_append] at hu
    exact ih hu.2.1
  | ascription _ _ ih ih' =>
    simp only [List.cons_append, List.append_assoc, Lexeme.allSpelled_cons,
      Lexeme.allSpelled_append] at hu
    exact .ascribed (ih hu.2.2.1) (ih' hu.2.2.2.2.2.1)
  | whole hw => exact .number (.whole hw)
  | fraction hw hf => exact .number (.fraction hw hf)
  | chainAtom _ ih | base _ ih | unsigned _ ih | factor _ ih | summand _ ih => exact ih hu
  | exponentiation _ _ ih ih' =>
    simp only [Lexeme.allSpelled_append, Lexeme.allSpelled_cons] at hu
    exact .binary (by decide) (ih hu.1) (ih' hu.2.2)
  | negation _ ih => exact .negation (ih (Lexeme.allSpelled_cons.mp hu).2)
  | multiplication op hop _ _ ih ih' | addition op hop _ _ ih ih' =>
    simp only [Lexeme.allSpelled_append, Lexeme.allSpelled_cons] at hu
    have hmem : op ∈ Term.operators := by rcases hop with rfl | rfl <;> decide
    exact .binary hmem (ih hu.1) (ih' hu.2.2)
  | predication _ ih => exact ⟨.property (ih (Lexeme.allSpelled_cons.mp hu).2), rfl⟩
  | isA _ ih =>
    simp only [Lexeme.allSpelled_append, Lexeme.allSpelled_cons] at hu
    have hcall := Call.Predicate.plain (.atom hu.2.2.1) (List.forall_mem_nil _)
      (List.forall_mem_singleton.mpr (ih hu.1))
    exact ⟨.property hcall, rfl⟩
  | isATyped _ _ ih ih' =>
    simp only [List.cons_append, List.append_assoc, Lexeme.allSpelled_append,
      Lexeme.allSpelled_cons] at hu
    have hcall := Call.Predicate.plain (.atom hu.2.2.1)
      (List.forall_mem_singleton.mpr (ih' hu.2.2.2.2.1)) (List.forall_mem_singleton.mpr (ih hu.1))
    exact ⟨.property hcall, rfl⟩
  | relation s hs _ hlen ih => exact ⟨.relational hs hlen (ih hu).2, rfl⟩
  | deniedProperty _ ih =>
    cases (ih (Lexeme.allSpelled_cons.mp hu).2).1 with
    | property hcall => exact ⟨.property hcall, rfl⟩
  | deniedRelation _ ih =>
    cases (ih (Lexeme.allSpelled_cons.mp hu).2).1 with
    | relational hs hlen hts => exact ⟨.relational hs hlen hts, rfl⟩
  | quantifier _ _ _ ih ih' ih'' =>
    simp only [List.cons_append, Lexeme.allSpelled_cons, Lexeme.allSpelled_append] at hu
    obtain ⟨hgs, hfs⟩ := ih hu.2.1.1
    obtain ⟨hne, hps⟩ := ih' hu.2.1.2
    exact ⟨hgs, hne, hps, hfs.append (ih'' hu.2.2)⟩
  | varDecl _ ih => exact ih (Lexeme.allSpelled_cons.mp hu).2
  | fnDecl _ _ ih ih' =>
    simp only [List.cons_append, Lexeme.allSpelled_cons, Lexeme.allSpelled_append] at hu
    exact ⟨hu.2.1, ih hu.2.2.1, ih' hu.2.2.2⟩
  | propertyDecl _ ih =>
    simp only [Lexeme.allSpelled_cons] at hu
    exact ⟨hu.2.1, ih hu.2.2⟩

/-! What blocks stand for. A header that ends in a colon has something below it, so the lists that
the grammar reads from a section are not empty. -/

theorem Skeleton.Laid.section_ne_nil {k : Keyword} {body : List Skeleton}
    (h : (section_ k body).Laid) :
    body ≠ [] := h.nonempty_iff.mpr rfl

theorem ReadsIfThen.conclusions_ne_nil {ks : List Skeleton} {premises conclusions : List Fact}
    (h : ReadsIfThen ks premises conclusions) (hks : ∀ k ∈ ks, k.Laid) (hne : ks ≠ []) :
    conclusions ≠ [] := by
  cases h with
  | both _ hc => exact hc.ne_nil (Skeleton.Laid.section_ne_nil (k := .thenKw) (hks _ (by simp)))
  | conclusions hc =>
    exact hc.ne_nil (Skeleton.Laid.section_ne_nil (k := .thenKw) (hks _ (by simp)))
  | bare hc => exact hc.ne_nil hne

mutual

theorem ReadsFact.wellFormed : ∀ {k : Skeleton} {f : Fact}, ReadsFact k f → k.Laid → f.WellFormed
  | _, _, .specific h, hk => (h.wellFormed hk.spelled).1
  | _, _, .universal h hif, hk => by
    have hheader := Lexeme.allSpelled_append.mp hk.spelled
    have hbody := hk.nonempty_iff.mpr List.getLast?_concat
    obtain ⟨hgs, hne, hps, hguards⟩ := h.wellFormed hheader.1
    obtain ⟨hpremises, hconclusions⟩ := ReadsIfThen.wellFormed hif hk.of_mem
    refine .universal hgs hne hps ?_ (hif.conclusions_ne_nil hk.of_mem hbody) hconclusions
    exact List.forall_mem_append.mpr ⟨fun f hf => (hguards f hf).1, hpremises⟩

theorem ReadsFacts.wellFormed : ∀ {ks : List Skeleton} {fs : List Fact}, ReadsFacts ks fs →
    (∀ k ∈ ks, k.Laid) → ∀ f ∈ fs, f.WellFormed
  | _, _, .nil, _ => List.forall_mem_nil _
  | _, _, .cons hf hfs, hks => by
    obtain ⟨hk, hrest⟩ := List.forall_mem_cons.mp hks
    exact List.forall_mem_cons.mpr ⟨ReadsFact.wellFormed hf hk, ReadsFacts.wellFormed hfs hrest⟩

theorem ReadsIfThen.wellFormed : ∀ {ks : List Skeleton} {premises conclusions : List Fact},
    ReadsIfThen ks premises conclusions → (∀ k ∈ ks, k.Laid) →
      (∀ f ∈ premises, f.WellFormed) ∧ ∀ f ∈ conclusions, f.WellFormed
  | _, _, _, .both hp hc, hks => by
    obtain ⟨hif, hthen, -⟩ := List.forall_mem_cons.mp hks |>.imp_right List.forall_mem_cons.mp
    exact ⟨ReadsFacts.wellFormed hp hif.of_mem, ReadsFacts.wellFormed hc hthen.of_mem⟩
  | _, _, _, .conclusions hc, hks =>
    ⟨List.forall_mem_nil _, ReadsFacts.wellFormed hc (List.forall_mem_cons.mp hks).1.of_mem⟩
  | _, _, _, .bare hc, hks => ⟨List.forall_mem_nil _, ReadsFacts.wellFormed hc hks⟩

end

theorem ReadsIfThen.conditions {ks : List Skeleton} {premises conclusions : List Fact}
    (h : ReadsIfThen ks premises conclusions) (hks : ∀ k ∈ ks, k.Laid) :
    Fact.ConditionsWellFormed premises conclusions := by
  obtain ⟨hp, hc⟩ := h.wellFormed hks
  refine ⟨hp, hc, fun hpremises => h.conclusions_ne_nil hks ?_⟩
  rintro rfl
  cases h
  exact hpremises rfl

theorem ReadsLines.wellFormed {p : Phrase} {ks : List Skeleton} {as : List p.Meaning}
    (h : ReadsLines p ks as) (hks : ∀ k ∈ ks, k.Laid) : ∀ a ∈ as, p.WellFormed a := by
  induction h with
  | nil => exact List.forall_mem_nil _
  | cons hk _ ih =>
    obtain ⟨hlaid, hrest⟩ := List.forall_mem_cons.mp hks
    exact List.forall_mem_cons.mpr ⟨hk.2.wellFormed hlaid.spelled, ih hrest⟩

theorem ReadsNames.wellFormed {ks : List Skeleton} {names : List String} (h : ReadsNames ks names)
    (hks : ∀ k ∈ ks, k.Laid) : ∀ n ∈ names, Text.isName n = true := by
  obtain ⟨lines, hlines, rfl⟩ := h
  intro n hn
  obtain ⟨line, hline, hmem⟩ := List.mem_flatten.mp hn
  exact (hlines.wellFormed hks line hline).2 n hmem

theorem ReadsMembers.wellFormed {ks : List Skeleton} {m : Members} (h : ReadsMembers ks m)
    (hks : ∀ k ∈ ks, k.Laid) : ∀ d ∈ m.decls, d.WellFormed := by
  obtain ⟨ds, hds, rfl⟩ := h
  intro d hd
  exact hds.wellFormed hks d (Members.mem_decls_ofDecls.mp hd)

section Parts

variable {α : Type} {body : List Skeleton → α → Prop} {absent a : α} {P : α → Prop}

theorem ReadsSection.wellFormed {k : Keyword} {ks : List Skeleton}
    (h : ReadsSection k body absent ks a) (hks : ∀ k ∈ ks, k.Laid) (habsent : P absent)
    (hbody : ∀ {ks a}, body ks a → (∀ k ∈ ks, k.Laid) → P a) : P a := by
  cases h with
  | absent => exact habsent
  | present hb => exact hbody hb (List.forall_mem_cons.mp hks).1.of_mem

theorem ReadsOpening.wellFormed {h : List Lexeme} {k : Skeleton}
    (ho : ReadsOpening body absent h k a) (hk : k.Laid) (habsent : P absent)
    (hbody : ∀ {ks a}, body ks a → (∀ k ∈ ks, k.Laid) → P a) :
    Lexeme.AllSpelled h ∧ P a := by
  cases ho with
  | closed => exact ⟨hk.spelled, habsent⟩
  | opened hb => exact ⟨(Lexeme.allSpelled_append.mp hk.spelled).1, hbody hb hk.of_mem⟩

end Parts

theorem ConceptBody.wellFormed_empty : ConceptBody.WellFormed {} :=
  ⟨List.forall_mem_nil _, List.forall_mem_nil _, List.forall_mem_nil _, List.forall_mem_nil _⟩

theorem ReadsConceptBody.wellFormed {ks : List Skeleton} {c : ConceptBody}
    (h : ReadsConceptBody ks c) (hks : ∀ k ∈ ks, k.Laid) : c.WellFormed := by
  obtain ⟨i, t, m, f, hperm, hi, ht, hm, hf⟩ := h
  have hlaid : ∀ k ∈ i ++ t ++ m ++ f, k.Laid := fun k hk => hks k (hperm.mem_iff.mpr hk)
  simp only [List.forall_mem_append] at hlaid
  obtain ⟨⟨⟨hi', ht'⟩, hm'⟩, hf'⟩ := hlaid
  exact ⟨hi.wellFormed hi' (List.forall_mem_nil _) ReadsNames.wellFormed,
    ht.wellFormed (P := fun m => ∀ d ∈ m.decls, d.WellFormed) ht' (List.forall_mem_nil _)
      ReadsMembers.wellFormed,
    hm.wellFormed (P := fun m => ∀ d ∈ m.decls, d.WellFormed) hm' (List.forall_mem_nil _)
      ReadsMembers.wellFormed,
    hf.wellFormed hf' (List.forall_mem_nil _) ReadsFacts.wellFormed⟩

structure ExistBody.WellFormed (e : ExistBody) : Prop where
  premises : ∀ f ∈ e.premises, f.WellFormed
  members : ∀ d ∈ e.members, d.WellFormed
  conclusions : ∀ f ∈ e.conclusions, f.WellFormed

theorem ExistBody.wellFormed_empty : ExistBody.WellFormed {} :=
  ⟨List.forall_mem_nil _, List.forall_mem_nil _, List.forall_mem_nil _⟩

theorem ReadsExistBody.wellFormed {ks : List Skeleton} {e : ExistBody} (h : ReadsExistBody ks e)
    (hks : ∀ k ∈ ks, k.Laid) : e.WellFormed := by
  obtain ⟨p, m, c, hperm, hp, hm, hc⟩ := h
  have hlaid : ∀ k ∈ p ++ m ++ c, k.Laid := fun k hk => hks k (hperm.mem_iff.mpr hk)
  simp only [List.forall_mem_append] at hlaid
  obtain ⟨⟨hp', hm'⟩, hc'⟩ := hlaid
  exact ⟨hp.wellFormed hp' (List.forall_mem_nil _) ReadsFacts.wellFormed,
    hm.wellFormed hm' (List.forall_mem_nil _) ReadsLines.wellFormed,
    hc.wellFormed hc' (List.forall_mem_nil _) ReadsFacts.wellFormed⟩

mutual

theorem ReadsStatement.wellFormed : ∀ {k : Skeleton} {s : Statement}, ReadsStatement k s → k.Laid →
    s.WellFormed
  | _, _, .concept ho, hk => by
    obtain ⟨hspelled, hbody⟩ :=
      ho.wellFormed hk ConceptBody.wellFormed_empty ReadsConceptBody.wellFormed
    simp only [Lexeme.allSpelled_cons] at hspelled
    exact .concept hspelled.2.1 hspelled.2.2.1 hbody
  | _, _, .type ho, hk => by
    obtain ⟨hspelled, hbody⟩ :=
      ho.wellFormed hk ConceptBody.wellFormed_empty ReadsConceptBody.wellFormed
    simp only [Lexeme.allSpelled_cons] at hspelled
    exact .type hspelled.2.1 hbody
  | _, _, .property hd ho, hk => by
    obtain ⟨hspelled, hconditions⟩ :=
      ho.wellFormed (P := fun b => Fact.ConditionsWellFormed b.1 b.2) hk
      ⟨List.forall_mem_nil _, List.forall_mem_nil _, absurd rfl⟩ ReadsIfThen.conditions
    exact .property (hd.wellFormed hspelled) hconditions
  | _, _, .fn hd ho, hk => by
    obtain ⟨hspelled, hconditions⟩ :=
      ho.wellFormed (P := fun b => Fact.ConditionsWellFormed b.1 b.2) hk
      ⟨List.forall_mem_nil _, List.forall_mem_nil _, absurd rfl⟩ ReadsIfThen.conditions
    exact .fn (hd.wellFormed hspelled) hconditions
  | _, _, .var hd ho, hk => by
    obtain ⟨hspelled, hfacts⟩ := ho.wellFormed hk (List.forall_mem_nil _) ReadsFacts.wellFormed
    obtain ⟨hne, hvars⟩ := hd.wellFormed hspelled
    exact .var hne hvars hfacts
  | _, _, .claim hgoals hproof, hk => by
    obtain ⟨hlaid, hlaid'⟩ := List.forall_mem_append.mp hk.of_mem
    have hsection := (List.forall_mem_cons.mp hlaid').1
    exact .claim (hgoals.wellFormed hlaid) (hproof.ne_nil hsection.section_ne_nil)
      (ReadsStatements.wellFormed hproof hsection.of_mem)
  | _, _, .proof hproof, hk =>
    .claim (List.forall_mem_nil _) (hproof.ne_nil hk.section_ne_nil)
      (ReadsStatements.wellFormed hproof hk.of_mem)
  | _, _, .use hu, hk => by
    have hspelled : Lexeme.AllSpelled _ := hk.spelled
    simp only [Lexeme.allSpelled_cons] at hspelled
    exact .use hspelled.2.1 (hu.wellFormed hspelled.2.2)
  | _, _, .knowFact hf, hk =>
    .know (List.cons_ne_nil _ _) (List.forall_mem_singleton.mpr (hf.wellFormed (hk.tail nofun)))
  | _, _, .know hf, hk => .know (hf.ne_nil hk.section_ne_nil) (hf.wellFormed hk.of_mem)
  | _, _, .exist hu ho, hk => by
    obtain ⟨hspelled, hbody⟩ :=
      ho.wellFormed hk ExistBody.wellFormed_empty ReadsExistBody.wellFormed
    simp only [Lexeme.allSpelled_cons] at hspelled
    exact .exist ⟨hspelled.2.1, hu.wellFormed hspelled.2.2⟩ hbody.premises hbody.members
      hbody.conclusions
  | _, _, .witness hu hline, hk => by
    have hspelled : Lexeme.AllSpelled _ := hk.spelled
    simp only [List.cons_append, Lexeme.allSpelled_cons, Lexeme.allSpelled_append] at hspelled
    obtain ⟨hne, hnames⟩ := hline.2.wellFormed (List.forall_mem_singleton.mp hk.of_mem).spelled
    exact .witness (hu.wellFormed hspelled.2.2.1) hne hnames
  | _, _, .member hv hd ho, hk => by
    obtain ⟨hspelled, hfacts⟩ := ho.wellFormed hk (List.forall_mem_nil _) ReadsFacts.wellFormed
    simp only [List.cons_append, Lexeme.allSpelled_cons, Lexeme.allSpelled_append] at hspelled
    obtain ⟨-, -, hname, hconcept, -, -, hself, hv', -, hd'⟩ := hspelled
    exact .member ⟨hname, hconcept⟩ (.mk hself (hv.wellFormed hv')) (hd.wellFormed hd') hfacts
  | _, _, .typeMember hd ho, hk => by
    obtain ⟨hspelled, hfacts⟩ := ho.wellFormed hk (List.forall_mem_nil _) ReadsFacts.wellFormed
    simp only [Lexeme.allSpelled_cons] at hspelled
    obtain ⟨-, -, hname, hconcept, -, hd'⟩ := hspelled
    exact .typeMember ⟨hname, hconcept⟩ (hd.wellFormed hd') hfacts
  | _, _, .fact hf, hk => .fact (hf.wellFormed hk)

theorem ReadsStatements.wellFormed :
    ∀ {ks : List Skeleton} {ss : List Statement}, ReadsStatements ks ss → (∀ k ∈ ks, k.Laid) →
      ∀ s ∈ ss, s.WellFormed
  | _, _, .nil, _ => List.forall_mem_nil _
  | _, _, .cons hs hss, hks => by
    obtain ⟨hk, hrest⟩ := List.forall_mem_cons.mp hks
    exact List.forall_mem_cons.mpr
      ⟨ReadsStatement.wellFormed hs hk, ReadsStatements.wellFormed hss hrest⟩

end

/-- What the grammar derives from a text is well formed. -/
theorem ReadsTop.wellFormed {k : Skeleton} {isPublic : Bool} {s : Statement}
    (h : ReadsTop k isPublic s) (hk : k.Laid) : s.WellFormed := by
  cases h with
  | plain hs => exact hs.wellFormed hk
  | marked hs => exact hs.wellFormed (hk.tail nofun)

end FactScript
