import FactScript.Proofs.StatementGrammar
import FactScript.Proofs.WellFormed
import Mathlib.Algebra.BigOperators.Group.List.Basic
import Mathlib.Algebra.Order.Group.Multiset
import Mathlib.Tactic.Abel

/-!
Names and numerals are conserved. Every name and every run of digits is given a weight, and the
weight of the lexemes of a block is compared with the weight of the statement that it is read as.
With single-element multisets as weights this says that no name and no run of digits is lost, and
none is used twice.
-/
namespace FactScript

/-- What each name and each run of digits counts for. -/
structure Weights (M : Type) where
  name : String → M
  digits : String → M

section Definitions

variable {M : Type} [AddCommMonoid M] (w : Weights M)

def Lexeme.tally : Lexeme → M
  | .identifier n => w.name n
  | .number d => w.digits d
  | _ => 0

def Lexeme.tallyOfAll (ts : List Lexeme) : M := (ts.map (Lexeme.tally w)).sum

mutual

def Skeleton.tally : Skeleton → M
  | ⟨header, body⟩ => Lexeme.tallyOfAll w header + Skeleton.tallyOfAll body

def Skeleton.tallyOfAll : List Skeleton → M
  | [] => 0
  | k :: ks => k.tally + Skeleton.tallyOfAll ks

end

def GenericParam.tally (g : GenericParam) : M := w.name g.name + w.name g.concept

def TypeArg.tally : TypeArg → M
  | .plain name => w.name name
  | .ascribed name concept => w.name name + w.name concept

def numeralTally (text : String) : M :=
  ((Text.cut '.' text.toList).map fun part => w.digits (String.ofList part)).sum

mutual

/-- All names and numerals in a term; the spelling of an operator that is applied is not a name. -/
def Term.tally : Term → M
  | .atom name => w.name name
  | .number text => numeralTally w text
  | .chain parts => Term.tallyOfAll parts
  | .call c => c.tally
  | .ascribed term signature => term.tally + signature.tally

def Term.tallyOfAll : List Term → M
  | [] => 0
  | t :: ts => t.tally + Term.tallyOfAll ts

def Call.tally : Call → M
  | ⟨callee, typeArgs, args⟩ =>
    (if (callee.operator? typeArgs).isSome then 0 else callee.tally) +
      (typeArgs.map (TypeArg.tally w)).sum +
      Term.tallyOfAll args

def Signature.tally : Signature → M
  | ⟨generics, params, guards⟩ =>
    (generics.map (GenericParam.tally w)).sum + Param.tallyOfAll params + Fact.tallyOfAll guards

def Param.tally : Param → M
  | ⟨name, type⟩ => w.name name + type.tally

def Param.tallyOfAll : List Param → M
  | [] => 0
  | p :: ps => p.tally + Param.tallyOfAll ps

def Ty.tally : Ty → M
  | .named name => w.name name
  | .fn signature result => signature.tally + result.tally
  | .property signature => signature.tally
  | .placeholder _ => 0

def Fact.tally : Fact → M
  | .relational _ _ operands => Term.tallyOfAll operands
  | .property _ call => call.tally
  | .universal generics params premises conclusions =>
    (generics.map (GenericParam.tally w)).sum + Param.tallyOfAll params + Fact.tallyOfAll premises +
      Fact.tallyOfAll conclusions

def Fact.tallyOfAll : List Fact → M
  | [] => 0
  | f :: fs => f.tally + Fact.tallyOfAll fs

end

def FnDecl.tally (d : FnDecl) : M := w.name d.name + d.signature.tally w + d.result.tally w

def PropertyDecl.tally (d : PropertyDecl) : M := w.name d.name + d.signature.tally w

def Decl.tally : Decl → M
  | .var vars => Param.tallyOfAll w vars
  | .fn d => d.tally w
  | .property d => d.tally w

def Decl.tallyOfAll (ds : List Decl) : M := (ds.map (Decl.tally w)).sum

def nameTally (names : List String) : M := (names.map w.name).sum

def Members.tally (m : Members) : M :=
  (m.vars.map (Param.tallyOfAll w)).sum + (m.fns.map (FnDecl.tally w)).sum +
    (m.properties.map (PropertyDecl.tally w)).sum

def ConceptBody.tally (c : ConceptBody) : M :=
  nameTally w c.inherits + c.typeMembers.tally w + c.members.tally w + Fact.tallyOfAll w c.facts

mutual

def Statement.tally : Statement → M
  | .var vars facts => Param.tallyOfAll w vars + Fact.tallyOfAll w facts
  | .concept typeVar name body => w.name typeVar + w.name name + body.tally w
  | .type name body => w.name name + body.tally w
  | .property d premises conclusions =>
    d.tally w + Fact.tallyOfAll w premises + Fact.tallyOfAll w conclusions
  | .fn d premises conclusions =>
    d.tally w + Fact.tallyOfAll w premises + Fact.tallyOfAll w conclusions
  | .claim goals proof => Fact.tallyOfAll w goals + Statement.tallyOfAll proof
  | .know facts => Fact.tallyOfAll w facts
  | .use name value => w.name name + value.tally w
  | .exist d premises members conclusions =>
    d.tally w + Fact.tallyOfAll w premises + Decl.tallyOfAll w members +
      Fact.tallyOfAll w conclusions
  | .witness existence names => existence.call.tally w + nameTally w names
  | .member owner self d facts => owner.tally w + self.tally w + d.tally w + Fact.tallyOfAll w facts
  | .typeMember owner d facts => owner.tally w + d.tally w + Fact.tallyOfAll w facts
  | .fact f => f.tally w

def Statement.tallyOfAll : List Statement → M
  | [] => 0
  | s :: ss => s.tally + Statement.tallyOfAll ss

end

def Phrase.tally : (p : Phrase) → p.Meaning → M
  | .name, n => w.name n
  | .typeArg, a => a.tally w
  | .typeArgs, as => (as.map (TypeArg.tally w)).sum
  | .genericParam, g => g.tally w
  | .generics, (gs, fs) => (gs.map (GenericParam.tally w)).sum + Fact.tallyOfAll w fs
  | .param, q => q.tally w
  | .valueParams, (ps, fs) => Param.tallyOfAll w ps + Fact.tallyOfAll w fs
  | .signature, s => s.tally w
  | .args, ts => Term.tallyOfAll w ts
  | .applications, l => (l.map fun a => (a.1.map (TypeArg.tally w)).sum + Term.tallyOfAll w a.2).sum
  | .segment, t | .chain, t => t.tally w
  | .predicate, c => c.tally w
  | .atom, t | .power, t | .unary, t | .product, t | .sum, t => t.tally w
  | .type, t => t.tally w
  | .specific, f => f.tally w
  | .guards, fs => Fact.tallyOfAll w fs
  | .quantifier, (gs, ps, fs) =>
    (gs.map (GenericParam.tally w)).sum + Param.tallyOfAll w ps + Fact.tallyOfAll w fs
  | .decl, d => d.tally w
  | .separated _ p, as => (as.map p.tally).sum

end Definitions

section Sums

variable {M : Type} [AddCommMonoid M] {w : Weights M}

@[simp] theorem Lexeme.tallyOfAll_nil : Lexeme.tallyOfAll w [] = 0 := rfl

@[simp] theorem Lexeme.tallyOfAll_cons (l : Lexeme) (ts : List Lexeme) :
    Lexeme.tallyOfAll w (l :: ts) = l.tally w + Lexeme.tallyOfAll w ts := by
  simp [tallyOfAll]

@[simp] theorem Lexeme.tallyOfAll_append (ts us : List Lexeme) :
    Lexeme.tallyOfAll w (ts ++ us) = Lexeme.tallyOfAll w ts + Lexeme.tallyOfAll w us := by
  simp [tallyOfAll]

theorem Term.tallyOfAll_eq_sum (ts : List Term) :
    Term.tallyOfAll w ts = (ts.map (Term.tally w)).sum := by
  induction ts with
  | nil => rfl
  | cons t ts ih => simp [tallyOfAll, ih]

theorem Param.tallyOfAll_eq_sum (ps : List Param) :
    Param.tallyOfAll w ps = (ps.map (Param.tally w)).sum := by
  induction ps with
  | nil => rfl
  | cons p ps ih => simp [tallyOfAll, ih]

theorem Fact.tallyOfAll_eq_sum (fs : List Fact) :
    Fact.tallyOfAll w fs = (fs.map (Fact.tally w)).sum := by
  induction fs with
  | nil => rfl
  | cons f fs ih => simp [tallyOfAll, ih]

theorem Fact.tallyOfAll_append (fs fs' : List Fact) :
    Fact.tallyOfAll w (fs ++ fs') = Fact.tallyOfAll w fs + Fact.tallyOfAll w fs' := by
  simp [Fact.tallyOfAll_eq_sum]

theorem Skeleton.tallyOfAll_eq_sum (ks : List Skeleton) :
    Skeleton.tallyOfAll w ks = (ks.map (Skeleton.tally w)).sum := by
  induction ks with
  | nil => rfl
  | cons k ks ih => simp [tallyOfAll, ih]

theorem Skeleton.tallyOfAll_append (ks ks' : List Skeleton) :
    Skeleton.tallyOfAll w (ks ++ ks') = Skeleton.tallyOfAll w ks + Skeleton.tallyOfAll w ks' := by
  simp [Skeleton.tallyOfAll_eq_sum]

theorem Skeleton.tallyOfAll_perm {ks ks' : List Skeleton} (h : ks.Perm ks') :
    Skeleton.tallyOfAll w ks = Skeleton.tallyOfAll w ks' := by
  rw [Skeleton.tallyOfAll_eq_sum, Skeleton.tallyOfAll_eq_sum, (h.map _).sum_eq]

/-- Sorting declarations by what they declare keeps all of them. -/
theorem Members.tally_ofDecls (ds : List Decl) :
    (Members.ofDecls ds).tally w = Decl.tallyOfAll w ds := by
  induction ds with
  | nil => simp [Members.ofDecls, Members.tally, Decl.tallyOfAll]
  | cons d ds ih =>
    simp only [Members.tally, Members.ofDecls, Decl.tallyOfAll] at ih ⊢
    cases d <;> simp [Decl.tally, ← ih] <;> abel

end Sums

section Numerals

variable {M : Type} [AddCommMonoid M] {w : Weights M}

theorem numeralTally_whole {digits : String} (h : Text.isDigits digits = true) :
    numeralTally w digits = w.digits digits := by
  simp [numeralTally, Text.cut_of_notMem (Text.dot_notMem_digits h)]

theorem numeralTally_fraction {whole fraction : String} (hw : Text.isDigits whole = true)
    (hf : Text.isDigits fraction = true) :
    numeralTally w (whole ++ "." ++ fraction) = w.digits whole + w.digits fraction := by
  have htext : (whole ++ "." ++ fraction).toList = whole.toList ++ '.' :: fraction.toList := by simp
  simp [numeralTally, htext, Text.cut_append (Text.dot_notMem_digits hw),
    Text.cut_of_notMem (Text.dot_notMem_digits hf)]

end Numerals

section Calls

variable {M : Type} [AddCommMonoid M] {w : Weights M}

theorem Term.tally_apply {op : Symbol} (h : op ∈ Term.operators) (ts : List Term) :
    (Term.apply op ts).tally w = Term.tallyOfAll w ts := by
  simp [Term.apply, Term.tally, Call.tally, Term.operator?_of_mem h]

theorem Term.tally_applied (l : List (List TypeArg × List Term)) {t : Term}
    (ht : ∀ typeArgs, t.operator? typeArgs = none) :
    (t.applied l).tally w = t.tally w + Phrase.tally w .applications l := by
  induction l generalizing t with
  | nil => simp [Term.applied, Phrase.tally]
  | cons a l ih =>
    have happlied : t.applied (a :: l) = (Term.call ⟨t, a.1, a.2⟩).applied l := rfl
    rw [happlied, ih fun _ => rfl]
    simp [Term.tally, Call.tally, ht, Phrase.tally]
    abel

end Calls

/-- A phrase has the names and numerals of what it means. -/
theorem Reads.tally [Alphabet] {M : Type} [AddCommMonoid M] {w : Weights M} {p : Phrase}
    {u : List Lexeme} {a : p.Meaning} (h : Reads p u a) (hu : Lexeme.AllSpelled u) :
    Lexeme.tallyOfAll w u = p.tally w a := by
  induction h with
  | typeArgs _ ih => simp_all [Lexeme.tally, Phrase.tally]
  | someGenerics _ _ ih ih' => simp_all [Lexeme.tally, Phrase.tally, Fact.tallyOfAll_eq_sum]
  | signature _ _ ih ih' =>
    simp only [Lexeme.allSpelled_append] at hu
    simp only [Lexeme.tallyOfAll_append, ih hu.1, ih' hu.2, Phrase.tally, Signature.tally,
      Fact.tallyOfAll_append]
    abel
  | quantifier _ _ _ ih ih' ih'' =>
    simp only [List.cons_append, Lexeme.allSpelled_cons, Lexeme.allSpelled_append] at hu
    simp only [List.cons_append, Lexeme.tallyOfAll_cons, Lexeme.tallyOfAll_append, ih hu.2.1.1,
      ih' hu.2.1.2, ih'' hu.2.2, Lexeme.tally, Phrase.tally, Param.tallyOfAll_eq_sum,
        Fact.tallyOfAll_append]
    abel
  | segment _ ih =>
    have hn := (Lexeme.allSpelled_cons.mp hu).1
    simp only [Phrase.tally, Term.tally_applied _ (Term.operator?_of_isName hn)]
    simp [Lexeme.tally, Term.tally, ih (Lexeme.allSpelled_cons.mp hu).2, Phrase.tally]
  | @dottedPredicate u v ts c _ hv ih ih' =>
    simp only [Lexeme.allSpelled_append, Lexeme.allSpelled_cons] at hu
    obtain ⟨callee, typeArgs, args⟩ := c
    have hcallee : Term.operator? typeArgs callee = none := by
      cases hv.wellFormed hu.2.2 with
      | call hsegment => exact hsegment.operator?_eq_none typeArgs
    have hchain (ts : List Term) : (Term.chain ts).operator? typeArgs = none := rfl
    simp [ih hu.1, ih' hu.2.2, Lexeme.tally, Phrase.tally, Term.tally, Call.tally, hcallee, hchain,
      Term.tallyOfAll_eq_sum]
    abel
  | whole hw =>
    simp_all [Lexeme.tally, Phrase.tally, Term.tally, Lexeme.Spelled, numeralTally_whole]
  | fraction hw hf =>
    simp_all [Lexeme.tally, Phrase.tally, Term.tally, Lexeme.Spelled, numeralTally_fraction]
  | exponentiation _ _ ih ih' =>
    have hmem : .caret ∈ Term.operators := by decide
    simp_all [Lexeme.tally, Phrase.tally, Term.tally_apply hmem, Term.tallyOfAll]
  | negation _ ih =>
    have hmem : .minus ∈ Term.operators := by decide
    simp_all [Lexeme.tally, Phrase.tally, Term.tally_apply hmem, Term.tallyOfAll]
  | multiplication op hop _ _ ih ih' =>
    have hmem : op ∈ Term.operators := by rcases hop with rfl | rfl <;> decide
    simp_all [Lexeme.tally, Phrase.tally, Term.tally_apply hmem, Term.tallyOfAll]
  | addition op hop _ _ ih ih' =>
    have hmem : op ∈ Term.operators := by rcases hop with rfl | rfl <;> decide
    simp_all [Lexeme.tally, Phrase.tally, Term.tally_apply hmem, Term.tallyOfAll]
  | @isA u t n _ ih =>
    simp only [Lexeme.allSpelled_append, Lexeme.allSpelled_cons] at hu
    simp [ih hu.1, Lexeme.tally, Phrase.tally, Fact.tally, Call.tally, Term.tally, Term.tallyOfAll,
      Term.operator?_of_isName hu.2.2.1, add_comm]
  | @isATyped u v t n a _ _ ih ih' =>
    simp only [List.cons_append, List.append_assoc, Lexeme.allSpelled_append,
      Lexeme.allSpelled_cons] at hu
    simp [ih hu.1, ih' hu.2.2.2.2.1, Lexeme.tally, Phrase.tally, Fact.tally, Call.tally, Term.tally,
      Term.tallyOfAll, Term.operator?_of_isName hu.2.2.1]
    abel
  | _ => simp_all [Lexeme.tally, Phrase.tally, Term.tally, Param.tally, Ty.tally, Fact.tally,
      Decl.tally, FnDecl.tally, PropertyDecl.tally, GenericParam.tally, TypeArg.tally,
      Term.tallyOfAll_eq_sum, Param.tallyOfAll_eq_sum, Fact.tallyOfAll_eq_sum, add_assoc]

section Blocks

variable {M : Type} [AddCommMonoid M] {w : Weights M}

theorem ReadsLines.tally [Alphabet] {p : Phrase} {ks : List Skeleton} {as : List p.Meaning}
    (h : ReadsLines p ks as) (hks : ∀ k ∈ ks, k.Laid) :
    Skeleton.tallyOfAll w ks = (as.map (p.tally w)).sum := by
  induction h with
  | nil => rfl
  | @cons k a ks as hk _ ih =>
    obtain ⟨hlaid, hrest⟩ := List.forall_mem_cons.mp hks
    obtain ⟨header, body⟩ := k
    obtain ⟨rfl, hread⟩ := hk
    simp [Skeleton.tallyOfAll, Skeleton.tally, hread.tally hlaid.spelled, ih hrest]

theorem ReadsNames.tally [Alphabet] {ks : List Skeleton} {names : List String}
    (h : ReadsNames ks names) (hks : ∀ k ∈ ks, k.Laid) :
    Skeleton.tallyOfAll w ks = nameTally w names := by
  obtain ⟨lines, hlines, rfl⟩ := h
  rw [hlines.tally hks, nameTally, List.map_flatten, List.sum_flatten, List.map_map]
  rfl

theorem ReadsMembers.tally [Alphabet] {ks : List Skeleton} {m : Members} (h : ReadsMembers ks m)
    (hks : ∀ k ∈ ks, k.Laid) : Skeleton.tallyOfAll w ks = m.tally w := by
  obtain ⟨ds, hds, rfl⟩ := h
  rw [hds.tally hks, Members.tally_ofDecls]
  rfl

@[simp] theorem Skeleton.tally_section (k : Keyword) (body : List Skeleton) :
    (Skeleton.section_ k body).tally w = Skeleton.tallyOfAll w body := by
  simp [Skeleton.section_, Skeleton.tally, Lexeme.tally]

variable [Alphabet]

mutual

theorem ReadsFact.tally :
    ∀ {k : Skeleton} {f : Fact}, ReadsFact k f → k.Laid → k.tally w = f.tally w
  | _, _, .specific h, hk => by
    simp [Skeleton.tally, Skeleton.tallyOfAll, h.tally hk.spelled, Phrase.tally]
  | _, _, .universal h hif, hk => by
    have hheader := h.tally (w := w) (Lexeme.allSpelled_append.mp hk.spelled).1
    have hbody := ReadsIfThen.tally hif hk.of_mem
    simp only [Skeleton.tally, Lexeme.tallyOfAll_append, hheader, hbody, Lexeme.tallyOfAll_cons,
      Lexeme.tallyOfAll_nil, Lexeme.tally, Phrase.tally, Fact.tally, Fact.tallyOfAll_append]
    abel

theorem ReadsFacts.tally : ∀ {ks : List Skeleton} {fs : List Fact}, ReadsFacts ks fs →
    (∀ k ∈ ks, k.Laid) → Skeleton.tallyOfAll w ks = Fact.tallyOfAll w fs
  | _, _, .nil, _ => rfl
  | _, _, .cons hf hfs, hks => by
    obtain ⟨hk, hrest⟩ := List.forall_mem_cons.mp hks
    rw [Skeleton.tallyOfAll, Fact.tallyOfAll, ReadsFact.tally hf hk, ReadsFacts.tally hfs hrest]

theorem ReadsIfThen.tally : ∀ {ks : List Skeleton} {premises conclusions : List Fact},
    ReadsIfThen ks premises conclusions → (∀ k ∈ ks, k.Laid) →
      Skeleton.tallyOfAll w ks = Fact.tallyOfAll w premises + Fact.tallyOfAll w conclusions
  | _, _, _, .both hp hc, hks => by
    obtain ⟨hif, hthen, -⟩ := List.forall_mem_cons.mp hks |>.imp_right List.forall_mem_cons.mp
    have hpremises := ReadsFacts.tally hp hif.of_mem
    have hconclusions := ReadsFacts.tally hc hthen.of_mem
    simp [Skeleton.tallyOfAll, hpremises, hconclusions]
  | _, _, _, .conclusions hc, hks => by
    have hconclusions := ReadsFacts.tally hc (List.forall_mem_cons.mp hks).1.of_mem
    simp [Skeleton.tallyOfAll, hconclusions, Fact.tallyOfAll]
  | _, _, _, .bare hc, hks => by
    simp [ReadsFacts.tally hc hks, Fact.tallyOfAll]

end

section Parts

variable {α : Type} {body : List Skeleton → α → Prop} {absent a : α} {f : α → M}

theorem ReadsSection.tally {k : Keyword} {ks : List Skeleton} (h : ReadsSection k body absent ks a)
    (hks : ∀ k ∈ ks, k.Laid) (habsent : f absent = 0)
    (hbody : ∀ {ks a}, body ks a → (∀ k ∈ ks, k.Laid) → Skeleton.tallyOfAll w ks = f a) :
    Skeleton.tallyOfAll w ks = f a := by
  cases h with
  | absent => exact habsent.symm
  | present hb =>
    have hlaid := (List.forall_mem_cons.mp hks).1.of_mem
    simp [Skeleton.tallyOfAll, hbody hb hlaid]

theorem ReadsOpening.tally {h : List Lexeme} {k : Skeleton} (ho : ReadsOpening body absent h k a)
    (hk : k.Laid) (habsent : f absent = 0)
    (hbody : ∀ {ks a}, body ks a → (∀ k ∈ ks, k.Laid) → Skeleton.tallyOfAll w ks = f a) :
    k.tally w = Lexeme.tallyOfAll w h + f a ∧ Lexeme.AllSpelled h := by
  cases ho with
  | closed => exact ⟨by simp [Skeleton.tally, Skeleton.tallyOfAll, habsent], hk.spelled⟩
  | opened hb =>
    refine ⟨?_, (Lexeme.allSpelled_append.mp hk.spelled).1⟩
    simp [Skeleton.tally, hbody hb hk.of_mem, Lexeme.tally]

end Parts

theorem ReadsConceptBody.tally {ks : List Skeleton} {c : ConceptBody} (h : ReadsConceptBody ks c)
    (hks : ∀ k ∈ ks, k.Laid) : Skeleton.tallyOfAll w ks = c.tally w := by
  obtain ⟨i, t, m, f, hperm, hi, ht, hm, hf⟩ := h
  have hlaid : ∀ k ∈ i ++ t ++ m ++ f, k.Laid := fun k hk => hks k (hperm.mem_iff.mpr hk)
  simp only [List.forall_mem_append] at hlaid
  have hempty : (({} : Members).tally w) = 0 := by simp [Members.tally]
  rw [Skeleton.tallyOfAll_perm hperm]
  simp only [Skeleton.tallyOfAll_append, ConceptBody.tally]
  rw [hi.tally (f := nameTally w) hlaid.1.1.1 rfl ReadsNames.tally,
    ht.tally (f := Members.tally w) hlaid.1.1.2 hempty ReadsMembers.tally,
    hm.tally (f := Members.tally w) hlaid.1.2 hempty ReadsMembers.tally,
    hf.tally (f := Fact.tallyOfAll w) hlaid.2 rfl ReadsFacts.tally]

def ExistBody.tally (w : Weights M) (e : ExistBody) : M :=
  Fact.tallyOfAll w e.premises + Decl.tallyOfAll w e.members + Fact.tallyOfAll w e.conclusions

theorem ReadsExistBody.tally {ks : List Skeleton} {e : ExistBody} (h : ReadsExistBody ks e)
    (hks : ∀ k ∈ ks, k.Laid) : Skeleton.tallyOfAll w ks = e.tally w := by
  obtain ⟨p, m, c, hperm, hp, hm, hc⟩ := h
  have hlaid : ∀ k ∈ p ++ m ++ c, k.Laid := fun k hk => hks k (hperm.mem_iff.mpr hk)
  simp only [List.forall_mem_append] at hlaid
  rw [Skeleton.tallyOfAll_perm hperm]
  simp only [Skeleton.tallyOfAll_append, ExistBody.tally]
  rw [hp.tally (f := Fact.tallyOfAll w) hlaid.1.1 rfl ReadsFacts.tally,
    hm.tally (f := Decl.tallyOfAll w) hlaid.1.2 rfl ReadsLines.tally,
    hc.tally (f := Fact.tallyOfAll w) hlaid.2 rfl ReadsFacts.tally]

mutual

theorem ReadsStatement.tally : ∀ {k : Skeleton} {s : Statement}, ReadsStatement k s → k.Laid →
    k.tally w = s.tally w
  | _, _, .concept ho, hk => by
    obtain ⟨htally, -⟩ := ho.tally (f := ConceptBody.tally w) hk
      (by simp [ConceptBody.tally, nameTally, Members.tally, Fact.tallyOfAll])
      ReadsConceptBody.tally
    simp [htally, Lexeme.tally, Statement.tally, add_assoc]
  | _, _, .type ho, hk => by
    obtain ⟨htally, -⟩ := ho.tally (f := ConceptBody.tally w) hk
      (by simp [ConceptBody.tally, nameTally, Members.tally, Fact.tallyOfAll])
      ReadsConceptBody.tally
    simp [htally, Lexeme.tally, Statement.tally]
  | _, _, .property hd ho, hk => by
    obtain ⟨htally, hspelled⟩ :=
      ho.tally (f := fun b => Fact.tallyOfAll w b.1 + Fact.tallyOfAll w b.2) hk
      (by simp [Fact.tallyOfAll]) ReadsIfThen.tally
    simp [htally, hd.tally hspelled, Phrase.tally, Decl.tally, Statement.tally, add_assoc]
  | _, _, .fn hd ho, hk => by
    obtain ⟨htally, hspelled⟩ :=
      ho.tally (f := fun b => Fact.tallyOfAll w b.1 + Fact.tallyOfAll w b.2) hk
      (by simp [Fact.tallyOfAll]) ReadsIfThen.tally
    simp [htally, hd.tally hspelled, Phrase.tally, Decl.tally, Statement.tally, add_assoc]
  | _, _, .var hd ho, hk => by
    obtain ⟨htally, hspelled⟩ := ho.tally (f := Fact.tallyOfAll w) hk rfl ReadsFacts.tally
    simp [htally, hd.tally hspelled, Phrase.tally, Decl.tally, Statement.tally]
  | _, _, .claim hgoals hproof, hk => by
    have hlaid := List.forall_mem_append.mp hk.of_mem
    have hproof := ReadsStatements.tally hproof (List.forall_mem_cons.mp hlaid.2).1.of_mem
    simp [Skeleton.tallyOfAll_append, Skeleton.tallyOfAll, hgoals.tally hlaid.1, hproof,
      Statement.tally]
  | _, _, .proof hproof, hk => by
    simp [ReadsStatements.tally hproof hk.of_mem, Statement.tally, Fact.tallyOfAll]
  | _, _, .use hu, hk => by
    have hspelled := (Lexeme.allSpelled_cons.mp (Lexeme.allSpelled_cons.mp hk.spelled).2).2
    simp [Skeleton.tally, Skeleton.tallyOfAll, hu.tally hspelled, Lexeme.tally, Phrase.tally,
      Statement.tally]
  | _, _, .knowFact hf, hk => by
    have hfact := hf.tally (w := w) (hk.tail nofun)
    simp [Skeleton.tally, Statement.tally, Fact.tallyOfAll, Lexeme.tally] at hfact ⊢
    exact hfact
  | _, _, .know hf, hk => by
    simp [hf.tally hk.of_mem, Statement.tally]
  | _, _, .exist hu ho, hk => by
    obtain ⟨htally, hspelled⟩ := ho.tally (f := ExistBody.tally w) hk (by simp [ExistBody.tally,
      Fact.tallyOfAll, Decl.tallyOfAll]) ReadsExistBody.tally
    simp only [Lexeme.allSpelled_cons] at hspelled
    simp [htally, hu.tally hspelled.2.2, Lexeme.tally, Phrase.tally, Statement.tally,
      PropertyDecl.tally, ExistBody.tally, add_assoc]
  | _, _, .witness hu hline, hk => by
    have hspelled : Lexeme.AllSpelled _ := hk.spelled
    simp only [List.cons_append, Lexeme.allSpelled_cons, Lexeme.allSpelled_append] at hspelled
    have hnames :=
      ReadsNames.tally (w := w) ⟨_, .cons hline .nil, (List.append_nil _).symm⟩ hk.of_mem
    simp [Skeleton.tally, hu.tally hspelled.2.2.1, hnames, Lexeme.tally, Phrase.tally,
      Statement.tally]
  | _, _, .member hv hd ho, hk => by
    obtain ⟨htally, hspelled⟩ := ho.tally (f := Fact.tallyOfAll w) hk rfl ReadsFacts.tally
    simp only [List.cons_append, Lexeme.allSpelled_cons, Lexeme.allSpelled_append] at hspelled
    obtain ⟨-, -, -, -, -, -, -, hv', -, hd'⟩ := hspelled
    simp [htally, hv.tally hv', hd.tally hd', Lexeme.tally, Phrase.tally, Statement.tally,
      GenericParam.tally, Param.tally, add_assoc]
  | _, _, .typeMember hd ho, hk => by
    obtain ⟨htally, hspelled⟩ := ho.tally (f := Fact.tallyOfAll w) hk rfl ReadsFacts.tally
    simp only [Lexeme.allSpelled_cons] at hspelled
    simp [htally, hd.tally hspelled.2.2.2.2.2, Lexeme.tally, Phrase.tally, Statement.tally,
      GenericParam.tally, add_assoc]
  | _, _, .fact hf, hk => by
    rw [hf.tally hk, Statement.tally]

theorem ReadsStatements.tally :
    ∀ {ks : List Skeleton} {ss : List Statement}, ReadsStatements ks ss → (∀ k ∈ ks, k.Laid) →
      Skeleton.tallyOfAll w ks = Statement.tallyOfAll w ss
  | _, _, .nil, _ => rfl
  | _, _, .cons hs hss, hks => by
    obtain ⟨hk, hrest⟩ := List.forall_mem_cons.mp hks
    rw [Skeleton.tallyOfAll, Statement.tallyOfAll, ReadsStatement.tally hs hk,
      ReadsStatements.tally hss hrest]

end

theorem ReadsTop.tally {k : Skeleton} {isPublic : Bool} {s : Statement} (h : ReadsTop k isPublic s)
    (hk : k.Laid) : k.tally w = s.tally w := by
  cases h with
  | plain hs => exact hs.tally hk
  | marked hs =>
    have hstatement := hs.tally (w := w) (hk.tail nofun)
    simpa [Skeleton.tally, Lexeme.tally] using hstatement

end Blocks

def nameWeights : Weights (Multiset String) := ⟨fun name => {name}, fun _ => 0⟩

def digitWeights : Weights (Multiset String) := ⟨fun _ => 0, fun digits => {digits}⟩

/-- Reading a block of a text as a statement keeps every name and every run of digits as often as it
occurs. -/
theorem TopStatement.tally_ofBlock [Alphabet] {tabWidth : Nat} {text : String} {bs : List Block}
    {path : List Nat} {b : Block} {t : TopStatement} (hbs : Block.ofSource tabWidth text = .ok bs)
    (hb : Block.find? bs path = some b) (ht : TopStatement.ofBlock b = .ok t) :
    b.skeleton.tally nameWeights = t.statement.tally nameWeights ∧
      b.skeleton.tally digitWeights = t.statement.tally digitWeights := by
  have hlaid := Block.laid_of_find? (Block.laid_of_ofSource hbs) hb
  have htop := ((TopStatement.ofBlock_eq_ok hlaid).mp ht).2
  exact ⟨htop.tally hlaid, htop.tally hlaid⟩

/-- Guards in brackets, a predicate after `is`, an operator and a decimal fraction, two
levels down. -/
theorem TopStatement.tally_ofBlock_fn : ∃ bs b t,
    Block.ofSource 4
        "fn f[T C :: $q(T)](x T) T:\n  if:\n    x.y is p[as(T, D)]\n  then:\n    f(-x) = 1.50" =
        .ok bs ∧
      Block.find? bs [0] = some b ∧ TopStatement.ofBlock b = .ok t ∧
      b.skeleton.tally nameWeights = t.statement.tally nameWeights ∧
      b.skeleton.tally digitWeights = t.statement.tally digitWeights := by
  obtain ⟨bs, b, t, hbs, hb, ht⟩ := TopStatement.exists_of_isOk 4
    "fn f[T C :: $q(T)](x T) T:\n  if:\n    x.y is p[as(T, D)]\n  then:\n    f(-x) = 1.50" [0]
    (by decide +kernel)
  exact ⟨bs, b, t, hbs, hb, ht, TopStatement.tally_ofBlock hbs hb ht⟩

end FactScript
