import FactScript.Proofs.Grammar

/-!
What the first lexeme of a phrase can be, and which lexeme after a phrase would be taken as part of
it.
-/
namespace FactScript

def Lexeme.isRelational : Lexeme → Bool
  | symbol s => s.isRelational
  | _ => false

def Lexeme.isIdentifier : Lexeme → Bool
  | identifier _ => true
  | _ => false

namespace Phrase

def isOptional : Phrase → Bool
  | .generics | .guards | .applications => true
  | .separated _ p => p.isOptional
  | _ => false

def beginsAtom : Lexeme → Bool
  | .identifier _ | .number _ | .keyword .as | .symbol .lparen => true
  | _ => false

def begins : Phrase → Lexeme → Bool
  | .separated s p, l => p.begins l || (p.isOptional && l == .symbol s)
  | .typeArgs, l | .generics, l => l == .symbol .lbracket
  | .valueParams, l | .args, l => l == .symbol .lparen
  | .signature, l | .applications, l => l == .symbol .lbracket || l == .symbol .lparen
  | .guards, l => l == .symbol .colonColon
  | .quantifier, l => l == .keyword .forallKw
  | .decl, l => l == .keyword .var || l == .keyword .fn || l == .keyword .property
  | .atom, l | .power, l => beginsAtom l
  | .unary, l | .product, l | .sum, l => beginsAtom l || l == .symbol .minus
  | .specific, l =>
    beginsAtom l || l == .symbol .minus || l == .symbol .dollar || l == .keyword .not
  | .typeArg, l => l.isIdentifier || l == .keyword .as
  | .type, l =>
    l.isIdentifier || l == .keyword .fn || l == .keyword .property || l == .symbol .question
  | .name, l | .genericParam, l | .param, l | .segment, l | .chain, l | .predicate, l =>
    l.isIdentifier

def Begun (p : Phrase) : List Lexeme → Prop
  | [] => p.isOptional = true
  | l :: _ => p.begins l = true

theorem Begun.append {p q : Phrase} {u : List Lexeme} (h : p.Begun u) (hp : p.isOptional = false)
    (hpq : ∀ l, p.begins l = true → q.begins l = true) (v : List Lexeme) : q.Begun (u ++ v) := by
  cases u with
  | nil => exact absurd h (by simp [Begun, hp])
  | cons l u => exact hpq l h

theorem Begun.mono {p q : Phrase} {u : List Lexeme} (h : p.Begun u) (hp : p.isOptional = false)
    (hpq : ∀ l, p.begins l = true → q.begins l = true) : q.Begun u := by
  simpa using h.append hp hpq []

theorem Begun.ne_nil {p : Phrase} {u : List Lexeme} (h : p.Begun u) (hp : p.isOptional = false) :
    u ≠ [] := by
  rintro rfl
  exact absurd h (by simp [Begun, hp])

end Phrase

theorem Reads.begun {p : Phrase} {u : List Lexeme} {a : p.Meaning} (h : Reads p u a) :
    p.Begun u := by
  induction h with
  | @one s p u a _ ih => cases u <;> simp_all [Phrase.Begun, Phrase.begins, Phrase.isOptional]
  | @more s p u v a as _ _ ih _ => cases u <;> simp_all [Phrase.Begun, Phrase.begins]
  | @signature u v _ _ _ _ _ _ ihu ihv =>
    cases u with
    | nil => exact ihv.mono rfl (by simp +contextual [Phrase.begins])
    | cons l u => exact Bool.or_eq_true_iff.mpr (.inl ihu)
  | valueApplication _ _ ih _ => exact ih.append rfl (by simp +contextual [Phrase.begins]) _
  | typeApplication _ _ _ ih _ => exact ih.append rfl (by simp +contextual [Phrase.begins]) _
  | fullApplication _ _ _ ih _ _ =>
    rw [List.append_assoc]
    exact ih.append rfl (by simp +contextual [Phrase.begins]) _
  | soleSegment _ ih => exact ih
  | dotted _ _ ih => exact ih.mono rfl (by simp [Phrase.begins, Phrase.isOptional])
  | solePredicate _ ih => exact ih
  | dottedPredicate _ _ ih _ => exact ih.append rfl (by simp [Phrase.begins, Phrase.isOptional]) _
  | chainAtom _ ih =>
    refine ih.mono rfl ?_
    intro l
    cases l <;> simp [Phrase.begins, Phrase.beginsAtom, Lexeme.isIdentifier]
  | base _ ih => exact ih
  | exponentiation _ _ ih _ => exact ih.append rfl (fun _ h => h) _
  | unsigned _ ih => exact ih.mono rfl (by simp +contextual [Phrase.begins])
  | factor _ ih => exact ih
  | multiplication _ _ _ _ ih _ => exact ih.append rfl (fun _ h => h) _
  | summand _ ih => exact ih
  | addition _ _ _ _ ih _ => exact ih.append rfl (fun _ h => h) _
  | isA _ ih => exact ih.append rfl (by simp +contextual [Phrase.begins]) _
  | isATyped _ _ ih _ =>
    rw [List.append_assoc]
    exact ih.append rfl (by simp +contextual [Phrase.begins]) _
  | relation _ _ _ _ ih =>
    exact ih.mono rfl (by simp +contextual [Phrase.begins, Phrase.isOptional])
  | _ => rfl

theorem Reads.ne_nil {p : Phrase} {u : List Lexeme} {a : p.Meaning} (h : Reads p u a)
    (hp : p.isOptional = false) : u ≠ [] := h.begun.ne_nil hp

namespace Phrase

/-- No phrase inside has colons between its parts. -/
def NoColon : Phrase → Prop
  | .separated s p => s ≠ .colon ∧ p.NoColon
  | _ => True

end Phrase

/-- A colon only ends a header; no phrase has one in it. -/
theorem Reads.colon_notMem {p : Phrase} {u : List Lexeme} {a : p.Meaning} (h : Reads p u a)
    (hp : p.NoColon) : .symbol .colon ∉ u := by
  induction h with
  | one _ ih => exact ih hp.2
  | more _ _ ih ih' => simp [ih hp.2, ih' hp, hp.1.symm]
  | relation s hs _ _ ih =>
    refine ih ⟨?_, trivial⟩
    rintro rfl
    cases hs
  | multiplication op hop _ _ ih ih' => rcases hop with rfl | rfl <;> simp [ih trivial, ih' trivial]
  | addition op hop _ _ ih ih' => rcases hop with rfl | rfl <;> simp [ih trivial, ih' trivial]
  | placeholder k => simp
  | _ => simp_all [Phrase.NoColon]

/-- Several phrases with a symbol between them are all but the last, the symbol and the last. -/
theorem Reads.split_last {s : Symbol} {p : Phrase} {u : List Lexeme} {as : List p.Meaning}
    (h : Reads (.separated s p) u as) (hlen : 2 ≤ as.length) :
    ∃ v w as' a, u = v ++ .symbol s :: w ∧ as = as' ++ [a] ∧ Reads (.separated s p) v as' ∧
      Reads p w a := by
  induction as generalizing u with
  | nil => simp at hlen
  | cons a as ih =>
    cases h with
    | one _ => simp at hlen
    | more ha has =>
      cases has with
      | one hb => exact ⟨_, _, [a], _, rfl, rfl, .one ha, hb⟩
      | more hb hbs =>
        obtain ⟨v, w, as', b, hu, has', hv, hw⟩ := ih (.more hb hbs) (by cases hbs <;> simp)
        refine ⟨_, w, a :: as', b, ?_, by rw [has', List.cons_append], .more ha hv, hw⟩
        rw [hu, List.append_assoc, List.cons_append]

theorem Term.applied_concat (t : Term) (l : List (List TypeArg × List Term))
    (a : List TypeArg × List Term) : t.applied (l ++ [a]) = .call ⟨t.applied l, a.1, a.2⟩ := by
  simp [applied]

theorem Reads.segment_cases {u : List Lexeme} {t : Term} (h : Reads .segment u t) :
    (∃ n, t = .atom n) ∨ ∃ c, t = .call c := by
  cases h with
  | @segment n u l h =>
    rcases List.eq_nil_or_concat l with rfl | ⟨l', a, rfl⟩
    · exact .inl ⟨n, rfl⟩
    · exact .inr ⟨_, by rw [List.concat_eq_append, Term.applied_concat]⟩

theorem Reads.predicate {u : List Lexeme} {t : Term} {c : Call} (h : Reads .chain u t)
    (hc : t.toCall? = some c) : Reads .predicate u c := by
  cases h with
  | soleSegment h =>
    rcases h.segment_cases with ⟨n, rfl⟩ | ⟨c', rfl⟩
    · exact absurd hc (by simp [Term.toCall?])
    · simp only [Term.toCall?, Option.some.injEq] at hc
      exact hc ▸ .solePredicate h
  | dotted h hlen =>
    obtain ⟨v, w, ts, t, rfl, rfl, hv, hw⟩ := h.split_last hlen
    rcases hw.segment_cases with ⟨n, rfl⟩ | ⟨c', rfl⟩
    · exact absurd hc (by simp [Term.toCall?])
    · simp only [Term.toCall?, List.getLast?_concat, List.dropLast_concat, Option.some.injEq] at hc
      exact hc ▸ .dottedPredicate hv hw

theorem Reads.append {s : Symbol} {p : Phrase} {u v : List Lexeme} {as bs : List p.Meaning}
    (h : Reads (.separated s p) u as) (h' : Reads (.separated s p) v bs) :
    Reads (.separated s p) (u ++ .symbol s :: v) (as ++ bs) := by
  induction as generalizing u with
  | nil => cases h
  | cons b bs ih =>
    cases h with
    | one hb => exact .more hb h'
    | more hb hbs =>
      rw [List.append_assoc, List.cons_append]
      exact .more hb (ih hbs)

theorem Reads.concat {s : Symbol} {p : Phrase} {u v : List Lexeme} {as : List p.Meaning}
    {a : p.Meaning} (h : Reads (.separated s p) u as) (ha : Reads p v a) :
    Reads (.separated s p) (u ++ .symbol s :: v) (as ++ [a]) := h.append (.one ha)

theorem Reads.length_le {s : Symbol} {p : Phrase} {u : List Lexeme} {as : List p.Meaning}
    (h : Reads (.separated s p) u as) : as.length ≤ u.length + 1 := by
  induction as generalizing u with
  | nil => simp
  | cons b bs ih =>
    cases h with
    | one _ => simp
    | more _ hbs =>
      have := ih hbs
      simp only [List.length_cons, List.length_append]
      omega

namespace Phrase

/-- After a phrase of this sort, the lexeme would be taken as part of it. -/
def extendedBy : Phrase → Lexeme → Bool
  | .separated s p, l => l == .symbol s || p.extendedBy l
  | .applications, l | .segment, l => l == .symbol .lbracket || l == .symbol .lparen
  | .chain, l | .predicate, l | .atom, l =>
    l == .symbol .lbracket || l == .symbol .lparen || l == .symbol .dot
  | .power, l | .unary, l | .product, l | .sum, l =>
    l == .symbol .lbracket || l == .symbol .lparen || l == .symbol .dot ||
      (Infix.ofLexeme? l).isSome
  | .specific, l =>
    l == .symbol .lbracket || l == .symbol .lparen || l == .symbol .dot ||
      (Infix.ofLexeme? l).isSome || l.isRelational
  | .guards, l | .quantifier, l =>
    l == .symbol .lbracket || l == .symbol .lparen || l == .symbol .dot ||
      (Infix.ofLexeme? l).isSome || l.isRelational || l == .symbol .comma ||
        l == .symbol .colonColon
  | .generics, l => l == .symbol .lbracket
  | .decl, l => l == .symbol .comma
  | _, _ => false

def Ended (p : Phrase) : List Lexeme → Prop
  | [] => True
  | l :: _ => p.extendedBy l = false

@[simp] theorem ended_nil (p : Phrase) : p.Ended [] := trivial

@[simp] theorem ended_cons {p : Phrase} {l : Lexeme} {ts : List Lexeme} :
    p.Ended (l :: ts) ↔ p.extendedBy l = false := Iff.rfl

theorem ended_of_closed {p : Phrase} (h : ∀ l, p.extendedBy l = false) (ts : List Lexeme) :
    p.Ended ts := by
  cases ts with
  | nil => trivial
  | cons l ts => exact h l

theorem Ended.mono {p q : Phrase} {ts : List Lexeme} (h : p.Ended ts)
    (hpq : ∀ l, p.extendedBy l = false → q.extendedBy l = false) : q.Ended ts := by
  cases ts with
  | nil => trivial
  | cons l ts => exact hpq l h

theorem Ended.head_ne {p : Phrase} {ts : List Lexeme} {l : Lexeme} (h : p.Ended ts)
    (hl : p.extendedBy l = true) : ts.head? ≠ some l := by
  cases ts with
  | nil => simp
  | cons t ts =>
    rintro ⟨⟩
    exact absurd h (by simp [hl])

end Phrase

/-- A phrase does not begin with a lexeme that no phrase of its sort begins with. -/
theorem Reads.head_ne {p : Phrase} {u : List Lexeme} {a : p.Meaning} {l : Lexeme} (h : Reads p u a)
    (hp : p.isOptional = false) (hl : p.begins l = false) (v : List Lexeme) :
    (u ++ v).head? ≠ some l := by
  have hu := h.begun
  cases u with
  | nil => exact absurd rfl (h.ne_nil hp)
  | cons t u =>
    rintro ⟨⟩
    exact absurd hu (by simp [Phrase.Begun, hl])

theorem Reads.head_eq {p : Phrase} {u : List Lexeme} {a : p.Meaning} {l : Lexeme} (h : Reads p u a)
    (hp : p.isOptional = false) (hl : ∀ l', p.begins l' = true → l' = l) (v : List Lexeme) :
    (u ++ v).head? = some l := by
  have hu := h.begun
  cases u with
  | nil => exact absurd rfl (h.ne_nil hp)
  | cons t u => exact congrArg some (hl t hu)

end FactScript
