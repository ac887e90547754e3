import FactScript.Proofs.Layers
import FactScript.Statement.Header

/-!
The discipline of the parsers of a line. Whether it succeeds or fails, a parser takes lexemes off
the front and looks no further than at the lexeme after those it took: it does the same on every
list that begins as far. A fault that names a lexeme, or the end of the line, names what comes next
at the place where the parser stopped.
-/
namespace FactScript

namespace Fault

def found? : Fault → Option String
  | expectedToken _ found => some found
  | trailingToken found => some found
  | notRelational symbol => some symbol.text
  | _ => none

def isAtEnd : Fault → Bool
  | expectedBeforeEnd _ | unexpectedEnd => true
  | _ => false

/-- What the fault names is what comes next. -/
structure Fits (fault : Fault) (next : Option Lexeme) : Prop where
  found : ∀ text ∈ fault.found?, next.map Lexeme.text = some text
  ended : fault.isAtEnd = true → next = none

theorem fits_of_silent {fault : Fault} (hfound : fault.found? = none) (hend : fault.isAtEnd = false)
    (next : Option Lexeme) : fault.Fits next := by
  refine ⟨fun text htext => ?_, fun h => ?_⟩
  · rw [hfound] at htext
    cases htext
  · rw [hend] at h
    cases h

theorem unexpectedEnd_fits : unexpectedEnd.Fits none :=
  ⟨fun text htext => (by cases htext), fun _ => rfl⟩

theorem trailingToken_fits (t : Lexeme) : (trailingToken t.text).Fits (some t) :=
  ⟨fun text htext => htext, fun h => by cases h⟩

theorem expected_fits (what : String) (ts : List Lexeme) : (expected what ts).Fits ts.head? := by
  cases ts with
  | nil => exact ⟨fun text htext => (by cases htext), fun _ => rfl⟩
  | cons t ts => exact ⟨fun text htext => htext, fun h => by cases h⟩

end Fault

namespace Parser

section Careful

variable {α β : Type} {j k m n : ℕ} {p q : Parser α} {f : α → Parser β} {ts : List Lexeme}
  {l : Lexeme}

/-- On every list that begins with `u` and goes on with `next`, the parser takes `u` with the same
outcome: a success for at least `k` lexemes, or a fault that fits what comes next. -/
inductive Takes (k : ℕ) (p : Parser α) (u : List Lexeme) (next : Option Lexeme) : Prop
  | ok (a : α) (le : k ≤ u.length)
      (run : ∀ ⦃rest : List Lexeme⦄, rest.head? = next → p (u ++ rest) = .ok a rest)
  | error (fault : Fault) (fits : fault.Fits next)
      (run : ∀ ⦃rest : List Lexeme⦄, rest.head? = next → p (u ++ rest) = .error fault rest)

/-- On this list the parser takes some of the lexemes and looks no further than at the one after
them. -/
def CarefulAt (k : ℕ) (p : Parser α) (ts : List Lexeme) : Prop :=
  ∃ u rest, ts = u ++ rest ∧ Takes k p u rest.head?

/-- The parser is careful on lists of fewer than `n` lexemes. -/
def Careful (k n : ℕ) (p : Parser α) : Prop :=
  ∀ ⦃ts : List Lexeme⦄, ts.length < n → CarefulAt k p ts

theorem Takes.of_eq {u v : List Lexeme} {next : Option Lexeme} (h : Takes j p u next)
    (hk : j ≤ u.length → k ≤ v.length)
    (heq : ∀ rest : List Lexeme, rest.head? = next → q (v ++ rest) = p (u ++ rest)) :
    Takes k q v next := by
  cases h with
  | ok a hu hrun => exact .ok a (hk hu) fun rest hhead => (heq rest hhead).trans (hrun hhead)
  | error fault hfits hrun =>
    exact .error fault hfits fun rest hhead => (heq rest hhead).trans (hrun hhead)

theorem head?_append_congr {rest rest' : List Lexeme} (u : List Lexeme)
    (h : rest'.head? = rest.head?) :
    (u ++ rest').head? = (u ++ rest).head? := by
  rw [List.head?_append, List.head?_append, h]

theorem CarefulAt.mono (h : CarefulAt k p ts) (hj : j ≤ k) : CarefulAt j p ts := by
  obtain ⟨u, rest, hts, hu⟩ := h
  exact ⟨u, rest, hts, hu.of_eq (Nat.le_trans hj) fun _ _ => rfl⟩

theorem Careful.mono (h : Careful k n p) (hj : j ≤ k) (hm : m ≤ n) : Careful j m p :=
  fun _ hts => (h (Nat.lt_of_lt_of_le hts hm)).mono hj

theorem Careful.weak (h : Careful k n p) : Careful 0 n p := h.mono (Nat.zero_le k) (Nat.le_refl n)

theorem careful_zero : Careful k 0 p := fun _ hts => absurd hts (Nat.not_lt_zero _)

/-- A parser that looks at the next lexeme before it does what another does. -/
theorem CarefulAt.of_head (h : CarefulAt k q ts)
    (heq : ∀ ts' : List Lexeme, ts'.head? = ts.head? → p ts' = q ts') : CarefulAt k p ts := by
  obtain ⟨u, rest, rfl, hu⟩ := h
  exact ⟨u, rest, rfl, hu.of_eq id fun rest' hhead => heq _ (head?_append_congr u hhead)⟩

/-! Parsers that take nothing. -/

theorem careful_pure (a : α) : Careful 0 n (pure a) := fun ts _ =>
  ⟨[], ts, rfl, .ok a (Nat.le_refl 0) fun _ _ => rfl⟩

theorem CarefulAt.throw {fault : Fault} (h : fault.Fits ts.head?) :
    CarefulAt k (MonadExcept.throw fault : Parser α) ts :=
  ⟨[], ts, rfl, .error fault h fun _ _ => rfl⟩

theorem careful_throw {fault : Fault} (hfound : fault.found? = none)
    (hend : fault.isAtEnd = false) :
    Careful k n (throw fault : Parser α) :=
  fun _ _ => .throw (Fault.fits_of_silent hfound hend _)

theorem CarefulAt.expected (what : String) : CarefulAt k (expected what : Parser α) ts := by
  refine ⟨[], ts, rfl, .error _ (Fault.expected_fits what ts) fun ts' hhead => ?_⟩
  have hexpected : Fault.expected what ts' = Fault.expected what ts := by
    cases ts <;> cases ts' <;> cases hhead <;> rfl
  rw [List.nil_append, Parser.expected, hexpected]

theorem careful_expected (what : String) : Careful k n (expected what : Parser α) :=
  fun _ _ => .expected what

theorem careful_single (what : Sole) (as : List α) : Careful 0 n (single what as) := by
  unfold single
  split
  · exact careful_pure _
  · exact careful_throw rfl rfl

theorem careful_atEnd : Careful 0 n atEnd := by
  intro ts _
  cases ts with
  | nil =>
    refine ⟨[], [], rfl, .ok () (Nat.le_refl 0) fun ts' hts' => ?_⟩
    rw [List.head?_eq_none_iff.mp hts']
    rfl
  | cons t ts =>
    refine ⟨[], t :: ts, rfl, .error _ (Fault.trailingToken_fits t) fun ts' hts' => ?_⟩
    obtain ⟨ts'', rfl⟩ := List.head?_eq_some_iff.mp hts'
    rfl

/-! One parser after another. -/

/-- What follows a parser is given what the parser leaves. -/
theorem CarefulAt.bind (hp : CarefulAt j p ts)
    (hf : ∀ a rest, rest.length + j ≤ ts.length → CarefulAt k (f a) rest) :
    CarefulAt (k + j) (p >>= f) ts := by
  obtain ⟨u, rest, rfl, hu⟩ := hp
  cases hu with
  | error fault hfits hrun =>
    exact ⟨u, rest, rfl, .error fault hfits fun rest' hhead => bind_of_error (hrun hhead)⟩
  | ok a hj hrun =>
    obtain ⟨v, rest, rfl, hv⟩ := hf a rest (by rw [List.length_append]; omega)
    refine ⟨u ++ v, rest, (List.append_assoc u v rest).symm,
      hv.of_eq (fun hk => ?_) fun rest' hhead => ?_⟩
    · rw [List.length_append]
      omega
    · -- The first parser sees no more of `v` and what follows than the first lexeme.
      rw [List.append_assoc, bind_of_ok (hrun (head?_append_congr v hhead))]

theorem Careful.bind (hp : Careful j n p) (hf : ∀ a, Careful k (n - j) (f a)) :
    Careful (k + j) n (p >>= f) :=
  fun _ hts => (hp hts).bind fun a rest hrest => hf a (by omega)

theorem Careful.ite {c : Prop} [Decidable c] (hp : Careful k n p) (hq : Careful k n q) :
    Careful k n (if c then p else q) := by
  split
  · exact hp
  · exact hq

theorem CarefulAt.peek {f : Option Lexeme → Parser β} (h : CarefulAt k (f ts.head?) ts) :
    CarefulAt k (Parser.peek >>= f) ts :=
  h.of_head fun ts' hhead => by rw [peek_bind, hhead]

theorem Careful.peek {f : Option Lexeme → Parser β}
    (h : ∀ ⦃ts : List Lexeme⦄, ts.length < n → CarefulAt k (f ts.head?) ts) :
    Careful k n (Parser.peek >>= f) := fun _ hts => .peek (h hts)

theorem Careful.at {f : Bool → Parser β} (h : ∀ here, Careful k n (f here)) :
    Careful k n (at_ l >>= f) :=
  fun _ hts => (h _ hts).of_head fun ts' hhead => by rw [at_bind, hhead]

theorem CarefulAt.at_ite {p q : Parser β} (hp : ts.head? = some l → CarefulAt k p ts)
    (hq : ts.head? ≠ some l → CarefulAt k q ts) :
    CarefulAt k (at_ l >>= fun here => if here = true then p else q) ts := by
  by_cases h : ts.head? = some l
  · exact (hp h).of_head fun ts' hhead => by rw [at_bind_ite, fork, hhead, if_pos h]
  · exact (hq h).of_head fun ts' hhead => by rw [at_bind_ite, fork, hhead, if_neg h]

theorem Careful.skip {f : Bool → Parser β} (htrue : Careful (k - 1) (n - 1) (f true))
    (hfalse : Careful k n (f false)) : Careful k n (skip l >>= f) := by
  intro ts hts
  by_cases h : ts.head? = some l
  · obtain ⟨ts, rfl⟩ := List.head?_eq_some_iff.mp h
    rw [List.length_cons] at hts
    obtain ⟨u, rest, rfl, hu⟩ := @htrue ts (by omega)
    refine ⟨l :: u, rest, rfl, hu.of_eq (fun hk => ?_) fun rest' _ => ?_⟩
    · rw [List.length_cons]
      omega
    · exact bind_of_ok (skip_eq_ok.mpr (.inl ⟨rfl, rfl⟩))
  · refine (hfalse hts).of_head fun ts' hhead => bind_of_ok (skip_eq_ok.mpr (.inr ⟨rfl, ?_, rfl⟩))
    rwa [hhead]

theorem careful_skip : Careful 0 n (skip l) := by
  have h : Careful 0 n (skip l >>= pure) := .skip (careful_pure _) (careful_pure _)
  rwa [bind_pure] at h

/-! Parsers that take a lexeme or fail. -/

theorem careful_expect (l : Lexeme) : Careful 1 n (expect l) :=
  .skip (careful_pure _) (careful_expected _)

theorem careful_identifier : Careful 1 n identifier := by
  intro ts _
  by_cases h : ∃ name rest, ts = .identifier name :: rest
  · obtain ⟨name, rest, rfl⟩ := h
    exact ⟨[.identifier name], rest, rfl, .ok name (Nat.le_refl 1) fun _ _ => rfl⟩
  · refine (CarefulAt.expected "identifier").of_head fun ts' hhead => ?_
    unfold identifier
    split
    · next name rest =>
      obtain ⟨rest', rfl⟩ := List.head?_eq_some_iff.mp hhead.symm
      exact absurd ⟨name, rest', rfl⟩ h
    · rfl

/-! Repetition. -/

theorem manyUpTo_of_begins {begins : Lexeme → Bool} (h : ts.head?.any begins = true) (b : ℕ) :
    manyUpTo begins p (b + 1) ts = (do return (← p) :: (← manyUpTo begins p b)) ts := by
  rw [manyUpTo, peek_bind, h]
  rfl

/-- If an item that has begun takes a lexeme or fails, a bound that is not below the number of
lexemes is not felt. -/
theorem careful_manyUpTo {begins : Lexeme → Bool}
    (h : ∀ ⦃ts : List Lexeme⦄, ts.length < n → ts.head?.any begins = true → CarefulAt 1 p ts)
    (c : ℕ) :
    Careful 0 n fun ts => manyUpTo begins p (ts.length + c) ts := by
  intro ts hts
  induction hlen : ts.length using Nat.strongRecOn generalizing ts c with
  | ind len ih =>
    by_cases hbegins : ts.head?.any begins = true
    · obtain ⟨u, rest, rfl, hu⟩ := h hts hbegins
      have hbegun {rest' : List Lexeme} (hhead : rest'.head? = rest.head?) :
          (u ++ rest').head?.any begins = true := by rwa [head?_append_congr u hhead]
      cases hu with
      | error fault hfits hrun =>
        refine ⟨u, rest, rfl, .error fault hfits fun rest' hhead => ?_⟩
        have hpos : 0 < (u ++ rest').length := by
          refine List.length_pos_iff.mpr fun hnil => ?_
          have hbegun := hbegun hhead
          rw [hnil] at hbegun
          cases hbegun
        obtain ⟨b, hb⟩ : ∃ b, (u ++ rest').length + c = b + 1 :=
          Nat.exists_eq_add_one.mpr (by omega)
        rw [hb, manyUpTo_of_begins (hbegun hhead)]
        exact bind_of_error (hrun hhead)
      | ok a hk hrun =>
        rw [List.length_append] at hts hlen
        have hmore := ih rest.length (by omega) (u.length - 1 + c) (by omega) rfl
        obtain ⟨v, rest, rfl, hv⟩ := hmore.bind (k := 0) fun as rest _ =>
          careful_pure (a :: as) (Nat.lt_succ_self rest.length)
        refine ⟨u ++ v, rest, (List.append_assoc u v rest).symm,
          hv.of_eq (fun _ => Nat.zero_le _) fun rest' hhead => ?_⟩
        have hhead := head?_append_congr v hhead
        have hbound : (u ++ (v ++ rest')).length + c =
            (v ++ rest').length + (u.length - 1 + c) + 1 := by
          rw [List.length_append]
          omega
        rw [List.append_assoc, hbound, manyUpTo_of_begins (hbegun hhead), bind_of_ok (hrun hhead)]
        rfl
    · exact ⟨[], ts, rfl, .ok [] (Nat.le_refl 0) fun ts' hhead =>
        manyUpTo_stop (by rw [List.nil_append, hhead]; simpa using hbegins) _⟩

theorem careful_many {begins : Lexeme → Bool}
    (h : ∀ ⦃ts : List Lexeme⦄, ts.length < n → ts.head?.any begins = true → CarefulAt 1 p ts) :
    Careful 0 n (many begins p) := careful_manyUpTo h 0

theorem Careful.separated {s : Symbol} (h : Careful k n p) : Careful k n (separated s p) := by
  have hitem : Careful 1 n (do expectSymbol s; p) :=
    (careful_expect _).bind fun _ => h.mono (Nat.zero_le k) (Nat.sub_le n 1)
  have hmany : Careful 0 n (many (· == .symbol s) (do expectSymbol s; p)) :=
    careful_many fun ts hts _ => hitem hts
  have hall :=
    h.bind (f := fun first => (first :: ·) <$> many (· == .symbol s) (do expectSymbol s; p))
    fun _ => (hmany.mono (Nat.le_refl 0) (Nat.sub_le n k)).bind fun _ => careful_pure _
  rwa [Nat.zero_add] at hall

end Careful

/-! Phrases that hold no terms. -/

section Lines

variable {n : ℕ}

theorem typeArg_careful : Careful 1 n typeArg := by
  refine .skip ?_ (careful_identifier.bind fun _ => careful_pure _)
  exact (careful_expect _).weak.bind fun _ => careful_identifier.weak.bind fun _ =>
    (careful_expect _).weak.bind fun _ => careful_identifier.weak.bind fun _ =>
      (careful_expect _).weak.bind fun _ => careful_pure _

theorem typeArgs_careful : Careful 1 n typeArgs :=
  (careful_expect _).bind fun _ => typeArg_careful.separated.weak.bind fun _ =>
    (careful_expect _).weak.bind fun _ => careful_pure _

theorem genericParam_careful : Careful 1 n genericParam :=
  careful_identifier.bind fun _ => careful_identifier.weak.bind fun _ => careful_pure _

theorem genericParams_careful : Careful 1 n genericParams :=
  (careful_expect _).bind fun _ => genericParam_careful.separated.weak.bind fun _ =>
    (careful_expect _).weak.bind fun _ => careful_pure _

theorem names_careful : Careful 1 n names := careful_identifier.separated

theorem fraction_careful {whole : String} (hwhole : isWholePart whole = true) (ts : List Lexeme) :
    CarefulAt 1 number (.number whole :: .symbol .dot :: ts) := by
  by_cases h : ∃ digits rest, ts = .number digits :: rest
  · obtain ⟨digits, rest, rfl⟩ := h
    by_cases hdigits : fitsWord digits = true
    · exact ⟨[.number whole, .symbol .dot, .number digits], rest, rfl,
        .ok _ (Nat.succ_pos _) fun rest' _ => fraction_complete hwhole hdigits rest'⟩
    · refine ⟨[.number whole, .symbol .dot], .number digits :: rest, rfl,
        .error (.invalidNumber (whole ++ "." ++ digits))
          (Fault.fits_of_silent rfl rfl _) fun ts' hhead => ?_⟩
      obtain ⟨rest', rfl⟩ := List.head?_eq_some_iff.mp hhead
      unfold number
      simp only [List.cons_append, List.nil_append, hwhole, hdigits, if_true, Bool.false_eq_true,
        if_false]
  · refine ⟨[.number whole, .symbol .dot], ts, rfl,
      .error (.invalidNumber (whole ++ ".")) (Fault.fits_of_silent rfl rfl _) fun ts' hhead => ?_⟩
    unfold number
    simp only [List.cons_append, List.nil_append, hwhole, if_true]
    split
    · next digits rest heq =>
      have hts : ts.head? = some (.number digits) := by
        rw [← hhead, (List.cons.inj heq).2]
        rfl
      obtain ⟨rest', rfl⟩ := List.head?_eq_some_iff.mp hts
      exact absurd ⟨digits, rest', rfl⟩ h
    · next heq => rw [(List.cons.inj heq).2]
    · next hno => exact absurd rfl (hno ts')

/-- Whether a dot follows is seen before a number ends. -/
theorem number_careful : Careful 1 n number := by
  intro ts _
  by_cases h : ∃ whole rest, ts = .number whole :: rest
  · obtain ⟨whole, rest, rfl⟩ := h
    by_cases hwhole : isWholePart whole = true
    · by_cases hdot : rest.head? = some (.symbol .dot)
      · obtain ⟨rest, rfl⟩ := List.head?_eq_some_iff.mp hdot
        exact fraction_careful hwhole rest
      · refine ⟨[.number whole], rest, rfl,
          .ok (.number whole) (Nat.le_refl 1) fun rest' hhead => ?_⟩
        exact whole_complete hwhole (hhead ▸ hdot)
    · refine ⟨[.number whole], rest, rfl,
        .error (.invalidNumber whole) (Fault.fits_of_silent rfl rfl _) fun rest' _ => ?_⟩
      unfold number
      simp only [List.cons_append, List.nil_append, hwhole, Bool.false_eq_true, if_false]
  · cases ts with
    | nil =>
      refine ⟨[], [], rfl, .error .unexpectedEnd Fault.unexpectedEnd_fits fun ts' hhead => ?_⟩
      rw [List.head?_eq_none_iff.mp hhead]
      rfl
    | cons t ts =>
      refine (CarefulAt.expected "number").of_head fun ts' hhead => ?_
      obtain ⟨rest', rfl⟩ := List.head?_eq_some_iff.mp hhead
      cases t with
      | number whole => exact absurd ⟨whole, ts, rfl⟩ h
      | _ => rfl

end Lines

/-! Phrases inside one another. -/

namespace Nested

structure Careful (n : ℕ) (inner : Nested) : Prop where
  term : Parser.Careful 1 n inner.term
  type : Parser.Careful 1 n inner.type

variable {n : ℕ} {inner : Nested}

theorem args_careful (h : inner.Careful n) : Parser.Careful 1 n inner.args := by
  refine (careful_expect _).bind fun _ => .skip (careful_pure _) ?_
  exact (h.term.separated.mono (Nat.zero_le 1) (Nat.sub_le n 1)).bind fun _ =>
    (careful_expect _).weak.bind fun _ => careful_pure _

/-- An application that has begun takes the bracket or parenthesis that it begins with. -/
theorem application_careful (h : inner.Careful n) {ts : List Lexeme} (hts : ts.length < n)
    (hbegins : ts.head?.any beginsApplication = true) : CarefulAt 1 inner.application ts := by
  have hargs : Parser.Careful 1 n (do return (([] : List TypeArg), ← inner.args)) :=
    (args_careful h).bind fun _ => careful_pure _
  refine .at_ite (fun _ => ?_) fun hbracket => ?_
  · refine (typeArgs_careful.bind fun types => .at fun _ => .ite ?_ ?_) hts
    · exact ((args_careful h).mono (Nat.zero_le 1) (Nat.sub_le n 1)).bind fun _ => careful_pure _
    · exact (careful_pure _).bind fun _ => careful_pure _
  · rw [pure_bind]
    refine .at_ite (fun _ => hargs hts) fun hparen => ?_
    obtain ⟨l, hl, hor⟩ := (Option.any_eq_true _ _).mp hbegins
    rw [beginsApplication, Bool.or_eq_true, beq_iff_eq, beq_iff_eq] at hor
    rcases hor with rfl | rfl
    · exact absurd hl hbracket
    · exact absurd hl hparen

theorem segment_careful (h : inner.Careful n) : Parser.Careful 1 (n + 1) inner.segment :=
  careful_identifier.bind fun _ => (careful_many fun _ => application_careful h).bind fun _ =>
    careful_pure _

theorem chain_careful (h : inner.Careful n) : Parser.Careful 1 (n + 1) inner.chain := by
  refine (segment_careful h).separated.bind fun parts => ?_
  split
  · exact careful_pure _
  · exact careful_pure _

theorem predication_careful (h : inner.Careful n) (holds : Bool) :
    Parser.Careful 1 n (inner.predication holds) := by
  refine (careful_expect _).bind fun _ =>
    ((chain_careful h).mono (Nat.zero_le 1) (by omega)).bind fun term => ?_
  split
  · exact careful_pure _
  · exact careful_throw rfl rfl

theorem relational_careful (h : inner.Careful n) (holds : Bool) :
    Parser.Careful 1 n (inner.relational holds) := by
  refine h.term.bind fun first => .skip ?_ (.peek fun ts hts => ?_)
  · refine careful_identifier.weak.bind fun name => .at fun _ => .ite ?_ ?_
    · exact typeArgs_careful.weak.bind fun _ => (careful_single _ _).bind fun _ =>
        (careful_pure _).bind fun _ =>
        careful_pure _
    · exact (careful_pure _).bind fun _ => careful_pure _
  · split
    · next s hhead =>
      split
      · have hother : Parser.Careful 1 (n - 1) (do expectSymbol s; inner.term) :=
          (careful_expect _).bind fun _ => h.term.mono (Nat.zero_le 1) (by omega)
        exact (careful_many fun ts hts _ => hother hts).bind (fun _ => careful_pure _) hts
      · refine .throw ?_
        rw [hhead]
        exact ⟨fun text htext => htext, fun hend => by cases hend⟩
    · exact .expected _

theorem affirmation_careful (h : inner.Careful n) (holds : Bool) :
    Parser.Careful 1 n (inner.affirmation holds) := by
  refine .at fun _ => .ite (.ite (careful_expected _) (careful_throw rfl rfl))
    (.at fun _ => .ite ?_ ?_)
  · exact (predication_careful h holds).bind fun _ => careful_pure _
  · exact relational_careful h holds

theorem specificFact_careful (h : inner.Careful n) : Parser.Careful 1 n inner.specificFact := by
  rw [specificFact_eq]
  exact .skip ((affirmation_careful h _).mono (Nat.zero_le 1) (Nat.sub_le n 1))
    (affirmation_careful h _)

theorem guards_careful (h : inner.Careful n) : Parser.Careful 0 n inner.guards :=
  .skip ((specificFact_careful h).separated.mono (Nat.zero_le 1) (Nat.sub_le n 1)) (careful_pure _)

theorem params_careful (h : inner.Careful n) : Parser.Careful 1 n inner.params :=
  .separated (careful_identifier.bind fun _ =>
    (h.type.mono (Nat.zero_le 1) (Nat.sub_le n 1)).bind fun _ => careful_pure _)

theorem valueParams_careful (h : inner.Careful n) : Parser.Careful 1 n inner.valueParams :=
  (careful_expect _).bind fun _ => .skip (careful_pure _) <|
    ((params_careful h).mono (Nat.zero_le 1) (Nat.sub_le n 1)).bind fun _ =>
      (careful_expect _).weak.bind fun _ => careful_pure _

theorem guardedGenerics_careful (h : inner.Careful n) : Parser.Careful 0 n inner.guardedGenerics :=
  .skip
    (genericParam_careful.separated.weak.bind fun _ =>
      ((guards_careful h).mono (Nat.le_refl 0) (Nat.sub_le n 1)).bind fun _ =>
        (careful_expect _).weak.bind fun _ => careful_pure _)
    (careful_pure _)

theorem guardedParams_careful (h : inner.Careful n) : Parser.Careful 1 n inner.guardedParams := by
  refine (careful_expect _).bind fun _ => .at fun _ => .at fun _ =>
    .ite ((careful_pure _).bind fun params => ?_)
      (((params_careful h).mono (Nat.zero_le 1) (Nat.sub_le n 1)).bind fun params => ?_)
  all_goals
    exact ((guards_careful h).mono (Nat.le_refl 0) (Nat.sub_le n 1)).bind fun _ =>
      (careful_expect _).weak.bind fun _ => careful_pure _

theorem signature_careful (h : inner.Careful n) : Parser.Careful 1 n inner.signature :=
  (guardedGenerics_careful h).bind fun _ => (guardedParams_careful h).bind fun _ => careful_pure _

theorem propertyType_careful (h : inner.Careful n) : Parser.Careful 1 (n + 1) inner.propertyType :=
  (careful_expect _).bind fun _ => (signature_careful h).weak

theorem fnType_careful (h : inner.Careful n) : Parser.Careful 1 (n + 1) inner.fnType :=
  (careful_expect _).bind fun _ => (signature_careful h).weak.bind fun _ =>
    h.type.weak.bind fun _ =>
    careful_pure _

theorem placeholder_careful : Parser.Careful 1 n placeholder :=
  .skip (careful_pure _) <| .skip (careful_pure _) <| .skip (careful_pure _) (careful_expected _)

/-- A type looks at the types and terms inside it only after it has taken a lexeme. -/
theorem typeStep_careful (h : inner.Careful n) : Parser.Careful 1 (n + 1) inner.typeStep := by
  refine .at fun _ => .ite ((fnType_careful h).bind fun _ => careful_pure _) ?_
  refine .at fun _ => .ite ((propertyType_careful h).bind fun _ => careful_pure _) ?_
  exact .skip (placeholder_careful.weak.bind fun _ => careful_pure _)
    (careful_identifier.bind fun _ => careful_pure _)

theorem ascription_careful (h : inner.Careful n) : Parser.Careful 1 (n + 1) inner.ascription :=
  (careful_expect _).bind fun _ => (careful_expect _).weak.bind fun _ => h.term.weak.bind fun _ =>
    (careful_expect _).weak.bind fun _ =>
      ((propertyType_careful h).mono (Nat.zero_le 1) (Nat.le_succ n)).bind fun _ =>
        (careful_expect _).weak.bind fun _ => careful_pure _

/-- An atom looks at the types and terms inside it only after it has taken a lexeme. -/
theorem atom_careful (h : inner.Careful n) : Parser.Careful 1 (n + 1) inner.atom := by
  refine .skip (h.term.weak.bind fun _ => (careful_expect _).weak.bind fun _ => careful_pure _) ?_
  refine .peek fun ts hts => ?_
  split
  · next hhead =>
    refine .throw ?_
    rw [hhead]
    exact Fault.unexpectedEnd_fits
  · exact ascription_careful h hts
  · exact number_careful hts
  · exact chain_careful h hts
  · exact .expected _

end Nested

/-! Terms and types. -/

section Layers

variable {s s' : Symbol} {n : ℕ} {term : Parser Term}

theorem operator_careful : Careful 1 n (operator s s') :=
  .skip (careful_pure _) ((careful_expect _).bind fun _ => careful_pure _)

theorem operand_careful (h : Careful 1 n term) : Careful 1 n (operand s s' term) :=
  operator_careful.bind fun _ => (h.mono (Nat.zero_le 1) (Nat.sub_le n 1)).bind fun _ =>
    careful_pure _

theorem leftAssociative_careful (h : Careful 1 n term) :
    Careful 1 n (leftAssociative s s' term) := by
  have hothers :
      Careful 0 n (many (fun l => l == .symbol s || l == .symbol s') (operand s s' term)) :=
    careful_many fun ts hts _ => operand_careful h hts
  exact h.bind fun _ => (hothers.mono (Nat.le_refl 0) (Nat.sub_le n 1)).bind fun _ => careful_pure _

namespace Layers

structure Careful (n : ℕ) (l : Layers) : Prop where
  sum : Parser.Careful 1 n l.sum
  product : Parser.Careful 1 n l.product
  unary : Parser.Careful 1 n l.unary
  power : Parser.Careful 1 n l.power
  type : Parser.Careful 1 n l.type

variable {l : Layers}

/-- What stands inside an atom or a type, after a minus, or after a caret is shorter. -/
theorem Careful.succ (hl : l.Grammatical) (h : l.Careful n) : l.Careful (n + 1) := by
  have hinner : l.inner.Careful n := ⟨h.sum, h.type⟩
  have hpower : Parser.Careful 1 (n + 1) l.power := by
    rw [hl.power]
    exact (Nested.atom_careful hinner).bind fun _ => .skip
      ((h.power.mono (Nat.zero_le 1) (Nat.sub_le n 1)).bind fun _ => careful_pure _)
        (careful_pure _)
  have hunary : Parser.Careful 1 (n + 1) l.unary := by
    rw [hl.unary]
    exact .skip (h.power.weak.bind fun _ => careful_pure _) hpower
  have hproduct : Parser.Careful 1 (n + 1) l.product := by
    rw [hl.product]
    exact leftAssociative_careful hunary
  have hsum : Parser.Careful 1 (n + 1) l.sum := by
    rw [hl.sum]
    exact leftAssociative_careful hproduct
  have htype : Parser.Careful 1 (n + 1) l.type := by
    rw [hl.type]
    exact Nested.typeStep_careful hinner
  exact ⟨hsum, hproduct, hunary, hpower, htype⟩

theorem careful (hl : l.Grammatical) (n : ℕ) : l.Careful n := by
  induction n with
  | zero => exact ⟨careful_zero, careful_zero, careful_zero, careful_zero, careful_zero⟩
  | succ n ih => exact ih.succ hl

end Layers

theorem term_careful : Careful 1 n Parser.term := (Layers.careful layers_grammatical n).sum

theorem type_careful : Careful 1 n type := (Layers.careful layers_grammatical n).type

theorem full_careful : full.Careful n := ⟨term_careful, type_careful⟩

end Layers

/-! Headers. -/

section Headers

variable {n : ℕ}

open Nested

theorem opens_careful : Careful 0 n opens := careful_skip

theorem universalHeader_careful : Careful 1 n universalHeader :=
  (careful_expect _).bind fun _ => (guardedGenerics_careful full_careful).bind fun _ =>
    (params_careful full_careful).weak.bind fun _ => (guards_careful full_careful).bind fun _ =>
      (careful_expect _).weak.bind fun _ => careful_pure _

theorem factHeader_careful : Careful 1 n factHeader :=
  .at fun _ => .ite universalHeader_careful
    ((specificFact_careful full_careful).bind fun _ => careful_pure _)

theorem varDecl_careful : Careful 1 n varDecl :=
  (careful_expect _).bind fun _ => (params_careful full_careful).weak

theorem fnDecl_careful : Careful 1 n fnDecl :=
  (careful_expect _).bind fun _ => careful_identifier.weak.bind fun _ =>
    (signature_careful full_careful).weak.bind fun _ => type_careful.weak.bind fun _ =>
      careful_pure _

theorem signedName_careful (k : Keyword) : Careful 1 n (signedName k) :=
  (careful_expect _).bind fun _ => careful_identifier.weak.bind fun _ =>
    (signature_careful full_careful).weak.bind fun _ => careful_pure _

theorem decl_careful : Careful 1 n decl :=
  .at fun _ => .ite (varDecl_careful.bind fun _ => careful_pure _) <|
    .at fun _ => .ite (fnDecl_careful.bind fun _ => careful_pure _) <|
      .at fun _ => .ite ((signedName_careful _).bind fun _ => careful_pure _) (careful_expected _)

theorem conceptHeader_careful : Careful 1 n conceptHeader :=
  (careful_expect _).bind fun _ => careful_identifier.weak.bind fun _ =>
    careful_identifier.weak.bind fun _ =>
    opens_careful.bind fun _ => careful_pure _

theorem typeHeader_careful : Careful 1 n typeHeader :=
  (careful_expect _).bind fun _ => careful_identifier.weak.bind fun _ => opens_careful.bind fun _ =>
    careful_pure _

theorem propertyHeader_careful : Careful 1 n propertyHeader :=
  (signedName_careful _).bind fun _ => opens_careful.bind fun _ => careful_pure _

theorem fnHeader_careful : Careful 1 n fnHeader :=
  fnDecl_careful.bind fun _ => opens_careful.bind fun _ => careful_pure _

theorem varHeader_careful : Careful 1 n varHeader :=
  varDecl_careful.bind fun _ => opens_careful.bind fun _ => careful_pure _

theorem claimHeader_careful : Careful 1 n claimHeader :=
  (careful_expect _).bind fun _ => (careful_expect _).weak.bind fun _ => careful_pure _

theorem proofHeader_careful : Careful 1 n proofHeader :=
  (careful_expect _).bind fun _ => (careful_expect _).weak.bind fun _ => careful_pure _

theorem useHeader_careful : Careful 1 n useHeader :=
  (careful_expect _).bind fun _ => careful_identifier.weak.bind fun _ =>
    term_careful.weak.bind fun _ =>
    careful_pure _

theorem knowHeader_careful : Careful 1 n knowHeader :=
  (careful_expect _).bind fun _ => .skip (careful_pure _)
    (factHeader_careful.weak.bind fun _ => careful_pure _)

theorem existHeader_careful : Careful 1 n existHeader :=
  (signedName_careful _).bind fun _ => opens_careful.bind fun _ => careful_pure _

theorem witnessHeader_careful : Careful 1 n witnessHeader :=
  (careful_expect _).bind fun _ => (predication_careful full_careful true).weak.bind fun _ =>
    (careful_expect _).weak.bind fun _ => careful_pure _

theorem memberHeader_careful : Careful 1 n memberHeader :=
  (careful_expect _).bind fun _ => genericParams_careful.weak.bind fun _ =>
    (careful_single _ _).bind fun _ =>
    (valueParams_careful full_careful).weak.bind fun _ => (careful_single _ _).bind fun _ =>
      decl_careful.weak.bind fun _ => opens_careful.bind fun _ => careful_pure _

theorem typeMemberHeader_careful : Careful 1 n typeMemberHeader :=
  (careful_expect _).bind fun _ => genericParams_careful.weak.bind fun _ =>
    (careful_single _ _).bind fun _ =>
    decl_careful.weak.bind fun _ => opens_careful.bind fun _ => careful_pure _

theorem header_careful : Careful 1 n header := by
  refine .peek fun ts hts => ?_
  split
  · next hhead =>
    refine .throw ?_
    rw [hhead]
    exact Fault.unexpectedEnd_fits
  · exact conceptHeader_careful hts
  · exact typeHeader_careful hts
  · exact propertyHeader_careful hts
  · exact fnHeader_careful hts
  · exact varHeader_careful hts
  · exact claimHeader_careful hts
  · exact proofHeader_careful hts
  · exact useHeader_careful hts
  · exact knowHeader_careful hts
  · exact existHeader_careful hts
  · exact witnessHeader_careful hts
  · exact memberHeader_careful hts
  · exact typeMemberHeader_careful hts
  · exact (factHeader_careful.bind fun _ => careful_pure _) hts

theorem topHeader_careful : Careful 1 n (do return (← skipKeyword .pub, ← header)) :=
  careful_skip.bind fun _ => header_careful.bind fun _ => careful_pure _

theorem sectionHeader_careful (k : Keyword) :
    Careful 1 n (do expectKeyword k; expectSymbol .colon; atEnd) :=
  (careful_expect _).bind fun _ => (careful_expect _).weak.bind fun _ => careful_atEnd

end Headers

end Parser

end FactScript
