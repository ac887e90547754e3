import FactScript.Term.Parser

/-!
When the parsers of a line succeed. Each equivalence tells what a success requires of the lexemes at
the front, so a parser made of these steps is opened by rewriting.
-/
namespace FactScript

/-- The fact asserted or denied, if it can be. -/
def Fact.sign (holds : Bool) : Fact → Fact
  | .relational _ operator operands => .relational holds operator operands
  | .property _ call => .property holds call
  | f => f

namespace Parser

variable {α β : Type} {ts rest : List Lexeme} {l : Lexeme}

@[simp] theorem bind_eq_ok {p : Parser α} {f : α → Parser β} {b : β} :
    (p >>= f) ts = .ok b rest ↔ ∃ a ts', p ts = .ok a ts' ∧ f a ts' = .ok b rest := by
  change EStateM.bind p f ts = _ ↔ _
  unfold EStateM.bind
  cases h : p ts with
  | ok a ts' =>
    constructor
    · intro hf
      exact ⟨a, ts', rfl, hf⟩
    · rintro ⟨a', ts'', he, hf⟩
      cases he
      exact hf
  | error e ts' => simp

theorem bind_of_ok {p : Parser α} {f : α → Parser β} {a : α} (h : p ts = .ok a rest) :
    (p >>= f) ts = f a rest := by
  change EStateM.bind p f ts = _
  simp [EStateM.bind, h]

@[simp] theorem map_eq_ok {p : Parser α} {f : α → β} {b : β} :
    (f <$> p) ts = .ok b rest ↔ ∃ a, p ts = .ok a rest ∧ f a = b := by
  change EStateM.map f p ts = _ ↔ _
  unfold EStateM.map
  cases h : p ts with
  | ok a ts' =>
    constructor
    · intro hb
      cases hb
      exact ⟨a, rfl, rfl⟩
    · rintro ⟨a', ha, rfl⟩
      cases ha
      rfl
  | error e ts' => simp

@[simp] theorem pure_eq_ok {a b : α} : (pure a : Parser α) ts = .ok b rest ↔ a = b ∧ ts = rest := by
  change EStateM.Result.ok a ts = _ ↔ _
  simp

@[simp] theorem throw_ne_ok {e : Fault} {b : α} : (throw e : Parser α) ts ≠ .ok b rest := nofun

@[simp] theorem expected_ne_ok {what : String} {b : α} :
    (expected what : Parser α) ts ≠ .ok b rest := nofun

theorem skip_eq_ok {b : Bool} : skip l ts = .ok b rest ↔
    (b = true ∧ ts = l :: rest) ∨ (b = false ∧ ts.head? ≠ some l ∧ ts = rest) := by
  cases ts with
  | nil => cases b <;> simp [skip, eq_comm]
  | cons t ts =>
    by_cases h : t = l
    · cases b <;> simp [skip, h]
    · cases b <;> simp [skip, h]

/-- Goes on with `p` after taking `l` if that comes next, and with `q` if not. -/
def branch (l : Lexeme) (p q : Parser β) : Parser β := fun ts =>
  match ts with
  | [] => q []
  | t :: rest => if t = l then p rest else q (t :: rest)

def fork (l : Lexeme) (p q : Parser β) : Parser β :=
  fun ts => if ts.head? = some l then p ts else q ts

@[simp] theorem skip_bind_ite {p q : Parser β} :
    (skip l >>= fun here => if here = true then p else q) ts = branch l p q ts := by
  cases ts with
  | nil => rfl
  | cons t ts =>
    change EStateM.bind _ _ _ = _
    by_cases h : t = l <;> simp [EStateM.bind, skip, branch, h]

theorem at_bind {f : Bool → Parser β} : (at_ l >>= f) ts = f (ts.head? == some l) ts := rfl

@[simp] theorem at_bind_ite {p q : Parser β} :
    (at_ l >>= fun here => if here = true then p else q) ts = fork l p q ts := by
  rw [at_bind]
  by_cases h : ts.head? = some l <;> simp [fork, h]

@[simp] theorem branch_eq_ok {p q : Parser β} {b : β} : branch l p q ts = .ok b rest ↔
    (∃ ts', ts = l :: ts' ∧ p ts' = .ok b rest) ∨ (ts.head? ≠ some l ∧ q ts = .ok b rest) := by
  cases ts with
  | nil => simp [branch]
  | cons t ts => by_cases h : t = l <;> simp [branch, h]

theorem branch_cons {p q : Parser β} : branch l p q (l :: ts) = p ts := if_pos rfl

theorem branch_of_ne {p q : Parser β} (h : ts.head? ≠ some l) : branch l p q ts = q ts := by
  cases ts with
  | nil => rfl
  | cons t ts => exact if_neg (by simpa using h)

@[simp] theorem fork_eq_ok {p q : Parser β} {b : β} : fork l p q ts = .ok b rest ↔
    (ts.head? = some l ∧ p ts = .ok b rest) ∨ (ts.head? ≠ some l ∧ q ts = .ok b rest) := by
  by_cases h : ts.head? = some l <;> simp [fork, h]

@[simp] theorem peek_bind {f : Option Lexeme → Parser β} : (peek >>= f) ts = f ts.head? ts := rfl

@[simp] theorem expect_eq_ok {u : Unit} : expect l ts = .ok u rest ↔ ts = l :: rest := by
  unfold expect
  simp only [bind_eq_ok, skip_eq_ok]
  constructor
  · rintro ⟨here, ts', ⟨rfl, rfl⟩ | ⟨rfl, -, -⟩, h⟩
    · cases h
      rfl
    · cases h
  · rintro rfl
    exact ⟨true, rest, .inl ⟨rfl, rfl⟩, rfl⟩

@[simp] theorem identifier_eq_ok {name : String} :
    identifier ts = .ok name rest ↔ ts = .identifier name :: rest := by
  unfold identifier
  split
  · simp
  · next h =>
    constructor
    · nofun
    · rintro rfl
      exact absurd rfl (h name rest)

@[simp] theorem single_eq_ok {what : Sole} {as : List α} {a : α} :
    single what as ts = .ok a rest ↔ as = [a] ∧ ts = rest := by
  unfold single
  split
  · simp
  · next h =>
    constructor
    · nofun
    · rintro ⟨rfl, -⟩
      exact absurd rfl (h a)

@[simp] theorem atEnd_eq_ok {u : Unit} : atEnd ts = .ok u rest ↔ ts = [] ∧ rest = [] := by
  cases ts <;> simp [atEnd, eq_comm]

def Nested.beginsApplication (l : Lexeme) : Bool := l == .symbol .lbracket || l == .symbol .lparen

/-- What may follow the word `not`: a fact that is asserted or denied. -/
def Nested.affirmation (inner : Nested) (holds : Bool) : Parser Fact := do
  if ← atKeyword .forallKw then
    if holds then expected "relational or property fact" else throw .negatedUniversal
  else if ← atSymbol .dollar then return (← inner.predication holds).fact
  else inner.relational holds

theorem Nested.specificFact_eq (inner : Nested) :
    inner.specificFact = skipKeyword .not >>= fun denied => inner.affirmation (!denied) := rfl

end Parser

/-! Results of blocks. -/

theorem exceptBind_eq_ok {ε α β : Type} {x : Except ε α} {f : α → Except ε β} {b : β} :
    (x >>= f) = .ok b ↔ ∃ a, x = .ok a ∧ f a = .ok b := by
  cases x <;> simp [bind, Except.bind]

theorem exceptPure_eq_ok {ε α : Type} {a b : α} : (pure a : Except ε α) = .ok b ↔ a = b := by
  simp [pure, Except.pure]

theorem exceptMap_eq_ok {ε α β : Type} {x : Except ε α} {f : α → β} {b : β} :
    (f <$> x) = .ok b ↔ ∃ a, x = .ok a ∧ b = f a := by
  cases x <;> simp [Functor.map, Except.map, eq_comm]

theorem exceptMapError_eq_ok {ε δ α : Type} {f : ε → δ} {x : Except ε α} {a : α} :
    x.mapError f = .ok a ↔ x = .ok a := by
  constructor
  · intro h
    cases x with
    | error e => cases h
    | ok b =>
      cases h
      rfl
  · rintro rfl
    rfl

/-- What a computation returns, known in part. -/
theorem exists_ok_of_map {ε α β : Type} {x : Except ε α} {f : α → β} {b : β}
    (h : x.toOption.map f = some b) : ∃ a, x = .ok a ∧ f a = b := by
  cases x with
  | error e => cases h
  | ok a => exact ⟨a, rfl, Option.some.inj h⟩

theorem exists_ok_of_length {ε α : Type} {x : Except ε (List α)} {n : Nat}
    (h : x.toOption.map List.length = some n) :
    ∃ as, x = .ok as ∧ as.length = n := exists_ok_of_map h

theorem exists_error_of_isOk {ε α : Type} {x : Except ε α} (h : x.isOk = false) :
    ∃ e, x = .error e := by
  cases x with
  | error e => exact ⟨e, rfl⟩
  | ok a => cases h

/-- A block is read when its header is read to the end and the rest can be built. -/
theorem Block.read_eq_ok {η α : Type} {b : Block} {header : Parser η}
    {build : η → Except ParseError α} {a : α} :
    b.read header build = .ok a ↔ ∃ h, header b.lexemes = .ok h [] ∧ build h = .ok a := by
  unfold Block.read
  split
  · next h => simp [h]
  · next h rest hh =>
    cases hb : build h with
    | error e => simp [hh, hb]
    | ok a' =>
      cases rest with
      | nil => simp [hh, hb]
      | cons t rest => simp [hh]

theorem Block.readLine_eq_ok {α : Type} {b : Block} {header : Parser α} {a : α} :
    b.readLine header = .ok a ↔ header b.lexemes = .ok a [] := by
  simp [readLine, read_eq_ok]

theorem Block.readSection_eq_ok {α : Type} {b : Block} {k : Keyword}
    {build : Unit → Except ParseError α} {a : α} :
    b.readSection k build = .ok a ↔
      b.lexemes = [.keyword k, .symbol .colon] ∧ build () = .ok a := by
  rw [readSection, read_eq_ok]
  constructor
  · rintro ⟨⟨⟩, hh, ha⟩
    exact ⟨by simpa using hh, ha⟩
  · rintro ⟨hh, ha⟩
    exact ⟨(), by simp [hh], ha⟩

end FactScript
