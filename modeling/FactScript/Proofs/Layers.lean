import FactScript.Parser.Cursor
import FactScript.Proofs.Locality
import FactScript.Proofs.PhraseComplete

/-!
Terms by layers: sums of products of operations with a minus or none on powers of atoms. The layers
are given by the equations of the grammar, each a parser in terms of the next. They have one
solution, because whatever stands inside a phrase is shorter than it, and its parser for sums is
`term`: climbing from operator to operator by their strengths comes to the same as descending
through the layers, on every list of lexemes, for the result, the fault and what is left.
-/
namespace FactScript

namespace Parser

def operator (s s' : Symbol) : Parser Symbol := do
  if ← skipSymbol s then return s
  expectSymbol s'
  return s'

def operand (s s' : Symbol) (term : Parser Term) : Parser (Symbol × Term) := do
  let op ← operator s s'
  return (op, ← term)

/-- A first operand and the others, as many as there are, with one of two operators before each, put
together from the left. -/
def leftAssociative (s s' : Symbol) (term : Parser Term) : Parser Term := do
  let first ← term
  let others ← many (fun l => l == .symbol s || l == .symbol s') (operand s s' term)
  return others.foldl (fun left o => .apply o.1 [left, o.2]) first

structure Layers where
  sum : Parser Term
  product : Parser Term
  unary : Parser Term
  power : Parser Term
  type : Parser Ty

namespace Layers

def inner (l : Layers) : Nested := ⟨l.sum, l.type⟩

structure Grammatical (l : Layers) : Prop where
  sum : l.sum = leftAssociative .plus .minus l.product
  product : l.product = leftAssociative .star .slash l.unary
  unary : l.unary = do
    if ← skipSymbol .minus then return .apply .minus [← l.power] else l.power
  power : l.power = do
    let base ← l.inner.atom
    if ← skipSymbol .caret then return .apply .caret [base, ← l.power] else return base
  type : l.type = l.inner.typeStep

/-! There is at most one solution. -/

structure Agree (n : ℕ) (l l' : Layers) : Prop where
  sum : Parser.Agree 1 n l.sum l'.sum
  product : Parser.Agree 1 n l.product l'.product
  unary : Parser.Agree 1 n l.unary l'.unary
  power : Parser.Agree 1 n l.power l'.power
  type : Parser.Agree 1 n l.type l'.type

end Layers

theorem operator_agree (s s' : Symbol) (n : ℕ) : Agree 1 n (operator s s') (operator s s') :=
  .skip_ite (agree_pure _) ((agree_expect _).bind fun _ => agree_pure _)

theorem operand_agree {s s' : Symbol} {n : ℕ} {term term' : Parser Term}
    (h : Agree 1 n term term') :
    Agree 1 n (operand s s' term) (operand s s' term') :=
  (operator_agree s s' n).bind fun _ =>
    (h.mono (Nat.zero_le 1) (Nat.sub_le n 1)).bind fun _ => agree_pure _

theorem leftAssociative_agree {s s' : Symbol} {n : ℕ} {term term' : Parser Term}
    (h : Agree 1 n term term') :
    Agree 1 n (leftAssociative s s' term) (leftAssociative s s' term') :=
  h.bind fun _ =>
    ((operand_agree h).weak.many.mono (Nat.le_refl 0) (Nat.sub_le n 1)).bind fun _ => agree_pure _

namespace Layers

variable {l l' : Layers} {n : ℕ}

/-- If the layers agree on fewer than `n` lexemes, they agree on `n` lexemes, since what stands
inside an atom or a type, after a minus, or after a caret is shorter. -/
theorem Agree.succ (hl : l.Grammatical) (hl' : l'.Grammatical) (h : l.Agree n l') :
    l.Agree (n + 1) l' := by
  have hinner : l.inner.Agree n l'.inner := ⟨h.sum.weak, h.type.weak⟩
  have hpower : Parser.Agree 1 (n + 1) l.power l'.power := by
    rw [hl.power, hl'.power]
    exact (Nested.atom_agree hinner).bind fun _ => (agree_skip _).bind fun _ =>
      .ite (h.power.weak.bind fun _ => agree_pure _) (agree_pure _)
  have hunary : Parser.Agree 1 (n + 1) l.unary l'.unary := by
    rw [hl.unary, hl'.unary]
    exact .skip_ite (h.power.weak.bind fun _ => agree_pure _) hpower
  have hproduct : Parser.Agree 1 (n + 1) l.product l'.product := by
    rw [hl.product, hl'.product]
    exact leftAssociative_agree hunary
  have hsum : Parser.Agree 1 (n + 1) l.sum l'.sum := by
    rw [hl.sum, hl'.sum]
    exact leftAssociative_agree hproduct
  have htype : Parser.Agree 1 (n + 1) l.type l'.type := by
    rw [hl.type, hl'.type]
    exact Nested.typeStep_agree hinner
  exact ⟨hsum, hproduct, hunary, hpower, htype⟩

theorem agree (hl : l.Grammatical) (hl' : l'.Grammatical) (n : ℕ) : l.Agree n l' := by
  induction n with
  | zero => exact ⟨agree_zero, agree_zero, agree_zero, agree_zero, agree_zero⟩
  | succ n ih => exact ih.succ hl hl'

theorem unique (hl : l.Grammatical) (hl' : l'.Grammatical) : l = l' := by
  have heq {α : Type} {p p' : Parser α} (h : ∀ n, Parser.Agree 1 n p p') : p = p' :=
    funext fun ts => (h (ts.length + 1) (Nat.lt_succ_self _)).1
  have h := agree hl hl'
  cases l
  cases l'
  simp only [mk.injEq]
  exact ⟨heq fun n => (h n).sum, heq fun n => (h n).product, heq fun n => (h n).unary,
    heq fun n => (h n).power, heq fun n => (h n).type⟩

end Layers

/-! Climbing without bounds. -/

section Climbing

open Infix

/-- An operation in which every operator binds at least as strongly as `s`. -/
def level (atom : Parser Term) (s : ℕ) : Parser Term := fun ts => climb atom ts.length s ts

def continued (atom : Parser Term) (s : ℕ) (left : Term) : Parser Term := fun ts =>
  extend atom ts.length s left ts

variable {atom : Parser Term} {s s' : ℕ} {t : Term} {ts : List Lexeme}

theorem Sound.agree_atom (ha : Sound .atom atom) (n : ℕ) : Agree 1 n atom atom := by
  refine agree_self fun ts t rest h => ?_
  obtain ⟨u, rfl, hu⟩ := ha h
  have hlen : 0 < u.length := List.length_pos_iff.mpr (hu.ne_nil rfl)
  rw [List.length_append]
  omega

theorem climb_agree_level (ha : Sound .atom atom) (b s : ℕ) :
    Agree 1 (b + 1) (climb atom b s) (level atom s) := fun ts hts =>
  (climb_extend_agree (ha.agree_atom (ts.length + 1)) s hts (Nat.le_refl _)).1 (Nat.lt_succ_self _)

theorem extend_agree_continued (ha : Sound .atom atom) (b s : ℕ) (t : Term) :
    Agree 0 (b + 1) (extend atom b s t) (continued atom s t) := fun ts hts =>
  (climb_extend_agree (ha.agree_atom (ts.length + 1)) s hts (Nat.le_refl _)).2 t
    (Nat.lt_succ_self _)

theorem level_agree (ha : Sound .atom atom) (n s : ℕ) : Agree 1 n (level atom s) (level atom s) :=
  agree_self fun ts _ _ h => (climb_agree_level ha ts.length s (Nat.lt_succ_self _)).2 h

/-- What is left of a list after an operation: less, and no operator that would still belong
to it. -/
theorem level_eq_ok (ha : Sound .atom atom) (hs : s ≤ 90) {rest : List Lexeme}
    (h : level atom s ts = .ok t rest) : rest.length < ts.length ∧ Below s rest := by
  have hlen := (climb_agree_level ha ts.length s (Nat.lt_succ_self _)).2 h
  obtain ⟨u, -, -, hbelow⟩ := (climb_extend_sound ha ts.length).1 hs (Nat.le_refl _) h
  exact ⟨hlen, hbelow⟩

theorem level_eq (ha : Sound .atom atom) (s : ℕ) :
    level atom s = lead (level atom (negation + 1)) atom s >>= continued atom s := by
  funext ts
  have hbound : level atom s ts = climb atom (ts.length + 1) s ts :=
    ((climb_agree_level ha (ts.length + 1) s) (by omega)).1.symm
  have hlead := lead_agree (ha.agree_atom _) (climb_agree_level ha ts.length (negation + 1)).weak s
  rw [hbound, climb_succ]
  exact (hlead.bind (extend_agree_continued ha ts.length s) (by omega)).1

theorem continued_of_below (h : Below s ts) : continued atom s t ts = .ok t ts := extend_stop h

theorem continued_of_le (ha : Sound .atom atom) {x : Symbol} {op : Infix}
    (hop : ofSymbol? x = some op) (hs : s ≤ op.left) :
    continued atom s t (.symbol x :: ts) =
      (level atom op.right >>= fun right => continued atom s (.apply x [t, right])) ts := by
  have hnext : next? (.symbol x :: ts) = some op := next?_eq_some.mpr ⟨x, ts, rfl, hop⟩
  have hx : op.symbol = x := (ofSymbol?_cases hop).1
  have hexpect : expectSymbol op.symbol (.symbol x :: ts) = .ok () ts := by
    rw [hx]
    exact expect_eq_ok.mpr rfl
  have hright := (climb_agree_level ha ts.length op.right).weak
  rw [continued, List.length_cons, extend_of_some hnext, if_neg (Nat.not_lt.mpr hs),
    bind_of_ok hexpect, hx]
  exact (hright.bind (fun _ => extend_agree_continued ha ts.length s _) (Nat.lt_succ_self _)).1

theorem right_le {x : Symbol} {op : Infix} (hop : ofSymbol? x = some op) : op.right ≤ 90 := by
  have := ofSymbol?_cases hop
  omega

theorem below_or_operator (s : ℕ) (ts : List Lexeme) :
    Below s ts ∨ ∃ x ts' op, ts = .symbol x :: ts' ∧ ofSymbol? x = some op ∧ s ≤ op.left := by
  by_cases h : Below s ts
  · exact .inl h
  · simp only [Below, not_forall, Nat.not_lt] at h
    obtain ⟨op, hop, hs⟩ := h
    obtain ⟨x, ts', rfl, hx⟩ := next?_eq_some.mp hop
    exact .inr ⟨x, ts', op, rfl, hx, hs⟩

/-- Going on with strong operators first and then with all of them is going on with all of them. -/
theorem continued_bind (ha : Sound .atom atom) (hss : s ≤ s') (t : Term) :
    (continued atom s' t >>= continued atom s) = continued atom s t := by
  funext ts
  induction hlen : ts.length using Nat.strongRecOn generalizing ts t with
  | ind len ih =>
    rcases below_or_operator s' ts with hbelow | ⟨x, ts', op, rfl, hop, hs'⟩
    · exact bind_of_ok (continued_of_below hbelow)
    · -- An operator strong enough for `s'` is so for `s`, and what follows its operand is shorter.
      rw [bind_of_eq (continued_of_le ha hop hs'), continued_of_le ha hop (Nat.le_trans hss hs'),
        bind_assoc]
      refine bind_congr_of_ok fun right rest hright => ?_
      have hrest := (level_eq_ok ha (right_le hop) hright).1
      exact ih rest.length (by rw [← hlen, List.length_cons]; omega) _ rest rfl

theorem continued_congr (ha : Sound .atom atom)
    (h : ∀ x op, ofSymbol? x = some op → (s ≤ op.left ↔ s' ≤ op.left)) (t : Term) :
    continued atom s t = continued atom s' t := by
  funext ts
  induction hlen : ts.length using Nat.strongRecOn generalizing ts t with
  | ind len ih =>
    rcases below_or_operator s ts with hbelow | ⟨x, ts', op, rfl, hop, hs⟩
    · have hbelow' : Below s' ts := by
        intro op hop
        obtain ⟨x, ts', -, hx⟩ := next?_eq_some.mp hop
        have hlt := hbelow op hop
        have hiff := h x op hx
        omega
      rw [continued_of_below hbelow, continued_of_below hbelow']
    · rw [continued_of_le ha hop hs, continued_of_le ha hop ((h x op hop).mp hs)]
      refine bind_congr_of_ok fun right rest hright => ?_
      have hrest := (level_eq_ok ha (right_le hop) hright).1
      exact ih rest.length (by rw [← hlen, List.length_cons]; omega) _ rest rfl

/-! The equations of the layers. -/

theorem lead_of_lt {operand : Parser Term} (h : negation < s) : lead operand atom s = atom :=
  if_neg (Nat.not_le.mpr h)

theorem lead_of_le {operand : Parser Term} (h : s ≤ negation) : lead operand atom s = (do
    if ← skipSymbol .minus then return .apply .minus [← operand] else atom) := if_pos h

theorem continued_caret (ha : Sound .atom atom) (hs : 70 < s) (hle : s ≤ 90) :
    continued atom s = continued atom 90 := by
  refine funext (continued_congr ha fun x op hop => ?_)
  have := ofSymbol?_cases hop
  omega

theorem level_caret (ha : Sound .atom atom) (hs : negation < s) (hle : s ≤ 90) :
    level atom s = atom >>= continued atom 90 := by
  rw [level_eq ha s, lead_of_lt hs, continued_caret ha (Nat.lt_trans (by decide) hs) hle]

theorem level_power (ha : Sound .atom atom) : level atom (negation + 1) = (do
    let base ← atom
    if ← skipSymbol .caret then
      return .apply .caret [base, ← level atom (negation + 1)]
    else return base) := by
  have hright : level atom 90 = level atom (negation + 1) := by
    rw [level_caret ha (by decide) (by decide), level_caret ha (by decide) (by decide)]
  nth_rewrite 1 [level_caret ha (by decide) (by decide)]
  refine congrArg (atom >>= ·) (funext fun base => funext fun ts => ?_)
  rw [skip_bind_ite]
  by_cases hhead : ts.head? = some (.symbol .caret)
  · obtain ⟨ts', rfl⟩ := List.head?_eq_some_iff.mp hhead
    rw [branch_cons, ← hright,
      continued_of_le ha (show ofSymbol? .caret = some ⟨.caret, 90, 90⟩ from rfl) (Nat.le_refl _)]
    exact bind_congr_of_ok fun right rest hok =>
      continued_of_below (level_eq_ok ha (Nat.le_refl _) hok).2
  · have hbelow : Below 90 ts := by
      intro op hop
      obtain ⟨x, ts', rfl, hx⟩ := next?_eq_some.mp hop
      obtain ⟨-, ⟨-, hl, -⟩ | ⟨-, hl, -⟩ | ⟨rfl, -⟩⟩ := ofSymbol?_cases hx
      · omega
      · omega
      · exact absurd rfl hhead
    rw [branch_of_ne hhead, continued_of_below hbelow]
    rfl

/-- A minus is followed by a power, after which nothing that binds more than a product is left. -/
theorem level_unary (ha : Sound .atom atom) : level atom 71 = (do
    if ← skipSymbol .minus then return .apply .minus [← level atom (negation + 1)]
    else level atom (negation + 1)) := by
  rw [level_eq ha 71, lead_of_le (by decide), bind_assoc,
    continued_caret ha (by decide) (by decide)]
  refine congrArg (skipSymbol .minus >>= ·) (funext fun here => funext fun ts => ?_)
  cases here with
  | false =>
    rw [level_caret ha (by decide) (by decide)]
    rfl
  | true =>
    simp only [if_true, bind_assoc, pure_bind]
    refine bind_congr_of_ok fun operand rest hok => continued_of_below ?_
    have hbelow := (level_eq_ok ha (by decide) hok).2
    exact fun op hop => Nat.lt_of_lt_of_le (hbelow op hop) (by decide)

theorem level_split (ha : Sound .atom atom) (hss : s ≤ s') (hs' : s' ≤ negation) :
    level atom s = level atom s' >>= continued atom s := by
  rw [level_eq ha s, level_eq ha s', lead_of_le hs', lead_of_le (Nat.le_trans hss hs')]
  rw [bind_assoc _ (continued atom s'), funext (continued_bind ha hss)]

/-- Two operators of the strength between that of a layer and that of the next, which their right
operands belong to. -/
structure Between (s s' : ℕ) (x x' : Symbol) : Prop where
  left : ∃ op, ofSymbol? x = some op ∧ s ≤ op.left ∧ op.right = s'
  right : ∃ op, ofSymbol? x' = some op ∧ s ≤ op.left ∧ op.right = s'
  below : ∀ y op, ofSymbol? y = some op → op.left < s' → y = x ∨ y = x' ∨ op.left < s

theorem operator_cons {x x' y : Symbol} (hy : y = x ∨ y = x') :
    operator x x' (.symbol y :: ts) = .ok y ts := by
  rw [operator, skip_bind_ite]
  by_cases hyx : y = x
  · rw [hyx, branch_cons]
    rfl
  · obtain rfl : y = x' := hy.resolve_left hyx
    have hexpect : expectSymbol y (.symbol y :: ts) = .ok () ts := expect_eq_ok.mpr rfl
    rw [branch_of_ne (by simpa using hyx), bind_of_ok hexpect]
    rfl

/-- After an operand of the stronger layer, climbing goes round a loop. -/
theorem continued_eq_many (ha : Sound .atom atom) {x x' : Symbol} (hx : Between s s' x x')
    (hs' : s' ≤ 90) (hbelow : Below s' ts) (t : Term) :
    continued atom s t ts =
      (many (fun l => l == .symbol x || l == .symbol x') (operand x x' (level atom s')) >>=
        fun others => pure (others.foldl (fun left o => .apply o.1 [left, o.2]) t)) ts := by
  have hitem (n : ℕ) : Agree 1 n (operand x x' (level atom s')) (operand x x' (level atom s')) :=
    operand_agree (level_agree ha n s')
  induction hlen : ts.length using Nat.strongRecOn generalizing ts t with
  | ind len ih =>
    rw [many_eq hitem, bind_assoc, peek_bind]
    by_cases hhead : ∃ y ts', ts = .symbol y :: ts' ∧ (y = x ∨ y = x')
    · obtain ⟨y, ts', rfl, hy⟩ := hhead
      obtain ⟨op, hop, hs, rfl⟩ : ∃ op, ofSymbol? y = some op ∧ s ≤ op.left ∧ op.right = s' := by
        rcases hy with rfl | rfl
        · exact hx.left
        · exact hx.right
      have hbegins : (Lexeme.symbol y == .symbol x || Lexeme.symbol y == .symbol x') = true := by
        simpa using hy
      rw [continued_of_le ha hop hs, List.head?_cons, Option.any_some, if_pos hbegins]
      simp only [operand, bind_assoc, pure_bind]
      rw [bind_of_ok (operator_cons hy)]
      refine bind_congr_of_ok fun right rest hright => ?_
      obtain ⟨hlt, hrest⟩ := level_eq_ok ha hs' hright
      exact ih rest.length (by rw [← hlen, List.length_cons]; omega) hrest _ rfl
    · -- The next operator is of neither layer, so both the climb and the loop end here.
      have hstop : Below s ts := by
        intro op hop
        obtain ⟨y, ts', rfl, hy⟩ := next?_eq_some.mp hop
        rcases hx.below y op hy (hbelow op hop) with hyx | hyx | hlt
        · exact absurd ⟨y, ts', rfl, .inl hyx⟩ hhead
        · exact absurd ⟨y, ts', rfl, .inr hyx⟩ hhead
        · exact hlt
      have hbegins : ¬(ts.head?.any fun l => l == .symbol x || l == .symbol x') = true := by
        rw [Option.any_eq_true]
        rintro ⟨l, hl, hor⟩
        obtain ⟨ts', rfl⟩ := List.head?_eq_some_iff.mp hl
        simp only [Bool.or_eq_true, beq_iff_eq] at hor
        rcases hor with rfl | rfl
        · exact hhead ⟨x, ts', rfl, .inl rfl⟩
        · exact hhead ⟨x', ts', rfl, .inr rfl⟩
      rw [continued_of_below hstop, if_neg hbegins]
      rfl

/-- A layer with two operators of one strength is a row of operands of the next layer. -/
theorem level_leftAssociative (ha : Sound .atom atom) {x x' : Symbol} (hx : Between s s' x x')
    (hss : s ≤ s') (hs' : s' ≤ negation) : level atom s = leftAssociative x x' (level atom s') := by
  rw [level_split ha hss hs']
  have hle : s' ≤ 90 := Nat.le_trans hs' (by decide)
  exact funext fun ts => bind_congr_of_ok fun first rest hfirst =>
    continued_eq_many ha hx hle (level_eq_ok ha hle hfirst).2 first

end Climbing

def layers : Layers :=
  ⟨term, level full.atom 61, level full.atom 71, level full.atom (Infix.negation + 1), type⟩

theorem layers_grammatical : layers.Grammatical := by
  have ha : Sound .atom full.atom := Nested.atom_sound full_sound
  have hsum : Between 0 61 .plus .minus := by
    refine ⟨⟨_, rfl, by decide, rfl⟩, ⟨_, rfl, by decide, rfl⟩, fun y op hop hlt => ?_⟩
    obtain ⟨-, ⟨hy, -⟩ | ⟨-, hl, -⟩ | ⟨-, hl, -⟩⟩ := Infix.ofSymbol?_cases hop
    · exact or_assoc.mp (.inl hy)
    · omega
    · omega
  have hproduct : Between 61 71 .star .slash := by
    refine ⟨⟨_, rfl, by decide, rfl⟩, ⟨_, rfl, by decide, rfl⟩, fun y op hop hlt => ?_⟩
    obtain ⟨-, ⟨-, hl, -⟩ | ⟨hy, -⟩ | ⟨-, hl, -⟩⟩ := Infix.ofSymbol?_cases hop
    · omega
    · exact or_assoc.mp (.inl hy)
    · omega
  exact {
    sum := term_eq.trans (level_leftAssociative ha hsum (by decide) (by decide))
    product := level_leftAssociative ha hproduct (by decide) (by decide)
    unary := level_unary ha
    power := level_power ha
    type := type_eq }

/-- The grammar of layers has one parser, and from every place in a header `term` does what
it does. -/
theorem term_layered : ∃ l : Layers, (∀ l' : Layers, l'.Grammatical ↔ l' = l) ∧
    ∀ c : Cursor, c.run term .ok = c.run l.sum .ok := by
  refine ⟨layers, fun l' => ⟨fun h => Layers.unique h layers_grammatical, fun h => ?_⟩,
    fun _ => rfl⟩
  rw [h]
  exact layers_grammatical

end Parser

end FactScript
