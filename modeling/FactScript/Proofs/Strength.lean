import FactScript.Proofs.Lookahead
import FactScript.Proofs.Success
import Mathlib.Tactic.SplitIfs

/-!
The layers of operations, numbered by binding strength: the operations that bind at least as
strongly as a given number. Each operator has a number for the operation that it makes and one for
each operand, and that determines which operator can come next after an operand of a given strength.
-/
namespace FactScript

namespace Infix

/-- How strong an operation has to be to stand left of the operator. -/
def leftStrength (op : Infix) : ℕ := if op.left = op.right then op.left + 1 else op.left

theorem ofSymbol?_cases {s : Symbol} {op : Infix} (h : ofSymbol? s = some op) :
    op.symbol = s ∧ ((s = .plus ∨ s = .minus) ∧ op.left = 60 ∧ op.right = 61 ∨
      (s = .star ∨ s = .slash) ∧ op.left = 70 ∧ op.right = 71 ∨
      s = .caret ∧ op.left = 90 ∧ op.right = 90) := by
  unfold ofSymbol? at h
  split at h <;> simp_all <;> subst h <;> simp

def next? (ts : List Lexeme) : Option Infix := ts.head?.bind ofLexeme?

theorem next?_eq_some {ts : List Lexeme} {op : Infix} :
    next? ts = some op ↔ ∃ s ts', ts = .symbol s :: ts' ∧ ofSymbol? s = some op := by
  cases ts with
  | nil => simp [next?]
  | cons t ts => cases t <;> simp [next?, ofLexeme?]

/-- An operator that comes next takes an operation of strength `m` as its left operand. -/
def Admits (m : ℕ) (ts : List Lexeme) : Prop := ∀ op, next? ts = some op → op.leftStrength ≤ m

/-- An operator that comes next binds its left operand less than `n`. -/
def Below (n : ℕ) (ts : List Lexeme) : Prop := ∀ op, next? ts = some op → op.left < n

theorem Admits.mono {m n : ℕ} {ts : List Lexeme} (h : Admits m ts) (hmn : m ≤ n) : Admits n ts :=
  fun op hop => Nat.le_trans (h op hop) hmn

theorem strengths {ts : List Lexeme} {op : Infix} (h : next? ts = some op) :
    op.left = 60 ∧ op.right = 61 ∧ op.leftStrength = 60 ∨
    op.left = 70 ∧ op.right = 71 ∧ op.leftStrength = 70 ∨
    op.left = 90 ∧ op.right = 90 ∧ op.leftStrength = 91 := by
  obtain ⟨s, ts', -, hs⟩ := next?_eq_some.mp h
  obtain ⟨-, ⟨-, hl, hr⟩ | ⟨-, hl, hr⟩ | ⟨-, hl, hr⟩⟩ := ofSymbol?_cases hs <;>
    simp [leftStrength, hl, hr]

theorem admits_atom (ts : List Lexeme) : Admits 91 ts := by
  intro op hop
  have := strengths hop
  omega

end Infix

/-- An operation that binds at least as strongly as `m`. -/
def ReadsAt (m : ℕ) (u : List Lexeme) (t : Term) : Prop :=
  if m ≤ 60 then Reads .sum u t
  else if m ≤ 70 then Reads .product u t
  else if m ≤ 80 then Reads .unary u t
  else if m ≤ 90 then Reads .power u t
  else Reads .atom u t

namespace ReadsAt

variable {m n : ℕ} {u v : List Lexeme} {t t' : Term}

@[simp] theorem sum_iff : ReadsAt 0 u t ↔ Reads .sum u t := by simp [ReadsAt]

@[simp] theorem atom_iff : ReadsAt 91 u t ↔ Reads .atom u t := by simp [ReadsAt]

/-- A stronger operation can stand where a weaker one can. -/
theorem mono (hnm : n ≤ m) (h : ReadsAt m u t) : ReadsAt n u t := by
  have h₁ : Reads .atom u t → Reads .power u t := .base
  have h₂ : Reads .power u t → Reads .unary u t := .unsigned
  have h₃ : Reads .unary u t → Reads .product u t := .factor
  have h₄ : Reads .product u t → Reads .sum u t := .summand
  unfold ReadsAt at h ⊢
  grind

theorem negation (h : ReadsAt (Infix.negation + 1) u t) :
    ReadsAt Infix.negation (.symbol .minus :: u) (.apply .minus [t]) :=
  Reads.negation h

/-- The operation that an operator makes of operands that are strong enough. -/
theorem operation {s : Symbol} {op : Infix} (hop : Infix.ofSymbol? s = some op)
    (h : ReadsAt op.leftStrength u t) (h' : ReadsAt op.right v t') :
    ReadsAt op.left (u ++ .symbol s :: v) (.apply s [t, t']) := by
  obtain ⟨-, ⟨hs, hl, hr⟩ | ⟨hs, hl, hr⟩ | ⟨rfl, hl, hr⟩⟩ := Infix.ofSymbol?_cases hop
  all_goals rw [Infix.leftStrength, hl, hr] at h; rw [hr] at h'; rw [hl]
  · exact Reads.addition s hs h h'
  · exact Reads.multiplication s hs h h'
  · exact Reads.exponentiation h h'

/-- How an operation of strength `m` is put together from stronger ones. -/
inductive Composed (m : ℕ) : List Lexeme → Term → Prop
  | atom {u : List Lexeme} {t : Term} : Reads .atom u t → Composed m u t
  | negation {u : List Lexeme} {t : Term} : m ≤ Infix.negation → ReadsAt (Infix.negation + 1) u t →
      Composed m (.symbol .minus :: u) (.apply .minus [t])
  | operation {u v : List Lexeme} {t t' : Term} {s : Symbol} {op : Infix} :
      Infix.ofSymbol? s = some op → m ≤ op.left →
      ReadsAt op.leftStrength u t → ReadsAt op.right v t' →
      Composed m (u ++ .symbol s :: v) (.apply s [t, t'])

theorem composed_power (hm : m ≤ 90) (h : Reads .power u t) : Composed m u t := by
  cases h with
  | base h => exact .atom h
  | exponentiation h h' =>
    exact .operation (show Infix.ofSymbol? .caret = some ⟨.caret, 90, 90⟩ from rfl) hm h h'

theorem composed_unary (hm : m ≤ 80) (h : Reads .unary u t) : Composed m u t := by
  cases h with
  | unsigned h => exact composed_power (by omega) h
  | negation h => exact .negation hm h

theorem composed_product (hm : m ≤ 70) (h : Reads .product u t) : Composed m u t := by
  cases h with
  | factor h => exact composed_unary (by omega) h
  | multiplication op hop h h' =>
    rcases hop with rfl | rfl
    · exact .operation (show Infix.ofSymbol? .star = some ⟨.star, 70, 71⟩ from rfl) hm h h'
    · exact .operation (show Infix.ofSymbol? .slash = some ⟨.slash, 70, 71⟩ from rfl) hm h h'

theorem composed_sum (hm : m ≤ 60) (h : Reads .sum u t) : Composed m u t := by
  cases h with
  | summand h => exact composed_product (by omega) h
  | addition op hop h h' =>
    rcases hop with rfl | rfl
    · exact .operation (show Infix.ofSymbol? .plus = some ⟨.plus, 60, 61⟩ from rfl) hm h h'
    · exact .operation (show Infix.ofSymbol? .minus = some ⟨.minus, 60, 61⟩ from rfl) hm h h'

theorem composed (h : ReadsAt m u t) : Composed m u t := by
  unfold ReadsAt at h
  split_ifs at h with h₁ h₂ h₃ h₄
  · exact composed_sum h₁ h
  · exact composed_product h₂ h
  · exact composed_unary h₃ h
  · exact composed_power h₄ h
  · exact .atom h

end ReadsAt

namespace Parser

open Infix

variable {atom : Parser Term} {m n : ℕ} {t : Term} {ts : List Lexeme}

theorem extend_of_none (h : next? ts = none) : extend atom (n + 1) m t ts = .ok t ts := by
  have hpeek : ts.head?.bind ofLexeme? = none := h
  simp only [extend, peek_bind, hpeek]
  rfl

theorem extend_of_some {op : Infix} (h : next? ts = some op) : extend atom (n + 1) m t ts =
    (if op.left < m then pure t
      else do
        expectSymbol op.symbol
        let right ← climb atom n op.right
        extend atom n m (.apply op.symbol [t, right]) : Parser Term) ts := by
  have hpeek : ts.head?.bind ofLexeme? = some op := h
  simp only [extend, peek_bind, hpeek]

end Parser

end FactScript
