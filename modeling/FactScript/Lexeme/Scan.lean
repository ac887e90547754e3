import FactScript.Lexeme.Alphabet

/-!
Taking one lexeme off the front of a text. Each class of lexeme is taken as long as possible, and
the symbols come before the other classes.
-/
namespace FactScript

/-- The longest symbol that the text begins with, and the text after it. -/
def Symbol.take? (cs : List Char) : Option (Symbol × List Char) :=
  match ofChars? (cs.take 2) with
  | some s => some (s, cs.drop 2)
  | none => (ofChars? (cs.take 1)).map (·, cs.drop 1)

def Lexeme.take? [Alphabet] (cs : List Char) : Option (Lexeme × List Char) :=
  match Symbol.take? cs, cs with
  | some (s, rest), _ => some (symbol s, rest)
  | none, [] => none
  | none, c :: _ =>
    if c.isDigit then
      some (number (String.ofList (cs.takeWhile Char.isDigit)), cs.dropWhile Char.isDigit)
    else if Text.isIdentifierStart c then
      some (ofWord (String.ofList (cs.takeWhile Text.isIdentifierContinue)),
        cs.dropWhile Text.isIdentifierContinue)
    else none

theorem Symbol.take?_length {cs rest : List Char} {s : Symbol} (h : take? cs = some (s, rest)) :
    rest.length < cs.length := by
  cases cs with
  | nil => exact absurd (h.symm.trans (show take? [] = none by decide)) (by simp)
  | cons c cs =>
    unfold take? at h
    split at h
    · simp only [Option.some.injEq, Prod.mk.injEq] at h
      rw [← h.2, List.length_drop, List.length_cons]
      omega
    · simp only [Option.map_eq_some_iff, Prod.mk.injEq] at h
      obtain ⟨_, _, _, rfl⟩ := h
      simp

theorem length_dropWhile_cons_lt {p : Char → Bool} {c : Char} (h : p c = true) (cs : List Char) :
    ((c :: cs).dropWhile p).length < (c :: cs).length := by
  have := (List.dropWhile_suffix p (l := cs)).length_le
  simp [h]; omega

theorem Lexeme.take?_length [Alphabet] {cs rest : List Char} {l : Lexeme}
    (h : take? cs = some (l, rest)) :
    rest.length < cs.length := by
  unfold take? at h
  split at h
  · next s r hs =>
    simp only [Option.some.injEq, Prod.mk.injEq] at h
    exact h.2 ▸ Symbol.take?_length hs
  · exact absurd h (by simp)
  · next c cs _ =>
    split at h
    · next hd =>
      simp only [Option.some.injEq, Prod.mk.injEq] at h
      exact h.2 ▸ length_dropWhile_cons_lt hd cs
    · split at h
      · next hi =>
        simp only [Option.some.injEq, Prod.mk.injEq] at h
        exact h.2 ▸ length_dropWhile_cons_lt (Text.isIdentifierContinue_of_start hi) cs
      · exact absurd h (by simp)

end FactScript
