import FactScript.Proofs.Grammar
import FactScript.Proofs.StoreLog

/-!
The keys of a fact. A fact comes down to relational facts and properties, its leaves: a universal
fact to those of its conclusions, however deep they are nested, and never to those of its premises.
The keys are what the leaves are about, each once and in order of first occurrence. What a property
is about is told by the head name of its call, in which arguments have no part.
-/
namespace FactScript

theorem filter_eraseDups (keys : List String) (p : String → Bool) :
    keys.eraseDups.filter p = (keys.filter p).eraseDups := by
  induction keys using List.reverseRecOn with
  | nil => rfl
  | append_singleton keys key ih =>
    rw [List.eraseDups_append, List.filter_append, List.filter_append, List.eraseDups_append, ih]
    congr 1
    by_cases hp : p key = true <;> by_cases hkey : key ∈ keys <;>
      simp [List.removeAll, List.eraseDups_cons, hp, hkey]

theorem eraseDups_append_eq (keys keys' : List String) :
    (keys ++ keys').eraseDups = keys.eraseDups ++
      keys'.eraseDups.filter (!keys.eraseDups.contains ·) := by
  have hold : ∀ key, keys.eraseDups.contains key = keys.contains key := by
    intro key
    rw [Bool.eq_iff_iff, List.contains_iff_mem, List.contains_iff_mem, List.mem_eraseDups]
  simp only [hold]
  rw [List.eraseDups_append, filter_eraseDups]
  rfl

namespace Term

theorem headName_chain (parts : List Term) :
    (chain parts).headName = ".".intercalate (parts.map headName) := by
  have hparts : headNames parts = parts.map headName := by
    induction parts with
    | nil => rfl
    | cons t parts ih => rw [headNames, ih, List.map_cons]
  rw [headName, hparts]

theorem headName_applied (t : Term) (l : List (List TypeArg × List Term)) :
    (t.applied l).headName = t.headName := by
  induction l generalizing t with
  | nil => rfl
  | cons a l ih => exact ih (.call ⟨t, a.1, a.2⟩)

end Term

namespace Fact

mutual

/-- The relational facts and properties that a fact comes down to, from left to right. -/
def leaves : Fact → List Fact
  | relational holds operator operands => [relational holds operator operands]
  | property holds call => [property holds call]
  | universal _ _ _ conclusions => leavesOfAll conclusions

def leavesOfAll : List Fact → List Fact
  | [] => []
  | f :: fs => leaves f ++ leavesOfAll fs

end

theorem leavesOfAll_eq_flatMap (fs : List Fact) : leavesOfAll fs = fs.flatMap leaves := by
  induction fs with
  | nil => rfl
  | cons f fs ih => rw [leavesOfAll, ih, List.flatMap_cons]

theorem leaves_universal (generics : List GenericParam) (params : List Param)
    (premises conclusions : List Fact) :
    (universal generics params premises conclusions).leaves = conclusions.flatMap leaves := by
  rw [leaves, leavesOfAll_eq_flatMap]

theorem isSpecific_of_mem_leavesOfAll {fs : List Fact}
    (h : ∀ f ∈ fs, ∀ leaf ∈ f.leaves, leaf.isSpecific = true) :
    ∀ leaf ∈ leavesOfAll fs, leaf.isSpecific = true := by
  intro leaf hleaf
  rw [leavesOfAll_eq_flatMap, List.mem_flatMap] at hleaf
  obtain ⟨f, hf, hleaf⟩ := hleaf
  exact h f hf leaf hleaf

theorem isSpecific_of_mem_leaves : ∀ f : Fact, ∀ leaf ∈ f.leaves, leaf.isSpecific = true
  | relational .. => List.forall_mem_singleton.mpr rfl
  | property .. => List.forall_mem_singleton.mpr rfl
  | universal _ _ _ _ => isSpecific_of_mem_leavesOfAll fun f _ => isSpecific_of_mem_leaves f

/-- What a leaf is about: the spelling of its relation, or the head name of its call. -/
def subject? : Fact → Option String
  | relational _ operator _ => some operator.text
  | property _ call => some call.headName
  | universal .. => none

def subjects (f : Fact) : List String := f.leaves.filterMap subject?

theorem keysOfAll_eq_eraseDups {fs : List Fact} (h : ∀ f ∈ fs, f.keys = f.subjects.eraseDups) :
    keysOfAll fs = ((leavesOfAll fs).filterMap subject?).eraseDups := by
  induction fs with
  | nil => rfl
  | cons f fs ih =>
    obtain ⟨hf, hfs⟩ := List.forall_mem_cons.mp h
    rw [keysOfAll, leavesOfAll, List.filterMap_append, eraseDups_append_eq, ih hfs, hf, subjects]

/-- A universal fact is filed as its conclusions are, one after the other. -/
theorem keys_eq_eraseDups : ∀ f : Fact, f.keys = f.subjects.eraseDups
  | relational .. => rfl
  | property .. => rfl
  | universal _ _ _ _ => keysOfAll_eq_eraseDups fun f _ => keys_eq_eraseDups f

theorem mem_keys_iff {f : Fact} {key : String} :
    key ∈ f.keys ↔ ∃ leaf ∈ f.leaves, leaf.subject? = some key := by
  rw [keys_eq_eraseDups, List.mem_eraseDups, subjects, List.mem_filterMap]

/-- Keys stand in the order in which they first occurred, so none is repeated. -/
theorem nodup_keys (f : Fact) : f.keys.Nodup := by
  rw [keys_eq_eraseDups]
  refine (Store.pairwise_idxOf_eraseDups f.subjects).imp fun {key key'} hlt heq => ?_
  rw [heq] at hlt
  exact Nat.lt_irrefl _ hlt

mutual

/-- Goes through the leaves of a fact with a list of keys, and adds to it what is not yet there. -/
def collect (keys : List String) : Fact → List String
  | relational _ operator _ => if operator.text ∈ keys then keys else keys ++ [operator.text]
  | property _ call => if call.headName ∈ keys then keys else keys ++ [call.headName]
  | universal _ _ _ conclusions => collectAll keys conclusions

def collectAll (keys : List String) : List Fact → List String
  | [] => keys
  | f :: fs => collectAll (collect keys f) fs

end

theorem filter_keysOfAll_cons (keys : List String) (f : Fact) (fs : List Fact) :
    (keysOfAll (f :: fs)).filter (· ∉ keys) = f.keys.filter (· ∉ keys) ++
      (keysOfAll fs).filter (· ∉ keys ++ f.keys.filter (· ∉ keys)) := by
  rw [keysOfAll, List.filter_append, List.filter_filter]
  congr 1
  refine List.filter_congr fun key _ => ?_
  by_cases hkey : key ∈ keys <;> simp [hkey]

theorem collectAll_eq {fs : List Fact}
    (h : ∀ f ∈ fs, ∀ keys, collect keys f = keys ++ f.keys.filter (· ∉ keys)) (keys : List String) :
    collectAll keys fs = keys ++ (keysOfAll fs).filter (· ∉ keys) := by
  induction fs generalizing keys with
  | nil => simp [collectAll, keysOfAll]
  | cons f fs ih =>
    obtain ⟨hf, hfs⟩ := List.forall_mem_cons.mp h
    rw [collectAll, ih hfs, hf, filter_keysOfAll_cons, List.append_assoc]

theorem collect_eq :
    ∀ (f : Fact) (keys : List String), collect keys f = keys ++ f.keys.filter (· ∉ keys)
  | relational _ operator _, keys => by
    by_cases h : operator.text ∈ keys <;> simp [collect, Fact.keys, h]
  | property _ call, keys => by
    by_cases h : call.headName ∈ keys <;> simp [collect, Fact.keys, h]
  | universal _ _ _ _, keys => collectAll_eq (fun f _ => collect_eq f) keys

/-- The keys can be collected in one list that is handed from leaf to leaf. -/
theorem keys_eq_collect (f : Fact) : f.keys = collect [] f := by
  rw [collect_eq, List.nil_append]
  simp

/-- A fact is filed under what its leaves are about, each key once and in order of first occurrence;
the leaves of a universal fact are those of its conclusions. A property is about the head of its
call, whatever that is applied to and however often, and a chain about the heads of its segments. -/
theorem keys_exact (f : Fact) :
    f.keys = (f.leaves.filterMap subject?).eraseDups ∧ f.keys.Nodup ∧
      (∀ key, key ∈ f.keys ↔ ∃ leaf ∈ f.leaves, leaf.subject? = some key) ∧
      (∀ leaf ∈ f.leaves, leaf.isSpecific = true) ∧
      (∀ generics params premises conclusions,
        (universal generics params premises conclusions).leaves = conclusions.flatMap leaves) ∧
      (∀ name, (Term.atom name).headName = name) ∧
      (∀ (t : Term) l typeArgs args, (⟨t.applied l, typeArgs, args⟩ : Call).headName = t.headName) ∧
      ∀ parts, (Term.chain parts).headName = ".".intercalate (parts.map Term.headName) :=
  ⟨keys_eq_eraseDups f, nodup_keys f, fun _ => mem_keys_iff, isSpecific_of_mem_leaves f,
    leaves_universal, fun _ => rfl, fun t l _ _ => t.headName_applied l, Term.headName_chain⟩

/-- The premise `x < y` leaves no key, and of the two facts `a.b(x)(y)` and `a.b[T]` one is left. -/
example :
    let call (typeArgs : List TypeArg) (args : List Term) : Call :=
      ⟨.chain [.atom "a", (Term.atom "b").applied [([], [.atom "x"])]], typeArgs, args⟩
    (universal [] [] [relational true .lt [.atom "x", .atom "y"]]
      [property true (call [] [.atom "y"]),
        universal [] [] [] [relational true .eq [.atom "x", .atom "x"],
          property false (call [.plain "T"] [])]]).keys = ["a.b", "="] := by
  decide

end Fact

end FactScript
