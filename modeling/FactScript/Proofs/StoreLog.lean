import FactScript.Memory.Store
import Mathlib.Data.List.Induction
import Mathlib.Data.List.Zip

/-!
A store says no more and no less than the log of what was put into it, entries with their keys in
order (`Store.Lists`). Inserting an entry adds it to the log, so a store that has grown still says
of its earlier entries what it said before. Whatever can be asked of the store is then answered from
the log (`Store.Answers`).
-/
namespace FactScript.Store

variable {α : Type}

/-- The places in a log of the entries with a key, in increasing order. -/
def numbers (key : String) (log : List (List String × α)) : List Nat :=
  (log.zipIdx.filter fun e => key ∈ e.1.1).map Prod.snd

/-- The store holds the entries of the log in order, lists them under their keys, and has the keys
in order of first use. -/
structure Lists (s : Store α) (log : List (List String × α)) : Prop where
  entries : s.entries.toList = log.map Prod.snd
  handles : ∀ key, s.handles key = numbers key log
  keys : s.keys = (log.flatMap Prod.fst).eraseDups

section Numbers

variable {key : String} {log : List (List String × α)} {keys : List String} {a : α}

theorem mem_numbers {id : Nat} : id ∈ numbers key log ↔ ∃ e, log[id]? = some e ∧ key ∈ e.1 := by
  simp [numbers, List.mk_mem_zipIdx_iff_getElem?]

theorem lt_of_mem_numbers {id : Nat} (h : id ∈ numbers key log) : id < log.length := by
  obtain ⟨e, he, -⟩ := mem_numbers.mp h
  exact (List.getElem?_eq_some_iff.mp he).1

theorem numbers_concat : numbers key (log ++ [(keys, a)]) =
    if key ∈ keys then addLast log.length (numbers key log) else numbers key log := by
  have hfresh : (numbers key log).getLast? ≠ some log.length := by
    intro h
    exact Nat.lt_irrefl _ (lt_of_mem_numbers (List.mem_of_getLast? h))
  have hsplit : numbers key (log ++ [(keys, a)]) =
      numbers key log ++ if key ∈ keys then [log.length] else [] := by
    by_cases hkey : key ∈ keys <;> simp [numbers, List.zipIdx_append, hkey]
  rw [hsplit, addLast, if_neg hfresh]
  split <;> simp

theorem numbers_increasing (key : String) (log : List (List String × α)) :
    (numbers key log).Pairwise (· < ·) := by
  have hall : (log.zipIdx.map Prod.snd).Pairwise (· < ·) := by
    rw [List.zipIdx_map_snd]
    exact List.pairwise_lt_range'
  exact hall.sublist (List.filter_sublist.map Prod.snd)

theorem length_numbers (key : String) (log : List (List String × α)) :
    (numbers key log).length = log.countP (key ∈ ·.1) := by
  have hlog : log.countP (key ∈ ·.1) = log.zipIdx.countP (key ∈ ·.1.1) := by
    conv_lhs => rw [← List.zipIdx_map_fst 0 log, List.countP_map]
    rfl
  rw [numbers, List.length_map, hlog, List.countP_eq_length_filter]

end Numbers

/-- Once the repetitions are dropped, keys stand in the order in which they first occurred. -/
theorem pairwise_idxOf_eraseDups (keys : List String) :
    keys.eraseDups.Pairwise fun k k' => keys.idxOf k < keys.idxOf k' := by
  induction keys using List.reverseRecOn with
  | nil => exact .nil
  | append_singleton keys key ih =>
    have hkeep : ∀ k ∈ keys, (keys ++ [key]).idxOf k = keys.idxOf k :=
      fun k hk => List.idxOf_append_of_mem hk
    have hbefore : keys.eraseDups.Pairwise fun k k' =>
        (keys ++ [key]).idxOf k < (keys ++ [key]).idxOf k' := by
      refine ih.imp_of_mem fun {k k'} hk hk' hlt => ?_
      rw [hkeep k (List.mem_eraseDups.mp hk), hkeep k' (List.mem_eraseDups.mp hk')]
      exact hlt
    rw [List.eraseDups_append]
    by_cases hkey : key ∈ keys
    · simpa [List.removeAll, hkey] using hbefore
    · have hlast : (keys ++ [key]).idxOf key = keys.length := by
        simp [List.idxOf_append_of_notMem hkey]
      have hnew : ([key].removeAll keys).eraseDups = [key] := by
        simp [List.removeAll, hkey, List.eraseDups_cons]
      rw [hnew, List.pairwise_append]
      refine ⟨hbefore, List.pairwise_singleton _ _, fun k hk k' hk' => ?_⟩
      have hk : k ∈ keys := List.mem_eraseDups.mp hk
      rw [List.mem_singleton.mp hk', hlast, hkeep k hk]
      exact List.idxOf_lt_length_of_mem hk

section Index

variable {index : List (String × List Nat)} {id : Nat}

theorem addLast_addLast (id : Nat) (ids : List Nat) :
    addLast id (addLast id ids) = addLast id ids := by
  by_cases h : ids.getLast? = some id <;> simp [addLast, h]

theorem lookup_cons (k k' : String) (ids : List Nat) :
    (List.lookup k ((k', ids) :: index)).getD [] =
      if k = k' then ids else (index.lookup k).getD [] := by
  by_cases h : k = k'
  · simp [h]
  · have hne : (k == k') = false := beq_eq_false_iff_ne.mpr h
    simp [List.lookup_cons, h, hne]

theorem lookup_file (key k : String) : ((file key id index).lookup k).getD [] =
    if k = key then addLast id ((index.lookup k).getD []) else (index.lookup k).getD [] := by
  induction index with
  | nil => rw [file, lookup_cons]; rfl
  | cons entry index ih =>
    obtain ⟨k', ids⟩ := entry
    by_cases hk' : k' = key
    · by_cases h : k = key <;> simp [file, hk', h, lookup_cons]
    · by_cases h : k = k'
      · simp [file, hk', h]
      · simpa [file, hk', h, lookup_cons] using ih

theorem keys_file (key : String) :
    (file key id index).map Prod.fst = if key ∈ index.map Prod.fst then index.map Prod.fst
      else index.map Prod.fst ++ [key] := by
  induction index with
  | nil => rfl
  | cons entry index ih =>
    obtain ⟨k, ids⟩ := entry
    by_cases hk : k = key
    · simp [file, hk]
    · simp only [file, hk, if_false, List.map_cons, ih, List.mem_cons, Ne.symm hk, false_or]
      split <;> rfl

theorem lookup_files (keys : List String) (k : String) :
    ((keys.foldl (fun index key => file key id index) index).lookup k).getD [] =
      if k ∈ keys then addLast id ((index.lookup k).getD []) else (index.lookup k).getD [] := by
  induction keys generalizing index with
  | nil => simp
  | cons key keys ih =>
    rw [List.foldl_cons, ih, lookup_file]
    by_cases h : k = key
    · by_cases hk : k ∈ keys <;> simp [h, addLast_addLast]
    · simp [h]

theorem keys_files {before : List String} (keys : List String)
    (h : index.map Prod.fst = before.eraseDups) :
    (keys.foldl (fun index key => file key id index) index).map Prod.fst =
      (before ++ keys).eraseDups := by
  induction keys generalizing index before with
  | nil => simpa using h
  | cons key keys ih =>
    have hone : (file key id index).map Prod.fst = (before ++ [key]).eraseDups := by
      rw [keys_file, h, List.eraseDups_append]
      by_cases hkey : key ∈ before <;> simp [List.removeAll, hkey, List.eraseDups_cons]
    rw [List.foldl_cons, ih hone, List.append_assoc, List.singleton_append]

end Index

namespace Lists

variable {s : Store α} {log : List (List String × α)}

theorem empty : ({} : Store α).Lists [] := ⟨rfl, fun _ => rfl, rfl⟩

theorem size_eq (h : s.Lists log) : s.size = log.length := by
  rw [size, ← Array.length_toList, h.entries, List.length_map]

theorem insert_fst (h : s.Lists log) (keys : List String) (a : α) :
    (s.insert keys a).1 = log.length :=
  h.size_eq

theorem insert (h : s.Lists log) (keys : List String) (a : α) :
    (s.insert keys a).2.Lists (log ++ [(keys, a)]) := by
  have hsize : s.entries.size = log.length := h.size_eq
  refine ⟨?_, ?_, ?_⟩
  · simp [Store.insert, h.entries]
  · intro key
    have hkey := h.handles key
    rw [Store.handles] at hkey
    rw [numbers_concat, ← hkey, ← hsize]
    exact lookup_files keys key
  · rw [List.flatMap_append, List.flatMap_singleton]
    exact keys_files keys h.keys

theorem get?_eq (h : s.Lists log) (id : Nat) : s.get? id = log[id]?.map Prod.snd := by
  rw [get?, ← Array.getElem?_toList, h.entries, List.getElem?_map]

theorem mem_handles (h : s.Lists log) {id : Nat} {key : String} :
    id ∈ s.handles key ↔ ∃ e, log[id]? = some e ∧ key ∈ e.1 := by
  rw [h.handles, mem_numbers]

theorem mem_lookup (h : s.Lists log) {key : String} {a : α} :
    a ∈ s.lookup key ↔ ∃ e ∈ log, key ∈ e.1 ∧ e.2 = a := by
  rw [lookup, List.mem_filterMap]
  constructor
  · rintro ⟨id, hid, ha⟩
    obtain ⟨e, he, hkey⟩ := h.mem_handles.mp hid
    rw [h.get?_eq, he] at ha
    exact ⟨e, List.mem_of_getElem? he, hkey, Option.some.inj ha⟩
  · rintro ⟨e, he, hkey, rfl⟩
    obtain ⟨id, hid⟩ := List.mem_iff_getElem?.mp he
    exact ⟨id, h.mem_handles.mpr ⟨e, hid, hkey⟩, by rw [h.get?_eq, hid]; rfl⟩

theorem mem_keys (h : s.Lists log) {key : String} : key ∈ s.keys ↔ ∃ e ∈ log, key ∈ e.1 := by
  rw [h.keys, List.mem_eraseDups, List.mem_flatMap]

theorem lookup_eq (h : s.Lists log) (key : String) :
    s.lookup key = (log.filter (key ∈ ·.1)).map Prod.snd := by
  have hentry : ∀ e ∈ log.zipIdx.filter (key ∈ ·.1.1), s.get? e.2 = some e.1.2 := by
    intro e he
    have hmem := List.mk_mem_zipIdx_iff_getElem?.mp (List.mem_filter.mp he).1
    rw [h.get?_eq, hmem]
    rfl
  have hlog : log.filter (key ∈ ·.1) = (log.zipIdx.filter (key ∈ ·.1.1)).map Prod.fst := by
    conv_lhs => rw [← List.zipIdx_map_fst 0 log, List.filter_map]
    rfl
  rw [lookup, h.handles, numbers, List.filterMap_map, hlog, List.map_map, ← List.filterMap_eq_map]
  exact List.filterMap_congr hentry

theorem toList_eq (h : s.Lists log) :
    s.toList = (List.range log.length).zip (log.map Prod.snd) := by
  rw [toList, h.entries, List.zipIdx_eq_zip_range', List.range_eq_range', List.length_map]
  exact List.zip_swap _ _

end Lists

/-! Runs of insertions. -/

def insertAll (s : Store α) : List (List String × α) → List Nat × Store α
  | [] => ([], s)
  | (keys, a) :: log =>
    let (id, s') := s.insert keys a
    let (ids, s'') := s'.insertAll log
    (id :: ids, s'')

/-- What can be asked of the store is answered from the log: what stands at a number, which entries
have a key, in increasing order and each once, and which keys there are, in the order of their first
use and each once. -/
structure Answers (s : Store α) (log : List (List String × α)) : Prop where
  size : s.size = log.length
  get? : ∀ id, s.get? id = log[id]?.map Prod.snd
  mem_handles : ∀ key id, id ∈ s.handles key ↔ ∃ e, log[id]? = some e ∧ key ∈ e.1
  increasing : ∀ key, (s.handles key).Pairwise (· < ·)
  count : ∀ key, s.count key = log.countP (key ∈ ·.1)
  lookup : ∀ key, s.lookup key = (log.filter (key ∈ ·.1)).map Prod.snd
  mem_keys : ∀ key, key ∈ s.keys ↔ ∃ e ∈ log, key ∈ e.1
  firstUse : s.keys.Pairwise fun k k' =>
    (log.flatMap Prod.fst).idxOf k < (log.flatMap Prod.fst).idxOf k'
  toList : s.toList = (List.range log.length).zip (log.map Prod.snd)

namespace Lists

variable {s : Store α} {log : List (List String × α)}

theorem answers (h : s.Lists log) : s.Answers log where
  size := h.size_eq
  get? := h.get?_eq
  mem_handles key id := h.mem_handles
  increasing key := by
    rw [h.handles]
    exact numbers_increasing key log
  count key := by
    rw [count, h.handles]
    exact length_numbers key log
  lookup := h.lookup_eq
  mem_keys key := h.mem_keys
  firstUse := by
    rw [h.keys]
    exact pairwise_idxOf_eraseDups _
  toList := h.toList_eq

/-- A run of insertions numbers its entries from the size of the store on, and adds them to
the log. -/
theorem insertAll (h : s.Lists log) (more : List (List String × α)) :
    (s.insertAll more).1 = List.range' log.length more.length ∧
      (s.insertAll more).2.Lists (log ++ more) := by
  induction more generalizing s log with
  | nil => simpa [Store.insertAll] using h
  | cons e more ih =>
    have hrun := ih (h.insert e.1 e.2)
    have hlength : (log ++ [(e.1, e.2)]).length = log.length + 1 := by simp
    rw [hlength, List.append_assoc] at hrun
    refine ⟨?_, hrun.2⟩
    rw [List.length_cons, List.range'_succ, ← hrun.1, ← h.insert_fst e.1 e.2]
    rfl

end Lists

/-- Entries put into a new store are numbered from zero on, whatever their keys, and every question
is then answered from the log of these entries. -/
theorem insertAll_answers (log : List (List String × α)) :
    (insertAll {} log).1 = List.range log.length ∧ (insertAll {} log).2.Answers log := by
  have hrun := Lists.empty.insertAll log
  rw [List.length_nil, ← List.range_eq_range', List.nil_append] at hrun
  exact ⟨hrun.1, hrun.2.answers⟩

end FactScript.Store
