/-!
Append-only stores. Entries are numbered in the order of insertion and filed under keys; each key
lists the numbers of its entries in increasing order.
-/
namespace FactScript

structure Store (α : Type) where
  entries : Array α := #[]
  /-- The keys in order of first use, each with the numbers of its entries. -/
  index : List (String × List Nat) := []

namespace Store

variable {α : Type}

/-- Adds a number at the end unless it stands there already. -/
def addLast (id : Nat) (ids : List Nat) : List Nat :=
  if ids.getLast? = some id then ids else ids ++ [id]

def file (key : String) (id : Nat) : List (String × List Nat) → List (String × List Nat)
  | [] => [(key, [id])]
  | (k, ids) :: rest =>
    if k = key then (k, addLast id ids) :: rest else (k, ids) :: file key id rest

/-- Adds an entry under some keys, and tells its number. -/
def insert (s : Store α) (keys : List String) (entry : α) : Nat × Store α :=
  let id := s.entries.size
  (id, ⟨s.entries.push entry, keys.foldl (fun index key => file key id index) s.index⟩)

def size (s : Store α) : Nat := s.entries.size

def isEmpty (s : Store α) : Bool := s.entries.isEmpty

def get? (s : Store α) (id : Nat) : Option α := s.entries[id]?

def handles (s : Store α) (key : String) : List Nat := (s.index.lookup key).getD []

def count (s : Store α) (key : String) : Nat := (s.handles key).length

def lookup (s : Store α) (key : String) : List α := (s.handles key).filterMap s.get?

def keys (s : Store α) : List String := s.index.map Prod.fst

def toList (s : Store α) : List (Nat × α) := s.entries.toList.zipIdx.map fun (a, i) => (i, a)

end Store

end FactScript
