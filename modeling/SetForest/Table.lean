import Std.Data.ExtTreeMap
import SetForest.Key

/-!
# Finite tables

A table is a finite map that lists its entries in the order of their keys.
Every memo of a forest is a table, and so is the index of its set contents.

Nothing in a forest may depend on the order in which entries were stored.
Tables make that so by construction.  Two tables that answer every lookup alike
are equal (`Table.ext`), and a listing is determined by the lookups through
`pairwise_toList` and `mem_toList_iff`.
-/

namespace SetForest

/-- A finite map whose entries are listed in the order of their keys. -/
structure Table (κ : Type) (β : Type) [Key κ] where
  entries : Std.ExtTreeMap κ β

namespace Table

variable {κ β : Type} [Key κ]

/-- The table without entries. -/
def empty : Table κ β := ⟨∅⟩

instance : Inhabited (Table κ β) := ⟨empty⟩

/-- The value stored at `key`, if there is one. -/
def lookup (table : Table κ β) (key : κ) : Option β :=
  table.entries[key]?

/-- Store `value` at `key`, in place of any earlier value. -/
def store (table : Table κ β) (key : κ) (value : β) : Table κ β :=
  ⟨table.entries.insert key value⟩

/-- The number of keys with a value. -/
def size (table : Table κ β) : Nat :=
  table.entries.size

def isEmpty (table : Table κ β) : Bool :=
  table.size == 0

/-- All entries, in increasing order of their keys. -/
def toList (table : Table κ β) : List (κ × β) :=
  table.entries.toList

/-- A table is what its lookups say. -/
theorem ext {first second : Table κ β}
    (agree : ∀ key, first.lookup key = second.lookup key) : first = second := by
  cases first
  cases second
  exact congrArg Table.mk (Std.ExtTreeMap.ext_getElem? agree)

@[simp] theorem lookup_empty (key : κ) : (empty : Table κ β).lookup key = none :=
  Std.ExtTreeMap.getElem?_empty

@[simp] theorem size_empty : (empty : Table κ β).size = 0 :=
  Std.ExtTreeMap.size_empty

theorem lookup_store [DecidableEq κ] (table : Table κ β) (key : κ) (value : β) (other : κ) :
    (table.store key value).lookup other =
      if key = other then some value else table.lookup other := by
  simp [lookup, store, Std.ExtTreeMap.getElem?_insert]

@[simp] theorem lookup_store_self (table : Table κ β) (key : κ) (value : β) :
    (table.store key value).lookup key = some value := by
  simp [lookup, store]

theorem lookup_store_of_ne (table : Table κ β) {key other : κ} (value : β)
    (different : key ≠ other) :
    (table.store key value).lookup other = table.lookup other := by
  simp [lookup, store, Std.ExtTreeMap.getElem?_insert, different]

/-- Storing at a known key keeps the size, storing at a new one adds one. -/
theorem size_store (table : Table κ β) (key : κ) (value : β) :
    (table.store key value).size =
      if (table.lookup key).isSome then table.size else table.size + 1 := by
  simp [size, store, lookup, Std.ExtTreeMap.size_insert]

/-- The listing is strictly increasing by key. -/
theorem pairwise_toList (table : Table κ β) :
    table.toList.Pairwise (fun first second => compare first.1 second.1 = .lt) :=
  Std.ExtTreeMap.ordered_keys_toList

/-- The listing holds exactly the entries that a lookup finds. -/
theorem mem_toList_iff (table : Table κ β) (key : κ) (value : β) :
    (key, value) ∈ table.toList ↔ table.lookup key = some value :=
  Std.ExtTreeMap.mem_toList_iff_getElem?_eq_some

end Table

end SetForest
