import SetForest.Error
import SetForest.Storage.SlotTable
import SetForest.Storage.Strategy
import SetForest.Table

/-!
# Arenas

An arena stores every distinct content exactly once and hands out its index.
It consists of the slots and of a table from contents to indices.  The table
keeps the content of an evicted slot, which is why an evicted content comes
back to its old index when it is stored again.

There are two kinds.  An indexed arena keeps its slots in a slot table, in either
of the two layouts.  A keyed arena keeps them in a finite table by index and
counts the indices that it has handed out.
-/

namespace SetForest

/-- How an arena received a content. -/
inductive Interning where
  /-- The content was stored and resident. -/
  | hit
  /-- The content was not stored before. -/
  | cold
  /-- The content was stored, but its slot was evicted until now. -/
  | restored
deriving DecidableEq, Repr

/-- An arena over a slot table. -/
structure IndexedArena (E : Type) [Key E] where
  indices : Table (List E) Index
  slots : SlotTable E

namespace IndexedArena

variable {E : Type} [Key E]

/-- An arena without contents, in the layout of the given slots. -/
def create (slots : SlotTable E) : IndexedArena E where
  indices := .empty
  slots

/-- The number of indices handed out. -/
def size (arena : IndexedArena E) : Nat :=
  arena.slots.size

/-- Store a content at its index again if the slot there is evicted. -/
def revive (arena : IndexedArena E) (index : Index) (content : List E) :
    Interning × IndexedArena E :=
  match arena.slots.load index with
  | some .evicted =>
    match arena.slots.replace index (.resident content) with
    | some (_, slots) => (.restored, { arena with slots })
    | none => (.restored, arena)
  | _ => (.hit, arena)

/-- Find the index of a content, storing the content first if it is not resident. -/
def intern (arena : IndexedArena E) (content : List E) :
    (Index × Interning) × IndexedArena E :=
  match arena.indices.lookup content with
  | some index =>
    let (interning, arena) := arena.revive index content
    ((index, interning), arena)
  | none =>
    let (index, slots) := arena.slots.push content
    ((index, .cold), { indices := arena.indices.store content index, slots })

/-- The slot at an index that was handed out. -/
def slot? (arena : IndexedArena E) (index : Index) : Option (Slot E) :=
  arena.slots.load index

/-- Drop the content of a slot.  The result tells whether there was one. -/
def evict? (arena : IndexedArena E) (index : Index) : Option (Bool × IndexedArena E) :=
  (arena.slots.replace index .evicted).map fun (previous, slots) =>
    (!previous.isEvicted, { arena with slots })

end IndexedArena

/-- An arena over a table of slots by index. -/
structure KeyedArena (E : Type) [Key E] where
  indices : Table (List E) Index
  slots : Table Index (Slot E)
  /-- The next index to hand out. -/
  size : Nat

namespace KeyedArena

variable {E : Type} [Key E]

/-- An arena without contents. -/
def create : KeyedArena E where
  indices := .empty
  slots := .empty
  size := 0

/-- Store a content at its index again if the slot there is evicted. -/
def revive (arena : KeyedArena E) (index : Index) (content : List E) :
    Interning × KeyedArena E :=
  match arena.slots.lookup index with
  | some .evicted =>
    (.restored, { arena with slots := arena.slots.store index (.resident content) })
  | _ => (.hit, arena)

/-- Find the index of a content, storing the content first if it is not resident. -/
def intern (arena : KeyedArena E) (content : List E) :
    (Index × Interning) × KeyedArena E :=
  match arena.indices.lookup content with
  | some index =>
    let (interning, arena) := arena.revive index content
    ((index, interning), arena)
  | none =>
    let index := arena.size
    ((index, .cold),
      { indices := arena.indices.store content index
        slots := arena.slots.store index (.resident content)
        size := index + 1 })

/-- The slot at an index that was handed out. -/
def slot? (arena : KeyedArena E) (index : Index) : Option (Slot E) :=
  arena.slots.lookup index

/-- Drop the content of a slot.  The result tells whether there was one. -/
def evict? (arena : KeyedArena E) (index : Index) : Option (Bool × KeyedArena E) :=
  (arena.slots.lookup index).map fun previous =>
    (!previous.isEvicted, { arena with slots := arena.slots.store index .evicted })

end KeyedArena

/-- The set table of a forest, in the form that its strategy calls for. -/
inductive Arena (E : Type) [Key E] where
  | indexed (arena : IndexedArena E)
  | keyed (arena : KeyedArena E)

namespace Arena

variable {E : Type} [Key E]

/-- An arena without contents.  Only storage that grows in chunks looks at the block size. -/
def create (strategy : Strategy) (blockSize : Nat) : Arena E :=
  match strategy with
  | .unshared => indexed (.create (.plain #[]))
  | .locked => indexed (.create (.chunked (.create blockSize)))
  | .concurrent => keyed .create

/-- The number of indices handed out, those of evicted contents included. -/
def size : Arena E → Nat
  | indexed arena => arena.size
  | keyed arena => arena.size

/-- Find the index of a content, storing the content first if it is not resident. -/
def intern (arena : Arena E) (content : List E) : (Index × Interning) × Arena E :=
  match arena with
  | indexed arena =>
    let (interned, arena) := arena.intern content
    (interned, indexed arena)
  | keyed arena =>
    let (interned, arena) := arena.intern content
    (interned, keyed arena)

/-- The slot at an index that was handed out. -/
def slot? : Arena E → Index → Option (Slot E)
  | indexed arena, index => arena.slot? index
  | keyed arena, index => arena.slot? index

/-- The slot at an index, or the error that the index was never handed out. -/
def slot (arena : Arena E) (index : Index) : Except Error (Slot E) :=
  match arena.slot? index with
  | some slot => .ok slot
  | none => .error (.outOfRange index arena.size)

/-- The content at an index, if it is resident. -/
def get (arena : Arena E) (index : Index) : Except Error (List E) := do
  match ← arena.slot index with
  | .resident content => return content
  | .evicted => throw (.evicted index)

/-- Whether the content at an index was dropped. -/
def isEvicted (arena : Arena E) (index : Index) : Except Error Bool := do
  return (← arena.slot index).isEvicted

/-- Drop the content at an index.  The result tells whether it was resident. -/
def evict (arena : Arena E) (index : Index) : Except Error (Bool × Arena E) :=
  let evicted? :=
    match arena with
    | indexed arena => (arena.evict? index).map fun (resident, arena) => (resident, indexed arena)
    | keyed arena => (arena.evict? index).map fun (resident, arena) => (resident, keyed arena)
  match evicted? with
  | some result => .ok result
  | none => .error (.outOfRange index arena.size)

end Arena

end SetForest
