import SetForest.Operands

/-!
# Slots

A slot holds the content of one set, or the mark that the content was dropped.
A slot table is an append-only sequence of slots: a new content goes to the
next index, and a slot that exists can be overwritten but never removed.

There are two layouts.  One is a plain array.  The other grows in chunks of a
fixed number of slots, so that a slot never moves once it is allocated.  The
unused slots at the end of the last chunk exist, but no index reaches them.
-/

namespace SetForest

/-- The content of a set, or the mark that it was dropped. -/
inductive Slot (E : Type) where
  | resident (content : List E)
  | evicted
deriving DecidableEq, Repr

/-- Whether the content of a slot was dropped. -/
def Slot.isEvicted {E : Type} : Slot E → Bool
  | resident _ => false
  | evicted => true

/-- Slots in chunks of `blockSize`, of which the first `size` are in use. -/
structure ChunkedSlots (E : Type) where
  blockSize : Nat
  chunks : Array (Array (Slot E))
  size : Nat
  blockSize_pos : 0 < blockSize

namespace ChunkedSlots

variable {E : Type}

/-- No slots yet.  A block size of zero counts as one. -/
def create (blockSize : Nat) : ChunkedSlots E where
  blockSize := max blockSize 1
  chunks := #[]
  size := 0
  blockSize_pos := by omega

/-- The chunk of an index in use and the offset within that chunk. -/
def locate (slots : ChunkedSlots E) (index : Index) : Option (Nat × Nat) :=
  if index < slots.size then some (index / slots.blockSize, index % slots.blockSize) else none

/-- Append a content.  A chunk is allocated when the last one is full. -/
def push (slots : ChunkedSlots E) (content : List E) : Index × ChunkedSlots E :=
  let chunk := slots.size / slots.blockSize
  let offset := slots.size % slots.blockSize
  let allocated :=
    if chunk = slots.chunks.size then
      slots.chunks.push (Array.replicate slots.blockSize .evicted)
    else slots.chunks
  let chunks := allocated.modify chunk (fun row => row.setIfInBounds offset (.resident content))
  (slots.size, { slots with chunks, size := slots.size + 1 })

/-- The slot at an index in use. -/
def load (slots : ChunkedSlots E) (index : Index) : Option (Slot E) := do
  let (chunk, offset) ← slots.locate index
  let row ← slots.chunks[chunk]?
  row[offset]?

/-- Overwrite the slot at an index in use, returning what it held. -/
def replace (slots : ChunkedSlots E) (index : Index) (slot : Slot E) :
    Option (Slot E × ChunkedSlots E) := do
  let (chunk, offset) ← slots.locate index
  let row ← slots.chunks[chunk]?
  let previous ← row[offset]?
  let chunks := slots.chunks.setIfInBounds chunk (row.setIfInBounds offset slot)
  return (previous, { slots with chunks })

end ChunkedSlots

/-- A sequence of slots in one of the two layouts. -/
inductive SlotTable (E : Type) where
  | plain (slots : Array (Slot E))
  | chunked (slots : ChunkedSlots E)

namespace SlotTable

variable {E : Type}

/-- The number of slots in use, evicted ones included. -/
def size : SlotTable E → Nat
  | plain slots => slots.size
  | chunked slots => slots.size

/-- Append a content and return its index. -/
def push (table : SlotTable E) (content : List E) : Index × SlotTable E :=
  match table with
  | plain slots => (slots.size, plain (slots.push (.resident content)))
  | chunked slots =>
    let (index, slots) := slots.push content
    (index, chunked slots)

/-- The slot at an index in use. -/
def load (table : SlotTable E) (index : Index) : Option (Slot E) :=
  match table with
  | plain slots => slots[index]?
  | chunked slots => slots.load index

/-- Overwrite the slot at an index in use, returning what it held. -/
def replace (table : SlotTable E) (index : Index) (slot : Slot E) :
    Option (Slot E × SlotTable E) :=
  match table with
  | plain slots =>
    slots[index]?.map fun previous => (previous, plain (slots.setIfInBounds index slot))
  | chunked slots =>
    (slots.replace index slot).map fun (previous, slots) => (previous, chunked slots)

end SlotTable

end SetForest
