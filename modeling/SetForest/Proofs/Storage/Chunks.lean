import SetForest.Storage.SlotTable

namespace SetForest.ChunkedSlots

/-!
# Addresses in chunked storage

An index in use addresses a row by division and a slot of that row by
remainder.  Rows are allocated full and only when the last one is used up, so
the number of rows is the least that holds all slots in use.  Under this
invariant every address of an index in use exists, and the slots past the last
index in use are not addressable although they are allocated.

The statements describe `push` and `replace` by what `load` sees afterwards,
which is all that the arenas above this layout rely on.
-/

variable {E : Type}

/-- All rows are full, and there are just enough of them for the slots in use. -/
structure WellFormed (slots : ChunkedSlots E) : Prop where
  row_size : ∀ row ∈ slots.chunks, row.size = slots.blockSize
  enough : slots.size ≤ slots.chunks.size * slots.blockSize
  tight : slots.chunks.size * slots.blockSize < slots.size + slots.blockSize

theorem wellFormed_create (blockSize : Nat) :
    (create blockSize : ChunkedSlots E).WellFormed where
  row_size := by
    intro row member
    simp [create] at member
  enough := by simp [create]
  tight := by
    simp only [create, List.size_toArray, List.length_nil, Nat.zero_mul]
    omega

/-- The slot at an address, whether or not the address is in use. -/
def slotAt (chunks : Array (Array (Slot E))) (chunk offset : Nat) : Option (Slot E) :=
  chunks[chunk]?.bind (fun row => row[offset]?)

theorem load_eq (slots : ChunkedSlots E) (index : Index) :
    slots.load index =
      if index < slots.size then
        slotAt slots.chunks (index / slots.blockSize) (index % slots.blockSize)
      else none := by
  by_cases inUse : index < slots.size
  · simp only [load, locate, if_pos inUse, slotAt]
    rfl
  · simp only [load, locate, if_neg inUse]
    rfl

/-- Two indices with one address are the same index. -/
theorem eq_of_address_eq {blockSize first second : Nat}
    (chunk : first / blockSize = second / blockSize)
    (offset : first % blockSize = second % blockSize) : first = second := by
  rw [← Nat.div_add_mod first blockSize, ← Nat.div_add_mod second blockSize, chunk, offset]

namespace WellFormed

variable {slots : ChunkedSlots E}

theorem chunk_lt (wellFormed : slots.WellFormed) {index : Index} (inUse : index < slots.size) :
    index / slots.blockSize < slots.chunks.size := by
  apply Nat.div_lt_of_lt_mul
  rw [Nat.mul_comm]
  exact Nat.lt_of_lt_of_le inUse wellFormed.enough

/-- An address in use has a row of full size. -/
theorem row_of_lt (wellFormed : slots.WellFormed) {index : Index} (inUse : index < slots.size) :
    ∃ row, slots.chunks[index / slots.blockSize]? = some row ∧ row.size = slots.blockSize := by
  have inside := wellFormed.chunk_lt inUse
  exact ⟨slots.chunks[index / slots.blockSize], Array.getElem?_eq_getElem inside,
    wellFormed.row_size _ (Array.getElem_mem inside)⟩

/-- Exactly the indices in use can be loaded. -/
theorem load_isSome_iff (wellFormed : slots.WellFormed) (index : Index) :
    (slots.load index).isSome ↔ index < slots.size := by
  rw [load_eq]
  constructor
  · intro loaded
    by_cases inUse : index < slots.size
    · exact inUse
    · simp [inUse] at loaded
  · intro inUse
    rcases wellFormed.row_of_lt inUse with ⟨row, found, full⟩
    have offset : index % slots.blockSize < row.size := by
      rw [full]
      exact Nat.mod_lt index slots.blockSize_pos
    rw [if_pos inUse, slotAt, found, Option.bind_some, Array.getElem?_eq_getElem offset]
    rfl

end WellFormed

/-! ## Writing one slot -/

/-- Writing at one address changes what is there and nothing else. -/
theorem slotAt_modify (chunks : Array (Array (Slot E))) (chunk offset : Nat) (slot : Slot E)
    (otherChunk otherOffset : Nat) :
    slotAt (chunks.modify chunk (fun row => row.setIfInBounds offset slot)) otherChunk otherOffset =
      if otherChunk = chunk ∧ otherOffset = offset then
        (slotAt chunks otherChunk otherOffset).map (fun _ => slot)
      else slotAt chunks otherChunk otherOffset := by
  simp only [slotAt, Array.getElem?_modify]
  by_cases sameChunk : otherChunk = chunk
  · subst otherChunk
    rw [if_pos rfl]
    cases chunks[chunk]? with
    | none => simp
    | some row =>
        by_cases sameOffset : otherOffset = offset
        · subst otherOffset
          by_cases inside : offset < row.size
          · simp [inside]
          · simp [inside]
        · have different : ¬offset = otherOffset := fun equal => sameOffset equal.symm
          simp [sameOffset, different]
  · have different : ¬chunk = otherChunk := fun equal => sameChunk equal.symm
    rw [if_neg different, if_neg (fun both => sameChunk both.1)]

/-- Writing one slot keeps the sizes of all rows. -/
theorem row_size_modify {chunks : Array (Array (Slot E))} {blockSize : Nat}
    (full : ∀ row ∈ chunks, row.size = blockSize) (chunk offset : Nat) (slot : Slot E) :
    ∀ row ∈ chunks.modify chunk (fun row => row.setIfInBounds offset slot),
      row.size = blockSize := by
  intro row member
  rcases Array.mem_iff_getElem?.mp member with ⟨position, found⟩
  rw [Array.getElem?_modify] at found
  split at found
  · rcases Option.map_eq_some_iff.mp found with ⟨old, oldFound, rfl⟩
    rw [Array.size_setIfInBounds]
    exact full old (Array.mem_of_getElem? oldFound)
  · exact full row (Array.mem_of_getElem? found)

/-! ## Appending -/

/-- The rows once there is one for the next index. -/
def allocated (slots : ChunkedSlots E) : Array (Array (Slot E)) :=
  if slots.size / slots.blockSize = slots.chunks.size then
    slots.chunks.push (Array.replicate slots.blockSize .evicted)
  else slots.chunks

theorem push_eq (slots : ChunkedSlots E) (content : List E) :
    slots.push content =
      (slots.size,
        { slots with
          chunks := slots.allocated.modify (slots.size / slots.blockSize)
            (fun row => row.setIfInBounds (slots.size % slots.blockSize) (.resident content))
          size := slots.size + 1 }) :=
  rfl

namespace WellFormed

variable {slots : ChunkedSlots E}

theorem row_size_allocated (wellFormed : slots.WellFormed) :
    ∀ row ∈ slots.allocated, row.size = slots.blockSize := by
  intro row member
  unfold allocated at member
  split at member
  · rcases Array.mem_push.mp member with old | rfl
    · exact wellFormed.row_size row old
    · exact Array.size_replicate
  · exact wellFormed.row_size row member

/-- A row is allocated exactly when the index after the last one needs it. -/
theorem allocated_bounds (wellFormed : slots.WellFormed) :
    slots.size < slots.allocated.size * slots.blockSize ∧
      slots.allocated.size * slots.blockSize < slots.size + 1 + slots.blockSize := by
  have positive := slots.blockSize_pos
  have enough := wellFormed.enough
  have tight := wellFormed.tight
  have split := Nat.div_add_mod slots.size slots.blockSize
  have offset := Nat.mod_lt slots.size positive
  unfold allocated
  by_cases full : slots.size / slots.blockSize = slots.chunks.size
  · rw [if_pos full, Array.size_push, Nat.succ_mul]
    rw [full, Nat.mul_comm] at split
    omega
  · rw [if_neg full]
    have below : slots.size / slots.blockSize < slots.chunks.size :=
      Nat.lt_of_le_of_ne
        (Nat.div_le_of_le_mul (by rw [Nat.mul_comm]; exact enough)) full
    have room : (slots.size / slots.blockSize + 1) * slots.blockSize ≤
        slots.chunks.size * slots.blockSize := Nat.mul_le_mul_right _ below
    rw [Nat.succ_mul, Nat.mul_comm] at room
    omega

/-- A row is allocated exactly when the slots in use fill all rows. -/
theorem size_allocated (wellFormed : slots.WellFormed) :
    slots.allocated.size =
      slots.chunks.size + if slots.blockSize ∣ slots.size then 1 else 0 := by
  have positive := slots.blockSize_pos
  have full : slots.size / slots.blockSize = slots.chunks.size ↔ slots.blockSize ∣ slots.size := by
    constructor
    · intro lastChunk
      have enough := wellFormed.enough
      rw [← lastChunk] at enough
      exact ⟨slots.size / slots.blockSize, Nat.mul_comm _ _ ▸
        Nat.le_antisymm enough (Nat.div_mul_le_self _ _)⟩
    · rintro ⟨count, filled⟩
      have enough := wellFormed.enough
      have tight := wellFormed.tight
      rw [filled, Nat.mul_comm slots.blockSize count] at enough tight
      rw [← Nat.succ_mul] at tight
      rw [filled, Nat.mul_div_cancel_left count positive]
      have atLeast := Nat.le_of_mul_le_mul_right enough positive
      have atMost := Nat.lt_of_mul_lt_mul_right tight
      omega
  unfold allocated
  by_cases lastChunk : slots.size / slots.blockSize = slots.chunks.size
  · rw [if_pos lastChunk, if_pos (full.mp lastChunk), Array.size_push]
  · rw [if_neg lastChunk, if_neg (mt full.mpr lastChunk), Nat.add_zero]

/-- Allocating a row does not move the slots in use. -/
theorem slotAt_allocated (wellFormed : slots.WellFormed) {index : Index}
    (inUse : index < slots.size) :
    slotAt slots.allocated (index / slots.blockSize) (index % slots.blockSize) =
      slotAt slots.chunks (index / slots.blockSize) (index % slots.blockSize) := by
  unfold allocated
  split
  · rw [slotAt, Array.getElem?_push_lt (wellFormed.chunk_lt inUse), slotAt,
      Array.getElem?_eq_getElem (wellFormed.chunk_lt inUse)]
  · rfl

/-- There is a slot for the next index. -/
theorem slotAt_next_isSome (wellFormed : slots.WellFormed) :
    (slotAt slots.allocated (slots.size / slots.blockSize)
      (slots.size % slots.blockSize)).isSome := by
  have inside : slots.size / slots.blockSize < slots.allocated.size := by
    apply Nat.div_lt_of_lt_mul
    rw [Nat.mul_comm]
    exact wellFormed.allocated_bounds.1
  have offset : slots.size % slots.blockSize <
      slots.allocated[slots.size / slots.blockSize].size := by
    rw [wellFormed.row_size_allocated _ (Array.getElem_mem inside)]
    exact Nat.mod_lt _ slots.blockSize_pos
  rw [slotAt, Array.getElem?_eq_getElem inside, Option.bind_some,
    Array.getElem?_eq_getElem offset]
  rfl

theorem push (wellFormed : slots.WellFormed) (content : List E) :
    (slots.push content).2.WellFormed := by
  rw [push_eq]
  refine ⟨?_, ?_, ?_⟩
  · exact row_size_modify wellFormed.row_size_allocated _ _ _
  · rw [Array.size_modify]
    exact wellFormed.allocated_bounds.1
  · rw [Array.size_modify]
    exact wellFormed.allocated_bounds.2

/-- An appended content is found at its index, and all others where they were. -/
theorem load_push (wellFormed : slots.WellFormed) (content : List E) (index : Index) :
    (slots.push content).2.load index =
      if index = slots.size then some (.resident content) else slots.load index := by
  rw [push_eq, load_eq, load_eq]
  dsimp only
  by_cases atEnd : index = slots.size
  · subst index
    rcases Option.isSome_iff_exists.mp wellFormed.slotAt_next_isSome with ⟨old, found⟩
    rw [if_pos (Nat.lt_succ_self _), if_pos rfl, slotAt_modify, if_pos ⟨rfl, rfl⟩, found]
    rfl
  · rw [if_neg atEnd]
    by_cases inUse : index < slots.size
    · have different : ¬(index / slots.blockSize = slots.size / slots.blockSize ∧
          index % slots.blockSize = slots.size % slots.blockSize) :=
        fun same => atEnd (eq_of_address_eq same.1 same.2)
      rw [if_pos (Nat.lt_succ_of_lt inUse), if_pos inUse, slotAt_modify, if_neg different,
        wellFormed.slotAt_allocated inUse]
    · have beyond : ¬index < slots.size + 1 :=
        Nat.not_lt.mpr (Nat.lt_of_le_of_ne (Nat.not_lt.mp inUse) (Ne.symm atEnd))
      rw [if_neg beyond, if_neg inUse]

end WellFormed

/-! ## Overwriting -/

/-- Overwriting answers what was there, and fails where nothing can be loaded. -/
theorem replace_eq (slots : ChunkedSlots E) (index : Index) (slot : Slot E) :
    slots.replace index slot =
      (slots.load index).map (fun previous =>
        (previous,
          { slots with
            chunks := slots.chunks.modify (index / slots.blockSize)
              (fun row => row.setIfInBounds (index % slots.blockSize) slot) })) := by
  by_cases inUse : index < slots.size
  · simp only [replace, load, locate, if_pos inUse, Option.bind_eq_bind, Option.bind_some]
    cases rowFound : slots.chunks[index / slots.blockSize]? with
    | none => rfl
    | some row =>
        cases slotFound : row[index % slots.blockSize]? with
        | none => simp [slotFound]
        | some previous =>
            have modified : slots.chunks.setIfInBounds (index / slots.blockSize)
                (row.setIfInBounds (index % slots.blockSize) slot) =
                slots.chunks.modify (index / slots.blockSize)
                  (fun row => row.setIfInBounds (index % slots.blockSize) slot) := by
              apply Array.ext_getElem?
              intro position
              rw [Array.getElem?_setIfInBounds, Array.getElem?_modify]
              by_cases here : index / slots.blockSize = position
              · subst position
                have inside := (Array.getElem?_eq_some_iff.mp rowFound).1
                rw [if_pos rfl, if_pos inside, if_pos rfl, rowFound, Option.map_some]
              · rw [if_neg here, if_neg here]
            simp [slotFound, modified]
  · simp [replace, load, locate, inUse]

variable {slots after : ChunkedSlots E} {index : Index} {slot previous : Slot E}

/-- What cannot be loaded cannot be overwritten. -/
theorem replace_eq_none (loaded : slots.load index = none) (slot : Slot E) :
    slots.replace index slot = none := by
  rw [replace_eq, loaded, Option.map_none]

/-- Overwriting answers what could be loaded, and changes nothing but the slot. -/
theorem of_replace (replaced : slots.replace index slot = some (previous, after)) :
    slots.load index = some previous ∧
      after = { slots with
        chunks := slots.chunks.modify (index / slots.blockSize)
          (fun row => row.setIfInBounds (index % slots.blockSize) slot) } := by
  rw [replace_eq] at replaced
  rcases Option.map_eq_some_iff.mp replaced with ⟨found, loaded, same⟩
  rcases Prod.mk.inj same with ⟨rfl, rfl⟩
  exact ⟨loaded, rfl⟩

namespace WellFormed

theorem replace (wellFormed : slots.WellFormed)
    (replaced : slots.replace index slot = some (previous, after)) : after.WellFormed := by
  rcases of_replace replaced with ⟨-, rfl⟩
  refine ⟨row_size_modify wellFormed.row_size _ _ _, ?_, ?_⟩
  · rw [Array.size_modify]
    exact wellFormed.enough
  · rw [Array.size_modify]
    exact wellFormed.tight

end WellFormed

/-- An overwritten slot holds what was written, and all others what they held. -/
theorem load_replace (replaced : slots.replace index slot = some (previous, after))
    (other : Index) :
    after.load other = if other = index then some slot else slots.load other := by
  rcases of_replace replaced with ⟨loaded, rfl⟩
  rw [load_eq] at loaded ⊢
  dsimp only
  by_cases here : other = index
  · subst other
    by_cases inUse : index < slots.size
    · rw [if_pos inUse] at loaded
      rw [if_pos inUse, if_pos rfl, slotAt_modify, if_pos ⟨rfl, rfl⟩, loaded]
      rfl
    · rw [if_neg inUse] at loaded
      cases loaded
  · have different : ¬(other / slots.blockSize = index / slots.blockSize ∧
        other % slots.blockSize = index % slots.blockSize) :=
      fun same => here (eq_of_address_eq same.1 same.2)
    rw [if_neg here, load_eq, slotAt_modify, if_neg different]

/-- The chunks stay as large as they are. -/
theorem blockSize_replace (replaced : slots.replace index slot = some (previous, after)) :
    after.blockSize = slots.blockSize := by
  rcases of_replace replaced with ⟨-, rfl⟩
  rfl

theorem size_replace (replaced : slots.replace index slot = some (previous, after)) :
    after.size = slots.size := by
  rcases of_replace replaced with ⟨-, rfl⟩
  rfl

end SetForest.ChunkedSlots
