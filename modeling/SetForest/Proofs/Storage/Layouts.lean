import SetForest.Proofs.Storage.Holdings

namespace SetForest

/-!
# Two layouts of one sequence

A slot table in chunks is used like a plain array and cannot be told from one.  What either
has to answer is determined by the calls that were made before: the size is the number of
contents appended, and what is at an index is the last that was written there
(`SlotTable.written`).  A table that is in order follows this description call by call
(`SlotTable.Records`), whatever its layout is, and so the layouts agree.

For the chunks there is more to be said, because they are addressed by chunk and offset.
Whenever an address is computed there is a slot (`ChunkedSlots.InBounds`), and a chunk is
allocated exactly when there is no room in the others.
-/

variable {E : Type}

namespace SlotTable

/-- What can be asked of a slot table. -/
inductive Call (E : Type) where
  | push (content : List E)
  | load (index : Index)
  | replace (index : Index) (slot : Slot E)
  | size

/-- Whether a call appends a content. -/
def Call.isPush : Call E → Bool
  | push _ => true
  | _ => false

/-- The answer to a call. -/
inductive Answer (E : Type) where
  | index (value : Index)
  | slot (value : Option (Slot E))
  | size (value : Nat)
deriving DecidableEq

/-- Carry out a call.  Nothing is overwritten at an index that is not in use. -/
def perform (table : SlotTable E) : Call E → Answer E × SlotTable E
  | .push content => (.index (table.push content).1, (table.push content).2)
  | .load index => (.slot (table.load index), table)
  | .replace index slot =>
    match table.replace index slot with
    | some (previous, after) => (.slot (some previous), after)
    | none => (.slot none, table)
  | .size => (.size table.size, table)

/-- Carry out calls in turn. -/
def performAll (table : SlotTable E) : List (Call E) → List (Answer E) × SlotTable E
  | [] => ([], table)
  | call :: rest =>
    let (answer, after) := table.perform call
    let (answers, last) := after.performAll rest
    (answer :: answers, last)

/-! ## What is to be answered -/

/-- The number of contents that calls have appended. -/
def pushes (calls : List (Call E)) : Nat :=
  calls.countP Call.isPush

/-- What was last written to an index, by calls of which the latest is the first. -/
def written : List (Call E) → Index → Option (Slot E)
  | [], _ => none
  | .push content :: earlier, index =>
    if index = pushes earlier then some (.resident content) else written earlier index
  | .replace place slot :: earlier, index =>
    if index = place ∧ place < pushes earlier then some slot else written earlier index
  | .load _ :: earlier, index => written earlier index
  | .size :: earlier, index => written earlier index

/-- The answer to a call that earlier ones determine. -/
def expected (earlier : List (Call E)) : Call E → Answer E
  | .push _ => .index (pushes earlier)
  | .load index => .slot (written earlier index)
  | .replace index _ => .slot (written earlier index)
  | .size => .size (pushes earlier)

/-- The answers to calls that are made one after the other. -/
def expectedAll (earlier : List (Call E)) : List (Call E) → List (Answer E)
  | [] => []
  | call :: rest => expected earlier call :: expectedAll (call :: earlier) rest

/-- Only what was appended was ever written to. -/
theorem written_eq_none_iff (earlier : List (Call E)) (index : Index) :
    written earlier index = none ↔ pushes earlier ≤ index := by
  induction earlier with
  | nil => exact iff_of_true rfl (Nat.zero_le index)
  | cons call earlier ih =>
      cases call with
      | push content =>
          have more : pushes (.push content :: earlier) = pushes earlier + 1 :=
            List.countP_cons_of_pos rfl
          rw [written, more]
          split
          · next atEnd => exact iff_of_false nofun (Nat.not_le.mpr (atEnd ▸ Nat.lt_succ_self _))
          · next elsewhere =>
              rw [ih]
              exact ⟨fun beyond => Nat.lt_of_le_of_ne beyond (Ne.symm elsewhere),
                Nat.le_of_succ_le⟩
      | replace place slot =>
          rw [written]
          split
          · next here => exact iff_of_false nofun (Nat.not_le.mpr (here.1 ▸ here.2))
          · exact ih
      | load place => exact ih
      | size => exact ih

/-- A table is in order, and it holds what earlier calls have written. -/
structure Records (table : SlotTable E) (earlier : List (Call E)) : Prop where
  wellFormed : table.WellFormed
  size : table.size = pushes earlier
  load : ∀ index, table.load index = written earlier index

namespace Records

variable {table : SlotTable E} {earlier : List (Call E)}

theorem plain : Records (.plain #[] : SlotTable E) [] where
  wellFormed := trivial
  size := rfl
  load _ := rfl

theorem chunked (blockSize : Nat) : Records (.chunked (.create blockSize) : SlotTable E) [] where
  wellFormed := ChunkedSlots.wellFormed_create blockSize
  size := rfl
  load index := by
    rw [SlotTable.load, ChunkedSlots.load_eq]
    exact if_neg (Nat.not_lt_zero index)

/-- A call is answered as the earlier ones determine, and it is recorded. -/
theorem perform (records : Records table earlier) (call : Call E) :
    (table.perform call).1 = expected earlier call ∧
      Records (table.perform call).2 (call :: earlier) := by
  rcases records with ⟨wellFormed, size, load⟩
  cases call with
  | push content =>
      rcases table.size_push content with ⟨index, more⟩
      refine ⟨?_, wellFormed_push wellFormed content, ?_, ?_⟩
      · rw [SlotTable.perform, expected, index, size]
      · rw [SlotTable.perform, more, size]
        exact (List.countP_cons_of_pos rfl).symm
      · intro other
        rw [SlotTable.perform, load_push wellFormed, written, size, load]
  | load index =>
      exact ⟨congrArg Answer.slot (load index), wellFormed, size, load⟩
  | replace index slot =>
      cases loaded : table.load index with
      | none =>
          rw [SlotTable.perform, replace_eq_none loaded slot, expected, ← load, loaded]
          refine ⟨rfl, wellFormed, size, ?_⟩
          intro other
          rw [load, written_eq_none_iff] at loaded
          rw [written, if_neg (fun here => Nat.not_lt.mpr loaded here.2), load]
      | some previous =>
          rcases exists_replace slot loaded with ⟨after, replaced⟩
          rcases of_replace wellFormed replaced with ⟨wellFormedAfter, sameSize, loadAfter⟩
          rw [SlotTable.perform, replaced, expected, ← load, loaded]
          refine ⟨rfl, wellFormedAfter, sameSize.trans size, ?_⟩
          intro other
          have inUse : index < pushes earlier := by
            rw [← Nat.not_le, ← written_eq_none_iff, ← load, loaded]
            exact nofun
          rw [loadAfter, written, load]
          simp only [inUse, and_true]
  | size => exact ⟨congrArg Answer.size size, wellFormed, size, load⟩

/-- So are any number of calls. -/
theorem performAll (records : Records table earlier) (calls : List (Call E)) :
    (table.performAll calls).1 = expectedAll earlier calls ∧
      Records (table.performAll calls).2 (calls.reverse ++ earlier) := by
  induction calls generalizing table earlier with
  | nil => exact ⟨rfl, records⟩
  | cons call rest ih =>
      rcases records.perform call with ⟨answer, recordsAfter⟩
      rcases ih recordsAfter with ⟨answers, recordsLast⟩
      refine ⟨?_, ?_⟩
      · rw [SlotTable.performAll, expectedAll, ← answer, ← answers]
      · rw [List.reverse_cons, List.append_assoc, List.singleton_append]
        exact recordsLast

end Records

/-! ## The layout of a table -/

/-- Whether a table consists of chunks of a size. -/
def InChunksOf (blockSize : Nat) : SlotTable E → Prop
  | .plain _ => False
  | .chunked slots => slots.blockSize = blockSize

/-- No call changes the layout. -/
theorem InChunksOf.perform {table : SlotTable E} {blockSize : Nat}
    (inChunks : table.InChunksOf blockSize) (call : Call E) :
    (table.perform call).2.InChunksOf blockSize := by
  cases table with
  | plain slots => cases inChunks
  | chunked slots =>
      cases call with
      | replace index slot =>
          rw [SlotTable.perform, replace]
          cases replaced : slots.replace index slot with
          | none => exact inChunks
          | some outcome => exact (ChunkedSlots.blockSize_replace replaced).trans inChunks
      | push content => exact inChunks
      | load index => exact inChunks
      | size => exact inChunks

theorem InChunksOf.performAll {table : SlotTable E} {blockSize : Nat}
    (inChunks : table.InChunksOf blockSize) (calls : List (Call E)) :
    (table.performAll calls).2.InChunksOf blockSize := by
  induction calls generalizing table with
  | nil => exact inChunks
  | cons call rest ih => exact ih (inChunks.perform call)

end SlotTable

namespace ChunkedSlots

/-- There is a slot wherever a call may look for one: at the address of an index in use,
and, once a chunk was allocated if need be, at the address of the next index. -/
structure InBounds (slots : ChunkedSlots E) : Prop where
  used : ∀ index chunk offset, slots.locate index = some (chunk, offset) →
    (slotAt slots.chunks chunk offset).isSome
  next : (slotAt slots.allocated (slots.size / slots.blockSize)
    (slots.size % slots.blockSize)).isSome

theorem WellFormed.inBounds {slots : ChunkedSlots E} (wellFormed : slots.WellFormed) :
    slots.InBounds where
  used := by
    intro index chunk offset located
    rw [locate] at located
    split at located
    · next inUse =>
        cases located
        have loaded := (wellFormed.load_isSome_iff index).mpr inUse
        rw [load_eq, if_pos inUse] at loaded
        exact loaded
    · cases located
  next := wellFormed.slotAt_next_isSome

end ChunkedSlots

/-- Chunks refine a plain array.  Whatever the size of the chunks is and whatever is called,
the answers are those of the plain array, and they are the ones that the history of the
calls determines: an appended content gets the old size as its index, and what is loaded or
overwritten is what was last written there.  No index beyond the size can be loaded or
overwritten, not even where a slot is allocated for it, and overwriting does not change the
size.  A chunk is added exactly when the size is a multiple of that of a chunk, and no
address is ever out of bounds. -/
theorem chunks_refine_array (E : Type) (blockSize : Nat) (calls : List (SlotTable.Call E)) :
    let array := (SlotTable.plain #[] : SlotTable E).performAll calls
    let inChunks := (SlotTable.chunked (.create blockSize) : SlotTable E).performAll calls
    inChunks.1 = array.1 ∧ inChunks.1 = SlotTable.expectedAll [] calls ∧
    ∃ slots : ChunkedSlots E, inChunks.2 = .chunked slots ∧
      slots.blockSize = max blockSize 1 ∧ slots.size = SlotTable.pushes calls ∧
      (∀ index, slots.load index = array.2.load index ∧
        slots.load index = SlotTable.written calls.reverse index) ∧
      (∀ index, slots.size ≤ index → slots.load index = none ∧
        ∀ slot, slots.replace index slot = none) ∧
      (∀ index slot previous after, slots.replace index slot = some (previous, after) →
        slots.load index = some previous ∧ after.size = slots.size) ∧
      slots.allocated.size =
        slots.chunks.size + (if slots.blockSize ∣ slots.size then 1 else 0) ∧
      slots.InBounds := by
  intro array inChunks
  rcases (SlotTable.Records.plain (E := E)).performAll calls with ⟨arrayAnswers, arrayRecords⟩
  rcases (SlotTable.Records.chunked (E := E) blockSize).performAll calls with
    ⟨answers, records⟩
  have created : (SlotTable.chunked (.create blockSize) : SlotTable E).InChunksOf
      (max blockSize 1) := rfl
  have layout : inChunks.2.InChunksOf (max blockSize 1) := created.performAll calls
  refine ⟨answers.trans arrayAnswers.symm, answers, ?_⟩
  rw [List.append_nil] at records arrayRecords
  change SlotTable.Records inChunks.2 _ at records
  generalize inChunks.2 = table at records layout
  cases table with
  | plain slots => cases layout
  | chunked slots =>
      have wellFormed : slots.WellFormed := records.wellFormed
      have load : ∀ index, slots.load index = SlotTable.written calls.reverse index :=
        records.load
      have size : slots.size = SlotTable.pushes calls.reverse := records.size
      refine ⟨slots, rfl, layout, ?_, ?_, ?_, ?_, wellFormed.size_allocated,
        wellFormed.inBounds⟩
      · rw [size]
        exact List.countP_reverse
      · intro index
        exact ⟨(load index).trans (arrayRecords.load index).symm, load index⟩
      · intro index beyond
        have free : slots.load index = none := by
          rw [load, SlotTable.written_eq_none_iff, ← size]
          exact beyond
        exact ⟨free, ChunkedSlots.replace_eq_none free⟩
      · intro index slot previous after replaced
        exact ⟨(ChunkedSlots.of_replace replaced).1, ChunkedSlots.size_replace replaced⟩

/-- Three contents in chunks of two leave a slot that is allocated and cannot be reached. -/
theorem chunks_refine_array_tail :
    let calls : List (SlotTable.Call Nat) := [.push [1], .push [2], .replace 1 .evicted, .push [3]]
    ∃ slots : ChunkedSlots Nat,
      ((SlotTable.chunked (.create 2)).performAll calls).2 = .chunked slots ∧
      slots.size = 3 ∧ slots.load 1 = some .evicted ∧
      slots.load 3 = none ∧ (∀ slot, slots.replace 3 slot = none) ∧
      (ChunkedSlots.slotAt slots.allocated 1 1).isSome := by
  intro calls
  rcases chunks_refine_array Nat 2 calls with
    ⟨-, -, slots, inChunks, blockSize, size, load, beyond, -, -, inBounds⟩
  have here : slots.size = 3 := size
  rcases beyond 3 (Nat.le_of_eq here) with ⟨notLoaded, notReplaced⟩
  refine ⟨slots, inChunks, here, (load 1).2, notLoaded, notReplaced, ?_⟩
  have next := inBounds.next
  rw [here, blockSize] at next
  exact next

end SetForest
