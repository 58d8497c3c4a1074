import SetForest.Proofs.Storage.Chunks
import SetForest.Storage.Arena

namespace SetForest

/-!
# What an arena holds

The arenas differ in how they keep their slots, and a caller cannot tell them
apart.  `Holdings` is what all of them show: the table from contents to
indices, the number of indices handed out, and the slot at each index.
Interning and evicting are defined on holdings without any layout, and every
arena whose layout is in order follows these definitions step by step
(`Arena.holdings_intern`, `Arena.holdings_evict`).

Statements about storage are therefore proved once, about holdings.
-/

variable {E : Type}

namespace SlotTable

/-- The rows of a chunked table are in order.  An array has nothing to keep. -/
def WellFormed : SlotTable E → Prop
  | plain _ => True
  | chunked slots => slots.WellFormed

theorem load_push {table : SlotTable E} (wellFormed : table.WellFormed) (content : List E)
    (index : Index) :
    (table.push content).2.load index =
      if index = table.size then some (.resident content) else table.load index := by
  cases table with
  | plain slots => exact Array.getElem?_push
  | chunked slots => exact ChunkedSlots.WellFormed.load_push wellFormed content index

theorem wellFormed_push {table : SlotTable E} (wellFormed : table.WellFormed)
    (content : List E) : (table.push content).2.WellFormed := by
  cases table with
  | plain slots => trivial
  | chunked slots => exact ChunkedSlots.WellFormed.push wellFormed content

/-- A new content gets the number of slots as its index, and adds one slot. -/
theorem size_push (table : SlotTable E) (content : List E) :
    (table.push content).1 = table.size ∧ (table.push content).2.size = table.size + 1 := by
  cases table with
  | plain slots => exact ⟨rfl, Array.size_push _⟩
  | chunked slots => exact ⟨rfl, rfl⟩

/-- Overwriting answers what could be loaded before. -/
theorem replace_fst (table : SlotTable E) (index : Index) (slot : Slot E) :
    (table.replace index slot).map Prod.fst = table.load index := by
  cases table with
  | plain slots =>
      simp only [replace, load, Option.map_map]
      exact Option.map_id_apply
  | chunked slots =>
      simp only [replace, load, ChunkedSlots.replace_eq, Option.map_map]
      exact Option.map_id_apply

variable {table after : SlotTable E} {index : Index} {slot previous : Slot E}

/-- What cannot be loaded cannot be overwritten. -/
theorem replace_eq_none (loaded : table.load index = none) (slot : Slot E) :
    table.replace index slot = none := by
  rw [← replace_fst table index slot] at loaded
  exact Option.map_eq_none_iff.mp loaded

/-- Overwriting changes one slot, and neither their number nor the layout. -/
theorem of_replace (wellFormed : table.WellFormed)
    (replaced : table.replace index slot = some (previous, after)) :
    after.WellFormed ∧ after.size = table.size ∧
      ∀ other, after.load other = if other = index then some slot else table.load other := by
  cases table with
  | plain slots =>
      rcases Option.map_eq_some_iff.mp replaced with ⟨found, present, same⟩
      rcases (Prod.mk.inj same).2 with rfl
      refine ⟨trivial, Array.size_setIfInBounds, ?_⟩
      intro other
      have inside := (Array.getElem?_eq_some_iff.mp present).1
      simp only [load, Array.getElem?_setIfInBounds]
      by_cases here : other = index
      · subst other
        simp [inside]
      · have different : ¬index = other := fun equal => here equal.symm
        rw [if_neg different, if_neg here]
  | chunked slots =>
      rcases Option.map_eq_some_iff.mp replaced with ⟨⟨held, written⟩, present, same⟩
      rcases (Prod.mk.inj same).2 with rfl
      exact ⟨ChunkedSlots.WellFormed.replace wellFormed present,
        ChunkedSlots.size_replace present, ChunkedSlots.load_replace present⟩

/-- What can be loaded can be overwritten. -/
theorem exists_replace (slot : Slot E) (loaded : table.load index = some previous) :
    ∃ after, table.replace index slot = some (previous, after) := by
  rw [← replace_fst table index slot] at loaded
  rcases Option.map_eq_some_iff.mp loaded with ⟨⟨held, after⟩, replaced, same⟩
  exact ⟨after, by rw [replaced, ← same]⟩

end SlotTable

variable [Key E]

/-- The contents of an arena with their indices, and what its slots hold. -/
structure Holdings (E : Type) [Key E] where
  indices : Table (List E) Index
  size : Nat
  slot? : Index → Option (Slot E)

namespace Holdings

theorem ext {first second : Holdings E} (indices : first.indices = second.indices)
    (size : first.size = second.size) (slot : ∀ index, first.slot? index = second.slot? index) :
    first = second := by
  cases first
  cases second
  simp only at indices size slot
  rw [indices, size, funext slot]

/-- Nothing is held yet. -/
def empty : Holdings E where
  indices := .empty
  size := 0
  slot? := fun _ => none

/-- Put something into one slot. -/
def write (holdings : Holdings E) (index : Index) (slot : Slot E) : Holdings E :=
  { holdings with
    slot? := fun other => if other = index then some slot else holdings.slot? other }

/-- Give a content the next index. -/
def append (holdings : Holdings E) (content : List E) : Holdings E where
  indices := holdings.indices.store content holdings.size
  size := holdings.size + 1
  slot? := (holdings.write holdings.size (.resident content)).slot?

/-- Find the index of a content, storing the content first if it is not resident. -/
def intern (holdings : Holdings E) (content : List E) : (Index × Interning) × Holdings E :=
  match holdings.indices.lookup content with
  | none => ((holdings.size, .cold), holdings.append content)
  | some index =>
    match holdings.slot? index with
    | some .evicted => ((index, .restored), holdings.write index (.resident content))
    | _ => ((index, .hit), holdings)

theorem intern_new (holdings : Holdings E) {content : List E}
    (new : holdings.indices.lookup content = none) :
    holdings.intern content = ((holdings.size, .cold), holdings.append content) := by
  simp only [intern, new]

theorem intern_evicted (holdings : Holdings E) {content : List E} {index : Index}
    (known : holdings.indices.lookup content = some index)
    (evicted : holdings.slot? index = some .evicted) :
    holdings.intern content =
      ((index, .restored), holdings.write index (.resident content)) := by
  simp only [intern, known, evicted]

theorem intern_known (holdings : Holdings E) {content : List E} {index : Index}
    (known : holdings.indices.lookup content = some index)
    (held : holdings.slot? index ≠ some .evicted) :
    holdings.intern content = ((index, .hit), holdings) := by
  simp only [intern, known]

end Holdings

namespace Arena

/-- The indices of all contents that an arena has received. -/
def indices : Arena E → Table (List E) Index
  | indexed arena => arena.indices
  | keyed arena => arena.indices

/-- The slots of an arena are laid out as their kind of storage wants them. -/
def WellFormed : Arena E → Prop
  | indexed arena => arena.slots.WellFormed
  | keyed _ => True

/-- What a caller can tell about an arena. -/
def holdings (arena : Arena E) : Holdings E where
  indices := arena.indices
  size := arena.size
  slot? := arena.slot?

theorem wellFormed_create (strategy : Strategy) (blockSize : Nat) :
    (create strategy blockSize : Arena E).WellFormed := by
  cases strategy with
  | unshared => trivial
  | locked => exact ChunkedSlots.wellFormed_create blockSize
  | concurrent => trivial

/-- A new arena holds nothing, whatever its strategy and its block size are. -/
theorem holdings_create (strategy : Strategy) (blockSize : Nat) :
    (create strategy blockSize : Arena E).holdings = .empty := by
  refine Holdings.ext ?_ ?_ ?_
  · cases strategy <;> rfl
  · cases strategy <;> rfl
  · intro index
    cases strategy with
    | unshared => exact Array.getElem?_empty
    | locked =>
        have unused : ¬index < (ChunkedSlots.create blockSize : ChunkedSlots E).size :=
          Nat.not_lt_zero index
        change (ChunkedSlots.create blockSize : ChunkedSlots E).load index = none
        rw [ChunkedSlots.load_eq, if_neg unused]
    | concurrent => exact Table.lookup_empty index

end Arena

namespace IndexedArena

variable (arena : IndexedArena E)

/-- An evicted content goes back to its slot, and no other content is touched. -/
theorem intern_restores (wellFormed : arena.slots.WellFormed) {content : List E} {index : Index}
    (known : arena.indices.lookup content = some index)
    (evicted : arena.slots.load index = some .evicted) :
    ∃ slots, arena.intern content = ((index, .restored), { arena with slots }) ∧
      slots.WellFormed ∧ slots.size = arena.slots.size ∧
      ∀ other, slots.load other =
        if other = index then some (.resident content) else arena.slots.load other := by
  rcases SlotTable.exists_replace (.resident content) evicted with ⟨slots, replaced⟩
  refine ⟨slots, ?_, SlotTable.of_replace wellFormed replaced⟩
  simp only [intern, known, revive, evicted, replaced]

theorem intern_keeps {content : List E} {index : Index}
    (known : arena.indices.lookup content = some index)
    (held : arena.slots.load index ≠ some .evicted) :
    arena.intern content = ((index, .hit), arena) := by
  simp only [intern, known, revive]

end IndexedArena

namespace KeyedArena

variable (arena : KeyedArena E)

theorem lookup_slots_store (index : Index) (slot : Slot E) (other : Index) :
    (arena.slots.store index slot).lookup other =
      if other = index then some slot else arena.slots.lookup other := by
  rw [Table.lookup_store]
  by_cases here : other = index
  · rw [if_pos here.symm, if_pos here]
  · rw [if_neg (fun equal => here equal.symm), if_neg here]

end KeyedArena

namespace Arena

/-- Interning keeps the layout in order and does to the holdings what it says. -/
theorem holdings_intern {arena : Arena E} (wellFormed : arena.WellFormed) (content : List E) :
    (arena.intern content).2.WellFormed ∧
      ((arena.intern content).1, (arena.intern content).2.holdings) =
        arena.holdings.intern content := by
  cases arena with
  | indexed arena =>
      cases known : arena.indices.lookup content with
      | none =>
          rcases SlotTable.size_push arena.slots content with ⟨index, size⟩
          have load := SlotTable.load_push wellFormed content
          rw [Holdings.intern_new (indexed arena).holdings known]
          simp only [intern, IndexedArena.intern, known, index]
          exact ⟨SlotTable.wellFormed_push wellFormed content,
            congrArg (Prod.mk (arena.size, Interning.cold)) (Holdings.ext rfl size load)⟩
      | some index =>
          by_cases evicted : arena.slots.load index = some .evicted
          · rcases arena.intern_restores wellFormed known evicted with
              ⟨slots, interned, ordered, size, load⟩
            rw [Holdings.intern_evicted (indexed arena).holdings known evicted]
            simp only [intern, interned]
            exact ⟨ordered, congrArg (Prod.mk (index, Interning.restored))
              (Holdings.ext rfl size load)⟩
          · rw [Holdings.intern_known (indexed arena).holdings known evicted]
            simp only [intern, arena.intern_keeps known evicted]
            exact ⟨wellFormed, trivial⟩
  | keyed arena =>
      refine ⟨trivial, ?_⟩
      cases known : arena.indices.lookup content with
      | none =>
          rw [Holdings.intern_new (keyed arena).holdings known]
          simp only [intern, KeyedArena.intern, known]
          exact congrArg (Prod.mk (arena.size, Interning.cold))
            (Holdings.ext rfl rfl (arena.lookup_slots_store arena.size (.resident content)))
      | some index =>
          by_cases evicted : arena.slots.lookup index = some .evicted
          · rw [Holdings.intern_evicted (keyed arena).holdings known evicted]
            simp only [intern, KeyedArena.intern, known, KeyedArena.revive, evicted]
            exact congrArg (Prod.mk (index, Interning.restored))
              (Holdings.ext rfl rfl (arena.lookup_slots_store index (.resident content)))
          · rw [Holdings.intern_known (keyed arena).holdings known evicted]
            simp only [intern, KeyedArena.intern, known, KeyedArena.revive]

/-- Evicting fails where there is no slot.  Elsewhere it keeps the layout in
order, marks the slot and leaves everything else as it is. -/
theorem holdings_evict {arena : Arena E} (wellFormed : arena.WellFormed) (index : Index) :
    (arena.slot? index = none ∧ arena.evict index = .error (.outOfRange index arena.size)) ∨
      ∃ previous after, arena.slot? index = some previous ∧
        arena.evict index = .ok (!previous.isEvicted, after) ∧ after.WellFormed ∧
        after.holdings = arena.holdings.write index .evicted := by
  cases arena with
  | indexed arena =>
      cases loaded : arena.slots.load index with
      | none =>
          have refused := SlotTable.replace_eq_none loaded .evicted
          refine Or.inl ⟨loaded, ?_⟩
          simp only [evict, IndexedArena.evict?, refused, Option.map_none]
      | some previous =>
          rcases SlotTable.exists_replace .evicted loaded with ⟨slots, replaced⟩
          rcases SlotTable.of_replace wellFormed replaced with ⟨ordered, size, load⟩
          refine Or.inr ⟨previous, indexed { arena with slots }, loaded, ?_, ordered,
            Holdings.ext rfl size load⟩
          simp only [evict, IndexedArena.evict?, replaced, Option.map_some]
  | keyed arena =>
      cases found : arena.slots.lookup index with
      | none =>
          refine Or.inl ⟨found, ?_⟩
          simp only [evict, KeyedArena.evict?, found, Option.map_none]
      | some previous =>
          refine Or.inr ⟨previous,
            keyed { arena with slots := arena.slots.store index .evicted }, found, ?_, trivial,
            Holdings.ext rfl rfl (arena.lookup_slots_store index .evicted)⟩
          simp only [evict, KeyedArena.evict?, found, Option.map_some]

end Arena

end SetForest
