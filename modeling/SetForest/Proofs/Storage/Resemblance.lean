import SetForest.Proofs.Lockstep
import SetForest.Proofs.Storage.Canonical

namespace SetForest

/-!
# Arenas that resemble each other

Two arenas may hold their contents in different ways, or one of them may have
dropped some, and still serve the same calls.  A `Resemblance` is a relation between
arenas that interning keeps, together with what it says of the answers.  If it is
exact, the answers are the same.  Otherwise the first arena may find a content
evicted where the second has it.

Arenas with the same holdings resemble each other exactly, whatever their layouts
are (`Resemblance.holdings`).  So do arenas that are also intact, which means that
nothing is evicted from them (`Resemblance.intact`).  If only the second is intact, the
two may still give the same indices to the same contents (`Resemblance.upToEviction`).
-/

/-- A relation between arenas that is kept by interning. -/
structure Resemblance (E : Type) [Key E] where
  alike : Arena E → Arena E → Prop
  /-- Whether the answers are the same without exception. -/
  exact : Prop
  size : ∀ x y, alike x y → x.size = y.size
  denotes : ∀ x y, alike x y → ∀ index content, x.Denotes index content ↔ y.Denotes index content
  get : ∀ x y, alike x y → ∀ index, x.get index = y.get index ∨
    ¬exact ∧ x.get index = .error (.evicted index)
  index_intern : ∀ x y, alike x y → ∀ content, (x.intern content).1.1 = (y.intern content).1.1
  cold_intern : ∀ x y, alike x y → ∀ content,
    (x.intern content).1.2 = .cold ↔ (y.intern content).1.2 = .cold
  exact_intern : ∀ x y, alike x y → exact → ∀ content,
    (x.intern content).1.2 = (y.intern content).1.2
  intern : ∀ x y, alike x y → ∀ content, alike (x.intern content).2 (y.intern content).2

namespace Resemblance

variable {E : Type} [Key E]

/-- The errors that the first of two arenas may give where the second does not. -/
def Excuses (sim : Resemblance E) (error : Error) : Prop :=
  ¬sim.exact ∧ ∃ index, error = .evicted index

theorem reads_get (sim : Resemblance E) {x y : Arena E} (alike : sim.alike x y) (index : Index) :
    Reads sim.Excuses (x.get index) (y.get index) := by
  rcases sim.get x y alike index with same | ⟨inexact, evicted⟩
  · exact Or.inl same
  · exact Or.inr ⟨.evicted index, evicted, inexact, index, rfl⟩

end Resemblance

namespace Arena

variable {E : Type} [Key E] {x y : Arena E}

/-- Whoever holds the same answers the same. -/
theorem get_congr (same : x.holdings = y.holdings) (index : Index) : x.get index = y.get index := by
  have slots : x.slot? index = y.slot? index := congrArg (Holdings.slot? · index) same
  have sizes : x.size = y.size := congrArg Holdings.size same
  rw [get_eq, get_eq, slots, sizes]

theorem isEvicted_congr (same : x.holdings = y.holdings) (index : Index) :
    x.isEvicted index = y.isEvicted index := by
  have slots : x.slot? index = y.slot? index := congrArg (Holdings.slot? · index) same
  have sizes : x.size = y.size := congrArg Holdings.size same
  rw [isEvicted_eq, isEvicted_eq, slots, sizes]

theorem intern_congr (left : x.WellFormed) (right : y.WellFormed) (same : x.holdings = y.holdings)
    (content : List E) : (x.intern content).1 = (y.intern content).1 ∧
      (x.intern content).2.holdings = (y.intern content).2.holdings := by
  have first := (holdings_intern left content).2
  have second := (holdings_intern right content).2
  rw [same] at first
  exact Prod.mk.inj (first.trans second.symm)

end Arena

namespace Resemblance

variable {E : Type} [Key E]

/-- Arenas in order that hold the same. -/
def holdings (E : Type) [Key E] : Resemblance E where
  alike := fun x y => x.WellFormed ∧ y.WellFormed ∧ x.holdings = y.holdings
  exact := True
  size := fun x y alike => congrArg Holdings.size alike.2.2
  denotes := by
    rintro x y ⟨-, -, same⟩ index content
    change x.holdings.indices.lookup content = some index ↔ _
    rw [same]
    rfl
  get := fun x y alike index => Or.inl (Arena.get_congr alike.2.2 index)
  index_intern := fun x y alike content =>
    congrArg Prod.fst (Arena.intern_congr alike.1 alike.2.1 alike.2.2 content).1
  cold_intern := by
    rintro x y ⟨left, right, same⟩ content
    rw [(Arena.intern_congr left right same content).1]
  exact_intern := fun x y alike _ content =>
    congrArg Prod.snd (Arena.intern_congr alike.1 alike.2.1 alike.2.2 content).1
  intern := fun x y alike content => ⟨(Arena.holdings_intern alike.1 content).1,
    (Arena.holdings_intern alike.2.1 content).1,
    (Arena.intern_congr alike.1 alike.2.1 alike.2.2 content).2⟩

end Resemblance

/-! ## Intact arenas -/

namespace Arena

variable {E : Type} [Key E] {arena : Arena E}

/-- Everything that was ever stored can be read. -/
def Intact (arena : Arena E) : Prop :=
  ∀ index content, arena.Denotes index content → arena.get index = .ok content

/-- Interning leaves nothing unreadable. -/
theorem Intact.intern (intact : arena.Intact) (canonical : arena.Canonical) (content : List E) :
    (arena.intern content).2.Intact := by
  classical
  intro index other denotes
  rw [canonical.denotes_intern_iff] at denotes
  by_cases same : other = content
  · rw [if_pos same] at denotes
    rw [← denotes, same]
    exact canonical.get_interned content
  · rw [if_neg same] at denotes
    exact canonical.get_intern_of_get (intact index other denotes) content

end Arena

namespace Resemblance

variable {E : Type} [Key E]

/-- Arenas that hold the same, and all of it. -/
def intact (E : Type) [Key E] : Resemblance E where
  alike := fun x y => (holdings E).alike x y ∧ y.Canonical ∧ y.Intact
  exact := True
  size := fun x y alike => (holdings E).size x y alike.1
  denotes := fun x y alike => (holdings E).denotes x y alike.1
  get := fun x y alike => (holdings E).get x y alike.1
  index_intern := fun x y alike => (holdings E).index_intern x y alike.1
  cold_intern := fun x y alike => (holdings E).cold_intern x y alike.1
  exact_intern := fun x y alike => (holdings E).exact_intern x y alike.1
  intern := fun x y alike content => ⟨(holdings E).intern x y alike.1 content,
    alike.2.1.intern content, alike.2.2.intern alike.2.1 content⟩

end Resemblance

/-! ## Arenas that give the same indices -/

namespace Arena

variable {E : Type} [Key E] {x y : Arena E}

/-- Canonical arenas that give the same indices to the same contents. -/
structure SameIndices (x y : Arena E) : Prop where
  left : x.Canonical
  right : y.Canonical
  size : x.size = y.size
  denotes : ∀ index content, x.Denotes index content ↔ y.Denotes index content

namespace SameIndices

/-- Both arenas know a content under one index, or it is new to both. -/
theorem intern_cases (same : x.SameIndices y) (content : List E) :
    (∃ index, x.Denotes index content ∧ y.Denotes index content) ∨
      (∀ index, ¬x.Denotes index content) ∧ ∀ index, ¬y.Denotes index content := by
  by_cases known : ∃ index, y.Denotes index content
  · rcases known with ⟨index, denotes⟩
    exact Or.inl ⟨index, (same.denotes index content).mpr denotes, denotes⟩
  · have new := not_exists.mp known
    exact Or.inr ⟨fun index denotes => new index ((same.denotes index content).mp denotes), new⟩

theorem index_intern (same : x.SameIndices y) (content : List E) :
    (x.intern content).1.1 = (y.intern content).1.1 := by
  rcases same.intern_cases content with ⟨index, left, right⟩ | ⟨left, right⟩
  · exact (same.left.intern_known left).1.trans (same.right.intern_known right).1.symm
  · exact ((same.left.intern_new left).1.trans same.size).trans (same.right.intern_new right).1.symm

theorem cold_intern (same : x.SameIndices y) (content : List E) :
    (x.intern content).1.2 = .cold ↔ (y.intern content).1.2 = .cold := by
  rcases same.intern_cases content with ⟨index, left, right⟩ | ⟨left, right⟩
  · exact iff_of_false (same.left.intern_known left).2.1 (same.right.intern_known right).2.1
  · exact iff_of_true (same.left.intern_new left).2.1 (same.right.intern_new right).2.1

theorem intern (same : x.SameIndices y) (content : List E) :
    (x.intern content).2.SameIndices (y.intern content).2 where
  left := same.left.intern content
  right := same.right.intern content
  size := by
    rcases same.intern_cases content with ⟨index, left, right⟩ | ⟨left, right⟩
    · rw [(same.left.intern_known left).2.2, (same.right.intern_known right).2.2, same.size]
    · rw [(same.left.intern_new left).2.2, (same.right.intern_new right).2.2, same.size]
  denotes := by
    classical
    intro index other
    rw [same.left.denotes_intern_iff, same.right.denotes_intern_iff, same.index_intern,
      same.denotes]

/-- One arena may store a content that has an index, and the other may leave it at that. -/
theorem intern_left (same : x.SameIndices y) {index : Index} {content : List E}
    (known : x.Denotes index content) : (x.intern content).2.SameIndices y where
  left := same.left.intern content
  right := same.right
  size := (same.left.intern_known known).2.2.trans same.size
  denotes := by
    classical
    intro place other
    rw [same.left.denotes_intern_iff, (same.left.intern_known known).1, ← same.denotes]
    by_cases here : other = content
    · rw [if_pos here, here]
      constructor
      · rintro rfl
        exact known
      · exact fun denotes => Option.some.inj (known.symm.trans denotes)
    · rw [if_neg here]

/-- One arena may drop a content, and the other may keep it. -/
theorem evict_left (same : x.SameIndices y) {index : Index} {resident : Bool} {after : Arena E}
    (evicted : x.evict index = .ok (resident, after)) : after.SameIndices y where
  left := (same.left.evict evicted).1
  right := same.right
  size := (congrArg Holdings.size (same.left.evict evicted).2).trans same.size
  denotes := fun place content =>
    (same.left.denotes_evict_iff evicted place content).trans (same.denotes place content)

/-- What can be read in an intact arena can be read in the other, unless it is dropped
there. -/
theorem get (same : x.SameIndices y) (intact : y.Intact) (index : Index) :
    x.get index = y.get index ∨ x.get index = .error (.evicted index) := by
  by_cases inside : index < y.size
  · rcases same.right.exists_denotes inside with ⟨content, denotes⟩
    rcases same.left.get_of_denotes ((same.denotes index content).mpr denotes) with read | evicted
    · exact Or.inl (read.trans (intact index content denotes).symm)
    · exact Or.inr evicted
  · have outside := Nat.le_of_not_lt inside
    refine Or.inl ?_
    rw [same.right.get_of_le outside, same.left.get_of_le (same.size ▸ outside), same.size]

end SameIndices

end Arena

namespace Resemblance

variable {E : Type} [Key E]

/-- Arenas that give the same indices to the same contents.  The second is intact. -/
def upToEviction (E : Type) [Key E] : Resemblance E where
  alike := fun x y => x.SameIndices y ∧ y.Intact
  exact := False
  size := fun _ _ alike => alike.1.size
  denotes := fun _ _ alike => alike.1.denotes
  get := fun _ _ alike index => (alike.1.get alike.2 index).imp id fun evicted => ⟨id, evicted⟩
  index_intern := fun _ _ alike => alike.1.index_intern
  cold_intern := fun _ _ alike => alike.1.cold_intern
  exact_intern := fun _ _ _ isExact => isExact.elim
  intern := fun _ _ alike content => ⟨alike.1.intern content, alike.2.intern alike.1.right content⟩

end Resemblance

end SetForest
