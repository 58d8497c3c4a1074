import Mathlib.Data.Finset.Card
import Mathlib.Data.Finset.Range
import SetForest.Proofs.Storage.Canonical

namespace SetForest

/-!
# The number of evicted slots

Storage counts nothing by itself.  It reports of each call what has become of one slot:
whether a new one was added, whether an evicted one was restored, and whether one was
resident until it was evicted.  These reports are all that is needed to keep track of
the number of slots, and of how many of them are evicted.
-/

namespace Arena

variable {E : Type} [Key E]

/-- The indices whose content was dropped. -/
def evicted (arena : Arena E) : Finset Index :=
  (Finset.range arena.size).filter fun index => arena.isEvicted index = .ok true

theorem isEvicted_eq_true_iff {arena : Arena E} {index : Index} :
    arena.isEvicted index = .ok true ↔ arena.slot? index = some .evicted := by
  rw [isEvicted_eq]
  cases arena.slot? index with
  | none => simp
  | some slot => cases slot <;> simp [Slot.isEvicted]

namespace Canonical

variable {arena after : Arena E} {index : Index}

theorem mem_evicted_iff (canonical : arena.Canonical) :
    index ∈ arena.evicted ↔ arena.holdings.slot? index = some .evicted := by
  rw [evicted, Finset.mem_filter, Finset.mem_range, isEvicted_eq_true_iff]
  constructor
  · exact And.right
  · intro marked
    exact ⟨(canonical.holdings.inUse index).mp (Option.isSome_of_eq_some marked), marked⟩

/-- A new content adds a slot. -/
theorem size_intern (canonical : arena.Canonical) (content : List E) :
    (arena.intern content).2.size =
      arena.size + if (arena.intern content).1.2 = .cold then 1 else 0 := by
  by_cases known : ∃ place, arena.Denotes place content
  · rcases known with ⟨place, denotes⟩
    rcases canonical.intern_known denotes with ⟨-, notCold, size⟩
    rw [if_neg notCold, size]
    rfl
  · rcases canonical.intern_new (not_exists.mp known) with ⟨-, cold, size⟩
    rw [if_pos cold, size]

/-- A content that is restored leaves the evicted ones, and any other leaves them alone. -/
theorem evicted_intern (canonical : arena.Canonical) (content : List E) :
    (arena.intern content).2.evicted =
        (if (arena.intern content).1.2 = .restored then
          arena.evicted.erase (arena.intern content).1.1 else arena.evicted) ∧
      ((arena.intern content).1.2 = .restored → (arena.intern content).1.1 ∈ arena.evicted) := by
  have later := canonical.intern content
  have slots := canonical.holdings_intern_snd content
  rw [canonical.intern_fst content]
  simp only [canonical.mem_evicted_iff]
  cases known : arena.holdings.indices.lookup content with
  | none =>
      rw [Holdings.intern_new arena.holdings known] at slots ⊢
      have notRestored : Interning.cold ≠ .restored := by decide
      refine ⟨?_, fun restored => absurd restored notRestored⟩
      rw [if_neg notRestored]
      ext place
      rw [later.mem_evicted_iff, canonical.mem_evicted_iff, slots]
      by_cases last : place = arena.holdings.size
      · have unused : arena.holdings.slot? place = none := by
          rw [← Option.not_isSome_iff_eq_none, canonical.holdings.inUse, last]
          exact Nat.lt_irrefl _
        rw [unused]
        simp [Holdings.append, Holdings.write, last]
      · simp [Holdings.append, Holdings.write, last]
  | some index =>
      by_cases wasEvicted : arena.holdings.slot? index = some .evicted
      · rw [Holdings.intern_evicted arena.holdings known wasEvicted] at slots ⊢
        refine ⟨?_, fun _ => wasEvicted⟩
        rw [if_pos rfl]
        ext place
        rw [later.mem_evicted_iff, Finset.mem_erase, canonical.mem_evicted_iff, slots]
        by_cases here : place = index
        · simp [Holdings.write, here]
        · simp [Holdings.write, here]
      · rw [Holdings.intern_known arena.holdings known wasEvicted] at slots ⊢
        have notRestored : Interning.hit ≠ .restored := by decide
        refine ⟨?_, fun restored => absurd restored notRestored⟩
        rw [if_neg notRestored]
        ext place
        rw [later.mem_evicted_iff, canonical.mem_evicted_iff, slots]

/-- What was restored is not evicted any more, and nothing else has changed. -/
theorem card_evicted_intern (canonical : arena.Canonical) (content : List E) :
    arena.evicted.card = (arena.intern content).2.evicted.card +
      if (arena.intern content).1.2 = .restored then 1 else 0 := by
  rcases canonical.evicted_intern content with ⟨evicted, restored⟩
  rw [evicted]
  split
  · next isRestored => exact (Finset.card_erase_add_one (restored isRestored)).symm
  · rfl

/-- An eviction reports whether the slot was resident. -/
theorem resident_of_evict (canonical : arena.Canonical) {resident : Bool}
    (answer : arena.evict index = .ok (resident, after)) :
    arena.isEvicted index = .ok (!resident) := by
  rcases holdings_evict canonical.wellFormed index with
    ⟨-, refused⟩ | ⟨previous, marked, slot, reported, -, -⟩
  · rw [refused] at answer
    cases answer
  · rw [reported] at answer
    cases answer
    rw [isEvicted_eq, slot, Bool.not_not]

/-- The slot of an eviction is evicted from then on. -/
theorem evicted_evict (canonical : arena.Canonical) {resident : Bool}
    (answer : arena.evict index = .ok (resident, after)) :
    after.evicted = insert index arena.evicted := by
  rcases canonical.evict answer with ⟨later, written⟩
  ext place
  rw [later.mem_evicted_iff, Finset.mem_insert, canonical.mem_evicted_iff, written]
  by_cases here : place = index
  · simp [Holdings.write, here]
  · simp [Holdings.write, here]

theorem size_evict (canonical : arena.Canonical) {resident : Bool}
    (answer : arena.evict index = .ok (resident, after)) : after.size = arena.size := by
  change after.holdings.size = arena.holdings.size
  rw [(canonical.evict answer).2]
  rfl

theorem card_evicted_evict (canonical : arena.Canonical) {resident : Bool}
    (answer : arena.evict index = .ok (resident, after)) :
    after.evicted.card = arena.evicted.card + if resident then 1 else 0 := by
  have reported := canonical.resident_of_evict answer
  rw [canonical.evicted_evict answer]
  cases resident with
  | true =>
      refine Finset.card_insert_of_notMem ?_
      rw [canonical.mem_evicted_iff]
      intro marked
      have evicted := isEvicted_eq_true_iff.mpr marked
      rw [reported] at evicted
      cases evicted
  | false =>
      have member := canonical.mem_evicted_iff.mpr (isEvicted_eq_true_iff.mp reported)
      rw [Finset.insert_eq_self.mpr member]
      rfl

end Canonical

end Arena

end SetForest
