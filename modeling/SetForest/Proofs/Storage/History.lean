import SetForest.Proofs.Storage.Canonical

namespace SetForest.Arena

/-!
# Histories of storage

A history is a sequence of contents to store and of indices to evict.  What an
arena knows at the end of one depends on the contents alone: the indices are
the positions in the list of distinct contents in the order of their first
appearance.  Evictions, in any number and at any time, leave that list as it
is and only decide whether a known content counts as restored.
-/

variable {E : Type} [Key E]

/-- What may be asked of an arena to change what it holds. -/
inductive Call (E : Type) where
  | intern (content : List E)
  | evict (index : Index)
deriving DecidableEq, Repr

/-- The content that a call hands in. -/
def Call.content? : Call E → Option (List E)
  | intern content => some content
  | evict _ => none

/-- Carry out one call.  An eviction that fails changes nothing. -/
def perform (arena : Arena E) : Call E → Arena E
  | .intern content => (arena.intern content).2
  | .evict index =>
    match arena.evict index with
    | .ok (_, after) => after
    | .error _ => arena

/-- Carry out calls in turn. -/
def performAll (arena : Arena E) (calls : List (Call E)) : Arena E :=
  calls.foldl perform arena

/-- The contents handed in by a history, in its order. -/
def received (calls : List (Call E)) : List (List E) :=
  calls.filterMap Call.content?

theorem performAll_append (arena : Arena E) (first second : List (Call E)) :
    arena.performAll (first ++ second) = (arena.performAll first).performAll second :=
  List.foldl_append

namespace Canonical

variable {arena : Arena E} {content : List E} {index : Index}

theorem perform (canonical : arena.Canonical) (call : Call E) : (arena.perform call).Canonical := by
  cases call with
  | intern content => exact canonical.intern content
  | evict index =>
      simp only [Arena.perform]
      split
      · next evicted => exact (canonical.evict evicted).1
      · exact canonical

theorem denotes_perform (canonical : arena.Canonical) (denotes : arena.Denotes index content)
    (call : Call E) : (arena.perform call).Denotes index content := by
  cases call with
  | intern other => exact canonical.denotes_intern_of_denotes denotes other
  | evict other =>
      simp only [Arena.perform]
      split
      · next evicted => exact (canonical.denotes_evict_iff evicted index content).mpr denotes
      · exact denotes

theorem performAll (canonical : arena.Canonical) (calls : List (Call E)) :
    (arena.performAll calls).Canonical := by
  induction calls generalizing arena with
  | nil => exact canonical
  | cons call rest ih => exact ih (canonical.perform call)

/-- What an index denotes is settled once and for all. -/
theorem denotes_performAll (canonical : arena.Canonical) (denotes : arena.Denotes index content)
    (calls : List (Call E)) : (arena.performAll calls).Denotes index content := by
  induction calls generalizing arena with
  | nil => exact denotes
  | cons call rest ih =>
      exact ih (canonical.perform call) (canonical.denotes_perform denotes call)

/-- Stored at any two times, two contents get one index only if they are equal. -/
theorem intern_index_eq_iff (canonical : arena.Canonical) (content other : List E)
    (calls : List (Call E)) :
    (((arena.intern content).2.performAll calls).intern other).1.1 = (arena.intern content).1.1 ↔
      other = content := by
  have stored := canonical.intern content
  have between := stored.performAll calls
  have denotes := stored.denotes_performAll (canonical.denotes_interned content) calls
  have kept := between.denotes_intern_of_denotes denotes other
  have answered := between.denotes_interned other
  constructor
  · intro same
    rw [same] at answered
    exact (between.intern other).unique answered kept
  · rintro rfl
    exact Option.some.inj (answered.symm.trans kept)

end Canonical

/-! ## Contents in the order of their first appearance -/

section Appearance

variable {α : Type} [BEq α] [LawfulBEq α]

theorem getElem?_idxOf {values : List α} {value : α} (member : value ∈ values) :
    values[values.idxOf value]? = some value := by
  have inside := List.idxOf_lt_length_of_mem member
  have found : (values[values.idxOf value] == value) = true :=
    @List.findIdx_getElem _ (· == value) values inside
  rw [List.getElem?_eq_getElem inside]
  exact congrArg some (beq_iff_eq.mp found)

omit [BEq α] [LawfulBEq α] in
theorem getElem?_concat_eq_some_iff (values : List α) (last value : α) (place : Nat) :
    (values ++ [last])[place]? = some value ↔
      values[place]? = some value ∨ (place = values.length ∧ value = last) := by
  rcases Nat.lt_trichotomy place values.length with before | rfl | after
  · rw [List.getElem?_append_left before]
    simp [Nat.ne_of_lt before]
  · simp [eq_comm]
  · rw [List.getElem?_append_right (Nat.le_of_lt after),
      List.getElem?_eq_none (Nat.le_of_lt after)]
    simp [Nat.ne_of_gt after, Nat.sub_ne_zero_of_lt after]

/-- A value that was seen adds nothing, and a new one comes last. -/
theorem eraseDups_concat (values : List α) (value : α) :
    (values ++ [value]).eraseDups =
      if value ∈ values then values.eraseDups else values.eraseDups ++ [value] := by
  rw [List.eraseDups_append]
  by_cases seen : value ∈ values
  · simp [List.removeAll, seen]
  · simp [List.removeAll, seen, List.eraseDups_cons]

end Appearance

variable [DecidableEq E]

/-- The contents received so far, each once, stand at the indices in order. -/
structure Records (arena : Arena E) (received : List (List E)) : Prop where
  canonical : arena.Canonical
  size : arena.size = received.eraseDups.length
  denotes_iff : ∀ index content,
    arena.Denotes index content ↔ received.eraseDups[index]? = some content

theorem records_create (strategy : Strategy) (blockSize : Nat) :
    (create strategy blockSize : Arena E).Records [] where
  canonical := canonical_create strategy blockSize
  size := congrArg Holdings.size (holdings_create strategy blockSize)
  denotes_iff := by
    intro index content
    have nothing : (create strategy blockSize : Arena E).indices = .empty :=
      congrArg Holdings.indices (holdings_create strategy blockSize)
    simp [Denotes, nothing]

namespace Records

variable {arena : Arena E} {received : List (List E)} {content : List E}

/-- A content that was received has its place as its index. -/
theorem denotes_of_mem (records : arena.Records received) (seen : content ∈ received) :
    arena.Denotes (received.eraseDups.idxOf content) content :=
  (records.denotes_iff _ _).mpr (getElem?_idxOf (List.mem_eraseDups.mpr seen))

/-- A content that was never received has no index. -/
theorem lookup_of_not_mem (records : arena.Records received) (new : content ∉ received) :
    arena.holdings.indices.lookup content = none := by
  cases known : arena.indices.lookup content with
  | none => exact known
  | some index =>
      have place := (records.denotes_iff index content).mp known
      exact absurd (List.mem_eraseDups.mp (List.mem_of_getElem? place)) new

/-- What interning answers and leaves behind, by what is known of the content. -/
theorem intern_cases (records : arena.Records received) (content : List E) :
    (content ∉ received ∧ arena.holdings.intern content =
        ((received.eraseDups.length, .cold), arena.holdings.append content)) ∨
      (content ∈ received ∧
        arena.slot? (received.eraseDups.idxOf content) = some .evicted ∧
        arena.holdings.intern content =
          ((received.eraseDups.idxOf content, .restored),
            arena.holdings.write (received.eraseDups.idxOf content) (.resident content))) ∨
      (content ∈ received ∧
        arena.slot? (received.eraseDups.idxOf content) = some (.resident content) ∧
        arena.holdings.intern content =
          ((received.eraseDups.idxOf content, .hit), arena.holdings)) := by
  by_cases seen : content ∈ received
  · have place := records.denotes_of_mem seen
    rcases records.canonical.holdings.faithful content _ place with resident | evicted
    · have held : arena.holdings.slot? (received.eraseDups.idxOf content) ≠ some .evicted := by
        rw [resident]
        simp
      exact Or.inr (Or.inr ⟨seen, resident, Holdings.intern_known arena.holdings place held⟩)
    · exact Or.inr (Or.inl ⟨seen, evicted, Holdings.intern_evicted arena.holdings place evicted⟩)
  · refine Or.inl ⟨seen, ?_⟩
    rw [Holdings.intern_new arena.holdings (records.lookup_of_not_mem seen), ← records.size]
    rfl

/-- The index of a content is its place in the order of first appearance. -/
theorem intern_index (records : arena.Records received) (content : List E) :
    (arena.intern content).1.1 = received.eraseDups.idxOf content := by
  rw [records.canonical.intern_fst content]
  rcases records.intern_cases content with ⟨new, cold⟩ | ⟨_, _, restored⟩ | ⟨_, _, hit⟩
  · rw [cold, List.idxOf_eq_length (fun member => new (List.mem_eraseDups.mp member))]
  · rw [restored]
  · rw [hit]

/-- A content is new exactly at its first appearance. -/
theorem intern_cold_iff (records : arena.Records received) (content : List E) :
    (arena.intern content).1.2 = .cold ↔ content ∉ received := by
  rw [records.canonical.intern_fst content]
  rcases records.intern_cases content with ⟨new, cold⟩ | ⟨seen, _, restored⟩ | ⟨seen, _, hit⟩
  · simp [cold, new]
  · simp [restored, seen]
  · simp [hit, seen]

/-- A content is restored exactly when the slot at its index is evicted. -/
theorem intern_restored_iff (records : arena.Records received) (content : List E) :
    (arena.intern content).1.2 = .restored ↔
      content ∈ received ∧ arena.isEvicted (received.eraseDups.idxOf content) = .ok true := by
  rw [records.canonical.intern_fst content, isEvicted_eq]
  rcases records.intern_cases content with ⟨new, cold⟩ | ⟨seen, slot, restored⟩ | ⟨seen, slot, hit⟩
  · simp [cold, new]
  · simp [restored, seen, slot, Slot.isEvicted]
  · simp [hit, slot, Slot.isEvicted]

/-- A content is met again exactly when the slot at its index is not evicted. -/
theorem intern_hit_iff (records : arena.Records received) (content : List E) :
    (arena.intern content).1.2 = .hit ↔
      content ∈ received ∧ arena.isEvicted (received.eraseDups.idxOf content) = .ok false := by
  rw [records.canonical.intern_fst content, isEvicted_eq]
  rcases records.intern_cases content with ⟨new, cold⟩ | ⟨seen, slot, restored⟩ | ⟨seen, slot, hit⟩
  · simp [cold, new]
  · simp [restored, slot, Slot.isEvicted]
  · simp [hit, seen, slot, Slot.isEvicted]

theorem size_intern (records : arena.Records received) (content : List E) :
    (arena.intern content).2.size = (received ++ [content]).eraseDups.length := by
  have size : (arena.intern content).2.size = (arena.holdings.intern content).2.size :=
    congrArg Holdings.size (records.canonical.holdings_intern_snd content)
  rw [size, eraseDups_concat]
  rcases records.intern_cases content with ⟨new, cold⟩ | ⟨seen, _, restored⟩ | ⟨seen, _, hit⟩
  · rw [cold, if_neg new, List.length_append, ← records.size]
    rfl
  · rw [restored, if_pos seen, ← records.size]
    rfl
  · rw [hit, if_pos seen, ← records.size]
    rfl

theorem intern (records : arena.Records received) (content : List E) :
    (arena.intern content).2.Records (received ++ [content]) := by
  refine ⟨records.canonical.intern content, records.size_intern content, ?_⟩
  intro place other
  have stored := records.canonical.denotes_interned content
  rw [records.intern_index content] at stored
  rw [eraseDups_concat]
  by_cases seen : content ∈ received
  · rw [if_pos seen, ← records.denotes_iff]
    constructor
    · intro denotes
      rcases records.canonical.denotes_of_denotes_intern denotes with same | old
      · have here : place = received.eraseDups.idxOf content :=
          Option.some.inj (denotes.symm.trans (same ▸ stored))
        rw [here, same]
        exact records.denotes_of_mem seen
      · exact old
    · intro old
      exact records.canonical.denotes_intern_of_denotes old content
  · rw [if_neg seen, getElem?_concat_eq_some_iff, ← records.denotes_iff]
    rw [List.idxOf_eq_length (fun member => seen (List.mem_eraseDups.mp member))] at stored
    constructor
    · intro denotes
      rcases records.canonical.denotes_of_denotes_intern denotes with same | old
      · exact Or.inr ⟨Option.some.inj (denotes.symm.trans (same ▸ stored)), same⟩
      · exact Or.inl old
    · rintro (old | ⟨rfl, rfl⟩)
      · exact records.canonical.denotes_intern_of_denotes old content
      · exact stored

theorem evict (records : arena.Records received) {index : Index} {resident : Bool}
    {after : Arena E} (evicted : arena.evict index = .ok (resident, after)) :
    after.Records received := by
  rcases records.canonical.evict evicted with ⟨canonical, written⟩
  refine ⟨canonical, ?_, ?_⟩
  · exact (congrArg Holdings.size written).trans records.size
  · intro place content
    rw [records.canonical.denotes_evict_iff evicted, records.denotes_iff]

/-- One call more: only a stored content can be new. -/
theorem perform (records : arena.Records received) (call : Call E) :
    (arena.perform call).Records (received ++ call.content?.toList) := by
  cases call with
  | intern content => exact records.intern content
  | evict index =>
      simp only [Call.content?, Option.toList_none, List.append_nil, Arena.perform]
      split
      · next evicted => exact records.evict evicted
      · exact records

theorem performAll (records : arena.Records received) (calls : List (Call E)) :
    (arena.performAll calls).Records (received ++ Arena.received calls) := by
  induction calls generalizing arena received with
  | nil => simpa [Arena.performAll, Arena.received] using records
  | cons call rest ih =>
      have later := ih (records.perform call)
      rw [List.append_assoc] at later
      have contents :
          call.content?.toList ++ Arena.received rest = Arena.received (call :: rest) := by
        cases call <;> rfl
      rw [contents] at later
      exact later

/-- An index below the number of contents is read as its content or as evicted. -/
theorem get_of_getElem? (records : arena.Records received) {index : Index}
    (place : received.eraseDups[index]? = some content) :
    arena.get index = .ok content ∨ arena.get index = .error (.evicted index) :=
  records.canonical.get_of_denotes ((records.denotes_iff index content).mpr place)

end Records

/-- Every history of a new arena records the contents that it received. -/
theorem records_performAll (strategy : Strategy) (blockSize : Nat) (calls : List (Call E)) :
    ((create strategy blockSize : Arena E).performAll calls).Records (received calls) := by
  have records := (records_create strategy blockSize).performAll calls
  rwa [List.nil_append] at records

end SetForest.Arena
