import SetForest.Proofs.Storage.Holdings

namespace SetForest

/-!
# Canonical storage

The table from contents to indices and the slots have to stay inverse to each
other although eviction empties the slots alone.  `Holdings.Canonical` says so:
every index handed out belongs to exactly one content, and its slot holds that
content or the mark that it was dropped.  Interning and evicting keep this, so
the content that an index denotes never changes once it is handed out, and a
dropped content can only come back to its own slot.
-/

variable {E : Type} [Key E]

/-- The contents and the indices handed out stand for each other. -/
structure Holdings.Canonical (holdings : Holdings E) : Prop where
  inUse : ∀ index, (holdings.slot? index).isSome ↔ index < holdings.size
  named : ∀ index, index < holdings.size → ∃ content,
    holdings.indices.lookup content = some index
  faithful : ∀ content index, holdings.indices.lookup content = some index →
    holdings.slot? index = some (.resident content) ∨ holdings.slot? index = some .evicted
  unique : ∀ first second index, holdings.indices.lookup first = some index →
    holdings.indices.lookup second = some index → first = second

namespace Holdings

theorem canonical_empty : (empty : Holdings E).Canonical where
  inUse := by simp [empty]
  named := by
    intro index inUse
    exact absurd inUse (Nat.not_lt_zero index)
  faithful := by
    intro content index known
    simp [empty] at known
  unique := by
    intro first second index known
    simp [empty] at known

namespace Canonical

variable {holdings : Holdings E} {content : List E} {index : Index}

theorem lt_size (canonical : holdings.Canonical)
    (known : holdings.indices.lookup content = some index) : index < holdings.size := by
  rw [← canonical.inUse]
  rcases canonical.faithful content index known with resident | evicted
  · rw [resident]
    rfl
  · rw [evicted]
    rfl

/-- A slot in use can be marked as dropped, or given its own content back. -/
theorem write (canonical : holdings.Canonical) (slot : Slot E) (inUse : index < holdings.size)
    (own : ∀ content, holdings.indices.lookup content = some index →
      slot = .resident content ∨ slot = .evicted) :
    (holdings.write index slot).Canonical where
  inUse := by
    intro other
    by_cases here : other = index
    · subst other
      simp [Holdings.write, inUse]
    · simpa [Holdings.write, here] using canonical.inUse other
  named := canonical.named
  faithful := by
    intro other place known
    by_cases here : place = index
    · subst place
      simpa [Holdings.write] using own other known
    · simpa [Holdings.write, here] using canonical.faithful other place known
  unique := canonical.unique

/-- A new content can be given the next index. -/
theorem append (canonical : holdings.Canonical)
    (new : holdings.indices.lookup content = none) : (holdings.append content).Canonical := by
  classical
  -- An index of the longer table is an old one, or the next one for `content`.
  have split : ∀ other place, (holdings.append content).indices.lookup other = some place →
      (other = content ∧ place = holdings.size) ∨
        (other ≠ content ∧ holdings.indices.lookup other = some place) := by
    intro other place known
    rw [Holdings.append, Table.lookup_store] at known
    by_cases same : content = other
    · rw [if_pos same] at known
      exact Or.inl ⟨same.symm, (Option.some.inj known).symm⟩
    · rw [if_neg same] at known
      exact Or.inr ⟨Ne.symm same, known⟩
  refine ⟨?_, ?_, ?_, ?_⟩
  · intro place
    by_cases last : place = holdings.size
    · subst place
      simp [Holdings.append, Holdings.write]
    · simp only [Holdings.append, Holdings.write, if_neg last]
      rw [canonical.inUse]
      exact ⟨Nat.lt_succ_of_lt, fun below =>
        Nat.lt_of_le_of_ne (Nat.le_of_lt_succ below) last⟩
  · intro place below
    by_cases last : place = holdings.size
    · exact ⟨content, by rw [last]; exact Table.lookup_store_self _ _ _⟩
    · rcases canonical.named place (Nat.lt_of_le_of_ne (Nat.le_of_lt_succ below) last) with
        ⟨other, known⟩
      have different : content ≠ other := by
        intro same
        rw [same, known] at new
        cases new
      exact ⟨other, by rw [← known]; exact Table.lookup_store_of_ne _ _ different⟩
  · intro other place known
    rcases split other place known with ⟨rfl, rfl⟩ | ⟨_, old⟩
    · exact Or.inl (if_pos rfl)
    · have before : place ≠ holdings.size := Nat.ne_of_lt (canonical.lt_size old)
      simpa [Holdings.append, Holdings.write, before] using canonical.faithful other place old
  · intro first second place firstKnown secondKnown
    rcases split first place firstKnown with ⟨rfl, rfl⟩ | ⟨_, firstOld⟩
    · rcases split second _ secondKnown with ⟨rfl, _⟩ | ⟨_, secondOld⟩
      · rfl
      · exact absurd (canonical.lt_size secondOld) (Nat.lt_irrefl _)
    · rcases split second place secondKnown with ⟨rfl, rfl⟩ | ⟨_, secondOld⟩
      · exact absurd (canonical.lt_size firstOld) (Nat.lt_irrefl _)
      · exact canonical.unique first second place firstOld secondOld

theorem intern (canonical : holdings.Canonical) (content : List E) :
    (holdings.intern content).2.Canonical := by
  cases known : holdings.indices.lookup content with
  | none =>
      rw [intern_new holdings known]
      exact canonical.append known
  | some index =>
      by_cases evicted : holdings.slot? index = some .evicted
      · rw [intern_evicted holdings known evicted]
        apply canonical.write (.resident content) (canonical.lt_size known)
        intro other otherKnown
        have same := canonical.unique content other index known otherKnown
        exact Or.inl (congrArg Slot.resident same)
      · rw [intern_known holdings known evicted]
        exact canonical

theorem evict (canonical : holdings.Canonical) (inUse : (holdings.slot? index).isSome) :
    (holdings.write index .evicted).Canonical :=
  canonical.write .evicted ((canonical.inUse index).mp inUse) (fun _ _ => Or.inr rfl)

/-- After a content was interned it is resident at its index. -/
theorem slot_intern (canonical : holdings.Canonical) (content : List E) :
    (holdings.intern content).2.slot? (holdings.intern content).1.1 = some (.resident content) := by
  cases known : holdings.indices.lookup content with
  | none =>
      rw [intern_new holdings known]
      exact if_pos rfl
  | some index =>
      by_cases evicted : holdings.slot? index = some .evicted
      · rw [intern_evicted holdings known evicted]
        exact if_pos rfl
      · rw [intern_known holdings known evicted]
        exact (canonical.faithful content index known).resolve_right evicted

/-- A resident content stays resident when another is interned. -/
theorem slot_intern_of_resident (canonical : holdings.Canonical)
    (resident : holdings.slot? index = some (.resident content)) (other : List E) :
    (holdings.intern other).2.slot? index = some (.resident content) := by
  cases known : holdings.indices.lookup other with
  | none =>
      rw [intern_new holdings known]
      have inUse := (canonical.inUse index).mp (Option.isSome_of_eq_some resident)
      exact (if_neg (Nat.ne_of_lt inUse)).trans resident
  | some place =>
      by_cases evicted : holdings.slot? place = some .evicted
      · rw [intern_evicted holdings known evicted]
        have elsewhere : index ≠ place := by
          rintro rfl
          rw [resident] at evicted
          cases evicted
        exact (if_neg elsewhere).trans resident
      · rw [intern_known holdings known evicted]
        exact resident

end Canonical

/-- A content keeps its index, and the interned one has the index that was answered. -/
theorem lookup_intern [DecidableEq E] (holdings : Holdings E) (content other : List E) :
    (holdings.intern content).2.indices.lookup other =
      if other = content then some (holdings.intern content).1.1
      else holdings.indices.lookup other := by
  cases known : holdings.indices.lookup content with
  | none =>
      rw [intern_new holdings known, append, Table.lookup_store]
      by_cases same : other = content
      · rw [if_pos same, if_pos same.symm]
      · rw [if_neg same, if_neg (Ne.symm same)]
  | some index =>
      have kept : (holdings.intern content).2.indices = holdings.indices ∧
          (holdings.intern content).1.1 = index := by
        by_cases evicted : holdings.slot? index = some .evicted
        · rw [intern_evicted holdings known evicted]
          exact ⟨rfl, rfl⟩
        · rw [intern_known holdings known evicted]
          exact ⟨rfl, rfl⟩
      rw [kept.1, kept.2]
      by_cases same : other = content
      · rw [if_pos same, same, known]
      · rw [if_neg same]

end Holdings

namespace Arena

/-- The layout is in order, and what is held is canonical. -/
structure Canonical (arena : Arena E) : Prop where
  wellFormed : arena.WellFormed
  holdings : arena.holdings.Canonical

/-- An index stands for a content, whether or not the content is resident. -/
def Denotes (arena : Arena E) (index : Index) (content : List E) : Prop :=
  arena.indices.lookup content = some index

theorem canonical_create (strategy : Strategy) (blockSize : Nat) :
    (create strategy blockSize : Arena E).Canonical where
  wellFormed := wellFormed_create strategy blockSize
  holdings := by
    rw [holdings_create]
    exact Holdings.canonical_empty

/-! ## Reading -/

theorem get_eq (arena : Arena E) (index : Index) :
    arena.get index =
      match arena.slot? index with
      | some (.resident content) => .ok content
      | some .evicted => .error (.evicted index)
      | none => .error (.outOfRange index arena.size) := by
  rw [get, slot]
  cases arena.slot? index with
  | none => rfl
  | some slot => cases slot <;> rfl

theorem isEvicted_eq (arena : Arena E) (index : Index) :
    arena.isEvicted index =
      match arena.slot? index with
      | some slot => .ok slot.isEvicted
      | none => .error (.outOfRange index arena.size) := by
  rw [isEvicted, slot]
  cases arena.slot? index <;> rfl

theorem get_eq_ok_iff {arena : Arena E} {index : Index} {content : List E} :
    arena.get index = .ok content ↔ arena.slot? index = some (.resident content) := by
  rw [get_eq]
  split
  · next other found => rw [found, Except.ok.injEq, Option.some.injEq, Slot.resident.injEq]
  · next found => simp [found]
  · next found => simp [found]

namespace Canonical

variable {arena : Arena E} {content : List E} {index : Index}

/-- Reading an index gives the content that it denotes, or that it was dropped. -/
theorem get_of_denotes (canonical : arena.Canonical) (denotes : arena.Denotes index content) :
    arena.get index = .ok content ∨ arena.get index = .error (.evicted index) := by
  rw [get_eq]
  rcases canonical.holdings.faithful content index denotes with resident | evicted
  · exact Or.inl (by rw [show arena.slot? index = _ from resident])
  · exact Or.inr (by rw [show arena.slot? index = _ from evicted])

theorem unique (canonical : arena.Canonical) {other : List E}
    (denotes : arena.Denotes index content) (denotesOther : arena.Denotes index other) :
    content = other :=
  canonical.holdings.unique content other index denotes denotesOther

theorem lt_size (canonical : arena.Canonical) (denotes : arena.Denotes index content) :
    index < arena.size :=
  canonical.holdings.lt_size denotes

theorem exists_denotes (canonical : arena.Canonical) (inUse : index < arena.size) :
    ∃ content, arena.Denotes index content :=
  canonical.holdings.named index inUse

/-- What can be read is what the index denotes. -/
theorem denotes_of_get (canonical : arena.Canonical) (read : arena.get index = .ok content) :
    arena.Denotes index content := by
  have slot := get_eq_ok_iff.mp read
  have inUse : index < arena.size :=
    (canonical.holdings.inUse index).mp (Option.isSome_of_eq_some slot)
  rcases canonical.exists_denotes inUse with ⟨own, denotes⟩
  rcases canonical.holdings.faithful own index denotes with resident | evicted
  · have same : own = content := by
      have slots := slot.symm.trans resident
      cases slots
      rfl
    exact same ▸ denotes
  · have slots := slot.symm.trans evicted
    cases slots

/-- An index that was not handed out is out of range. -/
theorem get_of_le (canonical : arena.Canonical) (outside : arena.size ≤ index) :
    arena.get index = .error (.outOfRange index arena.size) := by
  rw [get_eq]
  cases found : arena.slot? index with
  | none => rfl
  | some slot =>
      have inside : index < arena.size :=
        (canonical.holdings.inUse index).mp (Option.isSome_of_eq_some found)
      exact absurd inside (Nat.not_lt_of_le outside)

/-! ## Storing and dropping -/

theorem holdings_intern_snd (canonical : arena.Canonical) (content : List E) :
    (arena.intern content).2.holdings = (arena.holdings.intern content).2 :=
  congrArg Prod.snd (holdings_intern canonical.wellFormed content).2

theorem intern_fst (canonical : arena.Canonical) (content : List E) :
    (arena.intern content).1 = (arena.holdings.intern content).1 :=
  congrArg Prod.fst (holdings_intern canonical.wellFormed content).2

theorem intern (canonical : arena.Canonical) (content : List E) :
    (arena.intern content).2.Canonical where
  wellFormed := (holdings_intern canonical.wellFormed content).1
  holdings := by
    rw [canonical.holdings_intern_snd content]
    exact canonical.holdings.intern content

/-- What an index denotes after a content was stored. -/
theorem denotes_intern_iff [DecidableEq E] (canonical : arena.Canonical)
    (content other : List E) (place : Index) :
    (arena.intern content).2.Denotes place other ↔
      if other = content then (arena.intern content).1.1 = place
      else arena.Denotes place other := by
  have lookup := Holdings.lookup_intern arena.holdings content other
  rw [← canonical.holdings_intern_snd content, ← canonical.intern_fst content] at lookup
  change (arena.intern content).2.holdings.indices.lookup other = some place ↔ _
  rw [lookup]
  by_cases same : other = content
  · rw [if_pos same, if_pos same, Option.some_inj]
  · rw [if_neg same, if_neg same]
    rfl

/-- A stored content stands at the index that was answered. -/
theorem denotes_interned (canonical : arena.Canonical) (content : List E) :
    (arena.intern content).2.Denotes (arena.intern content).1.1 content := by
  classical
  rw [canonical.denotes_intern_iff, if_pos rfl]

/-- An index keeps its content when another is stored. -/
theorem denotes_intern_of_denotes (canonical : arena.Canonical) {other : List E}
    (denotes : arena.Denotes index other) (content : List E) :
    (arena.intern content).2.Denotes index other := by
  classical
  rw [canonical.denotes_intern_iff]
  by_cases same : other = content
  · rw [if_pos same]
    subst other
    rw [canonical.intern_fst content]
    by_cases evicted : arena.holdings.slot? index = some .evicted
    · rw [Holdings.intern_evicted arena.holdings denotes evicted]
    · rw [Holdings.intern_known arena.holdings denotes evicted]
  · rw [if_neg same]
    exact denotes

/-- Storing a content gives no index to any other. -/
theorem denotes_of_denotes_intern (canonical : arena.Canonical) {content other : List E}
    (denotes : (arena.intern content).2.Denotes index other) :
    other = content ∨ arena.Denotes index other := by
  classical
  rw [canonical.denotes_intern_iff] at denotes
  by_cases same : other = content
  · exact Or.inl same
  · rw [if_neg same] at denotes
    exact Or.inr denotes

theorem get_interned (canonical : arena.Canonical) (content : List E) :
    (arena.intern content).2.get (arena.intern content).1.1 = .ok content := by
  have slot : (arena.intern content).2.slot? (arena.intern content).1.1 =
      some (.resident content) := by
    change (arena.intern content).2.holdings.slot? _ = _
    rw [canonical.holdings_intern_snd content, canonical.intern_fst content]
    exact canonical.holdings.slot_intern content
  rw [get_eq, slot]

/-- What can be read can still be read after another content was stored. -/
theorem get_intern_of_get (canonical : arena.Canonical) (read : arena.get index = .ok content)
    (other : List E) : (arena.intern other).2.get index = .ok content := by
  rw [get_eq_ok_iff] at read ⊢
  change (arena.intern other).2.holdings.slot? index = _
  rw [canonical.holdings_intern_snd other]
  exact canonical.holdings.slot_intern_of_resident read other

/-- To store a content that has an index only brings it back there. -/
theorem intern_known (canonical : arena.Canonical) (denotes : arena.Denotes index content) :
    (arena.intern content).1.1 = index ∧ (arena.intern content).1.2 ≠ .cold ∧
      (arena.intern content).2.size = arena.size := by
  change _ ∧ _ ∧ (arena.intern content).2.holdings.size = arena.holdings.size
  rw [canonical.holdings_intern_snd content, canonical.intern_fst content]
  by_cases evicted : arena.holdings.slot? index = some .evicted
  · rw [Holdings.intern_evicted arena.holdings denotes evicted]
    exact ⟨rfl, nofun, rfl⟩
  · rw [Holdings.intern_known arena.holdings denotes evicted]
    exact ⟨rfl, nofun, rfl⟩

/-- A content without an index gets the next one. -/
theorem intern_new (canonical : arena.Canonical) (new : ∀ place, ¬arena.Denotes place content) :
    (arena.intern content).1.1 = arena.size ∧ (arena.intern content).1.2 = .cold ∧
      (arena.intern content).2.size = arena.size + 1 := by
  change _ ∧ _ ∧ (arena.intern content).2.holdings.size = arena.holdings.size + 1
  have unknown : arena.holdings.indices.lookup content = none :=
    Option.eq_none_iff_forall_ne_some.mpr new
  rw [canonical.holdings_intern_snd content, canonical.intern_fst content,
    Holdings.intern_new arena.holdings unknown]
  exact ⟨rfl, rfl, rfl⟩

theorem evict (canonical : arena.Canonical) {resident : Bool} {after : Arena E}
    (evicted : arena.evict index = .ok (resident, after)) :
    after.Canonical ∧ after.holdings = arena.holdings.write index .evicted := by
  rcases holdings_evict canonical.wellFormed index with ⟨_, refused⟩ | found
  · rw [refused] at evicted
    cases evicted
  · rcases found with ⟨previous, marked, slot, answer, wellFormed, written⟩
    rw [answer] at evicted
    cases evicted
    refine ⟨⟨wellFormed, ?_⟩, written⟩
    rw [written]
    exact canonical.holdings.evict (Option.isSome_of_eq_some slot)

/-- Dropping a content leaves all others as they can be read. -/
theorem get_evict_of_ne (canonical : arena.Canonical) {place : Index} (different : index ≠ place)
    {resident : Bool} {after : Arena E} (evicted : arena.evict place = .ok (resident, after))
    (read : arena.get index = .ok content) : after.get index = .ok content := by
  rw [get_eq_ok_iff] at read ⊢
  change after.holdings.slot? index = _
  rw [(canonical.evict evicted).2]
  exact (if_neg different).trans read

/-- Dropping a content changes nothing about which content an index denotes. -/
theorem denotes_evict_iff (canonical : arena.Canonical) {resident : Bool} {after : Arena E}
    (evicted : arena.evict index = .ok (resident, after)) (place : Index) (content : List E) :
    after.Denotes place content ↔ arena.Denotes place content := by
  change after.holdings.indices.lookup content = some place ↔ _
  rw [(canonical.evict evicted).2]
  rfl

end Canonical

end Arena

end SetForest
