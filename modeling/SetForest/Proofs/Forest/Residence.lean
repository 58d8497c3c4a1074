import SetForest.Proofs.Forest.Answer

namespace SetForest

/-!
# Resident sets

An index keeps its meaning when its content is evicted, but an operation can
only work with what it can read.  `Forest.Resident` says that a content is there,
and so are those that its children refer to in the forests below.

Nothing but eviction takes a content away (`Forest.Retains`), and the content of
the empty set cannot be evicted.  A sound forest that can read both operands
answers a consultation, and if it knows the result it can read that too.
-/

namespace Arena.Canonical

variable {E : Type} [Key E] {arena : Arena E} {index : Index} {content : List E}

theorem lt_size_of_get (canonical : arena.Canonical) (read : arena.get index = .ok content) :
    index < arena.size :=
  canonical.lt_size (canonical.denotes_of_get read)

/-- Whether a content was dropped can be told of every index in use. -/
theorem exists_isEvicted (canonical : arena.Canonical) (denotes : arena.Denotes index content) :
    ∃ dropped, arena.isEvicted index = .ok dropped := by
  rw [isEvicted_eq]
  rcases canonical.holdings.faithful content index denotes with resident | evicted
  · exact ⟨false, by rw [show arena.slot? index = _ from resident]; rfl⟩
  · exact ⟨true, by rw [show arena.slot? index = _ from evicted]; rfl⟩

end Arena.Canonical

/-- What was not dropped can be read. -/
theorem Arena.exists_get {E : Type} [Key E] {arena : Arena E} {index : Index}
    (resident : arena.isEvicted index = .ok false) : ∃ content, arena.get index = .ok content := by
  rw [isEvicted_eq] at resident
  cases found : arena.slot? index with
  | none =>
      rw [found] at resident
      cases resident
  | some slot =>
      cases slot with
      | resident content => exact ⟨content, get_eq_ok_iff.mpr found⟩
      | evicted =>
          rw [found] at resident
          cases resident

namespace Forest

variable {K : Type} [Key K] {n : Nat}

/-! ## What stays resident -/

/-- At the indices that are kept, what can be read can still be read later. -/
structure Retains (kept : Index → Prop) (forest later : Forest K n) : Prop where
  children : later.children = forest.children
  canonical : forest.sets.Canonical → later.sets.Canonical
  read : forest.sets.Canonical → ∀ index content, kept index →
    forest.sets.get index = .ok content → later.sets.get index = .ok content

namespace Retains

variable {kept : Index → Prop}

theorem refl (forest : Forest K n) : forest.Retains kept forest :=
  ⟨rfl, id, fun _ _ _ _ read => read⟩

theorem trans {forest later last : Forest K n} (first : forest.Retains kept later)
    (second : later.Retains kept last) : forest.Retains kept last where
  children := second.children.trans first.children
  canonical := fun canonical => second.canonical (first.canonical canonical)
  read := fun canonical index content isKept read =>
    second.read (first.canonical canonical) index content isKept
      (first.read canonical index content isKept read)

/-- Interning takes nothing away, whatever is written to the tables besides. -/
theorem of_intern {forest later : Forest K n} (content : Content K)
    (children : later.children = forest.children)
    (sets : later.sets = (forest.sets.intern content).2) : forest.Retains kept later := by
  refine ⟨children, ?_, ?_⟩ <;> rw [sets]
  · exact fun canonical => canonical.intern content
  · exact fun canonical index other _ read => canonical.get_intern_of_get read content

theorem settle (forest : Forest K n) (operation : Operation) (a b : Index)
    (content : Content K) : forest.Retains kept (settle operation a b content forest).2 := by
  rcases forest.exists_settle_eq operation a b content with
    ⟨unions, intersections, differences, inclusions, counters, settled⟩
  rw [settled]
  exact of_intern content rfl rfl

/-- Where everything is kept, what a caller has read can be read again. -/
theorem content_eq {forest later : Forest K n} (retains : forest.Retains (fun _ => True) later)
    (canonical : forest.sets.Canonical) {index : Index} {content : Content K}
    (read : forest.content index = .ok content) : later.content index = .ok content := by
  rw [content_eq_ok_iff canonical] at read
  rw [content_eq_ok_iff (retains.canonical canonical)]
  exact retains.read canonical index content trivial read

end Retains

/-- What was just interned can be read, whatever is written to the tables besides. -/
theorem content_of_intern {forest later : Forest K n} (canonical : forest.sets.Canonical)
    {content : Content K} (sets : later.sets = (forest.sets.intern content).2) :
    later.content (forest.intern content).1.index = .ok content := by
  have canonicalLater : later.sets.Canonical := sets ▸ canonical.intern content
  rw [index_intern, content_eq_ok_iff canonicalLater, sets]
  exact canonical.get_interned content

/-- No change takes the content of the empty set away. -/
theorem Change.retains_empty {admits : Content K → Prop} {forest later : Forest K n}
    (change : Change admits forest later) : forest.Retains (· = Index.empty) later := by
  have interned : ∀ content, forest.Retains (· = Index.empty) (forest.intern content).2 := by
    intro content
    rcases forest.exists_intern_eq content with ⟨counters, stored⟩
    rw [stored]
    exact .of_intern content rfl rfl
  cases change with
  | recorded counters activities => exact ⟨rfl, id, fun _ _ _ _ read => read⟩
  | stored content admitted => exact interned content
  | put index content element read admitted => exact interned _
  | part index content part read sublist =>
      apply (interned part).trans
      rcases (forest.intern part).2.exists_fileInclusion_eq (forest.intern part).1.index index with
        ⟨inclusions, filed⟩
      rw [filed]
      exact ⟨rfl, id, fun _ _ _ _ read => read⟩
  | dropped index resident sets notEmpty evicted =>
      refine ⟨rfl, fun canonical => (canonical.evict evicted).1, ?_⟩
      rintro canonical _ content rfl read
      exact canonical.get_evict_of_ne (Ne.symm notEmpty) evicted read

/-- A content is there, and so are the sets that its children refer to. -/
def Resident (forest : Forest K n) (below : Fin n → Index → Prop) (index : Index) : Prop :=
  ∃ content, forest.sets.get index = .ok content ∧
    ∀ element ∈ content, ∀ number child, forest.children[number]? = some child →
      below child (element.child number)

theorem Resident.exists_get {forest : Forest K n} {below : Fin n → Index → Prop} {index : Index}
    (resident : forest.Resident below index) : ∃ content, forest.sets.get index = .ok content :=
  resident.imp fun _ => And.left

theorem Resident.mono {forest later : Forest K n} {below laterBelow : Fin n → Index → Prop}
    {index : Index} (resident : forest.Resident below index)
    (canonical : forest.sets.Canonical) (retains : forest.Retains (fun _ => True) later)
    (belowMono : ∀ child x, below child x → laterBelow child x) :
    later.Resident laterBelow index := by
  rcases resident with ⟨content, read, children⟩
  refine ⟨content, retains.read canonical index content trivial read, ?_⟩
  intro element member number child atChild
  rw [retains.children] at atChild
  exact belowMono child _ (children element member number child atChild)

/-! ## Consulting with resident operands -/

variable {forest : Forest K n} {below : Fin n → Meaning} {operation : Operation} {a b r : Index}

/-- A shortcut answers one of the operands or the empty set. -/
theorem mem_of_shortcut {outcome : Outcome}
    (found : forest.shortcut operation a b = some (r, outcome)) :
    r = a ∨ r = b ∨ r = Index.empty := by
  unfold shortcut at found
  split at found
  · cases found
    split
    · exact Or.inr (Or.inr rfl)
    · exact Or.inl rfl
  · split at found
    · cases found
      cases operation with
      | union =>
          dsimp only
          split
          · exact Or.inr (Or.inl rfl)
          · exact Or.inl rfl
      | intersection => exact Or.inr (Or.inr rfl)
      | difference => exact Or.inl rfl
    · split at found <;> cases found
      · exact Or.inr (Or.inl rfl)
      · exact Or.inl rfl
      · exact Or.inl rfl
      · exact Or.inr (Or.inl rfl)

open SetForest.Action

/-- Whether a remembered result is of use can be told, if it was handed out. -/
theorem exists_usable? (canonical : forest.sets.Canonical) {remembered : Option Index}
    (handedOut : ∀ r, remembered = some r → r < forest.size) :
    ∃ usable, forest.usable? remembered = .ok usable := by
  cases remembered with
  | none => exact ⟨none, rfl⟩
  | some r =>
      rcases canonical.exists_denotes (handedOut r rfl) with ⟨content, denotes⟩
      rcases canonical.exists_isEvicted denotes with ⟨dropped, told⟩
      rw [usable?, told]
      cases dropped with
      | false => exact ⟨some r, rfl⟩
      | true => exact ⟨none, rfl⟩

/-- Every remembered result in a sound forest is an index in use. -/
theorem Sound.exists_usable? (sound : forest.Sound below) (lawful : ∀ child, (below child).Lawful)
    (operation : Operation) (different : a ≠ b) : ∃ usable,
      forest.usable? ((forest.memo operation).lookup (operation.operands a b)) = .ok usable := by
  refine Forest.exists_usable? sound.canonical ?_
  intro r remembered
  have answers := (answers_operands_iff lawful).mp (sound.remembered operation _ r remembered)
  rcases (answers_iff_of_ne different).mp answers with ⟨_, _, content, _, _, denotes, _⟩
  exact sound.canonical.lt_size denotes

/-- A forest that can read both operands does not refuse. -/
theorem Sound.exists_consulted (sound : forest.Sound below)
    (lawful : ∀ child, (below child).Lawful) (operation : Operation)
    (leftReads : ∃ left, forest.sets.get a = .ok left)
    (rightReads : ∃ right, forest.sets.get b = .ok right) :
    ∃ answer, (Forest.consult operation a b forest).1 = .ok answer := by
  rcases leftReads with ⟨left, leftRead⟩
  rcases rightReads with ⟨right, rightRead⟩
  have soundNoted := (sound.changes lawful (fun _ admitted => admitted)
    (changes_note forest (.operation operation))).sound
  rcases forest.exists_note_eq (.operation operation) with ⟨activities, noted⟩
  have sets : (forest.note (.operation operation)).sets = forest.sets := by rw [noted]
  rw [← sets] at leftRead rightRead
  simp only [Forest.consult, bind_apply, modify_apply, get_apply, liftExcept_apply]
  generalize forest.note (.operation operation) = noted at soundNoted leftRead rightRead
  rw [checkIndex_of_lt (soundNoted.canonical.lt_size_of_get leftRead),
    checkIndex_of_lt (soundNoted.canonical.lt_size_of_get rightRead)]
  dsimp only
  cases found : noted.shortcut operation a b with
  | some answer => exact ⟨.known answer.1, rfl⟩
  | none =>
      rcases soundNoted.exists_usable? lawful operation (ne_of_shortcut_eq_none found) with
        ⟨usable, told⟩
      simp only [bind_apply, liftExcept_apply, told]
      cases usable with
      | some result => exact ⟨.known result, rfl⟩
      | none =>
          simp only [bind_apply, liftExcept_apply, leftRead, rightRead]
          exact ⟨.unknown _, rfl⟩

/-- A known result is an operand, the empty set or a set that was not dropped. -/
theorem cases_of_known (known : (consult operation a b forest).1 = .ok (.known r)) :
    r = a ∨ r = b ∨ r = Index.empty ∨ forest.sets.isEvicted r = .ok false := by
  rcases sources_of_known known with ⟨outcome, found⟩ | ⟨-, resident⟩
  · rcases mem_of_shortcut found with isLeft | isRight | isEmpty
    · exact Or.inl isLeft
    · exact Or.inr (Or.inl isRight)
    · exact Or.inr (Or.inr (Or.inl isEmpty))
  · exact Or.inr (Or.inr (Or.inr resident))

/-- What a forest knows it can read, if it can read the operands and the empty set. -/
theorem exists_get_of_known (leftRead : ∃ left, forest.sets.get a = .ok left)
    (rightRead : ∃ right, forest.sets.get b = .ok right)
    (emptyRead : forest.sets.get Index.empty = .ok [])
    (known : (consult operation a b forest).1 = .ok (.known r)) :
    ∃ content, forest.sets.get r = .ok content := by
  rcases cases_of_known known with rfl | rfl | rfl | resident
  · exact leftRead
  · exact rightRead
  · exact ⟨[], emptyRead⟩
  · exact Arena.exists_get resident

end Forest

end SetForest
