import SetForest.Proofs.Forest.Change

namespace SetForest

/-!
# The two halves of a lattice operation

A forest takes part in a lattice operation twice.  First it is consulted, and
either refuses, or knows the result, or says what is to be asked of the forests
below.  This half changes nothing but the records.  In the second half it stores
what was computed, and files what that shows.

`Forest.Consultation` lists the outcomes of the first half with all that was
checked on the way to each.
-/

namespace Forest

variable {K : Type} [Key K] {n : Nat}

/-- The outcomes of consulting a forest in which the work was already noted. -/
inductive Consultation (forest : Forest K n) (operation : Operation) (a b : Index) :
    Except Error (Consulted K n) × Forest K n → Prop where
  | refused (error : Error) : Consultation forest operation a b (.error error, forest)
  | shortcut (result : Index) (outcome : Outcome) (leftInUse : a < forest.size)
      (rightInUse : b < forest.size)
      (found : forest.shortcut operation a b = some (result, outcome)) :
      Consultation forest operation a b
        (.ok (.known result), forest.tallyOperation operation outcome)
  | remembered (result : Index)
      (found : (forest.memo operation).lookup (operation.operands a b) = some result)
      (leftInUse : a < forest.size) (rightInUse : b < forest.size)
      (resident : forest.sets.isEvicted result = .ok false) :
      Consultation forest operation a b (.ok (.known result), forest.tallyOperation operation .hit)
  | unknown (left right : Content K) (different : a ≠ b) (leftRead : forest.sets.get a = .ok left)
      (rightRead : forest.sets.get b = .ok right) :
      Consultation forest operation a b
        (.ok (.unknown (Content.align operation forest.children left right)), forest)

theorem lt_size_of_checkIndex {forest : Forest K n} {index : Index} {accepted : Unit}
    (checked : forest.checkIndex index = .ok accepted) : index < forest.size := by
  by_contra outside
  rw [checkIndex, if_neg outside] at checked
  cases checked

theorem checkIndex_of_lt {forest : Forest K n} {index : Index} (inUse : index < forest.size) :
    forest.checkIndex index = .ok () :=
  if_pos inUse

theorem checkIndex_of_le {forest : Forest K n} {index : Index} (outside : forest.size ≤ index) :
    forest.checkIndex index = .error (.outOfRange index forest.size) :=
  if_neg (Nat.not_lt_of_le outside)

/-- A result in use was read from the table, and its content was not dropped. -/
theorem eq_of_usable? {forest : Forest K n} {remembered : Option Index} {result : Index}
    (usable : forest.usable? remembered = .ok (some result)) :
    remembered = some result ∧ forest.sets.isEvicted result = .ok false := by
  cases remembered with
  | none => cases usable
  | some index =>
      simp only [usable?] at usable
      cases evicted : forest.sets.isEvicted index with
      | error error =>
          rw [evicted] at usable
          cases usable
      | ok evicted' =>
          rw [evicted] at usable
          cases evicted' with
          | true => cases usable
          | false =>
              cases usable
              exact ⟨rfl, evicted⟩

/-- Equal operands always take a shortcut. -/
theorem ne_of_shortcut_eq_none {forest : Forest K n} {operation : Operation} {a b : Index}
    (found : forest.shortcut operation a b = none) : a ≠ b := by
  intro same
  unfold shortcut at found
  rw [if_pos same] at found
  cases found

open SetForest.Action

/-- What becomes of a consultation. -/
theorem consultation (forest : Forest K n) (operation : Operation) (a b : Index) :
    Consultation (forest.note (.operation operation)) operation a b
      (consult operation a b forest) := by
  simp only [consult, bind_apply, modify_apply, get_apply, liftExcept_apply]
  generalize forest.note (.operation operation) = noted
  cases leftChecked : noted.checkIndex a with
  | error error => exact .refused error
  | ok _ =>
      have leftInUse := lt_size_of_checkIndex leftChecked
      cases rightChecked : noted.checkIndex b with
      | error error => exact .refused error
      | ok _ =>
          have rightInUse := lt_size_of_checkIndex rightChecked
          dsimp only
          cases found : noted.shortcut operation a b with
          | some answer =>
              rcases answer with ⟨result, outcome⟩
              exact .shortcut result outcome leftInUse rightInUse found
          | none =>
              have different := ne_of_shortcut_eq_none found
              simp only [bind_apply, liftExcept_apply]
              cases usable : noted.usable? ((noted.memo operation).lookup
                  (operation.operands a b)) with
              | error error => exact .refused error
              | ok usable' =>
                  cases usable' with
                  | some result =>
                      rcases eq_of_usable? usable with ⟨remembered, resident⟩
                      exact .remembered result remembered leftInUse rightInUse resident
                  | none =>
                      simp only [bind_apply, liftExcept_apply]
                      cases leftRead : noted.sets.get a with
                      | error error => exact .refused error
                      | ok left =>
                          dsimp only
                          cases rightRead : noted.sets.get b with
                          | error error => exact .refused error
                          | ok right => exact .unknown left right different leftRead rightRead

/-! ## Neither half reaches the storage by other means -/

theorem note_eq (forest : Forest K n) (activity : Activity) :
    forest.note activity = { forest with
      activities := if forest.config.profiling && !forest.activities.contains activity then
        forest.activities ++ [activity] else forest.activities } := by
  rw [note]
  split <;> rfl

theorem size_note (forest : Forest K n) (activity : Activity) :
    (forest.note activity).size = forest.size := by
  rw [note_eq]
  rfl

theorem exists_note_eq (forest : Forest K n) (activity : Activity) :
    ∃ activities, forest.note activity = { forest with activities } :=
  ⟨_, forest.note_eq activity⟩

/-- Consulting only records the work. -/
theorem exists_consult_eq_note (forest : Forest K n) (operation : Operation) (a b : Index) :
    ∃ counters, (consult operation a b forest).2 =
      { forest.note (.operation operation) with counters } := by
  have outcomes := consultation forest operation a b
  generalize consult operation a b forest = consulted at outcomes
  cases outcomes with
  | refused error => exact ⟨_, rfl⟩
  | shortcut result outcome leftInUse rightInUse found => exact ⟨_, rfl⟩
  | remembered result found leftInUse rightInUse => exact ⟨_, rfl⟩
  | unknown left right different leftRead rightRead => exact ⟨_, rfl⟩

theorem exists_consult_eq (forest : Forest K n) (operation : Operation) (a b : Index) :
    ∃ counters activities, (consult operation a b forest).2 =
      { forest with counters, activities } := by
  rcases forest.exists_consult_eq_note operation a b with ⟨counters, consulted⟩
  rcases forest.exists_note_eq (.operation operation) with ⟨activities, noted⟩
  rw [consulted, noted]
  exact ⟨counters, activities, rfl⟩

theorem memo_consult (forest : Forest K n) (operation other : Operation) (a b : Index) :
    (consult operation a b forest).2.memo other = forest.memo other := by
  rcases forest.exists_consult_eq operation a b with ⟨counters, activities, consulted⟩
  rw [consulted]
  cases other <;> rfl

/-! ## Work that was done before -/

/-- A kind of work is on record, if the forest keeps records. -/
def HasNoted (forest : Forest K n) (activity : Activity) : Prop :=
  forest.config.profiling = true → activity ∈ forest.activities

theorem HasNoted.mono {forest later : Forest K n} {activity : Activity}
    (noted : forest.HasNoted activity) (config : later.config = forest.config)
    (kept : forest.activities ⊆ later.activities) : later.HasNoted activity := by
  intro profiling
  rw [config] at profiling
  exact kept (noted profiling)

/-- To note it once more changes nothing. -/
theorem HasNoted.note_eq {forest : Forest K n} {activity : Activity}
    (noted : forest.HasNoted activity) : forest.note activity = forest := by
  rw [note]
  split
  · next newly =>
      rw [Bool.and_eq_true, Bool.not_eq_true', List.contains_eq_mem,
        decide_eq_false_iff_not] at newly
      exact absurd (noted newly.1) newly.2
  · rfl

theorem hasNoted_note (forest : Forest K n) (activity : Activity) :
    (forest.note activity).HasNoted activity := by
  rw [note]
  split
  · exact fun _ => List.mem_append_right _ List.mem_cons_self
  · next known =>
      intro profiling
      by_contra absent
      refine known ?_
      rw [Bool.and_eq_true, Bool.not_eq_true', List.contains_eq_mem, decide_eq_false_iff_not]
      exact ⟨profiling, absent⟩

theorem activities_note_subset (forest : Forest K n) (activity : Activity) :
    forest.activities ⊆ (forest.note activity).activities := by
  rw [note]
  split
  · exact List.subset_append_left _ _
  · exact List.Subset.refl _

theorem activities_consult_subset (forest : Forest K n) (operation : Operation) (a b : Index) :
    forest.activities ⊆ (consult operation a b forest).2.activities := by
  rcases forest.exists_consult_eq_note operation a b with ⟨counters, consulted⟩
  rw [consulted]
  exact forest.activities_note_subset _

theorem hasNoted_consult (forest : Forest K n) (operation : Operation) (a b : Index) :
    (consult operation a b forest).2.HasNoted (.operation operation) := by
  rcases forest.exists_consult_eq_note operation a b with ⟨counters, consulted⟩
  rw [consulted]
  exact forest.hasNoted_note _

/-- A forest that differs in its counters at most. -/
def Counted (forest later : Forest K n) : Prop :=
  ∃ counters, later = { forest with counters }

namespace Counted

variable {forest later : Forest K n}

theorem refl (forest : Forest K n) : forest.Counted forest :=
  ⟨forest.counters, rfl⟩

theorem symm (counted : forest.Counted later) : later.Counted forest := by
  rcases counted with ⟨counters, rfl⟩
  exact ⟨forest.counters, rfl⟩

theorem trans {last : Forest K n} (first : forest.Counted later)
    (second : later.Counted last) : forest.Counted last := by
  rcases first with ⟨counters, rfl⟩
  rcases second with ⟨countersLast, rfl⟩
  exact ⟨countersLast, rfl⟩

end Counted

/-! ## Both halves -/

/-- What is asked of the forests below is the alignment of the two contents. -/
theorem reads_of_unknown {forest : Forest K n} {operation : Operation} {a b : Index}
    {cells : List (Cell K n)}
    (unknown : (consult operation a b forest).1 = .ok (.unknown cells)) :
    a ≠ b ∧ ∃ left right, forest.sets.get a = .ok left ∧ forest.sets.get b = .ok right ∧
      cells = Content.align operation forest.children left right := by
  rcases forest.exists_note_eq (.operation operation) with ⟨activities, noted⟩
  have outcomes := consultation forest operation a b
  rw [noted] at outcomes
  generalize consult operation a b forest = consulted at unknown outcomes
  cases outcomes with
  | refused error => cases unknown
  | shortcut result outcome leftInUse rightInUse found => cases unknown
  | remembered result found leftInUse rightInUse => cases unknown
  | unknown left right different leftRead rightRead =>
      cases unknown
      exact ⟨different, left, right, leftRead, rightRead, rfl⟩

/-- What is known was found by a shortcut, or was remembered and is resident. -/
theorem sources_of_known {forest : Forest K n} {operation : Operation} {a b r : Index}
    (known : (consult operation a b forest).1 = .ok (.known r)) :
    (∃ outcome, forest.shortcut operation a b = some (r, outcome)) ∨
      (forest.memo operation).lookup (operation.operands a b) = some r ∧
        forest.sets.isEvicted r = .ok false := by
  rcases forest.exists_note_eq (.operation operation) with ⟨activities, noted⟩
  have outcomes := consultation forest operation a b
  rw [noted] at outcomes
  generalize consult operation a b forest = consulted at known outcomes
  cases outcomes with
  | refused error => cases known
  | shortcut result outcome leftInUse rightInUse found =>
      cases known
      exact Or.inl ⟨outcome, found⟩
  | remembered result found leftInUse rightInUse resident =>
      cases known
      refine Or.inr ⟨Eq.trans ?_ found, resident⟩
      cases operation <;> rfl
  | unknown left right different leftRead rightRead => cases known

theorem exists_fileInclusions_eq (forest : Forest K n) (sub sup other above : Index) :
    ∃ inclusions, (forest.fileInclusion sub sup).fileInclusion other above =
      { forest with inclusions } := by
  rcases forest.exists_fileInclusion_eq sub sup with ⟨first, filed⟩
  rw [filed]
  exact exists_fileInclusion_eq { forest with inclusions := first } other above

/-- What a result shows is filed in two tables. -/
theorem exists_fileResult_eq (forest : Forest K n) (operation : Operation) (a b result : Index) :
    ∃ intersections inclusions, forest.fileResult operation a b result =
      { forest with intersections, inclusions } := by
  have one : ∀ sub sup, ∃ intersections inclusions, forest.fileInclusion sub sup =
      { forest with intersections, inclusions } :=
    fun sub sup => ⟨forest.intersections, forest.exists_fileInclusion_eq sub sup⟩
  have two : ∀ sub sup other above, ∃ intersections inclusions,
      (forest.fileInclusion sub sup).fileInclusion other above =
        { forest with intersections, inclusions } :=
    fun sub sup other above =>
      ⟨forest.intersections, forest.exists_fileInclusions_eq sub sup other above⟩
  cases operation with
  | union =>
      simp only [fileResult]
      split
      · exact one b a
      · split
        · exact one a b
        · exact two a result b result
  | intersection =>
      simp only [fileResult]
      split
      · exact one a b
      · split
        · exact one b a
        · exact two result a result b
  | difference =>
      simp only [fileResult]
      split
      · exact one result a
      · split
        · exact ⟨_, forest.inclusions, rfl⟩
        · exact ⟨forest.intersections, forest.inclusions, rfl⟩

/-- Counting only counts. -/
theorem exists_tallyOperation_eq (forest : Forest K n) (operation : Operation)
    (outcome : Outcome) :
    ∃ counters, forest.tallyOperation operation outcome = { forest with counters } :=
  ⟨_, rfl⟩

/-- Settling in its four steps. -/
theorem settle_apply (forest : Forest K n) (operation : Operation) (a b : Index)
    (content : Content K) :
    settle operation a b content forest =
      ((forest.intern content).1.index,
        ((((forest.intern content).2.tallyOperation operation
          (.ofMiss (forest.intern content).1.cold)).remember operation (operation.operands a b)
            (forest.intern content).1.index).fileResult operation a b
              (forest.intern content).1.index)) :=
  rfl

/-- Settling stores the content and writes to the tables, and leaves all else as it is. -/
theorem exists_settle_eq (forest : Forest K n) (operation : Operation) (a b : Index)
    (content : Content K) :
    ∃ unions intersections differences inclusions counters,
      (settle operation a b content forest).2 =
        { forest with
          sets := (forest.sets.intern content).2
          unions, intersections, differences, inclusions, counters } := by
  rw [settle_apply]
  generalize (forest.intern content).1 = registered
  rcases forest.exists_intern_eq content with ⟨counted, stored⟩
  rw [stored]
  rcases exists_tallyOperation_eq
    { forest with
      sets := (forest.sets.intern content).2
      counters := counted } operation (.ofMiss registered.cold) with ⟨counters, tallied⟩
  rw [tallied]
  rcases exists_remember_eq
    { forest with
      sets := (forest.sets.intern content).2
      counters } operation (operation.operands a b) registered.index with
        ⟨unions, intersections, differences, remembered⟩
  rw [remembered]
  rcases exists_fileResult_eq
    { forest with
      sets := (forest.sets.intern content).2
      unions, intersections, differences, counters } operation a b registered.index with
        ⟨filed, inclusions, shown⟩
  exact ⟨unions, filed, differences, inclusions, counters, shown⟩

theorem evolves_settle (forest : Forest K n) (operation : Operation) (a b : Index)
    (content : Content K) : forest.Evolves (settle operation a b content forest).2 := by
  rcases forest.exists_settle_eq operation a b content with
    ⟨unions, intersections, differences, inclusions, counters, settled⟩
  rw [settled]
  exact ⟨rfl, rfl, rfl, [.intern content], rfl⟩

end Forest

end SetForest
