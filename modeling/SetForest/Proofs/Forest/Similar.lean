import SetForest.Proofs.Forest.Lockstep
import SetForest.Proofs.Forest.Residence
import SetForest.Proofs.Storage.Resemblance

namespace SetForest

/-!
# Similar forests

Two forests are similar if their arenas resemble each other and their tables are the
same, and they have noted the same work.  The storage strategies may differ.  If the
resemblance is exact, they have also counted the same.

Each action of a forest keeps similar forests in lockstep.  For lattice operations
and filterings this asks for one thing more, that the two forests agree on which of
the remembered results are of use.
-/

/-- Two outcomes of a filtering that agree, except that an inexact resemblance
allows different numbers of calls. -/
def Filtered.Alike (isExact : Prop) (first second : Filtered) : Prop :=
  first.index = second.index ∧ (isExact → first.calls = second.calls) ∧
    first.cache = second.cache

theorem Filtered.Alike.refl (isExact : Prop) (filtered : Filtered) :
    filtered.Alike isExact filtered :=
  ⟨rfl, fun _ => rfl, rfl⟩

namespace Forest

variable {K : Type} [Key K] {n : Nat} {α : Type}

/-- Forests that answer alike. -/
structure Similar (sim : Resemblance (Element K)) (x y : Forest K n) : Prop where
  config : x.config = y.config
  children : x.children = y.children
  sets : sim.alike x.sets y.sets
  unions : x.unions = y.unions
  intersections : x.intersections = y.intersections
  differences : x.differences = y.differences
  inclusions : x.inclusions = y.inclusions
  counters : sim.exact → x.counters = y.counters
  activities : x.activities = y.activities

/-- Two outcomes of actions on similar forests. -/
abbrev InStep (sim : Resemblance (Element K)) :
    Except Error α × Forest K n → Except Error α × Forest K n → Prop :=
  Lockstep sim.Excuses (Similar sim) Eq

variable {sim : Resemblance (Element K)} {x y : Forest K n}

namespace Similar

/-! ## Writing -/

theorem count (similar : Similar sim x y) {counters counters' : Counters}
    (countedAlike : sim.exact → counters = counters') :
    Similar sim { x with counters } { y with counters := counters' } :=
  { similar with counters := countedAlike }

theorem note (similar : Similar sim x y) (activity : Activity) :
    Similar sim (x.note activity) (y.note activity) := by
  rw [note_eq, note_eq]
  refine { similar with activities := ?_ }
  rw [similar.config, similar.activities]

theorem tallyRegistration (similar : Similar sim x y) (outcome : Outcome) :
    Similar sim (x.tallyRegistration outcome) (y.tallyRegistration outcome) :=
  similar.count fun isExact => by rw [similar.counters isExact]

theorem tallyFilter (similar : Similar sim x y) (outcome : Outcome) :
    Similar sim (x.tallyFilter outcome) (y.tallyFilter outcome) :=
  similar.count fun isExact => by rw [similar.counters isExact]

theorem tallyOperation (similar : Similar sim x y) (operation : Operation) (outcome : Outcome) :
    Similar sim (x.tallyOperation operation outcome) (y.tallyOperation operation outcome) :=
  similar.count fun isExact => by rw [similar.counters isExact]

theorem intern (similar : Similar sim x y) (content : Content K) :
    (x.intern content).1 = (y.intern content).1 ∧
      Similar sim (x.intern content).2 (y.intern content).2 := by
  rw [intern_eq, intern_eq]
  refine ⟨?_, similar.config, similar.children, sim.intern _ _ similar.sets content,
    similar.unions, similar.intersections, similar.differences, similar.inclusions, ?_,
    similar.activities⟩
  · have cold := sim.cold_intern _ _ similar.sets content
    rw [sim.index_intern _ _ similar.sets content, decide_eq_decide.mpr cold]
  · intro isExact
    rw [sim.exact_intern _ _ similar.sets isExact content, similar.counters isExact]

theorem remember (similar : Similar sim x y) (operation : Operation) (pair : Operands)
    (result : Index) :
    Similar sim (x.remember operation pair result) (y.remember operation pair result) := by
  cases operation with
  | union => exact { similar with unions := congrArg (·.store pair result) similar.unions }
  | intersection =>
      exact { similar with intersections := congrArg (·.store pair result) similar.intersections }
  | difference =>
      exact { similar with differences := congrArg (·.store pair result) similar.differences }

theorem fileInclusion (similar : Similar sim x y) (sub sup : Index) :
    Similar sim (x.fileInclusion sub sup) (y.fileInclusion sub sup) := by
  rw [Forest.fileInclusion, Forest.fileInclusion]
  split
  · exact similar
  · exact { similar with
      inclusions := congrArg (fun table => Table.store table _ _) similar.inclusions }

/-- Similar forests hand out the same indices and write the same. -/
theorem kept (sim : Resemblance (Element K)) : Kept (Similar (n := n) sim) where
  children := Similar.children
  note := note
  tallyRegistration := tallyRegistration
  tallyFilter := tallyFilter
  tallyOperation := tallyOperation
  intern := intern
  remember := remember
  fileInclusion := fileInclusion

/-! ## Reading -/

theorem size (similar : Similar sim x y) : x.size = y.size :=
  sim.size _ _ similar.sets

theorem checkIndex (similar : Similar sim x y) (index : Index) :
    x.checkIndex index = y.checkIndex index := by
  rw [Forest.checkIndex, Forest.checkIndex, similar.size]

theorem readsAlike (similar : Similar sim x y) : ReadsAlike sim.Excuses x y :=
  ⟨similar.checkIndex, sim.reads_get similar.sets⟩

theorem content (similar : Similar sim x y) (index : Index) :
    Reads sim.Excuses (x.content index) (y.content index) :=
  similar.readsAlike.content index

theorem filedInclusion (similar : Similar sim x y) (a b : Index) :
    x.filedInclusion a b = y.filedInclusion a b := by
  rw [Forest.filedInclusion, Forest.filedInclusion, similar.inclusions]

theorem memo (similar : Similar sim x y) (operation : Operation) :
    x.memo operation = y.memo operation := by
  cases operation with
  | union => exact similar.unions
  | intersection => exact similar.intersections
  | difference => exact similar.differences

theorem shortcut (similar : Similar sim x y) (operation : Operation) (a b : Index) :
    x.shortcut operation a b = y.shortcut operation a b := by
  simp only [Forest.shortcut, similar.filedInclusion]

theorem inclusion (similar : Similar sim x y) (a b : Index) :
    x.inclusion a b = y.inclusion a b := by
  simp only [Forest.inclusion, similar.checkIndex, similar.filedInclusion]

theorem findKey (similar : Similar sim x y) (index : Index) (key : K) :
    Reads sim.Excuses (x.findKey index key) (y.findKey index key) := by
  rw [Forest.findKey, Forest.findKey, similar.config]
  exact (similar.content index).bind fun _ => Reads.refl _

theorem contains (similar : Similar sim x y) (index : Index) (key : K) :
    Reads sim.Excuses (x.contains index key) (y.contains index key) := by
  rw [Forest.contains, Forest.contains, similar.config]
  exact (similar.content index).bind fun _ => Reads.refl _

theorem setText [ToString K] (similar : Similar sim x y) (index : Index) :
    Reads sim.Excuses (x.setText index) (y.setText index) := by
  rw [Forest.setText, Forest.setText]
  exact (similar.content index).bind fun _ => Reads.refl _

theorem sizeOf (similar : Similar sim x y) (index : Index) :
    Reads sim.Excuses (x.sizeOf index) (y.sizeOf index) := by
  rw [Forest.sizeOf, Forest.sizeOf]
  exact (similar.content index).bind fun _ => Reads.refl _

theorem nestedOf (similar : Similar sim x y) (index : Index) (key : K) (child : Nat) :
    Reads sim.Excuses (x.nestedOf index key child) (y.nestedOf index key child) := by
  rw [Forest.nestedOf, Forest.nestedOf, similar.children]
  split
  · exact Reads.refl _
  · exact (similar.findKey index key).bind fun _ => Reads.refl _

end Similar

/-! ## The actions -/

/-- An action that does the same to similar forests. -/
def Respects (sim : Resemblance (Element K)) (action : ForestM K n α) : Prop :=
  ∀ x y, Similar sim x y → InStep sim (action x) (action y)

theorem respects_registerSet (content : Content K) :
    Respects sim (registerSet content : ForestM K n Registered) := by
  intro x y similar
  exact (Similar.kept sim).lockstep_registerSet similar
    (Or.inl (congrArg Config.integrityChecks similar.config))

theorem respects_registerSingle (element : Element K) :
    Respects sim (ExceptT.lift (registerSingle element) : ForestM K n Registered) :=
  fun _ _ similar => (Similar.kept sim).lockstep_registerSingle similar element

theorem respects_registerUnordered (elements : List (Element K)) :
    Respects sim (registerUnordered elements : ForestM K n Registered) :=
  fun _ _ similar => (Similar.kept sim).lockstep_registerUnordered similar elements

theorem respects_updateKey (index : Index) (element : Element K) :
    Respects sim (updateKey index element : ForestM K n Index) := by
  intro x y similar
  have noted := similar.note .keyUpdate
  exact (Similar.kept sim).lockstep_updateKey element rfl rfl noted (noted.content index)

theorem respects_removeKey (index : Index) (key : K) :
    Respects sim (removeKey index key : ForestM K n Index) := by
  intro x y similar
  have noted := similar.note .keyRemoval
  refine (Similar.kept sim).lockstep_removeKey rfl rfl noted (noted.content index) ?_
  intro content _
  rw [noted.config]

/-- The forests agree on whether a remembered result is of use. -/
def Agrees (x y : Forest K n) (remembered : Option Index) : Prop :=
  ∀ result, remembered = some result → x.sets.isEvicted result = y.sets.isEvicted result

theorem Agrees.usable? {remembered : Option Index} (agrees : Agrees x y remembered) :
    x.usable? remembered = y.usable? remembered := by
  cases remembered with
  | none => rfl
  | some result => simp only [Forest.usable?, agrees result rfl]

/-- Working on a note does not affect what is of use. -/
theorem Agrees.note {remembered : Option Index} (agrees : Agrees x y remembered)
    (activity : Activity) : Agrees (x.note activity) (y.note activity) remembered := by
  intro result found
  rw [note_eq, note_eq]
  exact agrees result found

/-- Consultations are in lockstep if the forests agree on the remembered result, or
need none. -/
theorem inStep_consult (similar : Similar sim x y) (operation : Operation) (a b : Index)
    (agrees : x.shortcut operation a b = none →
      Agrees x y ((x.memo operation).lookup (operation.operands a b))) :
    InStep sim (consult operation a b x) (consult operation a b y) := by
  have noted := similar.note (.operation operation)
  have agreesNoted := fun none => (agrees none).note (.operation operation)
  rw [show x.memo operation = (x.note (.operation operation)).memo operation by
    rw [note_eq]; cases operation <;> rfl,
    show x.shortcut operation a b = (x.note (.operation operation)).shortcut operation a b by
      rw [note_eq]; rfl, noted.shortcut operation a b] at agreesNoted
  refine (Similar.kept sim).lockstep_consult rfl rfl noted noted.readsAlike
    (noted.shortcut operation a b) ?_
  intro found
  rw [← noted.memo operation]
  exact (agreesNoted found).usable?

/-- Filterings are in lockstep if the forests agree on the cached result, or need none. -/
theorem inStep_filter (similar : Similar sim x y) (index : Index)
    (predicate : Element K → Bool) (cache : FilterCache)
    (agrees : index ≠ Index.empty → Agrees x y (cache.lookup index)) :
    InStep sim (filter index predicate cache x) (filter index predicate cache y) := by
  have noted := similar.note .filtering
  refine (Similar.kept sim).lockstep_filter predicate rfl rfl noted noted.readsAlike ?_
  intro notEmpty
  exact ((agrees notEmpty).note .filtering).usable?

end Forest

end SetForest
