import SetForest.Proofs.Forest.Dependable
import SetForest.Proofs.Storage.Evicted

namespace SetForest

/-!
# The balance of a forest

The statistics of a forest are counted on many branches of its actions.  That nothing
is counted twice or forgotten is stated against a ledger, which is kept from outside: it
says how often each kind of event has occurred (`Event`), whatever the forest counts.

A forest balances if its counters agree with the ledger and with its storage
(`Forest.Balanced`).  A content that was just stored has yet to be attributed to an
outcome, and is owed until then.  How many results are remembered is another matter.
Those that had to be computed are, while nothing is evicted (`Forest.Tabled`).
-/

/-- What the statistics of a forest account for. -/
inductive Event where
  | registered
  | applied (operation : Operation)
  | filtered
  /-- An update stored a new content. -/
  | extended
  /-- A resident content was evicted. -/
  | dropped
deriving DecidableEq, Repr

/-- How often each event occurred in one forest. -/
abbrev Ledger := Event → Nat

/-- Enter one more event. -/
def Ledger.enter (ledger : Ledger) (event : Event) : Ledger := fun other =>
  if other = event then ledger other + 1 else ledger other

@[simp] theorem Ledger.enter_self (ledger : Ledger) (event : Event) :
    ledger.enter event event = ledger event + 1 :=
  if_pos rfl

@[simp] theorem Ledger.enter_of_ne {ledger : Ledger} {event other : Event}
    (different : other ≠ event) : ledger.enter event other = ledger other :=
  if_neg different

/-- A result had to be computed. -/
def Outcome.IsMiss (outcome : Outcome) : Prop :=
  outcome = .coldMiss ∨ outcome = .edgeMiss

instance (outcome : Outcome) : Decidable outcome.IsMiss :=
  inferInstanceAs (Decidable (_ ∨ _))

theorem Outcome.isMiss_ofMiss (cold : Bool) : (Outcome.ofMiss cold).IsMiss := by
  cases cold with
  | true => exact Or.inl rfl
  | false => exact Or.inr rfl

theorem Outcome.ofMiss_eq_coldMiss_iff (cold : Bool) :
    Outcome.ofMiss cold = .coldMiss ↔ cold = true := by
  cases cold <;> decide

namespace Tally

theorem coldMisses_record (tally : Tally) (outcome : Outcome) :
    (tally.record outcome).coldMisses =
      tally.coldMisses + if outcome = .coldMiss then 1 else 0 := by
  cases outcome <;> rfl

theorem misses_record (tally : Tally) (outcome : Outcome) :
    (tally.record outcome).misses = tally.misses + if outcome.IsMiss then 1 else 0 := by
  cases outcome with
  | coldMiss => exact Nat.add_right_comm _ _ _
  | _ => rfl

end Tally

namespace Counters

/-- The tally of a lattice operation. -/
def tally (counters : Counters) : Operation → Tally
  | .union => counters.unions
  | .intersection => counters.intersections
  | .difference => counters.differences

/-- What was counted of each event.  Updates are not counted by themselves. -/
def ledger (counters : Counters) : Ledger
  | .registered => counters.propertySets.total
  | .applied operation => (counters.tally operation).total
  | .filtered => counters.filters.total
  | .extended => 0
  | .dropped => counters.evictions

/-- The new contents that were counted. -/
def coldMisses (counters : Counters) : Nat :=
  counters.propertySets.coldMisses + counters.unions.coldMisses +
    counters.intersections.coldMisses + counters.differences.coldMisses +
    counters.filters.coldMisses

/-- One outcome of a kind of work was counted, and nothing else. -/
structure Recorded (counters later : Counters) (event : Event) (outcome : Outcome) : Prop where
  ledger : later.ledger = counters.ledger.enter event
  coldMisses : later.coldMisses = counters.coldMisses + if outcome = .coldMiss then 1 else 0
  evictions : later.evictions = counters.evictions
  restorations : later.restorations = counters.restorations

end Counters

namespace Forest

variable {K : Type} [Key K] {n : Nat} {forest later : Forest K n} {ledger : Ledger}
  {owed : Nat} {outcome : Outcome}

/-! ## Counting -/

theorem recorded_tallyRegistration (forest : Forest K n) (outcome : Outcome) :
    forest.counters.Recorded (forest.tallyRegistration outcome).counters .registered outcome := by
  refine ⟨funext ?_, ?_, rfl, rfl⟩
  · rintro (_ | operation | _ | _ | _)
    · exact Tally.total_record _ _
    · cases operation <;> rfl
    · rfl
    · rfl
    · rfl
  · simp only [tallyRegistration, Counters.coldMisses, Tally.coldMisses_record]
    omega

theorem recorded_tallyFilter (forest : Forest K n) (outcome : Outcome) :
    forest.counters.Recorded (forest.tallyFilter outcome).counters .filtered outcome := by
  refine ⟨funext ?_, ?_, rfl, rfl⟩
  · rintro (_ | operation | _ | _ | _)
    · rfl
    · cases operation <;> rfl
    · exact Tally.total_record _ _
    · rfl
    · rfl
  · simp only [tallyFilter, Counters.coldMisses, Tally.coldMisses_record]
    omega

theorem tally_tallyOperation (forest : Forest K n) (operation other : Operation)
    (outcome : Outcome) :
    (forest.tallyOperation operation outcome).counters.tally other =
      if other = operation then (forest.counters.tally operation).record outcome
      else forest.counters.tally other := by
  cases operation <;> cases other <;> rfl

theorem recorded_tallyOperation (forest : Forest K n) (operation : Operation)
    (outcome : Outcome) :
    forest.counters.Recorded (forest.tallyOperation operation outcome).counters
      (.applied operation) outcome := by
  refine ⟨funext ?_, ?_, ?_, ?_⟩
  · rintro (_ | other | _ | _ | _)
    · cases operation <;> rfl
    · rw [Counters.ledger, tally_tallyOperation, Ledger.enter]
      by_cases same : other = operation
      · rw [if_pos same, if_pos (congrArg Event.applied same), same]
        exact Tally.total_record _ _
      · rw [if_neg same, if_neg fun equal => same (Event.applied.inj equal)]
        rfl
    · cases operation <;> rfl
    · cases operation <;> rfl
    · cases operation <;> rfl
  · cases operation <;>
      simp only [tallyOperation, Counters.coldMisses, Tally.coldMisses_record] <;> omega
  · cases operation <;> rfl
  · cases operation <;> rfl

/-! ## Counters and storage -/

/-- The counters agree with the ledger and with the storage, apart from some contents
that were just stored. -/
structure Balanced (forest : Forest K n) (owed : Nat) (ledger : Ledger) : Prop
    extends forest.Dependable where
  counted : ∀ event, event ≠ .extended → forest.counters.ledger event = ledger event
  evictions : forest.counters.evictions =
    forest.counters.restorations + forest.sets.evicted.card
  stored : forest.size = 1 + forest.counters.coldMisses + ledger .extended + owed

namespace Balanced

/-- Only the storage, the counters and what is remembered matter. -/
theorem of_eq (balanced : forest.Balanced owed ledger) (sets : later.sets = forest.sets)
    (counters : later.counters = forest.counters)
    (memo : ∀ operation, later.memo operation = forest.memo operation) :
    later.Balanced owed ledger := by
  have size : later.size = forest.size := congrArg Arena.size sets
  refine ⟨balanced.toDependable.of_eq sets memo, ?_, ?_, ?_⟩
  · rw [counters]
    exact balanced.counted
  · rw [counters, sets]
    exact balanced.evictions
  · rw [counters, size]
    exact balanced.stored

/-- Outcomes are counted with the events that they belong to.  A cold miss pays for a
content that was owed. -/
theorem recorded {counters : Counters} {event : Event}
    (balanced : forest.Balanced (owed + if outcome = .coldMiss then 1 else 0) ledger)
    (recorded : forest.counters.Recorded counters event outcome) (counts : event ≠ .extended) :
    { forest with counters }.Balanced owed (ledger.enter event) := by
  have stored := balanced.stored
  refine ⟨balanced.toDependable.of_eq rfl (fun operation => by cases operation <;> rfl), ?_, ?_, ?_⟩
  · intro other notExtended
    change counters.ledger other = _
    rw [recorded.ledger, Ledger.enter, Ledger.enter, balanced.counted other notExtended]
  · change counters.evictions = counters.restorations + _
    rw [recorded.evictions, recorded.restorations]
    exact balanced.evictions
  · change forest.size = 1 + counters.coldMisses + _ + _
    rw [recorded.coldMisses, Ledger.enter_of_ne (Ne.symm counts)]
    omega

/-- A new content is owed, and one that comes back is counted as restored. -/
theorem intern (balanced : forest.Balanced owed ledger) (content : Content K) :
    (forest.intern content).2.Balanced
      (owed + if (forest.intern content).1.cold then 1 else 0) ledger := by
  have change : Change (fun _ => True) forest (forest.intern content).2 := .stored content trivial
  have dependable := balanced.toDependable.change change
  have size := balanced.canonical.size_intern content
  have evicted := balanced.canonical.card_evicted_intern content
  have evictions := balanced.evictions
  have stored := balanced.stored
  rw [intern_eq] at dependable ⊢
  refine ⟨dependable, ?_, ?_, ?_⟩
  · intro event notExtended
    rw [← balanced.counted event notExtended]
    dsimp only
    split
    · cases event <;> rfl
    · rfl
  · dsimp only
    split at evicted
    · next restored =>
        rw [if_pos restored]
        dsimp only
        omega
    · next others =>
        rw [if_neg others]
        omega
  · have cold : (if (forest.sets.intern content).1.2 = .restored then
        { forest.counters with restorations := forest.counters.restorations + 1 }
        else forest.counters).coldMisses = forest.counters.coldMisses := by
      split <;> rfl
    change (forest.sets.intern content).2.size = _
    rw [cold, size]
    simp only [decide_eq_true_eq]
    rw [Forest.size] at stored
    omega

/-- A stored content is counted with the event that it was stored for. -/
theorem intern_recorded (balanced : forest.Balanced 0 ledger) (content : Content K)
    {counters : Counters} {event : Event}
    (recorded : (forest.intern content).2.counters.Recorded counters event outcome)
    (counts : event ≠ .extended)
    (cold : outcome = .coldMiss ↔ (forest.intern content).1.cold = true) :
    { (forest.intern content).2 with counters }.Balanced 0 (ledger.enter event) := by
  refine Balanced.recorded ?_ recorded counts
  simp only [cold]
  exact balanced.intern content

/-- A new content that is owed may be entered as one of an update. -/
theorem enter_extended (balanced : forest.Balanced 1 ledger) :
    forest.Balanced 0 (ledger.enter .extended) := by
  refine ⟨balanced.toDependable, ?_, balanced.evictions, ?_⟩
  · intro event notExtended
    rw [Ledger.enter_of_ne notExtended]
    exact balanced.counted event notExtended
  · have stored := balanced.stored
    rw [Ledger.enter_self]
    omega

/-- An eviction that is counted is entered. -/
theorem countEviction (balanced : forest.Balanced owed ledger) {index : Index} {resident : Bool}
    {sets : Arena (Element K)} (notEmpty : index ≠ Index.empty)
    (evicted : forest.sets.evict index = .ok (resident, sets)) :
    (Forest.countEviction { forest with sets } resident).Balanced owed
      (if resident then ledger.enter .dropped else ledger) := by
  have change : Change (fun _ => True) forest { forest with sets } :=
    .dropped index resident sets notEmpty evicted
  have dependable := balanced.toDependable.change change
  have card := balanced.canonical.card_evicted_evict evicted
  have size : sets.size = forest.size := balanced.canonical.size_evict evicted
  have evictions := balanced.evictions
  cases resident with
  | false =>
      refine ⟨dependable, balanced.counted, ?_, ?_⟩
      · change forest.counters.evictions = _ + sets.evicted.card
        rw [card]
        exact evictions
      · exact size.trans balanced.stored
  | true =>
      refine ⟨dependable.of_eq rfl fun operation => by cases operation <;> rfl, ?_, ?_, ?_⟩
      · intro event notExtended
        rw [if_pos rfl, Ledger.enter, ← balanced.counted event notExtended]
        cases event with
        | applied operation => cases operation <;> rfl
        | _ => rfl
      · change forest.counters.evictions + 1 = forest.counters.restorations + sets.evicted.card
        rw [if_pos rfl] at card
        omega
      · exact size.trans balanced.stored

theorem create (config : Config) (strategy : Strategy) (children : List (Fin n)) :
    (Forest.create config strategy children : Forest K n).Balanced 0 (fun _ => 0) := by
  have created : (Arena.create strategy config.blockSize : Arena (Element K)).Canonical :=
    Arena.canonical_create strategy config.blockSize
  have none : (Arena.create strategy config.blockSize : Arena (Element K)).size = 0 := by
    cases strategy <;> rfl
  rcases created.intern_new (not_denotes_created strategy config.blockSize · []) with
    ⟨-, -, size⟩
  have evicted := created.card_evicted_intern []
  rw [Arena.evicted, none] at evicted
  rw [none] at size
  refine ⟨.create config strategy children, ?_, ?_, size⟩
  · intro event _
    cases event with
    | applied operation => cases operation <;> rfl
    | _ => rfl
  · rw [Finset.range_zero, Finset.filter_empty, Finset.card_empty] at evicted
    exact (Nat.eq_zero_of_add_eq_zero_right evicted.symm).symm.trans (Nat.zero_add _).symm

end Balanced

/-! ## What is remembered -/

/-- Every result that had to be computed is remembered, and a difference may be
remembered as an intersection besides. -/
structure Tabled (forest : Forest K n) : Prop where
  size_eq : ∀ operation, operation ≠ .intersection →
    (forest.memo operation).size = (forest.counters.tally operation).misses
  le_size : (forest.counters.tally .intersection).misses ≤ (forest.memo .intersection).size
  size_le : (forest.memo .intersection).size ≤
    (forest.counters.tally .intersection).misses + (forest.counters.tally .difference).misses

/-- No more results are remembered, and none had to be computed. -/
structure SameResults (forest later : Forest K n) : Prop where
  memo : ∀ operation, later.memo operation = forest.memo operation
  misses : ∀ operation,
    (later.counters.tally operation).misses = (forest.counters.tally operation).misses

theorem Tabled.of_same (tabled : forest.Tabled) (same : forest.SameResults later) :
    later.Tabled := by
  refine ⟨?_, ?_, ?_⟩
  · intro operation notIntersection
    rw [same.memo, same.misses]
    exact tabled.size_eq operation notIntersection
  · rw [same.memo, same.misses]
    exact tabled.le_size
  · rw [same.memo, same.misses, same.misses]
    exact tabled.size_le

namespace SameResults

theorem trans {last : Forest K n} (first : forest.SameResults later)
    (second : later.SameResults last) : forest.SameResults last where
  memo := fun operation => (second.memo operation).trans (first.memo operation)
  misses := fun operation => (second.misses operation).trans (first.misses operation)

theorem note (forest : Forest K n) (activity : Activity) :
    forest.SameResults (forest.note activity) := by
  rw [note_eq]
  exact ⟨fun operation => by cases operation <;> rfl, fun _ => rfl⟩

theorem intern (forest : Forest K n) (content : Content K) :
    forest.SameResults (forest.intern content).2 := by
  have change : Change (fun _ => True) forest (forest.intern content).2 := .stored content trivial
  refine ⟨change.memo_eq, ?_⟩
  intro operation
  rw [intern_eq]
  dsimp only
  split
  · cases operation <;> rfl
  · rfl

theorem fileInclusion (forest : Forest K n) (sub sup : Index) :
    forest.SameResults (forest.fileInclusion sub sup) := by
  rcases forest.exists_fileInclusion_eq sub sup with ⟨inclusions, filed⟩
  rw [filed]
  exact ⟨fun operation => by cases operation <;> rfl, fun _ => rfl⟩

theorem countEviction (forest : Forest K n) (sets : Arena (Element K)) (resident : Bool) :
    forest.SameResults (Forest.countEviction { forest with sets } resident) := by
  refine ⟨?_, ?_⟩ <;> intro operation <;> cases resident <;> cases operation <;> rfl

theorem tallyRegistration (forest : Forest K n) (outcome : Outcome) :
    forest.SameResults (forest.tallyRegistration outcome) :=
  ⟨fun operation => by cases operation <;> rfl, fun operation => by cases operation <;> rfl⟩

theorem tallyFilter (forest : Forest K n) (outcome : Outcome) :
    forest.SameResults (forest.tallyFilter outcome) :=
  ⟨fun operation => by cases operation <;> rfl, fun operation => by cases operation <;> rfl⟩

/-- A result that did not have to be computed is not remembered anew. -/
theorem tallyOperation (forest : Forest K n) (operation : Operation)
    (notMissed : ¬outcome.IsMiss) :
    forest.SameResults (forest.tallyOperation operation outcome) := by
  refine ⟨fun other => by cases operation <;> cases other <;> rfl, ?_⟩
  intro other
  rw [tally_tallyOperation]
  split
  · next same => rw [Tally.misses_record, if_neg notMissed, same, Nat.add_zero]
  · rfl

end SameResults

/-- One more result is remembered when a new one is settled.  A difference that leaves
its operand as it is may be remembered as an empty intersection, too. -/
theorem size_memo_settle (forest : Forest K n) (operation other : Operation) (a b : Index)
    (content : Content K)
    (new : (forest.memo operation).lookup (operation.operands a b) = none) :
    let later := (settle operation a b content forest).2
    let computed := (forest.memo other).size + if other = operation then 1 else 0
    computed ≤ (later.memo other).size ∧ (later.memo other).size ≤
      computed + if operation = .difference ∧ other = .intersection then 1 else 0 := by
  intro later computed
  let tallied := (forest.intern content).2.tallyOperation operation
    (.ofMiss (forest.intern content).1.cold)
  let r := (forest.intern content).1.index
  let remembered := tallied.remember operation (operation.operands a b) r
  have sameMemo : ∀ kind, tallied.memo kind = forest.memo kind := by
    intro kind
    rw [← (SameResults.intern forest content).memo kind]
    cases operation <;> cases kind <;> rfl
  have size : (remembered.memo other).size = computed := by
    rw [tallied.memo_remember operation other, sameMemo, sameMemo]
    by_cases same : other = operation
    · rw [if_pos same, Table.size_store, new]
      simp only [computed, same, if_pos, Option.isSome_none, Bool.false_eq_true, if_false]
    · rw [if_neg same]
      simp only [computed, if_neg same, Nat.add_zero]
  have later_eq : later = remembered.fileResult operation a b r := rfl
  rw [later_eq]
  rcases remembered.memo_fileResult operation other a b r with same | ⟨-, rfl, rfl, filed⟩
  · rw [same, size]
    exact ⟨Nat.le_refl _, Nat.le_add_right _ _⟩
  · rw [filed, Table.size_store, size]
    split
    · exact ⟨Nat.le_refl _, Nat.le_add_right _ _⟩
    · exact ⟨Nat.le_add_right _ _, Nat.le_refl _⟩

/-- Settling counts one miss and stores what it is given. -/
theorem counters_settle (forest : Forest K n) (operation : Operation) (a b : Index)
    (content : Content K) :
    (settle operation a b content forest).2.counters =
        ((forest.intern content).2.tallyOperation operation
          (.ofMiss (forest.intern content).1.cold)).counters ∧
      (settle operation a b content forest).2.sets = (forest.intern content).2.sets := by
  rw [settle_apply]
  generalize (forest.intern content).2 = stored
  generalize (forest.intern content).1 = registered
  have tallied :
      (stored.tallyOperation operation (.ofMiss registered.cold)).sets = stored.sets := by
    cases operation <;> rfl
  rw [← tallied]
  generalize stored.tallyOperation operation (.ofMiss registered.cold) = tallied
  rcases tallied.exists_remember_eq operation (operation.operands a b) registered.index with
    ⟨unions, intersections, differences, remembered⟩
  rw [remembered]
  rcases exists_fileResult_eq { tallied with unions, intersections, differences } operation a b
    registered.index with ⟨filed, inclusions, shown⟩
  rw [shown]
  exact ⟨rfl, rfl⟩

theorem Balanced.settle (balanced : forest.Balanced 0 ledger) (operation : Operation)
    (a b : Index) (content : Content K) :
    (Forest.settle operation a b content forest).2.Balanced 0
      (ledger.enter (.applied operation)) := by
  rcases forest.counters_settle operation a b content with ⟨counters, sets⟩
  have recorded := (forest.intern content).2.recorded_tallyOperation operation
    (.ofMiss (forest.intern content).1.cold)
  rw [← counters] at recorded
  have counted := balanced.intern_recorded content recorded nofun
    (Outcome.ofMiss_eq_coldMiss_iff _)
  have size : (Forest.settle operation a b content forest).2.size =
      (forest.intern content).2.size := congrArg Arena.size sets
  refine ⟨balanced.toDependable.settle operation a b content, counted.counted, ?_, ?_⟩
  · rw [sets]
    exact counted.evictions
  · rw [size]
    exact counted.stored

theorem Tabled.settle (tabled : forest.Tabled) (operation : Operation) (a b : Index)
    (content : Content K)
    (new : (forest.memo operation).lookup (operation.operands a b) = none) :
    (Forest.settle operation a b content forest).2.Tabled := by
  have sizes := fun other => forest.size_memo_settle operation other a b content new
  have misses : ∀ other,
      ((Forest.settle operation a b content forest).2.counters.tally other).misses =
        (forest.counters.tally other).misses + if other = operation then 1 else 0 := by
    intro other
    rw [(forest.counters_settle operation a b content).1, tally_tallyOperation]
    have stored := (SameResults.intern forest content).misses
    split
    · next same =>
        rw [Tally.misses_record, if_pos (Outcome.isMiss_ofMiss _), stored, same]
    · rw [stored, Nat.add_zero]
  refine ⟨?_, ?_, ?_⟩
  · intro other notIntersection
    rcases sizes other with ⟨least, most⟩
    have onlyOnce : ¬(operation = .difference ∧ other = .intersection) :=
      fun both => notIntersection both.2
    rw [if_neg onlyOnce] at most
    rw [misses, ← tabled.size_eq other notIntersection]
    exact Nat.le_antisymm most least
  · rw [misses]
    exact Nat.le_trans (Nat.add_le_add_right tabled.le_size _) (sizes .intersection).1
  · rcases sizes .intersection with ⟨-, most⟩
    have before := tabled.size_le
    rw [misses, misses]
    cases operation <;> simp at most ⊢ <;> omega

end Forest

end SetForest
