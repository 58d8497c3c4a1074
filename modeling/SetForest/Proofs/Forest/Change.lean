import Mathlib.Logic.Relation
import SetForest.Forest.Filter
import SetForest.Forest.Register
import SetForest.Forest.Update
import SetForest.Proofs.Action
import SetForest.Proofs.Forest.Tables
import SetForest.Proofs.Storage.History

namespace SetForest

/-!
# How a forest changes by itself

Whatever a caller asks of a single forest, the forest changes in one of five
ways.  Something is recorded about the work.  A given content is stored.  An
element is put into a stored content.  A part of a stored content is stored and
filed as such.  A content is dropped.

`Forest.Change` lists these ways with everything that is known when they occur,
and every action on a single forest is a sequence of them.  A property that
survives each of the five thus survives every action.  How an action can go, with
its answer and all that it counts, is listed for each action before that
(`Forest.Registration`, `Removal`, `Updating`, `Eviction` and `Filtering`).

The first such property is about storage alone.  A forest touches its sets only
by interning and evicting, and never changes what it was created with
(`Forest.Evolves`).
-/

namespace Forest

variable {K : Type} [Key K] {n : Nat}

/-- One change of a forest.  What callers may store is a parameter. -/
inductive Change (admits : Content K → Prop) (forest : Forest K n) : Forest K n → Prop where
  | recorded (counters : Counters) (activities : List Activity)
      (kept : forest.activities ⊆ activities) :
      Change admits forest { forest with counters, activities }
  | stored (content : Content K) (admitted : admits content) :
      Change admits forest (forest.intern content).2
  | put (index : Index) (content : Content K) (element : Element K)
      (read : forest.content index = .ok content) (admitted : admits [element]) :
      Change admits forest (forest.intern (content.put element)).2
  | part (index : Index) (content part : Content K) (read : forest.content index = .ok content)
      (sublist : part.Sublist content) :
      Change admits forest
        ((forest.intern part).2.fileInclusion (forest.intern part).1.index index)
  | dropped (index : Index) (resident : Bool) (sets : Arena (Element K))
      (notEmpty : index ≠ Index.empty) (evicted : forest.sets.evict index = .ok (resident, sets)) :
      Change admits forest { forest with sets }

/-- Any number of changes in turn. -/
abbrev Changes (admits : Content K → Prop) : Forest K n → Forest K n → Prop :=
  Relation.ReflTransGen (Change admits)

variable {admits : Content K → Prop}

/-! ## What is recorded -/

theorem changes_note (forest : Forest K n) (activity : Activity) :
    Changes admits forest (forest.note activity) := by
  rw [note]
  split
  · exact .single (.recorded forest.counters _ (List.subset_append_left _ _))
  · exact .refl

theorem changes_tallyRegistration (forest : Forest K n) (outcome : Outcome) :
    Changes admits forest (forest.tallyRegistration outcome) :=
  .single (.recorded _ forest.activities (List.Subset.refl _))

theorem changes_tallyFilter (forest : Forest K n) (outcome : Outcome) :
    Changes admits forest (forest.tallyFilter outcome) :=
  .single (.recorded _ forest.activities (List.Subset.refl _))

/-! ## The actions -/

open SetForest.Action

/-- The ways in which a registration can go, once it is noted. -/
inductive Registration (forest : Forest K n) (content : Content K) :
    Except Error Registered × Forest K n → Prop where
  | refused {violation : Violation} (checks : forest.config.integrityChecks = true)
      (found : content.violation? = some violation) :
      Registration forest content (.error (.integrity violation), forest)
  | empty (isEmpty : content = []) :
      Registration forest content
        (.ok ⟨Index.empty, false⟩, forest.tallyRegistration .emptyHit)
  | stored (accepted : forest.config.integrityChecks = true → content.Increasing) :
      Registration forest content
        (.ok (forest.intern content).1,
          (forest.intern content).2.tallyRegistration
            (if (forest.intern content).1.cold then .coldMiss else .hit))

theorem registration (forest : Forest K n) (content : Content K) :
    Registration (forest.note .registration) content (registerSet content forest) := by
  simp only [registerSet, bind_apply, modify_apply, get_apply]
  generalize forest.note .registration = noted
  have finish (accepted : noted.config.integrityChecks = true → content.Increasing) :
      Registration noted content ((if content.isEmpty then do
          modify (tallyRegistration · .emptyHit)
          return ⟨Index.empty, false⟩
        else do
          let registered ← modifyGet (intern · content)
          modify (tallyRegistration · (if registered.cold then .coldMiss else .hit))
          return registered : ForestM K n Registered) noted) := by
    cases content with
    | nil => exact .empty rfl
    | cons first rest => exact .stored accepted
  by_cases checks : noted.config.integrityChecks = true
  · rw [if_pos checks, Content.check]
    cases found : content.violation? with
    | some violation => exact .refused checks found
    | none => exact finish fun _ => (Content.violation?_eq_none_iff content).mp found
  · rw [if_neg checks]
    exact finish fun checked => absurd checked checks

/-- Registering stores a content if the check does not refuse it. -/
theorem changes_registerSet (forest : Forest K n) (content : Content K)
    (accepted : (forest.config.integrityChecks = true → content.Increasing) → admits content) :
    Changes admits forest (registerSet content forest).2 := by
  have config : (forest.note .registration).config = forest.config := by
    rw [note]
    split <;> rfl
  have noted : Changes admits forest (forest.note .registration) := changes_note forest _
  have ways := registration forest content
  generalize registerSet content forest = outcome at ways
  cases ways with
  | refused checks found => exact noted
  | empty isEmpty => exact noted.trans (changes_tallyRegistration _ _)
  | stored increasing =>
      rw [config] at increasing
      exact (noted.tail (.stored content (accepted increasing))).trans
        (changes_tallyRegistration _ _)

/-- A single element is stored unchecked, and counted like any other set. -/
theorem registerSingle_apply (forest : Forest K n) (element : Element K) :
    (ExceptT.lift (registerSingle element) : ForestM K n Registered) forest =
      (.ok (forest.intern [element]).1,
        (forest.intern [element]).2.tallyRegistration
          (if (forest.intern [element]).1.cold then .coldMiss else .hit)) :=
  rfl

/-- Registering a single element stores the set of that element. -/
theorem changes_registerSingle (forest : Forest K n) (element : Element K)
    (admitted : admits [element]) :
    Changes admits forest (registerSingle element forest).2 :=
  (Relation.ReflTransGen.single (.stored [element] admitted)).trans
    (changes_tallyRegistration _ _)

/-- A collection is stored in its canonical order, if it has one. -/
theorem changes_registerUnordered (forest : Forest K n) (elements : List (Element K))
    (accepted : (Content.prepare elements).Increasing → admits (Content.prepare elements)) :
    Changes admits forest (registerUnordered elements forest).2 := by
  simp only [registerUnordered, bind_apply, liftExcept_apply, Content.check]
  cases violation : (Content.prepare elements).violation? with
  | some violation => exact .refl
  | none =>
      have increasing := (Content.violation?_eq_none_iff _).mp violation
      exact changes_registerSet forest _ (fun _ => accepted increasing)

/-- The ways in which the removal of a key can go, once it is noted. -/
inductive Removal (forest : Forest K n) (index : Index) (key : K) :
    Except Error Index × Forest K n → Prop where
  | unread {error : Error} (notRead : forest.content index = .error error) :
      Removal forest index key (.error error, forest)
  | absent {content : Content K} (read : forest.content index = .ok content)
      (notFound : content.position key forest.config.searchThreshold = none) :
      Removal forest index key (.ok index, forest)
  | removed {content : Content K} {position : Nat} (read : forest.content index = .ok content)
      (found : content.position key forest.config.searchThreshold = some position) :
      Removal forest index key
        (.ok (forest.intern (content.eraseIdx position)).1.index,
          (forest.intern (content.eraseIdx position)).2.fileInclusion
            (forest.intern (content.eraseIdx position)).1.index index)

theorem removal (forest : Forest K n) (index : Index) (key : K) :
    Removal (forest.note .keyRemoval) index key (removeKey index key forest) := by
  simp only [removeKey, bind_apply, modify_apply, get_apply, liftExcept_apply]
  generalize forest.note .keyRemoval = noted
  cases read : noted.content index with
  | error error => exact .unread read
  | ok content =>
      dsimp only
      cases found : content.position key noted.config.searchThreshold with
      | none => exact .absent read found
      | some position => exact .removed read found

theorem changes_removeKey (forest : Forest K n) (index : Index) (key : K) :
    Changes admits forest (removeKey index key forest).2 := by
  have noted : Changes admits forest (forest.note .keyRemoval) := changes_note forest _
  have ways := removal forest index key
  generalize removeKey index key forest = outcome at ways
  cases ways with
  | unread notRead => exact noted
  | absent read notFound => exact noted
  | removed read found =>
      exact noted.tail (.part index _ _ read (List.eraseIdx_sublist _ _))

/-- The ways in which an update can go, once it is noted. -/
inductive Updating (forest : Forest K n) (index : Index) (element : Element K) :
    Except Error Index × Forest K n → Prop where
  | unread {error : Error} (notRead : forest.content index = .error error) :
      Updating forest index element (.error error, forest)
  | updated {content : Content K} (read : forest.content index = .ok content) :
      Updating forest index element
        (.ok (forest.intern (content.put element)).1.index,
          (forest.intern (content.put element)).2)

theorem updating (forest : Forest K n) (index : Index) (element : Element K) :
    Updating (forest.note .keyUpdate) index element (updateKey index element forest) := by
  simp only [updateKey, bind_apply, modify_apply, get_apply, liftExcept_apply]
  generalize forest.note .keyUpdate = noted
  cases read : noted.content index with
  | error error => exact .unread read
  | ok content => exact .updated read

theorem changes_updateKey (forest : Forest K n) (index : Index) (element : Element K)
    (admitted : admits [element]) :
    Changes admits forest (updateKey index element forest).2 := by
  have noted : Changes admits forest (forest.note .keyUpdate) := changes_note forest _
  have ways := updating forest index element
  generalize updateKey index element forest = outcome at ways
  cases ways with
  | unread notRead => exact noted
  | updated read => exact noted.tail (.put index _ element read admitted)

/-- Count a slot that was emptied, if there was something in it. -/
def countEviction (forest : Forest K n) (resident : Bool) : Forest K n :=
  if resident then
    { forest with
      counters := { forest.counters with evictions := forest.counters.evictions + 1 } }
  else forest

/-- The ways in which an eviction can go. -/
inductive Eviction (forest : Forest K n) (index : Index) :
    Except Error Unit × Forest K n → Prop where
  | refused (error : Error) : Eviction forest index (.error error, forest)
  | dropped {resident : Bool} {sets : Arena (Element K)} (notEmpty : index ≠ Index.empty)
      (evicted : forest.sets.evict index = .ok (resident, sets)) :
      Eviction forest index (.ok (), { forest with sets }.countEviction resident)

theorem eviction (forest : Forest K n) (index : Index) :
    Eviction forest index (evict index forest) := by
  simp only [evict, bind_apply, get_apply, liftExcept_apply]
  cases forest.checkIndex index with
  | error error => exact .refused error
  | ok _ =>
      by_cases isEmpty : index = Index.empty
      · rw [if_pos isEmpty]
        exact .refused .emptySetEviction
      · rw [if_neg isEmpty]
        cases evicted : forest.sets.evict index with
        | error error => exact .refused error
        | ok marked =>
            rcases marked with ⟨resident, sets⟩
            cases resident with
            | false => exact .dropped isEmpty evicted
            | true => exact .dropped isEmpty evicted

theorem changes_evict (forest : Forest K n) (index : Index) :
    Changes admits forest (evict index forest).2 := by
  have ways := eviction forest index
  generalize evict index forest = outcome at ways
  cases ways with
  | refused error => exact .refl
  | @dropped resident sets notEmpty evicted =>
      have dropped : Changes admits forest { forest with sets } :=
        .single (.dropped index resident sets notEmpty evicted)
      cases resident with
      | false => exact dropped
      | true => exact dropped.tail (.recorded _ _ (List.Subset.refl _))

/-- Counting and filing do not disturb each other. -/
theorem fileInclusion_tallyFilter (forest : Forest K n) (outcome : Outcome) (sub sup : Index) :
    (forest.tallyFilter outcome).fileInclusion sub sup =
      (forest.fileInclusion sub sup).tallyFilter outcome := by
  rw [fileInclusion, fileInclusion]
  split <;> rfl

/-- The ways in which a filtering can go, once it is noted. -/
inductive Filtering (forest : Forest K n) (index : Index) (predicate : Element K → Bool)
    (cache : FilterCache) : Except Error Filtered × Forest K n → Prop where
  | outside {error : Error} (refused : forest.checkIndex index = .error error) :
      Filtering forest index predicate cache (.error error, forest)
  | empty (isEmpty : index = Index.empty) :
      Filtering forest index predicate cache
        (.ok ⟨Index.empty, 0, cache⟩, forest.tallyFilter .emptyHit)
  | lost {error : Error} (unusable : forest.usable? (cache.lookup index) = .error error) :
      Filtering forest index predicate cache (.error error, forest)
  | cached {result : Index} (usable : forest.usable? (cache.lookup index) = .ok (some result)) :
      Filtering forest index predicate cache
        (.ok ⟨result, 0, cache⟩, forest.tallyFilter .hit)
  | unread {error : Error} (useless : forest.usable? (cache.lookup index) = .ok none)
      (notRead : forest.sets.get index = .error error) :
      Filtering forest index predicate cache (.error error, forest)
  | sifted {content : Content K} (useless : forest.usable? (cache.lookup index) = .ok none)
      (read : forest.content index = .ok content) :
      Filtering forest index predicate cache
        (.ok ⟨(forest.intern (content.filter predicate)).1.index, content.length,
            cache.store index (forest.intern (content.filter predicate)).1.index⟩,
          ((forest.intern (content.filter predicate)).2.fileInclusion
            (forest.intern (content.filter predicate)).1.index index).tallyFilter
              (.ofMiss (forest.intern (content.filter predicate)).1.cold))

theorem filtering (forest : Forest K n) (index : Index) (predicate : Element K → Bool)
    (cache : FilterCache) :
    Filtering (forest.note .filtering) index predicate cache
      (filter index predicate cache forest) := by
  simp only [filter, bind_apply, modify_apply, get_apply, liftExcept_apply]
  generalize forest.note .filtering = noted
  cases inUse : noted.checkIndex index with
  | error error => exact .outside inUse
  | ok _ =>
      by_cases isEmpty : index = Index.empty
      · rw [if_pos isEmpty]
        exact .empty isEmpty
      · rw [if_neg isEmpty]
        simp only [bind_apply, liftExcept_apply]
        cases usable : noted.usable? (cache.lookup index) with
        | error error => exact .lost usable
        | ok usable' =>
            cases usable' with
            | some result => exact .cached usable
            | none =>
                cases resident : noted.sets.get index with
                | error error => exact .unread usable resident
                | ok content =>
                    have read : noted.content index = .ok content := by
                      rw [Forest.content, inUse]
                      exact resident
                    simp only [bind_apply, liftExcept_apply, modifyGet_apply, modify_apply,
                      pure_apply]
                    rw [fileInclusion_tallyFilter, Content.sift_fst, Content.sift_snd]
                    exact .sifted usable read

/-- Filtering stores and files a part of the set that is filtered.  This does not
depend on the cache, which at most supplies the answer. -/
theorem changes_filter (forest : Forest K n) (index : Index) (predicate : Element K → Bool)
    (cache : FilterCache) : Changes admits forest (filter index predicate cache forest).2 := by
  have noted : Changes admits forest (forest.note .filtering) := changes_note forest _
  have ways := filtering forest index predicate cache
  generalize filter index predicate cache forest = outcome at ways
  cases ways with
  | outside refused => exact noted
  | empty isEmpty => exact noted.trans (changes_tallyFilter _ _)
  | lost unusable => exact noted
  | cached usable => exact noted.trans (changes_tallyFilter _ _)
  | unread useless notRead => exact noted
  | sifted useless read =>
      exact (noted.tail (.part index _ _ read List.filter_sublist)).trans
        (changes_tallyFilter _ _)

/-! ## What all changes have in common -/

/-- No work is ever forgotten. -/
theorem Change.activities_subset {forest later : Forest K n} (change : Change admits forest later) :
    forest.activities ⊆ later.activities := by
  have interned : ∀ content, (forest.intern content).2.activities = forest.activities := by
    intro content
    rcases forest.exists_intern_eq content with ⟨counters, stored⟩
    rw [stored]
  cases change with
  | recorded counters activities kept => exact kept
  | stored content admitted => exact (interned content).symm ▸ List.Subset.refl _
  | put index content element read admitted => exact (interned _).symm ▸ List.Subset.refl _
  | part index content part read sublist =>
      rcases (forest.intern part).2.exists_fileInclusion_eq (forest.intern part).1.index index with
        ⟨inclusions, filed⟩
      rw [filed]
      exact (interned part).symm ▸ List.Subset.refl _
  | dropped index resident sets notEmpty evicted => exact List.Subset.refl _

theorem Changes.activities_subset {forest later : Forest K n}
    (changes : Changes admits forest later) : forest.activities ⊆ later.activities := by
  induction changes with
  | refl => exact List.Subset.refl _
  | tail _ change ih => exact List.Subset.trans ih change.activities_subset

/-- A later forest is the same store after more interning and evicting. -/
structure Evolves (forest later : Forest K n) : Prop where
  config : later.config = forest.config
  strategy : later.strategy = forest.strategy
  children : later.children = forest.children
  sets : ∃ calls, later.sets = forest.sets.performAll calls

namespace Evolves

theorem refl (forest : Forest K n) : forest.Evolves forest :=
  ⟨rfl, rfl, rfl, [], rfl⟩

theorem trans {forest later last : Forest K n} (first : forest.Evolves later)
    (second : later.Evolves last) : forest.Evolves last := by
  rcases first.sets with ⟨calls, performed⟩
  rcases second.sets with ⟨more, performedMore⟩
  refine ⟨second.config.trans first.config, second.strategy.trans first.strategy,
    second.children.trans first.children, calls ++ more, ?_⟩
  rw [performedMore, performed, Arena.performAll_append]

/-- Interning is one call of the storage. -/
theorem intern (forest : Forest K n) (content : Content K) :
    forest.Evolves (forest.intern content).2 := by
  rcases forest.exists_intern_eq content with ⟨counters, stored⟩
  rw [stored]
  exact ⟨rfl, rfl, rfl, [.intern content], rfl⟩

/-- Filing leaves the storage alone. -/
theorem fileInclusion (forest : Forest K n) (sub sup : Index) :
    forest.Evolves (forest.fileInclusion sub sup) := by
  rcases forest.exists_fileInclusion_eq sub sup with ⟨inclusions, filed⟩
  rw [filed]
  exact ⟨rfl, rfl, rfl, [], rfl⟩

theorem canonical {forest later : Forest K n} (evolves : forest.Evolves later)
    (canonical : forest.sets.Canonical) : later.sets.Canonical := by
  rcases evolves.sets with ⟨calls, performed⟩
  rw [performed]
  exact canonical.performAll calls

/-- What a forest denotes, it denotes ever after. -/
theorem denotes {forest later : Forest K n} (evolves : forest.Evolves later)
    (canonical : forest.sets.Canonical) {index : Index} {content : Content K}
    (denotes : forest.sets.Denotes index content) : later.sets.Denotes index content := by
  rcases evolves.sets with ⟨calls, performed⟩
  rw [performed]
  exact canonical.denotes_performAll denotes calls

end Evolves

theorem Change.evolves {forest later : Forest K n} (change : Change admits forest later) :
    forest.Evolves later := by
  cases change with
  | recorded counters activities => exact ⟨rfl, rfl, rfl, [], rfl⟩
  | stored content admitted => exact Evolves.intern forest content
  | put index content element read admitted => exact Evolves.intern forest _
  | part index content part read sublist =>
      exact (Evolves.intern forest part).trans (Evolves.fileInclusion _ _ _)
  | dropped index resident sets notEmpty evicted =>
      refine ⟨rfl, rfl, rfl, [.evict index], ?_⟩
      simp only [Arena.performAll, List.foldl_cons, List.foldl_nil, Arena.perform, evicted]

theorem Changes.evolves {forest later : Forest K n} (changes : Changes admits forest later) :
    forest.Evolves later := by
  induction changes with
  | refl => exact Evolves.refl forest
  | tail _ change ih => exact ih.trans change.evolves

end Forest

end SetForest
