import SetForest.Proofs.Forest.Consult
import SetForest.Proofs.Forest.Residence

namespace SetForest.Forest

/-!
# What a failure leaves behind

An action of a forest that fails has changed nothing but the list of the kinds of work
done (`Atomic`).  This is a matter of order.  Everything that can fail is looked up and
checked before anything is stored, filed or counted.

A forest that is called by others may have done some of the calls when one of them fails.
What it has done shows as growth (`Grows`): there may be more sets, and evicted ones may be
back, but whatever an index was good for it still is.
-/

variable {K : Type} [Key K] {n : Nat} {α : Type} {forest later : Forest K n}

open SetForest.Action

/-! ## The forest that reports the failure -/

/-- A forest that differs at most in the kinds of work that it has on record. -/
def Noted (forest later : Forest K n) : Prop :=
  ∃ activities, later = { forest with activities }

theorem Noted.refl (forest : Forest K n) : forest.Noted forest :=
  ⟨forest.activities, rfl⟩

theorem noted_note (forest : Forest K n) (activity : Activity) :
    forest.Noted (forest.note activity) :=
  forest.exists_note_eq activity

/-- An action that leaves the forest as it was when it fails. -/
def Atomic (action : ForestM K n α) : Prop :=
  ∀ forest error later, action forest = (.error error, later) → forest.Noted later

theorem atomic_registerSet (content : Content K) :
    Atomic (registerSet content : ForestM K n Registered) := by
  intro forest error later failed
  have ways := registration forest content
  rw [failed] at ways
  cases ways with
  | refused checks found => exact forest.noted_note _

theorem atomic_registerSingle (element : Element K) :
    Atomic (ExceptT.lift (registerSingle element) : ForestM K n Registered) :=
  fun _ _ _ failed => nomatch (congrArg Prod.fst failed)

/-- A collection is checked before it is registered. -/
theorem atomic_registerUnordered (elements : List (Element K)) :
    Atomic (registerUnordered elements : ForestM K n Registered) := by
  intro forest error later failed
  simp only [registerUnordered, bind_apply, liftExcept_apply] at failed
  cases checked : (Content.prepare elements).check with
  | error violation =>
      rw [checked] at failed
      cases failed
      exact Noted.refl forest
  | ok _ =>
      rw [checked] at failed
      exact atomic_registerSet _ forest error later failed

theorem atomic_removeKey (index : Index) (key : K) :
    Atomic (removeKey index key : ForestM K n Index) := by
  intro forest error later failed
  have ways := removal forest index key
  rw [failed] at ways
  cases ways with
  | unread notRead => exact forest.noted_note _

theorem atomic_updateKey (index : Index) (element : Element K) :
    Atomic (updateKey index element : ForestM K n Index) := by
  intro forest error later failed
  have ways := updating forest index element
  rw [failed] at ways
  cases ways with
  | unread notRead => exact forest.noted_note _

theorem atomic_evict (index : Index) : Atomic (evict index : ForestM K n Unit) := by
  intro forest error later failed
  have ways := eviction forest index
  rw [failed] at ways
  cases ways with
  | refused error => exact Noted.refl forest

theorem atomic_filter (index : Index) (predicate : Element K → Bool) (cache : FilterCache) :
    Atomic (filter index predicate cache : ForestM K n Filtered) := by
  intro forest error later failed
  have ways := filtering forest index predicate cache
  rw [failed] at ways
  cases ways with
  | outside refused => exact forest.noted_note _
  | lost unusable => exact forest.noted_note _
  | unread useless notRead => exact forest.noted_note _

/-- To consult a forest counts nothing unless it knows the result. -/
theorem noted_consult {operation : Operation} {a b : Index} {answer : Except Error (Consulted K n)}
    (consulted : consult operation a b forest = (answer, later))
    (unknown : ∀ result, answer ≠ .ok (.known result)) : forest.Noted later := by
  have ways := consultation forest operation a b
  rw [consulted] at ways
  cases ways with
  | refused error => exact forest.noted_note _
  | shortcut result outcome leftInUse rightInUse found => exact absurd rfl (unknown result)
  | remembered result found leftInUse rightInUse resident => exact absurd rfl (unknown result)
  | unknown left right different leftRead rightRead => exact forest.noted_note _

/-! ## The forests below -/

/-- A later state of a forest in which nothing is missing that was there before.  Evicted
sets may be back. -/
structure Grows (forest later : Forest K n) : Prop where
  config : later.config = forest.config
  strategy : later.strategy = forest.strategy
  children : later.children = forest.children
  size : forest.size ≤ later.size
  denotes : ∀ index content, forest.Denotes index content → later.Denotes index content
  reads : ∀ index < forest.size, later.content index = forest.content index ∨
    forest.content index = .error (.evicted index) ∧
      ∃ content, forest.Denotes index content ∧ later.content index = .ok content

theorem Grows.refl (forest : Forest K n) : forest.Grows forest :=
  ⟨rfl, rfl, rfl, Nat.le_refl _, fun _ _ => id, fun _ _ => Or.inl rfl⟩

theorem content_of_lt {index : Index} (inside : index < forest.size) :
    forest.content index = forest.sets.get index := by
  rw [Forest.content, checkIndex_of_lt inside]
  rfl

/-- Storage that only interns and takes nothing away makes a forest grow. -/
theorem Grows.of_evolves (canonical : forest.sets.Canonical) (evolves : forest.Evolves later)
    (retains : forest.Retains (fun _ => True) later) : forest.Grows later := by
  have canonicalLater := retains.canonical canonical
  have denotes : ∀ index content, forest.Denotes index content → later.Denotes index content :=
    fun index content => evolves.denotes canonical
  have stillInUse : ∀ index < forest.size, index < later.size := by
    intro index inside
    rcases canonical.exists_denotes inside with ⟨content, found⟩
    exact canonicalLater.lt_size (denotes index content found)
  refine ⟨evolves.config, evolves.strategy, evolves.children, ?_, denotes, ?_⟩
  · by_contra shrunk
    exact Nat.lt_irrefl _ (stillInUse later.size (Nat.lt_of_not_le shrunk))
  · intro index inside
    rcases canonical.exists_denotes inside with ⟨content, found⟩
    rw [content_of_lt inside, content_of_lt (stillInUse index inside)]
    rcases canonical.get_of_denotes found with read | evicted
    · rw [read, retains.read canonical index content trivial read]
      exact Or.inl rfl
    · rw [evicted]
      rcases canonicalLater.get_of_denotes (denotes index content found) with read | evictedLater
      · exact Or.inr ⟨rfl, content, found, read⟩
      · exact Or.inl evictedLater

end SetForest.Forest
