import SetForest.Proofs.Content.Flat
import SetForest.Proofs.Family.Dependable

namespace SetForest.Family

/-!
# Forests of keys

A forest without children stores sets of keys.  What a caller needs in order to work with
such sets is that the family is sound and that the forest can be depended on (`FlatAt`).
Then keys in any order can be registered, operations on sets that can be read have an
answer that can be read, and nothing that could be read is lost on the way.  Indices are
thus as good as the sets of keys that they are read as, whatever the forest has been
through before.
-/

variable {K : Type} [Key K] {n : Nat}

/-- Without children, the members of a result are those of the operation on sets. -/
theorem Sound.members_of_apply {family later : Family K n} (sound : family.Sound)
    {position : Fin n} (flat : (family.forestAt position).children = []) {operation : Operation}
    {a b r : Index} (answered : Family.apply operation position a b family = (.ok r, later)) :
    ∃ left right content, (family.forestAt position).Denotes a left ∧
      (family.forestAt position).Denotes b right ∧ (later.forestAt position).Denotes r content ∧
      content.members = operation.onSets left.members right.members := by
  rcases sound.contents_of_apply answered with
    ⟨soundLater, extension, -, left, right, content, denotesLeft, denotesRight, denotes, joins⟩
  have flatLater : (later.forestAt position).children = [] := by
    rw [(extension.forestAt position).children, flat]
  have noChildren : ∀ index content, (later.forestAt position).Denotes index content →
      content.HasArity 0 := by
    intro index content denotes
    have arity := (soundLater.forestAt position).arity index content denotes
    rw [flatLater] at arity
    exact arity
  have kept := (extension.forestAt position).denotes
  refine ⟨left, right, content, denotesLeft, denotesRight, denotes, ?_⟩
  rcases joins with ⟨-, rfl, rfl⟩ | ⟨-, joined⟩
  · rw [Operation.onSets_self, apply_ite Content.members, Content.members_nil]
  · rw [flatLater] at joined
    exact joined.members_eq (noChildren a left (kept a left denotesLeft))
      (noChildren b right (kept b right denotesRight)) (noChildren r content denotes)

/-- The forest at a position has no children and works as it should. -/
structure FlatAt (family : Family K n) (position : Fin n) : Prop where
  sound : family.Sound
  dependable : (family.forestAt position).Dependable
  flat : (family.forestAt position).children = []

namespace FlatAt

variable {family later : Family K n} {position : Fin n} {a b : Index} {left right : Content K}

theorem canonical (flatAt : family.FlatAt position) :
    (family.forestAt position).sets.Canonical :=
  flatAt.dependable.canonical

/-- This is kept by everything that a caller may do, here or elsewhere. -/
theorem steps (flatAt : family.FlatAt position) {admits : Content K → Prop} {place : Fin n}
    (admitted : ∀ content, admits content → (family.forestAt place).Admits content)
    (steps : Steps admits place family later) : later.FlatAt position := by
  rcases flatAt.sound.steps admitted steps with ⟨soundLater, extension⟩
  have dependable : Related (fun _ forest later => forest.Dependable → later.Dependable)
      family later :=
    steps.related (fun _ _ dependable => dependable)
      (fun _ _ _ _ first second dependable => second (first dependable))
      (fun _ _ _ change dependable => dependable.change change)
      (fun _ _ operation a b content dependable => dependable.settle operation a b content)
  refine ⟨soundLater, dependable.forestAt position flatAt.dependable, ?_⟩
  rw [(extension.forestAt position).children, flatAt.flat]

theorem denotes_of_content (flatAt : family.FlatAt position)
    (read : (family.forestAt position).content a = .ok left) :
    (family.forestAt position).Denotes a left :=
  (flatAt.sound.forestAt position).toWellStored.denotes_of_content read

/-- What could be read can still be read. -/
theorem content_eq (flatAt : family.FlatAt position) (retains : Retains family later)
    (read : (family.forestAt position).content a = .ok left) :
    (later.forestAt position).content a = .ok left :=
  (retains.forestAt position).content_eq flatAt.canonical read

/-- The contents of such a forest are sets of keys. -/
theorem hasArity (flatAt : family.FlatAt position)
    (denotes : (family.forestAt position).Denotes a left) : left.HasArity 0 := by
  have arity := (flatAt.sound.forestAt position).arity a left denotes
  rw [flatAt.flat] at arity
  exact arity

/-- What is read is the content of some keys if its keys are those. -/
theorem eq_ofKeys_iff (flatAt : family.FlatAt position)
    (read : (family.forestAt position).content a = .ok left) (keys : List K) :
    left = .ofKeys keys ↔ left.keys = {key | key ∈ keys} :=
  have denotes := flatAt.denotes_of_content read
  Content.eq_ofKeys_iff ((flatAt.sound.forestAt position).increasing a left denotes)
    (flatAt.hasArity denotes)

/-- Indices that can be read are equal if and only if they are read as the same set. -/
theorem index_eq_iff (flatAt : family.FlatAt position)
    (leftRead : (family.forestAt position).content a = .ok left)
    (rightRead : (family.forestAt position).content b = .ok right) : a = b ↔ left = right :=
  Forest.index_eq_iff flatAt.canonical (flatAt.denotes_of_content leftRead)
    (flatAt.denotes_of_content rightRead)

/-- Keys in any order can be registered, and are read as the content of these keys. -/
theorem exists_registerUnordered (flatAt : family.FlatAt position) (keys : List K) :
    ∃ registered later,
      within (Forest.registerUnordered (keys.map Element.flat)) position family =
        (.ok registered, later) ∧
      later.FlatAt position ∧ Retains family later ∧
      (later.forestAt position).content registered.index = .ok (.ofKeys keys) := by
  have accepted : ∀ {m : Nat} (forest : Forest K m),
      Forest.registerUnordered (keys.map Element.flat) forest =
        Forest.registerSet (.ofKeys keys) forest := by
    intro m forest
    rw [Forest.registerUnordered, Content.prepare_flat, Content.check,
      (Content.violation?_eq_none_iff _).mpr (Content.increasing_ofKeys keys)]
    rfl
  have here := within_apply (fun {_} => Forest.registerUnordered (keys.map Element.flat)) family
    position
  rcases flatAt.dependable.exists_registerSet (Content.increasing_ofKeys keys) with
    ⟨registered, laterForest, answered, retains, read⟩
  rw [accepted, answered] at here
  have kept : Retains family
      (within (Forest.registerUnordered (keys.map Element.flat)) position family).2 := by
    refine related_within (fun _ => Forest.Retains.refl) _ family position ?_
    rw [accepted, answered]
    exact retains
  have admitted : (family.forestAt position).Admits (.ofKeys keys) := by
    refine ⟨Content.increasing_ofKeys keys, ?_⟩
    rw [flatAt.flat]
    exact Content.hasArity_ofKeys keys
  have step : Step (· = Content.ofKeys keys) position family
      (within (Forest.registerUnordered (keys.map Element.flat)) position family).2 :=
    .changed _ (Forest.changes_registerUnordered _ _ fun _ => Content.prepare_flat keys)
  refine ⟨registered, _, Prod.ext here.1 rfl, flatAt.steps ?_ (.single step), kept, ?_⟩
  · rintro _ rfl
    exact admitted
  · rw [here.2]
    exact read

/-- An operation on sets that can be read has an answer that can be read.  Its keys are
those that the operation on sets gives. -/
theorem exists_apply (flatAt : family.FlatAt position) (operation : Operation)
    (leftRead : (family.forestAt position).content a = .ok left)
    (rightRead : (family.forestAt position).content b = .ok right) :
    ∃ r content later, apply operation position a b family = (.ok r, later) ∧
      later.FlatAt position ∧ Retains family later ∧
      (later.forestAt position).content r = .ok content ∧
      content.keys = operation.onSets left.keys right.keys := by
  rcases exists_apply_of_resident flatAt.dependable flatAt.flat
    (Forest.isEvicted_eq_false_iff.mpr ⟨left, leftRead⟩)
    (Forest.isEvicted_eq_false_iff.mpr ⟨right, rightRead⟩) with ⟨r, later, answered, resident⟩
  rcases Forest.isEvicted_eq_false_iff.mp resident with ⟨content, read⟩
  have retains := retains_apply operation position a b family
  have step : Step (fun _ => False) position family
      (apply operation position a b family).2 := .applied operation a b
  rw [answered] at retains step
  have flatLater := flatAt.steps nofun (.single step)
  refine ⟨r, content, later, answered, flatLater, retains, read, ?_⟩
  rcases flatAt.sound.contents_of_apply answered with
    ⟨-, -, -, left', right', content', denotesLeft, denotesRight, denotes, joins⟩
  rcases flatAt.canonical.unique (flatAt.denotes_of_content leftRead) denotesLeft with rfl
  rcases flatAt.canonical.unique (flatAt.denotes_of_content rightRead) denotesRight with rfl
  rcases flatLater.canonical.unique (flatLater.denotes_of_content read) denotes with rfl
  rcases joins with ⟨-, rfl, rfl⟩ | ⟨-, joined⟩
  · rw [Operation.onSets_self, apply_ite Content.keys, Content.keys_nil]
  · rw [joined.keys_eq, if_neg]
    rintro ⟨-, notFlat⟩
    exact notFlat flatLater.flat

end FlatAt

/-- Forests without children start out like this. -/
theorem flatAt_ofSpecs? {specs : List Spec} {family : Family K n}
    (planted : ofSpecs? specs = some ⟨n, family⟩) {position : Fin n}
    (flat : (family.forestAt position).children = []) : family.FlatAt position where
  sound := sound_ofSpecs? planted
  dependable := forestAt_ofSpecs? (fun _ forest => forest.Dependable)
    (fun _ => Forest.Dependable.create) planted position
  flat := flat

theorem flatAt_single (config : Config) (strategy : Strategy) :
    (single config strategy : Family K 1).FlatAt 0 := by
  have planted : ofSpecs? [{ config, strategy }] =
      some ⟨1, (single config strategy : Family K 1)⟩ := rfl
  exact flatAt_ofSpecs? planted rfl

end SetForest.Family
