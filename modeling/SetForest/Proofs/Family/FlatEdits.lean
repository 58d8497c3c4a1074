import SetForest.Proofs.Family.Edits
import SetForest.Proofs.Family.Flat
import SetForest.Proofs.Family.Operand

namespace SetForest

/-!
# Edits of sets of keys

In a forest without children, the union with the set of one element puts this element in,
and the difference leaves its key out.  These edits go through the registration of the
element, shortcuts, remembered results and a merge.  What they answer is the index of the
edited set all the same, so they are as reliable as the edits that search for the key
(`Edit.reliable_flat`).
-/

variable {K : Type} [Key K] {n : Nat}

namespace Family.FlatAt

variable {family later : Family K n} {position : Fin n} {operation : Operation} {a r : Index}
  {element : Element K}

/-- Where all is as it should be, all sets are in order. -/
theorem ordered (flatAt : family.FlatAt position) : (family.forestAt position).Ordered :=
  ⟨flatAt.canonical, (flatAt.sound.forestAt position).increasing⟩

/-- A key may be registered as an element. -/
theorem admits_single (flatAt : family.FlatAt position) (isKey : element.children = []) :
    (family.forestAt position).Admits [element] := by
  apply Forest.admits_single
  rw [isKey, flatAt.flat]
  rfl

/-- This is kept when an element is registered. -/
theorem registeredSingle (flatAt : family.FlatAt position) (isKey : element.children = []) :
    (family.registeredSingle position element).FlatAt position := by
  have step : Step (family.forestAt position).Admits position family
      (family.registeredSingle position element) :=
    .changed (fun {_} => ExceptT.lift (Forest.registerSingle element))
      (Forest.changes_registerSingle _ element (flatAt.admits_single isKey))
  exact flatAt.steps (fun _ admitted => admitted) (.single step)

/-- An operation with a single element has an answer that can be read. -/
theorem exists_applySingle (flatAt : family.FlatAt position) (isKey : element.children = [])
    (operation : Operation) {left : Content K}
    (read : (family.forestAt position).content a = .ok left) :
    ∃ r kept later, applySingle operation position a element family = (.ok r, later) ∧
      (later.forestAt position).content r = .ok kept := by
  have ready := flatAt.registeredSingle isKey
  have leftRead := flatAt.content_eq
    (Operand.retains_registeredSingle family position element) read
  have rightRead := Forest.get_registerSingle flatAt.canonical element
  rw [← forestAt_registeredSingle, ← Forest.content_eq_ok_iff ready.canonical] at rightRead
  rcases ready.exists_apply operation leftRead rightRead with
    ⟨r, kept, later, answered, -, -, readKept, -⟩
  rw [applySingle_apply]
  exact ⟨r, kept, later, answered, readKept⟩

/-- What it answers has the members of the operation with the set of the element. -/
theorem members_of_applySingle (flatAt : family.FlatAt position) (isKey : element.children = [])
    (answered : applySingle operation position a element family = (.ok r, later)) :
    family.Retains later ∧ ∃ left kept, (later.forestAt position).Denotes a left ∧
      (later.forestAt position).Denotes r kept ∧
      kept.members = operation.onSets left.members (Content.members [element]) := by
  have ready := flatAt.registeredSingle isKey
  have registered := Operand.retains_registeredSingle family position element
  have denotesSingle := Forest.denotes_registerSingle flatAt.canonical element
  rw [← forestAt_registeredSingle] at denotesSingle
  rw [applySingle_apply] at answered
  rcases ready.sound.members_of_apply ready.flat answered with
    ⟨left, right, kept, denotesLeft, denotesRight, denotes, members⟩
  rcases ready.canonical.unique denotesSingle denotesRight with rfl
  rcases ready.sound.contents_of_apply answered with ⟨-, extension, -⟩
  have retains := retains_apply operation position a
    (Forest.registerSingle element (family.forestAt position)).1.index
    (family.registeredSingle position element)
  rw [answered] at retains
  exact ⟨registered.trans (fun _ _ _ _ => .trans) retains, left, kept,
    (extension.forestAt position).denotes a left denotesLeft, denotes, members⟩

/-- What such members make of the map is what the answer stands for. -/
theorem edited_of_applySingle (flatAt : family.FlatAt position) (flatLater : later.FlatAt position)
    (isKey : element.children = [])
    (answered : applySingle operation position a element family = (.ok r, later)) {edit : Edit K}
    (effect : ∀ left kept : Content K, left.Increasing → kept.Increasing → left.HasArity 0 →
      kept.members = operation.onSets left.members (Content.members [element]) →
      kept.find? = edit.effect left.find?) :
    family.Retains later ∧ (later.forestAt position).Edited [edit] a r := by
  rcases flatAt.members_of_applySingle isKey answered with
    ⟨retains, left, kept, denotes, denotesKept, members⟩
  have increasing := flatLater.ordered.increasing
  exact ⟨retains, left, kept, denotes, denotesKept,
    effect left kept (increasing a left denotes) (increasing r kept denotesKept)
      (flatLater.hasArity denotes) members⟩

end Family.FlatAt

namespace Edit

/-- An edit whose element is a key. -/
def Flat (edit : Edit K) : Prop :=
  ∀ element ∈ edit.element?, element.children = []

/-- As long as the forest works as it should, all edits with keys do. -/
theorem reliable_flat (position : Fin n) :
    Reliable position (fun family : Family K n => family.FlatAt position) Flat where
  ordered := fun family flatAt => flatAt.ordered
  answers := by
    intro edit isFlat family a content flatAt read
    cases edit with
    | update element =>
        have direct : Direct (.update element) := trivial
        exact direct.exists_perform flatAt.ordered read
    | removeKey key =>
        have direct : Direct (.removeKey key) := trivial
        exact direct.exists_perform flatAt.ordered read
    | insert element => exact flatAt.exists_applySingle (isFlat element rfl) .union read
    | remove element => exact flatAt.exists_applySingle (isFlat element rfl) .difference read
  right := by
    intro edit isFlat family a r later flatAt answered
    have flatLater := flatAt.steps (fun _ admitted => admitted)
      (steps_perform position edit a family
        fun element member => flatAt.admits_single (isFlat element member))
    rw [answered] at flatLater
    refine ⟨flatLater, ?_⟩
    cases edit with
    | update element =>
        have direct : Direct (.update element) := trivial
        exact direct.edited flatAt.ordered answered
    | removeKey key =>
        have direct : Direct (.removeKey key) := trivial
        exact direct.edited flatAt.ordered answered
    | insert element =>
        have isKey := isFlat element rfl
        exact flatAt.edited_of_applySingle flatLater isKey answered
          fun left kept increasing keptIncreasing flat members => Content.find?_of_union
            increasing keptIncreasing flat (congrArg List.length isKey) members
    | remove element =>
        have isKey := isFlat element rfl
        exact flatAt.edited_of_applySingle flatLater isKey answered
          fun left kept increasing keptIncreasing flat members => Content.find?_of_sdiff
            increasing keptIncreasing flat (congrArg List.length isKey) members

end Edit

end SetForest
