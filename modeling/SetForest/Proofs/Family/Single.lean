import SetForest.Proofs.Family.Evolution
import SetForest.Proofs.Forest.Meaning

namespace SetForest

/-!
# Operations with a single element

To insert an element into a set, or to remove it, is an operation whose right operand
is the set of that element.  The set is registered first, so the operation finds the
forest as it is after the registration (`Family.applySingle_apply`).

That matters for the range of the left operand.  A new element is stored at the first
free index, which is in use by the time when the operands are checked.
-/

namespace Forest

variable {K : Type} [Key K] {n : Nat} (forest : Forest K n)

open SetForest.Action

/-- The left operand is checked before anything else is looked at. -/
theorem consult_of_le (operation : Operation) {a : Index} (b : Index)
    (outside : forest.size ≤ a) :
    (consult operation a b forest).1 = .error (.outOfRange a forest.size) := by
  have refused : (forest.note (.operation operation)).checkIndex a =
      .error (.outOfRange a forest.size) := by
    rw [checkIndex_of_le (by rwa [size_note]), size_note]
  simp only [consult, bind_apply, modify_apply, get_apply, liftExcept_apply, refused]

/-- Operands that are equal and in use are all that an operation needs to know. -/
theorem consult_self (operation : Operation) {a : Index} (inUse : a < forest.size) :
    (consult operation a a forest).1 =
      .ok (.known (if operation = .difference then Index.empty else a)) := by
  have accepted : (forest.note (.operation operation)).checkIndex a = .ok () :=
    checkIndex_of_lt (by rwa [size_note])
  simp only [consult, bind_apply, modify_apply, get_apply, liftExcept_apply, accepted, shortcut,
    if_pos, pure_apply]

/-! ## Storing the element -/

theorem index_registerSingle (element : Element K) :
    (registerSingle element forest).1.index = (forest.sets.intern [element]).1.1 :=
  forest.index_intern [element]

theorem sets_registerSingle (element : Element K) :
    (registerSingle element forest).2.sets = (forest.sets.intern [element]).2 :=
  forest.sets_intern [element]

theorem children_registerSingle (element : Element K) :
    (registerSingle element forest).2.children = forest.children := by
  rcases forest.exists_intern_eq [element] with ⟨counters, stored⟩
  change (forest.intern [element]).2.children = forest.children
  rw [stored]

variable {forest}

theorem denotes_registerSingle (canonical : forest.sets.Canonical) (element : Element K) :
    (registerSingle element forest).2.Denotes (registerSingle element forest).1.index
      [element] := by
  rw [Denotes, sets_registerSingle, index_registerSingle]
  exact canonical.denotes_interned [element]

theorem get_registerSingle (canonical : forest.sets.Canonical) (element : Element K) :
    (registerSingle element forest).2.sets.get (registerSingle element forest).1.index =
      .ok [element] := by
  rw [sets_registerSingle, index_registerSingle]
  exact canonical.get_interned [element]

/-- A new element gets the first free index. -/
theorem registerSingle_of_new (canonical : forest.sets.Canonical) {element : Element K}
    (new : ∀ index, ¬forest.Denotes index [element]) :
    (registerSingle element forest).1.index = forest.size ∧
      (registerSingle element forest).2.size = forest.size + 1 := by
  rcases canonical.intern_new new with ⟨index, -, size⟩
  rw [index_registerSingle, Forest.size, Forest.size, sets_registerSingle]
  exact ⟨index, size⟩

/-- An element that was stored before keeps its index, and no other is handed out. -/
theorem registerSingle_of_known (canonical : forest.sets.Canonical) {element : Element K}
    {index : Index} (known : forest.Denotes index [element]) :
    (registerSingle element forest).1.index = index ∧
      (registerSingle element forest).2.size = forest.size := by
  rcases canonical.intern_known known with ⟨same, -, size⟩
  rw [index_registerSingle, Forest.size, Forest.size, sets_registerSingle]
  exact ⟨same, size⟩

end Forest

namespace Family

variable {K : Type} [Key K] {n : Nat}

/-- What a forest answers by itself, be it a result or a refusal, is the answer to the
operation. -/
theorem apply_of_consult {operation : Operation} {position : Fin n} {a b : Index}
    {family : Family K n} {answer : Except Error Index}
    (consulted : (Forest.consult operation a b (family.forestAt position)).1 =
      answer.map .known) :
    (apply operation position a b family).1 = answer := by
  induction family with
  | bare => exact position.elim0
  | plant below top ih =>
      induction position using Fin.lastCases with
      | cast position =>
          rw [forestAt_castSucc] at consulted
          rw [apply_castSucc, onBelow_apply]
          exact ih consulted
      | last =>
          rw [forestAt_last] at consulted
          rw [apply_last, Prod.fst_eq_iff.mp consulted]
          cases answer <;> rfl

/-- A family in which the set of one element was registered. -/
def registeredSingle (position : Fin n) (element : Element K) (family : Family K n) :
    Family K n :=
  (within (ExceptT.lift (Forest.registerSingle element)) position family).2

theorem forestAt_registeredSingle (position : Fin n) (element : Element K)
    (family : Family K n) :
    (family.registeredSingle position element).forestAt position =
      (Forest.registerSingle element (family.forestAt position)).2 :=
  (within_apply (ExceptT.lift (Forest.registerSingle element)) family position).2

/-- The operation works on the forest that the registration has left. -/
theorem applySingle_apply (operation : Operation) (position : Fin n) (a : Index)
    (element : Element K) (family : Family K n) :
    applySingle operation position a element family =
      apply operation position a
        (Forest.registerSingle element (family.forestAt position)).1.index
        (family.registeredSingle position element) := by
  have registered :
      (within (ExceptT.lift (Forest.registerSingle element)) position family).1 =
        .ok (Forest.registerSingle element (family.forestAt position)).1 :=
    (within_apply (ExceptT.lift (Forest.registerSingle element)) family position).1
  rw [applySingle, Action.bind_apply, Prod.fst_eq_iff.mp registered]
  rfl

/-- The element is stored in one step, and used in another. -/
theorem steps_applySingle {admits : Content K → Prop} (operation : Operation) (position : Fin n)
    (a : Index) (element : Element K) (family : Family K n) (admitted : admits [element]) :
    Steps admits position family (applySingle operation position a element family).2 := by
  have registered : Steps admits position family (family.registeredSingle position element) :=
    .single (.changed (fun {_} => ExceptT.lift (Forest.registerSingle element))
      (Forest.changes_registerSingle _ element admitted))
  rw [applySingle_apply]
  exact registered.tail (.applied operation a _)

variable {position : Fin n} {family : Family K n}

/-- An index that is not even in use after the registration is refused. -/
theorem applySingle_of_le (operation : Operation) {a : Index} {element : Element K}
    (outside : (Forest.registerSingle element (family.forestAt position)).2.size ≤ a) :
    (applySingle operation position a element family).1 = .error (.outOfRange a
      (Forest.registerSingle element (family.forestAt position)).2.size) := by
  rw [applySingle_apply]
  apply apply_of_consult
  rw [forestAt_registeredSingle]
  exact Forest.consult_of_le _ operation _ outside

/-- The first free index is accepted for a new element, which is then both operands. -/
theorem applySingle_of_new (operation : Operation) {element : Element K}
    (canonical : (family.forestAt position).sets.Canonical)
    (new : ∀ index, ¬(family.forestAt position).Denotes index [element]) :
    (applySingle operation position (family.forestAt position).size element family).1 =
      .ok (if operation = .difference then Index.empty else (family.forestAt position).size) := by
  rcases Forest.registerSingle_of_new canonical new with ⟨index, size⟩
  rw [applySingle_apply, index]
  apply apply_of_consult
  rw [forestAt_registeredSingle]
  exact Forest.consult_self _ operation (size ▸ Nat.lt_succ_self _)

end Family

end SetForest
