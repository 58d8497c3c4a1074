import Mathlib.Data.Fin.Tuple.Basic
import SetForest.Family.Apply
import SetForest.Proofs.Action

namespace SetForest.Family

/-!
# The forests of a family

The forest at a position stands above exactly as many forests as its position
says, and its children are positions of the family too.  Whatever is defined for
one forest in terms of the forests below it is defined for a family by one
recursion, `Family.fold`, and `Family.fold_eq` reads it off at any position.

The actions of a family recur on its size in the same way.  Each of them is
described by two equations, one for the last position and one for the others.
-/

variable {K : Type} [Key K] {n : Nat} {α : Type}

/-- The forest at a position. -/
def forestAt : {n : Nat} → Family K n → (position : Fin n) → Forest K position
  | _, .plant below top, position =>
    Fin.lastCases (motive := fun position => Forest K position) top
      (fun position => forestAt below position) position

/-- What is defined for a forest by the same notion for the forests below it. -/
def fold (combine : {m : Nat} → Forest K m → (Fin m → α) → α) :
    {n : Nat} → Family K n → Fin n → α
  | _, .plant below top, position =>
    Fin.lastCases (motive := fun _ => α) (combine top (fold combine below))
      (fun position => fold combine below position) position

/-- The position of a child of the forest at a position. -/
def childPosition (position : Fin n) (child : Fin position) : Fin n :=
  child.castLE (Nat.le_of_lt position.isLt)

section

variable (below : Family K n) (top : Forest K n) (position : Fin n)

@[simp] theorem forestAt_last : forestAt (.plant below top) (Fin.last n) = top :=
  Fin.lastCases_last

@[simp] theorem forestAt_castSucc :
    forestAt (.plant below top) position.castSucc = forestAt below position :=
  Fin.lastCases_castSucc position

variable (combine : {m : Nat} → Forest K m → (Fin m → α) → α)

@[simp] theorem fold_last :
    fold combine (.plant below top) (Fin.last n) = combine top (fold combine below) :=
  Fin.lastCases_last

@[simp] theorem fold_castSucc :
    fold combine (.plant below top) position.castSucc = fold combine below position :=
  Fin.lastCases_castSucc position

end

/-- A fold at a position combines the forest there with the folds at its children. -/
theorem fold_eq (combine : {m : Nat} → Forest K m → (Fin m → α) → α) (family : Family K n)
    (position : Fin n) :
    fold combine family position =
      combine (forestAt family position)
        (fun child => fold combine family (childPosition position child)) := by
  induction family with
  | bare => exact position.elim0
  | @plant n below top ih =>
      induction position using Fin.lastCases with
      | last =>
          rw [fold_last, forestAt_last]
          refine congrArg (combine top) (funext ?_)
          intro child
          exact (fold_castSucc below top child combine).symm
      | cast position =>
          rw [fold_castSucc, forestAt_castSucc, ih]
          refine congrArg (combine _) (funext ?_)
          intro child
          exact (fold_castSucc below top (childPosition position child) combine).symm

/-! ## Relations between families -/

/-- Two families whose forests are related position by position. -/
inductive Related (relation : (m : Nat) → Forest K m → Forest K m → Prop) :
    {n : Nat} → Family K n → Family K n → Prop where
  | bare : Related relation .bare .bare
  | plant {n : Nat} {below laterBelow : Family K n} {top laterTop : Forest K n}
      (relatedBelow : Related relation below laterBelow) (relatedTop : relation n top laterTop) :
      Related relation (.plant below top) (.plant laterBelow laterTop)

namespace Related

variable {relation : (m : Nat) → Forest K m → Forest K m → Prop} {family later last : Family K n}

theorem refl (holds : ∀ m (forest : Forest K m), relation m forest forest)
    (family : Family K n) : Related relation family family := by
  induction family with
  | bare => exact .bare
  | plant below top ih => exact .plant ih (holds _ top)

theorem trans (compose : ∀ m (first second third : Forest K m), relation m first second →
      relation m second third → relation m first third)
    (first : Related relation family later) (second : Related relation later last) :
    Related relation family last := by
  induction first with
  | bare => exact second
  | plant relatedBelow relatedTop ih =>
      cases second with
      | plant relatedBelow' relatedTop' =>
          exact .plant (ih relatedBelow') (compose _ _ _ _ relatedTop relatedTop')

theorem forestAt (related : Related relation family later) (position : Fin n) :
    relation position (family.forestAt position) (later.forestAt position) := by
  induction related with
  | bare => exact position.elim0
  | plant relatedBelow relatedTop ih =>
      induction position using Fin.lastCases with
      | last =>
          rw [forestAt_last, forestAt_last]
          exact relatedTop
      | cast position =>
          rw [forestAt_castSucc, forestAt_castSucc]
          exact ih position

theorem of_forestAt
    (holds : ∀ position : Fin n,
      relation position (family.forestAt position) (later.forestAt position)) :
    Related relation family later := by
  induction family with
  | bare =>
      cases later
      exact .bare
  | @plant n below top ih =>
      cases later with
      | plant laterBelow laterTop =>
          have here := holds (Fin.last n)
          rw [Family.forestAt_last, Family.forestAt_last] at here
          refine .plant (ih fun position => ?_) here
          have there := holds position.castSucc
          rw [Family.forestAt_castSucc, Family.forestAt_castSucc] at there
          exact there

end Related

/-! ## Actions -/

section

variable (below : Family K n) (top : Forest K n)

theorem onTop_apply (action : ForestM K n α) :
    onTop action (.plant below top) = ((action top).1, .plant below (action top).2) := rfl

theorem onBelow_apply (action : FamilyM K n α) :
    onBelow action (.plant below top) = ((action below).1, .plant (action below).2 top) := rfl

end

theorem within_last (action : {m : Nat} → ForestM K m α) :
    within action (Fin.last n) = onTop action := by
  rw [within, dif_neg (show ¬(Fin.last n).val < n from Nat.lt_irrefl n)]

theorem within_castSucc (action : {m : Nat} → ForestM K m α) (position : Fin n) :
    within action position.castSucc = onBelow (within action position) := by
  rw [within, dif_pos (show position.castSucc.val < n from position.isLt)]
  rfl

/-- An action answers what it does in the forest at its position, which it changes. -/
theorem within_apply (action : {m : Nat} → ForestM K m α) (family : Family K n)
    (position : Fin n) :
    (within action position family).1 = (action (family.forestAt position)).1 ∧
      (within action position family).2.forestAt position =
        (action (family.forestAt position)).2 := by
  induction family with
  | bare => exact position.elim0
  | plant below top ih =>
      induction position using Fin.lastCases with
      | last =>
          rw [within_last, onTop_apply, forestAt_last, forestAt_last]
          exact ⟨rfl, rfl⟩
      | cast position =>
          rw [within_castSucc, onBelow_apply, forestAt_castSucc, forestAt_castSucc]
          exact ih position

theorem forest_within {action : {m : Nat} → ForestM K m α} {family later : Family K n}
    {position : Fin n} {answer : Except Error α}
    (acted : within action position family = (answer, later)) :
    action (family.forestAt position) = (answer, later.forestAt position) := by
  have here := within_apply action family position
  rw [acted] at here
  exact Prod.ext here.1.symm here.2.symm

theorem apply_castSucc (operation : Operation) (position : Fin n) (a b : Index) :
    (apply operation position.castSucc a b : FamilyM K (n + 1) Index) =
      onBelow (apply operation position a b) := by
  rw [apply, dif_pos (show position.castSucc.val < n from position.isLt)]
  rfl

/-- An action that leaves its forest alone leaves the family alone. -/
theorem within_of_unchanged {action : {m : Nat} → ForestM K m α} {family : Family K n}
    {position : Fin n}
    (unchanged : (action (family.forestAt position)).2 = family.forestAt position) :
    (within action position family).2 = family := by
  induction family with
  | bare => exact position.elim0
  | plant below top ih =>
      induction position using Fin.lastCases with
      | last =>
          rw [forestAt_last] at unchanged
          rw [within_last, onTop_apply, unchanged]
      | cast position =>
          rw [forestAt_castSucc] at unchanged
          rw [within_castSucc, onBelow_apply, ih unchanged]

/-- Reading off a forest gives what is read there, and leaves the family alone. -/
theorem reading_apply (read : {m : Nat} → Forest K m → Except Error α) (family : Family K n)
    (position : Fin n) :
    reading read position family = (read (forestAt family position), family) :=
  Prod.ext (within_apply (do read (← get)) family position).1 (within_of_unchanged rfl)

/-! ## Lattice operations at the last position -/

/-- The calls that an alignment leaves to the forests below. -/
def callAll (operation : Operation) (cells : List (Cell K n)) : FamilyM K n (Content K) :=
  cells.mapM (Cell.resolve fun child x y => apply operation child x y)

/-- An operation at the last position, as a function of what the top forest is consulted
for and of the calls. -/
theorem apply_last (operation : Operation) (a b : Index) (below : Family K n)
    (top : Forest K n) :
    apply operation (Fin.last n) a b (.plant below top) =
      match Forest.consult operation a b top with
      | (.error error, noted) => (.error error, .plant below noted)
      | (.ok (.known result), noted) => (.ok result, .plant below noted)
      | (.ok (.unknown cells), noted) =>
        match callAll operation cells below with
        | (.error error, later) => (.error error, .plant later noted)
        | (.ok content, later) => (.ok (Forest.settle operation a b content noted).1,
            .plant later (Forest.settle operation a b content noted).2) := by
  rw [apply, dif_neg (show ¬(Fin.last n).val < n from Nat.lt_irrefl n), Action.bind_apply,
    onTop_apply]
  rcases Forest.consult operation a b top with ⟨_ | _ | cells, noted⟩
  · rfl
  · rfl
  · dsimp only
    rw [Action.bind_apply, onBelow_apply, ← callAll]
    rcases callAll operation cells below with ⟨_ | content, later⟩ <;> rfl

/-- The ways in which a lattice operation at the last position can go. -/
inductive Application (operation : Operation) (a b : Index) (below : Family K n)
    (top : Forest K n) : Except Error Index × Family K (n + 1) → Prop where
  | refused {error : Error} {noted : Forest K n}
      (consulted : Forest.consult operation a b top = (.error error, noted)) :
      Application operation a b below top (.error error, .plant below noted)
  | known {result : Index} {noted : Forest K n}
      (consulted : Forest.consult operation a b top = (.ok (.known result), noted)) :
      Application operation a b below top (.ok result, .plant below noted)
  | abandoned {cells : List (Cell K n)} {noted : Forest K n} {error : Error} {later : Family K n}
      (consulted : Forest.consult operation a b top = (.ok (.unknown cells), noted))
      (called : callAll operation cells below = (.error error, later)) :
      Application operation a b below top (.error error, .plant later noted)
  | settled {cells : List (Cell K n)} {noted : Forest K n} {content : Content K}
      {later : Family K n}
      (consulted : Forest.consult operation a b top = (.ok (.unknown cells), noted))
      (called : callAll operation cells below = (.ok content, later)) :
      Application operation a b below top
        (.ok (Forest.settle operation a b content noted).1,
          .plant later (Forest.settle operation a b content noted).2)

theorem application (operation : Operation) (a b : Index) (below : Family K n)
    (top : Forest K n) :
    Application operation a b below top
      (apply operation (Fin.last n) a b (.plant below top)) := by
  rw [apply_last]
  cases consulted : Forest.consult operation a b top with
  | mk answer noted =>
      cases answer with
      | error error => exact .refused consulted
      | ok answer =>
          cases answer with
          | known result => exact .known consulted
          | unknown cells =>
              dsimp only
              cases called : callAll operation cells below with
              | mk content later =>
                  cases content with
                  | error error => exact .abandoned consulted called
                  | ok content => exact .settled consulted called

end SetForest.Family
