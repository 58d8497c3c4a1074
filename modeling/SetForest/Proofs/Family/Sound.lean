import SetForest.Proofs.Family.Evolution
import SetForest.Proofs.Forest.Answer

namespace SetForest.Family

/-!
# Sound families

The indices of a family mean what they mean in the forest at each position, by
the meaning of the forests below it.  A family is sound if each of its forests
is.  The forests below may then go on by themselves, because a true statement
about a forest stays true when those below it grow.

`Sound.apply` is the correctness of lattice operations on all levels at once.
The induction is on the size of the family, and its hypothesis is used for every
call that an alignment makes.
-/

variable {K : Type} [Key K] {n : Nat} {α : Type}

/-- What the indices mean in each of the forests. -/
def meaning (family : Family K n) : Fin n → Meaning :=
  fold Forest.meaning family

/-- Every forest is sound above the forests below it. -/
inductive Sound : {n : Nat} → Family K n → Prop where
  | bare : Sound .bare
  | plant {n : Nat} {below : Family K n} {top : Forest K n} (soundBelow : Sound below)
      (soundTop : top.Sound below.meaning) : Sound (.plant below top)

/-- Every forest of the later family went on from the one at its position. -/
abbrev Extends (family later : Family K n) : Prop :=
  Related (fun _ => Forest.Extends) family later

variable {family later : Family K n}

theorem Extends.refl (family : Family K n) : Extends family family :=
  Related.refl (fun _ forest => Forest.Extends.refl forest) family

theorem Extends.trans {first second third : Family K n} (forth : Extends first second)
    (further : Extends second third) : Extends first third :=
  Related.trans (fun _ _ _ _ => Forest.Extends.trans) forth further

/-- The meaning at a position, by the meaning at its children. -/
theorem meaning_eq (family : Family K n) (position : Fin n) :
    family.meaning position = (family.forestAt position).meaning
      (fun child => family.meaning (childPosition position child)) :=
  fold_eq Forest.meaning family position

theorem meaning_last (below : Family K n) (top : Forest K n) :
    (plant below top).meaning (Fin.last n) = top.meaning below.meaning :=
  fold_last below top Forest.meaning

theorem meaning_castSucc (below : Family K n) (top : Forest K n) (position : Fin n) :
    (plant below top).meaning position.castSucc = below.meaning position :=
  fold_castSucc below top position Forest.meaning

/-- What is said of a family is still said when it has gone on. -/
theorem Extends.meaning_le (extension : Extends family later) (position : Fin n) :
    (family.meaning position).Le (later.meaning position) := by
  induction extension with
  | bare => exact position.elim0
  | plant extensionBelow extensionTop ih =>
      induction position using Fin.lastCases with
      | last =>
          rw [meaning_last, meaning_last]
          exact extensionTop.meaning_le ih
      | cast position =>
          rw [meaning_castSucc, meaning_castSucc]
          exact ih position

namespace Sound

theorem forestAt (sound : family.Sound) (position : Fin n) :
    (family.forestAt position).Sound
      (fun child => family.meaning (childPosition position child)) := by
  induction sound with
  | bare => exact position.elim0
  | @plant n below top soundBelow soundTop ih =>
      induction position using Fin.lastCases with
      | last =>
          rw [forestAt_last]
          have same :
              (fun child => (Family.plant below top).meaning (childPosition (Fin.last n) child)) =
                below.meaning :=
            funext (meaning_castSucc below top)
          rw [same]
          exact soundTop
      | cast position =>
          rw [forestAt_castSucc]
          have same : (fun child =>
              (Family.plant below top).meaning (childPosition position.castSucc child)) =
              fun child => below.meaning (childPosition position child) :=
            funext fun child => meaning_castSucc below top (childPosition position child)
          rw [same]
          exact ih position

/-- The laws hold at every position. -/
theorem lawful (sound : family.Sound) (position : Fin n) : (family.meaning position).Lawful := by
  induction sound with
  | bare => exact position.elim0
  | plant soundBelow soundTop ih =>
      induction position using Fin.lastCases with
      | last =>
          rw [meaning_last]
          exact soundTop.toWellStored.lawful_meaning ih
      | cast position =>
          rw [meaning_castSucc]
          exact ih position

/-- What changes a forest by itself keeps the family sound. -/
theorem within (sound : family.Sound) (action : {m : Nat} → ForestM K m α) (position : Fin n)
    {admits : Content K → Prop}
    (admitted : ∀ content, admits content → (family.forestAt position).Admits content)
    (changes : Forest.Changes admits (family.forestAt position)
      (action (family.forestAt position)).2) :
    (within action position family).2.Sound ∧ Extends family (within action position family).2 := by
  induction sound with
  | bare => exact position.elim0
  | @plant n below top soundBelow soundTop ih =>
      induction position using Fin.lastCases with
      | last =>
          rw [forestAt_last] at admitted changes
          have advances := soundTop.changes soundBelow.lawful admitted changes
          rw [within_last, onTop_apply]
          exact ⟨.plant soundBelow advances.sound, .plant (Extends.refl below) advances.extension⟩
      | cast position =>
          rw [forestAt_castSucc] at admitted changes
          rcases ih position admitted changes with ⟨soundLater, extension⟩
          rw [within_castSucc, onBelow_apply]
          exact ⟨.plant soundLater (soundTop.mono extension.meaning_le),
            .plant extension (Forest.Extends.refl top)⟩

/-- All calls of an alignment keep a family sound if single operations do, and what
they have answered is right in the family as it is after the last of them. -/
theorem ensures_callAll {operation : Operation}
    (applies : ∀ (state : Family K n), state.Sound → ∀ child x y,
      Action.Ensures Sound Extends state (Family.apply operation child x y)
        (fun r later => (later.meaning child).Determines operation x y r))
    (sound : family.Sound) (cells : List (Cell K n)) :
    Action.Ensures Sound Extends family (callAll operation cells) (fun content later =>
      List.Forall₂ (Cell.Resolves fun child => (later.meaning child).Answers operation)
        cells content) := by
  refine Cell.ensures_resolveAll Extends.refl (fun _ _ _ => Extends.trans) ?_ ?_ cells sound
  · intro first second extension child x y z
    exact (extension.meaning_le child).answers operation x y z
  · intro child x y state soundState
    have ensured := applies state soundState child x y
    exact ⟨ensured.holds, ensured.advances,
      fun z answered => (ensured.answered z answered).answers⟩

/-- Whichever way an operation at the last position goes, the family stays sound,
and an answer is the right one. -/
theorem of_application {below : Family K n} {top : Forest K n} (soundBelow : below.Sound)
    (soundTop : top.Sound below.meaning) {operation : Operation} {a b : Index}
    {outcome : Except Error Index × Family K (n + 1)}
    (called : ∀ cells, Action.Ensures Sound Extends below (callAll operation cells)
      (fun content later => List.Forall₂
        (Cell.Resolves fun child => (later.meaning child).Answers operation) cells content))
    (way : Application operation a b below top outcome) :
    outcome.2.Sound ∧ Extends (.plant below top) outcome.2 ∧
      ∀ r, outcome.1 = .ok r →
        (outcome.2.meaning (Fin.last n)).Determines operation a b r := by
  rcases soundTop.consult soundBelow.lawful operation a b with ⟨noted, known, unknown⟩
  cases way with
  | refused consulted =>
      rw [consulted] at noted
      exact ⟨.plant soundBelow noted.sound, .plant (Extends.refl below) noted.extension, nofun⟩
  | known consulted =>
      rw [consulted] at noted known
      refine ⟨.plant soundBelow noted.sound, .plant (Extends.refl below) noted.extension, ?_⟩
      rintro r ⟨⟩
      rw [meaning_last]
      exact known _ rfl
  | @abandoned cells _ _ _ consulted failed =>
      have soundLater := (called cells).holds
      have extension := (called cells).advances
      rw [failed] at soundLater extension
      rw [consulted] at noted
      exact ⟨.plant soundLater (noted.sound.mono extension.meaning_le),
        .plant extension noted.extension, nofun⟩
  | @settled cells later content laterBelow consulted succeeded =>
      have soundLater := (called cells).holds
      have extension := (called cells).advances
      have resolved := (called cells).answered content
      rw [succeeded] at soundLater extension resolved
      rw [consulted] at noted unknown
      rcases unknown cells rfl with
        ⟨different, left, right, denotesLeft, denotesRight, aligned⟩
      have resolvedCells := resolved rfl
      rw [aligned, ← noted.extension.children] at resolvedCells
      -- The calls may have changed the forests below, but what was noted still holds there.
      have notedLater := noted.sound.mono extension.meaning_le
      rcases notedLater.settle soundLater.lawful different denotesLeft denotesRight
        resolvedCells with ⟨settled, determines⟩
      refine ⟨.plant soundLater settled.sound,
        .plant extension (noted.extension.trans settled.extension), ?_⟩
      rintro r ⟨⟩
      rw [meaning_last]
      exact determines

/-- A lattice operation keeps a family sound, and if it has an answer, that is
the right one in the family as it is then. -/
theorem apply (sound : family.Sound) (operation : Operation) (position : Fin n) (a b : Index) :
    Action.Ensures Sound Extends family (apply operation position a b)
      (fun r later => (later.meaning position).Determines operation a b r) := by
  induction n generalizing a b with
  | zero => exact position.elim0
  | succ n ih =>
      cases sound with
      | @plant _ below top soundBelow soundTop =>
          induction position using Fin.lastCases with
          | cast position =>
              have called := ih soundBelow position a b
              have soundAbove := soundTop.mono called.advances.meaning_le
              refine ⟨?_, ?_, ?_⟩ <;> rw [apply_castSucc, onBelow_apply]
              · exact .plant called.holds soundAbove
              · exact .plant called.advances (Forest.Extends.refl top)
              · intro r answered
                rw [meaning_castSucc]
                exact called.answered r answered
          | last =>
              have called := ensures_callAll (fun _ soundState => ih soundState) soundBelow
              rcases of_application soundBelow soundTop called
                (application operation a b below top) with
                  ⟨holds, advances, answered⟩
              exact ⟨holds, advances, answered⟩

/-- Operands of an operation that has an answer were in use before it. -/
theorem inUse_of_apply (sound : family.Sound) {operation : Operation} {position : Fin n}
    {a b r : Index} (answered : (Family.apply operation position a b family).1 = .ok r) :
    (family.meaning position).InUse a ∧ (family.meaning position).InUse b := by
  induction sound with
  | bare => exact position.elim0
  | @plant n below top soundBelow soundTop ih =>
      induction position using Fin.lastCases with
      | cast position =>
          rw [apply_castSucc, onBelow_apply] at answered
          rw [meaning_castSucc]
          exact ih answered
      | last =>
          rw [meaning_last]
          have ways := application operation a b below top
          generalize Family.apply operation (Fin.last n) a b (.plant below top) = outcome
            at answered ways
          cases ways with
          | refused consulted => cases answered
          | known consulted =>
              exact soundTop.toWellStored.inUse_of_consult (congrArg Prod.fst consulted)
          | abandoned consulted failed => cases answered
          | settled consulted succeeded =>
              exact soundTop.toWellStored.inUse_of_consult (congrArg Prod.fst consulted)

/-- A lattice operation with an answer, in terms of the sets before and after it. -/
theorem contents_of_apply (sound : family.Sound) {operation : Operation} {position : Fin n}
    {a b r : Index} (answered : Family.apply operation position a b family = (.ok r, later)) :
    later.Sound ∧ Extends family later ∧ (later.meaning position).Determines operation a b r ∧
      ∃ left right content, (family.forestAt position).Denotes a left ∧
        (family.forestAt position).Denotes b right ∧ (later.forestAt position).Denotes r content ∧
        (a = b ∧ left = right ∧ content = (if operation = .difference then [] else left) ∨
          a ≠ b ∧ Content.Joined operation (later.forestAt position).children
            (fun child => (later.meaning (childPosition position child)).Answers operation)
            left right content) := by
  rcases sound.apply operation position a b with ⟨soundLater, extension, determined⟩
  rw [answered] at soundLater extension determined
  have determines := determined r rfl
  have inUse := sound.inUse_of_apply (congrArg Prod.fst answered)
  rw [meaning_eq] at inUse
  rcases inUse with ⟨⟨left, denotesLeft⟩, ⟨right, denotesRight⟩⟩
  refine ⟨soundLater, extension, determines, left, right, ?_⟩
  rw [meaning_eq] at determines
  have stored := (soundLater.forestAt position).toWellStored
  have kept := (extension.forestAt position).denotes
  rcases stored.exists_contents determines with
    ⟨left', right', content, denotesLeft', denotesRight', denotes, joined⟩
  rcases stored.content_unique (kept a left denotesLeft) denotesLeft' with rfl
  rcases stored.content_unique (kept b right denotesRight) denotesRight' with rfl
  exact ⟨content, denotesLeft, denotesRight, denotes, joined⟩

/-- A family stays sound through any steps that store what may be stored. -/
theorem steps (sound : family.Sound) {admits : Content K → Prop} {position : Fin n}
    (admitted : ∀ content, admits content → (family.forestAt position).Admits content)
    (steps : Steps admits position family later) : later.Sound ∧ Extends family later := by
  induction steps with
  | refl => exact ⟨sound, Extends.refl family⟩
  | @tail mid last _ step ih =>
      rcases ih with ⟨soundMid, extension⟩
      cases step with
      | changed action changes =>
          have admittedMid : ∀ content, admits content →
              (mid.forestAt position).Admits content := by
            intro content allowed
            rw [Forest.Admits, (extension.forestAt position).children]
            exact admitted content allowed
          rcases soundMid.within action position admittedMid changes with ⟨soundLast, further⟩
          exact ⟨soundLast, extension.trans further⟩
      | applied operation a b =>
          have ensured := soundMid.apply operation position a b
          exact ⟨ensured.holds, extension.trans ensured.advances⟩

end Sound

end SetForest.Family
