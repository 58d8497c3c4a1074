import SetForest.Proofs.Family.Planting
import SetForest.Proofs.Forest.Complete

namespace SetForest.Family

/-!
# Complete families

A family is complete if each of its forests is, where the forests below have to know
the calls that a remembered result stands on.  Like soundness, this is kept by
everything that a caller can do.

For lattice operations the reason is that a call that was answered is known from then
on (`Sound.knows_of_apply`).
-/

variable {K : Type} [Key K] {n : Nat} {α : Type}

/-- The forest at a position knows a result. -/
def Knows (family : Family K n) (position : Fin n) (operation : Operation) (a b : Index) : Prop :=
  (family.forestAt position).Knows operation a b

/-- Every forest is complete above the forests below it. -/
inductive Complete : {n : Nat} → Family K n → Prop where
  | bare : Complete .bare
  | plant {n : Nat} {below : Family K n} {top : Forest K n} (completeBelow : Complete below)
      (completeTop : top.Complete below.Knows) : Complete (.plant below top)

/-- Every forest remembers what the one at its position has remembered. -/
abbrev Remembers (family later : Family K n) : Prop :=
  Related (fun _ => Forest.Remembers) family later

variable {family later : Family K n}

theorem Remembers.refl (family : Family K n) : Remembers family family :=
  Related.refl (fun _ forest => Forest.Remembers.refl forest) family

theorem Remembers.trans {first second third : Family K n} (forth : Remembers first second)
    (further : Remembers second third) : Remembers first third :=
  Related.trans (fun _ _ _ _ => Forest.Remembers.trans) forth further

theorem remembers_apply (operation : Operation) (position : Fin n) (a b : Index)
    (family : Family K n) : Remembers family (apply operation position a b family).2 :=
  related_apply (fun _ => Forest.Remembers.refl) (fun _ _ _ _ => Forest.Remembers.trans)
    (fun _ _ _ _ kept => .of_eq kept fun operation => by cases operation <;> rfl)
    (fun _ forest operation a b content => forest.remembers_settle operation a b content)
    operation position a b family

theorem Knows.mono {position : Fin n} {operation : Operation} {a b : Index}
    (knows : family.Knows position operation a b) (extension : Extends family later)
    (remembers : Remembers family later) : later.Knows position operation a b :=
  Forest.Knows.mono knows (extension.forestAt position) (remembers.forestAt position)

/-- A call that was answered is known. -/
theorem Sound.knows_of_apply (sound : family.Sound) {operation : Operation} {position : Fin n}
    {a b r : Index} (answered : Family.apply operation position a b family = (.ok r, later)) :
    later.Knows position operation a b := by
  rcases sound.contents_of_apply answered with ⟨-, -, determines, -⟩
  rw [meaning_eq] at determines
  suffices known : (later.forestAt position).HasNoted (.operation operation) ∧
      (((later.forestAt position).shortcut operation a b).isSome ∨
        (((later.forestAt position).memo operation).lookup (operation.operands a b)).isSome) from
    ⟨determines.left, determines.right, known.1, known.2⟩
  clear determines
  induction sound with
  | bare => exact position.elim0
  | @plant n below top soundBelow soundTop ih =>
      induction position using Fin.lastCases with
      | cast position =>
          rw [apply_castSucc, onBelow_apply] at answered
          rcases Prod.mk.inj answered with ⟨same, rfl⟩
          rw [forestAt_castSucc]
          exact ih (Prod.ext same rfl)
      | last =>
          have ways := application operation a b below top
          have hasNoted := top.hasNoted_consult operation a b
          rw [answered] at ways
          cases ways with
          | known consulted =>
              rcases top.exists_consult_eq operation a b with ⟨counters, activities, noted⟩
              have known := Forest.known_of_consult (congrArg Prod.fst consulted)
              rw [consulted] at noted hasNoted
              obtain rfl := noted
              rw [forestAt_last]
              exact ⟨hasNoted, by cases operation <;> exact known⟩
          | @settled cells noted content _ consulted succeeded =>
              rw [consulted] at hasNoted
              rw [forestAt_last]
              exact ⟨hasNoted.mono (noted.evolves_settle operation a b content).config
                (noted.remembers_settle operation a b content).activities,
                Or.inr (noted.lookup_settle_isSome operation a b content)⟩

theorem knows_castSucc (below : Family K n) (top : Forest K n) (position : Fin n) :
    (plant below top).Knows position.castSucc = below.Knows position := by
  funext operation a b
  rw [Knows, forestAt_castSucc]
  rfl

namespace Complete

theorem forestAt (complete : family.Complete) (position : Fin n) :
    (family.forestAt position).Complete
      (fun child => family.Knows (childPosition position child)) := by
  induction complete with
  | bare => exact position.elim0
  | @plant n below top completeBelow completeTop ih =>
      induction position using Fin.lastCases with
      | last =>
          rw [forestAt_last]
          have same :
              (fun child => (Family.plant below top).Knows (childPosition (Fin.last n) child)) =
                below.Knows :=
            funext (knows_castSucc below top)
          rw [same]
          exact completeTop
      | cast position =>
          rw [forestAt_castSucc]
          have same : (fun child =>
              (Family.plant below top).Knows (childPosition position.castSucc child)) =
              fun child => below.Knows (childPosition position child) :=
            funext fun child => knows_castSucc below top (childPosition position child)
          rw [same]
          exact ih position

/-- The calls of an alignment keep a family complete, and are known after them. -/
theorem ensures_callAll {operation : Operation}
    (applies : ∀ (state : Family K n), state.Sound → state.Complete → ∀ child x y,
      (Family.apply operation child x y state).2.Complete)
    (sound : family.Sound) (complete : family.Complete) (cells : List (Cell K n)) :
    Action.Ensures (fun state : Family K n => state.Sound ∧ state.Complete)
      (fun state after => Extends state after ∧ Remembers state after) family
      (callAll operation cells) (fun content after =>
        List.Forall₂ (Cell.Resolves fun child x y _ => after.Knows child operation x y)
          cells content) := by
  refine Cell.ensures_resolveAll (fun state => ⟨.refl state, .refl state⟩)
    (fun _ _ _ first second => ⟨first.1.trans second.1, first.2.trans second.2⟩) ?_ ?_ cells
    ⟨sound, complete⟩
  · rintro first second ⟨extension, remembers⟩ child x y _ knows
    exact knows.mono extension remembers
  · rintro child x y state ⟨soundState, completeState⟩
    have ensured := soundState.apply operation child x y
    refine ⟨⟨ensured.holds, applies state soundState completeState child x y⟩,
      ⟨ensured.advances, remembers_apply operation child x y state⟩, ?_⟩
    intro z answered
    exact soundState.knows_of_apply (Prod.ext answered rfl)

/-- The top forest stays complete when those below it go on. -/
theorem top_mono {below laterBelow : Family K n} {top laterTop : Forest K n}
    (complete : top.Complete below.Knows) (soundBelow : below.Sound)
    (soundTop : top.Sound below.meaning) (stored : laterTop.WellStored)
    (extensionTop : top.Extends laterTop)
    (memo : ∀ operation, laterTop.memo operation = top.memo operation)
    (extension : Extends below laterBelow) (remembers : Remembers below laterBelow) :
    laterTop.Complete laterBelow.Knows :=
  Forest.Complete.mono complete soundTop soundBelow.lawful stored extensionTop memo
    fun _ _ _ _ knows => knows.mono extension remembers

/-- A consultation of the top forest keeps it complete, also when the calls were made. -/
theorem top_consult {below laterBelow : Family K n} {top : Forest K n}
    (complete : top.Complete below.Knows) (soundBelow : below.Sound)
    (soundTop : top.Sound below.meaning) (operation : Operation) (a b : Index)
    (extension : Extends below laterBelow) (remembers : Remembers below laterBelow) :
    (Forest.consult operation a b top).2.Complete laterBelow.Knows := by
  have consulted := (soundTop.consult soundBelow.lawful operation a b).1
  exact top_mono complete soundBelow soundTop consulted.sound.toWellStored consulted.extension
    (fun other => top.memo_consult operation other a b) extension remembers

/-- Whichever way an operation at the last position goes, the family stays complete. -/
theorem of_application {below : Family K n} {top : Forest K n} (completeBelow : below.Complete)
    (completeTop : top.Complete below.Knows) (soundBelow : below.Sound)
    (soundTop : top.Sound below.meaning) {operation : Operation} {a b : Index}
    (applies : ∀ (state : Family K n), state.Sound → state.Complete → ∀ child x y,
      (Family.apply operation child x y state).2.Complete)
    {outcome : Except Error Index × Family K (n + 1)}
    (way : Application operation a b below top outcome) : outcome.2.Complete := by
  have consulted := (soundTop.consult soundBelow.lawful operation a b).1
  have topMono : ∀ {laterBelow : Family K n}, Extends below laterBelow →
      Remembers below laterBelow →
      (Forest.consult operation a b top).2.Complete laterBelow.Knows :=
    top_consult completeTop soundBelow soundTop operation a b
  have called := ensures_callAll applies soundBelow completeBelow
  have resolved := Sound.ensures_callAll (fun _ soundState => soundState.apply operation) soundBelow
  cases way with
  | refused answered =>
      rw [answered] at topMono
      exact .plant completeBelow (topMono (.refl below) (.refl below))
  | known answered =>
      rw [answered] at topMono
      exact .plant completeBelow (topMono (.refl below) (.refl below))
  | @abandoned cells _ _ _ answered failed =>
      have ensured := called cells
      rcases ensured with ⟨⟨-, completeLater⟩, ⟨extension, remembers⟩, -⟩
      rw [failed] at completeLater extension remembers
      rw [answered] at topMono
      exact .plant completeLater (topMono extension remembers)
  | @settled cells noted content later answered succeeded =>
      rcases called cells with ⟨⟨soundLater, completeLater⟩, ⟨extension, remembers⟩, knows⟩
      have answers := (resolved cells).answered content
      rw [succeeded] at soundLater completeLater extension remembers knows answers
      rcases Forest.reads_of_unknown (congrArg Prod.fst answered) with
        ⟨different, left, right, leftRead, rightRead, rfl⟩
      rw [answered] at topMono consulted
      have denotesLeft := consulted.extension.denotes a left
        (soundTop.canonical.denotes_of_get leftRead)
      have denotesRight := consulted.extension.denotes b right
        (soundTop.canonical.denotes_of_get rightRead)
      have resolvedCells := answers rfl
      rw [← consulted.extension.children] at resolvedCells
      -- Every call that the merge makes belongs to one of the cells.
      have knownCalls := ((List.forall₂_and_left _ _).mp
        ((knows content rfl).imp fun _ _ resolves => ⟨resolves.forall_calls, trivial⟩)).1
      have calls : noted.CallsKnown later.Knows operation left right := by
        intro first inLeft second inRight sameKey number child atChild
        rw [consulted.extension.children] at atChild
        have stored := soundTop.toWellStored
        have leftDenoted := soundTop.canonical.denotes_of_get leftRead
        have rightDenoted := soundTop.canonical.denotes_of_get rightRead
        rcases Content.exists_calls_of_align operation (stored.increasing a left leftDenoted)
          (stored.increasing b right rightDenoted) (stored.arity a left leftDenoted)
          (stored.arity b right rightDenoted) inLeft inRight sameKey atChild with
            ⟨cell, member, called⟩
        exact knownCalls cell member _ called
      exact .plant completeLater ((topMono extension remembers).settle
        (consulted.sound.mono extension.meaning_le) soundLater.lawful
        (fun _ _ _ _ commutative knows => knows.symm commutative) different denotesLeft denotesRight
        resolvedCells calls)

/-- A lattice operation keeps a family complete. -/
theorem apply (complete : family.Complete) (sound : family.Sound) (operation : Operation)
    (position : Fin n) (a b : Index) :
    (Family.apply operation position a b family).2.Complete := by
  induction n generalizing a b with
  | zero => exact position.elim0
  | succ n ih =>
      cases sound with
      | @plant _ below top soundBelow soundTop =>
          cases complete with
          | plant completeBelow completeTop =>
              induction position using Fin.lastCases with
              | cast position =>
                  have ensured := soundBelow.apply operation position a b
                  rw [apply_castSucc, onBelow_apply]
                  exact .plant (ih completeBelow soundBelow position a b)
                    (top_mono completeTop soundBelow soundTop soundTop.toWellStored
                      (.refl top) (fun _ => rfl) ensured.advances
                      (remembers_apply operation position a b below))
              | last =>
                  exact of_application completeBelow completeTop soundBelow soundTop
                    (fun _ soundState completeState => ih completeState soundState)
                    (application operation a b below top)

/-- What changes a forest by itself keeps the family complete, as it remembers nothing. -/
theorem within (complete : family.Complete) (sound : family.Sound)
    (action : {m : Nat} → ForestM K m α) (position : Fin n) {admits : Content K → Prop}
    (admitted : ∀ content, admits content → (family.forestAt position).Admits content)
    (changes : Forest.Changes admits (family.forestAt position)
      (action (family.forestAt position)).2) :
    (Family.within action position family).2.Complete := by
  induction sound with
  | bare => exact position.elim0
  | @plant n below top soundBelow soundTop ih =>
      cases complete with
      | plant completeBelow completeTop =>
          induction position using Fin.lastCases with
          | last =>
              rw [forestAt_last] at admitted changes
              have advances := soundTop.changes soundBelow.lawful admitted changes
              rw [within_last, onTop_apply]
              exact .plant completeBelow (top_mono completeTop soundBelow soundTop
                advances.sound.toWellStored advances.extension changes.memo_eq (.refl below)
                (.refl below))
          | cast position =>
              rw [forestAt_castSucc] at admitted changes
              have remembers : Remembers below (Family.within action position below).2 :=
                related_within (fun _ => Forest.Remembers.refl) action below position
                  (.of_eq changes.activities_subset changes.memo_eq)
              rw [within_castSucc, onBelow_apply]
              exact .plant (ih completeBelow position admitted changes)
                (top_mono completeTop soundBelow soundTop soundTop.toWellStored (.refl top)
                  (fun _ => rfl) (soundBelow.within action position admitted changes).2 remembers)

/-- A family stays complete through any steps that store what may be stored. -/
theorem steps (complete : family.Complete) (sound : family.Sound) {admits : Content K → Prop}
    {position : Fin n}
    (admitted : ∀ content, admits content → (family.forestAt position).Admits content)
    (steps : Steps admits position family later) : later.Complete := by
  induction steps with
  | refl => exact complete
  | @tail mid last before step ih =>
      rcases sound.steps admitted before with ⟨soundMid, extension⟩
      cases step with
      | changed action changes =>
          refine ih.within soundMid action position ?_ changes
          intro content allowed
          rw [Forest.Admits, (extension.forestAt position).children]
          exact admitted content allowed
      | applied operation a b => exact ih.apply soundMid operation position a b

end Complete

/-- A planted family is complete, as it remembers nothing. -/
theorem complete_ofSpecs? {specs : List Spec} (planted : ofSpecs? specs = some ⟨n, family⟩) :
    family.Complete := by
  refine ofSpecs?_induction .bare ?_ planted
  intro n family config strategy children complete
  refine .plant complete ⟨?_, ?_⟩
  · intro operation a b r found
    cases operation <;> simp [Forest.create, Forest.memo] at found
  · intro operation a b r left right found
    cases operation <;> simp [Forest.create, Forest.memo] at found

end SetForest.Family
