import SetForest.Proofs.Family.Evolution
import SetForest.Proofs.Forest.Accounts

namespace SetForest

/-!
# Journals of operations

A lattice operation works in many forests, and each of them counts what it answers.
Which operations have been answered where does not show in the answer.  A journal lists
them in their order, each with the position of its forest.

`Family.applyJournaled` is a lattice operation that keeps a journal.  Each operation
that is answered is entered by itself, whether a caller asked for it or a forest above.
Otherwise it does what the operation does without a journal (`Family.erases_apply`), so
what is shown of it tells about the plain operation.
-/

/-- What has happened in the forests of a family, in its order and by position. -/
abbrev Journal := List (Nat × Event)

namespace Journal

/-- How often each event has occurred at a position. -/
def ledger (journal : Journal) (position : Nat) : Ledger :=
  fun event => journal.count (position, event)

/-- Enter an event at a position, if it has occurred. -/
def enterIf (journal : Journal) (occurred : Prop) [Decidable occurred] (position : Nat)
    (event : Event) : Journal :=
  if occurred then journal ++ [(position, event)] else journal

theorem ledger_concat (journal : Journal) (position other : Nat) (event : Event) :
    ledger (journal ++ [(position, event)]) other =
      if other = position then (journal.ledger other).enter event else journal.ledger other := by
  funext kind
  rw [ledger, List.count_append, List.count_singleton]
  by_cases here : other = position
  · subst other
    rw [if_pos rfl, Ledger.enter]
    by_cases same : kind = event
    · simp [ledger, same]
    · simp [ledger, same, Ne.symm same]
  · simp [ledger, here, Ne.symm here]

variable {journal : Journal} {occurred : Prop} [Decidable occurred] {position other : Nat}
  {event : Event}

theorem ledger_enterIf_self : (journal.enterIf occurred position event).ledger position =
    if occurred then (journal.ledger position).enter event else journal.ledger position := by
  rw [enterIf]
  split
  · rw [ledger_concat, if_pos rfl]
  · rfl

theorem ledger_enterIf_of_ne (elsewhere : other ≠ position) :
    (journal.enterIf occurred position event).ledger other = journal.ledger other := by
  rw [enterIf]
  split
  · rw [ledger_concat, if_neg elsewhere]
  · rfl

/-- How often one event has occurred does not depend on entries of others. -/
theorem ledger_concat_of_event_ne {kind : Event} (different : kind ≠ event) :
    ledger (journal ++ [(position, event)]) other kind = journal.ledger other kind := by
  rw [ledger_concat]
  split
  · exact Ledger.enter_of_ne different
  · rfl

theorem ledger_enterIf_of_event_ne {kind : Event} (different : kind ≠ event) :
    (journal.enterIf occurred position event).ledger other kind = journal.ledger other kind := by
  rw [enterIf]
  split
  · exact ledger_concat_of_event_ne different
  · rfl

end Journal

/-- An action on a family that keeps a journal. -/
abbrev JournaledM (K : Type) [Key K] (n : Nat) := Action (Family K n × Journal)

namespace Family

variable {K : Type} [Key K] {n : Nat} {α : Type}

/-! ## Operations with a journal -/

/-- Act on the family and enter nothing. -/
def unrecorded (action : FamilyM K n α) : JournaledM K n α := fun state =>
  ((action state.1).1, (action state.1).2, state.2)

/-- Act on the forests before the last position, with the same journal. -/
def journaledBelow (action : JournaledM K n α) : JournaledM K (n + 1) α := fun
  | (.plant below top, journal) =>
    let (answer, below, journal) := action (below, journal)
    (answer, .plant below top, journal)

/-- Enter an event if an action is answered. -/
def answered (position : Nat) (event : Event) (action : JournaledM K n α) : JournaledM K n α := do
  let value ← action
  modify fun (family, journal) => (family, journal ++ [(position, event)])
  return value

/-- A lattice operation that enters every operation that is answered on the way. -/
def applyJournaled (operation : Operation) :
    {n : Nat} → Fin n → Index → Index → JournaledM K n Index
  | n + 1, position, a, b =>
    if below : position.val < n then
      journaledBelow (applyJournaled operation ⟨position, below⟩ a b)
    else answered n (.applied operation) do
      match ← unrecorded (onTop (Forest.consult operation a b)) with
      | .known result => return result
      | .unknown cells =>
        let content ← journaledBelow
          (cells.mapM (Cell.resolve fun child x y => applyJournaled operation child x y))
        unrecorded (onTop (ExceptT.lift (Forest.settle operation a b content)))

/-- An operation with the set of one element, which is registered first. -/
def applySingleJournaled (operation : Operation) (position : Fin n) (a : Index)
    (element : Element K) : JournaledM K n Index := do
  let single ← answered position .registered
    (unrecorded (within (ExceptT.lift (Forest.registerSingle element)) position))
  applyJournaled operation position a single.index

/-- The calls that an alignment leaves to the forests below. -/
def callAllJournaled (operation : Operation) (cells : List (Cell K n)) :
    JournaledM K n (Content K) :=
  cells.mapM (Cell.resolve fun child x y => applyJournaled operation child x y)

theorem journaledBelow_apply (action : JournaledM K n α) (below : Family K n) (top : Forest K n)
    (journal : Journal) :
    journaledBelow action (.plant below top, journal) = ((action (below, journal)).1,
      .plant (action (below, journal)).2.1 top, (action (below, journal)).2.2) := rfl

theorem applyJournaled_castSucc (operation : Operation) (position : Fin n) (a b : Index) :
    (applyJournaled operation position.castSucc a b : JournaledM K (n + 1) Index) =
      journaledBelow (applyJournaled operation position a b) := by
  rw [applyJournaled, dif_pos (show position.castSucc.val < n from position.isLt)]
  rfl

theorem applyJournaled_last (operation : Operation) (a b : Index) (below : Family K n)
    (top : Forest K n) (journal : Journal) :
    applyJournaled operation (Fin.last n) a b (.plant below top, journal) =
      match Forest.consult operation a b top with
      | (.error error, noted) => (.error error, .plant below noted, journal)
      | (.ok (.known result), noted) =>
        (.ok result, .plant below noted, journal ++ [(n, .applied operation)])
      | (.ok (.unknown cells), noted) =>
        match callAllJournaled operation cells (below, journal) with
        | (.error error, later, journal) => (.error error, .plant later noted, journal)
        | (.ok content, later, journal) => (.ok (Forest.settle operation a b content noted).1,
            .plant later (Forest.settle operation a b content noted).2,
            journal ++ [(n, .applied operation)]) := by
  rw [applyJournaled, dif_neg (show ¬(Fin.last n).val < n from Nat.lt_irrefl n), answered,
    Action.bind_apply, Action.bind_apply]
  rw [unrecorded, onTop_apply]
  rcases Forest.consult operation a b top with ⟨_ | _ | cells, noted⟩
  · rfl
  · rfl
  · dsimp only
    rw [Action.bind_apply, ← callAllJournaled, journaledBelow]
    rcases callAllJournaled operation cells (below, journal) with ⟨_ | content, later, journal⟩ <;>
      rfl

/-! ## The journal may be erased -/

/-- An action with a journal does the same as one without. -/
abbrev Erases (state : Family K n × Journal) (journaled : JournaledM K n α)
    (action : FamilyM K n α) : Prop :=
  Lockstep (fun _ => False) (fun reached family => reached.1 = family) Eq
    (journaled state) (action state.1)

theorem erases_below {below : Family K n} {journal : Journal} {journaled : JournaledM K n α}
    {action : FamilyM K n α} (top : Forest K n)
    (erases : Erases (below, journal) journaled action) :
    Erases (.plant below top, journal) (journaledBelow journaled) (onBelow action) := by
  rw [Erases, journaledBelow_apply, onBelow_apply]
  rw [Erases] at erases
  generalize journaled (below, journal) = first at erases
  generalize action below = second at erases
  cases erases with
  | excused excused => exact excused.elim
  | answered isAlike reached => exact .answered isAlike (congrArg (plant · top) reached)
  | failed reached => exact .failed (congrArg (plant · top) reached)

/-- With a journal an operation answers as it does without, and leaves the same family. -/
theorem erases_apply (operation : Operation) (position : Fin n) (a b : Index)
    (state : Family K n × Journal) :
    Erases state (applyJournaled operation position a b) (apply operation position a b) := by
  induction n generalizing a b with
  | zero => exact position.elim0
  | succ n ih =>
      rcases state with ⟨family, journal⟩
      cases family with
      | plant below top =>
          induction position using Fin.lastCases with
          | cast position =>
              rw [applyJournaled_castSucc, apply_castSucc]
              exact erases_below top (ih position a b (below, journal))
          | last =>
              rw [Erases, applyJournaled_last, apply_last]
              rcases Forest.consult operation a b top with ⟨_ | _ | cells, noted⟩
              · exact .failed rfl
              · exact .answered rfl rfl
              · have calls : Erases (below, journal) (callAllJournaled operation cells)
                    (callAll operation cells) := by
                  refine Cell.lockstep_resolveAll ?_ cells rfl
                  rintro child a b x _ rfl
                  exact ih child a b x
                rw [Erases] at calls
                dsimp only
                generalize callAllJournaled operation cells (below, journal) = first at calls
                generalize callAll operation cells below = second at calls
                cases calls with
                | excused excused => exact excused.elim
                | answered same reached =>
                    rcases same with rfl
                    exact .answered rfl (congrArg (plant · _) reached)
                | failed reached => exact .failed (congrArg (plant · _) reached)

/-- So do the operations with a single element. -/
theorem erases_applySingle (operation : Operation) (position : Fin n) (a : Index)
    (element : Element K) (state : Family K n × Journal) :
    Erases state (applySingleJournaled operation position a element)
      (applySingle operation position a element) := by
  have registered : Erases state (answered position .registered
      (unrecorded (within (ExceptT.lift (Forest.registerSingle element)) position)))
      (within (ExceptT.lift (Forest.registerSingle element)) position) := by
    rw [Erases, answered, Action.bind_apply, unrecorded]
    rcases within (ExceptT.lift (Forest.registerSingle element)) position state.1 with
      ⟨_ | single, later⟩
    · exact .failed rfl
    · exact .answered rfl rfl
  apply registered.bind
  rintro single _ after _ rfl rfl
  exact erases_apply operation position a single.index after

end Family

end SetForest
