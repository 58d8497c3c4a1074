import Mathlib.Data.List.Forall2
import SetForest.Error

namespace SetForest

/-!
# Actions on a state

Forests, families and sessions are all driven by actions that fail with an error
and keep the state that was reached.  Such an action is a function from states
to an answer and a state, and the equations here say which function each of its
building blocks is.  With them an action is computed by rewriting.

`Action.Ensures` states what an action does to every state that satisfies an
invariant.  Its rule for a traversal (`Ensures.mapM`) is an induction over the
turns: what is known after each of them has to survive the later ones.
-/

/-- An action on states that may fail and keeps the state that it reached. -/
abbrev Action (σ α : Type) := ExceptT Error (StateM σ) α

namespace Action

variable {σ α β : Type}

@[simp] theorem pure_apply (value : α) (state : σ) :
    (pure value : Action σ α) state = (.ok value, state) := rfl

@[simp] theorem get_apply (state : σ) : (get : Action σ σ) state = (.ok state, state) := rfl

@[simp] theorem modify_apply (change : σ → σ) (state : σ) :
    (modify change : Action σ PUnit) state = (.ok ⟨⟩, change state) := rfl

@[simp] theorem modifyGet_apply (change : σ → α × σ) (state : σ) :
    (modifyGet change : Action σ α) state = (.ok (change state).1, (change state).2) := rfl

@[simp] theorem liftExcept_apply (value : Except Error α) (state : σ) :
    (liftM value : Action σ α) state = (value, state) := rfl

/-- A failure skips what comes after it.  What the errors are does not matter. -/
theorem bind_apply {ε : Type} (first : ExceptT ε (StateM σ) α)
    (next : α → ExceptT ε (StateM σ) β) (state : σ) :
    (first >>= next) state =
      match first state with
      | (.ok value, after) => next value after
      | (.error error, after) => (.error error, after) := by
  change StateT.bind first (ExceptT.bindCont next) state = _
  rw [StateT.bind]
  rcases first state with ⟨_ | _, after⟩ <;> rfl

/-- What looks at the state is given it. -/
theorem get_bind_apply (next : σ → Action σ β) (state : σ) :
    ((get : Action σ σ) >>= next) state = next state state := rfl

/-- What comes after a change starts in the changed state. -/
theorem modify_bind_apply (change : σ → σ) (next : PUnit → Action σ β) (state : σ) :
    ((modify change : Action σ PUnit) >>= next) state = next ⟨⟩ (change state) := rfl

/-- A traversal answers if each of its turns does and keeps the state fit for the others.
Its answers are those of the turns. -/
theorem exists_mapM_forall₂ {ε : Type} {turn : α → ExceptT ε (StateM σ) β}
    {answers : α → β → Prop} {fit : σ → Prop} (values : List α)
    (turns : ∀ value ∈ values, ∀ state, fit state →
      ∃ answer after, turn value state = (.ok answer, after) ∧ answers value answer ∧ fit after)
    {state : σ} (here : fit state) :
    ∃ results after, values.mapM turn state = (.ok results, after) ∧
      List.Forall₂ answers values results ∧ fit after := by
  induction values generalizing state with
  | nil => exact ⟨[], state, rfl, .nil, here⟩
  | cons value values ih =>
      rcases turns value List.mem_cons_self state here with
        ⟨answer, after, answered, described, fitAfter⟩
      rcases ih (fun other member => turns other (List.mem_cons_of_mem value member)) fitAfter with
        ⟨results, last, answeredRest, describedRest, fitLast⟩
      refine ⟨answer :: results, last, ?_, .cons described describedRest, fitLast⟩
      rw [List.mapM_cons, bind_apply, answered]
      dsimp only
      rw [bind_apply, answeredRest]
      rfl

theorem exists_mapM {turn : α → Action σ β} {fit : σ → Prop} (values : List α)
    (turns : ∀ value ∈ values, ∀ state, fit state →
      ∃ answer after, turn value state = (.ok answer, after) ∧ fit after)
    {state : σ} (here : fit state) :
    ∃ results after, values.mapM turn state = (.ok results, after) ∧ fit after := by
  have described : ∀ value ∈ values, ∀ state, fit state →
      ∃ answer after, turn value state = (.ok answer, after) ∧ True ∧ fit after := by
    simpa only [true_and] using turns
  rcases exists_mapM_forall₂ values described here with
    ⟨results, after, answered, -, fitAfter⟩
  exact ⟨results, after, answered, fitAfter⟩

/-- If the answers of the turns do not depend on the state, neither do those of a
traversal. -/
theorem mapM_eq_ok {turn : α → Action σ β} {answer : α → β} {fit : σ → Prop}
    (turns : ∀ value state, fit state →
      ∃ after, turn value state = (.ok (answer value), after) ∧ fit after)
    (values : List α) {state : σ} (here : fit state) :
    ∃ after, values.mapM turn state = (.ok (values.map answer), after) ∧ fit after := by
  have described : ∀ value ∈ values, ∀ state, fit state → ∃ result after,
      turn value state = (.ok result, after) ∧ answer value = result ∧ fit after := by
    intro value _ state fitState
    rcases turns value state fitState with ⟨after, answered, fitAfter⟩
    exact ⟨answer value, after, answered, rfl, fitAfter⟩
  rcases exists_mapM_forall₂ values described here with ⟨results, after, answered, same, fitAfter⟩
  rw [← List.forall₂_map_left_iff, List.forall₂_eq_eq_eq] at same
  exact ⟨after, same ▸ answered, fitAfter⟩

/-- From a state, an action goes to a later one with the invariant, and what it
answers there is as described. -/
structure Ensures (invariant : σ → Prop) (later : σ → σ → Prop) (state : σ) (action : Action σ α)
    (answers : α → σ → Prop) : Prop where
  holds : invariant (action state).2
  advances : later state (action state).2
  answered : ∀ value, (action state).1 = .ok value → answers value (action state).2

namespace Ensures

variable {invariant : σ → Prop} {later : σ → σ → Prop} {state : σ}

theorem pure (refl : ∀ state, later state state) {value : α} {answers : α → σ → Prop}
    (holds : invariant state) (described : answers value state) :
    Ensures invariant later state (Pure.pure value) answers := by
  refine ⟨holds, refl state, ?_⟩
  intro answered same
  cases same
  exact described

/-- The second of two actions starts where the first has led. -/
theorem bind {action : Action σ α} {next : α → Action σ β} {answers : α → σ → Prop}
    {described : β → σ → Prop}
    (trans : ∀ first second third, later first second → later second third → later first third)
    (first : Ensures invariant later state action answers)
    (second : ∀ value after, invariant after → later state after → answers value after →
      Ensures invariant later after (next value) described) :
    Ensures invariant later state (action >>= next) described := by
  rcases first with ⟨holds, advances, answered⟩
  cases reached : action state with
  | mk outcome after =>
      rw [reached] at holds advances answered
      have step := bind_apply action next state
      rw [reached] at step
      cases outcome with
      | error error =>
          refine ⟨?_, ?_, ?_⟩ <;> rw [step]
          · exact holds
          · exact advances
          · exact nofun
      | ok value =>
          have rest := second value after holds advances (answered value rfl)
          refine ⟨?_, ?_, ?_⟩ <;> rw [step]
          · exact rest.holds
          · exact trans state after _ advances rest.advances
          · exact rest.answered

/-- What each turn of a traversal ensures holds of all of them in the end. -/
theorem mapM {turn : α → Action σ β} {answers : α → β → σ → Prop}
    (refl : ∀ state, later state state)
    (trans : ∀ first second third, later first second → later second third → later first third)
    (survives : ∀ value answer first second, later first second → answers value answer first →
      answers value answer second)
    (turns : ∀ value state, invariant state →
      Ensures invariant later state (turn value) (answers value))
    (values : List α) (holds : invariant state) :
    Ensures invariant later state (values.mapM turn)
      (fun results state => List.Forall₂ (answers · · state) values results) := by
  induction values generalizing state with
  | nil => exact Ensures.pure refl holds List.Forall₂.nil
  | cons value values ih =>
      rw [List.mapM_cons]
      apply (turns value state holds).bind trans
      intro result after holdsAfter _ answered
      apply (ih holdsAfter).bind trans
      intro results last holdsLast advanced rest
      exact Ensures.pure refl holdsLast
        (.cons (survives value result after last advanced answered) rest)

/-- What every turn answers in any state, all answers of a traversal are. -/
theorem forall_mapM {turn : α → Action σ β} {described : β → Prop}
    (refl : ∀ state, later state state)
    (trans : ∀ first second third, later first second → later second third → later first third)
    (turns : ∀ value state, invariant state →
      Ensures invariant later state (turn value) (fun answer _ => described answer))
    (values : List α) (holds : invariant state) :
    Ensures invariant later state (values.mapM turn)
      (fun results _ => ∀ result ∈ results, described result) := by
  rcases mapM refl trans (fun _ _ _ _ _ here => here) turns values holds with
    ⟨holdsAfter, advances, answered⟩
  refine ⟨holdsAfter, advances, ?_⟩
  intro results reached
  have each := answered results reached
  clear holdsAfter advances answered reached
  induction each with
  | nil => exact nofun
  | cons first _ ih => exact List.forall_mem_cons.mpr ⟨first, ih⟩

end Ensures

end Action

end SetForest
