import SetForest.Proofs.Action

namespace SetForest

/-!
# Actions in lockstep

Two sessions are compared by carrying out the same actions in both and keeping
their states related.  `Lockstep` is the outcome of one such pair of actions.  They
have answered alike, or they have failed with the same error, and the states that
they reached are related again.  The first of them may also have an excuse to fail
where the second does not, and then nothing is claimed of the states.

The rules follow the building blocks of actions.  What is merely read off two states
is compared by `Reads`, which is the same notion without any states.
-/

variable {σ τ α β γ δ : Type}

/-- What was read twice is the same, unless the first reading has an excuse to fail. -/
def Reads (excuses : Error → Prop) (first second : Except Error α) : Prop :=
  first = second ∨ ∃ error, first = .error error ∧ excuses error

namespace Reads

variable {excuses : Error → Prop}

theorem refl (reading : Except Error α) : Reads excuses reading reading :=
  Or.inl rfl

theorem bind {first second : Except Error α} {next other : α → Except Error β}
    (reads : Reads excuses first second)
    (rest : ∀ value, Reads excuses (next value) (other value)) :
    Reads excuses (first >>= next) (second >>= other) := by
  rcases reads with rfl | ⟨error, rfl, excused⟩
  · cases first with
    | error error => exact refl (.error error)
    | ok value => exact rest value
  · exact Or.inr ⟨error, rfl, excused⟩

end Reads

/-- What two actions have come to. -/
inductive Lockstep (excuses : Error → Prop) (related : σ → τ → Prop) (alike : α → β → Prop) :
    Except Error α × σ → Except Error β × τ → Prop where
  | excused {error : Error} {first : σ} {outcome : Except Error β × τ} (excused : excuses error) :
      Lockstep excuses related alike (.error error, first) outcome
  | answered {value : α} {other : β} {first : σ} {second : τ} (isAlike : alike value other)
      (isRelated : related first second) :
      Lockstep excuses related alike (.ok value, first) (.ok other, second)
  | failed {error : Error} {first : σ} {second : τ} (isRelated : related first second) :
      Lockstep excuses related alike (.error error, first) (.error error, second)

namespace Lockstep

open SetForest.Action

variable {excuses : Error → Prop} {related : σ → τ → Prop} {alike : α → β → Prop}
  {first : Except Error α × σ} {second : Except Error β × τ}

/-- Of answers and states in lockstep, less may be remembered. -/
theorem mono {weaker : σ → τ → Prop} {coarser : α → β → Prop}
    (lockstep : Lockstep excuses related alike first second)
    (weaken : ∀ x y, related x y → weaker x y) (coarsen : ∀ v w, alike v w → coarser v w) :
    Lockstep excuses weaker coarser first second := by
  cases lockstep with
  | excused excused => exact .excused excused
  | answered isAlike isRelated => exact .answered (coarsen _ _ isAlike) (weaken _ _ isRelated)
  | failed isRelated => exact .failed (weaken _ _ isRelated)

/-- Without excuses, the states that are reached are always related. -/
theorem isRelated (lockstep : Lockstep excuses related alike first second)
    (never : ∀ error, ¬excuses error) : related first.2 second.2 := by
  cases lockstep with
  | excused excused => exact absurd excused (never _)
  | answered isAlike isRelated => exact isRelated
  | failed isRelated => exact isRelated

/-- Without excuses, actions that answer alike answer the same if that is what it means. -/
theorem eq_of_alike {α : Type} {alike : α → α → Prop} {first : Except Error α × σ}
    {second : Except Error α × τ} (lockstep : Lockstep excuses related alike first second)
    (never : ∀ error, ¬excuses error) (same : ∀ v w, alike v w → v = w) :
    first.1 = second.1 ∧ related first.2 second.2 := by
  refine ⟨?_, lockstep.isRelated never⟩
  cases lockstep with
  | excused excused => exact absurd excused (never _)
  | answered isAlike isRelated => exact congrArg Except.ok (same _ _ isAlike)
  | failed isRelated => rfl

/-- What holds of both states anyway may be added. -/
theorem strengthen {stronger : σ → τ → Prop}
    (lockstep : Lockstep excuses related alike first second)
    (add : related first.2 second.2 → stronger first.2 second.2) :
    Lockstep excuses stronger alike first second := by
  cases lockstep with
  | excused excused => exact .excused excused
  | answered isAlike isRelated => exact .answered isAlike (add isRelated)
  | failed isRelated => exact .failed (add isRelated)

section

variable {action : Action σ α} {other : Action τ β} {next : α → Action σ γ}
  {nextOther : β → Action τ δ} {alikeNext : γ → δ → Prop} {x : σ} {y : τ}

/-- The second of two actions starts in lockstep where the first has led.  More may be
known of the states in between. -/
theorem bind_of {between : σ → τ → Prop}
    (here : Lockstep excuses between alike (action x) (other y))
    (weaken : ∀ x y, between x y → related x y)
    (rest : ∀ value value' after after', alike value value' → between after after' →
      Lockstep excuses related alikeNext (next value after) (nextOther value' after')) :
    Lockstep excuses related alikeNext ((action >>= next) x) ((other >>= nextOther) y) := by
  rw [bind_apply, bind_apply]
  generalize action x = outcome at here
  generalize other y = outcome' at here
  cases here with
  | excused excused => exact .excused excused
  | answered isAlike isBetween => exact rest _ _ _ _ isAlike isBetween
  | failed isBetween => exact .failed (weaken _ _ isBetween)

theorem bind (here : Lockstep excuses related alike (action x) (other y))
    (rest : ∀ value value' after after', alike value value' → related after after' →
      Lockstep excuses related alikeNext (next value after) (nextOther value' after')) :
    Lockstep excuses related alikeNext ((action >>= next) x) ((other >>= nextOther) y) :=
  here.bind_of (fun _ _ isRelated => isRelated) rest

end

theorem read {x : σ} {y : τ} (isRelated : related x y) {reading other : Except Error α}
    (reads : Reads excuses reading other) :
    Lockstep excuses related Eq ((liftM reading : Action σ α) x)
      ((liftM other : Action τ α) y) := by
  rw [liftExcept_apply, liftExcept_apply]
  rcases reads with rfl | ⟨error, rfl, excused⟩
  · cases reading with
    | error error => exact .failed isRelated
    | ok value => exact .answered rfl isRelated
  · exact .excused excused

/-- A traversal is in lockstep if each of its turns is. -/
theorem mapM {turn : γ → Action σ α} {other : γ → Action τ α} (values : List γ)
    (turns : ∀ value ∈ values, ∀ x y, related x y →
      Lockstep excuses related Eq (turn value x) (other value y)) {x : σ} {y : τ}
    (isRelated : related x y) :
    Lockstep excuses related Eq (values.mapM turn x) (values.mapM other y) := by
  induction values generalizing x y with
  | nil => exact .answered rfl isRelated
  | cons value values ih =>
      rw [List.mapM_cons, List.mapM_cons]
      apply (turns value List.mem_cons_self x y isRelated).bind
      rintro answer _ after after' rfl relatedAfter
      apply (ih (fun value member => turns value (List.mem_cons_of_mem _ member))
        relatedAfter).bind
      rintro answers _ last last' rfl relatedLast
      exact .answered rfl relatedLast

end Lockstep

end SetForest
