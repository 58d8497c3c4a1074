import SetForest.Proofs.Family.Residence
import SetForest.Proofs.Family.Single
import SetForest.Proofs.Forest.Similar

namespace SetForest.Family

/-!
# Families in lockstep

Two families are compared by a relation between their forests, position by position.
An action at one position keeps them in lockstep if it does so with the forests there.
A lattice operation does, too, if the relation survives what forests write and their
consultations are in lockstep.

Families are similar if their forests are.  Where the resemblance extends to what is
evicted, lattice operations keep them in lockstep.
-/

variable {K : Type} [Key K] {n : Nat} {α : Type} {excuses : Error → Prop}
  {relation : (m : Nat) → Forest K m → Forest K m → Prop} {x y : Family K n}

section

variable {alike : α → α → Prop} {top top' : Forest K n}

/-- Forests below may be worked on under related ones. -/
theorem lockstep_onBelow {action other : FamilyM K n α} (relatedTop : relation n top top')
    (here : Lockstep excuses (Related relation) alike (action x) (other y)) :
    Lockstep excuses (Related relation) alike (onBelow action (.plant x top))
      (onBelow other (.plant y top')) := by
  rw [onBelow_apply, onBelow_apply]
  generalize action x = outcome at here
  generalize other y = outcome' at here
  cases here with
  | excused excused => exact .excused excused
  | answered isAlike isRelated => exact .answered isAlike (.plant isRelated relatedTop)
  | failed isRelated => exact .failed (.plant isRelated relatedTop)

/-- A forest may be worked on above families that stay as they are. -/
theorem lockstep_onTop {action other : ForestM K n α} (x y : Family K n)
    (here : Lockstep excuses (relation n) alike (action top) (other top')) :
    Lockstep excuses (fun first second => ∃ later later', first = .plant x later ∧
      second = .plant y later' ∧ relation n later later') alike
      (onTop action (.plant x top)) (onTop other (.plant y top')) := by
  rw [onTop_apply, onTop_apply]
  generalize action top = outcome at here
  generalize other top' = outcome' at here
  cases here with
  | excused excused => exact .excused excused
  | answered isAlike related => exact .answered isAlike ⟨_, _, rfl, rfl, related⟩
  | failed related => exact .failed ⟨_, _, rfl, rfl, related⟩

theorem lockstep_within (related : Related relation x y) (action : {m : Nat} → ForestM K m α)
    (position : Fin n)
    (here : Lockstep excuses (relation position) alike (action (x.forestAt position))
      (action (y.forestAt position))) :
    Lockstep excuses (Related relation) alike (within action position x)
      (within action position y) := by
  induction related with
  | bare => exact position.elim0
  | plant relatedBelow relatedTop ih =>
      induction position using Fin.lastCases with
      | last =>
          rw [forestAt_last, forestAt_last] at here
          rw [within_last]
          refine (lockstep_onTop _ _ here).mono ?_ (fun _ _ same => same)
          rintro _ _ ⟨later, later', rfl, rfl, related⟩
          exact .plant relatedBelow related
      | cast position =>
          rw [forestAt_castSucc, forestAt_castSucc] at here
          rw [within_castSucc]
          exact lockstep_onBelow relatedTop (ih position here)

end

/-- The calls of an alignment are in lockstep if single operations are. -/
theorem lockstep_callAll {related : Family K n → Family K n → Prop} {operation : Operation}
    (applies : ∀ child a b x y, related x y → Lockstep excuses related Eq
      (apply operation child a b x) (apply operation child a b y))
    (cells : List (Cell K n)) (isRelated : related x y) :
    Lockstep excuses related Eq (callAll operation cells x) (callAll operation cells y) :=
  Cell.lockstep_resolveAll applies cells isRelated

section

variable (kept : ∀ m, Forest.Kept (relation m))

include kept

/-- An operation at the last position is in lockstep if its consultation and all
calls that it may make are. -/
theorem lockstep_apply_last {top top' : Forest K n} (relatedBelow : Related relation x y)
    {operation : Operation} {a b : Index}
    (consulted : Lockstep excuses (relation n) Eq (Forest.consult operation a b top)
      (Forest.consult operation a b top'))
    (called : ∀ cells : List (Cell K n), Lockstep excuses (Related relation) Eq
      (callAll operation cells x) (callAll operation cells y)) :
    Lockstep excuses (Related relation) Eq (apply operation (Fin.last n) a b (.plant x top))
      (apply operation (Fin.last n) a b (.plant y top')) := by
  rw [apply, dif_neg (show ¬(Fin.last n).val < n from Nat.lt_irrefl n)]
  refine (lockstep_onTop x y consulted).bind_of ?_ ?_
  · rintro _ _ ⟨noted, noted', rfl, rfl, relatedNoted⟩
    exact .plant relatedBelow relatedNoted
  rintro answer _ _ _ rfl ⟨noted, noted', rfl, rfl, relatedNoted⟩
  cases answer with
  | known result => exact .answered rfl (.plant relatedBelow relatedNoted)
  | unknown cells =>
      dsimp only
      apply (lockstep_onBelow relatedNoted (called cells)).bind
      rintro content _ _ _ rfl related
      cases related with
      | plant relatedLater relatedTop =>
          rcases (kept _).settle relatedTop operation a b content with ⟨sameIndex, settled⟩
          exact .answered sameIndex (.plant relatedLater settled)

/-- Operations are in lockstep if all consultations are. -/
theorem lockstep_apply {operation : Operation}
    (consults : ∀ m (first second : Forest K m) a b, relation m first second →
      Lockstep excuses (relation m) Eq (Forest.consult operation a b first)
        (Forest.consult operation a b second))
    (position : Fin n) (a b : Index) (related : Related relation x y) :
    Lockstep excuses (Related relation) Eq (apply operation position a b x)
      (apply operation position a b y) := by
  induction n generalizing a b with
  | zero => exact position.elim0
  | succ n ih =>
      cases related with
      | plant relatedBelow relatedTop =>
          induction position using Fin.lastCases with
          | cast position =>
              rw [apply_castSucc]
              exact lockstep_onBelow relatedTop (ih position a b relatedBelow)
          | last =>
              refine lockstep_apply_last kept relatedBelow (consults n _ _ a b relatedTop) ?_
              intro cells
              exact lockstep_callAll (fun child a b x y => ih child a b) cells relatedBelow

/-- An operation with a single element is in lockstep if all operations are. -/
theorem lockstep_applySingle {operation : Operation}
    (applies : ∀ position a b (first second : Family K n), Related relation first second →
      Lockstep excuses (Related relation) Eq (apply operation position a b first)
        (apply operation position a b second))
    (position : Fin n) (a : Index) (element : Element K) (related : Related relation x y) :
    Lockstep excuses (Related relation) Eq (applySingle operation position a element x)
      (applySingle operation position a element y) := by
  apply (lockstep_within related (fun {_} => ExceptT.lift (Forest.registerSingle element)) position
    ((kept position).lockstep_registerSingle (related.forestAt position) element)).bind
  rintro single _ x' y' rfl relatedLater
  exact applies position a single.index x' y' relatedLater

end

/-! ## Similar families -/

variable {sim : Resemblance (Element K)}

/-- Forest by forest, two families are similar. -/
abbrev Similar (sim : Resemblance (Element K)) (x y : Family K n) : Prop :=
  Related (fun _ => Forest.Similar sim) x y

/-- Two outcomes of actions on similar families. -/
abbrev InStep (sim : Resemblance (Element K)) :
    Except Error α × Family K n → Except Error α × Family K n → Prop :=
  Lockstep sim.Excuses (Similar sim) Eq

/-- Where the forests also agree on what is evicted, operations are in lockstep. -/
theorem inStep_apply (agree : ∀ x y, sim.alike x y → ∀ index, x.isEvicted index = y.isEvicted index)
    (operation : Operation) (position : Fin n) (a b : Index) (similar : Similar sim x y) :
    InStep sim (apply operation position a b x) (apply operation position a b y) := by
  refine lockstep_apply (fun _ => Forest.Similar.kept sim) ?_ position a b similar
  intro m first second a b similarForests
  exact Forest.inStep_consult similarForests operation a b
    (fun _ result _ => agree _ _ similarForests.sets result)

end SetForest.Family
