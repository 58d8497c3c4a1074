import SetForest.Proofs.Content.Pointwise
import SetForest.Proofs.Family.Positions
import SetForest.Proofs.Forest.Consult
import SetForest.Proofs.Lockstep

namespace SetForest

/-!
# How a family evolves

An action at one position leaves all other forests as they are, and a lattice
operation works through the forests below by calls that come one after the
other.  The calls of an alignment are described once (`Cell.ensures_resolveAll`),
for whatever the single calls are known to do.

`Family.Step` lists what a caller can have done at one position: an action of the
forest there, or a lattice operation.  The first thing to be said of steps asks
for nothing.  Each forest of a family only interns and evicts.
-/

/-! ## The calls of an alignment -/

namespace Cell

open SetForest.Action

variable {K : Type} {n : Nat} {σ : Type} {invariant : σ → Prop} {later : σ → σ → Prop}
  {holds : σ → Fin n → Index → Index → Index → Prop}

/-- What is known of the calls of a cell may be weakened. -/
theorem Resolves.mono {first second : Fin n → Index → Index → Index → Prop} {cell : Cell K n}
    {element : Element K} (weaken : ∀ child x y z, first child x y z → second child x y z)
    (resolves : cell.Resolves first element) : cell.Resolves second element := by
  cases cell with
  | kept own => exact resolves
  | joined key calls =>
      exact ⟨resolves.1, resolves.2.imp fun call index answered => weaken _ _ _ _ answered⟩

variable (refl : ∀ state, later state state)
  (trans : ∀ first second third, later first second → later second third → later first third)
  (survives : ∀ first second, later first second → ∀ child x y z, holds first child x y z →
    holds second child x y z)
  {call : Fin n → Index → Index → Action σ Index}
  (calls : ∀ child x y state, invariant state →
    Ensures invariant later state (call child x y) (fun z state => holds state child x y z))

include refl trans survives calls in
theorem ensures_resolve (cell : Cell K n) {state : σ} (here : invariant state) :
    Ensures invariant later state (cell.resolve call)
      (fun element state => cell.Resolves (holds state) element) := by
  cases cell with
  | kept element => exact Ensures.pure refl here rfl
  | joined key called =>
      have answers : Ensures invariant later state
          (called.mapM fun request => call request.1 request.2.left request.2.right)
          (fun indices state => List.Forall₂
            (fun call index => holds state call.1 call.2.left call.2.right index)
            called indices) := by
        refine Ensures.mapM refl trans ?_ ?_ called here
        · intro call index first second goes answered
          exact survives first second goes _ _ _ _ answered
        · intro call state holdsThere
          exact calls call.1 call.2.left call.2.right state holdsThere
      apply answers.bind trans
      intro indices after holdsThere _ answered
      exact Ensures.pure refl holdsThere ⟨rfl, answered⟩

include refl trans survives calls in
/-- All calls of an alignment, one after the other: what is known of each of them
is known of all of them in the end. -/
theorem ensures_resolveAll (cells : List (Cell K n)) {state : σ} (here : invariant state) :
    Ensures invariant later state (cells.mapM (Cell.resolve call))
      (fun content state => List.Forall₂ (Cell.Resolves (holds state)) cells content) := by
  refine Ensures.mapM refl trans ?_ ?_ cells here
  · intro cell element first second goes resolves
    exact resolves.mono (survives first second goes)
  · intro cell state holdsThere
    exact ensures_resolve refl trans survives calls cell holdsThere

/-- The calls of an alignment are in lockstep if single calls are. -/
theorem lockstep_resolveAll {τ : Type} {excuses : Error → Prop} {related : σ → τ → Prop}
    {call : Fin n → Index → Index → Action σ Index}
    {other : Fin n → Index → Index → Action τ Index}
    (calls : ∀ child a b x y, related x y →
      Lockstep excuses related Eq (call child a b x) (other child a b y))
    (cells : List (Cell K n)) {x : σ} {y : τ} (isRelated : related x y) :
    Lockstep excuses related Eq (cells.mapM (Cell.resolve call) x)
      (cells.mapM (Cell.resolve other) y) := by
  refine Lockstep.mapM cells ?_ isRelated
  intro cell _ x y relatedHere
  cases cell with
  | kept element => exact .answered rfl relatedHere
  | joined key requests =>
      have answers := Lockstep.mapM requests
        (fun request _ => calls request.1 request.2.left request.2.right) relatedHere
      apply answers.bind
      rintro indices _ x' y' rfl relatedLater
      exact .answered rfl relatedLater

end Cell

namespace Family

variable {K : Type} [Key K] {n : Nat} {α : Type}

/-! ## Actions at one position -/

/-- What an action does to the forest at its position, it does to the family. -/
theorem related_within {relation : (m : Nat) → Forest K m → Forest K m → Prop}
    (refl : ∀ m (forest : Forest K m), relation m forest forest)
    (action : {m : Nat} → ForestM K m α) (family : Family K n) (position : Fin n)
    (acts : relation position (family.forestAt position) (action (family.forestAt position)).2) :
    Related relation family (within action position family).2 := by
  induction family with
  | bare => exact position.elim0
  | plant below top ih =>
      induction position using Fin.lastCases with
      | last =>
          rw [forestAt_last] at acts
          rw [within_last, onTop_apply]
          exact .plant (Related.refl refl below) acts
      | cast position =>
          rw [forestAt_castSucc] at acts
          rw [within_castSucc, onBelow_apply]
          exact .plant (ih position acts) (refl _ top)

/-- An action at another position changes nothing in a forest. -/
theorem forestAt_within_of_ne (action : {m : Nat} → ForestM K m α) (family : Family K n)
    {position other : Fin n} (elsewhere : other ≠ position) :
    (within action position family).2.forestAt other = family.forestAt other := by
  have related : Related (fun m first second => m ≠ position.val → second = first) family
      (within action position family).2 :=
    related_within (fun _ _ _ => rfl) action family position fun here => absurd rfl here
  exact related.forestAt other fun same => elsewhere (Fin.ext same)

/-- What every record and every settled result does to its forest, a lattice
operation does to the family, whatever happens on the way. -/
theorem related_apply {relation : (m : Nat) → Forest K m → Forest K m → Prop}
    (refl : ∀ m (forest : Forest K m), relation m forest forest)
    (trans : ∀ m (first second third : Forest K m), relation m first second →
      relation m second third → relation m first third)
    (recorded : ∀ m (forest : Forest K m) counters activities, forest.activities ⊆ activities →
      relation m forest { forest with counters, activities })
    (settled : ∀ m (forest : Forest K m) operation a b content,
      relation m forest (Forest.settle operation a b content forest).2)
    (operation : Operation) (position : Fin n) (a b : Index) (family : Family K n) :
    Related relation family (apply operation position a b family).2 := by
  induction n generalizing a b with
  | zero => exact position.elim0
  | succ n ih =>
      cases family with
      | plant below top =>
          induction position using Fin.lastCases with
          | cast position =>
              rw [apply_castSucc, onBelow_apply]
              exact .plant (ih position a b below) (refl n top)
          | last =>
              have called : ∀ cells, Related relation below (callAll operation cells below).2 := by
                intro cells
                have ensured : Action.Ensures (fun _ => True) (Related relation) below
                    (callAll operation cells) (fun content _ =>
                      List.Forall₂ (Cell.Resolves fun _ _ _ _ => True) cells content) :=
                  Cell.ensures_resolveAll (Related.refl refl) (fun _ _ _ => Related.trans trans)
                    (fun _ _ _ _ _ _ _ _ => trivial)
                    (fun child x y state _ => ⟨trivial, ih child x y state, fun _ _ => trivial⟩)
                    cells trivial
                exact ensured.advances
              have consulted : relation n top (Forest.consult operation a b top).2 := by
                have kept := top.activities_consult_subset operation a b
                rcases top.exists_consult_eq operation a b with ⟨counters, activities, noted⟩
                rw [noted] at kept ⊢
                exact recorded n top counters activities kept
              have ways := application operation a b below top
              generalize apply operation (Fin.last n) a b (plant below top) = outcome at ways
              cases ways with
              | refused answered =>
                  rw [answered] at consulted
                  exact .plant (Related.refl refl below) consulted
              | known answered =>
                  rw [answered] at consulted
                  exact .plant (Related.refl refl below) consulted
              | @abandoned cells noted error later answered failed =>
                  have calls := called cells
                  rw [answered] at consulted
                  rw [failed] at calls
                  exact .plant calls consulted
              | @settled cells noted content later answered succeeded =>
                  have calls := called cells
                  rw [answered] at consulted
                  rw [succeeded] at calls
                  exact .plant calls
                    (trans n _ _ _ consulted (settled n noted operation a b content))

/-- The calls of an alignment are answered if each of them is and keeps the family fit
for the others. -/
theorem exists_callAll {operation : Operation} {fit : Family K n → Prop} (cells : List (Cell K n))
    (calls : ∀ cell ∈ cells, ∀ call ∈ cell.calls, ∀ state, fit state → ∃ r later,
      apply operation call.1 call.2.left call.2.right state = (.ok r, later) ∧ fit later)
    {below : Family K n} (here : fit below) :
    ∃ content later, callAll operation cells below = (.ok content, later) ∧ fit later := by
  refine Action.exists_mapM cells ?_ here
  intro cell member state fitState
  cases cell with
  | kept element => exact ⟨element, state, rfl, fitState⟩
  | joined key requests =>
      rcases Action.exists_mapM requests (calls _ member) fitState with
        ⟨indices, later, answered, fitLater⟩
      refine ⟨⟨key, indices⟩, later, ?_, fitLater⟩
      rw [Cell.resolve, Action.bind_apply, answered]
      rfl

/-! ## Steps -/

/-- One step of a family at a position. -/
inductive Step (admits : Content K → Prop) (position : Fin n) (family : Family K n) :
    Family K n → Prop where
  | changed {α : Type} (action : {m : Nat} → ForestM K m α)
      (changes : Forest.Changes admits (family.forestAt position)
        (action (family.forestAt position)).2) :
      Step admits position family (within action position family).2
  | applied (operation : Operation) (a b : Index) :
      Step admits position family (apply operation position a b family).2

/-- Any number of steps at a position. -/
abbrev Steps (admits : Content K → Prop) (position : Fin n) : Family K n → Family K n → Prop :=
  Relation.ReflTransGen (Step admits position)

/-- What every change and every settled result does to its forest, any number of
steps do to the family. -/
theorem Steps.related {admits : Content K → Prop}
    {relation : (m : Nat) → Forest K m → Forest K m → Prop}
    (refl : ∀ m (forest : Forest K m), relation m forest forest)
    (trans : ∀ m (first second third : Forest K m), relation m first second →
      relation m second third → relation m first third)
    (changed : ∀ m (forest later : Forest K m), Forest.Change admits forest later →
      relation m forest later)
    (settled : ∀ m (forest : Forest K m) operation a b content,
      relation m forest (Forest.settle operation a b content forest).2)
    {position : Fin n} {family later : Family K n} (steps : Steps admits position family later) :
    Related relation family later := by
  have allChanged : ∀ m (forest later : Forest K m), Forest.Changes admits forest later →
      relation m forest later := by
    intro m forest later changes
    induction changes with
    | refl => exact refl m forest
    | tail _ change ih => exact trans m _ _ _ ih (changed m _ _ change)
  induction steps with
  | refl => exact Related.refl refl family
  | tail _ step ih =>
      apply ih.trans trans
      cases step with
      | changed action changes =>
          exact related_within refl action _ position (allChanged _ _ _ changes)
      | applied operation a b =>
          exact related_apply refl trans
            (fun m forest counters activities kept =>
              changed m forest _ (.recorded counters activities kept))
            settled operation position a b _

/-- Every forest of the later family is the same store after more interning and
evicting. -/
abbrev Evolves (family later : Family K n) : Prop :=
  Related (fun _ => Forest.Evolves) family later

theorem evolves_refl (family : Family K n) : family.Evolves family :=
  .refl (fun _ => Forest.Evolves.refl) family

theorem evolves_trans (first second third : Family K n) (before : first.Evolves second)
    (after : second.Evolves third) : first.Evolves third :=
  before.trans (fun _ _ _ _ => Forest.Evolves.trans) after

/-- Steps only intern and evict. -/
theorem Steps.evolves {admits : Content K → Prop} {position : Fin n} {family later : Family K n}
    (steps : Steps admits position family later) : family.Evolves later :=
  steps.related (fun _ => Forest.Evolves.refl) (fun _ _ _ _ => Forest.Evolves.trans)
    (fun _ _ _ change => change.evolves)
    (fun _ forest operation a b content => forest.evolves_settle operation a b content)

end Family

end SetForest
