import SetForest.Proofs.Content.Update
import SetForest.Proofs.Family.Merge
import SetForest.Proofs.Family.Planting

namespace SetForest

/-!
# All stored sets are in order

Most contents are stored without a look at their order, because whoever makes them
sees to it.  The invariant is that every stored content, evicted or not, is strictly
increasing by key (`Forest.Ordered`).  It refers to nothing else.  The children of
elements may be anything, and so may the tables of the forest.

An update puts one element in its place or takes some out, which keeps the order.  A
merge takes its keys from two contents, in the order of the alignment.  Its calls
decide about children alone, so it does not matter what the forests below answer.
-/

variable {K : Type} [Key K] {n : Nat} {α : Type}

namespace Forest

/-- Every index stands for one content, which is strictly increasing. -/
structure Ordered (forest : Forest K n) : Prop where
  canonical : forest.sets.Canonical
  increasing : ∀ index content, forest.Denotes index content → content.Increasing

namespace Ordered

variable {forest later : Forest K n} {index : Index} {content : Content K}

/-- Only the storage matters. -/
theorem of_sets_eq (ordered : forest.Ordered) (sets : later.sets = forest.sets) :
    later.Ordered := by
  refine ⟨?_, ?_⟩
  · rw [sets]
    exact ordered.canonical
  · intro index content denotes
    rw [Denotes, sets] at denotes
    exact ordered.increasing index content denotes

/-- What can be read is in order. -/
theorem increasing_of_get (ordered : forest.Ordered) (read : forest.sets.get index = .ok content) :
    content.Increasing :=
  ordered.increasing index content (ordered.canonical.denotes_of_get read)

theorem increasing_of_content (ordered : forest.Ordered)
    (read : forest.content index = .ok content) : content.Increasing :=
  ordered.increasing_of_get ((content_eq_ok_iff ordered.canonical).mp read)

/-- An increasing content may be stored, whatever else is written besides. -/
theorem of_interned (ordered : forest.Ordered) (increasing : content.Increasing)
    (sets : later.sets = (forest.sets.intern content).2) : later.Ordered := by
  refine ⟨?_, ?_⟩
  · rw [sets]
    exact ordered.canonical.intern content
  · intro index other denotes
    rw [Denotes, sets] at denotes
    rcases ordered.canonical.denotes_of_denotes_intern denotes with rfl | before
    · exact increasing
    · exact ordered.increasing index other before

theorem intern (ordered : forest.Ordered) (increasing : content.Increasing) :
    (forest.intern content).2.Ordered :=
  ordered.of_interned increasing (forest.sets_intern content)

/-- Whatever a forest does by itself keeps its sets in order. -/
theorem change (ordered : forest.Ordered) (change : Change Content.Increasing forest later) :
    later.Ordered := by
  cases change with
  | recorded counters activities kept => exact ordered.of_sets_eq rfl
  | stored content admitted => exact ordered.intern admitted
  | put index content element read admitted =>
      exact ordered.intern (Content.increasing_put (ordered.increasing_of_content read) element)
  | part index content part read sublist =>
      have stored := ordered.intern
        (Content.increasing_sublist sublist (ordered.increasing_of_content read))
      rcases (forest.intern part).2.exists_fileInclusion_eq (forest.intern part).1.index index with
        ⟨inclusions, filed⟩
      rw [filed]
      exact stored.of_sets_eq rfl
  | dropped index resident sets notEmpty evicted =>
      refine ⟨(ordered.canonical.evict evicted).1, ?_⟩
      intro place content denotes
      exact ordered.increasing place content
        ((ordered.canonical.denotes_evict_iff evicted place content).mp denotes)

theorem changes (ordered : forest.Ordered) (changes : Changes Content.Increasing forest later) :
    later.Ordered := by
  induction changes with
  | refl => exact ordered
  | tail _ change ih => exact ih.change change

theorem consult (ordered : forest.Ordered) (operation : Operation) (a b : Index) :
    (Forest.consult operation a b forest).2.Ordered := by
  rcases forest.exists_consult_eq operation a b with ⟨counters, activities, consulted⟩
  rw [consulted]
  exact ordered.of_sets_eq rfl

theorem settle (ordered : forest.Ordered) (operation : Operation) (a b : Index)
    (increasing : content.Increasing) :
    (Forest.settle operation a b content forest).2.Ordered := by
  rcases forest.exists_settle_eq operation a b content with
    ⟨unions, intersections, differences, inclusions, counters, settled⟩
  rw [settled]
  exact ordered.of_interned increasing rfl

/-- Whatever the calls of an alignment answer, what comes of it is in order. -/
theorem increasing_of_resolved (ordered : forest.Ordered) {operation : Operation} {a b : Index}
    {left right : Content K} (leftRead : forest.sets.get a = .ok left)
    (rightRead : forest.sets.get b = .ok right)
    {holds : Fin n → Index → Index → Index → Prop}
    (resolved : List.Forall₂ (Cell.Resolves holds)
      (Content.align operation forest.children left right) content) : content.Increasing :=
  Content.increasing_of_resolved resolved
    (Content.aligned_align operation forest.children (ordered.increasing_of_get leftRead)
      (ordered.increasing_of_get rightRead)).increasing

/-- A new forest has the empty set alone. -/
theorem create (config : Config) (strategy : Strategy) (children : List (Fin n)) :
    (Forest.create config strategy children : Forest K n).Ordered := by
  have created : (Arena.create strategy config.blockSize : Arena (Element K)).Canonical :=
    Arena.canonical_create strategy config.blockSize
  refine ⟨created.intern [], ?_⟩
  intro index content denotes
  rcases created.denotes_of_denotes_intern denotes with rfl | before
  · exact Content.increasing_nil
  · exact absurd before (Forest.not_denotes_created _ _ index content)

end Ordered

end Forest

namespace Family

/-- All stored sets of all forests are in order. -/
inductive Ordered : {n : Nat} → Family K n → Prop where
  | bare : Ordered .bare
  | plant {n : Nat} {below : Family K n} {top : Forest K n} (orderedBelow : Ordered below)
      (orderedTop : top.Ordered) : Ordered (.plant below top)

namespace Ordered

variable {family later : Family K n}

theorem forestAt (ordered : family.Ordered) (position : Fin n) :
    (family.forestAt position).Ordered := by
  induction ordered with
  | bare => exact position.elim0
  | plant orderedBelow orderedTop ih =>
      induction position using Fin.lastCases with
      | last =>
          rw [forestAt_last]
          exact orderedTop
      | cast position =>
          rw [forestAt_castSucc]
          exact ih position

theorem within (ordered : family.Ordered) (action : {m : Nat} → ForestM K m α) (position : Fin n)
    (changes : Forest.Changes Content.Increasing (family.forestAt position)
      (action (family.forestAt position)).2) :
    (Family.within action position family).2.Ordered := by
  induction ordered with
  | bare => exact position.elim0
  | plant orderedBelow orderedTop ih =>
      induction position using Fin.lastCases with
      | last =>
          rw [forestAt_last] at changes
          rw [within_last, onTop_apply]
          exact .plant orderedBelow (orderedTop.changes changes)
      | cast position =>
          rw [forestAt_castSucc] at changes
          rw [within_castSucc, onBelow_apply]
          exact .plant (ih position changes) orderedTop

/-- If operations keep the sets of a family in order, so do the calls of an alignment,
which are all answered or the alignment fails. -/
theorem callAll (operation : Operation)
    (applies : ∀ (state : Family K n), state.Ordered → ∀ child x y,
      (Family.apply operation child x y state).2.Ordered)
    (ordered : family.Ordered) (cells : List (Cell K n)) :
    Action.Ensures Ordered (fun _ _ => True) family (Family.callAll operation cells)
      (fun content _ => List.Forall₂ (Cell.Resolves fun _ _ _ _ => True) cells content) :=
  Cell.ensures_resolveAll (fun _ => trivial) (fun _ _ _ _ _ => trivial)
    (fun _ _ _ _ _ _ _ _ => trivial)
    (fun child x y state here => ⟨applies state here child x y, trivial, fun _ _ => trivial⟩)
    cells ordered

/-- A lattice operation keeps all sets in order, in its forest and in those below. -/
theorem apply (ordered : family.Ordered) (operation : Operation) (position : Fin n)
    (a b : Index) : (Family.apply operation position a b family).2.Ordered := by
  induction n generalizing a b with
  | zero => exact position.elim0
  | succ n ih =>
      cases ordered with
      | @plant _ below top orderedBelow orderedTop =>
          induction position using Fin.lastCases with
          | cast position =>
              rw [apply_castSucc, onBelow_apply]
              exact .plant (ih orderedBelow position a b) orderedTop
          | last =>
              have called := callAll operation (fun _ orderedState => ih orderedState) orderedBelow
              have consulted := orderedTop.consult operation a b
              have ways := application operation a b below top
              generalize Family.apply operation (Fin.last n) a b (.plant below top) = outcome
                at ways ⊢
              cases ways with
              | refused answer =>
                  rw [answer] at consulted
                  exact .plant orderedBelow consulted
              | known answer =>
                  rw [answer] at consulted
                  exact .plant orderedBelow consulted
              | @abandoned cells _ _ _ answer failed =>
                  have orderedLater := (called cells).holds
                  rw [failed] at orderedLater
                  rw [answer] at consulted
                  exact .plant orderedLater consulted
              | @settled cells _ content _ answer succeeded =>
                  rcases called cells with ⟨orderedLater, -, resolved⟩
                  rw [succeeded] at orderedLater resolved
                  rcases Forest.reads_of_unknown (congrArg Prod.fst answer) with
                    ⟨-, left, right, leftRead, rightRead, rfl⟩
                  rw [answer] at consulted
                  exact .plant orderedLater (consulted.settle operation a b
                    (orderedTop.increasing_of_resolved leftRead rightRead (resolved content rfl)))

/-- Any steps keep all sets in order, if the sets that they are given are. -/
theorem steps (ordered : family.Ordered) {position : Fin n}
    (steps : Steps Content.Increasing position family later) : later.Ordered := by
  induction steps with
  | refl => exact ordered
  | tail _ step ih =>
      cases step with
      | changed action changes => exact ih.within action position changes
      | applied operation a b => exact ih.apply operation position a b

/-- The plain merge of two stored sets is in order, and so is what its calls store. -/
theorem merge (ordered : family.Ordered) (operation : Operation) (position : Fin n)
    (a b : Index) :
    (Family.merge operation position a b family).2.Ordered ∧
      ∀ content, (Family.merge operation position a b family).1 = .ok content →
        content.Increasing := by
  induction ordered with
  | bare => exact position.elim0
  | @plant n below top orderedBelow orderedTop ih =>
      induction position using Fin.lastCases with
      | cast position =>
          rw [merge_castSucc, onBelow_apply]
          exact ⟨.plant (ih position).1 orderedTop, (ih position).2⟩
      | last =>
          rw [merge_last_eq]
          cases aligned : top.align operation a b with
          | error error => exact ⟨.plant orderedBelow orderedTop, nofun⟩
          | ok cells =>
              rcases Forest.reads_of_align aligned with ⟨left, right, leftRead, rightRead, rfl⟩
              have called := callAll operation
                (fun _ orderedState => orderedState.apply operation) orderedBelow
                (Content.align operation top.children left right)
              exact ⟨.plant called.holds orderedTop, fun content answered =>
                orderedTop.increasing_of_resolved leftRead rightRead
                  (called.answered content answered)⟩

/-- A planted family has no sets yet but empty ones. -/
theorem ofSpecs? {specs : List Spec} (planted : Family.ofSpecs? specs = some ⟨n, family⟩) :
    family.Ordered := by
  refine ofSpecs?_induction .bare ?_ planted
  intro n family config strategy children ordered
  exact .plant ordered (.create config strategy children)

end Ordered

end Family

end SetForest
