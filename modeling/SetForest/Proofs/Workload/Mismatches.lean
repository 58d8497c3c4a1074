import SetForest.Proofs.Content.Text
import SetForest.Proofs.Session.Storage
import SetForest.Workload.Replay

namespace SetForest

/-!
# Texts stand for sets

A forest whose keys are integers shows two sets alike only if they are one set.  So the
texts in a report can be told apart wherever the indices can.  A case is a mismatch because
the index of its result is not the one that was expected, and its report shows this: the
text of the result is not the expected text.

This holds of every forest and whatever was stored in it before, as far as the replaying
goes.  It may still fail, for instance where a set was evicted.
-/

namespace Forest

variable {K : Type} [IntegerKey K] {n : Nat} {forest : Forest K n} {a b : Index} {text : String}

/-- A text that a forest shows is that of the content that the index stands for. -/
theorem exists_of_setText (canonical : forest.sets.Canonical)
    (shown : forest.setText a = .ok text) :
    ∃ content, forest.Denotes a content ∧ content.text = text := by
  rw [setText] at shown
  cases read : forest.content a with
  | error error =>
      rw [read] at shown
      cases shown
  | ok content =>
      rw [read] at shown
      cases shown
      exact ⟨content, denotes_of_content canonical read, rfl⟩

/-- Sets that are shown alike have the same index. -/
theorem index_eq_of_setText (canonical : forest.sets.Canonical)
    (left : forest.setText a = .ok text) (right : forest.setText b = .ok text) : a = b := by
  rcases exists_of_setText canonical left with ⟨content, denotes, rfl⟩
  rcases exists_of_setText canonical right with ⟨other, denotesOther, same⟩
  rw [index_eq_iff canonical denotes denotesOther]
  exact ((Content.text_eq_iff other content).mp same).symm

end Forest

namespace Workload

open SetForest.Action

variable {n : Nat} {position : Fin n} {family : Family Int64 n}

/-- What an action on a family ensures, if all that is known is that the storage at the
position is canonical. -/
abbrev EnsuresAt {α : Type} (position : Fin n) (family : Family Int64 n)
    (action : FamilyM Int64 n α) (answers : α → Family Int64 n → Prop) : Prop :=
  Action.Ensures (fun state => (state.forestAt position).sets.Canonical) Family.Evolves family
    action answers

/-- An action that only interns and evicts keeps the storage canonical. -/
theorem ensures_of_evolves {α : Type} {action : FamilyM Int64 n α}
    (canonical : (family.forestAt position).sets.Canonical)
    (evolves : family.Evolves (action family).2) :
    EnsuresAt position family action (fun _ _ => True) :=
  ⟨(evolves.forestAt position).canonical canonical, evolves, fun _ _ => trivial⟩

theorem ensures_registerNumbers (canonical : (family.forestAt position).sets.Canonical)
    (values : List Int64) :
    EnsuresAt position family (registerNumbers position values) (fun _ _ => True) := by
  let elements := values.map Element.flat
  have steps : Family.Steps (fun _ => True) position family
      (Family.within (Forest.registerUnordered elements) position family).2 :=
    .single (.changed (fun {_} => Forest.registerUnordered elements)
      (Forest.changes_registerUnordered _ elements fun _ => trivial))
  apply (ensures_of_evolves canonical steps.evolves).bind Family.evolves_trans
  intro registered later canonicalLater _ _
  exact .pure Family.evolves_refl canonicalLater trivial

theorem ensures_apply (canonical : (family.forestAt position).sets.Canonical)
    (operation : Operation) (a b : Index) :
    EnsuresAt position family (Family.apply operation position a b) (fun _ _ => True) := by
  have steps : Family.Steps (fun _ => True) position family
      (Family.apply operation position a b family).2 :=
    .single (.applied operation a b)
  exact ensures_of_evolves canonical steps.evolves

/-- A text that was shown stands for its index from then on. -/
theorem ensures_setText (canonical : (family.forestAt position).sets.Canonical)
    (index : Index) :
    EnsuresAt position family (setText position index) (fun text state =>
      ∃ content, (state.forestAt position).Denotes index content ∧ content.text = text) := by
  have shown := Family.reading_apply (fun forest => forest.setText index) family position
  refine ⟨?_, ?_, ?_⟩ <;> rw [setText, shown]
  · exact canonical
  · exact Family.evolves_refl family
  · intro text answered
    exact Forest.exists_of_setText canonical answered

/-- A mismatch that is reported for a case shows that its two results are different. -/
theorem ensures_replayCase (canonical : (family.forestAt position).sets.Canonical)
    (case : Case) (place : Nat) :
    EnsuresAt position family (replayCase position case place) (fun outcome _ =>
      ∀ mismatch, outcome = some mismatch → mismatch.expected ≠ mismatch.actual) := by
  apply (ensures_registerNumbers canonical case.left).bind Family.evolves_trans
  intro left _ canonical _ _
  apply (ensures_registerNumbers canonical case.right).bind Family.evolves_trans
  intro right _ canonical _ _
  apply (ensures_apply canonical case.operation left right).bind Family.evolves_trans
  intro actual _ canonical _ _
  apply (ensures_registerNumbers canonical case.expected).bind Family.evolves_trans
  intro expected _ canonical _ _
  by_cases same : actual = expected
  · rw [if_pos same]
    exact .pure Family.evolves_refl canonical nofun
  · rw [if_neg same]
    apply (ensures_setText canonical left).bind Family.evolves_trans
    intro leftText _ canonical _ _
    apply (ensures_setText canonical right).bind Family.evolves_trans
    intro rightText _ canonical _ _
    apply (ensures_setText canonical expected).bind Family.evolves_trans
    rintro _ shown canonicalShown - ⟨content, denotes, rfl⟩
    apply (ensures_setText canonicalShown actual).bind Family.evolves_trans
    rintro _ last canonicalLast evolves ⟨other, denotesOther, rfl⟩
    refine .pure Family.evolves_refl canonicalLast ?_
    intro mismatch reported
    cases reported
    intro sameText
    have denotesLast := (evolves.forestAt position).denotes canonicalShown denotes
    exact same ((Forest.index_eq_iff canonicalLast denotesOther denotesLast).mpr
      ((Content.text_eq_iff content other).mp sameText).symm)

theorem ensures_replay (canonical : (family.forestAt position).sets.Canonical)
    (cases : List Case) :
    EnsuresAt position family (replay position cases) (fun mismatches _ =>
      ∀ mismatch ∈ mismatches, mismatch.expected ≠ mismatch.actual) := by
  have replayed := Action.Ensures.forall_mapM Family.evolves_refl Family.evolves_trans
    (fun (placed : Case × Nat) _ canonical =>
      ensures_replayCase canonical placed.1 placed.2) cases.zipIdx canonical
  apply replayed.bind Family.evolves_trans
  intro outcomes _ canonical _ described
  refine .pure Family.evolves_refl canonical ?_
  intro mismatch member
  rcases List.mem_filterMap.mp member with ⟨outcome, outcomeMember, reported⟩
  exact described outcome outcomeMember mismatch reported

end Workload

open Workload

/-- Sets of integers are printed faithfully.  Two lists of elements have the same text if
and only if they are equal, whatever the number of children is.  So in every state that a
session reaches, two indices whose sets can be shown are the same if the texts are.  And
whatever is replayed there, the texts of the expected and the actual set are different in
every mismatch that is reported. -/
theorem texts_faithful :
    (∀ (K : Type) [IntegerKey K] (left right : Content K),
      left.text = right.text ↔ left = right) ∧
    (∀ (K : Type) [IntegerKey K] (n : Nat) (specs : List Spec) (family : Family K n)
      (session : Session K n) (commands : List (Fin n × Command K)) (position : Fin n)
      (a b : Index) (text : String),
      Family.ofSpecs? specs = some ⟨n, family⟩ → session.family = family →
      let forest := (session.run commands).2.family.forestAt position
      forest.setText a = .ok text → forest.setText b = .ok text → a = b) ∧
    (∀ (n : Nat) (specs : List Spec) (family : Family Int64 n) (session : Session Int64 n)
      (commands : List (Fin n × Command Int64)) (position : Fin n) (files : List (List Case))
      (reports : List (List Mismatch)),
      Family.ofSpecs? specs = some ⟨n, family⟩ → session.family = family →
      (files.mapM (replay position) (session.run commands).2.family).1 = .ok reports →
      ∀ report ∈ reports, ∀ mismatch ∈ report, mismatch.expected ≠ mismatch.actual) := by
  refine ⟨?_, ?_, ?_⟩
  · intro K _ left right
    exact Content.text_eq_iff left right
  · intro K _ n specs family session commands position a b text planted starts forest left right
    exact Forest.index_eq_of_setText (Session.canonical_run planted starts commands position).1
      left right
  · intro n specs family session commands position files reports planted starts answered
    have canonical := (Session.canonical_run planted starts commands position).1
    exact (Action.Ensures.forall_mapM Family.evolves_refl Family.evolves_trans
      (fun cases _ canonical => ensures_replay canonical cases) files canonical).answered
        reports answered

/-- Only the comma tells two lists of children apart.  A session has registered one set in
two ways, and a case is replayed in it that expects too little. -/
theorem texts_faithful_mismatch :
    let start : Session Int64 1 := .start (.single {} .unshared)
    let commands := [(0, .registerUnordered [.flat 3, .flat (-1)]), (0, .registerSingle (.flat 2)),
      (0, .registerSet [.flat (-1), .flat 3])]
    let reached := (start.run commands).2.family
    let cases : List Case := [⟨.union, [3, -1], [2], [2, 3]⟩]
    let separated : Content Int64 := [⟨-1, [2, 3]⟩]
    let joined : Content Int64 := [⟨-1, [23]⟩]
    (separated.text = joined.text ↔ separated = joined) ∧
    ((reached.forestAt 0).setText 1 = .ok "\x7b -1 3 \x7d" ∧
      ∀ index, (reached.forestAt 0).setText index = .ok "\x7b -1 3 \x7d" → index = 1) ∧
    ∃ mismatch, ([cases, cases].mapM (replay 0) reached).1 = .ok [[mismatch], [mismatch]] ∧
      mismatch.expected ≠ mismatch.actual := by
  intro start commands reached cases separated joined
  have planted : Family.ofSpecs? [{}] = some ⟨1, start.family⟩ := rfl
  have shown : (reached.forestAt 0).setText 1 = .ok "\x7b -1 3 \x7d" := by decide +kernel
  let mismatch : Mismatch := ⟨0, .union, "\x7b -1 3 \x7d", "\x7b 2 \x7d", "\x7b 2 3 \x7d",
    "\x7b -1 2 3 \x7d"⟩
  have replayed : ([cases, cases].mapM (replay 0) reached).1 = .ok [[mismatch], [mismatch]] := by
    decide +kernel
  rcases texts_faithful with ⟨faithful, indices, mismatches⟩
  refine ⟨faithful Int64 separated joined, ⟨shown, ?_⟩, mismatch, replayed, ?_⟩
  · intro index shownToo
    exact indices Int64 1 _ start.family start commands 0 index 1 _ planted rfl shownToo shown
  · exact mismatches 1 _ start.family start commands 0 [cases, cases] _ planted rfl replayed
      [mismatch] List.mem_cons_self mismatch List.mem_cons_self

end SetForest
