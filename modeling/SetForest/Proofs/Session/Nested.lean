import SetForest.Proofs.Forest.Read
import SetForest.Proofs.Session.Lattice

namespace SetForest

/-!
# Nested results

In a forest with children, a lattice operation acts on the children of a key by
the same operation in the child forests.  That is so for every key, if a key that
is not there is read as the empty set, because the laws of the empty set are what
keeping a key or leaving it out amounts to.

A result may have been stored long ago.  What it says of the children is true at
any later time, and results in the child forests are unique, so the result is
still what the child forests would answer.
-/

variable {K : Type} {n : Nat}

/-- The index read for a key in a child forest, by the element that is there. -/
def childOrEmpty (number : Nat) (element : Option (Element K)) : Index :=
  (element.map (Element.child · number)).getD Index.empty

/-- Whatever is at a key, the indices that are read there in a child forest are
related by the operation. -/
theorem Operation.Joins.answers_child {operation : Operation} {children : List (Fin n)}
    {below : Fin n → Meaning} {first second result : Option (Element K)} {number : Nat}
    {child : Fin n} (atChild : children[number]? = some child)
    (lawful : (below child).Lawful) (firstInUse : (below child).InUse (childOrEmpty number first))
    (secondInUse : (below child).InUse (childOrEmpty number second))
    (joins : operation.Joins children (fun child => (below child).Answers operation)
      first second result) :
    (below child).Answers operation (childOrEmpty number first) (childOrEmpty number second)
      (childOrEmpty number result) := by
  cases first with
  | none =>
      have answers := lawful.empty_left operation _ secondInUse
      cases second with
      | none =>
          obtain rfl : result = none := joins
          rw [show childOrEmpty number (none : Option (Element K)) = Index.empty from rfl,
            ite_self] at answers
          exact answers
      | some second =>
          obtain rfl : result = if operation = .union then some second else none := joins
          rw [apply_ite (childOrEmpty number)]
          exact answers
  | some first =>
      cases second with
      | none =>
          have answers := lawful.empty_right operation _ firstInUse
          obtain rfl : result = if operation = .intersection then none else some first := joins
          rw [apply_ite (childOrEmpty number)]
          exact answers
      | some second =>
          simp only [Operation.Joins] at joins
          have nested : ¬(operation = .difference ∧ children = []) := by
            rintro ⟨_, rfl⟩
            cases atChild
          rw [if_neg nested] at joins
          rcases joins with ⟨element, rfl, combined⟩
          exact combined.child number child atChild

variable [Key K]

namespace Forest

variable {forest : Forest K n} {below : Fin n → Meaning}

/-- What is read for a key in a child forest. -/
theorem WellStored.nestedOf_eq (stored : forest.WellStored) {index : Index} {key : K}
    {number : Nat} {child : Index} (read : forest.nestedOf index key number = .ok child) :
    ∃ content, forest.Denotes index content ∧ child = childOrEmpty number (content.find? key) := by
  unfold nestedOf at read
  by_cases beyond : forest.children.length ≤ number
  · rw [if_pos beyond] at read
    cases read
  · rw [if_neg beyond] at read
    cases found : forest.content index with
    | error error =>
        rw [findKey, found] at read
        cases read
    | ok content =>
        have denotes := stored.denotes_of_content found
        refine ⟨content, denotes, ?_⟩
        rw [findKey_eq (stored.increasing index content denotes) found] at read
        cases here : content.find? key with
        | none =>
            rw [here] at read
            cases read
            rfl
        | some element =>
            rw [here] at read
            cases read
            rfl

/-- What is read off a result and off its operands, for one key and child forest,
is a result and its operands there. -/
theorem Sound.answers_nested (sound : forest.Sound below) (lawful : ∀ child, (below child).Lawful)
    {operation : Operation} {a b r : Index}
    (determines : (forest.meaning below).Determines operation a b r) {key : K} {number : Nat}
    {child : Fin n} (atChild : forest.children[number]? = some child) {x y z : Index}
    (left : forest.nestedOf a key number = .ok x) (right : forest.nestedOf b key number = .ok y)
    (result : forest.nestedOf r key number = .ok z) (leftInUse : (below child).InUse x)
    (rightInUse : (below child).InUse y) : (below child).Answers operation x y z := by
  have stored := sound.toWellStored
  rcases stored.nestedOf_eq left with ⟨leftContent, denotesLeft, rfl⟩
  rcases stored.nestedOf_eq right with ⟨rightContent, denotesRight, rfl⟩
  rcases stored.nestedOf_eq result with ⟨resultContent, denotesResult, rfl⟩
  rcases stored.exists_contents determines with
    ⟨left', right', content, denotesLeft', denotesRight', denotes, joins⟩
  rcases stored.content_unique denotesLeft denotesLeft' with rfl
  rcases stored.content_unique denotesRight denotesRight' with rfl
  rcases stored.content_unique denotesResult denotes with rfl
  rcases joins with ⟨-, rfl, rfl⟩ | ⟨-, joined⟩
  · have answers := (lawful child).self operation _ leftInUse
    rw [apply_ite (fun content : Content K => childOrEmpty number (content.find? key))]
    exact answers
  · exact (joined key).answers_child atChild (lawful child) leftInUse rightInUse

end Forest

/-- In a forest with children, an operation that answers has acted on the keys as
on sets, except that a difference of two sets keeps the keys of the first.  From
then on, whatever the session is asked next and with whatever caches it goes on,
what is read from the result for a key and a child forest is what that child
forest answers for what is read from the operands. -/
theorem apply_nested [ToString K] {specs : List Spec} {family : Family K n}
    (planted : Family.ofSpecs? specs = some ⟨n, family⟩) {session : Session K n}
    (starts : session.family = family) (commands : List (Fin n × Command K))
    (fits : ∀ command ∈ commands, command.2.Fits (family.forestAt command.1))
    (position : Fin n) (nested : (family.forestAt position).children ≠ []) (operation : Operation)
    (a b r : Index) (later : Family K n)
    (answered : Family.apply operation position a b (session.run commands).2.family =
      (.ok r, later)) :
    (∃ left right content,
      ((session.run commands).2.family.forestAt position).Denotes a left ∧
      ((session.run commands).2.family.forestAt position).Denotes b right ∧
      (later.forestAt position).Denotes r content ∧
      content.keys = if operation = .difference ∧ a ≠ b then left.keys
        else operation.onSets left.keys right.keys) ∧
    ∀ (resumed : Session K n) (more : List (Fin n × Command K)), resumed.family = later →
      (∀ command ∈ more, command.2.Fits (family.forestAt command.1)) →
      let reached := (resumed.run more).2.family
      ∀ (key : K) (number : Nat) (child : Fin position) (x y z w : Index) (last : Family K n),
        (reached.forestAt position).children[number]? = some child →
        (reached.forestAt position).nestedOf a key number = .ok x →
        (reached.forestAt position).nestedOf b key number = .ok y →
        (reached.forestAt position).nestedOf r key number = .ok z →
        Family.apply operation (Family.childPosition position child) x y reached = (.ok w, last) →
        z = w := by
  rcases Session.sound_of_planted planted starts fits with ⟨sound, extension⟩
  rcases sound.contents_of_apply answered with
    ⟨soundLater, further, determines, left, right, content, denotesLeft, denotesRight, denotes,
      joins⟩
  have toLater := extension.trans further
  refine ⟨⟨left, right, content, denotesLeft, denotesRight, denotes, ?_⟩, ?_⟩
  · rcases joins with ⟨same, rfl, rfl⟩ | ⟨different, joined⟩
    · have notTwo : ¬(operation = .difference ∧ a ≠ b) := fun both => both.2 same
      rw [if_neg notTwo, Operation.onSets_self, apply_ite Content.keys, Content.keys_nil]
    · have nestedLater : (later.forestAt position).children ≠ [] := by
        rw [(toLater.forestAt position).children]
        exact nested
      rw [joined.keys_eq]
      simp only [nestedLater, different, ne_eq, not_false_eq_true, and_true]
  · intro resumed more resumes moreFits reached key number child x y z w last atChild readLeft
      readRight readResult called
    subst later
    rcases resumed.sound_run more soundLater (Command.fits_of_extends toLater moreFits) with
      ⟨soundReached, toReached⟩
    -- The child forest answers in the reached state, and the result already holds there.
    rcases soundReached.contents_of_apply called with ⟨soundLast, toLast, childDetermines, -⟩
    have inUse := soundReached.inUse_of_apply (congrArg Prod.fst called)
    have determinesReached := (toReached.meaning_le position).determines determines
    rw [Family.meaning_eq] at determinesReached
    have answers := (soundReached.forestAt position).answers_nested
      (fun child => soundReached.lawful _) determinesReached atChild readLeft readRight readResult
      inUse.1 inUse.2
    exact (soundLast.lawful _).functional operation x y z w
      ((toLast.meaning_le _).answers operation x y z answers) childDetermines.answers

/-- The union of two maps with one key, whose children were united for it, and
again after their union had been evicted. -/
theorem apply_nested_union :
    let below : Family Nat 1 := .single {} .unshared
    let start : Session Nat 2 := .start (below.plant (Forest.create {} .unshared [0]))
    let commands := [(0, .registerSingle (.flat 5)), (0, .registerSingle (.flat 7)),
      (1, .registerSingle ⟨1, [1]⟩), (1, .registerSingle ⟨1, [2]⟩)]
    let reached := (start.run commands).2.family
    let later := (Family.apply .union 1 1 2 reached).2
    let last := ((Session.start later).run [(0, .evict 3), (0, .apply .union 1 2)]).2.family
    (∃ z w, (last.forestAt 1).nestedOf 3 1 0 = .ok z ∧
      (Family.apply .union 0 1 2 last).1 = .ok w ∧ z = w) ∧
    ∃ left right content, (reached.forestAt 1).Denotes 1 left ∧
      (reached.forestAt 1).Denotes 2 right ∧ (later.forestAt 1).Denotes 3 content ∧
      content.keys = left.keys ∪ right.keys := by
  intro below start commands reached later last
  have fits : ∀ command ∈ commands, command.2.Fits (start.family.forestAt command.1) := by
    simp only [commands, List.forall_mem_cons]
    exact ⟨rfl, rfl, rfl, rfl, nofun⟩
  have moreFits : ∀ command ∈ [((0 : Fin 2), Command.evict 3), (0, .apply .union 1 2)],
      command.2.Fits (start.family.forestAt command.1) := by
    simp only [List.forall_mem_cons]
    exact ⟨trivial, trivial, nofun⟩
  have answered : Family.apply .union 1 1 2 reached = (.ok 3, later) :=
    Prod.fst_eq_iff.mp (by decide +kernel)
  have planted : Family.ofSpecs? [{}, { children := [0] }] = some ⟨2, start.family⟩ := rfl
  have nested : (start.family.forestAt 1).children ≠ [] := by decide +kernel
  rcases apply_nested planted rfl commands fits 1 nested .union 1 2 3 later answered with
    ⟨keys, pointwise⟩
  let child : Fin (1 : Fin 2) := ⟨0, Nat.one_pos⟩
  have atChild : (last.forestAt 1).children[0]? = some child := by decide +kernel
  have left : (last.forestAt 1).nestedOf 1 1 0 = .ok 1 := by decide +kernel
  have right : (last.forestAt 1).nestedOf 2 1 0 = .ok 2 := by decide +kernel
  have result : (last.forestAt 1).nestedOf 3 1 0 = .ok 3 := by decide +kernel
  have answeredBelow : (Family.apply .union 0 1 2 last).1 = .ok 3 := by decide +kernel
  have agree : (3 : Index) = 3 := pointwise (Session.start later) _
    (Session.family_start later) moreFits 1 0 child 1 2 3 3 _ atChild left right result
    (Prod.fst_eq_iff.mp answeredBelow)
  exact ⟨⟨3, 3, result, answeredBelow, agree⟩, keys⟩

end SetForest
