import Mathlib.Tactic.Tauto
import SetForest.Proofs.Content.Prepare
import SetForest.Proofs.Session.Resident

namespace SetForest

/-!
# Registering collections in reached states

Whether a collection is accepted is decided before anything is done, and by the prepared
collection alone.  If it is accepted, the rest is the registration of a content that is in
order, which a forest cannot refuse.  If it is not, nothing has happened.

So the members of a collection decide which index it gets.  As forests keep their sets
under one index for good, this goes for two registrations with any commands between
them, too.
-/

variable {K : Type} [Key K] {n : Nat}

/-! ## Forests -/

namespace Forest

variable {forest : Forest K n} {elements : List (Element K)}

/-- A consistent collection is registered as the content that it is prepared to. -/
theorem registerUnordered_of_consistent (consistent : Content.Consistent elements)
    (forest : Forest K n) :
    registerUnordered elements forest = registerSet (Content.prepare elements) forest := by
  have accepted := (Content.violation?_eq_none_iff _).mpr
    ((Content.increasing_prepare_iff elements).mpr consistent)
  rw [registerUnordered, Content.check, accepted]
  rfl

/-- Any other collection is refused at the first key that is repeated, and nothing else
happens. -/
theorem registerUnordered_of_not_consistent (clash : ¬Content.Consistent elements)
    (forest : Forest K n) :
    ∃ place, registerUnordered elements forest =
        (.error (.integrity (.duplicateKey place)), forest) ∧
      IsLeast {place | (Content.prepare elements).RepeatsKey place} place := by
  rw [registerUnordered, Content.check]
  cases found : (Content.prepare elements).violation? with
  | none =>
      rw [Content.violation?_eq_none_iff, Content.increasing_prepare_iff] at found
      exact absurd found clash
  | some violation =>
      rcases Content.isLeast_of_violation? found with ⟨place, rfl, least⟩
      exact ⟨place, rfl, least⟩

/-- The content of a consistent collection can be read, now that it is registered. -/
theorem Dependable.exists_registerUnordered (dependable : forest.Dependable)
    (consistent : Content.Consistent elements) :
    ∃ registered later, registerUnordered elements forest = (.ok registered, later) ∧
      later.content registered.index = .ok (Content.prepare elements) := by
  rcases dependable.exists_registerSet
    ((Content.increasing_prepare_iff elements).mpr consistent) with
    ⟨registered, later, answered, -, read⟩
  exact ⟨registered, later, (registerUnordered_of_consistent consistent forest).trans answered,
    read⟩

/-- If a collection is answered with an index, it is consistent, and its content is what is
read there. -/
theorem Dependable.read_registerUnordered (dependable : forest.Dependable)
    {registered : Registered} {later : Forest K n}
    (answered : registerUnordered elements forest = (.ok registered, later)) :
    Content.Consistent elements ∧
      later.content registered.index = .ok (Content.prepare elements) := by
  by_cases consistent : Content.Consistent elements
  · rcases dependable.exists_registerUnordered consistent with ⟨again, after, same, read⟩
    cases answered.symm.trans same
    exact ⟨consistent, read⟩
  · rcases registerUnordered_of_not_consistent consistent forest with ⟨place, refused, -⟩
    cases answered.symm.trans refused

/-- A registration leaves a forest that works as before, with all that it stands for. -/
theorem Dependable.after_registerUnordered (dependable : forest.Dependable)
    (elements : List (Element K)) :
    (registerUnordered elements forest).2.Dependable ∧
      forest.Evolves (registerUnordered elements forest).2 := by
  have changes : Changes (fun _ => True) forest (registerUnordered elements forest).2 :=
    changes_registerUnordered forest elements fun _ => trivial
  exact ⟨dependable.changes changes, changes.evolves⟩

end Forest

/-! ## Families -/

namespace Family

variable {family : Family K n} {position : Fin n} {elements : List (Element K)}

/-- A consistent collection is accepted in any forest that works as it should. -/
theorem exists_registerUnordered (dependable : (family.forestAt position).Dependable)
    (consistent : Content.Consistent elements) :
    ∃ registered later, within (Forest.registerUnordered elements) position family =
        (.ok registered, later) ∧
      (later.forestAt position).content registered.index = .ok (Content.prepare elements) := by
  rcases dependable.exists_registerUnordered consistent with ⟨registered, after, answered, read⟩
  have here := within_apply (fun {_} => Forest.registerUnordered elements) family position
  rw [answered] at here
  refine ⟨registered, _, Prod.ext here.1 rfl, ?_⟩
  rw [here.2]
  exact read

/-- What is refused is refused for the first key that is repeated, and nothing happens in
the whole family. -/
theorem registerUnordered_of_not_consistent (clash : ¬Content.Consistent elements)
    (family : Family K n) (position : Fin n) :
    ∃ place, within (Forest.registerUnordered elements) position family =
        (.error (.integrity (.duplicateKey place)), family) ∧
      IsLeast {place | (Content.prepare elements).RepeatsKey place} place := by
  rcases Forest.registerUnordered_of_not_consistent clash (family.forestAt position) with
    ⟨place, refused, least⟩
  have here := within_apply (fun {_} => Forest.registerUnordered elements) family position
  refine ⟨place, Prod.ext ?_ (within_of_unchanged ?_), least⟩
  · rw [here.1, refused]
  · rw [refused]

/-- Whatever is accepted is consistent, and its content can be read in a forest that works
as before. -/
theorem read_registerUnordered (dependable : (family.forestAt position).Dependable)
    {registered : Registered} {later : Family K n}
    (answered : within (Forest.registerUnordered elements) position family =
      (.ok registered, later)) :
    Content.Consistent elements ∧ (later.forestAt position).Dependable ∧
      (later.forestAt position).content registered.index = .ok (Content.prepare elements) := by
  have here := forest_within answered
  have after := dependable.after_registerUnordered elements
  rw [here] at after
  rcases dependable.read_registerUnordered here with ⟨consistent, read⟩
  exact ⟨consistent, after.1, read⟩

/-- Whatever is refused is not consistent. -/
theorem refused_registerUnordered (dependable : (family.forestAt position).Dependable)
    {error : Error} {later : Family K n}
    (refused : within (Forest.registerUnordered elements) position family =
      (.error error, later)) :
    later = family ∧ ∃ place, error = .integrity (.duplicateKey place) ∧
      IsLeast {place | (Content.prepare elements).RepeatsKey place} place := by
  have clash : ¬Content.Consistent elements := by
    intro consistent
    rcases exists_registerUnordered dependable consistent with ⟨registered, after, answered, -⟩
    cases refused.symm.trans answered
  rcases registerUnordered_of_not_consistent clash family position with
    ⟨place, refusedThere, least⟩
  cases refused.symm.trans refusedThere
  exact ⟨rfl, place, rfl, least⟩

/-- Collections with the same members are registered alike. -/
theorem registerUnordered_congr {others : List (Element K)}
    (agree : ∀ element, element ∈ others ↔ element ∈ elements) (position : Fin n) :
    (within (Forest.registerUnordered others) position : FamilyM K n Registered) =
      within (Forest.registerUnordered elements) position := by
  have alike : ∀ {m : Nat}, (Forest.registerUnordered others : ForestM K m Registered) =
      Forest.registerUnordered elements := by
    intro m
    rw [Forest.registerUnordered, Forest.registerUnordered, Content.prepare_congr agree]
  simp only [alike]

end Family

/-! ## Reached states -/

variable [ToString K] {specs : List Spec} {family : Family K n} {session : Session K n}

/-- Collections with the same members that are registered one after the other get the same
index, whatever is asked of the session between the two. -/
theorem Session.exists_registerUnordered_again {position : Fin n}
    {elements others : List (Element K)} {index : Index}
    (dependable : (session.family.forestAt position).Dependable)
    (consistent : Content.Consistent elements)
    (read : (session.family.forestAt position).content index = .ok (Content.prepare elements))
    (agree : ∀ element, element ∈ others ↔ element ∈ elements)
    (commands : List (Fin n × Command K)) :
    ∃ registered last, Family.within (Forest.registerUnordered others) position
        (session.run commands).2.family = (.ok registered, last) ∧ registered.index = index := by
  have dependableThen := session.dependable_of_run commands position dependable
  have evolves := (session.evolves_run commands).forestAt position
  have denotes := evolves.denotes dependable.canonical
    (Forest.denotes_of_content dependable.canonical read)
  rcases Family.exists_registerUnordered dependableThen (consistent.congr agree) with
    ⟨registered, last, answered, readAgain⟩
  refine ⟨registered, last, answered, ?_⟩
  have after := dependableThen.after_registerUnordered others
  rw [Family.forest_within answered] at after
  rcases after with ⟨dependableLast, evolvesLast⟩
  exact (Forest.index_eq_iff dependableLast.canonical
    (Forest.denotes_of_content dependableLast.canonical readAgain)
    (evolvesLast.denotes dependableThen.canonical denotes)).mpr (Content.prepare_congr agree)

/-- Registering a collection in any order depends on its members alone.  In every state
that a session reaches, a collection is accepted if and only if no key comes with two lists
of children.  The index then stands for the elements of the collection, in the order of
their keys.  A collection with the same members fares the same in the same state, and if it
is registered in a later state it gets the same index.  What is refused is refused at the
first place of the prepared collection where the key of the predecessor is repeated, and
the whole family stays as it was.

Preparing sorts the elements and drops those that repeat their predecessor.  It changes
nothing when it is done again.  In a forest without children no collection is refused. -/
theorem unordered_registration [DecidableEq K]
    (planted : Family.ofSpecs? specs = some ⟨n, family⟩) (starts : session.family = family)
    (commands : List (Fin n × Command K)) (position : Fin n) (elements : List (Element K)) :
    let reached := (session.run commands).2.family
    let prepared := Content.prepare elements
    let register := fun (given : List (Element K)) (family : Family K n) =>
      Family.within (Forest.registerUnordered given) position family
    ((∃ registered later, register elements reached = (.ok registered, later)) ↔
      Content.Consistent elements) ∧
    (∀ registered later, register elements reached = (.ok registered, later) →
      (later.forestAt position).Denotes registered.index prepared ∧
      (later.forestAt position).content registered.index = .ok prepared ∧
      prepared.Increasing ∧ ∀ element, element ∈ prepared ↔ element ∈ elements) ∧
    (∀ others, (∀ element, element ∈ others ↔ element ∈ elements) →
      register others reached = register elements reached ∧
      ∀ registered later, register elements reached = (.ok registered, later) →
        ∀ (next : Session K n) (further : List (Fin n × Command K)), next.family = later →
          ∃ again last, register others (next.run further).2.family = (.ok again, last) ∧
            again.index = registered.index) ∧
    (∀ error later, register elements reached = (.error error, later) →
      later = reached ∧ ∃ place, error = .integrity (.duplicateKey place) ∧
        IsLeast {place | prepared.RepeatsKey place} place) ∧
    (prepared = (Key.sort elements).destutter (· ≠ ·) ∧ Content.prepare prepared = prepared) ∧
    ((reached.forestAt position).children = [] →
      Content.HasArity elements (reached.forestAt position).children.length →
        ∃ registered later, register elements reached = (.ok registered, later)) := by
  intro reached prepared register
  have dependable : (reached.forestAt position).Dependable :=
    Session.dependable_run planted starts commands position
  have accepted (consistent : Content.Consistent elements) :
      ∃ registered later, register elements reached = (.ok registered, later) := by
    rcases Family.exists_registerUnordered dependable consistent with
      ⟨registered, later, answered, -⟩
    exact ⟨registered, later, answered⟩
  refine ⟨⟨?_, accepted⟩, ?_, ?_, ?_, ⟨Content.prepare_eq_destutter elements,
    Content.prepare_prepare elements⟩, ?_⟩
  · rintro ⟨registered, later, answered⟩
    exact (Family.read_registerUnordered dependable answered).1
  · intro registered later answered
    rcases Family.read_registerUnordered dependable answered with
      ⟨consistent, dependableLater, read⟩
    exact ⟨Forest.denotes_of_content dependableLater.canonical read, read,
      (Content.increasing_prepare_iff elements).mpr consistent,
      fun element => Content.mem_prepare element elements⟩
  · intro others agree
    refine ⟨congrFun (Family.registerUnordered_congr agree position) reached, ?_⟩
    rintro registered _ answered next further rfl
    rcases Family.read_registerUnordered dependable answered with
      ⟨consistent, dependableLater, read⟩
    exact next.exists_registerUnordered_again dependableLater consistent read agree further
  · intro error later refused
    exact Family.refused_registerUnordered dependable refused
  · intro flat arity
    rw [flat] at arity
    exact accepted (Content.consistent_of_hasArity_zero arity)

/-- In a forest with a child forest, a key with two different children is refused at its
second occurrence in the prepared order, however the elements were given. -/
theorem unordered_registration_clash :
    let family : Family Nat 2 :=
      .plant (.single {} .unshared) (Forest.create {} .unshared [0])
    let reached := ((Session.start family).run [(0, .registerSet [.flat 7])]).2.family
    let given : List (Element Nat) := [⟨5, [1]⟩, ⟨2, [0]⟩, ⟨5, [0]⟩, ⟨2, [0]⟩]
    let again : List (Element Nat) := [⟨5, [0]⟩, ⟨5, [1]⟩, ⟨2, [0]⟩]
    (∃ later, Family.within (Forest.registerUnordered given) 1 reached =
        (.error (.integrity (.duplicateKey 2)), later)) ∧
      (∀ error later, Family.within (Forest.registerUnordered given) 1 reached =
        (.error error, later) → later = reached) ∧
      Family.within (Forest.registerUnordered again) 1 reached =
        Family.within (Forest.registerUnordered given) 1 reached := by
  intro family reached given again
  have planted : Family.ofSpecs? [{}, { children := [0] }] = some ⟨2, family⟩ := rfl
  rcases unordered_registration planted (rfl : (Session.start family).family = family)
    [(0, .registerSet [.flat 7])] 1 given with ⟨-, -, alike, refused, -⟩
  refine ⟨⟨_, Prod.ext (by decide +kernel) rfl⟩, fun error later refusedThere =>
    (refused error later refusedThere).1, (alike again ?_).1⟩
  simp only [again, given, List.mem_cons, List.not_mem_nil, or_false]
  tauto

end SetForest
