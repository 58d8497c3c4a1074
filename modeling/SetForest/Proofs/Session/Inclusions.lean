import SetForest.Proofs.Family.Paths
import SetForest.Proofs.Forest.Inclusions
import SetForest.Proofs.Session.Lattice

namespace SetForest

/-!
# Known inclusions

Four operations file inclusions, and the answer to a question about two sets is
either one of these or holds always.  What is known is true, it is known from
both sides, and it stays known.

The order of the sets is recursive: a set is below another if each of its keys is
a key of the other, with children below those of the other.  It is spelled out
here on the members of the contents (`Forest.Below`).  The order that soundness
speaks of is laxer in one point, as it also relates an index with itself if the
index is not in use.  The two agree where the children of all elements are.
-/

variable {K : Type} [Key K] {n : Nat}

namespace Forest

/-- The order of the sets of a forest, by that of the forests below. -/
def Below (forest : Forest K n) (below : Fin n → Index → Index → Prop) (a b : Index) : Prop :=
  ∃ left right, forest.Denotes a left ∧ forest.Denotes b right ∧
    if forest.children = [] then ∀ element ∈ left, element ∈ right
    else ∀ first ∈ left, ∃ second ∈ right, second.key = first.key ∧
      ∀ number child, forest.children[number]? = some child →
        below child (first.child number) (second.child number)

variable {forest : Forest K n} {below : Fin n → Meaning} {a b : Index}

/-- A set that lies within another has each of its elements matched there. -/
theorem WellStored.matched_of_within (stored : forest.WellStored)
    (lawful : ∀ child, (below child).Lawful) (inUse : forest.InUse a)
    (within : forest.Within below a b) :
    ∃ left right, forest.Denotes a left ∧ forest.Denotes b right ∧
      ∀ first ∈ left, ∃ second ∈ right, second.key = first.key ∧
        ∀ number child, forest.children[number]? = some child →
          (below child).Within (first.child number) (second.child number) := by
  have contents : ∃ left right, forest.Denotes a left ∧ forest.Denotes b right ∧
      Content.Within forest.children (fun child => (below child).Within) left right := by
    rcases within with rfl | within
    · rcases inUse with ⟨content, denotes⟩
      exact ⟨content, content, denotes, denotes,
        Content.within_of_sublist (fun child => (lawful child).refl)
          (stored.increasing a content denotes) (List.Sublist.refl content)⟩
    · exact within
  rcases contents with ⟨left, right, denotesLeft, denotesRight, included⟩
  refine ⟨left, right, denotesLeft, denotesRight, ?_⟩
  intro first member
  have inLeft : left.find? first.key = some first :=
    (Content.find?_eq_some_iff (stored.increasing a left denotesLeft)).mpr ⟨member, rfl⟩
  rcases included first.key first inLeft with ⟨second, found, childrenWithin⟩
  exact ⟨second, Content.mem_of_find? found, Content.key_of_find? found, childrenWithin⟩

/-- Without children, an element is its key. -/
theorem WellStored.eq_of_flat (stored : forest.WellStored) (flat : forest.children = [])
    {left right : Content K} (denotesLeft : forest.Denotes a left)
    (denotesRight : forest.Denotes b right) {first second : Element K} (inLeft : first ∈ left)
    (inRight : second ∈ right) (sameKey : second.key = first.key) : second = first := by
  have leftArity := stored.arity a left denotesLeft first inLeft
  have rightArity := stored.arity b right denotesRight second inRight
  rw [flat] at leftArity rightArity
  exact Element.eq_of_flat sameKey rightArity leftArity

end Forest

namespace Family

/-- The order of the sets at each position.  It is irreducible, as there is nothing
to be gained from computing with it in a given family. -/
@[irreducible]
def Below (family : Family K n) : Fin n → Index → Index → Prop :=
  fold Forest.Below family

theorem below_eq (family : Family K n) (position : Fin n) :
    family.Below position = (family.forestAt position).Below
      (fun child => family.Below (childPosition position child)) := by
  unfold Below
  exact fold_eq Forest.Below family position

/-- Where a family is closed, the order is the one that soundness speaks of. -/
theorem Sound.below_of_within {family : Family K n} (sound : family.Sound) {position : Fin n}
    (closed : family.Closed position) {a b : Index} (inUse : (family.meaning position).InUse a)
    (within : (family.meaning position).Within a b) : family.Below position a b := by
  induction closed generalizing a b with
  | intro position children below ih =>
      have stored := (sound.forestAt position).toWellStored
      rw [meaning_eq] at inUse within
      rcases stored.matched_of_within (fun child => sound.lawful _) inUse within with
        ⟨left, right, denotesLeft, denotesRight, matched⟩
      rw [below_eq]
      refine ⟨left, right, denotesLeft, denotesRight, ?_⟩
      split
      · next flat =>
          intro first member
          rcases matched first member with ⟨second, memberRight, sameKey, -⟩
          have same : second = first :=
            stored.eq_of_flat flat denotesLeft denotesRight member memberRight sameKey
          exact same ▸ memberRight
      · intro first member
        rcases matched first member with ⟨second, memberRight, sameKey, childrenWithin⟩
        refine ⟨second, memberRight, sameKey, ?_⟩
        intro number child atChild
        have inside := children a left denotesLeft first member number child atChild
        have childInUse : (family.meaning (childPosition position child)).InUse
            (first.child number) := by
          rw [meaning_eq]
          exact (sound.forestAt (childPosition position child)).inUse_of_lt inside
        exact ih child (List.mem_of_getElem? atChild) childInUse
          (childrenWithin number child atChild)

end Family

/-- What is known about two sets is true, is known from both sides and stays known.
The first needs the children of stored elements to be in use, so that there is an
order of their sets to speak of. -/
theorem inclusion_known [ToString K] {specs : List Spec} {family : Family K n}
    (planted : Family.ofSpecs? specs = some ⟨n, family⟩) {session : Session K n}
    (starts : session.family = family) (commands : List (Fin n × Command K))
    (fits : ∀ command ∈ commands, command.2.Fits (family.forestAt command.1))
    (position : Fin n) :
    let reached := (session.run commands).2.family
    let forest := reached.forestAt position
    (reached.Closed position → ∀ a b,
      (forest.inclusion a b = .ok (some .subset) → reached.Below position a b) ∧
      (forest.inclusion a b = .ok (some .superset) → reached.Below position b a)) ∧
    (∀ a b, a ≠ b →
      (forest.inclusion a b = .ok (some .subset) ↔ forest.inclusion b a = .ok (some .superset))) ∧
    (∀ a b relation, forest.inclusion a b = .ok (some relation) →
      ∀ (resumed : Session K n) (more : List (Fin n × Command K)), resumed.family = reached →
        (∀ command ∈ more, command.2.Fits (family.forestAt command.1)) →
        ((resumed.run more).2.family.forestAt position).inclusion a b = .ok (some relation)) := by
  intro reached forest
  rcases Session.sound_of_planted planted starts fits with ⟨sound, extension⟩
  have soundForest := sound.forestAt position
  refine ⟨?_, fun a b different => forest.inclusion_mirrored different, ?_⟩
  · intro closed a b
    constructor
    · intro answered
      have relates := soundForest.relates_of_inclusion answered
      rw [← Family.meaning_eq] at relates
      exact sound.below_of_within closed relates.1 relates.2.2
    · intro answered
      have relates := soundForest.relates_of_inclusion answered
      rw [← Family.meaning_eq] at relates
      exact sound.below_of_within closed relates.2.1 relates.2.2
  · intro a b relation answered resumed more resumes moreFits
    have soundResumed : resumed.family.Sound := resumes ▸ sound
    have extensionResumed : family.Extends resumed.family := resumes ▸ extension
    rcases resumed.sound_run more soundResumed
      (Command.fits_of_extends extensionResumed moreFits) with
        ⟨soundLater, further⟩
    rw [resumes] at further
    exact (further.forestAt position).inclusion soundForest.toWellStored
      (soundLater.forestAt position).toWellStored answered

/-- Two sets and their union, after the union was evicted. -/
theorem inclusion_known_union :
    let start := Session.start (Family.single {} .unshared : Family Nat 1)
    let commands := [(0, .registerSingle (.flat 5)), (0, .registerSingle (.flat 7)),
      (0, .apply .union 1 2), (0, .evict 3)]
    let reached := (start.run commands).2.family
    let later := (Session.run (Session.start reached) [(0, .apply .intersection 1 2)]).2.family
    (reached.forestAt 0).inclusion 1 3 = .ok (some .subset) ∧ reached.Below 0 1 3 ∧
      (reached.forestAt 0).inclusion 3 1 = .ok (some .superset) ∧
      (later.forestAt 0).inclusion 1 3 = .ok (some .subset) := by
  intro start commands reached later
  have fits : ∀ command ∈ commands, command.2.Fits (start.family.forestAt command.1) := by
    simp only [commands, List.forall_mem_cons]
    exact ⟨rfl, rfl, trivial, trivial, nofun⟩
  have planted : Family.ofSpecs? [{}] = some ⟨1, start.family⟩ := rfl
  rcases inclusion_known planted rfl commands fits 0 with ⟨below, mirrored, permanent⟩
  have known : (reached.forestAt 0).inclusion 1 3 = .ok (some .subset) := by decide +kernel
  have moreFits : ∀ command ∈ [((0 : Fin 1), Command.apply .intersection 1 2)],
      command.2.Fits (start.family.forestAt command.1) := by
    simp only [List.forall_mem_cons]
    exact ⟨trivial, nofun⟩
  have flat : (reached.forestAt 0).children = [] := by decide +kernel
  have included : reached.Below 0 1 3 := (below (Family.closed_of_flat flat) 1 3).1 known
  have mirror : (reached.forestAt 0).inclusion 3 1 = .ok (some .superset) :=
    (mirrored 1 3 (by decide)).mp known
  have kept : (later.forestAt 0).inclusion 1 3 = .ok (some .subset) :=
    permanent 1 3 .subset known (Session.start reached) _ (Session.family_start reached) moreFits
  exact ⟨known, included, mirror, kept⟩

end SetForest
