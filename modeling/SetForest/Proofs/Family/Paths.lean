import SetForest.Proofs.Family.Residence
import SetForest.Proofs.Family.Similar
import SetForest.Proofs.Forest.Paths

namespace SetForest.Family

/-!
# Paths of the sets of a family

What `Forest.paths` and `Forest.Grounded` say above given forests is said here for
each position.  In a sound family every right answer has the paths that it should
have, and paths tell grounded sets apart.

While nothing has been evicted, a family is similar to itself in the sense of
`Resemblance.intact`.  All grounded sets are then resident, so operations on them
have answers.  Where the children of all stored elements are in use (`Closed`), no index
in use is anything but grounded.
-/

variable {K : Type} [Key K] {n : Nat}

/-- The paths of the sets at each position. -/
@[irreducible]
def paths (family : Family K n) : Fin n → Index → Set (Path K) :=
  fold Forest.paths family

/-- The sets at each position whose children are in use down to the bottom. -/
@[irreducible]
def Grounded (family : Family K n) : Fin n → Index → Prop :=
  fold Forest.Grounded family

section

variable (below : Family K n) (top : Forest K n) (position : Fin n)

theorem paths_last : (plant below top).paths (Fin.last n) = top.paths below.paths := by
  unfold paths
  exact fold_last below top Forest.paths

theorem paths_castSucc : (plant below top).paths position.castSucc = below.paths position := by
  unfold paths
  exact fold_castSucc below top position Forest.paths

theorem paths_eq (family : Family K n) :
    family.paths position = (family.forestAt position).paths
      (fun child => family.paths (childPosition position child)) := by
  unfold paths
  exact fold_eq Forest.paths family position

theorem grounded_last :
    (plant below top).Grounded (Fin.last n) = top.Grounded below.Grounded := by
  unfold Grounded
  exact fold_last below top Forest.Grounded

theorem grounded_castSucc :
    (plant below top).Grounded position.castSucc = below.Grounded position := by
  unfold Grounded
  exact fold_castSucc below top position Forest.Grounded

theorem grounded_eq (family : Family K n) :
    family.Grounded position = (family.forestAt position).Grounded
      (fun child => family.Grounded (childPosition position child)) := by
  unfold Grounded
  exact fold_eq Forest.Grounded family position

end

variable {family later : Family K n}

theorem Grounded.mono {position : Fin n} {index : Index}
    (grounded : family.Grounded position index) (extension : Extends family later) :
    later.Grounded position index := by
  induction extension generalizing index with
  | bare => exact position.elim0
  | plant extensionBelow extensionTop ih =>
      induction position using Fin.lastCases with
      | last =>
          rw [grounded_last] at grounded ⊢
          exact Forest.Grounded.mono grounded extensionTop (fun child x there => ih there)
      | cast position =>
          rw [grounded_castSucc] at grounded ⊢
          exact ih grounded

namespace Sound

/-- What a fold gets from the forests below holds at each position, by the meaning
there, if it holds of every forest above others. -/
theorem fold_holds {α : Type} {combine : {m : Nat} → Forest K m → (Fin m → α) → α}
    {holds : Meaning → α → Prop}
    (step : ∀ {m : Nat} (top : Forest K m) (below : Fin m → Meaning) (values : Fin m → α),
      top.WellStored → (∀ child, holds (below child) (values child)) →
      holds (top.meaning below) (combine top values))
    (sound : family.Sound) (position : Fin n) :
    holds (family.meaning position) (fold combine family position) := by
  induction sound with
  | bare => exact position.elim0
  | plant soundBelow soundTop ih =>
      induction position using Fin.lastCases with
      | last =>
          rw [meaning_last, fold_last]
          exact step _ _ _ soundTop.toWellStored ih
      | cast position =>
          rw [meaning_castSucc, fold_castSucc]
          exact ih position

theorem traces (sound : family.Sound) (position : Fin n) :
    (family.meaning position).Traces (family.paths position) := by
  unfold paths
  exact sound.fold_holds (fun _ _ _ stored tracesBelow => stored.traces tracesBelow) position

theorem keeps_grounded (sound : family.Sound) (position : Fin n) :
    (family.meaning position).Keeps (family.Grounded position) := by
  unfold Grounded
  exact sound.fold_holds (fun _ _ _ stored keepsBelow => stored.keeps_grounded keepsBelow) position

theorem not_mem_paths_empty (sound : family.Sound) (position : Fin n) (path : Path K) :
    path ∉ family.paths position Index.empty := by
  rw [paths_eq, (sound.forestAt position).toWellStored.paths_eq (sound.forestAt position).empty,
    Content.paths_nil]
  exact Set.notMem_empty path

/-- The paths of a set are those of its content. -/
theorem paths_of_content (sound : family.Sound) {position : Fin n} {index : Index}
    {content : Content K} (read : (family.forestAt position).content index = .ok content) :
    family.paths position index = content.paths (family.forestAt position).children
      (fun child => family.paths (childPosition position child)) := by
  have stored := (sound.forestAt position).toWellStored
  rw [paths_eq, stored.paths_eq (stored.denotes_of_content read)]

/-- Paths lead to the keys of a set. -/
theorem here_mem_paths_iff (sound : family.Sound) {position : Fin n} {index : Index}
    {content : Content K} (read : (family.forestAt position).content index = .ok content)
    {key : K} : Path.here key ∈ family.paths position index ↔ (content.find? key).isSome := by
  rw [sound.paths_of_content read, Option.isSome_iff_exists]
  exact exists_congr fun element => and_iff_left trivial

/-- Paths lead on from a key as they do from its children. -/
theorem down_mem_paths_iff (sound : family.Sound) {position : Fin n} {index : Index}
    {content : Content K} (read : (family.forestAt position).content index = .ok content)
    {key : K} {element : Element K} (found : content.find? key = some element) {number : Nat}
    {child : Fin position} (atChild : (family.forestAt position).children[number]? = some child)
    {rest : Path K} : Path.down key number rest ∈ family.paths position index ↔
      rest ∈ family.paths (childPosition position child) (element.child number) := by
  rw [sound.paths_of_content read]
  change Carried _ _ (content.find? key) _ ↔ _
  rw [found, carried_some, Element.carries_down_iff atChild]

/-- Grounded sets with the same paths are the same. -/
theorem ext_paths (sound : family.Sound) {position : Fin n} {a b : Index}
    (leftGrounded : family.Grounded position a) (rightGrounded : family.Grounded position b)
    (same : family.paths position a = family.paths position b) : a = b := by
  induction sound generalizing a b with
  | bare => exact position.elim0
  | plant soundBelow soundTop ih =>
      induction position using Fin.lastCases with
      | last =>
          rw [paths_last] at same
          rw [grounded_last] at leftGrounded rightGrounded
          refine soundTop.toWellStored.ext_paths ?_ leftGrounded rightGrounded same
          intro child x y leftBelow rightBelow
          exact ih leftBelow rightBelow
      | cast position =>
          rw [paths_castSucc] at same
          rw [grounded_castSucc] at leftGrounded rightGrounded
          exact ih leftGrounded rightGrounded same

/-- Grounded sets keep their paths. -/
theorem paths_extends (sound : family.Sound) (soundLater : later.Sound)
    (extension : Extends family later) {position : Fin n} {index : Index}
    (grounded : family.Grounded position index) :
    later.paths position index = family.paths position index := by
  induction extension generalizing index with
  | bare => exact position.elim0
  | plant extensionBelow extensionTop ih =>
      cases sound with
      | plant soundBelow soundTop =>
      cases soundLater with
      | plant soundLaterBelow soundLaterTop =>
      induction position using Fin.lastCases with
      | last =>
          rw [grounded_last] at grounded
          rw [paths_last, paths_last]
          exact soundTop.toWellStored.paths_extends soundLaterTop.toWellStored extensionTop
            (fun child x => ih soundBelow soundLaterBelow) grounded
      | cast position =>
          rw [grounded_castSucc] at grounded
          rw [paths_castSucc, paths_castSucc]
          exact ih soundBelow soundLaterBelow grounded

/-- Two families whose forests have the same children agree on the paths of results. -/
theorem agrees {other : Family K n} (sound : family.Sound) (soundOther : other.Sound)
    (children : Related (fun _ forest other => other.children = forest.children) family other)
    (position : Fin n) :
    (family.meaning position).Agrees (other.meaning position) (family.Grounded position)
      (other.Grounded position) (family.paths position) (other.paths position) := by
  induction children with
  | bare => exact position.elim0
  | plant childrenBelow childrenTop ih =>
      cases sound with
      | plant soundBelow soundTop =>
      cases soundOther with
      | plant soundOtherBelow soundOtherTop =>
      induction position using Fin.lastCases with
      | last =>
          rw [meaning_last, meaning_last, grounded_last, grounded_last, paths_last, paths_last]
          exact soundTop.toWellStored.agrees soundOtherTop.toWellStored childrenTop
            (fun _ _ _ => soundBelow.ext_paths) (fun _ _ _ => soundOtherBelow.ext_paths)
            (ih soundBelow soundOtherBelow)
      | cast position =>
          rw [meaning_castSucc, meaning_castSucc, grounded_castSucc, grounded_castSucc,
            paths_castSucc, paths_castSucc]
          exact ih soundBelow soundOtherBelow position

end Sound

/-! ## Intact families -/

/-- Everything that was ever stored in the family can be read. -/
def Intact (family : Family K n) : Prop :=
  ∀ position, (family.forestAt position).sets.Intact

theorem Intact.below {start : Family K n} {top : Forest K n} (intact : (plant start top).Intact) :
    start.Intact := by
  intro position
  have there := intact position.castSucc
  rw [forestAt_castSucc] at there
  exact there

theorem Intact.top {start : Family K n} {last : Forest K n} (intact : (plant start last).Intact) :
    last.sets.Intact := by
  have here := intact (Fin.last n)
  rw [forestAt_last] at here
  exact here

/-- Nothing is missing from a set that is in use down to the bottom. -/
theorem Grounded.resident {position : Fin n} {index : Index}
    (grounded : family.Grounded position index) (intact : family.Intact) :
    family.Resident position index := by
  induction family generalizing index with
  | bare => exact position.elim0
  | @plant n below top ih =>
      induction position using Fin.lastCases with
      | last =>
          rw [grounded_last] at grounded
          rw [resident_last]
          rcases grounded with ⟨content, denotes, children⟩
          refine ⟨content, intact.top index content denotes, ?_⟩
          intro element member number child atChild
          exact ih (children element member number child atChild) intact.below
      | cast position =>
          rw [grounded_castSucc] at grounded
          rw [resident_castSucc]
          exact ih grounded intact.below

/-- A sound family is similar to itself if it is intact. -/
theorem Sound.similar_self (sound : family.Sound) (intact : family.Intact) :
    Similar (.intact (Element K)) family family :=
  .of_forestAt fun position =>
    have canonical := (sound.forestAt position).canonical
    ⟨rfl, rfl, ⟨⟨canonical.wellFormed, canonical.wellFormed, rfl⟩, canonical, intact position⟩,
      rfl, rfl, rfl, rfl, fun _ => rfl, rfl⟩

theorem Similar.intact (similar : Similar (.intact (Element K)) family later) : later.Intact :=
  fun position => (similar.forestAt position).sets.2.2

/-- What can be read down to the bottom is in use down to the bottom. -/
theorem Resident.grounded {position : Fin n} {index : Index}
    (resident : family.Resident position index) (sound : family.Sound) :
    family.Grounded position index := by
  induction sound generalizing index with
  | bare => exact position.elim0
  | plant soundBelow soundTop ih =>
      induction position using Fin.lastCases with
      | last =>
          rw [resident_last] at resident
          rw [grounded_last]
          rcases resident with ⟨content, read, children⟩
          refine ⟨content, soundTop.canonical.denotes_of_get read, ?_⟩
          intro element member number child atChild
          exact ih (children element member number child atChild)
      | cast position =>
          rw [resident_castSucc] at resident
          rw [grounded_castSucc]
          exact ih resident

/-- Operations leave an intact family intact. -/
theorem Sound.intact_apply (sound : family.Sound) (intact : family.Intact) (operation : Operation)
    (position : Fin n) (a b : Index) : (Family.apply operation position a b family).2.Intact := by
  have agree : ∀ x y : Arena (Element K), (Resemblance.intact (Element K)).alike x y →
      ∀ index, x.isEvicted index = y.isEvicted index :=
    fun _ _ alike => Arena.isEvicted_congr alike.1.2.2
  have inStep := inStep_apply agree operation position a b (sound.similar_self intact)
  exact (inStep.eq_of_alike (fun _ excused => excused.1 trivial) (fun _ _ same => same)).2.intact

/-! ## Closed positions -/

/-- The children of all elements stored at a position are in use in their child
forests, and so on below.  A forest without children is closed. -/
inductive Closed (family : Family K n) : Fin n → Prop where
  | intro (position : Fin n)
      (children : ∀ index content, (family.forestAt position).Denotes index content →
        ∀ element ∈ content, ∀ number child,
          (family.forestAt position).children[number]? = some child →
          element.child number < (family.forestAt (childPosition position child)).size)
      (below : ∀ child ∈ (family.forestAt position).children,
        Closed family (childPosition position child)) :
      Closed family position

theorem closed_of_flat {position : Fin n} (flat : (family.forestAt position).children = []) :
    family.Closed position := by
  refine .intro position ?_ ?_
  · intro index content denotes element member number child atChild
    rw [flat] at atChild
    cases atChild
  · intro child member
    rw [flat] at member
    cases member

/-- Where a family is closed, every index in use is grounded. -/
theorem Sound.grounded_of_closed (sound : family.Sound) {position : Fin n}
    (closed : family.Closed position) {index : Index}
    (inside : index < (family.forestAt position).size) : family.Grounded position index := by
  induction closed generalizing index with
  | intro position children below ih =>
      rcases (sound.forestAt position).inUse_of_lt inside with ⟨content, denotes⟩
      rw [grounded_eq]
      refine ⟨content, denotes, ?_⟩
      intro element member number child atChild
      exact ih child (List.mem_of_getElem? atChild)
        (children index content denotes element member number child atChild)

end SetForest.Family
