import SetForest.Proofs.Content.Paths
import SetForest.Proofs.Forest.Residence

namespace SetForest

/-!
# Paths of the sets of a forest

The indices of a forest have the paths of the contents that they stand for.  An
operation that is answered rightly bounds the paths of its result
(`Forest.WellStored.traces`).

An index is grounded if it is in use, and the children of its content are grounded in
the forests below.  Grounded indices with the same paths are the same
(`Forest.WellStored.ext_paths`), and operations on them lead to grounded results.
-/

namespace Meaning

variable {K : Type}

/-- Every answer has the paths that it should have. -/
def Traces (meaning : Meaning) (paths : Index → Set (Path K)) : Prop :=
  ∀ operation a b r, meaning.Answers operation a b r → ∀ path : Path K,
    operation.Bounds (path ∈ paths a) (path ∈ paths b) (path ∈ paths r)

/-- Answers to operations on the indices of a kind are of that kind. -/
def Keeps (meaning : Meaning) (kind : Index → Prop) : Prop :=
  ∀ operation a b r, meaning.Answers operation a b r → kind a → kind b → kind r

/-- Operands of two kinds that have the same paths lead to results with the same paths. -/
def Agrees (meaning other : Meaning) (kind kindOther : Index → Prop)
    (paths pathsOther : Index → Set (Path K)) : Prop :=
  ∀ operation a b r a' b' r', meaning.Answers operation a b r → other.Answers operation a' b' r' →
    kind a → kind b → kindOther a' → kindOther b' →
    paths a = pathsOther a' → paths b = pathsOther b' → paths r = pathsOther r'

end Meaning

namespace Forest

variable {K : Type} [Key K] {n : Nat} {forest later : Forest K n} {below : Fin n → Meaning}
  {pathsBelow : Fin n → Index → Set (Path K)} {operation : Operation} {a b r index : Index}

/-- The paths of the content that an index stands for. -/
def paths (forest : Forest K n) (pathsBelow : Fin n → Index → Set (Path K)) (index : Index) :
    Set (Path K) :=
  {path | ∃ content, forest.Denotes index content ∧
    path ∈ content.paths forest.children pathsBelow}

/-- An index stands for a content, whose children are grounded in the forests below. -/
def Grounded (forest : Forest K n) (groundedBelow : Fin n → Index → Prop) (index : Index) : Prop :=
  ∃ content, forest.Denotes index content ∧
    ∀ element ∈ content, ∀ number child, forest.children[number]? = some child →
      groundedBelow child (element.child number)

theorem Grounded.mono {groundedBelow groundedLater : Fin n → Index → Prop}
    (grounded : forest.Grounded groundedBelow index) (extension : forest.Extends later)
    (belowMono : ∀ child x, groundedBelow child x → groundedLater child x) :
    later.Grounded groundedLater index := by
  rcases grounded with ⟨content, denotes, children⟩
  refine ⟨content, extension.denotes index content denotes, ?_⟩
  intro element member number child atChild
  rw [extension.children] at atChild
  exact belowMono child _ (children element member number child atChild)

theorem Grounded.exists_denotes {groundedBelow : Fin n → Index → Prop}
    (grounded : forest.Grounded groundedBelow index) :
    ∃ content, forest.Denotes index content := by
  rcases grounded with ⟨content, denotes, -⟩
  exact ⟨content, denotes⟩

/-- The children of a grounded index are grounded. -/
theorem Grounded.child {groundedBelow : Fin n → Index → Prop} {content : Content K}
    {element : Element K} {number : Nat} {child : Fin n}
    (grounded : forest.Grounded groundedBelow index) (stored : forest.WellStored)
    (denotes : forest.Denotes index content) (member : element ∈ content)
    (atChild : forest.children[number]? = some child) :
    groundedBelow child (element.child number) := by
  rcases grounded with ⟨other, denotesOther, children⟩
  rcases stored.canonical.unique denotes denotesOther with rfl
  exact children element member number child atChild

namespace WellStored

variable (stored : forest.WellStored)

include stored

theorem paths_eq {content : Content K} (denotes : forest.Denotes index content) :
    forest.paths pathsBelow index = content.paths forest.children pathsBelow := by
  ext path
  constructor
  · rintro ⟨other, denotesOther, member⟩
    exact stored.content_unique denotesOther denotes ▸ member
  · exact fun member => ⟨content, denotes, member⟩

/-- Grounded indices keep their paths if it is so in the forests below. -/
theorem paths_extends {groundedBelow : Fin n → Index → Prop}
    {pathsLater : Fin n → Index → Set (Path K)} (storedLater : later.WellStored)
    (extension : forest.Extends later)
    (belowSame : ∀ child x, groundedBelow child x → pathsLater child x = pathsBelow child x)
    (grounded : forest.Grounded groundedBelow index) :
    later.paths pathsLater index = forest.paths pathsBelow index := by
  rcases grounded.exists_denotes with ⟨content, denotes⟩
  rw [stored.paths_eq denotes, storedLater.paths_eq (extension.denotes index content denotes),
    extension.children]
  apply Content.paths_congr
  intro element member number child atChild
  exact belowSame child _ (grounded.child stored denotes member atChild)

/-- Answers have the paths that they should have if it is so in the forests below. -/
theorem traces (tracesBelow : ∀ child, (below child).Traces (pathsBelow child)) :
    (forest.meaning below).Traces (forest.paths pathsBelow) := by
  intro operation a b r answers path
  change forest.Answers below operation a b r at answers
  by_cases same : a = b
  · subst b
    by_cases isDifference : operation = .difference
    · subst operation
      rcases answers_difference_self_iff.mp answers with ⟨rfl, -⟩
      rw [stored.paths_eq stored.empty, Content.paths_nil]
      exact ⟨fun both => absurd both.1 both.2, fun member => member.elim⟩
    · rcases (answers_self_iff_of_ne isDifference).mp answers with rfl
      cases operation with
      | union => exact (or_self_iff).symm
      | intersection => exact (and_self_iff).symm
      | difference => exact absurd rfl isDifference
  · rcases (answers_iff_of_ne same).mp answers with
      ⟨left, right, content, denotesLeft, denotesRight, denotes, joined⟩
    rw [stored.paths_eq denotesLeft, stored.paths_eq denotesRight, stored.paths_eq denotes]
    exact joined.bounds (fun child => tracesBelow child operation) path

/-- Grounded indices with the same paths are the same if it is so in the forests below. -/
theorem ext_paths {groundedBelow : Fin n → Index → Prop}
    (extBelow : ∀ child x y, groundedBelow child x → groundedBelow child y →
      pathsBelow child x = pathsBelow child y → x = y)
    (leftGrounded : forest.Grounded groundedBelow a)
    (rightGrounded : forest.Grounded groundedBelow b)
    (same : forest.paths pathsBelow a = forest.paths pathsBelow b) : a = b := by
  rcases leftGrounded with ⟨left, denotesLeft, leftChildren⟩
  rcases rightGrounded with ⟨right, denotesRight, rightChildren⟩
  rw [stored.paths_eq denotesLeft, stored.paths_eq denotesRight] at same
  have sameContent : left = right := by
    refine Content.ext_paths (stored.increasing a left denotesLeft)
      (stored.increasing b right denotesRight) (stored.arity a left denotesLeft)
      (stored.arity b right denotesRight) ?_ same
    intro first inLeft second inRight number child atChild
    exact extBelow child _ _ (leftChildren first inLeft number child atChild)
      (rightChildren second inRight number child atChild)
  subst right
  exact index_unique denotesLeft denotesRight

/-- Operations on grounded indices lead to grounded ones if it is so in the forests
below. -/
theorem keeps_grounded {groundedBelow : Fin n → Index → Prop}
    (keepsBelow : ∀ child, (below child).Keeps (groundedBelow child)) :
    (forest.meaning below).Keeps (forest.Grounded groundedBelow) := by
  intro operation a b r answers leftGrounded rightGrounded
  change forest.Answers below operation a b r at answers
  by_cases same : a = b
  · subst b
    by_cases isDifference : operation = .difference
    · subst operation
      rcases answers_difference_self_iff.mp answers with ⟨rfl, -⟩
      exact ⟨[], stored.empty, nofun⟩
    · rcases (answers_self_iff_of_ne isDifference).mp answers with rfl
      exact leftGrounded
  · rcases (answers_iff_of_ne same).mp answers with
      ⟨left, right, content, denotesLeft, denotesRight, denotes, joined⟩
    rcases leftGrounded with ⟨left', denotesLeft', leftChildren⟩
    rcases rightGrounded with ⟨right', denotesRight', rightChildren⟩
    rcases stored.content_unique denotesLeft denotesLeft' with rfl
    rcases stored.content_unique denotesRight denotesRight' with rfl
    refine ⟨content, denotes, ?_⟩
    intro element member number child atChild
    have joins := joined element.key
    rw [(Content.find?_eq_some_iff (stored.increasing r content denotes)).mpr ⟨member, rfl⟩]
      at joins
    rcases Content.origin_of_joins joins with
      inLeft | inRight | ⟨first, second, inLeft, inRight, combined⟩
    · exact leftChildren element (Content.mem_of_find? inLeft) number child atChild
    · exact rightChildren element (Content.mem_of_find? inRight) number child atChild
    · exact keepsBelow child _ _ _ _ (combined.child number child atChild)
        (leftChildren first (Content.mem_of_find? inLeft) number child atChild)
        (rightChildren second (Content.mem_of_find? inRight) number child atChild)

/-- Two forests above the same children agree on the paths of results if it is so in the
forests below, where paths have to tell grounded indices apart. -/
theorem agrees {other : Forest K n} {belowOther : Fin n → Meaning}
    {pathsOther : Fin n → Index → Set (Path K)} {groundedBelow groundedOther : Fin n → Index → Prop}
    (storedOther : other.WellStored) (children : other.children = forest.children)
    (extBelow : ∀ child x y, groundedBelow child x → groundedBelow child y →
      pathsBelow child x = pathsBelow child y → x = y)
    (extOther : ∀ child x y, groundedOther child x → groundedOther child y →
      pathsOther child x = pathsOther child y → x = y)
    (agreesBelow : ∀ child, (below child).Agrees (belowOther child) (groundedBelow child)
      (groundedOther child) (pathsBelow child) (pathsOther child)) :
    (forest.meaning below).Agrees (other.meaning belowOther) (forest.Grounded groundedBelow)
      (other.Grounded groundedOther) (forest.paths pathsBelow) (other.paths pathsOther) := by
  intro operation a b r a' b' r' answers answersOther leftGrounded rightGrounded
    leftGroundedOther rightGroundedOther leftSame rightSame
  change forest.Answers below operation a b r at answers
  change other.Answers belowOther operation a' b' r' at answersOther
  by_cases same : a = b
  · subst b
    have sameOther : a' = b' := storedOther.ext_paths extOther leftGroundedOther
      rightGroundedOther (leftSame.symm.trans rightSame)
    subst b'
    by_cases isDifference : operation = .difference
    · subst operation
      rcases answers_difference_self_iff.mp answers with ⟨rfl, -⟩
      rcases answers_difference_self_iff.mp answersOther with ⟨rfl, -⟩
      rw [stored.paths_eq stored.empty, storedOther.paths_eq storedOther.empty,
        Content.paths_nil, Content.paths_nil]
    · rcases (answers_self_iff_of_ne isDifference).mp answers with rfl
      rcases (answers_self_iff_of_ne isDifference).mp answersOther with rfl
      exact leftSame
  · have differentOther : a' ≠ b' := by
      rintro rfl
      exact same (stored.ext_paths extBelow leftGrounded rightGrounded
        (leftSame.trans rightSame.symm))
    rcases (answers_iff_of_ne same).mp answers with
      ⟨left, right, content, denotesLeft, denotesRight, denotes, joined⟩
    rcases (answers_iff_of_ne differentOther).mp answersOther with
      ⟨left', right', content', denotesLeft', denotesRight', denotes', joined'⟩
    rw [stored.paths_eq denotesLeft, storedOther.paths_eq denotesLeft', children,
      Content.paths_eq_iff] at leftSame
    rw [stored.paths_eq denotesRight, storedOther.paths_eq denotesRight', children,
      Content.paths_eq_iff] at rightSame
    rw [stored.paths_eq denotes, storedOther.paths_eq denotes', children, Content.paths_eq_iff]
    rw [children] at joined'
    intro key
    refine (joined key).samePaths (joined' key) (leftSame key) (rightSame key) ?_
    intro x inLeft y inRight x' inLeft' y' inRight' number child z z' atChild answered answered'
      sameFirst sameSecond
    have atChildOther : other.children[number]? = some child := children ▸ atChild
    exact agreesBelow child operation _ _ _ _ _ _ answered answered'
      (leftGrounded.child stored denotesLeft (Content.mem_of_find? inLeft) atChild)
      (rightGrounded.child stored denotesRight (Content.mem_of_find? inRight) atChild)
      (leftGroundedOther.child storedOther denotesLeft' (Content.mem_of_find? inLeft')
        atChildOther)
      (rightGroundedOther.child storedOther denotesRight' (Content.mem_of_find? inRight')
        atChildOther)
      sameFirst sameSecond

end WellStored

end Forest

end SetForest
