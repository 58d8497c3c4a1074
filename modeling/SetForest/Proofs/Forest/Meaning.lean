import SetForest.Forest.Combine
import SetForest.Proofs.Content.Order
import SetForest.Proofs.Storage.Canonical

namespace SetForest

/-!
# What the indices of a forest mean

A forest above others gives its indices a meaning in terms of what theirs mean:
which index answers an operation on two others, and which set lies within which.
Both are read off the stored contents alone.  No table of results and no filed
inclusion enters, so they are what those tables have to agree with.

An operation on an index and itself is settled without looking at the set, and
every set lies within itself.  Both are made part of the meaning, because an
element may name an index that its child forest has not handed out.

`Meaning.Lawful` collects the lattice laws that the answers of a forest rely
on.  They hold on each level if they hold on the levels below
(`Forest.WellStored.lawful_meaning`).
-/

/-- What the indices of one forest mean: which stand for a set, which answer an
operation on two others, and which lie within which. -/
structure Meaning where
  InUse : Index → Prop
  Answers : Operation → Index → Index → Index → Prop
  Within : Index → Index → Prop

namespace Meaning

/-- Results are determined by their operands, are related to them by the order,
and are given by the order where it relates the operands, or by the empty set. -/
structure Lawful (meaning : Meaning) : Prop where
  refl : ∀ a, meaning.Within a a
  antisymm : ∀ a b, meaning.Within a b → meaning.Within b a → a = b
  functional : ∀ operation a b r r', meaning.Answers operation a b r →
    meaning.Answers operation a b r' → r = r'
  symm : ∀ operation a b r, operation.isCommutative = true →
    meaning.Answers operation a b r → meaning.Answers operation b a r
  within_union : ∀ a b r, meaning.Answers .union a b r → meaning.Within a r
  intersection_within : ∀ a b r, meaning.Answers .intersection a b r → meaning.Within r a
  difference_within : ∀ a b r, meaning.Answers .difference a b r → meaning.Within r a
  union_of_within : ∀ a b, meaning.Within a b → meaning.Answers .union a b b
  intersection_of_within : ∀ a b, meaning.Within a b → meaning.Answers .intersection a b a
  self : ∀ operation a, meaning.InUse a → meaning.Answers operation a a
    (if operation = .difference then Index.empty else a)
  empty_right : ∀ operation a, meaning.InUse a → meaning.Answers operation a Index.empty
    (if operation = .intersection then Index.empty else a)
  empty_left : ∀ operation b, meaning.InUse b → meaning.Answers operation Index.empty b
    (if operation = .union then b else Index.empty)

/-- All that a meaning says is still said by a later one. -/
structure Le (meaning later : Meaning) : Prop where
  inUse : ∀ a, meaning.InUse a → later.InUse a
  answers : ∀ operation a b r, meaning.Answers operation a b r → later.Answers operation a b r
  within : ∀ a b, meaning.Within a b → later.Within a b

theorem Le.refl (meaning : Meaning) : meaning.Le meaning :=
  ⟨fun _ inUse => inUse, fun _ _ _ _ answers => answers, fun _ _ within => within⟩

/-- An index answers an operation on two that stand for sets. -/
structure Determines (meaning : Meaning) (operation : Operation) (a b r : Index) : Prop where
  answers : meaning.Answers operation a b r
  left : meaning.InUse a
  right : meaning.InUse b

theorem Le.determines {meaning later : Meaning} (le : meaning.Le later) {operation : Operation}
    {a b r : Index} (determines : meaning.Determines operation a b r) :
    later.Determines operation a b r :=
  ⟨le.answers operation a b r determines.answers, le.inUse a determines.left,
    le.inUse b determines.right⟩

end Meaning

namespace Forest

variable {K : Type} [Key K] {n : Nat}

/-- An index stands for a content, whether or not the content is resident. -/
def Denotes (forest : Forest K n) (index : Index) (content : Content K) : Prop :=
  forest.sets.Denotes index content

/-- An index stands for some content. -/
def InUse (forest : Forest K n) (index : Index) : Prop :=
  ∃ content, forest.Denotes index content

/-- An index answers an operation on two others. -/
def Answers (forest : Forest K n) (below : Fin n → Meaning) (operation : Operation)
    (a b r : Index) : Prop :=
  if a = b then
    if operation = .difference then r = Index.empty ∧ forest.InUse a
    else r = a
  else
    ∃ left right content, forest.Denotes a left ∧ forest.Denotes b right ∧
      forest.Denotes r content ∧
      Content.Joined operation forest.children (fun child => (below child).Answers operation)
        left right content

/-- The set of one index lies within that of another. -/
def Within (forest : Forest K n) (below : Fin n → Meaning) (a b : Index) : Prop :=
  a = b ∨ ∃ left right, forest.Denotes a left ∧ forest.Denotes b right ∧
    Content.Within forest.children (fun child => (below child).Within) left right

/-- The meaning of the indices of a forest, by that of the forests below. -/
def meaning (forest : Forest K n) (below : Fin n → Meaning) : Meaning :=
  ⟨forest.InUse, forest.Answers below, forest.Within below⟩

/-- Every index stands for exactly one set, and all of the sets are in order. -/
structure WellStored (forest : Forest K n) : Prop where
  canonical : forest.sets.Canonical
  empty : forest.Denotes Index.empty []
  increasing : ∀ index content, forest.Denotes index content → content.Increasing
  arity : ∀ index content, forest.Denotes index content →
    content.HasArity forest.children.length

variable {forest later : Forest K n} {below : Fin n → Meaning} {operation : Operation}
  {a b r : Index}

theorem answers_iff_of_ne (different : a ≠ b) :
    forest.Answers below operation a b r ↔
      ∃ left right content, forest.Denotes a left ∧ forest.Denotes b right ∧
        forest.Denotes r content ∧
        Content.Joined operation forest.children (fun child => (below child).Answers operation)
          left right content := by
  rw [Answers, if_neg different]

theorem answers_self_iff_of_ne (notDifference : operation ≠ .difference) :
    forest.Answers below operation a a r ↔ r = a := by
  rw [Answers, if_pos rfl, if_neg notDifference]

theorem answers_difference_self_iff :
    forest.Answers below .difference a a r ↔
      r = Index.empty ∧ forest.InUse a := by
  rw [Answers, if_pos rfl, if_pos rfl]

theorem answers_self (operation : Operation) (inUse : forest.InUse a) :
    forest.Answers below operation a a (if operation = .difference then Index.empty else a) := by
  by_cases isDifference : operation = .difference
  · subst operation
    exact answers_difference_self_iff.mpr ⟨rfl, inUse⟩
  · rw [if_neg isDifference]
    exact (answers_self_iff_of_ne isDifference).mpr rfl

theorem within_refl (forest : Forest K n) (below : Fin n → Meaning) (a : Index) :
    forest.Within below a a :=
  Or.inl rfl

/-- A content that can be read is one in the storage. -/
theorem content_eq_ok_iff (canonical : forest.sets.Canonical) {index : Index}
    {content : Content K} :
    forest.content index = .ok content ↔ forest.sets.get index = .ok content := by
  rw [Forest.content, checkIndex]
  split
  · exact Iff.rfl
  · next beyond =>
      constructor
      · exact nofun
      · exact fun read => absurd (canonical.lt_size (canonical.denotes_of_get read)) beyond

/-- What can be read is what the index stands for. -/
theorem denotes_of_content (canonical : forest.sets.Canonical) {index : Index}
    {content : Content K} (read : forest.content index = .ok content) :
    forest.Denotes index content :=
  canonical.denotes_of_get ((content_eq_ok_iff canonical).mp read)

/-- Indices are equal if and only if the contents are that they stand for. -/
theorem index_eq_iff (canonical : forest.sets.Canonical) {left right : Content K}
    (denotesLeft : forest.Denotes a left) (denotesRight : forest.Denotes b right) :
    a = b ↔ left = right := by
  constructor
  · rintro rfl
    exact canonical.unique denotesLeft denotesRight
  · rintro rfl
    exact Option.some.inj (denotesLeft.symm.trans denotesRight)

namespace WellStored

/-- A content belongs to one index. -/
theorem index_unique {content : Content K} {index other : Index}
    (denotes : forest.Denotes index content) (denotesOther : forest.Denotes other content) :
    index = other :=
  Option.some.inj (denotes.symm.trans denotesOther)

variable (stored : forest.WellStored) (lawful : ∀ child, (below child).Lawful)

include stored in
theorem content_unique {content other : Content K} {index : Index}
    (denotes : forest.Denotes index content) (denotesOther : forest.Denotes index other) :
    content = other :=
  stored.canonical.unique denotes denotesOther

include stored in
theorem inUse_of_lt {index : Index} (inside : index < forest.size) : forest.InUse index :=
  stored.canonical.exists_denotes inside

include stored in
/-- What can be read is what the index stands for. -/
theorem denotes_of_content {index : Index} {content : Content K}
    (read : forest.content index = .ok content) : forest.Denotes index content :=
  Forest.denotes_of_content stored.canonical read

include stored lawful in
theorem antisymm (included : forest.Within below a b) (includes : forest.Within below b a) :
    a = b := by
  rcases included with same | ⟨left, right, denotesLeft, denotesRight, forth⟩
  · exact same
  · rcases includes with same | ⟨right', left', denotesRight', denotesLeft', back⟩
    · exact same.symm
    · rcases stored.content_unique denotesLeft denotesLeft' with rfl
      rcases stored.content_unique denotesRight denotesRight' with rfl
      have same : left = right :=
        forth.antisymm (fun child => (lawful child).antisymm)
          (stored.increasing a left denotesLeft) (stored.increasing b right denotesRight)
          (stored.arity a left denotesLeft) (stored.arity b right denotesRight) back
      subst right
      exact index_unique denotesLeft denotesRight

include stored lawful in
theorem functional {r' : Index} (answers : forest.Answers below operation a b r)
    (answers' : forest.Answers below operation a b r') : r = r' := by
  by_cases same : a = b
  · subst b
    by_cases isDifference : operation = .difference
    · subst operation
      rw [answers_difference_self_iff] at answers answers'
      exact answers.1.trans answers'.1.symm
    · rw [answers_self_iff_of_ne isDifference] at answers answers'
      exact answers.trans answers'.symm
  · rw [answers_iff_of_ne same] at answers answers'
    rcases answers with ⟨left, right, content, denotesLeft, denotesRight, denotes, joined⟩
    rcases answers' with ⟨left', right', content', denotesLeft', denotesRight', denotes', joined'⟩
    rcases stored.content_unique denotesLeft denotesLeft' with rfl
    rcases stored.content_unique denotesRight denotesRight' with rfl
    have same : content = content' :=
      joined.functional (fun child => (lawful child).functional operation)
        (stored.increasing r content denotes) (stored.increasing r' content' denotes') joined'
    subst content'
    exact index_unique denotes denotes'

include lawful in
theorem symm (commutative : operation.isCommutative = true)
    (answers : forest.Answers below operation a b r) : forest.Answers below operation b a r := by
  by_cases same : a = b
  · subst b
    exact answers
  · rw [answers_iff_of_ne same] at answers
    rw [answers_iff_of_ne (Ne.symm same)]
    rcases answers with ⟨left, right, content, denotesLeft, denotesRight, denotes, joined⟩
    exact ⟨right, left, content, denotesRight, denotesLeft, denotes, joined.symm commutative
      (fun child x y z => (lawful child).symm operation x y z commutative)⟩

include lawful in
theorem within_union (answers : forest.Answers below .union a b r) :
    forest.Within below a r := by
  by_cases same : a = b
  · subst b
    rw [answers_self_iff_of_ne (by decide)] at answers
    exact Or.inl answers.symm
  · rw [answers_iff_of_ne same] at answers
    rcases answers with ⟨left, _, content, denotesLeft, _, denotes, joined⟩
    exact Or.inr ⟨left, content, denotesLeft, denotes,
      joined.within_union (fun child => (lawful child).refl)
        (fun child => (lawful child).within_union)⟩

include lawful in
theorem intersection_within (answers : forest.Answers below .intersection a b r) :
    forest.Within below r a := by
  by_cases same : a = b
  · subst b
    rw [answers_self_iff_of_ne (by decide)] at answers
    exact Or.inl answers
  · rw [answers_iff_of_ne same] at answers
    rcases answers with ⟨left, _, content, denotesLeft, _, denotes, joined⟩
    exact Or.inr ⟨content, left, denotes, denotesLeft,
      joined.within_left (by decide) (fun child => (lawful child).refl)
        (fun child => (lawful child).intersection_within)⟩

include stored lawful in
theorem difference_within (answers : forest.Answers below .difference a b r) :
    forest.Within below r a := by
  by_cases same : a = b
  · subst b
    rw [answers_difference_self_iff] at answers
    rcases answers with ⟨rfl, content, denotes⟩
    exact Or.inr ⟨[], content, stored.empty, denotes, nofun⟩
  · rw [answers_iff_of_ne same] at answers
    rcases answers with ⟨left, _, content, denotesLeft, _, denotes, joined⟩
    exact Or.inr ⟨content, left, denotes, denotesLeft,
      joined.within_left (by decide) (fun child => (lawful child).refl)
        (fun child => (lawful child).difference_within)⟩

include stored lawful in
theorem union_of_within (included : forest.Within below a b) :
    forest.Answers below .union a b b := by
  by_cases same : a = b
  · subst b
    exact (answers_self_iff_of_ne (by decide)).mpr rfl
  · rcases included.resolve_left same with ⟨left, right, denotesLeft, denotesRight, within⟩
    rw [answers_iff_of_ne same]
    exact ⟨left, right, right, denotesLeft, denotesRight, denotesRight,
      within.joined_union (fun child => (lawful child).union_of_within)
        (stored.arity b right denotesRight)⟩

include stored lawful in
theorem intersection_of_within (included : forest.Within below a b) :
    forest.Answers below .intersection a b a := by
  by_cases same : a = b
  · subst b
    exact (answers_self_iff_of_ne (by decide)).mpr rfl
  · rcases included.resolve_left same with ⟨left, right, denotesLeft, denotesRight, within⟩
    rw [answers_iff_of_ne same]
    exact ⟨left, right, left, denotesLeft, denotesRight, denotesLeft,
      within.joined_intersection (fun child => (lawful child).intersection_of_within)
        (stored.arity a left denotesLeft)⟩

include stored in
/-- With the empty set on the right, all is kept or nothing is. -/
theorem answers_empty_right (operation : Operation) (inUse : forest.InUse a) :
    forest.Answers below operation a Index.empty
      (if operation = .intersection then Index.empty else a) := by
  by_cases isEmpty : a = Index.empty
  · subst a
    have answers : forest.Answers below operation Index.empty Index.empty _ :=
      answers_self operation inUse
    rw [ite_self] at answers ⊢
    exact answers
  · rcases inUse with ⟨left, denotesLeft⟩
    rw [answers_iff_of_ne isEmpty]
    refine ⟨left, [], if operation = .intersection then [] else left, denotesLeft, stored.empty,
      ?_, ?_⟩
    · split
      · exact stored.empty
      · exact denotesLeft
    · intro key
      cases operation <;> cases found : left.find? key <;> first | exact found | rfl

include stored in
/-- With the empty set on the left, only a union keeps anything. -/
theorem answers_empty_left (operation : Operation) (inUse : forest.InUse b) :
    forest.Answers below operation Index.empty b
      (if operation = .union then b else Index.empty) := by
  by_cases isEmpty : b = Index.empty
  · subst b
    have answers : forest.Answers below operation Index.empty Index.empty _ :=
      answers_self operation inUse
    rw [ite_self] at answers ⊢
    exact answers
  · rcases inUse with ⟨right, denotesRight⟩
    rw [answers_iff_of_ne (Ne.symm isEmpty)]
    refine ⟨[], right, if operation = .union then right else [], stored.empty, denotesRight,
      ?_, ?_⟩
    · split
      · exact denotesRight
      · exact stored.empty
    · intro key
      cases operation <;> cases found : right.find? key <;> first | exact found | rfl

include stored lawful in
/-- The laws hold in a forest if they hold in the forests below. -/
theorem lawful_meaning : (forest.meaning below).Lawful where
  refl := within_refl forest below
  antisymm := fun _ _ => stored.antisymm lawful
  functional := fun _ _ _ _ _ => stored.functional lawful
  symm := fun _ _ _ _ => symm lawful
  within_union := fun _ _ _ => within_union lawful
  intersection_within := fun _ _ _ => intersection_within lawful
  difference_within := fun _ _ _ => stored.difference_within lawful
  union_of_within := fun _ _ => stored.union_of_within lawful
  intersection_of_within := fun _ _ => stored.intersection_of_within lawful
  self := fun operation _ => answers_self operation
  empty_right := fun operation _ => stored.answers_empty_right operation
  empty_left := fun operation _ => stored.answers_empty_left operation

include stored in
/-- In a forest without children, a difference that is its left operand shows
that the intersection is empty. -/
theorem disjoint (flat : forest.children = []) (different : a ≠ b)
    (answers : forest.Answers below .difference a b a) :
    forest.Answers below .intersection a b Index.empty := by
  rw [answers_iff_of_ne different] at answers ⊢
  rcases answers with ⟨left, right, content, denotesLeft, denotesRight, denotes, joined⟩
  rcases stored.content_unique denotesLeft denotes with rfl
  exact ⟨left, right, [], denotesLeft, denotesRight, stored.empty, joined.disjoint flat⟩

include stored in
/-- A part of a set lies within it. -/
theorem within_of_sublist (lawful : ∀ child, (below child).Lawful) {part content : Content K}
    (sublist : part.Sublist content) (denotesPart : forest.Denotes r part)
    (denotes : forest.Denotes a content) : forest.Within below r a :=
  Or.inr ⟨part, content, denotesPart, denotes,
    Content.within_of_sublist (fun child => (lawful child).refl)
      (stored.increasing a content denotes) sublist⟩

end WellStored

/-! ## Later states -/

/-- A later state of a forest: its indices denote what they denoted, and what was
filed is still filed. -/
structure Extends (forest later : Forest K n) : Prop where
  config : later.config = forest.config
  children : later.children = forest.children
  denotes : ∀ index content, forest.Denotes index content → later.Denotes index content
  filed : ∀ a b relation, forest.filedInclusion a b = some relation →
    later.filedInclusion a b = some relation

namespace Extends

theorem refl (forest : Forest K n) : forest.Extends forest :=
  ⟨rfl, rfl, fun _ _ denotes => denotes, fun _ _ _ filed => filed⟩

theorem trans {last : Forest K n} (first : forest.Extends later) (second : later.Extends last) :
    forest.Extends last where
  config := second.config.trans first.config
  children := second.children.trans first.children
  denotes := fun index content denotes =>
    second.denotes index content (first.denotes index content denotes)
  filed := fun a b relation filed => second.filed a b relation (first.filed a b relation filed)

/-- Answers stay answers, and the order is kept. -/
theorem meaning_le {laterBelow : Fin n → Meaning} (extension : forest.Extends later)
    (belowLe : ∀ child, (below child).Le (laterBelow child)) :
    (forest.meaning below).Le (later.meaning laterBelow) where
  inUse := fun index => Exists.imp (extension.denotes index)
  answers := by
    intro operation a b r answers
    change forest.Answers below operation a b r at answers
    change later.Answers laterBelow operation a b r
    by_cases same : a = b
    · subst b
      by_cases isDifference : operation = .difference
      · subst operation
        rw [answers_difference_self_iff] at answers ⊢
        exact ⟨answers.1, answers.2.imp (extension.denotes a)⟩
      · rw [answers_self_iff_of_ne isDifference] at answers ⊢
        exact answers
    · rw [answers_iff_of_ne same] at answers ⊢
      rcases answers with ⟨left, right, content, denotesLeft, denotesRight, denotes, joined⟩
      refine ⟨left, right, content, extension.denotes a left denotesLeft,
        extension.denotes b right denotesRight, extension.denotes r content denotes, ?_⟩
      intro key
      rw [extension.children]
      exact (joined key).mono (fun child => (belowLe child).answers operation)
  within := by
    intro a b included
    rcases included with same | ⟨left, right, denotesLeft, denotesRight, within⟩
    · exact Or.inl same
    · refine Or.inr ⟨left, right, extension.denotes a left denotesLeft,
        extension.denotes b right denotesRight, ?_⟩
      intro key first inLeft
      rcases within key first inLeft with ⟨second, inRight, childrenWithin⟩
      rw [extension.children]
      exact ⟨second, inRight, fun number child atChild =>
        (belowLe child).within _ _ (childrenWithin number child atChild)⟩

end Extends

end Forest

end SetForest
