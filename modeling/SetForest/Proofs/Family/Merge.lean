import SetForest.Proofs.Content.Sets
import SetForest.Proofs.Family.Residence

namespace SetForest

/-!
# The plain way to compute a result

A forest that had no tables would merge the contents of the operands, and let the
child forests do the same for each key that both have.  `Family.merge` is that
computation, which in a lattice operation comes last, after the shortcuts and the
remembered results.

For resident operands both ways lead to the same content, because each of them
joins the two contents key by key, and only one increasing content does.  The
difference of a set with itself is the exception (`Forest.DropsKeys`).
-/

namespace Forest

variable {K : Type} [Key K] {n : Nat}

/-- What is left to the forests below by the merge of two contents. -/
def align (forest : Forest K n) (operation : Operation) (a b : Index) :
    Except Error (List (Cell K n)) := do
  let left ← forest.sets.get a
  let right ← forest.sets.get b
  return Content.align operation forest.children left right

variable {forest : Forest K n} {below : Fin n → Meaning} {operation : Operation} {a b r : Index}

theorem align_eq {left right : Content K} (leftRead : forest.sets.get a = .ok left)
    (rightRead : forest.sets.get b = .ok right) :
    forest.align operation a b = .ok (Content.align operation forest.children left right) := by
  rw [align, leftRead, rightRead]
  rfl

/-- What is left to the forests below is the alignment of what can be read. -/
theorem reads_of_align {cells : List (Cell K n)}
    (aligned : forest.align operation a b = .ok cells) :
    ∃ left right, forest.sets.get a = .ok left ∧ forest.sets.get b = .ok right ∧
      cells = Content.align operation forest.children left right := by
  unfold align at aligned
  cases leftRead : forest.sets.get a with
  | error error =>
      rw [leftRead] at aligned
      cases aligned
  | ok left =>
      cases rightRead : forest.sets.get b with
      | error error =>
          rw [leftRead, rightRead] at aligned
          cases aligned
      | ok right =>
          rw [leftRead, rightRead] at aligned
          cases aligned
          exact ⟨left, right, rfl, rfl, rfl⟩

/-- What was settled can be read. -/
theorem content_settle (canonical : forest.sets.Canonical) (content : Content K) :
    (settle operation a b content forest).2.content (settle operation a b content forest).1 =
      .ok content := by
  have index : (settle operation a b content forest).1 = (forest.sets.intern content).1.1 :=
    forest.index_intern content
  rcases forest.exists_settle_eq operation a b content with
    ⟨unions, intersections, differences, inclusions, counters, settled⟩
  have read := canonical.get_interned content
  rw [index, settled]
  exact (content_eq_ok_iff (canonical.intern content)).mpr read

namespace Sound

/-- What can be read is what an index stands for. -/
theorem content_iff_denotes (sound : forest.Sound below) {result : Content K}
    (read : forest.sets.get r = .ok result) (content : Content K) :
    forest.content r = .ok content ↔ forest.Denotes r content := by
  have denotes : forest.Denotes r result := sound.canonical.denotes_of_get read
  rw [content_eq_ok_iff sound.canonical, read, Except.ok.injEq]
  constructor
  · rintro rfl
    exact denotes
  · exact sound.toWellStored.content_unique denotes

theorem determines_of_known (sound : forest.Sound below) (lawful : ∀ child, (below child).Lawful)
    (known : (Forest.consult operation a b forest).1 = .ok (.known r)) :
    (forest.meaning below).Determines operation a b r := by
  rcases forest.exists_consult_eq operation a b with ⟨counters, activities, noted⟩
  have determines := (sound.consult lawful operation a b).2.1 r known
  rw [noted] at determines
  exact determines

/-- What the calls of a merge leave is the content of the right answer, unless the
operation drops the keys of its operand. -/
theorem denotes_iff_of_resolved (sound : forest.Sound below)
    (lawful : ∀ child, (below child).Lawful)
    (determines : (forest.meaning below).Determines operation a b r)
    {left right content : Content K} (leftRead : forest.sets.get a = .ok left)
    (rightRead : forest.sets.get b = .ok right)
    (resolved : List.Forall₂ (Cell.Resolves fun child => (below child).Answers operation)
      (Content.align operation forest.children left right) content) :
    forest.Denotes r content ↔ ¬forest.DropsKeys operation a b := by
  have stored := sound.toWellStored
  have denotesLeft := sound.canonical.denotes_of_get leftRead
  have denotesRight := sound.canonical.denotes_of_get rightRead
  rcases Content.joins_of_resolved (sound.increasing a left denotesLeft)
    (sound.increasing b right denotesRight) (sound.arity a left denotesLeft)
    (sound.arity b right denotesRight) resolved with
      ⟨increasing, arity, joined⟩
  constructor
  · rintro denotes ⟨rfl, rfl, nested, notEmpty⟩
    obtain rfl : r = Index.empty := (answers_difference_self_iff.mp determines.answers).1
    obtain rfl : content = [] := stored.content_unique denotes stored.empty
    -- The merge has kept the keys of the operand, so there are none.
    have keys := Content.Joined.keys_eq joined
    rw [if_pos ⟨rfl, nested⟩, Content.keys_nil] at keys
    obtain rfl := Content.eq_nil_of_keys keys.symm
    exact notEmpty (WellStored.index_unique denotesLeft stored.empty)
  · intro keeps
    rcases stored.exists_joined lawful determines keeps with
      ⟨left', right', other, denotesLeft', denotesRight', denotes, joinedOther⟩
    rcases stored.content_unique denotesLeft denotesLeft' with rfl
    rcases stored.content_unique denotesRight denotesRight' with rfl
    have same : content = other :=
      Content.Joined.functional (fun child => (lawful child).functional operation) increasing
        (stored.increasing r other denotes) joined joinedOther
    exact same ▸ denotes

end Sound

end Forest

namespace Family

variable {K : Type} [Key K] {n : Nat}

/-- Merge the contents of two sets, with no regard to what is known about them. -/
def merge (operation : Operation) : {n : Nat} → Fin n → Index → Index → FamilyM K n (Content K)
  | n + 1, position, a, b =>
    if below : position.val < n then onBelow (merge operation ⟨position, below⟩ a b)
    else do
      let cells ← onTop (do (← get).align operation a b)
      onBelow (callAll operation cells)

theorem merge_castSucc (operation : Operation) (position : Fin n) (a b : Index) :
    (merge operation position.castSucc a b : FamilyM K (n + 1) (Content K)) =
      onBelow (merge operation position a b) := by
  rw [merge, dif_pos (show position.castSucc.val < n from position.isLt)]
  rfl

/-- A merge at the last position fails if an operand cannot be read, and otherwise
makes the calls of the alignment. -/
theorem merge_last_eq (operation : Operation) (a b : Index) (below : Family K n)
    (top : Forest K n) :
    merge operation (Fin.last n) a b (.plant below top) =
      match top.align operation a b with
      | .error error => (.error error, .plant below top)
      | .ok cells => onBelow (callAll operation cells) (.plant below top) := by
  rw [merge, dif_neg (show ¬(Fin.last n).val < n from Nat.lt_irrefl n), Action.bind_apply,
    onTop_apply]
  simp only [Action.bind_apply, Action.get_apply, Action.liftExcept_apply]
  cases top.align operation a b <;> rfl

theorem merge_last {operation : Operation} {a b : Index} {below : Family K n} {top : Forest K n}
    {left right : Content K} (leftRead : top.sets.get a = .ok left)
    (rightRead : top.sets.get b = .ok right) :
    merge operation (Fin.last n) a b (.plant below top) =
      onBelow (callAll operation (Content.align operation top.children left right))
        (.plant below top) := by
  rw [merge_last_eq, Forest.align_eq leftRead rightRead]

/-- Whether the top forest knows the result or settles the merged content, the
answer stands for that content. -/
theorem Sound.exists_merge_last {below : Family K n} {top : Forest K n} (soundBelow : below.Sound)
    (soundTop : top.Sound below.meaning) (operation : Operation) {a b : Index}
    (leftResident : top.Resident below.Resident a) (rightResident : top.Resident below.Resident b)
    (emptyRead : top.sets.get Index.empty = .ok []) :
    ∃ r later content merged,
      Family.apply operation (Fin.last n) a b (.plant below top) = (.ok r, later) ∧
      merge operation (Fin.last n) a b (.plant below top) = (.ok content, merged) ∧
      ((later.forestAt (Fin.last n)).content r = .ok content ↔
        ¬top.DropsKeys operation a b) := by
  rcases leftResident.exists_get with ⟨left, leftRead⟩
  rcases rightResident.exists_get with ⟨right, rightRead⟩
  rcases exists_callAll_of_resident
    (fun _ soundState _ _ _ => soundState.exists_apply operation) soundBelow _
    (resident_calls soundTop.toWellStored operation leftRead rightRead leftResident
      rightResident) with ⟨content, mergedBelow, called⟩
  have resident : ∀ index, top.Resident below.Resident index →
      (Family.plant below top).Resident (Fin.last n) index := by
    intro index residentHere
    rw [resident_last]
    exact residentHere
  rcases (Sound.plant soundBelow soundTop).exists_apply operation (resident a leftResident)
    (resident b rightResident) with ⟨r, later, answered⟩
  refine ⟨r, later, content, .plant mergedBelow top, answered, ?_, ?_⟩
  · rw [merge_last leftRead rightRead, onBelow_apply, called]
  · have ways := application operation a b below top
    rw [answered] at ways
    cases ways with
    | known consulted =>
        have known := congrArg Prod.fst consulted
        rcases ensures_callAll (fun _ soundState => soundState.apply operation) soundBelow
          (Content.align operation top.children left right) with ⟨merged, extension, resolved⟩
        rw [called] at merged extension resolved
        rcases top.exists_consult_eq operation a b with ⟨counters, activities, noted⟩
        rw [consulted] at noted
        obtain rfl := noted
        rw [forestAt_last]
        -- The result was right before the calls of the merge, and so it is after them.
        have determines := ((Forest.Extends.refl top).meaning_le extension.meaning_le)
          |>.determines (soundTop.determines_of_known soundBelow.lawful known)
        rcases Forest.exists_get_of_known ⟨left, leftRead⟩ ⟨right, rightRead⟩ emptyRead known with
          ⟨result, resultRead⟩
        have soundMerged := soundTop.mono extension.meaning_le
        exact (soundMerged.content_iff_denotes resultRead content).trans
          (soundMerged.denotes_iff_of_resolved merged.lawful determines leftRead rightRead
            (resolved content rfl))
    | settled consulted succeeded =>
        rcases Forest.reads_of_unknown (congrArg Prod.fst consulted) with
          ⟨different, left', right', leftRead', rightRead', rfl⟩
        cases leftRead.symm.trans leftRead'
        cases rightRead.symm.trans rightRead'
        cases called.symm.trans succeeded
        have noted := (soundTop.consult soundBelow.lawful operation a b).1
        rw [consulted] at noted
        rw [forestAt_last, Forest.content_settle noted.sound.canonical content]
        exact iff_of_true rfl fun drops => different drops.2.1

/-- Resident sets can be merged, and an operation on them answers the index of the
merged content, except where it drops keys. -/
theorem Sound.exists_merge {family : Family K n} (sound : family.Sound) (operation : Operation)
    {position : Fin n} {a b : Index} (leftResident : family.Resident position a)
    (rightResident : family.Resident position b)
    (emptyRead : (family.forestAt position).sets.get Index.empty = .ok []) :
    ∃ r later content merged,
      Family.apply operation position a b family = (.ok r, later) ∧
      merge operation position a b family = (.ok content, merged) ∧
      ((later.forestAt position).content r = .ok content ↔
        ¬(family.forestAt position).DropsKeys operation a b) := by
  induction n generalizing a b with
  | zero => exact position.elim0
  | succ n ih =>
      cases sound with
      | @plant _ below top soundBelow soundTop =>
          induction position using Fin.lastCases with
          | cast position =>
              rw [resident_castSucc] at leftResident rightResident
              rw [forestAt_castSucc] at emptyRead
              rcases ih soundBelow leftResident rightResident emptyRead with
                ⟨r, later, content, merged, answered, computed, same⟩
              rw [apply_castSucc, onBelow_apply, answered, merge_castSucc, onBelow_apply, computed]
              refine ⟨r, _, content, _, rfl, rfl, ?_⟩
              rw [forestAt_castSucc, forestAt_castSucc]
              exact same
          | last =>
              rw [resident_last] at leftResident rightResident
              rw [forestAt_last] at emptyRead ⊢
              exact soundBelow.exists_merge_last soundTop operation leftResident rightResident
                emptyRead

end Family

end SetForest
