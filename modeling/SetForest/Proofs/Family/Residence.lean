import SetForest.Proofs.Family.Sound
import SetForest.Proofs.Forest.Residence

namespace SetForest.Family

/-!
# Resident sets of a family

A set is resident if its content can be read, and those of its children, and so
on below.  An operation on resident sets has an answer.  The proof is about one
call after the other: each leaves what the later ones need, since no lattice
operation takes a content away.
-/

variable {K : Type} [Key K] {n : Nat}

/-- The sets at each position that can be read down to the bottom.  It is
irreducible, as there is nothing to be gained from computing with it. -/
@[irreducible]
def Resident (family : Family K n) : Fin n → Index → Prop :=
  fold Forest.Resident family

section

variable (below : Family K n) (top : Forest K n) (position : Fin n)

theorem resident_eq (family : Family K n) :
    family.Resident position = (family.forestAt position).Resident
      (fun child => family.Resident (childPosition position child)) := by
  unfold Resident
  exact fold_eq Forest.Resident family position

theorem resident_last :
    (plant below top).Resident (Fin.last n) = top.Resident below.Resident := by
  unfold Resident
  exact fold_last below top Forest.Resident

theorem resident_castSucc :
    (plant below top).Resident position.castSucc = below.Resident position := by
  unfold Resident
  exact fold_castSucc below top position Forest.Resident

end

/-- A set of a forest without children is resident if it can be read. -/
theorem resident_of_flat {family : Family K n} {position : Fin n} {index : Index}
    (flat : (family.forestAt position).children = [])
    (reads : ((family.forestAt position).sets.get index).toOption.isSome) :
    family.Resident position index := by
  rw [resident_eq]
  cases read : (family.forestAt position).sets.get index with
  | error error =>
      rw [read] at reads
      cases reads
  | ok content =>
      refine ⟨content, read, ?_⟩
      intro element member number child atChild
      rw [flat] at atChild
      cases atChild

/-- One level above, it is enough that the children can be read, too. -/
theorem resident_of_reads {family : Family K n} {position : Fin n} {index : Index}
    (content : Content K) (read : (family.forestAt position).sets.get index = .ok content)
    (childrenRead : ∀ element ∈ content, ∀ child ∈ (family.forestAt position).children.zipIdx,
      let forest := family.forestAt (childPosition position child.1)
      forest.children = [] ∧ (forest.sets.get (element.child child.2)).toOption.isSome) :
    family.Resident position index := by
  rw [resident_eq]
  refine ⟨content, read, ?_⟩
  intro element member number child atChild
  rcases childrenRead element member (child, number)
    (List.mem_zipIdx_iff_getElem?.mpr atChild) with ⟨flat, reads⟩
  exact resident_of_flat flat reads

/-- What could be read in a forest can be read in the later one at its position. -/
abbrev Retains (family later : Family K n) : Prop :=
  Related (fun _ => Forest.Retains fun _ => True) family later

/-- Lattice operations take no content away. -/
theorem retains_apply (operation : Operation) (position : Fin n) (a b : Index)
    (family : Family K n) : Retains family (apply operation position a b family).2 :=
  related_apply (fun _ => Forest.Retains.refl) (fun _ _ _ _ => Forest.Retains.trans)
    (fun _ _ _ _ _ => ⟨rfl, id, fun _ _ _ _ read => read⟩)
    (fun _ forest operation a b content => Forest.Retains.settle forest operation a b content)
    operation position a b family

theorem Resident.mono {family later : Family K n} {position : Fin n} {index : Index}
    (resident : family.Resident position index) (sound : family.Sound)
    (retains : Retains family later) : later.Resident position index := by
  induction retains generalizing index with
  | bare => exact position.elim0
  | plant retainsBelow retainsTop ih =>
      cases sound with
      | plant soundBelow soundTop =>
          induction position using Fin.lastCases with
          | last =>
              rw [resident_last] at resident ⊢
              exact resident.mono soundTop.canonical retainsTop
                (fun child x there => ih there soundBelow)
          | cast position =>
              rw [resident_castSucc] at resident ⊢
              exact ih resident soundBelow

/-! ## The empty set -/

/-- Every forest can read the empty set. -/
def ReadsEmpty (family : Family K n) : Prop :=
  ∀ position, (family.forestAt position).sets.get Index.empty = .ok []

namespace ReadsEmpty

theorem below {start : Family K n} {top : Forest K n} (reads : (plant start top).ReadsEmpty) :
    start.ReadsEmpty := by
  intro position
  have there := reads position.castSucc
  rw [forestAt_castSucc] at there
  exact there

theorem top {start : Family K n} {last : Forest K n} (reads : (plant start last).ReadsEmpty) :
    last.sets.get Index.empty = .ok [] := by
  have here := reads (Fin.last n)
  rw [forestAt_last] at here
  exact here

/-- No step takes the content of the empty set away. -/
theorem steps {family later : Family K n} (reads : family.ReadsEmpty) (sound : family.Sound)
    {admits : Content K → Prop} {position : Fin n} (steps : Steps admits position family later) :
    later.ReadsEmpty := by
  intro other
  have retains := steps.related (fun _ => Forest.Retains.refl) (fun _ _ _ _ => Forest.Retains.trans)
    (fun _ _ _ change => change.retains_empty)
    (fun _ forest operation a b content => Forest.Retains.settle forest operation a b content)
  exact (retains.forestAt other).read (sound.forestAt other).canonical Index.empty [] rfl
    (reads other)

end ReadsEmpty

/-! ## Operations on resident sets -/

/-- The calls of an alignment are answered if all their operands are resident. -/
theorem exists_callAll_of_resident {operation : Operation}
    (applies : ∀ (state : Family K n), state.Sound → ∀ child x y, state.Resident child x →
      state.Resident child y → ∃ r later, apply operation child x y state = (.ok r, later))
    {below : Family K n} (sound : below.Sound) (cells : List (Cell K n))
    (resident : ∀ cell ∈ cells, ∀ call ∈ cell.calls,
      below.Resident call.1 call.2.left ∧ below.Resident call.1 call.2.right) :
    ∃ content later, callAll operation cells below = (.ok content, later) := by
  let fit (state : Family K n) : Prop := state.Sound ∧ Retains below state
  have calls : ∀ cell ∈ cells, ∀ call ∈ cell.calls, ∀ state, fit state → ∃ r later,
      apply operation call.1 call.2.left call.2.right state = (.ok r, later) ∧ fit later := by
    rintro cell member call called state ⟨soundState, retained⟩
    rcases resident cell member call called with ⟨left, right⟩
    rcases applies state soundState call.1 _ _ (left.mono sound retained)
      (right.mono sound retained) with ⟨r, later, answered⟩
    have soundLater := (soundState.apply operation call.1 call.2.left call.2.right).holds
    have retains := retains_apply operation call.1 call.2.left call.2.right state
    rw [answered] at soundLater retains
    exact ⟨r, later, answered, soundLater, retained.trans (fun _ _ _ _ => .trans) retains⟩
  have start : fit below := ⟨sound, Related.refl (fun _ => Forest.Retains.refl) below⟩
  rcases exists_callAll cells calls start with ⟨content, later, answered, -⟩
  exact ⟨content, later, answered⟩

/-- The operands of the calls are children of the sets that are aligned. -/
theorem resident_calls {below : Family K n} {top : Forest K n} (stored : top.WellStored)
    (operation : Operation) {a b : Index} {left right : Content K}
    (leftRead : top.sets.get a = .ok left) (rightRead : top.sets.get b = .ok right)
    (leftResident : top.Resident below.Resident a) (rightResident : top.Resident below.Resident b) :
    ∀ cell ∈ Content.align operation top.children left right, ∀ call ∈ cell.calls,
      below.Resident call.1 call.2.left ∧ below.Resident call.1 call.2.right := by
  intro cell member call called
  rcases leftResident with ⟨left', leftRead', leftChildren⟩
  rcases rightResident with ⟨right', rightRead', rightChildren⟩
  cases leftRead.symm.trans leftRead'
  cases rightRead.symm.trans rightRead'
  rcases Content.mem_calls_align
    (stored.increasing a left (stored.canonical.denotes_of_get leftRead))
    (stored.increasing b right (stored.canonical.denotes_of_get rightRead)) member called with
      ⟨first, inLeft, second, inRight, -, number, atChild, operands⟩
  rw [operands]
  exact ⟨leftChildren first inLeft number call.1 atChild,
    rightChildren second inRight number call.1 atChild⟩

/-- An operation on resident sets has an answer. -/
theorem Sound.exists_apply {family : Family K n} (sound : family.Sound) (operation : Operation)
    {position : Fin n} {a b : Index} (leftResident : family.Resident position a)
    (rightResident : family.Resident position b) :
    ∃ r later, Family.apply operation position a b family = (.ok r, later) := by
  induction n generalizing a b with
  | zero => exact position.elim0
  | succ n ih =>
      cases sound with
      | @plant _ below top soundBelow soundTop =>
          induction position using Fin.lastCases with
          | cast position =>
              rw [resident_castSucc] at leftResident rightResident
              rcases ih soundBelow leftResident rightResident with ⟨r, later, answered⟩
              rw [apply_castSucc, onBelow_apply, answered]
              exact ⟨r, _, rfl⟩
          | last =>
              rw [resident_last] at leftResident rightResident
              rcases soundTop.exists_consulted soundBelow.lawful operation leftResident.exists_get
                rightResident.exists_get with ⟨answer, answers⟩
              have ways := application operation a b below top
              generalize Family.apply operation (Fin.last n) a b (.plant below top) = outcome
                at ways ⊢
              cases ways with
              | refused consulted =>
                  rw [consulted] at answers
                  cases answers
              | known consulted => exact ⟨_, _, rfl⟩
              | abandoned consulted failed =>
                  rcases Forest.reads_of_unknown (congrArg Prod.fst consulted) with
                    ⟨-, left, right, leftRead, rightRead, rfl⟩
                  have resident := resident_calls soundTop.toWellStored operation leftRead
                    rightRead leftResident rightResident
                  rcases exists_callAll_of_resident (fun _ soundState _ _ _ => ih soundState)
                    soundBelow _ resident with ⟨content, later, called⟩
                  rw [failed] at called
                  cases called
              | settled consulted succeeded => exact ⟨_, _, rfl⟩

end SetForest.Family
