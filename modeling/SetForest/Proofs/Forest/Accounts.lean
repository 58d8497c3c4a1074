import SetForest.Forest.Report
import SetForest.Proofs.Forest.Balance

namespace SetForest

/-!
# The accounts of a forest

The statistics of a forest account for all that has happened to it, if they balance
and if all computed results are remembered until something is evicted
(`Forest.Accounts`).  This is kept by each action, with one entry in the ledger for
whatever the action was asked to do and did.  An action that fails enters nothing.
-/

namespace Forest

variable {K : Type} [Key K] {n : Nat} {forest later : Forest K n} {ledger after : Ledger}
  {outcome : Outcome}

/-- The statistics of a forest account for all that has happened to it. -/
structure Accounts (forest : Forest K n) (ledger : Ledger) : Prop
    extends forest.Balanced 0 ledger where
  tabled : ledger .dropped = 0 → forest.Tabled

namespace Accounts

/-- Where no more results are remembered, only the balance matters. -/
theorem of_balanced (accounts : forest.Accounts ledger) (balanced : later.Balanced 0 after)
    (same : forest.SameResults later) (dropped : ledger .dropped ≤ after .dropped) :
    later.Accounts after := by
  refine ⟨balanced, fun nothing => (accounts.tabled ?_).of_same same⟩
  rw [nothing] at dropped
  exact Nat.le_zero.mp dropped

theorem of_eq (accounts : forest.Accounts ledger) (sets : later.sets = forest.sets)
    (counters : later.counters = forest.counters) (same : forest.SameResults later) :
    later.Accounts ledger :=
  accounts.of_balanced (accounts.toBalanced.of_eq sets counters same.memo) same (Nat.le_refl _)

theorem note (accounts : forest.Accounts ledger) (activity : Activity) :
    (forest.note activity).Accounts ledger := by
  refine accounts.of_eq ?_ ?_ (.note forest activity) <;> rw [note_eq]

theorem fileInclusion (accounts : forest.Accounts ledger) (sub sup : Index) :
    (forest.fileInclusion sub sup).Accounts ledger := by
  have same := SameResults.fileInclusion forest sub sup
  rcases forest.exists_fileInclusion_eq sub sup with ⟨inclusions, filed⟩
  rw [filed] at same ⊢
  exact accounts.of_eq rfl rfl same

/-! ## Registrations and filterings -/

/-- A registration that stores nothing is counted. -/
theorem tallyRegistration (accounts : forest.Accounts ledger) (known : outcome ≠ .coldMiss) :
    (forest.tallyRegistration outcome).Accounts (ledger.enter .registered) := by
  have recorded := forest.recorded_tallyRegistration outcome
  refine accounts.of_balanced (Balanced.recorded ?_ recorded nofun)
    (.tallyRegistration forest outcome) (Nat.le_refl _)
  rw [if_neg known]
  exact accounts.toBalanced

/-- A content that is registered is counted as new or as known. -/
theorem registered (accounts : forest.Accounts ledger) (content : Content K) :
    ((forest.intern content).2.tallyRegistration
      (if (forest.intern content).1.cold then .coldMiss else .hit)).Accounts
        (ledger.enter .registered) := by
  have recorded := (forest.intern content).2.recorded_tallyRegistration
    (if (forest.intern content).1.cold then .coldMiss else .hit)
  refine accounts.of_balanced (accounts.toBalanced.intern_recorded content recorded nofun ?_)
    ((SameResults.intern forest content).trans (.tallyRegistration _ _)) (Nat.le_refl _)
  cases (forest.intern content).1.cold <;> decide

theorem registerSet (accounts : forest.Accounts ledger) (content : Content K) :
    (Forest.registerSet content forest).2.Accounts
      (if (Forest.registerSet content forest).1.isOk then ledger.enter .registered
        else ledger) := by
  have noted := accounts.note .registration
  have ways := registration forest content
  generalize Forest.registerSet content forest = outcome at ways ⊢
  cases ways with
  | refused checks found => exact noted
  | empty isEmpty => exact noted.tallyRegistration nofun
  | stored accepted => exact noted.registered content

theorem registerSingle (accounts : forest.Accounts ledger) (element : Element K) :
    (Forest.registerSingle element forest).2.Accounts (ledger.enter .registered) :=
  accounts.registered [element]

theorem registerUnordered (accounts : forest.Accounts ledger) (elements : List (Element K)) :
    (Forest.registerUnordered elements forest).2.Accounts
      (if (Forest.registerUnordered elements forest).1.isOk then ledger.enter .registered
        else ledger) := by
  simp only [Forest.registerUnordered, Action.bind_apply, Action.liftExcept_apply]
  cases Content.check (Content.prepare elements) with
  | error error => exact accounts
  | ok _ => exact accounts.registerSet (Content.prepare elements)

/-- A filtering that stores nothing is counted. -/
theorem tallyFilter (accounts : forest.Accounts ledger) (known : outcome ≠ .coldMiss) :
    (forest.tallyFilter outcome).Accounts (ledger.enter .filtered) := by
  have recorded := forest.recorded_tallyFilter outcome
  refine accounts.of_balanced (Balanced.recorded ?_ recorded nofun)
    (.tallyFilter forest outcome) (Nat.le_refl _)
  rw [if_neg known]
  exact accounts.toBalanced

/-- The part that a filtering has sifted out is counted as new or as known. -/
theorem filtered (accounts : forest.Accounts ledger) (content : Content K) :
    ((forest.intern content).2.tallyFilter (.ofMiss (forest.intern content).1.cold)).Accounts
      (ledger.enter .filtered) := by
  have recorded := (forest.intern content).2.recorded_tallyFilter
    (.ofMiss (forest.intern content).1.cold)
  exact accounts.of_balanced
    (accounts.toBalanced.intern_recorded content recorded nofun (Outcome.ofMiss_eq_coldMiss_iff _))
    ((SameResults.intern forest content).trans (.tallyFilter _ _)) (Nat.le_refl _)

theorem filter (accounts : forest.Accounts ledger) (index : Index)
    (predicate : Element K → Bool) (cache : FilterCache) :
    (Forest.filter index predicate cache forest).2.Accounts
      (if (Forest.filter index predicate cache forest).1.isOk then ledger.enter .filtered
        else ledger) := by
  have noted := accounts.note .filtering
  have ways := filtering forest index predicate cache
  generalize Forest.filter index predicate cache forest = outcome at ways ⊢
  cases ways with
  | outside refused => exact noted
  | empty isEmpty => exact noted.tallyFilter nofun
  | lost unusable => exact noted
  | cached usable => exact noted.tallyFilter nofun
  | unread useless notRead => exact noted
  | sifted useless read =>
      rw [← fileInclusion_tallyFilter]
      exact (noted.filtered _).fileInclusion _ _

/-! ## Updates -/

/-- A content that an update stores is entered if it is new. -/
theorem extended (accounts : forest.Accounts ledger) (content : Content K) :
    (forest.intern content).2.Accounts
      (if forest.size < (forest.intern content).2.size then ledger.enter .extended
        else ledger) := by
  have interned := accounts.toBalanced.intern content
  have size : (forest.intern content).2.size =
      forest.size + if (forest.intern content).1.cold then 1 else 0 := by
    rw [intern_eq]
    simp only [decide_eq_true_eq]
    exact accounts.canonical.size_intern content
  have same := SameResults.intern forest content
  rw [size]
  cases cold : (forest.intern content).1.cold with
  | false =>
      rw [cold] at interned
      rw [if_neg (show ¬forest.size < forest.size + if false = true then 1 else 0 from
        Nat.lt_irrefl _)]
      exact accounts.of_balanced interned same (Nat.le_refl _)
  | true =>
      rw [cold] at interned
      rw [if_pos (show forest.size < forest.size + if true = true then 1 else 0 from
        Nat.lt_succ_self _)]
      exact accounts.of_balanced interned.enter_extended same (Nat.le_refl _)

theorem updateKey (accounts : forest.Accounts ledger) (index : Index) (element : Element K) :
    (Forest.updateKey index element forest).2.Accounts
      (if forest.size < (Forest.updateKey index element forest).2.size then
        ledger.enter .extended else ledger) := by
  have noted := accounts.note .keyUpdate
  have size : (forest.note .keyUpdate).size = forest.size := by
    rw [note_eq]
    rfl
  have ways := updating forest index element
  generalize Forest.updateKey index element forest = outcome at ways ⊢
  rw [← size]
  cases ways with
  | unread notRead =>
      rw [if_neg (Nat.lt_irrefl _)]
      exact noted
  | updated read => exact noted.extended _

theorem removeKey (accounts : forest.Accounts ledger) (index : Index) (key : K) :
    (Forest.removeKey index key forest).2.Accounts
      (if forest.size < (Forest.removeKey index key forest).2.size then
        ledger.enter .extended else ledger) := by
  have noted := accounts.note .keyRemoval
  have size : (forest.note .keyRemoval).size = forest.size := by
    rw [note_eq]
    rfl
  have ways := removal forest index key
  generalize Forest.removeKey index key forest = outcome at ways ⊢
  rw [← size]
  cases ways with
  | unread notRead =>
      rw [if_neg (Nat.lt_irrefl _)]
      exact noted
  | absent read notFound =>
      rw [if_neg (Nat.lt_irrefl _)]
      exact noted
  | @removed content position read found =>
      have extended := noted.extended (content.eraseIdx position)
      have filed := extended.fileInclusion
        ((forest.note .keyRemoval).intern (content.eraseIdx position)).1.index index
      rcases exists_fileInclusion_eq
        ((forest.note .keyRemoval).intern (content.eraseIdx position)).2
        ((forest.note .keyRemoval).intern (content.eraseIdx position)).1.index index with
          ⟨inclusions, same⟩
      dsimp only
      rw [same] at filed ⊢
      exact filed

/-! ## Evictions -/

/-- An eviction is entered if the content was resident. -/
theorem evict (accounts : forest.Accounts ledger) (index : Index) :
    (Forest.evict index forest).2.Accounts
      (if (Forest.evict index forest).1.isOk ∧ forest.isEvicted index = .ok false then
        ledger.enter .dropped else ledger) := by
  have ways := eviction forest index
  generalize Forest.evict index forest = outcome at ways ⊢
  cases ways with
  | refused error =>
      rw [if_neg fun both => nomatch both.1]
      exact accounts
  | @dropped resident sets notEmpty evicted =>
      have balanced := accounts.toBalanced.countEviction notEmpty evicted
      have same := SameResults.countEviction forest sets resident
      have reported := isEvicted_of_ok accounts.canonical
        (accounts.canonical.resident_of_evict evicted)
      cases resident with
      | false =>
          rw [if_neg fun both => by rw [reported] at both; cases both.2]
          exact accounts.of_balanced balanced same (Nat.le_refl _)
      | true =>
          rw [if_pos ⟨rfl, reported⟩]
          exact accounts.of_balanced balanced same (Nat.le_succ _)

/-! ## Lattice operations -/

/-- The outcomes of shortcuts are no misses. -/
theorem not_isMiss_of_shortcut {operation : Operation} {a b r : Index}
    (found : forest.shortcut operation a b = some (r, outcome)) : ¬outcome.IsMiss := by
  unfold shortcut at found
  split at found
  · cases found
    decide
  · split at found
    · cases found
      decide
    · split at found <;> cases found <;> decide

/-- An operation that needs no computation is counted. -/
theorem tallyOperation (accounts : forest.Accounts ledger) (operation : Operation)
    (notMissed : ¬outcome.IsMiss) :
    (forest.tallyOperation operation outcome).Accounts (ledger.enter (.applied operation)) := by
  have recorded := forest.recorded_tallyOperation operation outcome
  have balanced : (forest.tallyOperation operation outcome).Balanced 0
      (ledger.enter (.applied operation)) := by
    refine Balanced.recorded ?_ recorded nofun
    rw [if_neg fun cold => notMissed (Or.inl cold)]
    exact accounts.toBalanced
  exact accounts.of_balanced balanced (.tallyOperation forest operation notMissed) (Nat.le_refl _)

/-- A consultation that knows the result is counted, and any other only noted. -/
theorem consult (accounts : forest.Accounts ledger) (operation : Operation) (a b : Index) :
    (Forest.consult operation a b forest).2.Accounts
      (match (Forest.consult operation a b forest).1 with
        | .ok (.known _) => ledger.enter (.applied operation)
        | _ => ledger) := by
  have noted := accounts.note (.operation operation)
  have outcomes := consultation forest operation a b
  generalize Forest.consult operation a b forest = consulted at outcomes ⊢
  cases outcomes with
  | refused error => exact noted
  | shortcut result outcome leftInUse rightInUse found =>
      exact noted.tallyOperation operation (not_isMiss_of_shortcut found)
  | remembered result found leftInUse rightInUse resident =>
      exact noted.tallyOperation operation (by decide)
  | unknown left right different leftRead rightRead => exact noted

/-- A result that is to be computed was not remembered, if nothing was ever evicted. -/
theorem lookup_of_unknown (accounts : forest.Accounts ledger) {operation : Operation}
    {a b : Index} {cells : List (Cell K n)}
    (unknown : (Forest.consult operation a b forest).1 = .ok (.unknown cells))
    (nothing : ledger .dropped = 0) :
    (forest.memo operation).lookup (operation.operands a b) = none := by
  rcases reads_of_unknown unknown with ⟨-, left, right, leftRead, rightRead, -⟩
  have leftInUse := accounts.canonical.lt_size_of_get leftRead
  have rightInUse := accounts.canonical.lt_size_of_get rightRead
  have noneEvicted : forest.sets.evicted.card = 0 := by
    have counted := accounts.counted .dropped nofun
    have evictions := accounts.evictions
    rw [nothing] at counted
    rw [show forest.counters.evictions = 0 from counted] at evictions
    exact Nat.eq_zero_of_add_eq_zero_left evictions.symm
  cases found : forest.shortcut operation a b with
  | some answer =>
      rw [consult_of_shortcut leftInUse rightInUse found] at unknown
      cases unknown
  | none =>
      by_contra remembered
      rcases Option.ne_none_iff_exists'.mp remembered with ⟨r, inMemo⟩
      have inUse := accounts.handedOut operation _ r inMemo
      have resident : forest.sets.isEvicted r = .ok false := by
        rcases accounts.canonical.exists_denotes inUse with ⟨content, denotes⟩
        rcases accounts.canonical.exists_isEvicted denotes with ⟨dropped, told⟩
        cases dropped with
        | false => exact told
        | true =>
            have member : r ∈ forest.sets.evicted :=
              Finset.mem_filter.mpr ⟨Finset.mem_range.mpr inUse, told⟩
            rw [Finset.card_eq_zero.mp noneEvicted] at member
            exact absurd member (Finset.notMem_empty r)
      have told : forest.usable? ((forest.memo operation).lookup (operation.operands a b)) =
          .ok (some r) := by
        rw [inMemo, usable?, resident]
        rfl
      rw [consult_of_usable? leftInUse rightInUse found told] at unknown
      cases unknown

/-- A result that had to be computed is counted. -/
theorem settle (accounts : forest.Accounts ledger) (operation : Operation) (a b : Index)
    (content : Content K)
    (new : ledger .dropped = 0 →
      (forest.memo operation).lookup (operation.operands a b) = none) :
    (Forest.settle operation a b content forest).2.Accounts
      (ledger.enter (.applied operation)) := by
  refine ⟨accounts.toBalanced.settle operation a b content, fun nothing => ?_⟩
  exact (accounts.tabled nothing).settle operation a b content (new nothing)

theorem create (config : Config) (strategy : Strategy) (children : List (Fin n)) :
    (Forest.create config strategy children : Forest K n).Accounts (fun _ => 0) := by
  refine ⟨.create config strategy children, fun _ => ⟨?_, ?_, ?_⟩⟩
  · intro operation _
    cases operation <;> exact Table.size_empty
  · exact Nat.zero_le _
  · exact Nat.le_of_eq Table.size_empty

end Accounts

end Forest

end SetForest
