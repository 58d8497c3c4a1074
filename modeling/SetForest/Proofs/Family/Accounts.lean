import SetForest.Proofs.Family.Journal
import SetForest.Proofs.Family.Planting

namespace SetForest.Family

/-!
# The accounts of a family

A journal tells of each position what has happened there, and the statistics of the
forest have to account for that.  An operation at one position enters nothing at later
ones, so while the forests below are at work the accounts of a forest do not change.
Its own entry is made when its own counters are.
-/

variable {K : Type} [Key K] {n : Nat} {α : Type}

/-- The statistics of every forest account for what the journal has of it. -/
def Accounts (journal : Journal) (family : Family K n) : Prop :=
  ∀ position : Fin n, (family.forestAt position).Accounts (journal.ledger position)

namespace Accounts

variable {family : Family K n} {journal : Journal}

theorem below {start : Family K n} {top : Forest K n}
    (accounts : Accounts journal (plant start top)) : Accounts journal start := by
  intro position
  have here := accounts position.castSucc
  rw [forestAt_castSucc] at here
  exact here

theorem top {start : Family K n} {last : Forest K n}
    (accounts : Accounts journal (plant start last)) : last.Accounts (journal.ledger n) := by
  have here := accounts (Fin.last n)
  rw [forestAt_last] at here
  exact here

theorem plant {start : Family K n} {last : Forest K n} (accountsBelow : Accounts journal start)
    (accountsTop : last.Accounts (journal.ledger n)) : Accounts journal (plant start last) := by
  intro position
  induction position using Fin.lastCases with
  | last =>
      rw [forestAt_last]
      exact accountsTop
  | cast position =>
      rw [forestAt_castSucc]
      exact accountsBelow position

end Accounts

/-- What a journal of the first `n` positions leaves alone: all other positions, and the
number of evictions. -/
structure Apart (n : Nat) (journal later : Journal) : Prop where
  elsewhere : ∀ position, n ≤ position → later.ledger position = journal.ledger position
  dropped : ∀ position, later.ledger position .dropped = journal.ledger position .dropped

namespace Apart

theorem refl (n : Nat) (journal : Journal) : Apart n journal journal :=
  ⟨fun _ _ => rfl, fun _ => rfl⟩

theorem trans {journal later last : Journal} (first : Apart n journal later)
    (second : Apart n later last) : Apart n journal last where
  elsewhere := fun position outside =>
    (second.elsewhere position outside).trans (first.elsewhere position outside)
  dropped := fun position => (second.dropped position).trans (first.dropped position)

theorem mono {journal later : Journal} (apart : Apart n journal later) :
    Apart (n + 1) journal later :=
  ⟨fun position outside => apart.elsewhere position (Nat.le_of_succ_le outside), apart.dropped⟩

/-- Events other than evictions may be entered. -/
theorem concat (journal : Journal) {position : Nat} {event : Event} (inside : position < n)
    (notDropped : event ≠ .dropped) : Apart n journal (journal ++ [(position, event)]) := by
  refine ⟨?_, ?_⟩
  · intro other outside
    rw [Journal.ledger_concat, if_neg (Nat.ne_of_gt (Nat.lt_of_lt_of_le inside outside))]
  · exact fun other => Journal.ledger_concat_of_event_ne (Ne.symm notDropped)

end Apart

/-- What an action with a journal does is accounted for, at the first `n` positions. -/
abbrev Balances (state : Family K n × Journal) (action : JournaledM K n α) : Prop :=
  Action.Ensures (fun reached : Family K n × Journal => Accounts reached.2 reached.1)
    (fun first second => Apart n first.2 second.2) state action (fun _ _ => True)

/-- The forest above has no part in what happens below. -/
theorem balances_below {below : Family K n} {top : Forest K n} {journal : Journal}
    {action : JournaledM K n α} (balances : Balances (below, journal) action)
    (accounts : top.Accounts (journal.ledger n)) :
    Balances (.plant below top, journal) (journaledBelow action) := by
  rcases balances with ⟨accountsBelow, apart, -⟩
  refine ⟨Accounts.plant accountsBelow ?_, apart.mono, fun _ _ => trivial⟩
  change top.Accounts ((action (below, journal)).2.2.ledger n)
  rw [apart.elsewhere n (Nat.le_refl n)]
  exact accounts

/-- The calls of an alignment are accounted for, if single operations are. -/
theorem balances_callAll {operation : Operation}
    (applies : ∀ child x y (state : Family K n × Journal), Accounts state.2 state.1 →
      Balances state (Family.applyJournaled operation child x y))
    {state : Family K n × Journal} (accounts : Accounts state.2 state.1)
    (cells : List (Cell K n)) : Balances state (callAllJournaled operation cells) := by
  have called : Action.Ensures (fun reached : Family K n × Journal => Accounts reached.2 reached.1)
      (fun first second => Apart n first.2 second.2) state (callAllJournaled operation cells)
      (fun content _ => List.Forall₂ (Cell.Resolves fun _ _ _ _ => True) cells content) :=
    Cell.ensures_resolveAll (fun _ => .refl n _) (fun _ _ _ first second => first.trans second)
      (fun _ _ _ _ _ _ _ known => known) (fun child x y => applies child x y) cells accounts
  exact ⟨called.holds, called.advances, fun _ _ => trivial⟩

/-- An operation at the last position is accounted for, if the calls that it makes are. -/
theorem accounts_applyJournaled_last (operation : Operation) (a b : Index) {below : Family K n}
    {top : Forest K n} {journal : Journal} (accounts : Accounts journal (.plant below top))
    (calls : ∀ cells, Balances (below, journal) (callAllJournaled operation cells)) :
    let reached := (Family.applyJournaled operation (Fin.last n) a b (.plant below top, journal)).2
    Accounts reached.2 reached.1 ∧ Apart (n + 1) journal reached.2 := by
  intro reached
  have consulted := accounts.top.consult operation a b
  have entered : ∀ later, Apart (n + 1) later (later ++ [(n, .applied operation)]) :=
    fun later => .concat later (Nat.lt_succ_self n) nofun
  -- An entry for the top forest does not concern those below.
  have belowEntered : ∀ {later : Family K n} {reached : Journal}, Accounts reached later →
      Accounts (reached ++ [(n, .applied operation)]) later := by
    intro later reached accountsLater position
    rw [Journal.ledger_concat, if_neg (Nat.ne_of_lt position.isLt)]
    exact accountsLater position
  have result : reached = _ :=
    congrArg Prod.snd (applyJournaled_last operation a b below top journal)
  rw [result]
  cases outcome : Forest.consult operation a b top with
  | mk answer noted =>
      rw [outcome] at consulted
      cases answer with
      | error error => exact ⟨accounts.below.plant consulted, .refl _ _⟩
      | ok answer =>
          cases answer with
          | known r =>
              refine ⟨(belowEntered accounts.below).plant ?_, entered journal⟩
              rw [Journal.ledger_concat, if_pos rfl]
              exact consulted
          | unknown cells =>
              have called := calls cells
              dsimp only
              cases made : callAllJournaled operation cells (below, journal) with
              | mk content after =>
                  rcases called with ⟨accountsLater, apart, -⟩
                  rw [made] at accountsLater apart
                  have topLater : noted.Accounts (after.2.ledger n) := by
                    rw [apart.elsewhere n (Nat.le_refl n)]
                    exact consulted
                  cases content with
                  | error error => exact ⟨accountsLater.plant topLater, apart.mono⟩
                  | ok content =>
                      refine ⟨(belowEntered accountsLater).plant ?_,
                        apart.mono.trans (entered after.2)⟩
                      rw [Journal.ledger_concat, if_pos rfl]
                      refine topLater.settle operation a b content ?_
                      intro nothing
                      have memo := top.memo_consult operation operation a b
                      rw [outcome] at memo
                      rw [apart.elsewhere n (Nat.le_refl n)] at nothing
                      rw [memo]
                      exact accounts.top.lookup_of_unknown (congrArg Prod.fst outcome) nothing

/-- An operation is accounted for in all forests that it works in. -/
theorem Accounts.applyJournaled (operation : Operation) (position : Fin n) (a b : Index)
    {state : Family K n × Journal} (accounts : Accounts state.2 state.1) :
    Balances state (Family.applyJournaled operation position a b) := by
  induction n generalizing a b with
  | zero => exact position.elim0
  | succ n ih =>
      rcases state with ⟨family, journal⟩
      cases family with
      | plant below top =>
          induction position using Fin.lastCases with
          | cast position =>
              rw [applyJournaled_castSucc]
              exact balances_below (ih position a b accounts.below) accounts.top
          | last =>
              have both := accounts_applyJournaled_last operation a b accounts
                (balances_callAll (fun child x y state here => ih child x y here)
                  accounts.below)
              exact ⟨both.1, both.2, fun _ _ => trivial⟩

/-! ## Other actions -/

/-- What an action does at its position is entered there. -/
theorem Accounts.within {family : Family K n} {journal : Journal}
    (accounts : Accounts journal family) (action : {m : Nat} → ForestM K m α) (position : Fin n) {occurred : Prop}
    [Decidable occurred] {event : Event}
    (here : (action (family.forestAt position)).2.Accounts
      (if occurred then (journal.ledger position).enter event else journal.ledger position)) :
    Accounts (journal.enterIf occurred position event)
      (Family.within action position family).2 := by
  intro other
  by_cases same : other = position
  · subst other
    rw [Journal.ledger_enterIf_self, (within_apply action family position).2]
    exact here
  · rw [Journal.ledger_enterIf_of_ne fun equal => same (Fin.ext equal),
      forestAt_within_of_ne action family same]
    exact accounts other

theorem Accounts.applySingleJournaled (operation : Operation) (position : Fin n) (a : Index)
    (element : Element K) {state : Family K n × Journal} (accounts : Accounts state.2 state.1) :
    Balances state (Family.applySingleJournaled operation position a element) := by
  have registered : Balances state (answered position .registered
      (unrecorded (Family.within (ExceptT.lift (Forest.registerSingle element)) position))) := by
    have stored : Accounts (state.2.enterIf True position .registered)
        (Family.within (ExceptT.lift (Forest.registerSingle element)) position state.1).2 :=
      accounts.within _ position ((accounts position).registerSingle element)
    rw [Journal.enterIf, if_pos trivial] at stored
    have succeeds : (Family.within (ExceptT.lift (Forest.registerSingle element)) position
        state.1).1 = .ok (Forest.registerSingle element (state.1.forestAt position)).1 :=
      (within_apply (ExceptT.lift (Forest.registerSingle element)) state.1 position).1
    have reached : (answered position .registered (unrecorded (Family.within
        (ExceptT.lift (Forest.registerSingle element)) position)) state).2 =
          ((Family.within (ExceptT.lift (Forest.registerSingle element)) position state.1).2,
            state.2 ++ [(position.val, .registered)]) := by
      rw [answered, Action.bind_apply, unrecorded, succeeds]
      rfl
    refine ⟨?_, ?_, fun _ _ => trivial⟩ <;> rw [reached]
    · exact stored
    · exact .concat state.2 position.isLt (by decide)
  refine registered.bind (fun _ _ _ first second => first.trans second) ?_
  intro single after accountsAfter _ _
  exact accountsAfter.applyJournaled operation position a single.index

/-- A new family has nothing to account for. -/
theorem Accounts.ofSpecs? {specs : List Spec} {family : Family K n}
    (planted : Family.ofSpecs? specs = some ⟨n, family⟩) : Accounts [] family :=
  forestAt_ofSpecs? (fun _ forest => forest.Accounts fun _ => 0) (fun _ => .create) planted

end SetForest.Family
