import SetForest.Proofs.Family.Accounts
import SetForest.Proofs.Session.Run

namespace SetForest

/-!
# Statistics of reached states

The journal of a session tells what its commands have come to: which of them were
answered, which contents they have added or evicted, and which lattice operations were
answered on the way, in whatever forest.  It is kept beside the session and looks at no
counter.  The statistics of each forest agree with it, after any commands.
-/

variable {K : Type} [Key K] [ToString K] {n : Nat} {α : Type}

namespace Session

open SetForest.Action

/-- The journal after a command.  Lattice operations are entered by themselves, as they
may be asked of forests below, and anything else is entered at its own position. -/
def enter (session : Session K n) (journal : Journal) (position : Fin n) (command : Command K) :
    Journal :=
  let outcome := step position command session
  let forest := session.family.forestAt position
  match command with
  | .registerSet _ | .registerUnordered _ | .registerSingle _ =>
    journal.enterIf outcome.1.isOk position .registered
  | .apply operation a b =>
    (Family.applyJournaled operation position a b (session.family, journal)).2.2
  | .insertSingle a element =>
    (Family.applySingleJournaled .union position a element (session.family, journal)).2.2
  | .removeSingle a element =>
    (Family.applySingleJournaled .difference position a element (session.family, journal)).2.2
  | .updateKey _ _ | .removeKey _ _ =>
    journal.enterIf (forest.size < (outcome.2.family.forestAt position).size) position .extended
  | .filter _ _ _ => journal.enterIf outcome.1.isOk position .filtered
  | .evict a => journal.enterIf (outcome.1.isOk ∧ forest.isEvicted a = .ok false) position .dropped
  | _ => journal

/-- The journal after commands, continuing a given one. -/
def journal (session : Session K n) (journal : Journal) : List (Fin n × Command K) → Journal
  | [] => journal
  | first :: rest =>
    (step first.1 first.2 session).2.journal (session.enter journal first.1 first.2) rest

/-- A described action is answered if the action is. -/
theorem isOk_described (action : FamilyM K n α) (index : α → Index) (position : Fin n)
    (answer : α → Produced → Answer K) (session : Session K n) :
    ((do
      let value ← onFamily action
      return answer value (← produced position (index value)) : SessionM K n (Answer K))
        session).1.isOk = (action session.family).1.isOk := by
  rw [bind_apply, onFamily_apply]
  cases (action session.family).1 with
  | error error => rfl
  | ok value =>
      dsimp only
      rw [bind_apply, produced_apply]
      rfl

variable {session : Session K n} {entries : Journal}

/-- What an action is answered is entered at its position. -/
theorem accounts_described (accounts : Family.Accounts entries session.family)
    (action : {m : Nat} → ForestM K m α) (index : α → Index) (position : Fin n)
    (answer : α → Produced → Answer K) {event : Event}
    (here : (action (session.family.forestAt position)).2.Accounts
      (if (action (session.family.forestAt position)).1.isOk then
        (entries.ledger position).enter event else entries.ledger position)) :
    let outcome := (do
      let value ← onFamily (Family.within action position)
      return answer value (← produced position (index value)) : SessionM K n (Answer K)) session
    Family.Accounts (entries.enterIf outcome.1.isOk position event) outcome.2.family := by
  intro outcome
  have family := family_described (Family.within action position) index position answer session
  have isOk := isOk_described (Family.within action position) index position answer session
  rw [(Family.within_apply action session.family position).1] at isOk
  rw [show outcome.2.family = _ from family, show outcome.1.isOk = _ from isOk]
  exact accounts.within action position here

/-- An operation with a journal stands for the operation that a command asks for. -/
theorem accounts_journaled {journaled : JournaledM K n Index} {action : FamilyM K n Index}
    (balances : Family.Balances (session.family, entries) journaled)
    (erases : Family.Erases (session.family, entries) journaled action) (position : Fin n)
    (answer : Index → Produced → Answer K) :
    Family.Accounts (journaled (session.family, entries)).2.2 ((do
      let value ← onFamily action
      return answer value (← produced position value) : SessionM K n (Answer K))
        session).2.family := by
  have family := family_described action id position answer session
  have erased := (erases.eq_of_alike (fun _ => id) fun _ _ => id).2
  have holds := balances.holds
  rw [erased, ← family] at holds
  exact holds

/-- An update is entered if it has added a content. -/
theorem accounts_updated (accounts : Family.Accounts entries session.family)
    (action : {m : Nat} → ForestM K m Index) (position : Fin n)
    (answer : Index → Produced → Answer K)
    (here : (action (session.family.forestAt position)).2.Accounts
      (if (session.family.forestAt position).size <
          (action (session.family.forestAt position)).2.size then
        (entries.ledger position).enter .extended else entries.ledger position)) :
    let family := ((do
      let value ← onFamily (Family.within action position)
      return answer value (← produced position value) : SessionM K n (Answer K)) session).2.family
    Family.Accounts (entries.enterIf
      ((session.family.forestAt position).size < (family.forestAt position).size)
        position .extended) family := by
  intro family
  have reached := family_described (Family.within action position) id position answer session
  rw [show family = _ from reached, (Family.within_apply action session.family position).2]
  exact accounts.within action position here

/-- A filtering is answered if the forest answers it. -/
theorem step_filter (session : Session K n) (position : Fin n) (a : Index)
    (predicate : Element K → Bool) (name : String) :
    ∃ cache, (step position (.filter a predicate name) session).2.family =
        (Family.within (Forest.filter a predicate cache) position session.family).2 ∧
      (step position (.filter a predicate name) session).1.isOk =
        (Family.within (Forest.filter a predicate cache) position session.family).1.isOk := by
  refine ⟨session.cache (session.family.forestAt position).strategy name, ?_⟩
  simp only [step, bind_apply, filter_apply]
  rcases Family.within (Forest.filter a predicate
    (session.cache (session.family.forestAt position).strategy name)) position session.family with
      ⟨error | filtered, family⟩
  · exact ⟨rfl, rfl⟩
  · dsimp only
    rw [produced_apply]
    exact ⟨family_keepCache _ _ _ _, rfl⟩

/-- Every command is accounted for. -/
theorem accounts_step (accounts : Family.Accounts entries session.family) (position : Fin n)
    (command : Command K) :
    Family.Accounts (session.enter entries position command)
      (step position command session).2.family := by
  have forest := accounts position
  rcases family_step session position command with ⟨cache, stepped⟩
  cases command with
  | registerSet given =>
      exact accounts_described accounts (Forest.registerSet given) Registered.index position _
        (forest.registerSet given)
  | registerUnordered given =>
      exact accounts_described accounts (Forest.registerUnordered given) Registered.index position _
        (forest.registerUnordered given)
  | registerSingle element =>
      exact accounts_described accounts (ExceptT.lift (Forest.registerSingle element))
        Registered.index position _ (forest.registerSingle element)
  | apply operation a b =>
      exact accounts_journaled (Family.Accounts.applyJournaled operation position a b accounts)
        (Family.erases_apply operation position a b _) position _
  | insertSingle a element =>
      exact accounts_journaled
        (Family.Accounts.applySingleJournaled .union position a element accounts)
        (Family.erases_applySingle .union position a element _) position _
  | removeSingle a element =>
      exact accounts_journaled
        (Family.Accounts.applySingleJournaled .difference position a element accounts)
        (Family.erases_applySingle .difference position a element _) position _
  | updateKey a element =>
      exact accounts_updated accounts (Forest.updateKey a element) position _
        (forest.updateKey a element)
  | removeKey a key =>
      exact accounts_updated accounts (Forest.removeKey a key) position _ (forest.removeKey a key)
  | filter a predicate name =>
      rcases session.step_filter position a predicate name with ⟨cache, family, isOk⟩
      rw [(Family.within_apply (Forest.filter a predicate cache) session.family position).1] at isOk
      rw [enter, family, isOk]
      exact accounts.within (Forest.filter a predicate cache) position
        (forest.filter a predicate cache)
  | evict a =>
      have isOk : (step position (.evict a) session).1.isOk =
          (Forest.evict a (session.family.forestAt position)).1.isOk := by
        rw [← (Family.within_apply (Forest.evict a) session.family position).1]
        simp only [step, bind_apply, onFamily_apply]
        cases (Family.within (Forest.evict a) position session.family).1 <;> rfl
      rw [enter, stepped, isOk]
      exact accounts.within (Forest.evict a) position (forest.evict a)
  | isEmpty a => exact accounts
  | _ =>
      rw [stepped]
      exact accounts

/-- Only an eviction at a position is ever entered as one. -/
theorem dropped_step (accounts : Family.Accounts entries session.family) (position other : Fin n)
    (command : Command K) (kept : ∀ a, (other, Command.evict a) ≠ (position, command)) :
    (session.enter entries position command).ledger other .dropped =
      entries.ledger other .dropped := by
  cases command with
  | registerSet given => exact Journal.ledger_enterIf_of_event_ne nofun
  | registerUnordered given => exact Journal.ledger_enterIf_of_event_ne nofun
  | registerSingle element => exact Journal.ledger_enterIf_of_event_ne nofun
  | apply operation a b =>
      have balances : Family.Balances (session.family, entries) _ :=
        Family.Accounts.applyJournaled operation position a b accounts
      exact balances.advances.dropped other
  | insertSingle a element =>
      have balances : Family.Balances (session.family, entries) _ :=
        Family.Accounts.applySingleJournaled .union position a element accounts
      exact balances.advances.dropped other
  | removeSingle a element =>
      have balances : Family.Balances (session.family, entries) _ :=
        Family.Accounts.applySingleJournaled .difference position a element accounts
      exact balances.advances.dropped other
  | updateKey a element => exact Journal.ledger_enterIf_of_event_ne nofun
  | removeKey a key => exact Journal.ledger_enterIf_of_event_ne nofun
  | filter a predicate name => exact Journal.ledger_enterIf_of_event_ne nofun
  | evict a =>
      have elsewhere : other.val ≠ position.val := by
        intro same
        rw [Fin.ext same] at kept
        exact kept a rfl
      rw [enter, Journal.ledger_enterIf_of_ne elsewhere]
  | _ => rfl

/-- A run is accounted for, and without evictions none is entered. -/
theorem accounts_run (accounts : Family.Accounts entries session.family)
    (commands : List (Fin n × Command K)) :
    Family.Accounts (session.journal entries commands) (session.run commands).2.family ∧
      ∀ position, (∀ a, (position, Command.evict a) ∉ commands) →
        (session.journal entries commands).ledger position .dropped =
          entries.ledger position .dropped := by
  induction commands generalizing session entries with
  | nil => exact ⟨accounts, fun _ _ => rfl⟩
  | cons first rest ih =>
      rcases ih (accounts_step accounts first.1 first.2) with ⟨accountsLast, dropped⟩
      rw [run_cons]
      refine ⟨accountsLast, ?_⟩
      intro position kept
      rw [journal, dropped position fun a member => kept a (List.mem_cons_of_mem first member)]
      exact dropped_step accounts first.1 position first.2
        fun a same => kept a (same ▸ List.mem_cons_self)

end Session

/-- The statistics of a forest account exactly for a run.  Evictions without restorations
are the slots that are evicted now.  The tallies of the lattice operations, of filterings
and of registrations add up to those that were answered, and a result that is new to the
forest is counted as a cold miss or was stored by an update.  Unless sets are evicted in
the forest, every union and difference that was computed is remembered.  So is every
intersection, and a difference that was computed may be remembered as one. -/
theorem statistics_account {specs : List Spec} {family : Family K n} {session : Session K n}
    (planted : Family.ofSpecs? specs = some ⟨n, family⟩) (starts : session.family = family)
    (commands : List (Fin n × Command K)) (position : Fin n) :
    let forest := (session.run commands).2.family.forestAt position
    let statistics := forest.statistics
    let counters := statistics.counters
    let count (event : Event) := (session.journal [] commands).count (position.val, event)
    counters.evictions = counters.restorations +
      ((Finset.range forest.size).filter fun index => forest.isEvicted index = .ok true).card ∧
    counters.evictions = count .dropped ∧
    counters.unions.total = count (.applied .union) ∧
    counters.intersections.total = count (.applied .intersection) ∧
    counters.differences.total = count (.applied .difference) ∧
    counters.filters.total = count .filtered ∧
    counters.propertySets.total = count .registered ∧
    statistics.sets = 1 + (counters.propertySets.coldMisses + counters.unions.coldMisses +
      counters.intersections.coldMisses + counters.differences.coldMisses +
      counters.filters.coldMisses) + count .extended ∧
    ((∀ a, (position, Command.evict a) ∉ commands) →
      statistics.unionsCached = counters.unions.misses ∧
      statistics.differencesCached = counters.differences.misses ∧
      counters.intersections.misses ≤ statistics.intersectionsCached ∧
      statistics.intersectionsCached ≤
        counters.intersections.misses + counters.differences.misses) := by
  intro forest statistics counters count
  have start : Family.Accounts [] session.family := starts ▸ .ofSpecs? planted
  rcases Session.accounts_run start commands with ⟨accounts, dropped⟩
  have here : forest.Accounts count := accounts position
  have evicted : ((Finset.range forest.size).filter fun index =>
      forest.isEvicted index = .ok true) = forest.sets.evicted := by
    refine Finset.filter_congr ?_
    intro index inRange
    rw [Forest.isEvicted_of_lt (Finset.mem_range.mp inRange)]
  refine ⟨?_, here.counted .dropped nofun, here.counted (.applied .union) nofun,
    here.counted (.applied .intersection) nofun, here.counted (.applied .difference) nofun,
    here.counted .filtered nofun, here.counted .registered nofun, here.stored, ?_⟩
  · rw [evicted]
    exact here.evictions
  · intro kept
    have tabled := here.tabled (dropped position kept)
    exact ⟨tabled.size_eq .union nofun, tabled.size_eq .difference nofun, tabled.le_size,
      tabled.size_le⟩

/-- A union of maps is computed, evicted and computed again, and updated afterwards.  The
forest below is asked for its union both times. -/
theorem statistics_account_nested :
    let below : Family Nat 1 := .single {} .unshared
    let start : Session Nat 2 := .start (below.plant (Forest.create {} .unshared [0]))
    let commands := [(0, .registerSingle (.flat 5)), (0, .registerSingle (.flat 7)),
      (1, .registerSingle ⟨1, [1]⟩), (1, .registerSingle ⟨1, [2]⟩), (1, .apply .union 1 2),
      (1, .evict 3), (1, .apply .union 2 1), (1, .updateKey 3 ⟨2, [0]⟩)]
    let top := ((start.run commands).2.family.forestAt 1).statistics
    let bottom := ((start.run commands).2.family.forestAt 0).statistics
    start.journal [] commands = [(0, .registered), (0, .registered), (1, .registered),
      (1, .registered), (0, .applied .union), (1, .applied .union), (1, .dropped),
      (0, .applied .union), (1, .applied .union), (1, .extended)] ∧
    top.counters.unions.total = 2 ∧ top.counters.evictions = 1 ∧
    top.sets = 1 + (top.counters.propertySets.coldMisses + top.counters.unions.coldMisses +
      top.counters.intersections.coldMisses + top.counters.differences.coldMisses +
      top.counters.filters.coldMisses) + 1 ∧
    bottom.counters.unions.total = 2 ∧ bottom.unionsCached = bottom.counters.unions.misses := by
  intro below start commands top bottom
  have planted : Family.ofSpecs? [{}, { children := [0] }] = some ⟨2, start.family⟩ := rfl
  have entries : start.journal [] commands = [(0, .registered), (0, .registered),
      (1, .registered), (1, .registered), (0, .applied .union), (1, .applied .union),
      (1, .dropped), (0, .applied .union), (1, .applied .union), (1, .extended)] := by
    decide +kernel
  rcases statistics_account planted rfl commands 1 with
    ⟨-, evictions, unions, -, -, -, -, sets, -⟩
  rcases statistics_account planted rfl commands 0 with ⟨-, -, unionsBelow, -, -, -, -, -, tables⟩
  rw [entries] at evictions unions unionsBelow sets
  have notEvicted : ∀ a, ((0 : Fin 2), Command.evict a) ∉ commands := by
    intro a member
    simp only [commands, List.mem_cons, Prod.mk.injEq, reduceCtorEq, and_false, false_or,
      Fin.zero_ne_one, false_and, List.not_mem_nil] at member
  refine ⟨entries, unions.trans (by decide), evictions.trans (by decide), ?_,
    unionsBelow.trans (by decide), (tables notEvicted).1⟩
  rw [sets]
  congr 1

end SetForest
