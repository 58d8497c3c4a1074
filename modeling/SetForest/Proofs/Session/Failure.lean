import SetForest.Proofs.Family.Failure
import SetForest.Proofs.Family.Operand
import SetForest.Proofs.Session.Resident

namespace SetForest

/-!
# Commands that fail

A command that fails has not changed the forest that it was given to, except that a single
element is registered before it is inserted or removed (`Command.prepared`).  In forests
below, a lattice operation may have done part of its work.  That part does no harm.
Whenever the operation is repeated, its result is the nested set that it would have been
(`failures_atomic`).

There is one proviso.  A child that is not in use yet has no set, and which set it comes to
be is up to what is registered later.  The work of the failed attempt may have taken the
index in the meantime (`failure_moves_unused_child`).
-/

variable {K : Type} [Key K] {n : Nat} {α : Type}

namespace Command

/-- The lattice operation that a command asks for, with its operands. -/
def operation? : Command K → Option (Operation × Index × Operand K)
  | apply operation a b => some (operation, a, .stored b)
  | insertSingle a element => some (.union, a, .single element)
  | removeSingle a element => some (.difference, a, .single element)
  | _ => none

/-- What has become of the forest by the time when a command can fail.  An insertion or a
removal of a single element has registered that element. -/
def prepared (forest : Forest K n) : Command K → Forest K n
  | insertSingle _ element => (Forest.registerSingle element forest).2
  | removeSingle _ element => (Forest.registerSingle element forest).2
  | _ => forest

theorem Fits.operand {forest : Forest K n} {command : Command K} {operation : Operation}
    {a : Index} {operand : Operand K} (fits : command.Fits forest)
    (asks : command.operation? = some (operation, a, operand)) : operand.Fits forest := by
  cases command <;> cases asks
  · trivial
  · exact fits
  · exact fits

end Command

namespace Session

open SetForest.Action

variable [ToString K] {session later : Session K n} {position : Fin n} {error : Error}

/-- An action that produces something, as a function of the action. -/
theorem described_apply (action : FamilyM K n α) (index : α → Index) (position : Fin n)
    (answer : α → Produced → Answer K) (session : Session K n) :
    (do
      let value ← onFamily action
      return answer value (← produced position (index value)) : SessionM K n (Answer K)) session =
      ((action session.family).1.map fun value => answer value
          ⟨index value, (((action session.family).2.forestAt position).setText
            (index value)).toOption, ((action session.family).2.forestAt position).size⟩,
        { session with family := (action session.family).2 }) := by
  rw [bind_apply, onFamily_apply]
  rcases action session.family with ⟨error | value, after⟩
  · rfl
  · dsimp only
    rw [bind_apply, produced_apply]
    rfl

/-- An action that produces something fails as the action does. -/
theorem described_error {action : FamilyM K n α} {index : α → Index}
    {answer : α → Produced → Answer K}
    (failed : (do
      let value ← onFamily action
      return answer value (← produced position (index value)) : SessionM K n (Answer K)) session =
        (.error error, later)) :
    later = { session with family := later.family } ∧
      action session.family = (.error error, later.family) := by
  rw [described_apply] at failed
  cases called : action session.family with
  | mk outcome family =>
      rw [called] at failed
      cases outcome with
      | error error => cases failed; exact ⟨rfl, rfl⟩
      | ok value => cases failed

/-- A step with a lattice operation, as a function of that operation. -/
theorem step_of_operation? {command : Command K} {operation : Operation} {a : Index}
    {operand : Operand K} (asks : command.operation? = some (operation, a, operand))
    (position : Fin n) (session : Session K n) :
    step position command session =
      ((Family.applyTo operation position a operand session.family).1.map fun r => .computed
          ⟨r, (((Family.applyTo operation position a operand
              session.family).2.forestAt position).setText r).toOption,
            ((Family.applyTo operation position a operand
              session.family).2.forestAt position).size⟩,
        { session with
          family := (Family.applyTo operation position a operand session.family).2 }) := by
  cases command <;> cases asks <;>
    exact described_apply _ id position (fun _ => Answer.computed) session

/-- A command that is an action of one forest leaves the session as it was when it fails. -/
theorem survives_described {action : {m : Nat} → ForestM K m α} {index : α → Index}
    {answer : α → Produced → Answer K} (atomic : Forest.Atomic (action : ForestM K position α))
    (failed : (do
      let value ← onFamily (Family.within action position)
      return answer value (← produced position (index value)) : SessionM K n (Answer K)) session =
        (.error error, later)) :
    later = { session with family := later.family } ∧
      Family.Survives position (session.family.forestAt position) session.family later.family := by
  rcases described_error failed with ⟨rest, failed⟩
  exact ⟨rest, Family.survives_within atomic failed⟩

omit [ToString K] in
/-- Looking at a forest changes nothing. -/
theorem survives_observe {read : {m : Nat} → Forest K m → Except Error (Answer K)}
    (failed : step.observe position read session = (.error error, later)) :
    later = { session with family := later.family } ∧
      Family.Survives position (session.family.forestAt position) session.family later.family := by
  rw [observe_apply] at failed
  rcases (Prod.mk.inj failed).2 with rfl
  exact ⟨rfl, .refl session.family position⟩

/-- What the session consists of after a command has failed. -/
theorem survives_step {command : Command K} (sound : session.family.Sound)
    (fits : command.Fits (session.family.forestAt position))
    (failed : step position command session = (.error error, later)) :
    later = { session with family := later.family } ∧
      Family.Survives position (command.prepared (session.family.forestAt position))
        session.family later.family := by
  cases command with
  | registerSet content => exact survives_described (Forest.atomic_registerSet content) failed
  | registerUnordered elements =>
      exact survives_described (Forest.atomic_registerUnordered elements) failed
  | registerSingle element =>
      exact survives_described (Forest.atomic_registerSingle element) failed
  | updateKey a element => exact survives_described (Forest.atomic_updateKey a element) failed
  | removeKey a key => exact survives_described (Forest.atomic_removeKey a key) failed
  | apply operation a b =>
      rcases described_error failed with ⟨rest, failed⟩
      exact ⟨rest, Family.survives_apply sound failed⟩
  | insertSingle a element =>
      rcases described_error failed with ⟨rest, failed⟩
      exact ⟨rest, Family.survives_applySingle (Operand.sound_registeredSingle sound fits).1 failed⟩
  | removeSingle a element =>
      rcases described_error failed with ⟨rest, failed⟩
      exact ⟨rest, Family.survives_applySingle (Operand.sound_registeredSingle sound fits).1 failed⟩
  | filter a predicate name =>
      simp only [step, bind_apply, filter_apply] at failed
      cases called : Family.within (Forest.filter a predicate
          (session.cache (session.family.forestAt position).strategy name)) position
            session.family with
      | mk outcome family =>
          rw [called] at failed
          cases outcome with
          | error error =>
              cases failed
              exact ⟨rfl, Family.survives_within (Forest.atomic_filter a predicate _) called⟩
          | ok filtered =>
              dsimp only at failed
              rw [produced_apply] at failed
              cases failed
  | evict a =>
      simp only [step, bind_apply, onFamily_apply] at failed
      cases called : Family.within (Forest.evict a) position session.family with
      | mk outcome family =>
          rw [called] at failed
          cases outcome with
          | error error =>
              cases failed
              exact ⟨rfl, Family.survives_within (Forest.atomic_evict a) called⟩
          | ok done => cases failed
  | isEmpty a => cases failed
  | _ => exact survives_observe failed

/-- A lattice operation on resident operands produces something. -/
theorem exists_computed {command : Command K} {operation : Operation} {a : Index}
    {operand : Operand K} (asks : command.operation? = some (operation, a, operand))
    (sound : session.family.Sound) (fits : command.Fits (session.family.forestAt position))
    (leftResident : session.family.Resident position a)
    (rightResident : operand.Resident session.family position) :
    ∃ produced last, step position command session = (.ok (.computed produced), last) := by
  rcases sound.exists_applyTo (fits.operand asks) operation leftResident rightResident with
    ⟨r, family, answered⟩
  rw [step_of_operation? asks, answered]
  exact ⟨_, _, rfl⟩

/-- What a lattice operation has produced is the answer to the operation. -/
theorem applyTo_of_computed {command : Command K} {operation : Operation} {a : Index}
    {operand : Operand K} (asks : command.operation? = some (operation, a, operand))
    {produced : Produced}
    (computed : step position command session = (.ok (.computed produced), later)) :
    Family.applyTo operation position a operand session.family =
      (.ok produced.index, later.family) := by
  rw [step_of_operation? asks] at computed
  cases called : Family.applyTo operation position a operand session.family with
  | mk outcome family =>
      rw [called] at computed
      cases outcome with
      | error error => cases computed
      | ok r => cases computed; rfl

theorem run_concat (session : Session K n) (commands : List (Fin n × Command K))
    (last : Fin n × Command K) :
    (session.run (commands ++ [last])).2 = (step last.1 last.2 (session.run commands).2).2 := by
  induction commands generalizing session with
  | nil => exact session.run_cons last []
  | cons first rest ih => rw [List.cons_append, run_cons, run_cons, ih]

end Session

variable [ToString K] {specs : List Spec} {family : Family K n} {session later : Session K n}

/-- A command that fails leaves no trace in the forest that reports the failure, nor in the
caches of the session.  Only an insertion or a removal of a single element has registered
that element.  Every other forest has at most grown, and it is as sound as before.

A lattice operation that has failed can be repeated later, after any other commands.  It
has a result as soon as its operands can be read down to the bottom.  The result has the
same paths as without the failure, provided that its operands have.  This is the case if
they were in use down to the bottom when the operation failed. -/
theorem failures_atomic (planted : Family.ofSpecs? specs = some ⟨n, family⟩)
    (starts : session.family = family) {commands : List (Fin n × Command K)}
    (fits : ∀ command ∈ commands, command.2.Fits (family.forestAt command.1)) {position : Fin n}
    {command : Command K} (commandFits : command.Fits (family.forestAt position)) {error : Error}
    (failed : Session.step position command (session.run commands).2 = (.error error, later)) :
    let reached := (session.run commands).2
    let forest := reached.family.forestAt position
    (later = { reached with family := later.family } ∧
      (command.prepared forest).Noted (later.family.forestAt position)) ∧
    (∀ other, other ≠ position →
      (reached.family.forestAt other).Grows (later.family.forestAt other)) ∧
    (later.family.Sound ∧ ∀ other, (later.family.forestAt other).Dependable) ∧
    ∀ operation a operand, command.operation? = some (operation, a, operand) →
      ∀ more, (∀ command ∈ more, command.2.Fits (family.forestAt command.1)) →
      ∀ alternative, (∀ command ∈ alternative, command.2.Fits (family.forestAt command.1)) →
        let after := (later.run more).2
        let instead := (reached.run alternative).2
        (∀ state, state = after ∨ state = instead → state.family.Resident position a →
          operand.Resident state.family position → ∃ produced last,
            Session.step position command state = (.ok (.computed produced), last)) ∧
        (reached.family.Grounded position a → operand.Grounded reached.family position →
          Family.SameOperands position a operand after.family instead.family) ∧
        (Family.SameOperands position a operand after.family instead.family →
          ∀ produced last produced' last',
            Session.step position command after = (.ok (.computed produced), last) →
            Session.step position command instead = (.ok (.computed produced'), last') →
            last.family.Grounded position produced.index ∧
              last'.family.Grounded position produced'.index ∧
              last.family.paths position produced.index =
                last'.family.paths position produced'.index) := by
  intro reached forest
  rcases Session.sound_of_planted planted starts fits with ⟨sound, extension⟩
  have fitsHere : command.Fits forest :=
    commandFits.congr (extension.forestAt position).config (extension.forestAt position).children
  rcases Session.survives_step sound fitsHere failed with ⟨rest, survives⟩
  have isLater : (session.run (commands ++ [(position, command)])).2 = later := by
    rw [Session.run_concat, failed]
  rcases reached.sound_step position command sound fitsHere with ⟨soundLater, toLater⟩
  rw [failed] at soundLater toLater
  refine ⟨⟨rest, survives.reporting⟩, survives.others, ⟨soundLater, ?_⟩, ?_⟩
  · intro other
    rw [← isLater]
    exact Session.dependable_run planted starts _ other
  intro operation a operand asks more moreFits alternative alternativeFits after instead
  have fitsReached := Command.fits_of_extends extension alternativeFits
  have fitsLater := Command.fits_of_extends (extension.trans toLater) moreFits
  rcases later.sound_run more soundLater fitsLater with ⟨soundAfter, toAfter⟩
  rcases reached.sound_run alternative sound fitsReached with ⟨soundInstead, toInstead⟩
  have fitsAfter : command.Fits (after.family.forestAt position) :=
    fitsHere.congr ((toLater.trans toAfter).forestAt position).config
      ((toLater.trans toAfter).forestAt position).children
  have fitsInstead : command.Fits (instead.family.forestAt position) :=
    fitsHere.congr (toInstead.forestAt position).config (toInstead.forestAt position).children
  refine ⟨?_, ?_, ?_⟩
  · rintro state (rfl | rfl) leftResident rightResident
    · exact Session.exists_computed asks soundAfter fitsAfter leftResident rightResident
    · exact Session.exists_computed asks soundInstead fitsInstead leftResident rightResident
  · exact sound.sameOperands soundAfter soundInstead (toLater.trans toAfter) toInstead
  · intro same produced last produced' last' computed computedInstead
    have answered := Session.applyTo_of_computed asks computed
    have answeredInstead := Session.applyTo_of_computed asks computedInstead
    refine ⟨soundAfter.grounded_applyTo (fitsAfter.operand asks) answered same.left same.right,
      soundInstead.grounded_applyTo (fitsInstead.operand asks) answeredInstead same.leftOther
        same.rightOther, ?_⟩
    refine soundAfter.paths_applyTo soundInstead ?_ (fitsAfter.operand asks)
      (fitsInstead.operand asks) same answered answeredInstead
    exact .of_forestAt fun other => by
      rw [(toInstead.forestAt other).children, ((toLater.trans toAfter).forestAt other).children]

/-- A union of maps that fails on an evicted child after it has united two others, and is
repeated when the child is back.  Without the failure another set was stored first. -/
theorem failures_atomic_eviction :
    let below : Family Nat 1 := .single {} .unshared
    let start : Session Nat 2 := .start (below.plant (Forest.create {} .unshared [0]))
    let stored := [(0, .registerSingle (.flat 5)), (0, .registerSingle (.flat 6)),
      (0, .registerSingle (.flat 7)), (1, .registerSet [⟨1, [1]⟩, ⟨2, [3]⟩]),
      (1, .registerSet [⟨1, [2]⟩, ⟨2, [1]⟩])]
    let reached := (start.run (stored ++ [(0, .evict 3)])).2
    let later := (Session.step 1 (.apply .union 1 2) reached).2
    let after := (later.run [(0, .registerSingle (.flat 7))]).2
    let instead := (reached.run [(0, .registerSingle (.flat 8)), (0, .registerSingle (.flat 7))]).2
    (reached.family.forestAt 1).Noted (later.family.forestAt 1) ∧
      (reached.family.forestAt 0).Grows (later.family.forestAt 0) ∧
      ∃ produced last produced' last',
        Session.step 1 (.apply .union 1 2) after = (.ok (.computed produced), last) ∧
        Session.step 1 (.apply .union 1 2) instead = (.ok (.computed produced'), last') ∧
        last.family.paths 1 produced.index = last'.family.paths 1 produced'.index := by
  intro below start stored reached later after instead
  have planted : Family.ofSpecs? [{}, { children := [0] }] = some ⟨2, start.family⟩ := rfl
  have storedFits : ∀ command ∈ stored, command.2.Fits (start.family.forestAt command.1) := by
    simp only [stored, List.forall_mem_cons]
    refine ⟨rfl, rfl, rfl, ⟨nofun, ?_⟩, ⟨nofun, ?_⟩, nofun⟩
    all_goals
      simp only [Content.HasArity, List.forall_mem_cons]
      exact ⟨rfl, rfl, nofun⟩
  have fits : ∀ command ∈ stored ++ [(0, .evict 3)],
      command.2.Fits (start.family.forestAt command.1) :=
    List.forall_mem_append.mpr ⟨storedFits, List.forall_mem_singleton.mpr trivial⟩
  have failed : Session.step 1 (.apply .union 1 2) reached = (.error (.evicted 3), later) :=
    Prod.fst_eq_iff.mp (by decide +kernel)
  have commandFits : (Command.apply .union 1 2).Fits (start.family.forestAt 1) := trivial
  rcases failures_atomic planted rfl fits commandFits failed with
    ⟨⟨-, noted⟩, grows, -, repeats⟩
  have moreFits : ∀ command ∈ [((0 : Fin 2), Command.registerSingle (Element.flat 7))],
      command.2.Fits (start.family.forestAt command.1) := by
    simp only [List.forall_mem_cons]
    exact ⟨rfl, nofun⟩
  have alternativeFits : ∀ command ∈ [((0 : Fin 2), Command.registerSingle (Element.flat 8)),
      (0, .registerSingle (.flat 7))], command.2.Fits (start.family.forestAt command.1) := by
    simp only [List.forall_mem_cons]
    exact ⟨rfl, rfl, nofun⟩
  rcases repeats .union 1 (.stored 2) rfl _ moreFits _ alternativeFits with
    ⟨answers, same, agree⟩
  -- Before the eviction the operands were resident, so they are in use down to the bottom.
  let before := (start.run stored).2
  have beforeSound := (start.sound_run stored (Family.sound_ofSpecs? planted) storedFits).1
  have toReached : before.family.Extends reached.family := by
    rw [show reached = (Session.step 0 (.evict 3) before).2 from
      start.run_concat stored (0, .evict 3)]
    exact (before.sound_step 0 (.evict 3) beforeSound trivial).2
  have left : before.family.Resident 1 1 :=
    Family.resident_of_reads [⟨1, [1]⟩, ⟨2, [3]⟩] (by decide +kernel) (by decide +kernel)
  have right : before.family.Resident 1 2 :=
    Family.resident_of_reads [⟨1, [2]⟩, ⟨2, [1]⟩] (by decide +kernel) (by decide +kernel)
  have sameOperands := same ((left.grounded beforeSound).mono toReached)
    ((right.grounded beforeSound).mono toReached)
  have leftAfter : after.family.Resident 1 1 :=
    Family.resident_of_reads [⟨1, [1]⟩, ⟨2, [3]⟩] (by decide +kernel) (by decide +kernel)
  have rightAfter : after.family.Resident 1 2 :=
    Family.resident_of_reads [⟨1, [2]⟩, ⟨2, [1]⟩] (by decide +kernel) (by decide +kernel)
  have leftInstead : instead.family.Resident 1 1 :=
    Family.resident_of_reads [⟨1, [1]⟩, ⟨2, [3]⟩] (by decide +kernel) (by decide +kernel)
  have rightInstead : instead.family.Resident 1 2 :=
    Family.resident_of_reads [⟨1, [2]⟩, ⟨2, [1]⟩] (by decide +kernel) (by decide +kernel)
  rcases answers after (.inl rfl) leftAfter rightAfter with ⟨produced, last, computed⟩
  rcases answers instead (.inr rfl) leftInstead rightInstead with ⟨produced', last', computed'⟩
  exact ⟨noted, grows 0 (by decide), produced, last, produced', last', computed, computed',
    (agree sameOperands _ _ _ _ computed computed').2.2⟩

/-- Which set a child comes to be that is not in use yet may depend on a failure.  The union
fails because index four has no set in the forest below, but by then it has united two
other sets there.  Of the two sets that are registered next, the first gets index four.
Without the failure the second does. -/
theorem failure_moves_unused_child :
    let below : Family Nat 1 := .single {} .unshared
    let start : Session Nat 2 := .start (below.plant (Forest.create {} .unshared [0]))
    let commands := [(0, .registerSingle (.flat 1)), (0, .registerSingle (.flat 2)),
      (1, .registerSet [⟨1, [1]⟩, ⟨2, [4]⟩]), (1, .registerSet [⟨1, [2]⟩, ⟨2, [1]⟩])]
    let attempt := (1, .apply .union 1 2)
    let more := [(0, .registerSingle (.flat 10)), (0, .registerSingle (.flat 11)), attempt]
    let tried := (start.run (commands ++ attempt :: more)).2.family
    let untried := (start.run (commands ++ more)).2.family
    ((start.run (commands ++ attempt :: more)).1[4]? = some (.error (.outOfRange 4 4)) ∧
      (start.run (commands ++ attempt :: more)).1[7]? =
        some (.ok (.computed ⟨3, some "\x7b (1 -> [3]) (2 -> [6]) \x7d", 4⟩)) ∧
      (start.run (commands ++ more)).1[6]? =
        some (.ok (.computed ⟨3, some "\x7b (1 -> [5]) (2 -> [6]) \x7d", 4⟩))) ∧
      (tried.forestAt 1).content 3 = .ok [⟨1, [3]⟩, ⟨2, [6]⟩] ∧
      (untried.forestAt 1).content 3 = .ok [⟨1, [5]⟩, ⟨2, [6]⟩] ∧
      (tried.forestAt 0).content 6 = .ok [.flat 1, .flat 10] ∧
      (untried.forestAt 0).content 6 = .ok [.flat 1, .flat 11] ∧
      tried.paths 1 3 ≠ untried.paths 1 3 := by
  intro below start commands attempt more tried untried
  have planted : Family.ofSpecs? [{}, { children := [0] }] = some ⟨2, start.family⟩ := rfl
  have commandsFit : ∀ command ∈ commands, command.2.Fits (start.family.forestAt command.1) := by
    simp only [commands, List.forall_mem_cons]
    refine ⟨rfl, rfl, ⟨nofun, ?_⟩, ⟨nofun, ?_⟩, nofun⟩
    all_goals
      simp only [Content.HasArity, List.forall_mem_cons]
      exact ⟨rfl, rfl, nofun⟩
  have moreFits : ∀ command ∈ attempt :: more,
      command.2.Fits (start.family.forestAt command.1) := by
    simp only [attempt, more, List.forall_mem_cons]
    exact ⟨trivial, rfl, rfl, trivial, nofun⟩
  have atTried : tried.Sound ∧ start.family.Extends tried :=
    start.sound_run (commands ++ attempt :: more) (Family.sound_ofSpecs? planted)
      (List.forall_mem_append.mpr ⟨commandsFit, moreFits⟩)
  have atUntried : untried.Sound ∧ start.family.Extends untried :=
    start.sound_run (commands ++ more) (Family.sound_ofSpecs? planted)
      (List.forall_mem_append.mpr ⟨commandsFit, (List.forall_mem_cons.mp moreFits).2⟩)
  have triedTop : (tried.forestAt 1).content 3 = .ok [⟨1, [3]⟩, ⟨2, [6]⟩] := by decide +kernel
  have untriedTop : (untried.forestAt 1).content 3 = .ok [⟨1, [5]⟩, ⟨2, [6]⟩] := by
    decide +kernel
  have triedBelow : (tried.forestAt 0).content 6 = .ok [.flat 1, .flat 10] := by decide +kernel
  have untriedBelow : (untried.forestAt 0).content 6 = .ok [.flat 1, .flat 11] := by
    decide +kernel
  refine ⟨⟨by decide +kernel, by decide +kernel, by decide +kernel⟩, triedTop, untriedTop,
    triedBelow, untriedBelow, ?_⟩
  -- From here on it does not matter how the two families came about.
  clear_value tried untried
  let child : Fin (1 : Fin 2) := ⟨0, Nat.one_pos⟩
  have triedChild : (tried.forestAt 1).children[0]? = some child := by
    rw [(atTried.2.forestAt 1).children]
    rfl
  have untriedChild : (untried.forestAt 1).children[0]? = some child := by
    rw [(atUntried.2.forestAt 1).children]
    rfl
  have triedAtTwo : Content.find? [⟨1, [3]⟩, ⟨2, [6]⟩] 2 = some ⟨2, [6]⟩ := by decide
  have untriedAtTwo : Content.find? [⟨1, [5]⟩, ⟨2, [6]⟩] 2 = some ⟨2, [6]⟩ := by decide
  have inTried : Path.down 2 0 (.here 10) ∈ tried.paths 1 3 :=
    (atTried.1.down_mem_paths_iff triedTop triedAtTwo triedChild).mpr
      ((atTried.1.here_mem_paths_iff triedBelow).mpr rfl)
  intro same
  rw [same] at inTried
  have absent := (atUntried.1.down_mem_paths_iff untriedTop untriedAtTwo untriedChild).mp inTried
  exact Bool.false_ne_true ((atUntried.1.here_mem_paths_iff untriedBelow).mp absent)

end SetForest
