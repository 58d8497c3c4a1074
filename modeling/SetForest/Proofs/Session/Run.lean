import SetForest.Proofs.Family.Single
import SetForest.Proofs.Family.Sound
import SetForest.Session

namespace SetForest

/-!
# Runs of sessions

A session answers commands one by one, and only the first part of a command
touches the family.  `Command.effect` names that part.  What an answer shows is
read off afterwards, and the named caches matter to a family only through the
cache that a filtering is handed.

Every effect is made of steps at the position of its command, so the two
invariants of families carry over to whole runs.  A family only interns and
evicts, whatever is asked of it (`Session.evolves_run`).  And it stays sound as
long as what is registered belongs into its forest (`Command.Fits`), which is
for callers to see to (`Session.sound_run`).
-/

variable {K : Type} [Key K] {n : Nat} {α β : Type}

/-! ## Commands -/

namespace Command

/-- What a command does to the family, where a filtering is handed `cache`. -/
def effect (position : Fin n) (cache : FilterCache) (family : Family K n) :
    Command K → Family K n
  | registerSet given => (Family.within (Forest.registerSet given) position family).2
  | registerUnordered given => (Family.within (Forest.registerUnordered given) position family).2
  | registerSingle element =>
    (Family.within (ExceptT.lift (Forest.registerSingle element)) position family).2
  | apply operation a b => (Family.apply operation position a b family).2
  | insertSingle a element => (Family.insertSingle position a element family).2
  | removeSingle a element => (Family.removeSingle position a element family).2
  | updateKey a element => (Family.within (Forest.updateKey a element) position family).2
  | removeKey a key => (Family.within (Forest.removeKey a key) position family).2
  | filter a predicate _ => (Family.within (Forest.filter a predicate cache) position family).2
  | evict a => (Family.within (Forest.evict a) position family).2
  | _ => family

/-- What a command stores in a forest as it was given is allowed.  A forest that
checks sets stores only those that pass. -/
def Stores (admits : Content K → Prop) (config : Config) : Command K → Prop
  | registerSet given => (config.integrityChecks = true → given.Increasing) → admits given
  | registerUnordered given =>
    (Content.prepare given).Increasing → admits (Content.prepare given)
  | registerSingle element => admits [element]
  | insertSingle _ element => admits [element]
  | removeSingle _ element => admits [element]
  | updateKey _ element => admits [element]
  | _ => True

/-- What a caller has to see to.  A set that is registered is increasing, unless
the forest checks that itself, and all elements have one child for each child
forest. -/
def Fits (forest : Forest K n) : Command K → Prop
  | registerSet given =>
    (forest.config.integrityChecks = false → given.Increasing) ∧
      given.HasArity forest.children.length
  | registerUnordered given => Content.HasArity given forest.children.length
  | registerSingle element => element.children.length = forest.children.length
  | insertSingle _ element => element.children.length = forest.children.length
  | removeSingle _ element => element.children.length = forest.children.length
  | updateKey _ element => element.children.length = forest.children.length
  | _ => True

/-- Whether a command fits is a matter of configuration and arity. -/
theorem Fits.congr {m : Nat} {forest later : Forest K m} {command : Command K}
    (fits : command.Fits forest) (config : later.config = forest.config)
    (children : later.children = forest.children) : command.Fits later := by
  cases command <;> simp only [Fits, config, children] at fits ⊢ <;> exact fits

/-- A command that fits goes on to fit. -/
theorem Fits.evolves {family later : Family K n} {command : Fin n × Command K}
    (fits : command.2.Fits (family.forestAt command.1)) (evolves : family.Evolves later) :
    command.2.Fits (later.forestAt command.1) :=
  have kept := evolves.forestAt command.1
  fits.congr kept.config kept.children

/-- What fits into a family fits into a later one, as it depends on what the
forests were created with. -/
theorem fits_of_extends {family later : Family K n} (extension : family.Extends later)
    {commands : List (Fin n × Command K)}
    (fits : ∀ command ∈ commands, command.2.Fits (family.forestAt command.1)) :
    ∀ command ∈ commands, command.2.Fits (later.forestAt command.1) := by
  intro command member
  have kept := extension.forestAt command.1
  exact (fits command member).congr kept.config kept.children

/-- A fitting command stores what belongs into the forest. -/
theorem Fits.stores {forest : Forest K n} {command : Command K} (fits : command.Fits forest) :
    command.Stores forest.Admits forest.config := by
  cases command with
  | registerSet given =>
      intro accepted
      refine ⟨?_, fits.2⟩
      cases checks : forest.config.integrityChecks with
      | true => exact accepted checks
      | false => exact fits.1 checks
  | registerUnordered given =>
      intro increasing
      refine ⟨increasing, ?_⟩
      intro element member
      exact fits element ((Content.mem_prepare element given).mp member)
  | registerSingle element => exact Forest.admits_single fits
  | insertSingle a element => exact Forest.admits_single fits
  | removeSingle a element => exact Forest.admits_single fits
  | updateKey a element => exact Forest.admits_single fits
  | _ => trivial

/-- The effect of a command consists of steps at its position. -/
theorem steps_effect {admits : Content K → Prop} (position : Fin n) (cache : FilterCache)
    (family : Family K n) (command : Command K)
    (stores : command.Stores admits (family.forestAt position).config) :
    Family.Steps admits position family (command.effect position cache family) := by
  cases command with
  | registerSet given =>
      exact .single (.changed (fun {_} => Forest.registerSet given)
        (Forest.changes_registerSet _ given stores))
  | registerUnordered given =>
      exact .single (.changed (fun {_} => Forest.registerUnordered given)
        (Forest.changes_registerUnordered _ given stores))
  | registerSingle element =>
      exact .single (.changed (fun {_} => ExceptT.lift (Forest.registerSingle element))
        (Forest.changes_registerSingle _ element stores))
  | apply operation a b => exact .single (.applied operation a b)
  | insertSingle a element => exact Family.steps_applySingle .union position a element family stores
  | removeSingle a element =>
      exact Family.steps_applySingle .difference position a element family stores
  | updateKey a element =>
      exact .single (.changed (fun {_} => Forest.updateKey a element)
        (Forest.changes_updateKey _ a element stores))
  | removeKey a key =>
      exact .single (.changed (fun {_} => Forest.removeKey a key)
        (Forest.changes_removeKey _ a key))
  | filter a predicate name =>
      exact .single (.changed (fun {_} => Forest.filter a predicate cache)
        (Forest.changes_filter _ a predicate cache))
  | evict a => exact .single (.changed (fun {_} => Forest.evict a) (Forest.changes_evict _ a))
  | _ => exact .refl

end Command

namespace Session

open SetForest.Action

theorem family_start (family : Family K n) : (start family).family = family := rfl

theorem onFamily_apply (action : FamilyM K n α) (session : Session K n) :
    onFamily action session =
      ((action session.family).1, { session with family := (action session.family).2 }) := rfl

/-- What is done after an action and leaves the family alone may be ignored. -/
theorem family_bind (first : SessionM K n α) (next : α → SessionM K n β) (session : Session K n)
    (keeps : ∀ value after, (next value after).2.family = after.family) :
    ((first >>= next) session).2.family = (first session).2.family := by
  rw [bind_apply]
  cases first session with
  | mk answer after =>
      cases answer with
      | error error => rfl
      | ok value => exact keeps value after

/-- Reading leaves the family alone. -/
theorem family_reading (read : {m : Nat} → Forest K m → Except Error α) (position : Fin n)
    (session : Session K n) :
    (onFamily (Family.reading read position) session).2.family = session.family := by
  rw [onFamily_apply, Family.reading_apply]

/-- A filtering is handed the cache of its name, and the cache that it answers is kept. -/
theorem filter_apply (session : Session K n) (position : Fin n) (a : Index)
    (predicate : Element K → Bool) (name : String) :
    filter position a predicate name session =
      match Family.within (Forest.filter a predicate
          (session.cache (session.family.forestAt position).strategy name)) position
            session.family with
      | (.error error, family) => (.error error, { session with family })
      | (.ok filtered, family) => (.ok filtered, keepCache { session with family }
          (session.family.forestAt position).strategy name filtered.cache) := by
  simp only [filter, bind_apply, onFamily_apply, Family.reading_apply, get_apply]
  rcases Family.within (Forest.filter a predicate
    (session.cache (session.family.forestAt position).strategy name)) position session.family with
      ⟨_ | filtered, family⟩ <;> rfl

theorem family_keepCache (session : Session K n) (strategy : Strategy) (name : String)
    (cache : FilterCache) : (session.keepCache strategy name cache).family = session.family := by
  cases strategy <;> rfl

/-- What a filtering does to the family does not depend on the caches otherwise. -/
theorem family_filter (session : Session K n) (position : Fin n) (a : Index)
    (predicate : Element K → Bool) (name : String) :
    ∃ cache, (filter position a predicate name session).2.family =
      (Family.within (Forest.filter a predicate cache) position session.family).2 := by
  refine ⟨session.cache (session.family.forestAt position).strategy name, ?_⟩
  rw [filter_apply]
  rcases Family.within (Forest.filter a predicate
    (session.cache (session.family.forestAt position).strategy name)) position session.family with
      ⟨error | filtered, family⟩
  · rfl
  · exact family_keepCache _ _ _ _

/-- An observation leaves the session as it is. -/
theorem observe_apply (position : Fin n)
    (read : {m : Nat} → Forest K m → Except Error (Answer K)) (session : Session K n) :
    step.observe position read session =
      (read (session.family.forestAt position), session) := by
  rw [step.observe, onFamily_apply, Family.reading_apply]

variable [ToString K]

theorem produced_apply (position : Fin n) (index : Index) (session : Session K n) :
    produced position index session =
      (.ok ⟨index, ((session.family.forestAt position).setText index).toOption,
        (session.family.forestAt position).size⟩, session) := by
  rw [produced, onFamily_apply, Family.reading_apply]

theorem family_produced (position : Fin n) (index : Index) (session : Session K n) :
    (produced position index session).2.family = session.family := by
  rw [produced_apply]

/-- To describe what an action has produced leaves the family as it is. -/
theorem family_described (action : FamilyM K n α) (index : α → Index) (position : Fin n)
    (answer : α → Produced → Answer K) (session : Session K n) :
    ((do
      let value ← onFamily action
      return answer value (← produced position (index value)) : SessionM K n (Answer K))
        session).2.family = (action session.family).2 := by
  rw [family_bind]
  · rw [onFamily_apply]
  · intro value after
    rw [family_bind]
    · exact family_produced position (index value) after
    · intro _ _
      rfl

/-- What a command produces is the answer of its action. -/
theorem exists_of_computed {action : FamilyM K n Index} {position : Fin n}
    {session : Session K n} {shown : Produced}
    (answered : ((do
      return .computed (← produced position (← onFamily action)) : SessionM K n (Answer K))
        session).1 = .ok (.computed shown)) :
    ∃ later, action session.family = (.ok shown.index, later) ∧
      ((do
        return .computed (← produced position (← onFamily action)) : SessionM K n (Answer K))
          session).2.family = later := by
  simp only [bind_apply, onFamily_apply, produced_apply] at answered ⊢
  cases called : action session.family with
  | mk answer later =>
      rw [called] at answered
      cases answer with
      | error error => cases answered
      | ok r =>
          cases answered
          exact ⟨later, rfl, rfl⟩

/-- A step changes the family by the effect of its command. -/
theorem family_step (session : Session K n) (position : Fin n) (command : Command K) :
    ∃ cache, (step position command session).2.family =
      command.effect position cache session.family := by
  cases command with
  | filter a predicate name =>
      rcases family_filter session position a predicate name with ⟨cache, filtered⟩
      refine ⟨cache, Eq.trans (family_bind _ _ session ?_) filtered⟩
      intro value after
      rw [family_bind]
      · exact family_produced position value.index after
      · intro _ _
        rfl
  | evict a => exact ⟨.empty, family_bind _ _ session fun _ _ => rfl⟩
  | isEmpty a => exact ⟨.empty, rfl⟩
  | registerSet given => exact ⟨.empty, family_described _ Registered.index position _ session⟩
  | registerUnordered given => exact ⟨.empty, family_described _ _ position _ session⟩
  | registerSingle element => exact ⟨.empty, family_described _ _ position _ session⟩
  | apply operation a b => exact ⟨.empty, family_described _ _ position _ session⟩
  | insertSingle a element => exact ⟨.empty, family_described _ _ position _ session⟩
  | removeSingle a element => exact ⟨.empty, family_described _ _ position _ session⟩
  | updateKey a element => exact ⟨.empty, family_described _ _ position _ session⟩
  | removeKey a key => exact ⟨.empty, family_described _ _ position _ session⟩
  | _ => exact ⟨.empty, family_reading _ position session⟩

/-! ## Runs -/

theorem run_cons (session : Session K n) (first : Fin n × Command K)
    (rest : List (Fin n × Command K)) :
    (session.run (first :: rest)).2 = (run (step first.1 first.2 session).2 rest).2 := by
  simp only [run, List.mapM_cons]
  rfl

theorem run_append (session : Session K n) (before after : List (Fin n × Command K)) :
    (session.run (before ++ after)).2 = (run (session.run before).2 after).2 := by
  induction before generalizing session with
  | nil => rfl
  | cons first rest ih =>
      rw [List.cons_append, run_cons, run_cons]
      exact ih _

/-- The commands of a run with their answers. -/
def transcript (session : Session K n) (commands : List (Fin n × Command K)) :
    List ((Fin n × Command K) × Except Error (Answer K)) :=
  commands.zip (session.run commands).1

theorem transcript_cons (session : Session K n) (first : Fin n × Command K)
    (rest : List (Fin n × Command K)) :
    session.transcript (first :: rest) = (first, (step first.1 first.2 session).1) ::
      transcript (step first.1 first.2 session).2 rest := by
  simp only [transcript, run, List.mapM_cons]
  rfl

/-- An answer is found by the place of its command. -/
theorem mem_transcript_of_getElem? {session : Session K n} {commands : List (Fin n × Command K)}
    {command : Fin n × Command K} {answer : Except Error (Answer K)} (place : Nat)
    (asked : commands[place]? = some command)
    (answered : (session.run commands).1[place]? = some answer) :
    (command, answer) ∈ session.transcript commands :=
  List.mem_of_getElem? (List.getElem?_zip_eq_some.mpr ⟨asked, answered⟩)

/-- An answer was given in the state that the commands before it have left. -/
theorem exists_of_mem_transcript {session : Session K n} {commands : List (Fin n × Command K)}
    {command : Fin n × Command K} {answer : Except Error (Answer K)}
    (member : (command, answer) ∈ session.transcript commands) :
    ∃ before after, commands = before ++ command :: after ∧
      (step command.1 command.2 (session.run before).2).1 = answer := by
  induction commands generalizing session with
  | nil => cases member
  | cons first rest ih =>
      rw [transcript_cons] at member
      rcases List.mem_cons.mp member with here | inRest
      · rcases Prod.mk.inj here with ⟨rfl, rfl⟩
        exact ⟨[], rest, rfl, rfl⟩
      · rcases ih inRest with ⟨before, after, rfl, answered⟩
        refine ⟨first :: before, after, rfl, ?_⟩
        rw [run_cons]
        exact answered

/-- What every change and every settled result does to its forest, a run does to
the family, whatever it is asked. -/
theorem related_run {relation : (m : Nat) → Forest K m → Forest K m → Prop}
    (refl : ∀ m (forest : Forest K m), relation m forest forest)
    (trans : ∀ m (first second third : Forest K m), relation m first second →
      relation m second third → relation m first third)
    (changed : ∀ m (forest later : Forest K m), Forest.Change (fun _ => True) forest later →
      relation m forest later)
    (settled : ∀ m (forest : Forest K m) operation a b content,
      relation m forest (Forest.settle operation a b content forest).2)
    (session : Session K n) (commands : List (Fin n × Command K)) :
    Family.Related relation session.family (session.run commands).2.family := by
  induction commands generalizing session with
  | nil => exact Family.Related.refl refl session.family
  | cons first rest ih =>
      rcases family_step session first.1 first.2 with ⟨cache, stepped⟩
      have stores : first.2.Stores (fun _ => True) (session.family.forestAt first.1).config := by
        cases first.2 <;> first | trivial | exact fun _ => trivial
      have steps := Command.steps_effect first.1 cache session.family first.2 stores
      have effect := steps.related refl trans changed settled
      rw [← stepped] at effect
      rw [run_cons]
      exact effect.trans trans (ih _)

/-- The family after a run consists of the same stores after more interning and
evicting. -/
theorem evolves_run (session : Session K n) (commands : List (Fin n × Command K)) :
    session.family.Evolves (session.run commands).2.family :=
  related_run (fun _ => Forest.Evolves.refl) (fun _ _ _ _ => Forest.Evolves.trans)
    (fun _ _ _ change => change.evolves)
    (fun _ forest operation a b content => forest.evolves_settle operation a b content)
    session commands

/-- So does the family after one step. -/
theorem evolves_step (session : Session K n) (position : Fin n) (command : Command K) :
    session.family.Evolves (step position command session).2.family := by
  have evolves := session.evolves_run [(position, command)]
  rw [run_cons] at evolves
  exact evolves

/-- Commands of some kind keep families of some kind. -/
structure Keeps (fit : Family K n → Prop) (allowed : Family K n → Fin n × Command K → Prop) :
    Prop where
  step : ∀ (session : Session K n) (command : Fin n × Command K), fit session.family →
    allowed session.family command → fit (Session.step command.1 command.2 session).2.family
  mono : ∀ family later command, family.Evolves later → allowed family command →
    allowed later command

/-- So do whole runs. -/
theorem Keeps.run {fit : Family K n → Prop} {allowed : Family K n → Fin n × Command K → Prop}
    (keeps : Keeps fit allowed) {session : Session K n} (fits : fit session.family)
    (commands : List (Fin n × Command K))
    (areAllowed : ∀ command ∈ commands, allowed session.family command) :
    fit (session.run commands).2.family := by
  induction commands generalizing session with
  | nil => exact fits
  | cons first rest ih =>
      rw [run_cons]
      refine ih (keeps.step session first fits (areAllowed first List.mem_cons_self)) ?_
      intro command member
      exact keeps.mono _ _ command (session.evolves_step first.1 first.2)
        (areAllowed command (List.mem_cons_of_mem first member))

/-- A step with a fitting command keeps the family sound. -/
theorem sound_step (session : Session K n) (position : Fin n) (command : Command K)
    (sound : session.family.Sound) (fits : command.Fits (session.family.forestAt position)) :
    (step position command session).2.family.Sound ∧
      session.family.Extends (step position command session).2.family := by
  rcases family_step session position command with ⟨cache, stepped⟩
  rw [stepped]
  exact sound.steps (fun _ admitted => admitted)
    (Command.steps_effect position cache session.family command fits.stores)

/-- Commands that fit before a first one fit after it. -/
theorem fits_rest {session : Session K n} {first : Fin n × Command K}
    {rest : List (Fin n × Command K)} (sound : session.family.Sound)
    (fits : ∀ command ∈ first :: rest, command.2.Fits (session.family.forestAt command.1)) :
    ∀ command ∈ rest,
      command.2.Fits ((step first.1 first.2 session).2.family.forestAt command.1) :=
  Command.fits_of_extends
    (session.sound_step first.1 first.2 sound (fits first List.mem_cons_self)).2
    fun command member => fits command (List.mem_cons_of_mem first member)

/-- A run of fitting commands keeps the family sound. -/
theorem sound_run (session : Session K n) (commands : List (Fin n × Command K))
    (sound : session.family.Sound)
    (fits : ∀ command ∈ commands, command.2.Fits (session.family.forestAt command.1)) :
    (session.run commands).2.family.Sound ∧
      session.family.Extends (session.run commands).2.family := by
  induction commands generalizing session with
  | nil => exact ⟨sound, Family.Extends.refl session.family⟩
  | cons first rest ih =>
      rcases session.sound_step first.1 first.2 sound (fits first List.mem_cons_self) with
        ⟨soundAfter, extension⟩
      rcases ih _ soundAfter (fits_rest sound fits) with ⟨soundLast, further⟩
      rw [run_cons]
      exact ⟨soundLast, extension.trans further⟩

end Session

end SetForest
