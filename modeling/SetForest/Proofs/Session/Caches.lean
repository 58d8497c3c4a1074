import SetForest.Proofs.Forest.Caches
import SetForest.Proofs.Session.Similar

namespace SetForest.Session

/-!
# Caches that serve one forest

A cache is found by the storage strategy of a forest and by a name, and nothing keeps
callers from using it for several forests and predicates.  If it serves one forest only,
it holds indices of parts of the sets of that forest at any time, and they are filed as
such (`cacheHolds_step`, `cacheFiled_step`).  If it serves one predicate besides, they are
the right ones (`cachesRight_step`).
-/

open SetForest.Action

variable {K : Type} [Key K] {n : Nat} {serves : Fin n → (Element K → Bool) → String → Prop}
  {strategies : Fin n → Strategy} {session : Session K n} {position : Fin n} {strategy : Strategy}
  {name : String} {fulfils : (Element K → Bool) → Prop}

/-- No cache serves two forests or two predicates, where the forests have the given
strategies. -/
def Dedicated (serves : Fin n → (Element K → Bool) → String → Prop)
    (strategies : Fin n → Strategy) : Prop :=
  ∀ position predicate position' predicate' name, serves position predicate name →
    serves position' predicate' name → strategies position = strategies position' →
    position = position' ∧ predicate = predicate'

/-- All caches in use hold right results for the predicates that they serve. -/
def CachesRight (serves : Fin n → (Element K → Bool) → String → Prop)
    (strategies : Fin n → Strategy) (session : Session K n) : Prop :=
  ∀ position predicate name, serves position predicate name →
    (session.family.forestAt position).CacheRight predicate
      (session.cache (strategies position) name)

/-- Of the forests that share their caches with the one at a position, only that one is
filtered with the cache of a name, and only with predicates of a kind. -/
def Reserves (family : Family K n) (position : Fin n) (name : String)
    (fulfils : (Element K → Bool) → Prop) (commands : List (Fin n × Command K)) : Prop :=
  ∀ other a predicate, (other, .filter a predicate name) ∈ commands →
    (family.forestAt other).strategy = (family.forestAt position).strategy →
    other = position ∧ fulfils predicate

/-- Strategies are given once and for all. -/
theorem Reserves.congr {family later : Family K n} {commands : List (Fin n × Command K)}
    (reserves : Reserves family position name fulfils commands) (evolves : family.Evolves later) :
    Reserves later position name fulfils commands := by
  intro other a predicate member same
  rw [(evolves.forestAt other).strategy, (evolves.forestAt position).strategy] at same
  exact reserves other a predicate member same

theorem Reserves.of_cons {family : Family K n} {first : Fin n × Command K}
    {rest : List (Fin n × Command K)}
    (reserves : Reserves family position name fulfils (first :: rest)) :
    (∀ a predicate, first.2 = .filter a predicate name →
      (family.forestAt first.1).strategy = (family.forestAt position).strategy →
      first.1 = position ∧ fulfils predicate) ∧
    Reserves family position name fulfils rest := by
  refine ⟨?_, ?_⟩
  · intro a predicate filters same
    exact reserves first.1 a predicate (filters ▸ List.mem_cons_self) same
  · intro other a predicate member same
    exact reserves other a predicate (List.mem_cons_of_mem first member) same

theorem cachesRight_start (family : Family K n) : CachesRight serves strategies (start family) := by
  intro position predicate name _
  rw [cache_start]
  exact Forest.cacheRight_iff.mpr ⟨Forest.cacheHolds_empty _ _, Forest.cacheFiled_empty _⟩

/-- A filtering is one of the forest, with the cache of the name. -/
theorem filter_forest (session : Session K n) (position : Fin n) (a : Index)
    (predicate : Element K → Bool) (name : String) :
    Forest.filter a predicate
        (session.cache (session.family.forestAt position).strategy name)
        (session.family.forestAt position) =
      ((filter position a predicate name session).1,
        (filter position a predicate name session).2.family.forestAt position) := by
  rw [filter_apply]
  rcases Family.within_apply (fun {_} => Forest.filter a predicate
    (session.cache (session.family.forestAt position).strategy name)) session.family position with
      ⟨answers, reached⟩
  generalize Family.within (Forest.filter a predicate
    (session.cache (session.family.forestAt position).strategy name)) position
      session.family = outcome at answers reached ⊢
  rcases outcome with ⟨error | filtered, later⟩
  · exact Prod.ext answers.symm reached.symm
  · refine Prod.ext answers.symm (Eq.trans reached.symm ?_)
    dsimp only
    rw [family_keepCache]

/-- It keeps the cache that was answered, and all others as they are. -/
theorem cache_filter (session : Session K n) (position : Fin n) (a : Index)
    (predicate : Element K → Bool) (name : String) (strategy : Strategy) (other : String) :
    (filter position a predicate name session).2.cache strategy other =
      match (filter position a predicate name session).1 with
      | .ok filtered =>
        if (session.family.forestAt position).strategy = strategy ∧ name = other then
          filtered.cache
        else session.cache strategy other
      | .error _ => session.cache strategy other := by
  rw [filter_apply]
  rcases Family.within (Forest.filter a predicate
    (session.cache (session.family.forestAt position).strategy name)) position session.family with
      ⟨error | filtered, later⟩
  · rfl
  · dsimp only
    rw [cache_keepCache]
    rfl

variable [ToString K]

/-- To describe what an action has produced leaves all caches as they are. -/
theorem cache_described {α : Type} (action : FamilyM K n α) (index : α → Index)
    (position : Fin n) (answer : α → Produced → Answer K) (session : Session K n)
    (strategy : Strategy) (name : String) :
    ((do
      let value ← onFamily action
      return answer value (← produced position (index value)) : SessionM K n (Answer K))
        session).2.cache strategy name = session.cache strategy name := by
  rw [bind_apply, onFamily_apply]
  rcases action session.family with ⟨_ | value, family⟩
  · rfl
  · dsimp only
    rw [bind_apply, produced_apply]
    rfl

/-- Only filterings write to caches. -/
theorem cache_step (session : Session K n) (position : Fin n) {command : Command K}
    (filtersNot : ∀ a predicate name, command ≠ .filter a predicate name) (strategy : Strategy)
    (name : String) :
    (step position command session).2.cache strategy name = session.cache strategy name := by
  have observed : ∀ read : {m : Nat} → Forest K m → Except Error (Answer K),
      (step.observe position read session).2.cache strategy name = session.cache strategy name :=
    fun read => by rw [observe_apply]
  cases command with
  | registerSet given => exact cache_described _ Registered.index position _ session strategy name
  | registerUnordered given => exact cache_described _ _ position _ session strategy name
  | registerSingle element => exact cache_described _ _ position _ session strategy name
  | apply operation a b => exact cache_described _ _ position _ session strategy name
  | insertSingle a element => exact cache_described _ _ position _ session strategy name
  | removeSingle a element => exact cache_described _ _ position _ session strategy name
  | updateKey a element => exact cache_described _ _ position _ session strategy name
  | removeKey a key => exact cache_described _ _ position _ session strategy name
  | filter a predicate name => exact absurd rfl (filtersNot a predicate name)
  | evict a =>
      rw [step, bind_apply, onFamily_apply]
      rcases Family.within (Forest.evict a) position session.family with ⟨_ | _, family⟩ <;> rfl
  | isEmpty a => rfl
  | _ => exact observed _

/-- The state after a filtering is what `filter` leaves. -/
theorem step_filter_snd (session : Session K n) (position : Fin n) (a : Index)
    (predicate : Element K → Bool) (name : String) :
    (step position (.filter a predicate name) session).2 =
      (filter position a predicate name session).2 := by
  rw [step, bind_apply]
  rcases filter position a predicate name session with ⟨_ | filtered, later⟩
  · rfl
  · dsimp only
    rw [bind_apply, produced_apply]
    rfl

/-- After a step, a cache is the one before, unless a filtering was handed it and has
answered it. -/
theorem cache_cases_step (session : Session K n) (position : Fin n) (command : Command K)
    (strategy : Strategy) (name : String) :
    (step position command session).2.cache strategy name = session.cache strategy name ∨
    ∃ a predicate filtered, command = .filter a predicate name ∧
      (session.family.forestAt position).strategy = strategy ∧
      Forest.filter a predicate (session.cache strategy name)
          (session.family.forestAt position) =
        (.ok filtered, (step position command session).2.family.forestAt position) ∧
      (step position command session).2.cache strategy name = filtered.cache := by
  by_cases filters : ∃ a predicate other, command = .filter a predicate other
  · rcases filters with ⟨a, predicate, other, rfl⟩
    have written := cache_filter session position a predicate other strategy name
    have sifted := filter_forest session position a predicate other
    rw [step_filter_snd]
    cases answered : (filter position a predicate other session).1 with
    | error error =>
        rw [answered] at written
        exact Or.inl written
    | ok filtered =>
        rw [answered] at written sifted
        dsimp only at written
        by_cases same : (session.family.forestAt position).strategy = strategy ∧ other = name
        · rcases same with ⟨rfl, rfl⟩
          rw [if_pos ⟨rfl, rfl⟩] at written
          exact Or.inr ⟨a, predicate, filtered, rfl, rfl, sifted, written⟩
        · rw [if_neg same] at written
          exact Or.inl written
  · exact Or.inl (cache_step session position
      (fun a predicate other same => filters ⟨a, predicate, other, same⟩) strategy name)

/-- A cache that is used for one forest goes on to hold parts of its sets. -/
theorem cacheHolds_step
    (holds : (session.family.forestAt position).CacheHolds fulfils (session.cache strategy name))
    (canonical : (session.family.forestAt position).sets.Canonical) (other : Fin n)
    (command : Command K)
    (served : ∀ a predicate, command = .filter a predicate name →
      (session.family.forestAt other).strategy = strategy → other = position ∧ fulfils predicate) :
    ((step other command session).2.family.forestAt position).CacheHolds fulfils
      ((step other command session).2.cache strategy name) := by
  rcases cache_cases_step session other command strategy name with
    same | ⟨a, predicate, filtered, filters, isAt, answered, same⟩
  · rw [same]
    exact holds.mono canonical ((session.evolves_step other command).forestAt position)
  · rcases served a predicate filters isAt with ⟨rfl, isServed⟩
    rw [same]
    exact holds.filter canonical isServed answered

/-- The parts that it holds stay filed. -/
theorem cacheFiled_step
    (filed : (session.family.forestAt position).CacheFiled (session.cache strategy name))
    (sound : session.family.Sound) (other : Fin n) (command : Command K)
    (fits : command.Fits (session.family.forestAt other))
    (served : ∀ a predicate, command = .filter a predicate name →
      (session.family.forestAt other).strategy = strategy → other = position) :
    ((step other command session).2.family.forestAt position).CacheFiled
      ((step other command session).2.cache strategy name) := by
  rcases cache_cases_step session other command strategy name with
    same | ⟨a, predicate, filtered, filters, isAt, answered, same⟩
  · rw [same]
    exact filed.mono ((session.sound_step other command sound fits).2.forestAt position)
  · rcases served a predicate filters isAt with rfl
    rw [same]
    exact filed.filter (sound.forestAt other) (fun child => sound.lawful _) answered

/-- A step loses no cached result. -/
theorem lookup_step (session : Session K n) (position : Fin n) (command : Command K)
    {a : Index} (found : ((session.cache strategy name).lookup a).isSome) :
    (((step position command session).2.cache strategy name).lookup a).isSome := by
  rcases cache_cases_step session position command strategy name with
    same | ⟨b, predicate, filtered, -, -, answered, same⟩
  · rw [same]
    exact found
  · rw [same]
    rcases Forest.cache_filter answered with kept | ⟨content, stored, -⟩
    · rw [kept]
      exact found
    · rw [stored, Table.lookup_store]
      split
      · rfl
      · exact found

/-! ## Runs -/

/-- A run whose filterings reserve a cache for one forest leaves parts of its sets there. -/
theorem cacheHolds_run
    (holds : (session.family.forestAt position).CacheHolds fulfils
      (session.cache (session.family.forestAt position).strategy name))
    (canonical : (session.family.forestAt position).sets.Canonical)
    {commands : List (Fin n × Command K)}
    (reserves : Reserves session.family position name fulfils commands) :
    ((session.run commands).2.family.forestAt position).CacheHolds fulfils
      ((session.run commands).2.cache (session.family.forestAt position).strategy name) := by
  induction commands generalizing session with
  | nil => exact holds
  | cons first rest ih =>
      rcases reserves.of_cons with ⟨served, reservesRest⟩
      have evolves := session.evolves_step first.1 first.2
      have after := cacheHolds_step holds canonical first.1 first.2 served
      rw [run_cons]
      rw [← (evolves.forestAt position).strategy] at after ⊢
      exact ih after ((evolves.forestAt position).canonical canonical) (reservesRest.congr evolves)

/-- So it is with a cache that was empty at first. -/
theorem cacheHolds_of_empty
    (unused : session.cache (session.family.forestAt position).strategy name = .empty)
    (canonical : (session.family.forestAt position).sets.Canonical)
    {commands : List (Fin n × Command K)}
    (reserves : Reserves session.family position name fulfils commands) :
    ((session.run commands).2.family.forestAt position).CacheHolds fulfils
      ((session.run commands).2.cache
        ((session.run commands).2.family.forestAt position).strategy name) := by
  rw [((session.evolves_run commands).forestAt position).strategy]
  refine cacheHolds_run ?_ canonical reserves
  rw [unused]
  exact Forest.cacheHolds_empty _ _

/-- They stay filed, if what is registered fits. -/
theorem cacheFiled_run
    (filed : (session.family.forestAt position).CacheFiled
      (session.cache (session.family.forestAt position).strategy name))
    (sound : session.family.Sound) {commands : List (Fin n × Command K)}
    (fits : ∀ command ∈ commands, command.2.Fits (session.family.forestAt command.1))
    (reserves : Reserves session.family position name fulfils commands) :
    ((session.run commands).2.family.forestAt position).CacheFiled
      ((session.run commands).2.cache (session.family.forestAt position).strategy name) := by
  induction commands generalizing session with
  | nil => exact filed
  | cons first rest ih =>
      rcases reserves.of_cons with ⟨served, reservesRest⟩
      have evolves := session.evolves_step first.1 first.2
      have fitsFirst := fits first List.mem_cons_self
      have after := cacheFiled_step filed sound first.1 first.2 fitsFirst
        fun a predicate filters same => (served a predicate filters same).1
      rw [run_cons]
      rw [← (evolves.forestAt position).strategy] at after ⊢
      exact ih after (session.sound_step first.1 first.2 sound fitsFirst).1
        (fits_rest sound fits) (reservesRest.congr evolves)

/-- What a cache that was empty at first holds is filed. -/
theorem cacheFiled_of_empty
    (unused : session.cache (session.family.forestAt position).strategy name = .empty)
    (sound : session.family.Sound) {commands : List (Fin n × Command K)}
    (fits : ∀ command ∈ commands, command.2.Fits (session.family.forestAt command.1))
    (reserves : Reserves session.family position name fulfils commands) :
    ((session.run commands).2.family.forestAt position).CacheFiled
      ((session.run commands).2.cache
        ((session.run commands).2.family.forestAt position).strategy name) := by
  rw [((session.evolves_run commands).forestAt position).strategy]
  refine cacheFiled_run ?_ sound fits reserves
  rw [unused]
  exact Forest.cacheFiled_empty _

/-- A run loses no cached result. -/
theorem lookup_run (session : Session K n) (commands : List (Fin n × Command K)) {a : Index}
    (found : ((session.cache strategy name).lookup a).isSome) :
    (((session.run commands).2.cache strategy name).lookup a).isSome := by
  induction commands generalizing session with
  | nil => exact found
  | cons first rest ih =>
      rw [run_cons]
      exact ih _ (session.lookup_step first.1 first.2 found)

/-- Nor does it replace one by another, as long as the cache is used for one predicate. -/
theorem lookup_eq_run {predicate : Element K → Bool}
    (holds : (session.family.forestAt position).CacheHolds (· = predicate)
      (session.cache (session.family.forestAt position).strategy name))
    (canonical : (session.family.forestAt position).sets.Canonical)
    {commands : List (Fin n × Command K)}
    (reserves : Reserves session.family position name (· = predicate) commands) {a r : Index}
    (found : (session.cache (session.family.forestAt position).strategy name).lookup a = some r) :
    ((session.run commands).2.cache (session.family.forestAt position).strategy name).lookup a =
      some r := by
  have evolves := (session.evolves_run commands).forestAt position
  have canonicalLater := evolves.canonical canonical
  rcases Option.isSome_iff_exists.mp (session.lookup_run commands (Option.isSome_of_eq_some found))
    with ⟨r', foundLater⟩
  rcases holds a r found with ⟨content, _, rfl, denotes, denotesResult⟩
  rcases cacheHolds_run holds canonical reserves a r' foundLater with
    ⟨content', _, rfl, denotes', denotesResult'⟩
  rcases canonicalLater.unique (evolves.denotes canonical denotes) denotes' with rfl
  rw [foundLater, (Forest.index_eq_iff canonicalLater denotesResult'
    (evolves.denotes canonical denotesResult)).mpr rfl]

/-! ## Caches that serve one predicate -/

/-- Caches that are dedicated stay right. -/
theorem cachesRight_step (right : CachesRight serves strategies session)
    (dedicated : Dedicated serves strategies) (sound : session.family.Sound)
    (isAt : ∀ position, (session.family.forestAt position).strategy = strategies position)
    (position : Fin n) (command : Command K)
    (fits : command.Fits (session.family.forestAt position))
    (served : ∀ a predicate name, command = .filter a predicate name →
      serves position predicate name) :
    CachesRight serves strategies (step position command session).2 := by
  intro other predicate name isServed
  rcases Forest.cacheRight_iff.mp (right other predicate name isServed) with ⟨holds, filed⟩
  have only : ∀ a predicate', command = .filter a predicate' name →
      (session.family.forestAt position).strategy = strategies other →
      position = other ∧ predicate' = predicate := fun a predicate' filters sameStrategy =>
    dedicated position predicate' other predicate name (served a predicate' name filters) isServed
      ((isAt position).symm.trans sameStrategy)
  exact Forest.cacheRight_iff.mpr
    ⟨cacheHolds_step holds (sound.forestAt other).canonical position command only,
      cacheFiled_step filed sound position command fits
        fun a predicate' filters sameStrategy => (only a predicate' filters sameStrategy).1⟩

end SetForest.Session
