import SetForest.Proofs.Family.Similar
import SetForest.Proofs.Session.Run

namespace SetForest

/-!
# Similar sessions

Two sessions are similar if their families are and if the caches in use hold the
same.  A cache is found by its name and by the storage strategy of the forest that
filters, so the strategies of both families enter.

What the two sessions answer to one command is then alike (`Answer.Alike`).  If the
resemblance is exact, that means the same answer.  Otherwise the first session may
leave out the text of a set that it has evicted, and may have consulted a predicate
more often.
-/

/-- Two descriptions of a set that agree, except that an inexact resemblance allows
the text to be missing in the first. -/
def Produced.Alike (isExact : Prop) (first second : Produced) : Prop :=
  first.index = second.index ∧ first.size = second.size ∧
    (first.text = second.text ∨ ¬isExact ∧ first.text = none)

/-- Two answers that agree as far as the resemblance allows. -/
def Answer.Alike {K : Type} (isExact : Prop) : Answer K → Answer K → Prop
  | .registered produced cold, .registered produced' cold' =>
    produced.Alike isExact produced' ∧ cold = cold'
  | .computed produced, .computed produced' => produced.Alike isExact produced'
  | .filtered produced calls cached, .filtered produced' calls' cached' =>
    produced.Alike isExact produced' ∧ (isExact → calls = calls') ∧ cached = cached'
  | answer, answer' => answer = answer'

theorem Produced.Alike.eq {first second : Produced} (alike : first.Alike True second) :
    first = second := by
  rcases alike with ⟨index, size, text⟩
  have sameText := text.resolve_right fun missing => missing.1 trivial
  cases first
  cases second
  cases index
  cases size
  cases sameText
  rfl

theorem Answer.Alike.eq {K : Type} {first second : Answer K} (alike : first.Alike True second) :
    first = second := by
  unfold Answer.Alike at alike
  split at alike
  · rw [alike.1.eq, alike.2]
  · rw [alike.eq]
  · rw [alike.1.eq, alike.2.1 trivial, alike.2.2]
  · exact alike

theorem Answer.Alike.refl {K : Type} (isExact : Prop) (answer : Answer K) :
    answer.Alike isExact answer := by
  have same : ∀ produced : Produced, produced.Alike isExact produced :=
    fun produced => ⟨rfl, rfl, Or.inl rfl⟩
  cases answer with
  | registered produced cold => exact ⟨same produced, rfl⟩
  | computed produced => exact same produced
  | filtered produced calls cached => exact ⟨same produced, fun _ => rfl, rfl⟩
  | _ => rfl

variable {K : Type} [Key K] {n : Nat} {α : Type} {sim : Resemblance (Element K)}

/-- A command that neither changes what is resident by itself, nor reports on that or
on the outcomes that were counted. -/
def Command.Plain : Command K → Prop
  | .evict _ | .isEvicted _ | .dump | .statistics => False
  | _ => True

/-- A command that only asks. -/
def Command.Asks : Command K → Prop
  | .registerSet _ | .registerUnordered _ | .registerSingle _ => False
  | .apply .. | .insertSingle .. | .removeSingle .. | .updateKey .. | .removeKey .. => False
  | .filter .. | .evict _ => False
  | _ => True

/-- What keeps a plain command in lockstep in two families.  Registrations, updates
and readings always are.  The others have to be looked at for each resemblance. -/
def Command.InStep (sim : Resemblance (Element K)) (position : Fin n)
    (caches : String → FilterCache) (x y : Family K n) : Command K → Prop
  | .apply operation a b =>
    Family.InStep sim (Family.apply operation position a b x)
      (Family.apply operation position a b y)
  | .insertSingle a element =>
    Family.InStep sim (Family.insertSingle position a element x)
      (Family.insertSingle position a element y)
  | .removeSingle a element =>
    Family.InStep sim (Family.removeSingle position a element x)
      (Family.removeSingle position a element y)
  | .filter a predicate name =>
    Lockstep sim.Excuses (Family.Similar sim) (Filtered.Alike sim.exact)
      (Family.within (Forest.filter a predicate (caches name)) position x)
      (Family.within (Forest.filter a predicate (caches name)) position y)
  | _ => True

/-- Where two families also agree on what is evicted, nothing else is to be looked at. -/
theorem Command.inStep_of_agree {x y : Family K n} (similar : Family.Similar sim x y)
    (agree : ∀ x y, sim.alike x y → ∀ index, x.isEvicted index = y.isEvicted index)
    (position : Fin n) (caches : String → FilterCache) (command : Command K) :
    command.InStep sim position caches x y := by
  have forests := similar.forestAt position
  have single : ∀ operation a element, Family.InStep sim
      (Family.applySingle operation position a element x)
      (Family.applySingle operation position a element y) := fun operation a element =>
    Family.lockstep_applySingle (fun _ => Forest.Similar.kept sim)
      (fun _ _ _ _ _ => Family.inStep_apply agree operation _ _ _) position a element similar
  cases command with
  | apply operation a b => exact Family.inStep_apply agree operation position a b similar
  | insertSingle a element => exact single .union a element
  | removeSingle a element => exact single .difference a element
  | filter a predicate name =>
      refine Family.lockstep_within similar (fun {_} => Forest.filter a predicate (caches name))
        position ?_
      exact (Forest.inStep_filter forests a predicate (caches name)
        (fun _ result _ => agree _ _ forests.sets result)).mono (fun _ _ related => related)
          fun _ _ same => same ▸ .refl _ _
  | _ => trivial

namespace Session

open SetForest.Action

variable {x y : Session K n}

/-! ## Sessions in lockstep -/

section

variable {excuses : Error → Prop} {related : Session K n → Session K n → Prop}
  {alike : α → α → Prop}

/-- An action on the family keeps sessions in lockstep if it keeps their families so. -/
theorem lockstep_onFamily_of {relatedFamily : Family K n → Family K n → Prop}
    {action : FamilyM K n α}
    (here : Lockstep excuses relatedFamily alike (action x.family) (action y.family))
    (keeps : ∀ later later', relatedFamily later later' →
      related { x with family := later } { y with family := later' }) :
    Lockstep excuses related alike (onFamily action x) (onFamily action y) := by
  rw [onFamily_apply, onFamily_apply]
  generalize action x.family = outcome at here
  generalize action y.family = outcome' at here
  cases here with
  | excused excused => exact .excused excused
  | answered isAlike isRelated => exact .answered isAlike (keeps _ _ isRelated)
  | failed isRelated => exact .failed (keeps _ _ isRelated)

/-- A filtering keeps sessions in lockstep if it keeps their families so, and if the caches
that are answered may be kept. -/
theorem lockstep_filter_of {relatedFamily : Family K n → Family K n → Prop}
    {filteredAlike : Filtered → Filtered → Prop} {position : Fin n} {a : Index}
    {predicate : Element K → Bool} {name : String}
    (here : Lockstep excuses relatedFamily filteredAlike
      (Family.within (Forest.filter a predicate
        (x.cache (x.family.forestAt position).strategy name)) position x.family)
      (Family.within (Forest.filter a predicate
        (y.cache (y.family.forestAt position).strategy name)) position y.family))
    (keeps : ∀ later later', relatedFamily later later' →
      related { x with family := later } { y with family := later' })
    (keepsCache : ∀ later later' filtered filtered',
      related { x with family := later } { y with family := later' } →
      filteredAlike filtered filtered' →
      related
        (keepCache { x with family := later } (x.family.forestAt position).strategy name
          filtered.cache)
        (keepCache { y with family := later' } (y.family.forestAt position).strategy name
          filtered'.cache)) :
    Lockstep excuses related filteredAlike (filter position a predicate name x)
      (filter position a predicate name y) := by
  rw [filter_apply, filter_apply]
  generalize Family.within (Forest.filter a predicate
    (x.cache (x.family.forestAt position).strategy name)) position x.family = outcome at here
  generalize Family.within (Forest.filter a predicate
    (y.cache (y.family.forestAt position).strategy name)) position y.family = outcome' at here
  cases here with
  | excused excused => exact .excused excused
  | answered isAlike isRelated =>
      exact .answered isAlike (keepsCache _ _ _ _ (keeps _ _ isRelated) isAlike)
  | failed isRelated => exact .failed (keeps _ _ isRelated)

/-- What an action has produced is described alike if any set is. -/
theorem lockstep_described_of [ToString K] {described : Produced → Produced → Prop}
    {answered : Answer K → Answer K → Prop} {action : SessionM K n α} {index : α → Index}
    {position : Fin n} {answer : α → Produced → Answer K}
    (describes : ∀ index x y, related x y → Lockstep excuses related described
      (produced position index x) (produced position index y))
    (sameIndex : ∀ value other, alike value other → index value = index other)
    (answers : ∀ value other produced produced', alike value other →
      described produced produced' → answered (answer value produced) (answer other produced'))
    (here : Lockstep excuses related alike (action x) (action y)) :
    Lockstep excuses related answered
      ((do
        let value ← action
        return answer value (← produced position (index value)) : SessionM K n (Answer K)) x)
      ((do
        let value ← action
        return answer value (← produced position (index value)) : SessionM K n (Answer K)) y) := by
  apply here.bind
  intro value other x' y' isAlike relatedLater
  rw [sameIndex value other isAlike]
  apply (describes (index other) x' y' relatedLater).bind
  intro produced produced' x'' y'' producedAlike relatedLast
  exact .answered (answers value other produced produced' isAlike producedAlike) relatedLast

end

/-! ## Similarity -/

/-- Sessions that answer alike, where the forests have the given strategies and the
given names of caches are in use. -/
structure Similar (sim : Resemblance (Element K)) (used : Fin n → String → Prop)
    (strategies strategies' : Fin n → Strategy) (x y : Session K n) : Prop where
  family : Family.Similar sim x.family y.family
  caches : ∀ position name, used position name →
    x.cache (strategies position) name = y.cache (strategies' position) name

variable {used : Fin n → String → Prop} {strategies strategies' : Fin n → Strategy}

/-- An action on the family does not concern the caches. -/
theorem lockstep_onFamily {alike : α → α → Prop} {action : FamilyM K n α}
    (similar : Similar sim used strategies strategies' x y)
    (here : Lockstep sim.Excuses (Family.Similar sim) alike (action x.family) (action y.family)) :
    Lockstep sim.Excuses (Similar sim used strategies strategies') alike (onFamily action x)
      (onFamily action y) :=
  lockstep_onFamily_of here fun _ _ isRelated => ⟨isRelated, similar.caches⟩

theorem lockstep_reading (similar : Similar sim used strategies strategies' x y)
    (read : {m : Nat} → Forest K m → Except Error α) (position : Fin n)
    (reads : Reads sim.Excuses (read (x.family.forestAt position))
      (read (y.family.forestAt position))) :
    Lockstep sim.Excuses (Similar sim used strategies strategies') Eq
      (onFamily (Family.reading read position) x) (onFamily (Family.reading read position) y) := by
  rw [onFamily_apply, onFamily_apply, Family.reading_apply, Family.reading_apply]
  exact Lockstep.read similar reads

/-! ## Caches -/

theorem cache_start (family : Family K n) (strategy : Strategy) (name : String) :
    (start family).cache strategy name = .empty := by
  cases strategy <;> rfl

theorem cache_keepCache (session : Session K n) (strategy other : Strategy) (name name' : String)
    (cache : FilterCache) :
    (session.keepCache strategy name cache).cache other name' =
      if strategy = other ∧ name = name' then cache else session.cache other name' := by
  by_cases sameStrategy : strategy = other
  · subst other
    by_cases sameName : name = name'
    · subst name'
      rw [if_pos ⟨rfl, rfl⟩]
      cases strategy <;> simp [Session.cache, caches, keepCache]
    · rw [if_neg fun both => sameName both.2]
      cases strategy <;>
        simp [Session.cache, caches, keepCache, Table.lookup_store_of_ne _ _ sameName]
  · rw [if_neg fun both => sameStrategy both.1]
    cases strategy <;> cases other <;> first | rfl | exact absurd rfl sameStrategy

/-- The same positions share a cache of one name in both families. -/
def Shared (used : Fin n → String → Prop) (strategies strategies' : Fin n → Strategy) : Prop :=
  ∀ name position other, used position name → used other name →
    (strategies position = strategies other ↔ strategies' position = strategies' other)

/-- A cache may be kept under a name if both sessions do so. -/
theorem Similar.keepCache (similar : Similar sim used strategies strategies' x y)
    (shared : Shared used strategies strategies') {position : Fin n} {name : String}
    (isUsed : used position name) (cache : FilterCache) :
    Similar sim used strategies strategies' (x.keepCache (strategies position) name cache)
      (y.keepCache (strategies' position) name cache) := by
  refine ⟨?_, ?_⟩
  · rw [family_keepCache, family_keepCache]
    exact similar.family
  · intro other name' otherUsed
    rw [cache_keepCache, cache_keepCache, similar.caches other name' otherUsed]
    by_cases sameName : name = name'
    · subst name'
      simp only [shared name position other isUsed otherUsed]
    · rw [if_neg fun both => sameName both.2, if_neg fun both => sameName both.2]

/-- A filtering is in lockstep if the forests filter with the common cache in lockstep. -/
theorem lockstep_filter (similar : Similar sim used strategies strategies' x y)
    (shared : Shared used strategies strategies') {position : Fin n} {name : String}
    (isUsed : used position name)
    (isFirst : (x.family.forestAt position).strategy = strategies position)
    (isSecond : (y.family.forestAt position).strategy = strategies' position)
    {a : Index} {predicate : Element K → Bool}
    (here : Lockstep sim.Excuses (Family.Similar sim) (Filtered.Alike sim.exact)
      (Family.within (Forest.filter a predicate (x.cache (strategies position) name)) position
        x.family)
      (Family.within (Forest.filter a predicate (x.cache (strategies position) name)) position
        y.family)) :
    Lockstep sim.Excuses (Similar sim used strategies strategies') (Filtered.Alike sim.exact)
      (filter position a predicate name x) (filter position a predicate name y) := by
  have sameCache := similar.caches position name isUsed
  refine lockstep_filter_of ?_ (fun _ _ isRelated => ⟨isRelated, similar.caches⟩) ?_
  · rw [isFirst, isSecond, ← sameCache]
    exact here
  · intro later later' filtered filtered' isRelated isAlike
    rw [isFirst, isSecond, isAlike.2.2]
    exact isRelated.keepCache shared isUsed _

/-! ## Steps -/

variable [ToString K]

theorem lockstep_produced (similar : Similar sim used strategies strategies' x y)
    (position : Fin n) (index : Index) :
    Lockstep sim.Excuses (Similar sim used strategies strategies') (Produced.Alike sim.exact)
      (produced position index x) (produced position index y) := by
  have forests := similar.family.forestAt position
  rw [produced_apply, produced_apply]
  refine .answered ⟨rfl, forests.size, ?_⟩ similar
  rcases forests.setText index with same | ⟨error, refused, inexact, -⟩
  · exact Or.inl (congrArg Except.toOption same)
  · exact Or.inr ⟨inexact, congrArg Except.toOption refused⟩

/-- What an action on the family has produced is described alike. -/
theorem lockstep_described {alike : α → α → Prop} {action : SessionM K n α}
    (index : α → Index) (position : Fin n) (answer : α → Produced → Answer K)
    (sameIndex : ∀ value other, alike value other → index value = index other)
    (answersAlike : ∀ value other produced produced', alike value other →
      produced.Alike sim.exact produced' →
      (answer value produced).Alike sim.exact (answer other produced'))
    (here : Lockstep sim.Excuses (Similar sim used strategies strategies') alike (action x)
      (action y)) :
    Lockstep sim.Excuses (Similar sim used strategies strategies') (Answer.Alike sim.exact)
      ((do
        let value ← action
        return answer value (← produced position (index value)) : SessionM K n (Answer K)) x)
      ((do
        let value ← action
        return answer value (← produced position (index value)) : SessionM K n (Answer K)) y) :=
  lockstep_described_of (fun index _ _ similar => lockstep_produced similar position index)
    sameIndex answersAlike here

/-- A question leaves the session as it is. -/
theorem step_of_asks (session : Session K n) (position : Fin n) {command : Command K}
    (asks : command.Asks) : (step position command session).2 = session := by
  have observed := fun read : {m : Nat} → Forest K m → Except Error (Answer K) =>
    congrArg Prod.snd (observe_apply position read session)
  cases command with
  | isEmpty a => rfl
  | registerSet | registerUnordered | registerSingle | apply | insertSingle | removeSingle
  | updateKey | removeKey | filter | evict => exact asks.elim
  | _ => exact observed _

/-- Similar sessions take a step in lockstep if the command is plain and keeps their
families in lockstep. -/
theorem lockstep_step (similar : Similar sim used strategies strategies' x y)
    (shared : Shared used strategies strategies') (position : Fin n) (command : Command K)
    (plain : command.Plain)
    (isUsed : ∀ a predicate name, command = .filter a predicate name → used position name)
    (isFirst : (x.family.forestAt position).strategy = strategies position)
    (isSecond : (y.family.forestAt position).strategy = strategies' position)
    (inStep : command.InStep sim position (x.cache (strategies position)) x.family y.family) :
    Lockstep sim.Excuses (Similar sim used strategies strategies') (Answer.Alike sim.exact)
      (step position command x) (step position command y) := by
  have forests := similar.family.forestAt position
  have within : ∀ {β : Type} (action : {m : Nat} → ForestM K m β),
      Forest.Respects sim (action : ForestM K position β) →
      Lockstep sim.Excuses (Similar sim used strategies strategies') Eq
        (onFamily (Family.within action position) x)
        (onFamily (Family.within action position) y) := by
    intro β action respects
    exact lockstep_onFamily similar
      (Family.lockstep_within similar.family action position (respects _ _ forests))
  have registered : ∀ value other produced produced', value = other →
      produced.Alike sim.exact produced' →
      (Answer.registered produced value.cold : Answer K).Alike sim.exact
        (.registered produced' (Registered.cold other)) := by
    rintro value _ produced produced' rfl alike
    exact ⟨alike, rfl⟩
  have computed : ∀ (value other : Index) produced produced', value = other →
      produced.Alike sim.exact produced' →
      (Answer.computed produced : Answer K).Alike sim.exact (.computed produced') :=
    fun _ _ _ _ _ alike => alike
  have observed : ∀ read : {m : Nat} → Forest K m → Except Error (Answer K),
      Reads sim.Excuses (read (x.family.forestAt position)) (read (y.family.forestAt position)) →
      Lockstep sim.Excuses (Similar sim used strategies strategies') (Answer.Alike sim.exact)
        (step.observe position read x) (step.observe position read y) := by
    intro read reads
    refine (lockstep_reading similar read position reads).mono (fun _ _ same => same) ?_
    rintro answer _ rfl
    exact Answer.Alike.refl sim.exact answer
  cases command with
  | registerSet content =>
      exact lockstep_described Registered.index position _ (fun _ _ => congrArg _) registered
        (within _ (Forest.respects_registerSet content))
  | registerUnordered elements =>
      exact lockstep_described Registered.index position _ (fun _ _ => congrArg _) registered
        (within _ (Forest.respects_registerUnordered elements))
  | registerSingle element =>
      exact lockstep_described Registered.index position _ (fun _ _ => congrArg _) registered
        (within (fun {_} => ExceptT.lift (Forest.registerSingle element))
          (Forest.respects_registerSingle element))
  | apply operation a b =>
      exact lockstep_described id position _ (fun _ _ => id) computed
        (lockstep_onFamily similar inStep)
  | insertSingle a element =>
      exact lockstep_described id position _ (fun _ _ => id) computed
        (lockstep_onFamily similar inStep)
  | removeSingle a element =>
      exact lockstep_described id position _ (fun _ _ => id) computed
        (lockstep_onFamily similar inStep)
  | updateKey a element =>
      exact lockstep_described id position _ (fun _ _ => id) computed
        (within _ (Forest.respects_updateKey a element))
  | removeKey a key =>
      exact lockstep_described id position _ (fun _ _ => id) computed
        (within _ (Forest.respects_removeKey a key))
  | filter a predicate name =>
      refine lockstep_described Filtered.index position _ (fun _ _ alike => alike.1) ?_
        (lockstep_filter similar shared (isUsed a predicate name rfl) isFirst isSecond inStep)
      intro value other produced produced' alike producedAlike
      exact ⟨producedAlike, alike.2.1, congrArg Table.size alike.2.2⟩
  | nestedOf a key child =>
      exact observed _ ((forests.nestedOf a key child).bind fun _ => .refl _)
  | content a => exact observed _ ((forests.content a).bind fun _ => .refl _)
  | iterate a steps => exact observed _ ((forests.content a).bind fun _ => .refl _)
  | sizeOf a => exact observed _ ((forests.sizeOf a).bind fun _ => .refl _)
  | isEmpty a => exact .answered rfl similar
  | contains a key => exact observed _ ((forests.contains a key).bind fun _ => .refl _)
  | findKey a key => exact observed _ ((forests.findKey a key).bind fun _ => .refl _)
  | inclusion a b =>
      refine observed _ (Or.inl ?_)
      rw [forests.inclusion a b]
  | setText a => exact observed _ ((forests.setText a).bind fun _ => .refl _)
  | size =>
      refine observed _ (Or.inl ?_)
      rw [forests.size]
  | config =>
      refine observed _ (Or.inl ?_)
      rw [forests.config]
  | activities =>
      refine observed _ (Or.inl ?_)
      rw [forests.activities]
  | evict a => exact plain.elim
  | isEvicted a => exact plain.elim
  | dump => exact plain.elim
  | statistics => exact plain.elim

end Session

end SetForest
