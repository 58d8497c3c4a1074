import SetForest.Proofs.Forest.Reconfigured
import SetForest.Proofs.Session.Ordered
import SetForest.Proofs.Session.Strategies

namespace SetForest

/-!
# Sessions in different configurations

A key is searched by scanning short sets and by halving long ones, and the configuration
says which sets are long.  It also says how storage grows, whether sets are checked when
they are registered, and whether the work is recorded.  None of this shows in an answer,
except where a caller asks for the configuration itself or for the recorded work.

The proof changes one thing at a time.  A family is first given the configurations of the
other one while its storage stays as it is (`Forest.Reconfigured`).  The two families that
remain differ in the layout of their storage only, and hold the same.
-/

/-- Descriptions of one forest that differ at most in the configuration. -/
def Spec.SameButConfig (first second : Spec) : Prop :=
  first.strategy = second.strategy ∧ first.children = second.children

/-- A command that asks for the configuration, or for the work that was recorded because
the configuration says so. -/
def Command.ReportsConfig {K : Type} : Command K → Prop
  | .config | .activities => True
  | _ => False

theorem Command.ReportsConfig.asks {K : Type} {command : Command K}
    (reports : command.ReportsConfig) : command.Asks := by
  cases command <;> trivial

/-- With one strategy, answers that are the same but for its name are the same. -/
theorem Command.SameAnswer.eq {K : Type} {strategy : Strategy} {command : Command K}
    {first second : Except Error (Answer K)}
    (same : command.SameAnswer strategy strategy first second) : first = second := by
  cases command with
  | dump =>
      rcases same with ⟨body, rfl, rfl⟩
      rfl
  | _ => exact same

variable {K : Type} [Key K] {n : Nat} {α : Type}

namespace Family

/-- Forest by forest, the second family is the first one in some configurations. -/
abbrev Reconfigured (x y : Family K n) : Prop :=
  Related (fun _ => Forest.Reconfigured) x y

namespace Reconfigured

/-- Two outcomes of an action on such families, which has the same answer in both. -/
abbrev InStep : Except Error α × Family K n → Except Error α × Family K n → Prop :=
  Lockstep (fun _ => False) Reconfigured Eq

variable {x y : Family K n}

theorem inStep_apply (reconfigured : Reconfigured x y) (operation : Operation)
    (position : Fin n) (a b : Index) :
    InStep (Family.apply operation position a b x) (Family.apply operation position a b y) :=
  lockstep_apply (fun _ => Forest.Reconfigured.kept)
    (fun _ _ _ a b forests => forests.inStep_consult operation a b) position a b reconfigured

theorem inStep_applySingle (reconfigured : Reconfigured x y) (operation : Operation)
    (position : Fin n) (a : Index) (element : Element K) :
    InStep (applySingle operation position a element x)
      (applySingle operation position a element y) :=
  lockstep_applySingle (fun _ => Forest.Reconfigured.kept)
    (fun position a b _ _ related => inStep_apply related operation position a b) position a element
    reconfigured

end Reconfigured

/-- What can be planted in some configurations can be planted in any.  The other family is
the first one with the configurations replaced, up to the layout of the storage. -/
theorem exists_reconfigured {specs specs' : List Spec}
    (same : List.Forall₂ Spec.SameButConfig specs specs') {family : Family K n}
    (planted : ofSpecs? specs = some ⟨n, family⟩) :
    ∃ other, ofSpecs? specs' = some ⟨n, other⟩ ∧ ∃ between, Reconfigured family between ∧
      Related (fun _ first second => Forest.Similar (Forest.byHoldings K) first second ∧
        first.strategy = second.strategy) between other := by
  refine exists_ofSpecs? (motive := fun x y => ∃ z, Reconfigured x z ∧
    Related (fun _ first second => Forest.Similar (Forest.byHoldings K) first second ∧
      first.strategy = second.strategy) z y)
    ⟨.bare, .bare, .bare⟩ (fun _ _ same => same.2) ?_ same planted
  rintro m x y first second children same ⟨z, reconfigured, alike⟩
  let created : Forest K m := Forest.create first.config first.strategy children
  refine ⟨z.plant { created with config := second.config }, .plant reconfigured ?_,
    .plant alike ⟨Forest.similar_create _ _ _ _ _, same.1⟩⟩
  exact ⟨second.config, created.activities, rfl⟩

end Family

namespace Session

open SetForest.Action

variable {x y : Session K n}

/-- Sessions whose forests differ in the configurations and the recorded work. -/
structure Reconfigured (x y : Session K n) : Prop where
  family : Family.Reconfigured x.family y.family
  caches : ∀ strategy name, x.cache strategy name = y.cache strategy name

namespace Reconfigured

/-- Two outcomes of a part of a step in such sessions, which comes to the same in both. -/
abbrev InStep : Except Error α × Session K n → Except Error α × Session K n → Prop :=
  Lockstep (fun _ => False) Reconfigured Eq

theorem inStep_onFamily (reconfigured : Reconfigured x y) {action : FamilyM K n α}
    (here : Family.Reconfigured.InStep (action x.family) (action y.family)) :
    InStep (onFamily action x) (onFamily action y) :=
  lockstep_onFamily_of here fun _ _ later => ⟨later, reconfigured.caches⟩

theorem inStep_within (reconfigured : Reconfigured x y) {position : Fin n}
    (action : {m : Nat} → ForestM K m α)
    (here : Forest.Reconfigured.InStep (action (x.family.forestAt position))
      (action (y.family.forestAt position))) :
    InStep (onFamily (Family.within action position) x)
      (onFamily (Family.within action position) y) :=
  reconfigured.inStep_onFamily (Family.lockstep_within reconfigured.family action position here)

theorem keepCache (reconfigured : Reconfigured x y) (strategy : Strategy) (name : String)
    (cache : FilterCache) :
    Reconfigured (x.keepCache strategy name cache) (y.keepCache strategy name cache) := by
  refine ⟨?_, ?_⟩
  · rw [family_keepCache, family_keepCache]
    exact reconfigured.family
  · intro other name'
    rw [cache_keepCache, cache_keepCache, reconfigured.caches other name']

/-- Both sessions filter with the same cache, and keep the same cache. -/
theorem inStep_filter (reconfigured : Reconfigured x y) (position : Fin n) (a : Index)
    (predicate : Element K → Bool) (name : String) :
    InStep (filter position a predicate name x) (filter position a predicate name y) := by
  have forests := reconfigured.family.forestAt position
  have sameStrategy := forests.read_eq (·.strategy) fun _ _ => rfl
  refine lockstep_filter_of ?_ (fun _ _ later => ⟨later, reconfigured.caches⟩) ?_
  · rw [← sameStrategy, ← reconfigured.caches]
    exact Family.lockstep_within reconfigured.family _ position
      (forests.inStep_filter a predicate _)
  · rintro _ _ filtered _ later rfl
    rw [← sameStrategy]
    exact later.keepCache _ name filtered.cache

/-! ## Steps -/

theorem inStep_observe (reconfigured : Reconfigured x y) {position : Fin n}
    {read : {m : Nat} → Forest K m → Except Error (Answer K)}
    (same : read (x.family.forestAt position) = read (y.family.forestAt position)) :
    InStep (step.observe position read x) (step.observe position read y) := by
  rw [observe_apply, observe_apply]
  exact Lockstep.read reconfigured (Or.inl same)

variable [ToString K]

theorem inStep_produced (reconfigured : Reconfigured x y) (position : Fin n) (index : Index) :
    InStep (produced position index x) (produced position index y) := by
  have forests := reconfigured.family.forestAt position
  rw [produced_apply, produced_apply, forests.read_eq (·.setText index) fun _ _ => rfl,
    forests.read_eq (·.size) fun _ _ => rfl]
  exact .answered rfl reconfigured

/-- What an action has produced is described in the same way. -/
theorem inStep_described {action : SessionM K n α} (here : InStep (action x) (action y))
    (index : α → Index) (position : Fin n) (answer : α → Produced → Answer K) :
    InStep
      ((do
        let value ← action
        return answer value (← produced position (index value)) : SessionM K n (Answer K)) x)
      ((do
        let value ← action
        return answer value (← produced position (index value)) : SessionM K n (Answer K)) y) := by
  refine lockstep_described_of (fun index _ _ related => related.inStep_produced position index)
    ?_ ?_ here
  · rintro value _ rfl
    rfl
  · rintro value _ produced _ rfl rfl
    rfl

/-- A step has the same answer in both sessions, unless it reports the configuration.  Only
a search for a key relies on the order of the sets. -/
theorem inStep_step (reconfigured : Reconfigured x y) (ordered : x.family.Ordered)
    (position : Fin n) (command : Command K) (silent : ¬command.ReportsConfig)
    (inOrder : command.InOrder (x.family.forestAt position).config)
    (inOrder' : command.InOrder (y.family.forestAt position).config) :
    InStep (step position command x) (step position command y) := by
  have forests := reconfigured.family.forestAt position
  have orderedAt := ordered.forestAt position
  have writes := Forest.Reconfigured.kept (K := K) (n := position)
  cases command with
  | registerSet content =>
      exact inStep_described (reconfigured.inStep_within _
        (forests.inStep_registerSet inOrder inOrder')) Registered.index position _
  | registerUnordered elements =>
      exact inStep_described (reconfigured.inStep_within _
        (writes.lockstep_registerUnordered forests elements)) Registered.index position _
  | registerSingle element =>
      exact inStep_described (reconfigured.inStep_within
        (fun {_} => ExceptT.lift (Forest.registerSingle element))
        (writes.lockstep_registerSingle forests element)) Registered.index position _
  | apply operation a b =>
      exact inStep_described (reconfigured.inStep_onFamily
        (reconfigured.family.inStep_apply operation position a b)) id position _
  | insertSingle a element =>
      exact inStep_described (reconfigured.inStep_onFamily
        (reconfigured.family.inStep_applySingle .union position a element)) id position _
  | removeSingle a element =>
      exact inStep_described (reconfigured.inStep_onFamily
        (reconfigured.family.inStep_applySingle .difference position a element)) id position _
  | updateKey a element =>
      exact inStep_described (reconfigured.inStep_within _
        (forests.inStep_updateKey a element)) id position _
  | removeKey a key =>
      exact inStep_described (reconfigured.inStep_within _
        (forests.inStep_removeKey orderedAt a key)) id position _
  | filter a predicate name =>
      exact inStep_described (reconfigured.inStep_filter position a predicate name)
        Filtered.index position _
  | evict a =>
      apply (reconfigured.inStep_within _ (forests.inStep_evict a)).bind
      exact fun _ _ _ _ _ later => .answered rfl later
  | nestedOf a key child =>
      apply reconfigured.inStep_observe
      rw [forests.nestedOf orderedAt a key child]
  | contains a key =>
      apply reconfigured.inStep_observe
      rw [forests.contains orderedAt a key]
  | findKey a key =>
      apply reconfigured.inStep_observe
      rw [forests.findKey orderedAt a key]
  | isEmpty a => exact .answered rfl reconfigured
  | config => exact absurd trivial silent
  | activities => exact absurd trivial silent
  | isEvicted a =>
      apply reconfigured.inStep_observe
      rw [forests.read_eq (·.isEvicted a) fun _ _ => rfl]
  | content a =>
      apply reconfigured.inStep_observe
      rw [forests.content a]
  | iterate a steps =>
      apply reconfigured.inStep_observe
      rw [forests.content a]
  | sizeOf a =>
      apply reconfigured.inStep_observe
      rw [forests.read_eq (·.sizeOf a) fun _ _ => rfl]
  | inclusion a b =>
      apply reconfigured.inStep_observe
      rw [forests.read_eq (·.inclusion a b) fun _ _ => rfl]
  | setText a =>
      apply reconfigured.inStep_observe
      rw [forests.read_eq (·.setText a) fun _ _ => rfl]
  | size =>
      apply reconfigured.inStep_observe
      rw [forests.read_eq (·.size) fun _ _ => rfl]
  | dump =>
      apply reconfigured.inStep_observe
      rw [forests.read_eq (·.dump) fun _ _ => rfl]
  | statistics =>
      apply reconfigured.inStep_observe
      rw [forests.read_eq (·.statistics) fun _ _ => rfl]

/-- Whatever the command is, the sessions go on to differ in nothing else. -/
theorem step (reconfigured : Reconfigured x y) (ordered : x.family.Ordered)
    (position : Fin n) (command : Command K)
    (inOrder : command.InOrder (x.family.forestAt position).config)
    (inOrder' : command.InOrder (y.family.forestAt position).config) :
    Reconfigured (Session.step position command x).2 (Session.step position command y).2 := by
  by_cases reports : command.ReportsConfig
  · rw [x.step_of_asks position reports.asks, y.step_of_asks position reports.asks]
    exact reconfigured
  · exact (reconfigured.inStep_step ordered position command reports inOrder inOrder').isRelated
      fun _ => id

/-- Two runs of the same commands have the same answers, unless they report the
configuration. -/
theorem answers_run (reconfigured : Reconfigured x y) (ordered : x.family.Ordered)
    (commands : List (Fin n × Command K))
    (inOrder : ∀ command ∈ commands,
      command.2.InOrder (x.family.forestAt command.1).config ∧
        command.2.InOrder (y.family.forestAt command.1).config) :
    List.Forall₂ (fun first second => first.1 = second.1 ∧
        (¬first.1.2.ReportsConfig → first.2 = second.2))
      (x.transcript commands) (y.transcript commands) := by
  induction commands generalizing x y with
  | nil => exact .nil
  | cons first rest ih =>
      rcases first with ⟨position, command⟩
      rcases List.forall_mem_cons.mp inOrder with ⟨inOrderFirst, inOrderRest⟩
      rw [transcript_cons, transcript_cons]
      refine .cons ⟨rfl, ?_⟩ (ih
        (reconfigured.step ordered position command inOrderFirst.1 inOrderFirst.2)
        (x.ordered_step ordered position command inOrderFirst.1) ?_)
      · intro silent
        exact ((reconfigured.inStep_step ordered position command silent inOrderFirst.1
          inOrderFirst.2).eq_of_alike (fun _ => id) fun _ _ same => same).1
      · intro later member
        exact ⟨keeps_ordered.mono _ _ later (x.evolves_step position command)
            (inOrderRest later member).1,
          keeps_ordered.mono _ _ later (y.evolves_step position command)
            (inOrderRest later member).2⟩

end Reconfigured

/-- Families that hold the same under the same strategies have the same answers to all
commands. -/
theorem transcript_eq [ToString K] {family other : Family K n}
    (alike : Family.Related (fun _ first second =>
      Forest.Similar (Forest.byHoldings K) first second ∧ first.strategy = second.strategy)
        family other)
    (commands : List (Fin n × Command K)) :
    (start family).transcript commands = (start other).transcript commands := by
  let strategies (position : Fin n) : Strategy := (family.forestAt position).strategy
  have similar : Similar (Forest.byHoldings K) (fun _ _ => True) strategies strategies
      (start family) (start other) :=
    ⟨.of_forestAt fun position => (alike.forestAt position).1,
      fun _ _ _ => (cache_start ..).trans (cache_start ..).symm⟩
  have sameAnswers := sameAnswers_run similar (fun _ _ _ _ _ => Iff.rfl) (fun _ => rfl)
    (fun position => (alike.forestAt position).2.symm) commands (fun _ _ _ _ _ => trivial)
  rw [← List.forall₂_eq_eq_eq]
  exact sameAnswers.imp fun first second same => Prod.ext same.1 same.2.eq

end Session

/-- Where a key stands in a set is found regardless of the threshold between the two
searches, which agree on every increasing list.  So in a forest whose sets are in order, a
change of the configuration makes no difference to a look-up or to the removal of a key.
Nor does it make a difference in the long run.  What can be planted in some configurations
can be planted in any others, and the same commands then have the same answers, apart from
those that ask for the configuration or for the work that it records.  A set that is
registered has to be in order wherever the forest does not check it. -/
theorem lookups_same_configurations [ToString K] :
    (∀ (content : Content K) (key : K), content.Increasing →
      (∀ threshold position, content.position key threshold = some position ↔
        ∃ element, content[position]? = some element ∧ element.key = key) ∧
      (∀ threshold, content.position key threshold = none ↔
        ∀ element ∈ content, element.key ≠ key) ∧
      (∀ position, Content.scan key content = some position ↔
        content.place key = .occupied position)) ∧
    (∀ (n : Nat) (forest : Forest K n) (config : Config) (a : Index) (key : K),
      forest.Ordered →
      let other := { forest with config }
      other.contains a key = forest.contains a key ∧
      other.findKey a key = forest.findKey a key ∧
      (∀ child, other.nestedOf a key child = forest.nestedOf a key child) ∧
      (Forest.removeKey a key other).1 = (Forest.removeKey a key forest).1) ∧
    (∀ (n : Nat) (specs specs' : List Spec) (family : Family K n),
      List.Forall₂ Spec.SameButConfig specs specs' →
      Family.ofSpecs? specs = some ⟨n, family⟩ →
      ∃ other, Family.ofSpecs? specs' = some ⟨n, other⟩ ∧
        ∀ commands : List (Fin n × Command K),
          (∀ command ∈ commands, command.2.InOrder (family.forestAt command.1).config ∧
            command.2.InOrder (other.forestAt command.1).config) →
          List.Forall₂ (fun first second => first.1 = second.1 ∧
              (¬first.1.2.ReportsConfig → first.2 = second.2))
            ((Session.start family).transcript commands)
            ((Session.start other).transcript commands)) := by
  refine ⟨?_, ?_, ?_⟩
  · intro content key increasing
    exact ⟨Content.position_eq_some_iff increasing key,
      Content.position_eq_none_iff increasing key, Content.scan_eq_some_iff_place increasing key⟩
  · intro n forest config a key ordered other
    have reconfigured : forest.Reconfigured other := ⟨config, forest.activities, rfl⟩
    have removed := (reconfigured.inStep_removeKey ordered a key).eq_of_alike (fun _ => id)
      fun _ _ same => same
    exact ⟨(reconfigured.contains ordered a key).symm, (reconfigured.findKey ordered a key).symm,
      fun child => (reconfigured.nestedOf ordered a key child).symm, removed.1.symm⟩
  · intro n specs specs' family same planted
    rcases Family.exists_reconfigured same planted with
      ⟨other, plantedOther, between, reconfigured, alike⟩
    refine ⟨other, plantedOther, fun commands inOrder => ?_⟩
    have started : (Session.start family).Reconfigured (Session.start between) :=
      ⟨reconfigured, fun _ _ => (Session.cache_start ..).trans (Session.cache_start ..).symm⟩
    rw [← Session.transcript_eq alike]
    refine started.answers_run (.ofSpecs? planted) commands ?_
    intro command member
    rw [Session.family_start between, (alike.forestAt command.1).1.config]
    exact inOrder command member

/-- A set of three keys is scanned in one family and halved in the other, which also checks
nothing and records its work. -/
theorem lookups_same_configurations_halved :
    let below : Family Nat 1 := .single {} .unshared
    let family := below.plant (Forest.create {} .unshared [0])
    let config : Config :=
      { searchThreshold := 0, blockSize := 0, integrityChecks := false, profiling := true }
    let below' : Family Nat 1 := .single config .unshared
    let other := below'.plant (Forest.create config .unshared [0])
    let content : Content Nat := [.flat 3, .flat 5, .flat 8]
    let commands := [(0, .registerSet content), (0, .contains 1 5), (0, .findKey 1 4),
      (0, .removeKey 1 5), (1, .registerSingle ⟨7, [1]⟩), (1, .nestedOf 1 7 0), (1, .activities),
      (1, .dump)]
    let forest := ((Session.start family).run commands).2.family.forestAt 0
    content.Increasing ∧
    (∀ threshold position, content.position 5 threshold = some position ↔
      ∃ element, content[position]? = some element ∧ element.key = 5) ∧
    (Forest.removeKey 1 8 { forest with config }).1 = (Forest.removeKey 1 8 forest).1 ∧
    List.Forall₂ (fun first second => first.1 = second.1 ∧
        (¬first.1.2.ReportsConfig → first.2 = second.2))
      ((Session.start family).transcript commands) ((Session.start other).transcript commands) := by
  intro below family config below' other content commands forest
  have increasing : content.Increasing := by decide
  let first : List Spec := [{}, { children := [0] }]
  let second : List Spec := [{ config }, { config, children := [0] }]
  have same : List.Forall₂ Spec.SameButConfig first second :=
    .cons ⟨rfl, rfl⟩ (.cons ⟨rfl, rfl⟩ .nil)
  have planted : Family.ofSpecs? first = some ⟨2, family⟩ := rfl
  have plantedOther : Family.ofSpecs? second = some ⟨2, other⟩ := rfl
  rcases lookups_same_configurations (K := Nat) with ⟨placed, replaced, compared⟩
  have inOrder : ∀ command ∈ commands,
      command.2.InOrder (family.forestAt command.1).config ∧
        command.2.InOrder (other.forestAt command.1).config := by
    simp [commands, Command.InOrder, increasing]
  have ordered := ((Session.start family).ordered_run (.ofSpecs? planted) commands
    fun command member => (inOrder command member).1).forestAt 0
  rcases compared 2 first second family same planted with ⟨found, plantedFound, answers⟩
  rw [plantedOther] at plantedFound
  cases plantedFound
  exact ⟨increasing, (placed content 5 increasing).1,
    (replaced _ forest config 1 8 ordered).2.2.2, answers commands inOrder⟩

end SetForest
