import SetForest.Proofs.Family.Planting
import SetForest.Proofs.Forest.Dump
import SetForest.Proofs.Session.Similar

namespace SetForest

/-!
# Sessions with different storage strategies

The storage strategy of a forest decides the layout of its sets and nothing else
that a caller can observe, its name in a dump apart.  Two families are planted from
descriptions that differ in strategies only, and the same commands are given to both.
The arenas of two forests at one position then hold the same at any time, and each
command has the same answer.

Filter caches are found by strategy and name.  The comparison therefore asks that two
forests share a cache of one name in both families or in neither.
-/

/-- Descriptions of one forest that differ at most in the storage strategy. -/
def Spec.SameButStrategy (first second : Spec) : Prop :=
  first.config = second.config ∧ first.children = second.children

/-- The answers to a command, except that a dump names the storage strategy. -/
def Command.SameAnswer {K : Type} (strategy strategy' : Strategy) :
    Command K → Except Error (Answer K) → Except Error (Answer K) → Prop
  | .dump, first, second => ∃ body, first = .ok (.text (strategy.heading ++ body)) ∧
    second = .ok (.text (strategy'.heading ++ body))
  | _, first, second => first = second

variable {K : Type} [Key K] {n : Nat}

namespace Forest

/-- The resemblance of forests that hold the same. -/
abbrev byHoldings (K : Type) [Key K] : Resemblance (Element K) :=
  .holdings (Element K)

end Forest

namespace Arena

variable {E : Type} [Key E] {x y : Arena E}

/-- Whoever holds the same evicts the same. -/
theorem evict_congr (alike : (Resemblance.holdings E).alike x y) (index : Index) :
    (∃ error, x.evict index = .error error ∧ y.evict index = .error error) ∨
      ∃ resident after after', x.evict index = .ok (resident, after) ∧
        y.evict index = .ok (resident, after') ∧
        (Resemblance.holdings E).alike after after' := by
  rcases alike with ⟨left, right, same⟩
  have slots : x.slot? index = y.slot? index := congrArg (Holdings.slot? · index) same
  have sizes : x.size = y.size := congrArg Holdings.size same
  rcases holdings_evict left index with ⟨free, refused⟩ | ⟨previous, after, found, evicted, rest⟩
  · rcases holdings_evict right index with ⟨-, refused'⟩ | ⟨previous, after, found, -⟩
    · rw [← sizes] at refused'
      exact Or.inl ⟨_, refused, refused'⟩
    · rw [slots, found] at free
      cases free
  · rcases holdings_evict right index with ⟨free, -⟩ | ⟨previous', after', found', evicted', rest'⟩
    · rw [← slots, found] at free
      cases free
    · rw [slots, found'] at found
      cases found
      refine Or.inr ⟨_, after, after', evicted, evicted', rest.1, rest'.1, ?_⟩
      rw [rest.2, rest'.2, same]

end Arena

namespace Forest

open SetForest.Action

theorem respects_evict (index : Index) :
    Respects (byHoldings K) (evict index : ForestM K n Unit) := by
  intro x y similar
  simp only [evict, bind_apply, get_apply, liftExcept_apply, similar.checkIndex]
  cases y.checkIndex index with
  | error error => exact .failed similar
  | ok _ =>
      by_cases isEmpty : index = Index.empty
      · rw [if_pos isEmpty, if_pos isEmpty]
        exact .failed similar
      · rw [if_neg isEmpty, if_neg isEmpty]
        simp only [bind_apply, liftExcept_apply]
        rcases Arena.evict_congr similar.sets index with
          ⟨error, refused, refused'⟩ | ⟨resident, sets, sets', evicted, evicted', alike⟩
        · rw [refused, refused']
          exact .failed similar
        · rw [evicted, evicted']
          have dropped : Similar (byHoldings K) { x with sets } { y with sets := sets' } :=
            { similar with sets := alike }
          cases resident with
          | false => exact .answered rfl dropped
          | true =>
              refine .answered rfl (dropped.count ?_)
              intro isExact
              rw [similar.counters isExact]

/-- New forests hold the same, whatever the layout of their sets is.  Its parameters play no
part later on. -/
theorem similar_create (config config' : Config) (strategy strategy' : Strategy)
    (children : List (Fin n)) :
    Similar (byHoldings K) { Forest.create config strategy children with config := config' }
      (Forest.create config' strategy' children) := by
  refine ⟨rfl, rfl, ?_, rfl, rfl, rfl, rfl, fun _ => rfl, rfl⟩
  have created : (Resemblance.holdings (Element K)).alike
      (Arena.create strategy config.blockSize) (Arena.create strategy' config'.blockSize) :=
    ⟨Arena.wellFormed_create _ _, Arena.wellFormed_create _ _,
      (Arena.holdings_create _ _).trans (Arena.holdings_create _ _).symm⟩
  exact (Resemblance.holdings (Element K)).intern _ _ created []

end Forest

namespace Family

/-- What can be planted with some strategies can be planted with any. -/
theorem exists_similar {specs specs' : List Spec}
    (same : List.Forall₂ Spec.SameButStrategy specs specs') {family : Family K n}
    (planted : ofSpecs? specs = some ⟨n, family⟩) :
    ∃ other, ofSpecs? specs' = some ⟨n, other⟩ ∧
      Similar (Forest.byHoldings K) family other := by
  refine exists_ofSpecs? .bare (fun _ _ same => same.2) ?_ same planted
  intro m x y first second children same similar
  rw [← same.1]
  exact .plant similar (Forest.similar_create first.config first.config _ _ children)

end Family

namespace Session

/-! ## Steps -/

variable [ToString K] {x y : Session K n} {used : Fin n → String → Prop}
  {strategies strategies' : Fin n → Strategy}

/-- Each command has the same answer, whatever the strategies are. -/
theorem lockstep_step_strategies
    (similar : Similar (Forest.byHoldings K) used strategies strategies' x y)
    (shared : Shared used strategies strategies') (position : Fin n) (command : Command K)
    (isUsed : ∀ a predicate name, command = .filter a predicate name → used position name)
    (isFirst : (x.family.forestAt position).strategy = strategies position)
    (isSecond : (y.family.forestAt position).strategy = strategies' position) :
    command.SameAnswer (strategies position) (strategies' position)
        (step position command x).1 (step position command y).1 ∧
      Similar (Forest.byHoldings K) used strategies strategies' (step position command x).2
        (step position command y).2 := by
  have forests := similar.family.forestAt position
  have never : ∀ error, ¬(Forest.byHoldings K).Excuses error := fun _ excused => excused.1 trivial
  have plainly : command.Plain → (step position command x).1 = (step position command y).1 ∧
      Similar (Forest.byHoldings K) used strategies strategies' (step position command x).2
        (step position command y).2 := by
    intro plain
    exact (lockstep_step similar shared position command plain isUsed isFirst isSecond
      (Command.inStep_of_agree similar.family
        (fun _ _ alike => Arena.isEvicted_congr alike.2.2) position _ command)).eq_of_alike never
          (fun _ _ alike => alike.eq)
  have observed : ∀ read : {m : Nat} → Forest K m → Except Error (Answer K),
      read (x.family.forestAt position) = read (y.family.forestAt position) →
      (step.observe position read x).1 = (step.observe position read y).1 ∧
        Similar (Forest.byHoldings K) used strategies strategies'
          (step.observe position read x).2 (step.observe position read y).2 := by
    intro read same
    rw [observe_apply, observe_apply]
    exact ⟨same, similar⟩
  cases command with
  | evict a =>
      have evicted := Family.lockstep_within similar.family (fun {_} => Forest.evict a) position
        (Forest.respects_evict a _ _ forests)
      have stepped : Lockstep (Forest.byHoldings K).Excuses
          (Similar (Forest.byHoldings K) used strategies strategies') Eq
          (step position (.evict a) x) (step position (.evict a) y) :=
        (lockstep_onFamily similar evicted).bind fun _ _ _ _ _ similarLater =>
          .answered rfl similarLater
      exact stepped.eq_of_alike never fun _ _ same => same
  | isEvicted a =>
      refine observed (fun forest => return .flag (← forest.isEvicted a)) ?_
      rw [Forest.isEvicted, Forest.isEvicted, forests.checkIndex,
        Arena.isEvicted_congr forests.sets.2.2]
  | dump =>
      have dumped : ∀ session : Session K n, step position .dump session =
          (.ok (.text (session.family.forestAt position).dump), session) :=
        observe_apply position (fun forest => return .text forest.dump)
      rw [dumped, dumped]
      refine ⟨⟨(x.family.forestAt position).dumpBody (x.family.forestAt position).unions.toList
        (x.family.forestAt position).intersections.toList
        (x.family.forestAt position).differences.toList
        (x.family.forestAt position).inclusions.toList, ?_, ?_⟩, similar⟩
      · rw [Forest.dump_eq _ (.refl _) (.refl _) (.refl _) (.refl _), isFirst]
      · rw [Forest.dump_eq _ (.refl _) (.refl _) (.refl _) (.refl _), isSecond,
          forests.dumpBody trivial, forests.unions, forests.intersections, forests.differences,
          forests.inclusions]
  | statistics =>
      refine observed (fun forest => return .statistics forest.statistics) ?_
      rw [Forest.statistics, Forest.statistics, forests.size, forests.unions, forests.intersections,
        forests.differences, forests.inclusions, forests.counters trivial]
  | _ => exact plainly trivial

/-- Two runs of the same commands have the same answers. -/
theorem sameAnswers_run (similar : Similar (Forest.byHoldings K) used strategies strategies' x y)
    (shared : Shared used strategies strategies')
    (isFirst : ∀ position, (x.family.forestAt position).strategy = strategies position)
    (isSecond : ∀ position, (y.family.forestAt position).strategy = strategies' position)
    (commands : List (Fin n × Command K))
    (isUsed : ∀ position a predicate name,
      (position, Command.filter a predicate name) ∈ commands → used position name) :
    List.Forall₂ (fun first second => first.1 = second.1 ∧
        first.1.2.SameAnswer (strategies first.1.1) (strategies' first.1.1) first.2 second.2)
      (x.transcript commands) (y.transcript commands) := by
  induction commands generalizing x y with
  | nil => exact .nil
  | cons first rest ih =>
      rcases first with ⟨position, command⟩
      have uses : ∀ a predicate name, command = .filter a predicate name → used position name := by
        rintro a predicate name rfl
        exact isUsed position a predicate name List.mem_cons_self
      rcases lockstep_step_strategies similar shared position command uses (isFirst position)
        (isSecond position) with ⟨sameAnswer, similarLater⟩
      rw [transcript_cons, transcript_cons]
      refine .cons ⟨rfl, sameAnswer⟩ (ih similarLater ?_ ?_ ?_)
      · intro other
        exact ((x.evolves_step position command).forestAt other).strategy.trans (isFirst other)
      · intro other
        exact ((y.evolves_step position command).forestAt other).strategy.trans (isSecond other)
      · intro other a predicate name member
        exact isUsed other a predicate name (List.mem_cons_of_mem _ member)

end Session

/-- The storage strategies make no difference to a caller.  What can be planted with
some strategies can be planted with any others, and the same commands then have the
same answers, dumps included except for their first lines.  A filter cache belongs to
one strategy, so two forests that share a cache have to share it in both families.  A
dump does not depend on the order in which the tables list their entries. -/
theorem answers_same_strategies [ToString K] {specs specs' : List Spec}
    (same : List.Forall₂ Spec.SameButStrategy specs specs') {family : Family K n}
    (planted : Family.ofSpecs? specs = some ⟨n, family⟩) :
    ∃ other, Family.ofSpecs? specs' = some ⟨n, other⟩ ∧
      ∀ commands : List (Fin n × Command K),
        (∀ position position' a a' predicate predicate' name,
          (position, Command.filter a predicate name) ∈ commands →
          (position', Command.filter a' predicate' name) ∈ commands →
          ((family.forestAt position).strategy = (family.forestAt position').strategy ↔
            (other.forestAt position).strategy = (other.forestAt position').strategy)) →
        List.Forall₂ (fun first second => first.1 = second.1 ∧
            first.1.2.SameAnswer (family.forestAt first.1.1).strategy
              (other.forestAt first.1.1).strategy first.2 second.2)
          ((Session.start family).transcript commands) ((Session.start other).transcript commands) ∧
        ∀ position unions intersections differences inclusions,
          let forest := ((Session.start family).run commands).2.family.forestAt position
          unions.Perm forest.unions.toList → intersections.Perm forest.intersections.toList →
          differences.Perm forest.differences.toList → inclusions.Perm forest.inclusions.toList →
          forest.dump = (family.forestAt position).strategy.heading ++
            forest.dumpBody unions intersections differences inclusions := by
  rcases Family.exists_similar same planted with ⟨other, plantedOther, similar⟩
  refine ⟨other, plantedOther, fun commands shared => ⟨?_, ?_⟩⟩
  · let used (position : Fin n) (name : String) : Prop :=
      ∃ a predicate, (position, Command.filter a predicate name) ∈ commands
    have similarStart : Session.Similar (Forest.byHoldings K) used
        (fun position => (family.forestAt position).strategy)
        (fun position => (other.forestAt position).strategy) (Session.start family)
        (Session.start other) :=
      ⟨similar, fun _ _ _ => (Session.cache_start ..).trans (Session.cache_start ..).symm⟩
    refine Session.sameAnswers_run similarStart ?_ (fun _ => rfl) (fun _ => rfl) commands ?_
    · rintro name position position' ⟨a, predicate, member⟩ ⟨a', predicate', member'⟩
      exact shared position position' a a' predicate predicate' name member member'
    · intro position a predicate name member
      exact ⟨a, predicate, member⟩
  · intro position unions intersections differences inclusions forest unionsListed
      intersectionsListed differencesListed inclusionsListed
    have evolves := ((Session.start family).evolves_run commands).forestAt position
    rw [forest.dump_eq unionsListed intersectionsListed differencesListed inclusionsListed,
      evolves.strategy, Session.family_start]

/-- A map over a locked forest, beside the same map with all forests unshared, through
a filtering, an eviction and a dump. -/
theorem answers_same_strategies_mixed :
    let below : Family Nat 1 := .single { blockSize := 0 } .locked
    let family := below.plant (Forest.create {} .concurrent [0])
    let below' : Family Nat 1 := .single { blockSize := 0 } .unshared
    let other := below'.plant (Forest.create {} .unshared [0])
    let commands := [(0, .registerSingle (.flat 5)), (1, .registerSingle ⟨1, [1]⟩),
      (1, .registerSingle ⟨2, [0]⟩), (1, .apply .union 1 2),
      (1, .filter 3 (fun element => element.key = 1) "ones"), (0, .evict 1), (1, .dump)]
    List.Forall₂ (fun first second => first.1 = second.1 ∧
        first.1.2.SameAnswer (family.forestAt first.1.1).strategy
          (other.forestAt first.1.1).strategy first.2 second.2)
      ((Session.start family).transcript commands) ((Session.start other).transcript commands) := by
  intro below family below' other commands
  let first : List Spec :=
    [{ config := { blockSize := 0 }, strategy := .locked },
      { strategy := .concurrent, children := [0] }]
  let second : List Spec := [{ config := { blockSize := 0 } }, { children := [0] }]
  have same : List.Forall₂ Spec.SameButStrategy first second :=
    .cons ⟨rfl, rfl⟩ (.cons ⟨rfl, rfl⟩ .nil)
  have planted : Family.ofSpecs? first = some ⟨2, family⟩ := rfl
  have plantedOther : Family.ofSpecs? second = some ⟨2, other⟩ := rfl
  rcases answers_same_strategies same planted with ⟨found, plantedFound, answers⟩
  rw [plantedOther] at plantedFound
  cases plantedFound
  refine (answers commands ?_).1
  intro position position' a a' predicate predicate' name member member'
  have onlyOne : ∀ position a predicate name,
      (position, Command.filter a predicate name) ∈ commands → position = 1 := by
    intro position a predicate name member
    simp only [commands, List.mem_cons, Prod.mk.injEq, reduceCtorEq, and_false, false_or,
      List.not_mem_nil, or_false] at member
    exact member.1
  rw [onlyOne _ _ _ _ member, onlyOne _ _ _ _ member']
  exact ⟨fun _ => rfl, fun _ => rfl⟩

end SetForest
