import SetForest.Proofs.Family.Eviction
import SetForest.Proofs.Session.Caches

namespace SetForest

/-!
# Sessions with and without evictions

A run is compared with the same commands less the evictions.  As long as the run that
evicts does not fail for want of a content, no caller can tell the two apart, except
by asking what is resident or which outcomes were counted.  All that is computed again
comes back to its own index and adds nothing to the tables.

The sessions are kept in lockstep by `Session.UpToEviction`.  An eviction is a step of
the first session alone, and every other command is a step of both.
-/

variable {K : Type} [Key K] {n : Nat}

/-- Whether a command evicts. -/
def Command.evicts : Command K → Bool
  | .evict _ => true
  | _ => false

/-- Two commands have the same answer or failure, except that the first may leave out
the text of a set, and may have consulted a predicate more often. -/
def Answer.SameOutcome : Except Error (Answer K) → Except Error (Answer K) → Prop
  | .ok answer, .ok answer' => answer.Alike False answer'
  | .error error, .error error' => error = error'
  | _, _ => False

/-- Two forests have stored and learned the same, where contents may be missing from
the first. -/
structure Forest.SameUpToEviction (x y : Forest K n) : Prop where
  size : x.size = y.size
  denotes : ∀ index content, x.Denotes index content ↔ y.Denotes index content
  resident : ∀ index content, y.Denotes index content → y.content index = .ok content
  content : ∀ index, x.content index = y.content index ∨ x.content index = .error (.evicted index)
  unions : x.unions = y.unions
  intersections : x.intersections = y.intersections
  differences : x.differences = y.differences
  inclusions : x.inclusions = y.inclusions

namespace Family.UpToEviction

variable {x y : Family K n}

theorem sameUpToEviction (upTo : UpToEviction x y) (position : Fin n) :
    (x.forestAt position).SameUpToEviction (y.forestAt position) := by
  have forests := upTo.similar.forestAt position
  refine ⟨forests.size, forests.sets.1.denotes, ?_, ?_, forests.unions, forests.intersections,
    forests.differences, forests.inclusions⟩
  · intro index content denotes
    rw [Forest.content, Forest.checkIndex_of_lt (forests.sets.1.right.lt_size denotes)]
    exact forests.sets.2 index content denotes
  · intro index
    rw [Forest.content, Forest.content, forests.checkIndex]
    cases (y.forestAt position).checkIndex index with
    | error error => exact Or.inl rfl
    | ok _ => exact forests.sets.1.get forests.sets.2 index

/-- A single element is registered in both families before an operation on its index. -/
theorem lockstep_single (upTo : UpToEviction x y) (operation : Operation) (position : Fin n)
    (a : Index) (element : Element K)
    (arity : element.children.length = (x.forestAt position).children.length) :
    Family.InStep (.upToEviction (Element K)) ((do
      let single ← Family.within (ExceptT.lift (Forest.registerSingle element)) position
      Family.apply operation position a single.index : FamilyM K n Index) x) ((do
      let single ← Family.within (ExceptT.lift (Forest.registerSingle element)) position
      Family.apply operation position a single.index : FamilyM K n Index) y) := by
  have forests := upTo.similar.forestAt position
  have registered := (Family.lockstep_within upTo.similar
    (fun {_} => ExceptT.lift (Forest.registerSingle element)) position
    (Forest.respects_registerSingle element _ _ forests)).strengthen (fun similar =>
      upTo.of_steps (fun _ => id) (fun _ => id)
        (.single (.changed (fun {_} => ExceptT.lift (Forest.registerSingle element))
          (Forest.changes_registerSingle _ element (Forest.admits_single arity))))
        (.single (.changed (fun {_} => ExceptT.lift (Forest.registerSingle element))
          (Forest.changes_registerSingle _ element
            (Forest.admits_single (arity.trans (congrArg List.length forests.children))))))
        similar)
  refine registered.bind_of (fun _ _ upTo => upTo.similar) ?_
  rintro single _ x' y' rfl upToLater
  exact (Family.keepInStep operation position a single.index x' y' upToLater).mono
    (fun _ _ upTo => upTo.similar) (fun _ _ same => same)

end Family.UpToEviction

namespace Session

open SetForest.Action

/-- A session that may have evicted, beside one that has not.  The caches in use are
dedicated, and they hold the same in both. -/
structure UpToEviction (serves : Fin n → (Element K → Bool) → String → Prop)
    (strategies : Fin n → Strategy) (x y : Session K n) : Prop where
  family : Family.UpToEviction x.family y.family
  isAt : ∀ position, (x.family.forestAt position).strategy = strategies position
  isAtIntact : ∀ position, (y.family.forestAt position).strategy = strategies position
  caches : ∀ position name, (∃ predicate, serves position predicate name) →
    x.cache (strategies position) name = y.cache (strategies position) name
  right : CachesRight serves strategies x

namespace UpToEviction

variable {serves : Fin n → (Element K → Bool) → String → Prop} {strategies : Fin n → Strategy}
  {x y : Session K n} {position : Fin n} {command : Command K}

theorem similar (upTo : UpToEviction serves strategies x y) :
    Similar (.upToEviction (Element K)) (fun position name => ∃ predicate,
      serves position predicate name) strategies strategies x y :=
  ⟨upTo.family.similar, upTo.caches⟩

/-- A command that fits into one family fits into the other. -/
theorem fits (upTo : UpToEviction serves strategies x y)
    (fits : command.Fits (x.family.forestAt position)) :
    command.Fits (y.family.forestAt position) := by
  have forests := upTo.family.similar.forestAt position
  exact fits.congr forests.config.symm forests.children.symm

variable [ToString K]

/-- Steps that leave the sessions similar leave them as they have to be. -/
theorem of_step (upTo : UpToEviction serves strategies x y)
    (dedicated : Dedicated serves strategies) (fits : command.Fits (x.family.forestAt position))
    (served : ∀ a predicate name, command = .filter a predicate name →
      serves position predicate name)
    (similar : Similar (.upToEviction (Element K)) (fun position name => ∃ predicate,
      serves position predicate name) strategies strategies (step position command x).2
      (step position command y).2) :
    UpToEviction serves strategies (step position command x).2 (step position command y).2 := by
  rcases x.family_step position command with ⟨cache, stepped⟩
  rcases y.family_step position command with ⟨cache', stepped'⟩
  refine ⟨?_, ?_, ?_, similar.caches, ?_⟩
  · have similarFamily := similar.family
    rw [stepped, stepped'] at similarFamily ⊢
    exact upTo.family.of_steps (fun _ => id) (fun _ => id)
      (Command.steps_effect position cache x.family command fits.stores)
      (Command.steps_effect position cache' y.family command (upTo.fits fits).stores) similarFamily
  · intro other
    exact ((x.evolves_step position command).forestAt other).strategy.trans (upTo.isAt other)
  · intro other
    exact ((y.evolves_step position command).forestAt other).strategy.trans (upTo.isAtIntact other)
  · exact cachesRight_step upTo.right dedicated upTo.family.sound upTo.isAt position command fits
      served

/-- A plain command is a step of both sessions. -/
theorem lockstep_plain (upTo : UpToEviction serves strategies x y)
    (dedicated : Dedicated serves strategies) (plain : command.Plain)
    (fits : command.Fits (x.family.forestAt position))
    (served : ∀ a predicate name, command = .filter a predicate name →
      serves position predicate name) :
    Lockstep (Resemblance.upToEviction (Element K)).Excuses (UpToEviction serves strategies)
      (Answer.Alike False) (step position command x) (step position command y) := by
  have inStep : command.InStep (.upToEviction (Element K)) position
      (x.cache (strategies position)) x.family y.family := by
    cases command with
    | apply operation a b =>
        exact (Family.keepInStep operation position a b x.family y.family upTo.family).mono
          (fun _ _ upTo => upTo.similar) (fun _ _ same => same)
    | insertSingle a element => exact upTo.family.lockstep_single .union position a element fits
    | removeSingle a element =>
        exact upTo.family.lockstep_single .difference position a element fits
    | filter a predicate name =>
        exact Family.lockstep_within upTo.family.similar
          (fun {_} => Forest.filter a predicate (x.cache (strategies position) name)) position
          ((upTo.family.similar.forestAt position).lockstep_filter
            (upTo.right position predicate name (served a predicate name rfl)) a)
    | _ => trivial
  have used : ∀ a predicate name, command = .filter a predicate name →
      ∃ predicate, serves position predicate name :=
    fun a predicate name same => ⟨predicate, served a predicate name same⟩
  exact (lockstep_step upTo.similar (fun _ _ _ _ _ => Iff.rfl) position command plain used
    (upTo.isAt position) (upTo.isAtIntact position) inStep).strengthen
      (upTo.of_step dedicated fits served)

/-- An eviction is a step of the first session alone. -/
theorem evict (upTo : UpToEviction serves strategies x y) (dedicated : Dedicated serves strategies)
    (position : Fin n) (a : Index) :
    UpToEviction serves strategies (step position (.evict a) x).2 y := by
  have evicted : (step position (.evict a) x).2.family =
      (Family.within (Forest.evict a) position x.family).2 :=
    family_bind _ _ x fun _ _ => rfl
  have filtersNot : ∀ b predicate name,
      (Command.evict a : Command K) ≠ .filter b predicate name := fun _ _ _ => nofun
  refine ⟨?_, ?_, upTo.isAtIntact, ?_, ?_⟩
  · rw [evicted]
    exact upTo.family.evict position a
  · intro other
    exact ((x.evolves_step position (.evict a)).forestAt other).strategy.trans (upTo.isAt other)
  · intro other name used
    rw [x.cache_step position filtersNot]
    exact upTo.caches other name used
  · exact cachesRight_step upTo.right dedicated upTo.family.sound upTo.isAt position (.evict a)
      trivial fun b predicate name same => absurd same (filtersNot b predicate name)

/-- Any command but an eviction is a step of both sessions, unless the first fails for
want of a content. -/
theorem step (upTo : UpToEviction serves strategies x y) (dedicated : Dedicated serves strategies)
    (evictsNot : command.evicts = false) (fits : command.Fits (x.family.forestAt position))
    (served : ∀ a predicate name, command = .filter a predicate name →
      serves position predicate name)
    (present : ∀ index, (Session.step position command x).1 ≠ .error (.evicted index)) :
    (command.Plain → Answer.SameOutcome (Session.step position command x).1
      (Session.step position command y).1) ∧
      UpToEviction serves strategies (Session.step position command x).2
        (Session.step position command y).2 := by
  have plainly : command.Plain → Answer.SameOutcome (Session.step position command x).1
      (Session.step position command y).1 ∧ UpToEviction serves strategies
        (Session.step position command x).2 (Session.step position command y).2 := by
    intro plain
    have lockstep := upTo.lockstep_plain dedicated plain fits served
    generalize Session.step position command x = outcome at lockstep present ⊢
    generalize Session.step position command y = outcome' at lockstep ⊢
    cases lockstep with
    | excused excused =>
        rcases excused.2 with ⟨index, rfl⟩
        exact absurd rfl (present index)
    | answered isAlike upToLater => exact ⟨isAlike, upToLater⟩
    | failed upToLater => exact ⟨rfl, upToLater⟩
  have asking : command.Asks → UpToEviction serves strategies
      (Session.step position command x).2 (Session.step position command y).2 := by
    intro asks
    rw [x.step_of_asks position asks, y.step_of_asks position asks]
    exact upTo
  cases command with
  | evict a => cases evictsNot
  | isEvicted a => exact ⟨False.elim, asking trivial⟩
  | dump => exact ⟨False.elim, asking trivial⟩
  | statistics => exact ⟨False.elim, asking trivial⟩
  | _ => exact (plainly trivial).imp_left fun same _ => same

end UpToEviction

variable [ToString K] {serves : Fin n → (Element K → Bool) → String → Prop}
  {strategies : Fin n → Strategy}

/-- The same run with and without its evictions. -/
theorem upToEviction_run {x y : Session K n} (upTo : UpToEviction serves strategies x y)
    (dedicated : Dedicated serves strategies) (commands : List (Fin n × Command K))
    (fits : ∀ command ∈ commands, command.2.Fits (x.family.forestAt command.1))
    (served : ∀ position a predicate name,
      (position, Command.filter a predicate name) ∈ commands → serves position predicate name)
    (present : ∀ answered ∈ x.transcript commands, answered.1.2.evicts = false →
      ∀ index, answered.2 ≠ .error (.evicted index)) :
    List.Forall₂ (fun first second => first.1 = second.1 ∧
        (first.1.2.Plain → Answer.SameOutcome first.2 second.2))
      ((x.transcript commands).filter fun answered => !answered.1.2.evicts)
      (y.transcript (commands.filter fun command => !command.2.evicts)) ∧
    UpToEviction serves strategies (x.run commands).2
      (y.run (commands.filter fun command => !command.2.evicts)).2 := by
  induction commands generalizing x y with
  | nil => exact ⟨.nil, upTo⟩
  | cons first rest ih =>
      rcases first with ⟨position, command⟩
      have fitsHere := fits _ List.mem_cons_self
      have fitsRest := fits_rest upTo.family.sound fits
      have servedHere : ∀ a predicate name, command = .filter a predicate name →
          serves position predicate name := by
        rintro a predicate name rfl
        exact served position a predicate name List.mem_cons_self
      have servedRest := fun position a predicate name member =>
        served position a predicate name (List.mem_cons_of_mem _ member)
      rw [transcript_cons] at present ⊢
      have presentRest := fun answered member =>
        present answered (List.mem_cons_of_mem _ member)
      rw [run_cons]
      cases evicts : command.evicts with
      | true =>
          rw [List.filter_cons_of_neg (by simp [evicts]),
            List.filter_cons_of_neg (by simp [evicts])]
          cases command with
          | evict a => exact ih (upTo.evict dedicated position a) fitsRest servedRest presentRest
          | _ => cases evicts
      | false =>
          rw [List.filter_cons_of_pos (by simp [evicts]),
            List.filter_cons_of_pos (by simp [evicts]), transcript_cons, run_cons]
          rcases upTo.step dedicated evicts fitsHere servedHere
            (present _ List.mem_cons_self evicts) with ⟨same, upToLater⟩
          rcases ih upToLater fitsRest servedRest presentRest with ⟨sameRest, upToLast⟩
          exact ⟨.cons ⟨rfl, same⟩ sameRest, upToLast⟩

end Session

/-- Evictions change nothing for a caller.  A run with evictions that never fails for
want of a content is compared with the same run without them.  All other commands have
the same indices, cold flags, values and failures, except for those that ask what is
resident or which outcomes were counted.  In the end every forest gives the same
indices to the same contents and has the same tables.  An index whose content was
evicted stands for the content that the other run can read.  Each filter cache has to
serve one forest and one predicate, as it would be wrong by itself otherwise. -/
theorem eviction_invisible [ToString K] {specs : List Spec} {family : Family K n}
    (planted : Family.ofSpecs? specs = some ⟨n, family⟩) (commands : List (Fin n × Command K))
    (fits : ∀ command ∈ commands, command.2.Fits (family.forestAt command.1))
    (dedicated : ∀ position position' a a' predicate predicate' name,
      (position, Command.filter a predicate name) ∈ commands →
      (position', Command.filter a' predicate' name) ∈ commands →
      (family.forestAt position).strategy = (family.forestAt position').strategy →
      position = position' ∧ predicate = predicate')
    (present : ∀ answered ∈ (Session.start family).transcript commands,
      answered.1.2.evicts = false → ∀ index, answered.2 ≠ .error (.evicted index)) :
    let kept := commands.filter fun command => !command.2.evicts
    List.Forall₂ (fun first second => first.1 = second.1 ∧
        (first.1.2.Plain → Answer.SameOutcome first.2 second.2))
      (((Session.start family).transcript commands).filter fun answered => !answered.1.2.evicts)
      ((Session.start family).transcript kept) ∧
    ∀ position, (((Session.start family).run commands).2.family.forestAt position).SameUpToEviction
      (((Session.start family).run kept).2.family.forestAt position) := by
  intro kept
  let serves (position : Fin n) (predicate : Element K → Bool) (name : String) : Prop :=
    ∃ a, (position, Command.filter a predicate name) ∈ commands
  let strategies (position : Fin n) : Strategy := (family.forestAt position).strategy
  have dedicatedCaches : Session.Dedicated serves strategies := by
    rintro position predicate position' predicate' name ⟨a, member⟩ ⟨a', member'⟩ sameStrategy
    exact dedicated position position' a a' predicate predicate' name member member' sameStrategy
  have start : Session.UpToEviction serves strategies (Session.start family)
      (Session.start family) :=
    ⟨.of_intact (Family.sound_ofSpecs? planted) (Family.complete_ofSpecs? planted)
      (Family.readsEmpty_ofSpecs? planted) (Family.intact_ofSpecs? planted), fun _ => rfl,
      fun _ => rfl, fun _ _ _ => rfl, Session.cachesRight_start family⟩
  have served : ∀ position a predicate name,
      (position, Command.filter a predicate name) ∈ commands → serves position predicate name :=
    fun _ a _ _ member => ⟨a, member⟩
  rcases Session.upToEviction_run start dedicatedCaches commands fits served present with
    ⟨answers, upToLast⟩
  exact ⟨answers, upToLast.family.sameUpToEviction⟩

/-- A union of maps and a part of it are evicted, and so is the set that the union had
computed below.  All three come back when they are asked for once more. -/
theorem eviction_invisible_nested :
    let below : Family Nat 1 := .single {} .unshared
    let family : Family Nat 2 := below.plant (Forest.create {} .unshared [0])
    let isFirst (element : Element Nat) : Bool := element.key == 1
    let commands := [(0, .registerSingle (.flat 5)), (0, .registerSingle (.flat 7)),
      (1, .registerSet [⟨1, [1]⟩, ⟨2, [2]⟩]), (1, .registerSingle ⟨1, [2]⟩),
      (1, .apply .union 1 2), (1, .filter 3 isFirst "first"), (1, .evict 4),
      (1, .filter 3 isFirst "first"), (0, .evict 3), (1, .evict 3), (1, .apply .union 1 2),
      (1, .content 3), (0, .content 3)]
    let kept := commands.filter fun command => !command.2.evicts
    List.Forall₂ (fun first second => first.1 = second.1 ∧
        (first.1.2.Plain → Answer.SameOutcome first.2 second.2))
      (((Session.start family).transcript commands).filter fun answered => !answered.1.2.evicts)
      ((Session.start family).transcript kept) ∧
    ∀ position, (((Session.start family).run commands).2.family.forestAt position).SameUpToEviction
      (((Session.start family).run kept).2.family.forestAt position) := by
  intro below family isFirst commands
  have fits : ∀ command ∈ commands, command.2.Fits (family.forestAt command.1) := by
    have arity : Content.HasArity [⟨1, [1]⟩, (⟨2, [2]⟩ : Element Nat)] 1 := by
      simp only [Content.HasArity, List.forall_mem_cons]
      exact ⟨rfl, rfl, nofun⟩
    simp only [commands, List.forall_mem_cons]
    exact ⟨rfl, rfl, ⟨nofun, arity⟩, rfl, trivial, trivial, trivial, trivial, trivial, trivial,
      trivial, trivial, trivial, nofun⟩
  have planted : Family.ofSpecs? [{}, { children := [0] }] = some ⟨2, family⟩ := rfl
  have onlyOne : ∀ position a predicate name,
      (position, Command.filter a predicate name) ∈ commands →
        position = 1 ∧ predicate = isFirst := by
    intro position a predicate name member
    simp only [commands, List.mem_cons, Prod.mk.injEq, reduceCtorEq, and_false, false_or,
      List.not_mem_nil, or_false, Command.filter.injEq] at member
    rcases member with ⟨at1, -, same, -⟩ | ⟨at1, -, same, -⟩
    · exact ⟨at1, same⟩
    · exact ⟨at1, same⟩
  have found : ∀ answered ∈ (Session.start family).transcript commands,
      (match answered.2 with
        | .error (.evicted _) => false
        | _ => true) = true := by decide +kernel
  refine eviction_invisible planted commands fits ?_ ?_
  · intro position position' a a' predicate predicate' name member member' _
    rw [(onlyOne _ _ _ _ member).1, (onlyOne _ _ _ _ member').1, (onlyOne _ _ _ _ member).2,
      (onlyOne _ _ _ _ member').2]
    exact ⟨rfl, rfl⟩
  · intro answered member _ index missed
    have here := found answered member
    rw [missed] at here
    cases here

end SetForest
