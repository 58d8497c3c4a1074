import SetForest.Proofs.Family.Complete
import SetForest.Proofs.Family.Single
import SetForest.Proofs.Forest.Filter
import SetForest.Proofs.Forest.Lasting
import SetForest.Proofs.Forest.Update
import SetForest.Proofs.Session.Caches
import SetForest.Proofs.Session.Resident

namespace SetForest

/-!
# Results that last

When an operation has been answered, whichever way it went, the inclusions that its result
shows are on file.  In all later states they are told, and the union and the intersection
of the two sets are known from them.  The sets may be evicted by then, because no content
is looked at for this (`Family.Henceforth`).

In a forest of keys, an operand that a difference leaves as it is has no key in common with
the other operand.  This is remembered in the same way.
-/

variable {K : Type} [Key K] {n : Nat}

namespace Family

variable {position : Fin n} {sub sup a b : Index} {family : Family K n}

/-- One set lies within another, and this is enough to answer for the two of them. -/
structure Includes (family : Family K n) (position : Fin n) (sub sup : Index) : Prop where
  told : (family.forestAt position).inclusion sub sup = .ok (some .subset)
  union : (apply .union position sub sup family).1 = .ok sup
  unionBack : (apply .union position sup sub family).1 = .ok sup
  intersection : (apply .intersection position sub sup family).1 = .ok sub
  intersectionBack : (apply .intersection position sup sub family).1 = .ok sub

theorem includes_of_inclusion
    (told : (family.forestAt position).inclusion sub sup = .ok (some .subset)) :
    family.Includes position sub sup := by
  rcases Forest.consult_of_inclusion told with
    ⟨union, unionBack, intersection, intersectionBack⟩
  exact ⟨told, apply_of_consult union, apply_of_consult unionBack, apply_of_consult intersection,
    apply_of_consult intersectionBack⟩

/-- Two sets have nothing in common, and this is answered. -/
structure Separates (family : Family K n) (position : Fin n) (a b : Index) : Prop where
  intersection : (apply .intersection position a b family).1 = .ok Index.empty
  intersectionBack : (apply .intersection position b a family).1 = .ok Index.empty

variable [ToString K]

/-- What a family has from now on, whatever it is asked and whatever is evicted. -/
def Henceforth (family : Family K n) (property : Family K n → Prop) : Prop :=
  ∀ (session : Session K n) (commands : List (Fin n × Command K)), session.family = family →
    (∀ command ∈ commands, command.2.Fits (family.forestAt command.1)) →
    property (session.run commands).2.family

end Family

/-! ## Runs -/

namespace Session

variable [ToString K]

/-- Fitting commands keep a sound family complete. -/
theorem keeps_complete : Keeps (fun family : Family K n => family.Sound ∧ family.Complete)
    fun family command => command.2.Fits (family.forestAt command.1) where
  step := by
    rintro session command ⟨sound, complete⟩ fits
    refine ⟨(session.sound_step command.1 command.2 sound fits).1, ?_⟩
    rcases family_step session command.1 command.2 with ⟨cache, stepped⟩
    rw [stepped]
    exact complete.steps sound (fun _ admitted => admitted)
      (Command.steps_effect command.1 cache session.family command.2 fits.stores)
  mono := fun family later command evolves fits => fits.evolves evolves

theorem remembers_run (session : Session K n) (commands : List (Fin n × Command K)) :
    session.family.Remembers (session.run commands).2.family :=
  related_run (fun _ => Forest.Remembers.refl) (fun _ _ _ _ => Forest.Remembers.trans)
    (fun _ _ _ change => .of_eq change.activities_subset change.memo_eq)
    (fun _ forest operation a b content => forest.remembers_settle operation a b content)
    session commands

end Session

namespace Family

variable [ToString K] {position : Fin n} {sub sup a b r : Index} {family later : Family K n}
  {operation : Operation}

/-- An inclusion on file is told ever after. -/
theorem Sound.henceforth_includes (sound : family.Sound)
    (supInUse : (family.forestAt position).InUse sup)
    (filed : (family.forestAt position).Filed sub sup) :
    family.Henceforth (·.Includes position sub sup) := by
  rintro session commands rfl fits
  rcases session.sound_run commands sound fits with ⟨soundLater, extension⟩
  have told := (sound.forestAt position).inclusion_of_filed (fun child => sound.lawful _)
    supInUse filed
  exact includes_of_inclusion ((extension.forestAt position).inclusion
    (sound.forestAt position).toWellStored (soundLater.forestAt position).toWellStored told)

/-- Two sets that are known to be disjoint are told to be so ever after. -/
theorem Sound.henceforth_separates (sound : family.Sound)
    (dependable : (family.forestAt position).Dependable)
    (leftInUse : a < (family.forestAt position).size)
    (rightInUse : b < (family.forestAt position).size)
    (separated : (family.forestAt position).Separated a b) :
    family.Henceforth (·.Separates position a b) := by
  rintro session commands rfl fits
  rcases session.sound_run commands sound fits with ⟨soundLater, extension⟩
  have here := sound.forestAt position
  have there := soundLater.forestAt position
  have kept := extension.forestAt position
  have lawful : ∀ child, (((session.run commands).2.family.meaning
      (childPosition position child))).Lawful := fun child => soundLater.lawful _
  have dependableLater := session.dependable_of_run commands position dependable
  have left := kept.lt_size here.toWellStored there.toWellStored leftInUse
  have right := kept.lt_size here.toWellStored there.toWellStored rightInUse
  have separatedLater := separated.mono here there lawful kept
    (fun child => extension.meaning_le _) ((session.remembers_run commands).forestAt position)
  exact ⟨apply_of_consult (Forest.consult_of_separated there lawful dependableLater
      separatedLater left right),
    apply_of_consult (Forest.consult_of_separated there lawful dependableLater
      separatedLater.symm right left)⟩

/-- An operation leaves its inclusions on file, whichever way it was answered. -/
theorem Complete.establishes_of_apply (complete : family.Complete) (sound : family.Sound)
    (answered : Family.apply operation position a b family = (.ok r, later)) :
    operation.Establishes
      (fun sub sup => later.Henceforth (·.Includes position sub sup)) a b r := by
  rcases sound.contents_of_apply answered with
    ⟨soundLater, extension, determines, left, right, content, denotesLeft, denotesRight, denotes, -⟩
  have knows := sound.knows_of_apply answered
  have completeLater := complete.apply sound operation position a b
  rw [answered] at completeLater
  rw [meaning_eq] at determines
  have filed := (completeLater.forestAt position).filed (soundLater.forestAt position)
    (fun child => soundLater.lawful _) knows determines.answers
  refine filed.imp fun sub sup member filed => soundLater.henceforth_includes ?_ filed
  simp only [List.mem_cons, List.not_mem_nil, or_false] at member
  rcases member with rfl | rfl | rfl
  · exact determines.left
  · exact determines.right
  · exact ⟨content, denotes⟩

/-- A removal leaves its result on file. -/
theorem Sound.includes_of_removeKey (sound : family.Sound) {key : K}
    (answered : Family.within (Forest.removeKey a key) position family = (.ok r, later)) :
    later.Henceforth (·.Includes position r a) := by
  have removed := forest_within answered
  have advances := sound.within (fun {_} => Forest.removeKey a key) position
    (fun _ admitted => admitted) (Forest.changes_removeKey _ a key)
  have replaces := Forest.replaces_removeKey (sound.forestAt position).canonical a key
  rw [answered] at advances
  rw [removed] at replaces
  rcases advances with ⟨soundLater, extension⟩
  rcases replaces.content_eq with ⟨content, read, -⟩
  have denotes := (sound.forestAt position).toWellStored.denotes_of_content read
  exact soundLater.henceforth_includes
    ⟨content, (extension.forestAt position).denotes a content denotes⟩
    (Forest.filed_removeKey removed)

/-- A difference of keys that is its left operand leaves the empty intersection behind. -/
theorem Complete.separates_of_apply (complete : family.Complete) (flatAt : family.FlatAt position)
    (answered : Family.apply .difference position a b family = (.ok a, later)) :
    later.Henceforth (·.Separates position a b) := by
  have sound := flatAt.sound
  have step : Step (fun _ => False) position family
      (Family.apply .difference position a b family).2 := .applied .difference a b
  have completeLater := complete.apply sound .difference position a b
  have knows := sound.knows_of_apply answered
  rcases sound.contents_of_apply answered with ⟨soundLater, -, determines, -⟩
  rw [answered] at step completeLater
  rw [meaning_eq] at determines
  have flatLater := flatAt.steps nofun (.single step)
  have stored := (soundLater.forestAt position).toWellStored
  have inUse : ∀ index, (later.forestAt position).InUse index →
      index < (later.forestAt position).size := by
    rintro index ⟨content, denotes⟩
    exact stored.canonical.lt_size denotes
  exact soundLater.henceforth_separates flatLater.dependable (inUse a determines.left)
    (inUse b determines.right)
    ((completeLater.forestAt position).separated (soundLater.forestAt position)
      (fun child => soundLater.lawful _) flatLater.flat knows determines.answers)

end Family

/-- A filtering leaves its result on file, if its cache holds what is filed. -/
theorem Session.includes_of_filter [ToString K] {session after : Session K n} {position : Fin n}
    {a : Index} {predicate : Element K → Bool} {name : String} {filtered : Filtered}
    (sound : session.family.Sound)
    (filed : (session.family.forestAt position).CacheFiled
      (session.cache (session.family.forestAt position).strategy name))
    (answered : filter position a predicate name session = (.ok filtered, after)) :
    after.family.Henceforth (·.Includes position filtered.index a) := by
  have advances := session.sound_step position (.filter a predicate name) sound trivial
  have sifted := session.filter_forest position a predicate name
  rw [step_filter_snd, answered] at advances
  rw [answered] at sifted
  rcases advances with ⟨soundLater, extension⟩
  rcases (sound.forestAt position).inUse_of_lt (Forest.lt_size_of_filter sifted) with
    ⟨content, denotes⟩
  exact soundLater.henceforth_includes
    ⟨content, (extension.forestAt position).denotes a content denotes⟩
    (filed.filed_filter (sound.forestAt position) (fun child => sound.lawful _) sifted)

variable [ToString K] {specs : List Spec} {family : Family K n} {session reached : Session K n}

/-- Results leave behind the inclusions that they show, for good.  From any call that was
answered in a state that a session reaches, all later states tell these inclusions, and
the union and the intersection of the two sets are known in either order, whatever has been
evicted.  This holds for the lattice operations, for removals of keys, and for filterings
with a cache that has served no other forest.  If a difference in a forest of keys is its
left operand, the intersection of the operands is known to be empty. -/
theorem results_lasting (planted : Family.ofSpecs? specs = some ⟨n, family⟩)
    (starts : session.family = family) {commands : List (Fin n × Command K)}
    (fits : ∀ command ∈ commands, command.2.Fits (family.forestAt command.1))
    (reaches : (session.run commands).2 = reached) (position : Fin n) :
    (∀ operation a b r later,
      Family.apply operation position a b reached.family = (.ok r, later) →
      operation.Establishes
        (fun sub sup => later.Henceforth (·.Includes position sub sup)) a b r) ∧
    (∀ a key r later,
      Family.within (Forest.removeKey a key) position reached.family = (.ok r, later) →
      later.Henceforth (·.Includes position r a)) ∧
    (∀ a predicate name filtered after,
      session.cache (family.forestAt position).strategy name = .empty →
      Session.Reserves family position name (fun _ => True) commands →
      Session.filter position a predicate name reached = (.ok filtered, after) →
      after.family.Henceforth (·.Includes position filtered.index a)) ∧
    ((family.forestAt position).children = [] → ∀ a b later,
      Family.apply .difference position a b reached.family = (.ok a, later) →
      later.Henceforth (·.Separates position a b)) := by
  subst family reached
  rcases Session.keeps_complete.run
    ⟨Family.sound_ofSpecs? planted, Family.complete_ofSpecs? planted⟩ commands fits with
      ⟨sound, complete⟩
  refine ⟨?_, ?_, ?_, ?_⟩
  · intro operation a b r later answered
    exact complete.establishes_of_apply sound answered
  · intro a key r later answered
    exact sound.includes_of_removeKey answered
  · intro a predicate name filtered after unused reserves answered
    have filed := Session.cacheFiled_of_empty unused (Family.sound_ofSpecs? planted) fits reserves
    exact Session.includes_of_filter sound filed answered
  · intro flat a b later answered
    exact complete.separates_of_apply (Session.flatAt_run planted rfl fits flat) answered

/-- A union that is remembered, a key that is removed, a filtering and a difference leave
inclusions behind.  They are told after all sets were evicted. -/
theorem results_lasting_evicted :
    let small (element : Element Nat) : Bool := element.key < 6
    let start := Session.start (Family.single {} .unshared : Family Nat 1)
    let commands := [(0, .registerSingle (.flat 5)), (0, .registerSingle (.flat 7)),
      (0, .apply .union 1 2)]
    let reached := (start.run commands).2
    let evicted (family : Family Nat 1) : Family Nat 1 :=
      ((Session.start family).run [(0, .evict 1), (0, .evict 2), (0, .evict 3)]).2.family
    (evicted (Family.apply .union 0 1 2 reached.family).2).Includes 0 1 3 ∧
    (evicted (Family.within (Forest.removeKey 3 5) 0 reached.family).2).Includes 0 2 3 ∧
    (evicted (Session.filter 0 3 small "small" reached).2.family).Includes 0 1 3 ∧
    (evicted (Family.apply .difference 0 1 2 reached.family).2).Separates 0 1 2 := by
  intro small start commands reached evicted
  have fits : ∀ command ∈ commands, command.2.Fits (start.family.forestAt command.1) := by
    simp only [commands, List.forall_mem_cons]
    exact ⟨rfl, rfl, trivial, nofun⟩
  have planted : Family.ofSpecs? [{}] = some ⟨1, start.family⟩ := rfl
  have last : ∀ (family : Family Nat 1) (property : Family Nat 1 → Prop),
      family.Henceforth property → property (evicted family) := by
    intro family property henceforth
    refine henceforth (Session.start family) _ (Session.family_start family) ?_
    simp only [List.forall_mem_cons]
    exact ⟨trivial, trivial, trivial, nofun⟩
  rcases results_lasting planted rfl fits (Eq.refl reached) 0 with
    ⟨operations, removals, filterings, differences⟩
  refine ⟨?_, ?_, ?_, ?_⟩
  · have answered : Family.apply .union 0 1 2 reached.family =
        (.ok 3, (Family.apply .union 0 1 2 reached.family).2) :=
      Prod.fst_eq_iff.mp (by decide +kernel)
    exact last _ _ (operations .union 1 2 3 _ answered).1
  · have answered : Family.within (Forest.removeKey 3 5) 0 reached.family =
        (.ok 2, (Family.within (Forest.removeKey 3 5) 0 reached.family).2) :=
      Prod.fst_eq_iff.mp (by decide +kernel)
    exact last _ _ (removals 3 5 2 _ answered)
  · have reserves : Session.Reserves start.family 0 "small" (fun _ => True) commands := by
      intro other a predicate member
      simp [commands] at member
    have answers : (Session.filter 0 3 small "small" reached).1.map Filtered.index = .ok 1 := by
      decide +kernel
    rcases outcome : Session.filter 0 3 small "small" reached with ⟨error | filtered, after⟩
    · rw [outcome] at answers
      cases answers
    · rw [outcome] at answers
      have index : filtered.index = 1 := Except.ok.inj answers
      exact last _ _ (index ▸ filterings 3 small "small" filtered after rfl reserves outcome)
  · have answered : Family.apply .difference 0 1 2 reached.family =
        (.ok 1, (Family.apply .difference 0 1 2 reached.family).2) :=
      Prod.fst_eq_iff.mp (by decide +kernel)
    exact last _ _ (differences (by decide +kernel) 1 2 _ answered)

end SetForest
