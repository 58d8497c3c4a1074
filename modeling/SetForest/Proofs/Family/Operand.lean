import SetForest.Proofs.Family.Paths
import SetForest.Proofs.Family.Single

namespace SetForest

/-!
# Operands that are stored first

The right operand of a lattice operation is a set that is stored, or a single element that
has yet to be registered.  In the second case the operation works on a family that has the
element, so what is known about operations on stored sets carries over
(`Operand.exists_ready`).

An operation can be repeated after other work, or in another family.  If the operands have
the same paths in both, so has the result (`Family.Sound.paths_applyTo`).  The indices and
the contents may differ.
-/

/-- The right operand of a lattice operation. -/
inductive Operand (K : Type) where
  | stored (index : Index)
  | single (element : Element K)

variable {K : Type} [Key K] {n : Nat}

/-- An operation on a stored set and an operand that may have to be stored first. -/
def Family.applyTo (operation : Operation) (position : Fin n) (a : Index) :
    Operand K → FamilyM K n Index
  | .stored b => apply operation position a b
  | .single element => applySingle operation position a element

namespace Operand

/-- A single element has one child for each child forest. -/
def Fits (forest : Forest K n) : Operand K → Prop
  | stored _ => True
  | single element => element.children.length = forest.children.length

/-- The operand is in use down to the bottom, as far as it is stored. -/
def Grounded (family : Family K n) (position : Fin n) : Operand K → Prop
  | stored index => family.Grounded position index
  | single element => ∀ number child, (family.forestAt position).children[number]? = some child →
      family.Grounded (Family.childPosition position child) (element.child number)

/-- The operand can be read down to the bottom, as far as it is stored. -/
def Resident (family : Family K n) (position : Fin n) : Operand K → Prop
  | stored index => family.Resident position index
  | single element => ∀ number child, (family.forestAt position).children[number]? = some child →
      family.Resident (Family.childPosition position child) (element.child number)

/-- The paths of the operand. -/
def paths (family : Family K n) (position : Fin n) : Operand K → Set (Path K)
  | stored index => family.paths position index
  | single element => Content.paths (family.forestAt position).children
      (fun child => family.paths (Family.childPosition position child)) [element]

variable {operand : Operand K} {family later : Family K n} {position : Fin n}

theorem Grounded.mono (grounded : operand.Grounded family position)
    (extension : family.Extends later) : operand.Grounded later position := by
  cases operand with
  | stored index => exact Family.Grounded.mono grounded extension
  | single element =>
      intro number child atChild
      rw [(extension.forestAt position).children] at atChild
      exact (grounded number child atChild).mono extension

theorem paths_extends (sound : family.Sound) (soundLater : later.Sound)
    (extension : family.Extends later) (grounded : operand.Grounded family position) :
    operand.paths later position = operand.paths family position := by
  cases operand with
  | stored index => exact sound.paths_extends soundLater extension grounded
  | single element =>
      rw [paths, paths, (extension.forestAt position).children]
      apply Content.paths_congr
      intro other member number child atChild
      rw [List.mem_singleton.mp member]
      exact sound.paths_extends soundLater extension (grounded number child atChild)

/-- A family in which the operand is stored, with its index there. -/
structure Ready (operand : Operand K) (family : Family K n) (position : Fin n)
    (ready : Family K n) (b : Index) : Prop where
  operates : ∀ operation a, Family.applyTo operation position a operand family =
    Family.apply operation position a b ready
  sound : ready.Sound
  extension : family.Extends ready
  retains : family.Retains ready
  grounded : operand.Grounded family position → ready.Grounded position b
  resident : operand.Resident family position → ready.Resident position b
  paths : operand.Grounded family position →
    ready.paths position b = operand.paths family position

/-- A stored set is ready as it is. -/
theorem ready_stored (sound : family.Sound) (index : Index) :
    (stored index).Ready family position family index :=
  ⟨fun _ _ => rfl, sound, .refl family, .refl (fun _ => Forest.Retains.refl) family, id, id,
    fun _ => rfl⟩

theorem sound_registeredSingle (sound : family.Sound) {element : Element K}
    (arity : element.children.length = (family.forestAt position).children.length) :
    (family.registeredSingle position element).Sound ∧
      family.Extends (family.registeredSingle position element) :=
  sound.within (fun {_} => ExceptT.lift (Forest.registerSingle element)) position
    (fun _ admitted => admitted)
    (Forest.changes_registerSingle _ element (Forest.admits_single arity))

theorem retains_registeredSingle (family : Family K n) (position : Fin n) (element : Element K) :
    family.Retains (family.registeredSingle position element) :=
  Family.related_within (fun _ => Forest.Retains.refl)
    (fun {_} => ExceptT.lift (Forest.registerSingle element)) family position
    (.of_intern [element] (Forest.children_registerSingle _ element)
      (Forest.sets_registerSingle _ element))

/-- A single element is ready when it is registered. -/
theorem ready_single (sound : family.Sound) {element : Element K}
    (arity : element.children.length = (family.forestAt position).children.length) :
    (single element).Ready family position (family.registeredSingle position element)
      (Forest.registerSingle element (family.forestAt position)).1.index := by
  rcases sound_registeredSingle sound arity with ⟨soundReady, extension⟩
  have retains := retains_registeredSingle family position element
  have canonical := (sound.forestAt position).canonical
  have children := (extension.forestAt position).children
  have denotes := Forest.denotes_registerSingle canonical element
  have read := Forest.get_registerSingle canonical element
  rw [← Family.forestAt_registeredSingle] at denotes read
  refine ⟨fun operation a => Family.applySingle_apply operation position a element family,
    soundReady, extension, retains, ?_, ?_, ?_⟩
  · intro grounded
    rw [Family.grounded_eq]
    refine ⟨[element], denotes, ?_⟩
    intro other member number child atChild
    rw [List.mem_singleton.mp member]
    exact (grounded number child (children ▸ atChild)).mono extension
  · intro resident
    rw [Family.resident_eq]
    refine ⟨[element], read, ?_⟩
    intro other member number child atChild
    rw [List.mem_singleton.mp member]
    exact (resident number child (children ▸ atChild)).mono sound retains
  · intro grounded
    rw [Family.paths_eq, (soundReady.forestAt position).toWellStored.paths_eq denotes, children]
    apply Content.paths_congr
    intro other member number child atChild
    rw [List.mem_singleton.mp member]
    exact sound.paths_extends soundReady extension (grounded number child atChild)

theorem exists_ready (sound : family.Sound) (fits : operand.Fits (family.forestAt position)) :
    ∃ ready b, operand.Ready family position ready b := by
  cases operand with
  | stored index => exact ⟨family, index, ready_stored sound index⟩
  | single element => exact ⟨_, _, ready_single sound fits⟩

end Operand

namespace Family.Sound

variable {family later : Family K n} {position : Fin n} {operation : Operation} {a r : Index}
  {operand : Operand K}

/-- An operation on resident operands has an answer. -/
theorem exists_applyTo (sound : family.Sound) (fits : operand.Fits (family.forestAt position))
    (operation : Operation) (leftResident : family.Resident position a)
    (rightResident : operand.Resident family position) :
    ∃ r later, applyTo operation position a operand family = (.ok r, later) := by
  rcases Operand.exists_ready sound fits with ⟨ready, b, isReady⟩
  rw [isReady.operates]
  exact isReady.sound.exists_apply operation (leftResident.mono sound isReady.retains)
    (isReady.resident rightResident)

/-- A result, in terms of a family that has both operands and the result. -/
theorem answers_of_applyTo (sound : family.Sound)
    (fits : operand.Fits (family.forestAt position))
    (answered : applyTo operation position a operand family = (.ok r, later))
    (rightGrounded : operand.Grounded family position) :
    later.Sound ∧ family.Extends later ∧ ∃ b, (later.meaning position).Answers operation a b r ∧
      later.Grounded position b ∧ later.paths position b = operand.paths family position := by
  rcases Operand.exists_ready sound fits with ⟨ready, b, isReady⟩
  rw [isReady.operates] at answered
  rcases isReady.sound.contents_of_apply answered with ⟨soundLater, extension, determines, -⟩
  have grounded := isReady.grounded rightGrounded
  refine ⟨soundLater, isReady.extension.trans extension, b, determines.answers,
    grounded.mono extension, ?_⟩
  rw [isReady.sound.paths_extends soundLater extension grounded, isReady.paths rightGrounded]

theorem grounded_applyTo (sound : family.Sound) (fits : operand.Fits (family.forestAt position))
    (answered : applyTo operation position a operand family = (.ok r, later))
    (leftGrounded : family.Grounded position a)
    (rightGrounded : operand.Grounded family position) : later.Grounded position r := by
  rcases sound.answers_of_applyTo fits answered rightGrounded with
    ⟨soundLater, extension, b, answers, bGrounded, -⟩
  exact soundLater.keeps_grounded position operation a b r answers (leftGrounded.mono extension)
    bGrounded

end Family.Sound

namespace Family

variable {family later : Family K n} {position : Fin n} {operation : Operation} {a r : Index}
  {operand : Operand K}

/-- Two families have the same nested sets at an index and for an operand, and these are in
use down to the bottom. -/
structure SameOperands (position : Fin n) (a : Index) (operand : Operand K)
    (family other : Family K n) : Prop where
  left : family.Grounded position a
  leftOther : other.Grounded position a
  right : operand.Grounded family position
  rightOther : operand.Grounded other position
  leftPaths : family.paths position a = other.paths position a
  rightPaths : operand.paths family position = operand.paths other position

namespace Sound

/-- What is in use down to the bottom is the same however a family goes on. -/
theorem sameOperands {first second : Family K n} (sound : family.Sound)
    (soundFirst : first.Sound) (soundSecond : second.Sound) (toFirst : family.Extends first)
    (toSecond : family.Extends second) (left : family.Grounded position a)
    (right : operand.Grounded family position) :
    SameOperands position a operand first second where
  left := left.mono toFirst
  leftOther := left.mono toSecond
  right := right.mono toFirst
  rightOther := right.mono toSecond
  leftPaths := (sound.paths_extends soundFirst toFirst left).trans
    (sound.paths_extends soundSecond toSecond left).symm
  rightPaths := (Operand.paths_extends sound soundFirst toFirst right).trans
    (Operand.paths_extends sound soundSecond toSecond right).symm

/-- The result of an operation that is repeated where its operands have the same paths has
the same paths, too. -/
theorem paths_applyTo {other last : Family K n} {r' : Index} (sound : family.Sound)
    (soundOther : other.Sound)
    (children : Related (fun _ forest other => other.children = forest.children) family other)
    (fits : operand.Fits (family.forestAt position))
    (fitsOther : operand.Fits (other.forestAt position))
    (same : SameOperands position a operand family other)
    (answered : applyTo operation position a operand family = (.ok r, later))
    (answeredOther : applyTo operation position a operand other = (.ok r', last)) :
    later.paths position r = last.paths position r' := by
  rcases sound.answers_of_applyTo fits answered same.right with
    ⟨soundLater, extension, b, answers, grounded, paths⟩
  rcases soundOther.answers_of_applyTo fitsOther answeredOther same.rightOther with
    ⟨soundLast, extensionOther, b', answersOther, groundedOther, pathsOther⟩
  have childrenLater :
      Related (fun _ forest other => other.children = forest.children) later last :=
    .of_forestAt fun position => by
      rw [(extensionOther.forestAt position).children, (extension.forestAt position).children,
        children.forestAt position]
  refine soundLater.agrees soundLast childrenLater position operation a b r a b' r' answers
    answersOther (same.left.mono extension) grounded (same.leftOther.mono extensionOther)
    groundedOther ?_ ?_
  · rw [sound.paths_extends soundLater extension same.left,
      soundOther.paths_extends soundLast extensionOther same.leftOther, same.leftPaths]
  · rw [paths, pathsOther, same.rightPaths]

end Sound

end Family

end SetForest
