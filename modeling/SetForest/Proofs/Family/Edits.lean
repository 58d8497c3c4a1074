import SetForest.Proofs.Family.Ordered
import SetForest.Proofs.Family.Residence
import SetForest.Proofs.Family.Single
import SetForest.Proofs.Forest.Read
import SetForest.Proofs.Forest.Update

namespace SetForest

/-!
# Edits of sets in a family

An edit is made in one of four ways.  Two of them search for the key in the content.  The
others register the set of one element and leave the rest to a lattice operation, so they
need more of the family.

What makes a sequence of edits predictable is the same in all cases (`Edit.Reliable`).  In
states of some kind, an edit of a set that can be read has an answer that can be read, and
takes nothing away.  The answer is the index of the edited set.
-/

variable {K : Type} [Key K] {n : Nat}

namespace Edit

/-- Make an edit of a set. -/
def perform (position : Fin n) (a : Index) : Edit K → FamilyM K n Index
  | update element => Family.within (Forest.updateKey a element) position
  | removeKey key => Family.within (Forest.removeKey a key) position
  | insert element => Family.insertSingle position a element
  | remove element => Family.removeSingle position a element

/-- Make edits in turn, each of the set that the one before it answered. -/
def performAll (position : Fin n) (edits : List (Edit K)) (a : Index) : FamilyM K n Index :=
  edits.foldlM (fun a edit => edit.perform position a) a

theorem performAll_cons (position : Fin n) (edit : Edit K) (rest : List (Edit K)) (a : Index) :
    performAll position (edit :: rest) a =
      edit.perform position a >>= performAll position rest :=
  List.foldlM_cons

/-- An edit stores its element and what comes of the set. -/
theorem steps_perform {admits : Content K → Prop} (position : Fin n) (edit : Edit K) (a : Index)
    (family : Family K n) (admitted : ∀ element ∈ edit.element?, admits [element]) :
    Family.Steps admits position family (edit.perform position a family).2 := by
  cases edit with
  | update element =>
      exact .single (.changed (fun {_} => Forest.updateKey a element)
        (Forest.changes_updateKey _ a element (admitted element rfl)))
  | removeKey key =>
      exact .single (.changed (fun {_} => Forest.removeKey a key)
        (Forest.changes_removeKey _ a key))
  | insert element =>
      exact Family.steps_applySingle .union position a element family (admitted element rfl)
  | remove element =>
      exact Family.steps_applySingle .difference position a element family (admitted element rfl)

/-- An edit decides whether a set has its key, and nothing else. -/
def Decides (edit : Edit K) (position : Fin n) (a : Index) (family : Family K n) (has : Bool) :
    Prop :=
  ∃ r later, edit.perform position a family = (.ok r, later) ∧
    (later.forestAt position).contains r edit.key = .ok has ∧
    (∀ key, key ≠ edit.key → (later.forestAt position).contains r key =
      (family.forestAt position).contains a key) ∧
    ∃ held size, (family.forestAt position).contains a edit.key = .ok held ∧
      (family.forestAt position).sizeOf a = .ok size ∧
      (later.forestAt position).sizeOf r = .ok (size - held.toNat + has.toNat)

/-- In families of some kind, some edits do what they should. -/
structure Reliable (position : Fin n) (fit : Family K n → Prop) (among : Edit K → Prop) :
    Prop where
  ordered : ∀ family, fit family → (family.forestAt position).Ordered
  answers : ∀ edit, among edit → ∀ family a content, fit family →
    (family.forestAt position).content a = .ok content →
    ∃ r kept later, edit.perform position a family = (.ok r, later) ∧
      (later.forestAt position).content r = .ok kept
  right : ∀ edit, among edit → ∀ family a r later, fit family →
    edit.perform position a family = (.ok r, later) →
    fit later ∧ family.Retains later ∧ (later.forestAt position).Edited [edit] a r

namespace Reliable

variable {position : Fin n} {fit : Family K n → Prop} {among : Edit K → Prop}
  {family : Family K n} {a : Index} {content : Content K}

/-- An edit of a set that can be read, with all that is known of its answer. -/
theorem exists_perform (reliable : Reliable position fit among) {edit : Edit K}
    (isAmong : among edit) (fits : fit family)
    (read : (family.forestAt position).content a = .ok content) :
    ∃ r kept later, edit.perform position a family = (.ok r, later) ∧ fit later ∧
      family.Retains later ∧ (later.forestAt position).content r = .ok kept ∧
      kept.find? = edit.effect content.find? := by
  rcases reliable.answers edit isAmong family a content fits read with
    ⟨r, kept, later, answered, readKept⟩
  rcases reliable.right edit isAmong family a r later fits answered with
    ⟨fitsLater, retains, before, after, denotes, denotesAfter, effect⟩
  have canonical := (reliable.ordered family fits).canonical
  have canonicalLater := (reliable.ordered later fitsLater).canonical
  have readLater := (retains.forestAt position).content_eq canonical read
  rcases canonicalLater.unique (Forest.denotes_of_content canonicalLater readLater) denotes
    with rfl
  rcases canonicalLater.unique (Forest.denotes_of_content canonicalLater readKept) denotesAfter
    with rfl
  exact ⟨r, kept, later, answered, fitsLater, retains, readKept, effect⟩

/-- What is found at a key after an edit. -/
theorem exists_findKey (reliable : Reliable position fit among) {edit : Edit K}
    (isAmong : among edit) (fits : fit family)
    (read : (family.forestAt position).content a = .ok content) :
    ∃ r later, edit.perform position a family = (.ok r, later) ∧
      (later.forestAt position).findKey r edit.key = .ok edit.outcome ∧
      ∀ key, key ≠ edit.key → (later.forestAt position).findKey r key =
        (family.forestAt position).findKey a key := by
  rcases reliable.exists_perform isAmong fits read with
    ⟨r, kept, later, performed, fitsLater, -, readKept, effect⟩
  have increasing := (reliable.ordered family fits).increasing_of_content read
  have increasingKept := (reliable.ordered later fitsLater).increasing_of_content readKept
  refine ⟨r, later, performed, ?_, ?_⟩
  · rw [Forest.findKey_eq increasingKept readKept, effect, Edit.effect_self]
  · intro key different
    rw [Forest.findKey_eq increasingKept readKept, effect, Edit.effect_of_ne different,
      Forest.findKey_eq increasing read]

/-- What an edit leaves at its key, it decides. -/
theorem decides (reliable : Reliable position fit among) {edit : Edit K}
    (isAmong : among edit) (fits : fit family)
    (read : (family.forestAt position).content a = .ok content) :
    edit.Decides position a family edit.outcome.isSome := by
  rcases reliable.exists_perform isAmong fits read with
    ⟨r, kept, later, performed, fitsLater, -, readKept, effect⟩
  have increasing := (reliable.ordered family fits).increasing_of_content read
  have increasingKept := (reliable.ordered later fitsLater).increasing_of_content readKept
  have contained := Forest.contains_eq increasing read edit.key
  refine ⟨r, later, performed, ?_, ?_, _, _, contained, Forest.sizeOf_eq read, ?_⟩
  · rw [Forest.contains_eq increasingKept readKept, effect, Edit.effect_self]
  · intro key different
    rw [Forest.contains_eq increasingKept readKept, effect, Edit.effect_of_ne different,
      Forest.contains_eq increasing read]
  · have length := Content.length_of_effect increasing increasingKept effect
    have others := Content.length_without increasing edit.key 0
    rw [Forest.sizeOf_eq readKept]
    apply congrArg Except.ok
    omega

/-- So it is for edits in turn. -/
theorem exists_performAll (reliable : Reliable position fit among) {edits : List (Edit K)}
    (areAmong : ∀ edit ∈ edits, among edit) (fits : fit family)
    (read : (family.forestAt position).content a = .ok content) :
    ∃ r kept later, performAll position edits a family = (.ok r, later) ∧ fit later ∧
      family.Retains later ∧ (later.forestAt position).content r = .ok kept ∧
      kept.find? = Edit.effects edits content.find? := by
  induction edits generalizing family a content with
  | nil =>
      exact ⟨a, content, family, rfl, fits, .refl (fun _ => Forest.Retains.refl) family, read, rfl⟩
  | cons edit rest ih =>
      rcases reliable.exists_perform (areAmong edit List.mem_cons_self) fits read with
        ⟨b, mid, between, performed, fitsBetween, retains, readMid, effect⟩
      rcases ih (fun other member => areAmong other (List.mem_cons_of_mem edit member)) fitsBetween
        readMid with ⟨r, kept, later, performedRest, fitsLater, further, readKept, effects⟩
      refine ⟨r, kept, later, ?_, fitsLater,
        retains.trans (fun _ _ _ _ => Forest.Retains.trans) further, readKept, ?_⟩
      · rw [performAll_cons, Action.bind_apply, performed]
        exact performedRest
      · rw [effects, effect]
        rfl

/-- Two sequences of edits that make the same of a set lead to the same index. -/
theorem exists_both (reliable : Reliable position fit among) {first second : List (Edit K)}
    (firstAmong : ∀ edit ∈ first, among edit) (secondAmong : ∀ edit ∈ second, among edit)
    (fits : fit family) (read : (family.forestAt position).content a = .ok content)
    (same : Edit.effects first content.find? = Edit.effects second content.find?) :
    ∃ r later last, performAll position first a family = (.ok r, later) ∧
      performAll position second a later = (.ok r, last) := by
  rcases reliable.exists_performAll firstAmong fits read with
    ⟨r, kept, later, performed, fitsLater, retains, readKept, effect⟩
  have canonical := (reliable.ordered family fits).canonical
  have readLater := (retains.forestAt position).content_eq canonical read
  rcases reliable.exists_performAll secondAmong fitsLater readLater with
    ⟨s, other, last, performedOther, fitsLast, further, readOther, effectOther⟩
  have ordered := reliable.ordered last fitsLast
  have denotes : ∀ index content, (last.forestAt position).content index = .ok content →
      (last.forestAt position).Denotes index content := fun index content read =>
    Forest.denotes_of_content ordered.canonical read
  have readLast := (further.forestAt position).content_eq
    (reliable.ordered later fitsLater).canonical readLater
  have keptLast := (further.forestAt position).content_eq
    (reliable.ordered later fitsLater).canonical readKept
  have indexEq : r = s := Forest.Edited.index_eq
    ⟨content, kept, denotes a content readLast, denotes r kept keptLast, effect⟩
    ⟨content, other, denotes a content readLast, denotes s other readOther, effectOther⟩
    ordered.canonical ordered.increasing (denotes a content readLast) same
  subst s
  exact ⟨r, later, last, performed, performedOther⟩

end Reliable

end Edit

/-! ## Edits that search for the key -/

namespace Family

variable {action : {m : Nat} → ForestM K m Index} {change : Content K → Content K}
  {family later : Family K n} {position : Fin n} {a r : Index} {content : Content K}

/-- What a forest changes and stores can be read in the family. -/
theorem exists_within_of_replaces
    (replaces : (family.forestAt position).Replaces change a (action (family.forestAt position)))
    (read : (family.forestAt position).content a = .ok content) :
    ∃ r kept later, within action position family = (.ok r, later) ∧
      (later.forestAt position).content r = .ok kept := by
  rcases replaces.stored content read with ⟨r, answered, readKept⟩
  have here := within_apply action family position
  refine ⟨r, change content, (within action position family).2,
    Prod.ext (here.1.trans answered) rfl, ?_⟩
  rw [here.2]
  exact readKept

/-- If the change is that of an edit, the answer is the index of the edited set. -/
theorem edited_within (ordered : (family.forestAt position).Ordered)
    (replaces : (family.forestAt position).Replaces change a (action (family.forestAt position)))
    {edit : Edit K}
    (effect : ∀ content : Content K, content.Increasing →
      (change content).find? = edit.effect content.find?)
    (answered : within action position family = (.ok r, later)) :
    family.Retains later ∧ (later.forestAt position).Edited [edit] a r := by
  have retains := related_within (fun _ => Forest.Retains.refl) action family position
    replaces.retains
  have acted := forest_within answered
  rw [answered] at retains
  rw [acted] at replaces
  rcases replaces.content_eq with ⟨content, read, readKept⟩
  have canonicalLater := (retains.forestAt position).canonical ordered.canonical
  have readLater := (retains.forestAt position).content_eq ordered.canonical read
  exact ⟨retains, content, change content, Forest.denotes_of_content canonicalLater readLater,
    Forest.denotes_of_content canonicalLater readKept,
    effect content (ordered.increasing_of_content read)⟩

end Family

namespace Edit

/-- An edit that the forest makes by itself. -/
def Direct : Edit K → Prop
  | update _ => True
  | removeKey _ => True
  | insert _ => False
  | remove _ => False

namespace Direct

variable {position : Fin n} {edit : Edit K} {family later : Family K n} {a r : Index}

theorem exists_perform (direct : edit.Direct) (ordered : (family.forestAt position).Ordered)
    {content : Content K} (read : (family.forestAt position).content a = .ok content) :
    ∃ r kept later, edit.perform position a family = (.ok r, later) ∧
      (later.forestAt position).content r = .ok kept := by
  cases edit with
  | update element =>
      exact Family.exists_within_of_replaces
        (Forest.replaces_updateKey ordered.canonical a element) read
  | removeKey key =>
      exact Family.exists_within_of_replaces
        (Forest.replaces_removeKey ordered.canonical a key) read
  | insert element => exact direct.elim
  | remove element => exact direct.elim

theorem edited (direct : edit.Direct) (ordered : (family.forestAt position).Ordered)
    (answered : edit.perform position a family = (.ok r, later)) :
    family.Retains later ∧ (later.forestAt position).Edited [edit] a r := by
  cases edit with
  | update element =>
      exact Family.edited_within ordered
        (Forest.replaces_updateKey ordered.canonical a element)
        (fun content increasing => Content.find?_put increasing element) answered
  | removeKey key =>
      exact Family.edited_within ordered
        (Forest.replaces_removeKey ordered.canonical a key)
        (fun content increasing => Content.find?_without increasing key _) answered
  | insert element => exact direct.elim
  | remove element => exact direct.elim

end Direct

/-- As long as all sets are in order, such edits do what they should. -/
theorem reliable_direct (position : Fin n) :
    Reliable position (Family.Ordered (K := K)) Direct where
  ordered := fun family ordered => ordered.forestAt position
  answers := fun edit direct family a content ordered read =>
    direct.exists_perform (ordered.forestAt position) read
  right := by
    intro edit direct family a r later ordered answered
    refine ⟨?_, direct.edited (ordered.forestAt position) answered⟩
    have kept : (edit.perform position a family).2.Ordered :=
      ordered.steps (steps_perform position edit a family
        fun element _ => Content.increasing_singleton element)
    rw [answered] at kept
    exact kept

end Edit

end SetForest
