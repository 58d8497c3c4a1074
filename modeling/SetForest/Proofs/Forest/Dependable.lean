import SetForest.Forest.Read
import SetForest.Proofs.Family.Merge
import SetForest.Proofs.Family.Planting
import SetForest.Proofs.Forest.Eviction

namespace SetForest

/-!
# Answers that can be read

A forest answers an operation with one of the operands, with the empty set, with a
result that it remembers and still has, or with a content that it has just stored.
Apart from the operands, all of these can be read.

For this to hold, little is asked of the forest (`Forest.Dependable`).  Whether what
it remembers is right does not matter, and neither does the order of its sets.  It
can read the empty set, and what it remembers was handed out.  Every forest starts out
like this and stays so, whatever is evicted.
-/

namespace Content

variable {K : Type} [Key K] {n : Nat}

/-- Every cell of an alignment keeps an element of one side or joins two elements. -/
theorem forall_align {holds : Cell K n → Prop} {children : List (Fin n)} (operation : Operation)
    (kept : ∀ element, holds (.kept element))
    (joined : ∀ first second, holds (.join children first second)) (left right : Content K) :
    ∀ cell ∈ Content.align operation children left right, holds cell := by
  have allKept : ∀ content : Content K, ∀ cell ∈ content.map Cell.kept, holds cell :=
    fun content => List.forall_mem_map.mpr fun element _ => kept element
  -- A side is left out as a whole, or kept as it is.
  have optional : ∀ (condition : Prop) [Decidable condition] (cells : List (Cell K n)),
      (∀ cell ∈ cells, holds cell) → ∀ cell ∈ (if condition then [] else cells), holds cell := by
    intro condition _ cells all
    split
    · exact nofun
    · exact all
  induction left generalizing right with
  | nil =>
      rw [align]
      split
      · exact allKept right
      · exact nofun
  | cons first left ih =>
      rw [align]
      induction right with
      | nil =>
          rw [alignAfter]
          exact optional _ _ (allKept (first :: left))
      | cons second right ihRight =>
          rw [alignAfter]
          cases first.compareKeys second with
          | lt =>
              refine List.forall_mem_append.mpr ⟨optional _ _ ?_, ih (second :: right)⟩
              exact List.forall_mem_singleton.mpr (kept first)
          | gt =>
              refine List.forall_mem_append.mpr ⟨?_, ihRight⟩
              split
              · exact List.forall_mem_singleton.mpr (kept second)
              · exact nofun
          | eq =>
              refine List.forall_mem_append.mpr ⟨optional _ _ ?_, ih right⟩
              exact List.forall_mem_singleton.mpr (joined first second)

/-- Without child forests there is nothing to ask, whatever is aligned. -/
theorem calls_align_of_flat (operation : Operation) (left right : Content K) :
    ∀ cell ∈ Content.align operation ([] : List (Fin n)) left right, cell.calls = [] :=
  forall_align operation (fun _ => rfl) (fun _ _ => rfl) left right

end Content

namespace Forest

variable {K : Type} [Key K] {n : Nat} {forest later : Forest K n} {operation : Operation}
  {a b r index : Index}

/-- What was not dropped is what can be read. -/
theorem isEvicted_eq_false_iff :
    forest.isEvicted index = .ok false ↔ ∃ content, forest.content index = .ok content := by
  rw [isEvicted, content]
  cases forest.checkIndex index with
  | error error =>
      constructor
      · intro told
        cases told
      · rintro ⟨content, read⟩
        cases read
  | ok _ =>
      constructor
      · exact Arena.exists_get
      · rintro ⟨content, read⟩
        exact Arena.isEvicted_of_get read

/-- Of an index in use it can be told whether its content was dropped. -/
theorem isEvicted_of_lt (inUse : index < forest.size) :
    forest.isEvicted index = forest.sets.isEvicted index := by
  rw [isEvicted, checkIndex_of_lt inUse]
  rfl

/-- What the storage can tell of an index, the forest tells. -/
theorem isEvicted_of_ok (canonical : forest.sets.Canonical) {dropped : Bool}
    (told : forest.sets.isEvicted index = .ok dropped) :
    forest.isEvicted index = .ok dropped := by
  rw [Arena.isEvicted_eq] at told
  cases found : forest.sets.slot? index with
  | none =>
      rw [found] at told
      cases told
  | some slot =>
      have inUse : index < forest.size :=
        (canonical.holdings.inUse index).mp (Option.isSome_of_eq_some found)
      rw [isEvicted_of_lt inUse, Arena.isEvicted_eq]
      exact told

/-- No index is taken back. -/
theorem Evolves.lt_size (evolves : forest.Evolves later) (canonical : forest.sets.Canonical)
    (inUse : index < forest.size) : index < later.size := by
  rcases canonical.exists_denotes inUse with ⟨content, denotes⟩
  exact (evolves.canonical canonical).lt_size (evolves.denotes canonical denotes)

/-- What is remembered was handed out, and the empty set can be read. -/
structure Dependable (forest : Forest K n) : Prop where
  canonical : forest.sets.Canonical
  empty : forest.sets.get Index.empty = .ok []
  handedOut : ∀ operation pair r, (forest.memo operation).lookup pair = some r → r < forest.size

namespace Dependable

theorem zero_lt_size (dependable : forest.Dependable) : Index.empty < forest.size :=
  dependable.canonical.lt_size_of_get dependable.empty

/-- Only the storage and what is remembered matter. -/
theorem of_eq (dependable : forest.Dependable) (sets : later.sets = forest.sets)
    (memo : ∀ operation, later.memo operation = forest.memo operation) : later.Dependable := by
  refine ⟨?_, ?_, ?_⟩
  · rw [sets]
    exact dependable.canonical
  · rw [sets]
    exact dependable.empty
  · intro operation pair r found
    rw [memo] at found
    rw [size, sets]
    exact dependable.handedOut operation pair r found

/-- Whatever a forest does by itself, it can be depended on as before. -/
theorem change (dependable : forest.Dependable) {admits : Content K → Prop}
    (change : Change admits forest later) : later.Dependable := by
  have retains := change.retains_empty
  refine ⟨retains.canonical dependable.canonical, ?_, ?_⟩
  · exact retains.read dependable.canonical Index.empty [] rfl dependable.empty
  · intro operation pair r found
    rw [change.memo_eq] at found
    exact change.evolves.lt_size dependable.canonical
      (dependable.handedOut operation pair r found)

theorem changes (dependable : forest.Dependable) {admits : Content K → Prop}
    (changes : Changes admits forest later) : later.Dependable := by
  induction changes with
  | refl => exact dependable
  | tail _ change ih => exact ih.change change

/-- The result that is settled is remembered once it is stored. -/
theorem settle (dependable : forest.Dependable) (operation : Operation) (a b : Index)
    (content : Content K) : (Forest.settle operation a b content forest).2.Dependable := by
  have retains : forest.Retains (fun _ => True) (Forest.settle operation a b content forest).2 :=
    Retains.settle forest operation a b content
  have evolves := forest.evolves_settle operation a b content
  refine ⟨retains.canonical dependable.canonical, ?_, ?_⟩
  · exact retains.read dependable.canonical Index.empty [] trivial dependable.empty
  · intro other pair r found
    rcases forest.lookup_settle operation other a b content pair with
      same | ⟨-, -, result⟩ | ⟨-, isEmpty⟩
    · rw [same] at found
      exact evolves.lt_size dependable.canonical (dependable.handedOut other pair r found)
    · rw [result] at found
      cases found
      have canonical := retains.canonical dependable.canonical
      exact canonical.lt_size_of_get
        ((content_eq_ok_iff canonical).mp (content_settle dependable.canonical content))
    · rw [isEmpty] at found
      cases found
      exact evolves.lt_size dependable.canonical dependable.zero_lt_size

theorem create (config : Config) (strategy : Strategy) (children : List (Fin n)) :
    (Forest.create config strategy children : Forest K n).Dependable := by
  refine ⟨?_, get_created config strategy children, ?_⟩
  · exact (Arena.canonical_create strategy config.blockSize).intern []
  · intro operation pair r found
    cases operation <;> simp [Forest.create, memo] at found

/-- A set that is in order is registered under an index where it can be read. -/
theorem exists_registerSet (dependable : forest.Dependable) {content : Content K}
    (increasing : content.Increasing) :
    ∃ registered later, registerSet content forest = (.ok registered, later) ∧
      forest.Retains (fun _ => True) later ∧ later.content registered.index = .ok content := by
  rcases forest.exists_note_eq .registration with ⟨activities, noted⟩
  have ways := registration forest content
  rw [noted] at ways
  generalize registerSet content forest = outcome at ways
  cases ways with
  | refused checks found =>
      rw [(Content.violation?_eq_none_iff content).mpr increasing] at found
      cases found
  | empty isEmpty =>
      subst content
      have retains : forest.Retains (fun _ => True)
          (({ forest with activities } : Forest K n).tallyRegistration .emptyHit) :=
        ⟨rfl, id, fun _ _ _ _ read => read⟩
      exact ⟨_, _, rfl, retains, retains.content_eq dependable.canonical
        ((content_eq_ok_iff dependable.canonical).mpr dependable.empty)⟩
  | stored accepted =>
      rcases ({ forest with activities } : Forest K n).exists_intern_eq content with
        ⟨counters, stored⟩
      refine ⟨_, _, rfl, ?_, ?_⟩
      · rw [stored]
        exact .of_intern content rfl rfl
      · rw [index_intern, stored, content_eq_ok_iff (dependable.canonical.intern content)]
        exact dependable.canonical.get_interned content

/-- What is known and not an operand can be read. -/
theorem resident_of_known (dependable : forest.Dependable)
    (known : (consult operation a b forest).1 = .ok (.known r)) :
    r = a ∨ r = b ∨ forest.isEvicted r = .ok false := by
  rcases cases_of_known known with isLeft | isRight | rfl | resident
  · exact Or.inl isLeft
  · exact Or.inr (Or.inl isRight)
  · exact Or.inr (Or.inr (isEvicted_of_ok dependable.canonical
      (Arena.isEvicted_of_get dependable.empty)))
  · exact Or.inr (Or.inr (isEvicted_of_ok dependable.canonical resident))

/-- What is in use and cannot be read was dropped. -/
theorem evicted_of_get_error (dependable : forest.Dependable) {error : Error}
    (inUse : index < forest.size) (notRead : forest.sets.get index = .error error) :
    error = .evicted index ∧ forest.isEvicted index = .ok true := by
  rw [isEvicted_of_lt inUse, Arena.isEvicted_eq]
  rw [Arena.get_eq] at notRead
  cases found : forest.sets.slot? index with
  | none =>
      have absent := (dependable.canonical.holdings.inUse index).mpr inUse
      rw [show forest.sets.holdings.slot? index = none from found] at absent
      cases absent
  | some slot =>
      rw [found] at notRead
      cases slot with
      | resident content => cases notRead
      | evicted =>
          cases notRead
          exact ⟨rfl, rfl⟩

/-- Operands in use are refused only because one of them was dropped. -/
theorem evicted_of_refused (dependable : forest.Dependable) {error : Error}
    (leftInUse : a < forest.size) (rightInUse : b < forest.size)
    (refused : (consult operation a b forest).1 = .error error) :
    ∃ x, (x = a ∨ x = b) ∧ error = .evicted x ∧ forest.isEvicted x = .ok true := by
  cases found : forest.shortcut operation a b with
  | some answer =>
      rw [consult_of_shortcut leftInUse rightInUse found] at refused
      cases refused
  | none =>
      rcases exists_usable? dependable.canonical
        (dependable.handedOut operation (operation.operands a b)) with ⟨usable, told⟩
      rw [consult_of_usable? leftInUse rightInUse found told] at refused
      cases usable with
      | some result => cases refused
      | none =>
          cases leftRead : forest.sets.get a with
          | error error =>
              rw [leftRead] at refused
              cases refused
              exact ⟨a, Or.inl rfl, dependable.evicted_of_get_error leftInUse leftRead⟩
          | ok left =>
              cases rightRead : forest.sets.get b with
              | error error =>
                  rw [leftRead, rightRead] at refused
                  cases refused
                  exact ⟨b, Or.inr rfl, dependable.evicted_of_get_error rightInUse rightRead⟩
              | ok right =>
                  rw [leftRead, rightRead] at refused
                  cases refused

end Dependable

end Forest

end SetForest
