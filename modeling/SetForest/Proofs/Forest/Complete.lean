import SetForest.Proofs.Forest.Answer

namespace SetForest

/-!
# What a remembered result stands on

When a result was remembered, it was also filed what it shows, and the forests below
had answered all the calls that led to it.  Neither is ever taken back.  A forest is
complete if both hold for each of its results (`Forest.Complete`).

That is what makes it safe to compute a result again whose content was dropped.  All
calls are known already, the content comes back to its own index, and nothing new is
remembered or filed (`Forest.Complete.settle_again`).
-/

namespace Forest

variable {K : Type} [Key K] {n : Nat} {forest later : Forest K n}
  {below laterBelow : Fin n → Meaning} {operation : Operation} {a b r sub sup : Index}

/-! ## Known results -/

/-- The tables settle an operation, whether or not its result is resident, and the
operation has been asked for before. -/
structure Knows (forest : Forest K n) (operation : Operation) (a b : Index) : Prop where
  left : forest.InUse a
  right : forest.InUse b
  noted : forest.HasNoted (.operation operation)
  settled : (forest.shortcut operation a b).isSome ∨
    ((forest.memo operation).lookup (operation.operands a b)).isSome

/-- Neither work nor results are forgotten, though a result may be replaced. -/
structure Remembers (forest later : Forest K n) : Prop where
  activities : forest.activities ⊆ later.activities
  results : ∀ operation pair, ((forest.memo operation).lookup pair).isSome →
    ((later.memo operation).lookup pair).isSome

theorem Remembers.refl (forest : Forest K n) : forest.Remembers forest :=
  ⟨List.Subset.refl _, fun _ _ found => found⟩

theorem Remembers.trans {last : Forest K n} (first : forest.Remembers later)
    (second : later.Remembers last) : forest.Remembers last :=
  ⟨List.Subset.trans first.activities second.activities,
    fun operation pair found => second.results operation pair (first.results operation pair found)⟩

theorem Remembers.of_eq (activities : forest.activities ⊆ later.activities)
    (memo : ∀ operation, later.memo operation = forest.memo operation) :
    forest.Remembers later := by
  refine ⟨activities, ?_⟩
  intro operation pair found
  rw [memo]
  exact found

/-- A shortcut stays one, as what was filed stays filed. -/
theorem shortcut_isSome_mono (extension : forest.Extends later)
    (found : (forest.shortcut operation a b).isSome) :
    (later.shortcut operation a b).isSome := by
  unfold shortcut at found ⊢
  by_cases same : a = b
  · rw [if_pos same]
    rfl
  · rw [if_neg same] at found ⊢
    by_cases someEmpty : a = Index.empty ∨ b = Index.empty
    · rw [if_pos someEmpty]
      rfl
    · rw [if_neg someEmpty] at found ⊢
      cases filed : forest.filedInclusion a b with
      | none =>
          rw [filed] at found
          cases operation <;> cases found
      | some relation =>
          rw [filed] at found
          rw [extension.filed a b relation filed]
          exact found

/-- Both orders of two operands have a shortcut, or none. -/
theorem shortcut_isSome_comm (found : (forest.shortcut operation a b).isSome) :
    (forest.shortcut operation b a).isSome := by
  unfold shortcut at found ⊢
  by_cases same : a = b
  · rw [if_pos same.symm]
    rfl
  · rw [if_neg same] at found
    rw [if_neg (Ne.symm same)]
    by_cases someEmpty : a = Index.empty ∨ b = Index.empty
    · rw [if_pos someEmpty.symm]
      rfl
    · rw [if_neg someEmpty] at found
      rw [if_neg (mt Or.symm someEmpty), forest.filedInclusion_comm same]
      cases filed : forest.filedInclusion a b with
      | none =>
          rw [filed] at found
          cases operation <;> cases found
      | some relation =>
          rw [filed] at found
          cases operation <;> cases relation <;> first | rfl | cases found

theorem Knows.mono (knows : forest.Knows operation a b) (extension : forest.Extends later)
    (remembers : forest.Remembers later) : later.Knows operation a b :=
  ⟨knows.left.imp (extension.denotes a), knows.right.imp (extension.denotes b),
    knows.noted.mono extension.config remembers.activities,
    knows.settled.imp (shortcut_isSome_mono extension) (remembers.results operation _)⟩

theorem operands_comm (commutative : operation.isCommutative = true) (a b : Index) :
    operation.operands b a = operation.operands a b := by
  rw [Operation.operands, Operation.operands, if_pos commutative, if_pos commutative,
    Operands.ordered_comm]

/-- Operands with one key are the same in some order. -/
theorem operands_eq_iff {c d : Index} (same : operation.operands a b = operation.operands c d) :
    (a = c ∧ b = d) ∨ operation.isCommutative = true ∧ a = d ∧ b = c := by
  rw [Operation.operands, Operation.operands] at same
  by_cases commutative : operation.isCommutative = true
  · rw [if_pos commutative, if_pos commutative] at same
    exact ((ordered_eq_iff a b c d).mp same).imp id fun swapped => ⟨commutative, swapped⟩
  · rw [if_neg commutative, if_neg commutative] at same
    exact Or.inl (Operands.mk.inj same)

theorem Knows.symm (knows : forest.Knows operation a b)
    (commutative : operation.isCommutative = true) : forest.Knows operation b a := by
  refine ⟨knows.right, knows.left, knows.noted, knows.settled.imp shortcut_isSome_comm ?_⟩
  rw [operands_comm commutative]
  exact id

/-- A result that is known after a consultation was known before it. -/
theorem known_of_consult (known : (consult operation a b forest).1 = .ok (.known r)) :
    (forest.shortcut operation a b).isSome ∨
      ((forest.memo operation).lookup (operation.operands a b)).isSome := by
  rcases sources_of_known known with ⟨outcome, found⟩ | ⟨found, -⟩
  · exact Or.inl (Option.isSome_of_eq_some found)
  · exact Or.inr (Option.isSome_of_eq_some found)

/-! ## What is filed about a result -/

/-- An inclusion is filed, unless it goes without saying. -/
def Filed (forest : Forest K n) (sub sup : Index) : Prop :=
  sub = sup ∨ sub = Index.empty ∨ forest.filedInclusion sub sup = some .subset

theorem Filed.mono (filed : forest.Filed sub sup) (extension : forest.Extends later) :
    later.Filed sub sup :=
  filed.imp id (Or.imp id (extension.filed sub sup .subset))

/-- To file it again changes nothing. -/
theorem Filed.fileInclusion_eq (filed : forest.Filed sub sup) :
    forest.fileInclusion sub sup = forest := by
  rw [fileInclusion]
  by_cases trivially : sub = sup ∨ sub = Index.empty
  · rw [if_pos trivially]
  · rw [if_neg trivially]
    rcases not_or.mp trivially with ⟨different, notEmpty⟩
    have found := (filed.resolve_left different).resolve_left notEmpty
    have kept : forest.inclusions.store (.ordered sub sup)
        (if sub < sup then Inclusion.subset else Inclusion.superset) = forest.inclusions := by
      apply Table.store_eq_self
      rw [filedInclusion] at found
      rcases Nat.lt_or_gt_of_ne different with less | greater
      · rw [if_pos (Nat.le_of_lt less)] at found
        rw [if_pos less]
        exact found
      · rw [if_neg (Nat.not_le_of_gt greater)] at found
        rw [if_neg (Nat.not_lt_of_gt greater)]
        rcases Option.map_eq_some_iff.mp found with ⟨relation, stored, flipped⟩
        cases relation with
        | subset => cases flipped
        | superset => exact stored
    dsimp only
    rw [kept]

/-- What was just filed is filed. -/
theorem filed_fileInclusion (forest : Forest K n) (sub sup : Index) :
    (forest.fileInclusion sub sup).Filed sub sup := by
  by_cases same : sub = sup
  · exact Or.inl same
  · by_cases isEmpty : sub = Index.empty
    · exact Or.inr (Or.inl isEmpty)
    · refine Or.inr (Or.inr ?_)
      rw [forest.filedInclusion_fileInclusion same isEmpty, if_pos ⟨rfl, rfl⟩]

/-- Other inclusions stay filed, except for the converse one. -/
theorem Filed.fileInclusion {other above : Index} (filed : forest.Filed sub sup)
    (notConverse : ¬(sub = above ∧ sup = other)) :
    (forest.fileInclusion other above).Filed sub sup := by
  by_cases trivially : other = above ∨ other = Index.empty
  · rw [Forest.fileInclusion, if_pos trivially]
    exact filed
  · rcases not_or.mp trivially with ⟨different, notEmpty⟩
    refine filed.imp id (Or.imp id ?_)
    intro found
    rw [forest.filedInclusion_fileInclusion different notEmpty, if_neg notConverse, found]
    split <;> rfl

/-- All that a result shows is on file. -/
def Shows (forest : Forest K n) (operation : Operation) (a b r : Index) : Prop :=
  match operation with
  | .union => forest.Filed a r ∧ forest.Filed b r
  | .intersection => forest.Filed r a ∧ forest.Filed r b
  | .difference => forest.Filed r a ∧ (r = a → forest.children = [] →
    forest.intersections.lookup (.ordered a b) = some Index.empty)

namespace Shows

theorem symm (shown : forest.Shows operation a b r)
    (commutative : operation.isCommutative = true) : forest.Shows operation b a r := by
  cases operation with
  | union => exact ⟨shown.2, shown.1⟩
  | intersection => exact ⟨shown.2, shown.1⟩
  | difference => cases commutative

theorem mono (shown : forest.Shows operation a b r) (extension : forest.Extends later)
    (kept : ∀ pair result, forest.intersections.lookup pair = some result →
      later.intersections.lookup pair = some result) : later.Shows operation a b r := by
  cases operation with
  | union => exact ⟨shown.1.mono extension, shown.2.mono extension⟩
  | intersection => exact ⟨shown.1.mono extension, shown.2.mono extension⟩
  | difference =>
      refine ⟨shown.1.mono extension, ?_⟩
      rw [extension.children]
      exact fun isLeft flat => kept _ _ (shown.2 isLeft flat)

/-- To file the result again changes nothing. -/
theorem fileResult_eq (shown : forest.Shows operation a b r) :
    forest.fileResult operation a b r = forest := by
  cases operation with
  | union | intersection =>
      simp only [fileResult]
      rw [shown.1.fileInclusion_eq, shown.2.fileInclusion_eq]
      split
      · next isLeft => exact (isLeft ▸ shown.2).fileInclusion_eq
      · split
        · next isRight => exact (isRight ▸ shown.1).fileInclusion_eq
        · rfl
  | difference =>
      simp only [fileResult]
      split
      · exact shown.1.fileInclusion_eq
      · next isLeft =>
          split
          · next flat =>
              have found := shown.2 (not_not.mp isLeft) flat
              change { forest with intersections := _ } = forest
              rw [Table.store_eq_self found]
          · rfl

end Shows

/-- A result that was just filed is filed. -/
theorem shows_fileResult (forest : Forest K n) (operation : Operation) (a b r : Index) :
    (forest.fileResult operation a b r).Shows operation a b r := by
  cases operation with
  | union =>
      simp only [fileResult]
      split
      · next isLeft =>
          subst r
          exact ⟨Or.inl rfl, forest.filed_fileInclusion b a⟩
      · next notLeft =>
          split
          · next isRight =>
              subst r
              exact ⟨forest.filed_fileInclusion a b, Or.inl rfl⟩
          · exact ⟨(forest.filed_fileInclusion a r).fileInclusion fun both => notLeft both.1.symm,
              filed_fileInclusion _ b r⟩
  | intersection =>
      simp only [fileResult]
      split
      · next isLeft =>
          subst r
          exact ⟨Or.inl rfl, forest.filed_fileInclusion a b⟩
      · next notLeft =>
          split
          · next isRight =>
              subst r
              exact ⟨forest.filed_fileInclusion b a, Or.inl rfl⟩
          · exact ⟨(forest.filed_fileInclusion r a).fileInclusion fun both => notLeft both.2.symm,
              filed_fileInclusion _ r b⟩
  | difference =>
      simp only [fileResult]
      split
      · next notLeft =>
          exact ⟨forest.filed_fileInclusion r a, fun isLeft => absurd isLeft notLeft⟩
      · next isLeft =>
          refine ⟨Or.inl (not_not.mp isLeft), fun _ flat => ?_⟩
          split at flat
          · next here =>
              rw [if_pos here]
              exact Table.lookup_store_self _ _ _
          · next nested => exact absurd flat nested

/-! ## Complete forests -/

/-- The calls to the forests below that the merge of two contents makes are known. -/
def CallsKnown (forest : Forest K n) (knowsBelow : Fin n → Operation → Index → Index → Prop)
    (operation : Operation) (left right : Content K) : Prop :=
  ∀ first ∈ left, ∀ second ∈ right, first.key = second.key →
    ∀ number child, forest.children[number]? = some child →
      knowsBelow child operation (first.child number) (second.child number)

/-- Of every remembered result, all that it shows is on file, and all calls that lead
to it are known.  The empty set is never computed again, and nothing is asked of it. -/
structure Complete (knowsBelow : Fin n → Operation → Index → Index → Prop)
    (forest : Forest K n) : Prop where
  shown : ∀ operation a b r, (forest.memo operation).lookup (operation.operands a b) = some r →
    a ≠ b → r ≠ Index.empty → forest.Shows operation a b r
  called : ∀ operation a b r left right,
    (forest.memo operation).lookup (operation.operands a b) = some r → a ≠ b →
    forest.Denotes a left → forest.Denotes b right →
    forest.CallsKnown knowsBelow operation left right

/-- What is remembered besides when a result is filed. -/
theorem memo_fileResult (forest : Forest K n) (operation other : Operation) (a b r : Index) :
    (forest.fileResult operation a b r).memo other = forest.memo other ∨
      forest.children = [] ∧ operation = .difference ∧ other = .intersection ∧
        (forest.fileResult operation a b r).memo other =
          (forest.memo other).store (.ordered a b) Index.empty := by
  have one : ∀ (forest : Forest K n) sub sup,
      (forest.fileInclusion sub sup).memo other = forest.memo other := by
    intro forest sub sup
    rcases forest.exists_fileInclusion_eq sub sup with ⟨inclusions, filed⟩
    rw [filed]
    cases other <;> rfl
  cases operation with
  | union =>
      refine Or.inl ?_
      simp only [fileResult]
      split
      · exact one forest b a
      · split
        · exact one forest a b
        · exact (one _ b r).trans (one forest a r)
  | intersection =>
      refine Or.inl ?_
      simp only [fileResult]
      split
      · exact one forest a b
      · split
        · exact one forest b a
        · exact (one _ r b).trans (one forest r a)
  | difference =>
      simp only [fileResult]
      split
      · exact Or.inl (one forest r a)
      · split
        · next flat =>
            cases other with
            | intersection => exact Or.inr ⟨flat, trivial, rfl, rfl⟩
            | union => exact Or.inl rfl
            | difference => exact Or.inl rfl
        · exact Or.inl rfl

/-- What is remembered once a result is settled. -/
theorem lookup_settle (forest : Forest K n) (operation other : Operation) (a b : Index)
    (content : Content K) (pair : Operands) :
    (((settle operation a b content forest).2.memo other).lookup pair =
        (forest.memo other).lookup pair) ∨
      (other = operation ∧ pair = operation.operands a b ∧
        ((settle operation a b content forest).2.memo other).lookup pair =
          some (settle operation a b content forest).1) ∨
      (forest.children = [] ∧
        ((settle operation a b content forest).2.memo other).lookup pair = some Index.empty) := by
  classical
  rw [settle_apply]
  rcases forest.exists_intern_eq content with ⟨counted, stored⟩
  rw [stored]
  generalize (forest.intern content).1 = registered
  let tallied : Forest K n := tallyOperation
    { forest with sets := (forest.sets.intern content).2, counters := counted } operation
    (.ofMiss registered.cold)
  let result : Forest K n :=
    tallied.remember operation (operation.operands a b) registered.index
  have untouched : tallied.memo other = forest.memo other := by cases other <;> rfl
  have children : result.children = forest.children := by cases operation <;> rfl
  have remembered : (result.memo other).lookup pair = (forest.memo other).lookup pair ∨
      other = operation ∧ pair = operation.operands a b ∧
        (result.memo other).lookup pair = some registered.index := by
    rw [tallied.memo_remember operation other]
    by_cases same : other = operation
    · subst other
      rw [if_pos rfl, untouched, Table.lookup_store]
      by_cases here : operation.operands a b = pair
      · rw [if_pos here]
        exact Or.inr ⟨rfl, here.symm, rfl⟩
      · rw [if_neg here]
        exact Or.inl rfl
    · rw [if_neg same, untouched]
      exact Or.inl rfl
  rcases result.memo_fileResult operation other a b registered.index with
    same | ⟨flat, -, rfl, filed⟩
  · change ((result.fileResult operation a b registered.index).memo other).lookup pair = _ ∨ _
    rw [same]
    exact remembered.imp id Or.inl
  · change ((result.fileResult operation a b registered.index).memo .intersection).lookup pair =
      _ ∨ _
    rw [filed, Table.lookup_store]
    by_cases here : Operands.ordered a b = pair
    · rw [if_pos here]
      exact Or.inr (Or.inr ⟨children ▸ flat, rfl⟩)
    · rw [if_neg here]
      exact remembered.imp id Or.inl

/-- What was settled is remembered. -/
theorem lookup_settle_isSome (forest : Forest K n) (operation : Operation) (a b : Index)
    (content : Content K) :
    (((settle operation a b content forest).2.memo operation).lookup
      (operation.operands a b)).isSome := by
  classical
  rw [settle_apply]
  generalize (forest.intern content).1 = registered
  generalize (forest.intern content).2.tallyOperation operation _ = tallied
  have remembered : (((tallied.remember operation (operation.operands a b) registered.index).memo
      operation).lookup (operation.operands a b)).isSome := by
    rw [memo_remember, if_pos rfl, Table.lookup_store_self]
    rfl
  generalize tallied.remember operation (operation.operands a b) registered.index = result
    at remembered ⊢
  rcases result.memo_fileResult operation operation a b registered.index with
    same | ⟨-, -, -, filed⟩
  · rw [same]
    exact remembered
  · rw [filed, Table.lookup_store]
    split
    · rfl
    · exact remembered

theorem activities_settle (forest : Forest K n) (operation : Operation) (a b : Index)
    (content : Content K) :
    (settle operation a b content forest).2.activities = forest.activities := by
  rcases forest.exists_settle_eq operation a b content with
    ⟨unions, intersections, differences, inclusions, counters, settled⟩
  rw [settled]

theorem remembers_settle (forest : Forest K n) (operation : Operation) (a b : Index)
    (content : Content K) : forest.Remembers (settle operation a b content forest).2 := by
  refine ⟨(forest.activities_settle operation a b content).symm ▸ List.Subset.refl _, ?_⟩
  intro other pair found
  rcases forest.lookup_settle operation other a b content pair with
    same | ⟨-, -, result⟩ | ⟨-, result⟩
  · rw [same]
    exact found
  · exact Option.isSome_of_eq_some result
  · exact Option.isSome_of_eq_some result

theorem Change.memo_eq {admits : Content K → Prop} (change : Change admits forest later)
    (operation : Operation) : later.memo operation = forest.memo operation := by
  have interned : ∀ content, (forest.intern content).2.memo operation = forest.memo operation := by
    intro content
    rcases forest.exists_intern_eq content with ⟨counters, stored⟩
    rw [stored]
    cases operation <;> rfl
  cases change with
  | recorded counters activities => cases operation <;> rfl
  | stored content admitted => exact interned content
  | put index content element read admitted => exact interned _
  | part index content part read sublist =>
      rcases (forest.intern part).2.exists_fileInclusion_eq (forest.intern part).1.index index with
        ⟨inclusions, filed⟩
      rw [filed, ← interned part]
      cases operation <;> rfl
  | dropped index resident sets notEmpty evicted => cases operation <;> rfl

theorem Changes.memo_eq {admits : Content K → Prop} (changes : Changes admits forest later)
    (operation : Operation) : later.memo operation = forest.memo operation := by
  induction changes with
  | refl => rfl
  | tail _ change ih => exact (change.memo_eq operation).trans ih

/-- In sound forests a remembered result stays the same. -/
theorem Sound.lookup_of_remembers (soundLater : later.Sound laterBelow)
    (lawful : ∀ child, (laterBelow child).Lawful) (sound : forest.Sound below)
    (extension : forest.Extends later) (belowLe : ∀ child, (below child).Le (laterBelow child))
    (remembers : forest.Remembers later) {pair : Operands}
    (found : (forest.memo operation).lookup pair = some r) :
    (later.memo operation).lookup pair = some r := by
  rcases Option.isSome_iff_exists.mp
    (remembers.results operation pair (Option.isSome_of_eq_some found)) with ⟨r', foundLater⟩
  have answers := (extension.meaning_le belowLe).answers operation _ _ r
    (sound.remembered operation pair r found)
  have same : r = r' := soundLater.toWellStored.functional lawful answers
    (soundLater.remembered operation pair r' foundLater)
  rw [foundLater, same]

namespace Complete

variable {knowsBelow knowsLater : Fin n → Operation → Index → Index → Prop}

/-- A result that was remembered before stands on what it stood on. -/
theorem shown_later (complete : forest.Complete knowsBelow) (extension : forest.Extends later)
    (kept : ∀ pair result, forest.intersections.lookup pair = some result →
      later.intersections.lookup pair = some result) {operation : Operation} {a b r : Index}
    (found : (forest.memo operation).lookup (operation.operands a b) = some r) (different : a ≠ b)
    (notEmpty : r ≠ Index.empty) : later.Shows operation a b r :=
  (complete.shown operation a b r found different notEmpty).mono extension kept

theorem called_later (complete : forest.Complete knowsBelow) (sound : forest.Sound below)
    (lawful : ∀ child, (below child).Lawful) (stored : later.WellStored)
    (extension : forest.Extends later)
    (belowMono : ∀ child operation x y, knowsBelow child operation x y →
      knowsLater child operation x y) {left right : Content K}
    (found : (forest.memo operation).lookup (operation.operands a b) = some r) (different : a ≠ b)
    (denotesLeft : later.Denotes a left) (denotesRight : later.Denotes b right) :
    later.CallsKnown knowsLater operation left right := by
  have answers := (answers_operands_iff lawful).mp (sound.remembered operation _ r found)
  rcases (answers_iff_of_ne different).mp answers with ⟨left', right', -, denotesLeft',
    denotesRight', -, -⟩
  rcases stored.content_unique denotesLeft (extension.denotes a left' denotesLeft') with rfl
  rcases stored.content_unique denotesRight (extension.denotes b right' denotesRight') with rfl
  intro first inLeft second inRight sameKey number child atChild
  rw [extension.children] at atChild
  exact belowMono child operation _ _ (complete.called operation a b r left right found different
    denotesLeft' denotesRight' first inLeft second inRight sameKey number child atChild)

/-- A forest stays complete as long as it remembers nothing new. -/
theorem mono (complete : forest.Complete knowsBelow) (sound : forest.Sound below)
    (lawful : ∀ child, (below child).Lawful) (stored : later.WellStored)
    (extension : forest.Extends later)
    (memo : ∀ operation, later.memo operation = forest.memo operation)
    (belowMono : ∀ child operation x y, knowsBelow child operation x y →
      knowsLater child operation x y) : later.Complete knowsLater := by
  refine ⟨?_, ?_⟩
  · intro operation a b r found different notEmpty
    rw [memo] at found
    refine complete.shown_later extension ?_ found different notEmpty
    intro pair result known
    change (later.memo .intersection).lookup pair = some result
    rw [memo]
    exact known
  · intro operation a b r left right found different denotesLeft denotesRight
    rw [memo] at found
    exact complete.called_later sound lawful stored extension belowMono found different denotesLeft
      denotesRight

/-- A forest that settles an operation stays complete, if all calls were answered. -/
theorem settle (complete : forest.Complete knowsBelow) (sound : forest.Sound below)
    (lawful : ∀ child, (below child).Lawful)
    (symm : ∀ child operation x y, operation.isCommutative = true →
      knowsBelow child operation x y → knowsBelow child operation y x)
    (different : a ≠ b) {left right content : Content K} (denotesLeft : forest.Denotes a left)
    (denotesRight : forest.Denotes b right)
    (resolved : List.Forall₂ (Cell.Resolves fun child => (below child).Answers operation)
      (Content.align operation forest.children left right) content)
    (calls : forest.CallsKnown knowsBelow operation left right) :
    (Forest.settle operation a b content forest).2.Complete knowsBelow := by
  have advances := (sound.settle lawful different denotesLeft denotesRight resolved).1
  have shown : (Forest.settle operation a b content forest).2.Shows operation a b
      (Forest.settle operation a b content forest).1 := by
    rw [settle_apply]
    exact shows_fileResult _ operation a b _
  have lookups := fun other pair => forest.lookup_settle operation other a b content pair
  have remembers := forest.remembers_settle operation a b content
  generalize Forest.settle operation a b content forest = settled
    at advances shown lookups remembers
  have extension := advances.extension
  refine ⟨?_, ?_⟩
  · intro other c d r found distinct notEmpty
    rcases lookups other (other.operands c d) with same | ⟨rfl, pair, result⟩ | ⟨-, result⟩
    · rw [same] at found
      refine complete.shown_later extension ?_ found distinct notEmpty
      intro pair result known
      have inMemo : (forest.memo .intersection).lookup pair = some result := known
      exact advances.sound.lookup_of_remembers lawful sound extension
        (fun child => Meaning.Le.refl (below child)) remembers inMemo
    · obtain rfl : settled.1 = r := Option.some.inj (result.symm.trans found)
      rcases operands_eq_iff pair with ⟨rfl, rfl⟩ | ⟨commutative, rfl, rfl⟩
      · exact shown
      · exact shown.symm commutative
    · exact absurd (Option.some.inj (found.symm.trans result)) notEmpty
  · intro other c d r left' right' found distinct denotesLeft' denotesRight'
    rcases lookups other (other.operands c d) with same | ⟨rfl, pair, -⟩ | ⟨flat, -⟩
    · rw [same] at found
      exact complete.called_later sound lawful advances.sound.toWellStored extension
        (fun _ _ _ _ => id) found distinct denotesLeft' denotesRight'
    · have stored := advances.sound.toWellStored
      have laterLeft := extension.denotes a left denotesLeft
      have laterRight := extension.denotes b right denotesRight
      rw [CallsKnown, extension.children]
      rcases operands_eq_iff pair with ⟨rfl, rfl⟩ | ⟨commutative, rfl, rfl⟩
      · rcases stored.content_unique denotesLeft' laterLeft with rfl
        rcases stored.content_unique denotesRight' laterRight with rfl
        exact calls
      · rcases stored.content_unique denotesLeft' laterRight with rfl
        rcases stored.content_unique denotesRight' laterLeft with rfl
        intro first inRight second inLeft sameKey number child atChild
        exact symm child other _ _ commutative
          (calls second inLeft first inRight sameKey.symm number child atChild)
    · intro first _ second _ _ number child atChild
      rw [extension.children, flat] at atChild
      cases atChild

end Complete

/-- Computing a result again brings its content back and changes nothing else. -/
theorem Complete.settle_again {knowsBelow : Fin n → Operation → Index → Index → Prop}
    (complete : forest.Complete knowsBelow) (canonical : forest.sets.Canonical)
    (found : (forest.memo operation).lookup (operation.operands a b) = some r) (different : a ≠ b)
    (notEmpty : r ≠ Index.empty) {content : Content K} (denotes : forest.Denotes r content) :
    ∃ counters, Forest.settle operation a b content forest =
      (r, { forest with sets := (forest.sets.intern content).2, counters }) := by
  have shown := complete.shown operation a b r found different notEmpty
  have index : (forest.intern content).1.index = r :=
    (forest.index_intern content).trans (canonical.intern_known denotes).1
  rcases forest.exists_intern_eq content with ⟨counted, stored⟩
  rw [settle_apply, index, stored]
  let tallied : Forest K n := tallyOperation
    { forest with sets := (forest.sets.intern content).2, counters := counted } operation
    (.ofMiss (forest.intern content).1.cold)
  refine ⟨tallied.counters, ?_⟩
  have remembered : tallied.remember operation (operation.operands a b) r = tallied := by
    refine remember_eq_self (Eq.trans ?_ found)
    cases operation <;> rfl
  have filed : tallied.fileResult operation a b r = tallied := by
    refine Shows.fileResult_eq ?_
    cases operation <;> exact shown
  change (r, (tallied.remember operation (operation.operands a b) r).fileResult operation a b r) = _
  rw [remembered, filed]
  rfl

end Forest

end SetForest
