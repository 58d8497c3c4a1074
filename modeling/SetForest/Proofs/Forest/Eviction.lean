import SetForest.Proofs.Forest.Complete
import SetForest.Proofs.Forest.Similar

namespace SetForest

/-!
# Remembered results that were evicted

A forest that remembers a result answers with it if its content is resident.  If not,
it reads the operands and asks the forests below, as if the result were unknown.  The
one thing that can go wrong is that an operand has been evicted as well.

A forest that has computed a result again is still similar to one that had it all
along (`Forest.Similar.settle_again`).
-/

namespace Arena

variable {E : Type} [Key E] {arena : Arena E} {index : Index} {content : List E}

/-- What can be read was not dropped. -/
theorem isEvicted_of_get (read : arena.get index = .ok content) :
    arena.isEvicted index = .ok false := by
  rw [get_eq_ok_iff] at read
  rw [isEvicted_eq, read]
  rfl

end Arena

namespace Forest

variable {K : Type} [Key K] {n : Nat} {forest later : Forest K n} {below : Fin n → Meaning}
  {operation : Operation} {a b r : Index}

/-- An inexact resemblance does not depend on the counters. -/
theorem Similar.counted {sim : Resemblance (Element K)} {x y later later' : Forest K n}
    (similar : Similar sim x y) (inexact : ¬sim.exact) (left : x.Counted later)
    (right : y.Counted later') : Similar sim later later' := by
  rcases left with ⟨counters, rfl⟩
  rcases right with ⟨counters', rfl⟩
  exact similar.count fun isExact => absurd isExact inexact

theorem Similar.consult {sim : Resemblance (Element K)} {x y : Forest K n}
    (similar : Similar sim x y) (inexact : ¬sim.exact) (operation : Operation) (a b : Index) :
    Similar sim (Forest.consult operation a b x).2 (Forest.consult operation a b y).2 :=
  (similar.note (.operation operation)).counted inexact (x.exists_consult_eq_note operation a b)
    (y.exists_consult_eq_note operation a b)

/-- Where an operation is on record, consulting at most counts. -/
theorem counted_consult (noted : forest.HasNoted (.operation operation)) (a b : Index) :
    forest.Counted (Forest.consult operation a b forest).2 := by
  have consulted := forest.exists_consult_eq_note operation a b
  rw [noted.note_eq] at consulted
  exact consulted

/-! ## Consultations -/

open SetForest.Action

/-- Operands in range that have a shortcut are answered with it. -/
theorem consult_of_shortcut {outcome : Outcome} (leftInUse : a < forest.size)
    (rightInUse : b < forest.size) (found : forest.shortcut operation a b = some (r, outcome)) :
    (consult operation a b forest).1 = .ok (.known r) := by
  simp only [consult, bind_apply, modify_apply, get_apply, liftExcept_apply]
  rcases forest.exists_note_eq (.operation operation) with ⟨activities, noted⟩
  rw [noted]
  have same : shortcut { forest with activities } operation a b = some (r, outcome) := found
  rw [checkIndex_of_lt (show a < size { forest with activities } from leftInUse),
    checkIndex_of_lt (show b < size { forest with activities } from rightInUse)]
  dsimp only
  rw [same]
  rfl

/-- Without a shortcut it depends on what was remembered, and whether that is of use. -/
theorem consult_of_usable? {usable : Option Index} (leftInUse : a < forest.size)
    (rightInUse : b < forest.size) (noShortcut : forest.shortcut operation a b = none)
    (told : forest.usable? ((forest.memo operation).lookup (operation.operands a b)) = .ok usable) :
    (consult operation a b forest).1 =
      match usable with
      | some result => .ok (.known result)
      | none =>
        match forest.sets.get a, forest.sets.get b with
        | .ok left, .ok right =>
          .ok (.unknown (Content.align operation forest.children left right))
        | .error error, _ => .error error
        | .ok _, .error error => .error error := by
  simp only [consult, bind_apply, modify_apply, get_apply, liftExcept_apply]
  rcases forest.exists_note_eq (.operation operation) with ⟨activities, noted⟩
  have memo : memo { forest with activities } operation = forest.memo operation := by
    cases operation <;> rfl
  have same : shortcut { forest with activities } operation a b = none := noShortcut
  rw [noted, checkIndex_of_lt (show a < size { forest with activities } from leftInUse),
    checkIndex_of_lt (show b < size { forest with activities } from rightInUse)]
  dsimp only
  rw [same]
  simp only [bind_apply, liftExcept_apply]
  rw [memo, show usable? { forest with activities } _ = .ok usable from told]
  cases usable with
  | some result => rfl
  | none =>
      simp only [bind_apply, liftExcept_apply]
      cases forest.sets.get a with
      | error error => rfl
      | ok left =>
          dsimp only
          cases forest.sets.get b <;> rfl

namespace Sound

variable (sound : forest.Sound below) (lawful : ∀ child, (below child).Lawful)

include sound lawful

/-- What was remembered is right, and its operands are in use. -/
theorem determines_of_remembered
    (found : (forest.memo operation).lookup (operation.operands a b) = some r) (different : a ≠ b) :
    (forest.meaning below).Determines operation a b r := by
  have answers := (answers_operands_iff lawful).mp (sound.remembered operation _ r found)
  rcases (answers_iff_of_ne different).mp answers with
    ⟨left, right, -, denotesLeft, denotesRight, -, -⟩
  exact ⟨answers, ⟨left, denotesLeft⟩, ⟨right, denotesRight⟩⟩

/-- A forest that remembers a result answers with it, refuses because of an evicted
operand, or merges the operands because the result is evicted. -/
theorem consult_of_remembered
    (found : (forest.memo operation).lookup (operation.operands a b) = some r)
    (noShortcut : forest.shortcut operation a b = none) :
    (Forest.consult operation a b forest).1 = .ok (.known r) ∨
      (∃ index, (Forest.consult operation a b forest).1 = .error (.evicted index)) ∨
      forest.sets.isEvicted r = .ok true ∧ ∃ left right, forest.sets.get a = .ok left ∧
        forest.sets.get b = .ok right ∧ (Forest.consult operation a b forest).1 =
          .ok (.unknown (Content.align operation forest.children left right)) := by
  rcases sound.determines_of_remembered lawful found (ne_of_shortcut_eq_none noShortcut) with
    ⟨answers, ⟨left, denotesLeft⟩, ⟨right, denotesRight⟩⟩
  have leftInUse : a < forest.size := sound.canonical.lt_size denotesLeft
  have rightInUse : b < forest.size := sound.canonical.lt_size denotesRight
  have told : ∀ dropped, forest.sets.isEvicted r = .ok dropped →
      forest.usable? ((forest.memo operation).lookup (operation.operands a b)) =
        .ok (if dropped then none else some r) := by
    intro dropped evicted
    rw [found, usable?, evicted]
    cases dropped <;> rfl
  rcases (answers_iff_of_ne (ne_of_shortcut_eq_none noShortcut)).mp answers with
    ⟨-, -, content, -, -, denotes, -⟩
  rcases sound.canonical.exists_isEvicted denotes with ⟨dropped, evicted⟩
  have outcome := consult_of_usable? leftInUse rightInUse noShortcut (told dropped evicted)
  cases dropped with
  | false => exact Or.inl outcome
  | true =>
      refine Or.inr ?_
      rcases sound.canonical.get_of_denotes denotesLeft with leftRead | leftDropped
      · rcases sound.canonical.get_of_denotes denotesRight with rightRead | rightDropped
        · rw [leftRead, rightRead] at outcome
          exact Or.inr ⟨evicted, left, right, leftRead, rightRead, outcome⟩
        · rw [leftRead, rightDropped] at outcome
          exact Or.inl ⟨b, outcome⟩
      · rw [leftDropped] at outcome
        exact Or.inl ⟨a, outcome⟩

/-- An intact forest answers with what it remembers. -/
theorem consult_of_intact (intact : forest.sets.Intact)
    (found : (forest.memo operation).lookup (operation.operands a b) = some r)
    (noShortcut : forest.shortcut operation a b = none) :
    (Forest.consult operation a b forest).1 = .ok (.known r) := by
  have different := ne_of_shortcut_eq_none noShortcut
  rcases sound.determines_of_remembered lawful found different with
    ⟨answers, ⟨left, denotesLeft⟩, ⟨right, denotesRight⟩⟩
  rcases (answers_iff_of_ne different).mp answers with ⟨-, -, content, -, -, denotes, -⟩
  have resident := Arena.isEvicted_of_get (intact r content denotes)
  have leftInUse : a < forest.size := sound.canonical.lt_size denotesLeft
  have rightInUse : b < forest.size := sound.canonical.lt_size denotesRight
  have told : forest.usable? ((forest.memo operation).lookup (operation.operands a b)) =
      .ok (some r) := by
    rw [found, usable?, resident]
    rfl
  exact consult_of_usable? leftInUse rightInUse noShortcut told

/-- An intact forest answers whatever its tables settle. -/
theorem exists_known (intact : forest.sets.Intact) (knows : forest.Knows operation a b) :
    ∃ r, (Forest.consult operation a b forest).1 = .ok (.known r) := by
  rcases knows with ⟨⟨left, denotesLeft⟩, ⟨right, denotesRight⟩, -, settled⟩
  cases found : forest.shortcut operation a b with
  | some answer =>
      exact ⟨answer.1, consult_of_shortcut (sound.canonical.lt_size denotesLeft)
        (sound.canonical.lt_size denotesRight) found⟩
  | none =>
      have remembered := settled.resolve_left (by rw [found]; exact nofun)
      rcases Option.isSome_iff_exists.mp remembered with ⟨r, inMemo⟩
      exact ⟨r, sound.consult_of_intact lawful intact inMemo found⟩

end Sound

/-! ## Two forests -/

variable {x y : Forest K n}

/-- One forest may store a content that it knows, and the other may leave it at that. -/
theorem Similar.intern_left (similar : Similar (.upToEviction (Element K)) x y)
    {content : Content K} (denotes : x.Denotes r content) :
    Similar (.upToEviction (Element K)) { x with sets := (x.sets.intern content).2 } y :=
  { similar with sets := ⟨similar.sets.1.intern_left denotes, similar.sets.2⟩ }

/-- One forest may evict a set, and the other may keep it. -/
theorem Similar.evict_left (similar : Similar (.upToEviction (Element K)) x y) (index : Index) :
    Similar (.upToEviction (Element K)) (evict index x).2 y := by
  simp only [evict, bind_apply, get_apply, liftExcept_apply]
  cases x.checkIndex index with
  | error error => exact similar
  | ok _ =>
      by_cases isEmpty : index = Index.empty
      · rw [if_pos isEmpty]
        exact similar
      · rw [if_neg isEmpty]
        cases evicted : x.sets.evict index with
        | error error => exact similar
        | ok marked =>
            rcases marked with ⟨resident, sets⟩
            have dropped : Similar (.upToEviction (Element K)) { x with sets } y :=
              { similar with sets := ⟨similar.sets.1.evict_left evicted, similar.sets.2⟩ }
            cases resident with
            | false => exact dropped
            | true => exact dropped.counted id ⟨_, rfl⟩ (.refl y)

/-- A forest that computes an evicted result again stays similar to an intact one. -/
theorem Similar.settle_again (similar : Similar (.upToEviction (Element K)) x y)
    (sound : x.Sound below) {knowsBelow : Fin n → Operation → Index → Index → Prop}
    (complete : x.Complete knowsBelow)
    (found : (x.memo operation).lookup (operation.operands a b) = some r) (different : a ≠ b)
    (notEmpty : r ≠ Index.empty) {content : Content K} (denotes : x.Denotes r content) :
    (Forest.settle operation a b content x).1 = r ∧
      Similar (.upToEviction (Element K)) (Forest.settle operation a b content x).2 y := by
  rcases complete.settle_again sound.canonical found different notEmpty denotes with
    ⟨counters, settled⟩
  rw [settled]
  exact ⟨rfl, (similar.intern_left denotes).counted id ⟨counters, rfl⟩ (.refl y)⟩

end Forest

end SetForest
