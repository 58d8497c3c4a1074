import SetForest.Forest.Combine

namespace SetForest

/-!
# Reading back what a forest has written

A forest writes to its storage, to its tables of results and to its table of
inclusions.  Each write is described by what every later reading gives, and all
other parts of the forest are as before.

The inclusions need some care, because they are filed under pairs in index order
and read from either side.  `filedInclusion_fileInclusion` is free of that order:
the two readings of the pair show the new inclusion, and no other reading is
affected.
-/

/-- To store what is there changes nothing. -/
theorem Table.store_eq_self {κ β : Type} [Key κ] {table : Table κ β} {key : κ} {value : β}
    (found : table.lookup key = some value) : table.store key value = table := by
  classical
  refine Table.ext fun other => ?_
  rw [Table.lookup_store]
  by_cases here : key = other
  · rw [if_pos here, ← here, found]
  · rw [if_neg here]

namespace Forest

variable {K : Type} [Key K] {n : Nat}

/-! ## Storage -/

/-- Interning affects the storage, and the counters if a slot has come back. -/
theorem intern_eq (forest : Forest K n) (content : Content K) :
    forest.intern content =
      (⟨(forest.sets.intern content).1.1, decide ((forest.sets.intern content).1.2 = .cold)⟩,
        { forest with
          sets := (forest.sets.intern content).2
          counters := if (forest.sets.intern content).1.2 = .restored then
            { forest.counters with restorations := forest.counters.restorations + 1 }
            else forest.counters }) := by
  rw [intern]
  rcases forest.sets.intern content with ⟨⟨index, interning⟩, sets⟩
  cases interning <;> rfl

theorem exists_intern_eq (forest : Forest K n) (content : Content K) :
    ∃ counters, (forest.intern content).2 =
      { forest with sets := (forest.sets.intern content).2, counters } :=
  ⟨_, congrArg Prod.snd (forest.intern_eq content)⟩

theorem index_intern (forest : Forest K n) (content : Content K) :
    (forest.intern content).1.index = (forest.sets.intern content).1.1 := by
  rw [intern_eq]

theorem sets_intern (forest : Forest K n) (content : Content K) :
    (forest.intern content).2.sets = (forest.sets.intern content).2 := by
  rw [intern_eq]

/-! ## Results -/

theorem memo_remember (forest : Forest K n) (operation other : Operation) (pair : Operands)
    (result : Index) :
    (forest.remember operation pair result).memo other =
      if other = operation then (forest.memo operation).store pair result
      else forest.memo other := by
  cases operation <;> cases other <;> rfl

theorem exists_remember_eq (forest : Forest K n) (operation : Operation) (pair : Operands)
    (result : Index) :
    ∃ unions intersections differences, forest.remember operation pair result =
      { forest with unions, intersections, differences } := by
  cases operation <;> exact ⟨_, _, _, rfl⟩

/-- To remember a result once more changes nothing. -/
theorem remember_eq_self {forest : Forest K n} {operation : Operation} {pair : Operands}
    {result : Index} (found : (forest.memo operation).lookup pair = some result) :
    forest.remember operation pair result = forest := by
  have kept := Table.store_eq_self found
  cases operation with
  | union => exact congrArg (fun unions => { forest with unions }) kept
  | intersection => exact congrArg (fun intersections => { forest with intersections }) kept
  | difference => exact congrArg (fun differences => { forest with differences }) kept

/-! ## Inclusions -/

theorem exists_fileInclusion_eq (forest : Forest K n) (sub sup : Index) :
    ∃ inclusions, forest.fileInclusion sub sup = { forest with inclusions } := by
  rw [fileInclusion]
  split
  · exact ⟨forest.inclusions, rfl⟩
  · exact ⟨_, rfl⟩

/-- Reading a pair from the other side flips the answer. -/
theorem filedInclusion_comm (forest : Forest K n) {a b : Index} (different : a ≠ b) :
    forest.filedInclusion b a = (forest.filedInclusion a b).map Inclusion.flip := by
  rw [filedInclusion, filedInclusion, Operands.ordered_comm b a]
  rcases Nat.lt_or_gt_of_ne different with less | greater
  · rw [if_neg (Nat.not_le_of_lt less), if_pos (Nat.le_of_lt less)]
  · rw [if_pos (Nat.le_of_lt greater), if_neg (Nat.not_le_of_lt greater), Option.map_map]
    cases forest.inclusions.lookup (.ordered a b) with
    | none => rfl
    | some relation => exact congrArg some relation.flip_flip.symm

/-- Two pairs are filed in one place if they are the same pair in some order. -/
theorem ordered_eq_iff (a b c d : Index) :
    Operands.ordered a b = Operands.ordered c d ↔ (a = c ∧ b = d) ∨ (a = d ∧ b = c) := by
  have left : ∀ x y : Index, Operands.ordered x y = if x ≤ y then ⟨x, y⟩ else ⟨y, x⟩ :=
    fun _ _ => rfl
  rw [left a b, left c d]
  split <;> split <;> simp only [Operands.mk.injEq] <;> grind

/-- After an inclusion was filed, the two readings of its pair show it, and all
others are as before. -/
theorem filedInclusion_fileInclusion (forest : Forest K n) {sub sup : Index}
    (different : sub ≠ sup) (notEmpty : sub ≠ Index.empty) (a b : Index) :
    (forest.fileInclusion sub sup).filedInclusion a b =
      if a = sub ∧ b = sup then some .subset
      else if a = sup ∧ b = sub then some .superset
      else forest.filedInclusion a b := by
  have filed : (forest.fileInclusion sub sup).inclusions = forest.inclusions.store
      (.ordered sub sup) (if sub < sup then Inclusion.subset else Inclusion.superset) := by
    rw [fileInclusion, if_neg (not_or_intro different notEmpty)]
  rw [filedInclusion, filed]
  by_cases along : a = sub ∧ b = sup
  · rcases along with ⟨rfl, rfl⟩
    refine Eq.trans ?_ (if_pos ⟨rfl, rfl⟩).symm
    rw [Table.lookup_store_self]
    rcases Nat.lt_or_gt_of_ne different with less | greater
    · rw [if_pos (Nat.le_of_lt less), if_pos less]
    · rw [if_neg (Nat.not_le_of_lt greater), if_neg (Nat.not_lt_of_gt greater)]
      rfl
  · refine Eq.trans ?_ (if_neg along).symm
    by_cases against : a = sup ∧ b = sub
    · rcases against with ⟨rfl, rfl⟩
      refine Eq.trans ?_ (if_pos ⟨rfl, rfl⟩).symm
      rw [Operands.ordered_comm, Table.lookup_store_self]
      rcases Nat.lt_or_gt_of_ne different with less | greater
      · rw [if_neg (Nat.not_le_of_lt less), if_pos less]
        rfl
      · rw [if_pos (Nat.le_of_lt greater), if_neg (Nat.not_lt_of_gt greater)]
    · have elsewhere : Operands.ordered sub sup ≠ Operands.ordered a b := by
        intro same
        rcases (ordered_eq_iff _ _ _ _).mp same with ⟨rfl, rfl⟩ | ⟨rfl, rfl⟩
        · exact along ⟨rfl, rfl⟩
        · exact against ⟨rfl, rfl⟩
      rw [if_neg against, Table.lookup_store_of_ne _ _ elsewhere]
      rfl

end Forest

end SetForest
