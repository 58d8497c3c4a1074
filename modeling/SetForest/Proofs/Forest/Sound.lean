import SetForest.Proofs.Content.Update
import SetForest.Proofs.Forest.Consult
import SetForest.Proofs.Forest.Meaning

namespace SetForest

/-!
# The tables of a forest agree with its sets

A forest is sound if every remembered result answers its operation and every
filed inclusion holds, in the meaning that the stored sets give to the indices.
Eviction does not weaken this, since an index keeps its meaning without its
content.

Each kind of write keeps a forest sound as long as what is written is true
(`Sound.intern`, `Sound.remember`, `Sound.fileInclusion`, `Sound.drop`).  All
that a forest does by itself, and the second half of a lattice operation, follow
by composing them.  Besides, nothing is ever unsaid: what was filed stays filed,
because two different inclusions cannot both be true of two different sets.
-/

/-- An inclusion holds between two indices, read from left to right. -/
def Meaning.Relates (meaning : Meaning) : Inclusion → Index → Index → Prop
  | .subset, a, b => meaning.Within a b
  | .superset, a, b => meaning.Within b a

theorem Meaning.Le.relates {meaning later : Meaning} (le : meaning.Le later) {relation : Inclusion}
    {a b : Index}
    (relates : meaning.Relates relation a b) : later.Relates relation a b := by
  cases relation with
  | subset => exact le.within a b relates
  | superset => exact le.within b a relates

namespace Forest

variable {K : Type} [Key K] {n : Nat}

/-- What is remembered and filed is true. -/
structure Sound (below : Fin n → Meaning) (forest : Forest K n) : Prop
    extends forest.WellStored where
  remembered : ∀ operation pair r, (forest.memo operation).lookup pair = some r →
    forest.Answers below operation pair.left pair.right r
  filed : ∀ a b relation, forest.filedInclusion a b = some relation →
    (forest.meaning below).Relates relation a b

/-- A forest went on to a later state, in which it is sound. -/
structure Advances (below : Fin n → Meaning) (forest later : Forest K n) : Prop where
  sound : later.Sound below
  extension : forest.Extends later

/-- What may be stored in a forest: a set of elements of the right arity. -/
def Admits (forest : Forest K n) (content : Content K) : Prop :=
  content.Increasing ∧ content.HasArity forest.children.length

variable {forest later : Forest K n} {below laterBelow : Fin n → Meaning} {operation : Operation}
  {a b r : Index}

theorem admits_single {element : Element K}
    (arity : element.children.length = forest.children.length) : forest.Admits [element] := by
  refine ⟨Content.increasing_singleton element, ?_⟩
  intro other member
  rw [List.mem_singleton.mp member]
  exact arity

theorem Advances.trans {last : Forest K n} (first : forest.Advances below later)
    (second : later.Advances below last) : forest.Advances below last :=
  ⟨second.sound, first.extension.trans second.extension⟩

/-- What holds of the indices of a forest holds later, whatever is below. -/
theorem Extends.meaning_le_self (extension : forest.Extends later) :
    (forest.meaning below).Le (later.meaning below) :=
  extension.meaning_le (fun child => Meaning.Le.refl (below child))

theorem Extends.answers (extension : forest.Extends later)
    (answers : forest.Answers below operation a b r) : later.Answers below operation a b r :=
  extension.meaning_le_self.answers operation a b r answers

theorem Extends.within (extension : forest.Extends later) (within : forest.Within below a b) :
    later.Within below a b :=
  extension.meaning_le_self.within a b within

namespace Sound

/-- A forest stays sound when the forests below it go on. -/
theorem mono (sound : forest.Sound below) (belowLe : ∀ child, (below child).Le (laterBelow child)) :
    forest.Sound laterBelow := by
  have le := (Extends.refl forest).meaning_le belowLe
  refine ⟨sound.toWellStored, ?_, ?_⟩
  · intro operation pair r found
    exact le.answers _ _ _ _ (sound.remembered operation pair r found)
  · intro a b relation found
    exact Meaning.Le.relates le (sound.filed a b relation found)

/-- As long as the tables are the same, only the storage has to be in order. -/
theorem advances_of_tables (sound : forest.Sound below) (stored : later.WellStored)
    (config : later.config = forest.config) (children : later.children = forest.children)
    (denotes : ∀ index content, forest.Denotes index content → later.Denotes index content)
    (memo : ∀ operation, later.memo operation = forest.memo operation)
    (inclusions : later.inclusions = forest.inclusions) : forest.Advances below later := by
  have filed : ∀ a b, later.filedInclusion a b = forest.filedInclusion a b := by
    intro a b
    rw [filedInclusion, filedInclusion, inclusions]
  have extension : forest.Extends later := by
    refine ⟨config, children, denotes, ?_⟩
    intro a b relation found
    rw [filed]
    exact found
  refine ⟨⟨stored, ?_, ?_⟩, extension⟩
  · intro operation pair r found
    rw [memo] at found
    exact extension.answers (sound.remembered operation pair r found)
  · intro a b relation found
    rw [filed] at found
    exact Meaning.Le.relates extension.meaning_le_self (sound.filed a b relation found)

/-! ## Writing -/

/-- Records say nothing about sets. -/
theorem record (sound : forest.Sound below) (counters : Counters) (activities : List Activity) :
    forest.Advances below { forest with counters, activities } :=
  sound.advances_of_tables
    ⟨sound.canonical, sound.empty, sound.increasing, sound.arity⟩ rfl rfl
    (fun _ _ denotes => denotes) (fun operation => by cases operation <;> rfl) rfl

/-- A set of the forest may be stored. -/
theorem intern (sound : forest.Sound below) {content : Content K}
    (admitted : forest.Admits content) : forest.Advances below (forest.intern content).2 := by
  rcases forest.exists_intern_eq content with ⟨counters, stored⟩
  have denotes : ∀ index other, forest.Denotes index other →
      (forest.sets.intern content).2.Denotes index other :=
    fun index other denotes => sound.canonical.denotes_intern_of_denotes denotes content
  rw [stored]
  refine sound.advances_of_tables ⟨sound.canonical.intern content, denotes _ _ sound.empty, ?_, ?_⟩
    rfl rfl denotes (fun operation => by cases operation <;> rfl) rfl
  · intro index other denotesOther
    rcases sound.canonical.denotes_of_denotes_intern denotesOther with rfl | before
    · exact admitted.1
    · exact sound.increasing index other before
  · intro index other denotesOther
    rcases sound.canonical.denotes_of_denotes_intern denotesOther with rfl | before
    · exact admitted.2
    · exact sound.arity index other before

theorem denotes_intern (sound : forest.Sound below) (content : Content K) :
    (forest.intern content).2.Denotes (forest.intern content).1.index content := by
  rw [Denotes, sets_intern, index_intern]
  exact sound.canonical.denotes_interned content

/-- Dropping a content leaves the meaning of its index. -/
theorem drop (sound : forest.Sound below) {index : Index} {resident : Bool}
    {sets : Arena (Element K)} (evicted : forest.sets.evict index = .ok (resident, sets)) :
    forest.Advances below { forest with sets } := by
  have denotes := sound.canonical.denotes_evict_iff evicted
  refine sound.advances_of_tables ⟨(sound.canonical.evict evicted).1,
    (denotes _ _).mpr sound.empty, ?_, ?_⟩ rfl rfl (fun place other => (denotes place other).mpr)
    (fun operation => by cases operation <;> rfl) rfl
  · intro place other after
    exact sound.increasing place other ((denotes place other).mp after)
  · intro place other after
    exact sound.arity place other ((denotes place other).mp after)

/-- A result may be remembered if it answers the operation. -/
theorem remember (sound : forest.Sound below) {pair : Operands}
    (answers : forest.Answers below operation pair.left pair.right r) :
    forest.Advances below (forest.remember operation pair r) := by
  have memo := forest.memo_remember operation
  rcases forest.exists_remember_eq operation pair r with
    ⟨unions, intersections, differences, remembered⟩
  have found : ∀ other pair' r', ((forest.remember operation pair r).memo other).lookup pair' =
      some r' → forest.Answers below other pair'.left pair'.right r' := by
    intro other pair' r' here
    rw [memo other pair r] at here
    by_cases same : other = operation
    · subst other
      rw [if_pos rfl, Table.lookup_store] at here
      by_cases samePair : pair = pair'
      · subst pair'
        rw [if_pos rfl] at here
        rcases Option.some.inj here with rfl
        exact answers
      · rw [if_neg samePair] at here
        exact sound.remembered operation pair' r' here
    · rw [if_neg same] at here
      exact sound.remembered other pair' r' here
  rw [remembered] at found ⊢
  exact ⟨⟨⟨sound.canonical, sound.empty, sound.increasing, sound.arity⟩, found, sound.filed⟩,
    rfl, rfl, fun _ _ denotes => denotes, fun _ _ _ filed => filed⟩

/-- An inclusion may be filed if it holds.  It cannot displace another one. -/
theorem fileInclusion (sound : forest.Sound below) (lawful : ∀ child, (below child).Lawful)
    {sub sup : Index} (within : forest.Within below sub sup) :
    forest.Advances below (forest.fileInclusion sub sup) := by
  by_cases trivially : sub = sup ∨ sub = Index.empty
  · rw [Forest.fileInclusion, if_pos trivially]
    exact ⟨sound, Extends.refl forest⟩
  · rcases not_or.mp trivially with ⟨different, notEmpty⟩
    have filed := forest.filedInclusion_fileInclusion different notEmpty
    rcases forest.exists_fileInclusion_eq sub sup with ⟨inclusions, changed⟩
    have onlyOne : ¬forest.Within below sup sub := by
      intro back
      exact different (sound.toWellStored.antisymm lawful within back)
    have relates : ∀ a b relation,
        (forest.fileInclusion sub sup).filedInclusion a b = some relation →
          (forest.meaning below).Relates relation a b := by
      intro a b relation found
      rw [filed] at found
      by_cases along : a = sub ∧ b = sup
      · rw [if_pos along] at found
        rcases Option.some.inj found with rfl
        rw [along.1, along.2]
        exact within
      · rw [if_neg along] at found
        by_cases against : a = sup ∧ b = sub
        · rw [if_pos against] at found
          rcases Option.some.inj found with rfl
          rw [against.1, against.2]
          exact within
        · rw [if_neg against] at found
          exact sound.filed a b relation found
    have kept : ∀ a b relation, forest.filedInclusion a b = some relation →
        (forest.fileInclusion sub sup).filedInclusion a b = some relation := by
      intro a b relation before
      have holds := sound.filed a b relation before
      rw [filed]
      by_cases along : a = sub ∧ b = sup
      · rcases along with ⟨rfl, rfl⟩
        rw [if_pos ⟨rfl, rfl⟩]
        cases relation with
        | subset => rfl
        | superset => exact absurd holds onlyOne
      · rw [if_neg along]
        by_cases against : a = sup ∧ b = sub
        · rcases against with ⟨rfl, rfl⟩
          rw [if_pos ⟨rfl, rfl⟩]
          cases relation with
          | subset => exact absurd holds onlyOne
          | superset => rfl
        · rw [if_neg against]
          exact before
    rw [changed] at relates kept ⊢
    exact ⟨⟨⟨sound.canonical, sound.empty, sound.increasing, sound.arity⟩, sound.remembered,
      relates⟩, rfl, rfl, fun _ _ denotes => denotes, kept⟩

/-! ## What a forest does by itself -/

/-- Every change of a forest by itself keeps it sound. -/
theorem change (sound : forest.Sound below) (lawful : ∀ child, (below child).Lawful)
    {admits : Content K → Prop} (admitted : ∀ content, admits content → forest.Admits content)
    (change : Change admits forest later) : forest.Advances below later := by
  cases change with
  | recorded counters activities => exact sound.record counters activities
  | stored content allowed => exact sound.intern (admitted content allowed)
  | put index content element read allowed =>
      have denotes := sound.denotes_of_content read
      have increasing := sound.increasing index content denotes
      refine sound.intern ⟨Content.increasing_put increasing element, ?_⟩
      intro other member
      rcases (Content.mem_put_iff increasing).mp member with rfl | ⟨before, -⟩
      · exact (admitted [other] allowed).2 other List.mem_cons_self
      · exact sound.arity index content denotes other before
  | part index content part read sublist =>
      have denotes := sound.denotes_of_content read
      have admittedPart : forest.Admits part :=
        ⟨Content.increasing_sublist sublist (sound.increasing index content denotes),
          fun element member => sound.arity index content denotes element (sublist.subset member)⟩
      have stored := sound.intern admittedPart
      refine stored.trans (stored.sound.fileInclusion lawful ?_)
      exact stored.sound.toWellStored.within_of_sublist lawful sublist
        (sound.denotes_intern part) (stored.extension.denotes index content denotes)
  | dropped index resident sets notEmpty evicted => exact sound.drop evicted

theorem changes (sound : forest.Sound below) (lawful : ∀ child, (below child).Lawful)
    {admits : Content K → Prop} (admitted : ∀ content, admits content → forest.Admits content)
    (changes : Changes admits forest later) : forest.Advances below later := by
  induction changes with
  | refl => exact ⟨sound, Extends.refl forest⟩
  | tail _ change ih =>
      refine ih.trans (ih.sound.change lawful ?_ change)
      intro content allowed
      rw [Admits, ih.extension.children]
      exact admitted content allowed

end Sound

end Forest

end SetForest
