import SetForest.Proofs.Forest.Caches
import SetForest.Proofs.Forest.Dependable

namespace SetForest.Forest

/-!
# What a filtering answers

An answer is at hand if the set is empty or if its cached result is resident
(`Forest.AtHand`).  Otherwise the set is read and sifted.  Whether the answer is the right
one depends on the cache alone: a cached result is answered as it is, for whichever
predicate and in whichever forest it was stored (`filter_cached`).

If the cache holds right results, then all answers are right, and a filtering is refused
only if nothing is at hand and the set cannot be read.  This needs a storage that is in
order, but no order of the elements and no arity.
-/

variable {K : Type} [Key K] {n : Nat} {forest later : Forest K n}
  {predicate : Element K → Bool} {cache : FilterCache} {index r : Index} {filtered : Filtered}

/-- Nothing has to be sifted: the set is empty, or its cached result is resident. -/
def AtHand (forest : Forest K n) (cache : FilterCache) (index : Index) : Prop :=
  index = Index.empty ∨ ∃ r, cache.lookup index = some r ∧ forest.isEvicted r = .ok false

/-- What the forest can tell of an index, it has from the storage. -/
theorem isEvicted_sets {dropped : Bool} (told : forest.isEvicted index = .ok dropped) :
    forest.sets.isEvicted index = .ok dropped := by
  rw [isEvicted] at told
  cases checked : forest.checkIndex index with
  | error error =>
      rw [checked] at told
      cases told
  | ok _ =>
      rw [checked] at told
      exact told

/-- A cached result that is resident can be used, and no other. -/
theorem usable?_eq_some_iff (canonical : forest.sets.Canonical) :
    forest.usable? (cache.lookup index) = .ok (some r) ↔
      cache.lookup index = some r ∧ forest.isEvicted r = .ok false := by
  constructor
  · intro usable
    rcases eq_of_usable? usable with ⟨found, resident⟩
    exact ⟨found, isEvicted_of_ok canonical resident⟩
  · rintro ⟨found, resident⟩
    rw [found, usable?, isEvicted_sets resident]
    rfl

/-- Without a result that can be used, only the empty set is at hand. -/
theorem eq_empty_of_atHand (canonical : forest.sets.Canonical)
    (useless : forest.usable? (cache.lookup index) = .ok none)
    (atHand : forest.AtHand cache index) : index = Index.empty := by
  rcases atHand with isEmpty | ⟨r, found⟩
  · exact isEmpty
  · rw [(usable?_eq_some_iff canonical).mpr found] at useless
    cases useless

/-- An index that was never handed out is refused. -/
theorem filter_of_le (outside : forest.size ≤ index) :
    filter index predicate cache forest =
      (.error (.outOfRange index forest.size), forest.note .filtering) := by
  have refused : (forest.note .filtering).checkIndex index =
      .error (.outOfRange index forest.size) := by
    rw [checkIndex_of_le (by rwa [size_note]), size_note]
  simp only [filter, Action.bind_apply, Action.modify_apply, Action.get_apply,
    Action.liftExcept_apply, refused]

theorem lt_size_of_filter
    (answered : filter index predicate cache forest = (.ok filtered, later)) :
    index < forest.size := by
  by_contra outside
  rw [filter_of_le (Nat.le_of_not_lt outside)] at answered
  cases answered

/-- A cached result that is resident is answered, and nothing else is looked at. -/
theorem filter_cached (canonical : forest.sets.Canonical) (inUse : index < forest.size)
    (notEmpty : index ≠ Index.empty) (found : cache.lookup index = some r)
    (resident : forest.isEvicted r = .ok false) :
    filter index predicate cache forest =
      (.ok ⟨r, 0, cache⟩, (forest.note .filtering).tallyFilter .hit) := by
  have ways := filtering forest index predicate cache
  rcases forest.exists_note_eq .filtering with ⟨activities, noted⟩
  rw [noted] at ways ⊢
  exact ways.of_usable (checkIndex_of_lt inUse) notEmpty
    ((usable?_eq_some_iff canonical).mpr ⟨found, resident⟩)

/-- What was answered for a set that is not empty is in the cache. -/
theorem lookup_filter (notEmpty : index ≠ Index.empty)
    (answered : filter index predicate cache forest = (.ok filtered, later)) :
    filtered.cache.lookup index = some filtered.index := by
  have ways := filtering forest index predicate cache
  rw [answered] at ways
  cases ways with
  | empty isEmpty => exact absurd isEmpty notEmpty
  | cached usable => exact (eq_of_usable? usable).1
  | sifted useless read => exact Table.lookup_store_self _ _ _

/-- What was sifted can be read. -/
theorem content_sifted (forest : Forest K n) (canonical : forest.sets.Canonical) (kept : Content K)
    (outcome : Outcome) :
    (((forest.intern kept).2.fileInclusion (forest.intern kept).1.index index).tallyFilter
      outcome).content (forest.intern kept).1.index = .ok kept := by
  apply content_of_intern canonical
  rcases (forest.intern kept).2.exists_fileInclusion_eq (forest.intern kept).1.index index with
    ⟨inclusions, filed⟩
  rw [filed]
  exact forest.sets_intern kept

/-- A set that can be read and that is not cached is sifted. -/
theorem exists_filter_of_not_cached (canonical : forest.sets.Canonical) {content : Content K}
    (read : forest.content index = .ok content) (notEmpty : index ≠ Index.empty)
    (notCached : cache.lookup index = none) :
    ∃ filtered later, filter index predicate cache forest = (.ok filtered, later) ∧
      later.content filtered.index = .ok (content.filter predicate) := by
  have stored := (content_eq_ok_iff canonical).mp read
  have ways := filtering forest index predicate cache
  rcases forest.exists_note_eq .filtering with ⟨activities, noted⟩
  rw [noted] at ways
  have useless : ({ forest with activities } : Forest K n).usable? (cache.lookup index) =
      .ok none := by
    rw [notCached]
    rfl
  rcases ways.of_useless (checkIndex_of_lt (canonical.lt_size_of_get stored)) notEmpty useless with
    ⟨error, notRead, -⟩ | ⟨content', readHere, answered⟩
  · cases stored.symm.trans notRead
  · cases stored.symm.trans readHere
    exact ⟨_, _, answered, ({ forest with activities } : Forest K n).content_sifted canonical _ _⟩

/-- A filtering with a right cache answers with the elements that satisfy the predicate.
It consults the predicate only if nothing is at hand, and then once for each element. -/
theorem CacheHolds.answers_filter (holds : forest.CacheHolds (· = predicate) cache)
    (dependable : forest.Dependable)
    (answered : Forest.filter index predicate cache forest = (.ok filtered, later)) :
    ∃ content, forest.Denotes index content ∧
      later.content filtered.index = .ok (content.filter predicate) ∧
      (forest.AtHand cache index ∧ filtered.calls = 0 ∨
        ¬forest.AtHand cache index ∧ filtered.calls = content.length) := by
  have canonical := dependable.canonical
  have ways := filtering forest index predicate cache
  rcases forest.exists_note_eq .filtering with ⟨activities, noted⟩
  rw [answered, noted] at ways
  cases ways with
  | empty isEmpty =>
      subst index
      exact ⟨[], canonical.denotes_of_get dependable.empty,
        (content_eq_ok_iff canonical).mpr dependable.empty, Or.inl ⟨Or.inl rfl, rfl⟩⟩
  | cached usable =>
      rcases (usable?_eq_some_iff canonical).mp usable with ⟨found, resident⟩
      rcases holds index _ found with ⟨content, _, rfl, denotes, denotesResult⟩
      rcases isEvicted_eq_false_iff.mp resident with ⟨kept, read⟩
      have same := canonical.unique denotesResult (denotes_of_content canonical read)
      rw [← same] at read
      exact ⟨content, denotes, read, Or.inl ⟨Or.inr ⟨_, found, resident⟩, rfl⟩⟩
  | @sifted content useless read =>
      have denotes := denotes_of_content canonical read
      refine ⟨content, denotes, ?_, ?_⟩
      · exact ({ forest with activities } : Forest K n).content_sifted canonical _ _
      · by_cases atHand : forest.AtHand cache index
        · -- Only the empty set is both at hand and sifted.
          have isEmpty := eq_empty_of_atHand canonical useless atHand
          subst index
          rcases canonical.unique denotes (canonical.denotes_of_get dependable.empty) with rfl
          exact Or.inl ⟨atHand, rfl⟩
        · exact Or.inr ⟨atHand, rfl⟩

/-- A filtering with a right cache is refused only if its set was never handed out, or if
nothing is at hand and the content of the set was dropped. -/
theorem CacheHolds.refuses_filter (holds : forest.CacheHolds (· = predicate) cache)
    (dependable : forest.Dependable) {error : Error}
    (refused : Forest.filter index predicate cache forest = (.error error, later)) :
    (forest.size ≤ index ∧ error = .outOfRange index forest.size) ∨
      (forest.isEvicted index = .ok true ∧ ¬forest.AtHand cache index ∧
        error = .evicted index) := by
  have canonical := dependable.canonical
  rcases Nat.lt_or_ge index forest.size with inUse | outside
  · refine Or.inr ?_
    have ways := filtering forest index predicate cache
    rcases forest.exists_note_eq .filtering with ⟨activities, noted⟩
    rw [refused, noted] at ways
    cases ways with
    | outside notInUse => cases (checkIndex_of_lt inUse).symm.trans notInUse
    | lost unusable =>
        have handedOut : ∀ r, cache.lookup index = some r → r < forest.size := by
          intro r found
          rcases holds index r found with ⟨content, _, _, -, denotesResult⟩
          exact canonical.lt_size denotesResult
        rcases exists_usable? canonical handedOut with ⟨usable, told⟩
        cases told.symm.trans unusable
    | unread useless notRead =>
        rcases dependable.evicted_of_get_error inUse notRead with ⟨same, dropped⟩
        refine ⟨dropped, ?_, same⟩
        intro atHand
        rw [eq_empty_of_atHand canonical useless atHand] at notRead
        cases dependable.empty.symm.trans notRead
  · rw [filter_of_le outside] at refused
    cases refused
    exact Or.inl ⟨outside, rfl⟩

end SetForest.Forest
