import SetForest.Proofs.Forest.Eviction

namespace SetForest.Forest

/-!
# Filter caches

A cache that has served one forest only holds indices of parts of its sets.  Each of
them was sifted with one of the predicates that the cache has served (`CacheHolds`), and
the forest has filed that it is a part of the set that was filtered (`CacheFiled`).  The
first needs nothing but a storage in order.  The second relies on what is filed being
true, so that it is never displaced.

If the cache has served one predicate only, its results are the right ones
(`CacheRight`).  A cached result whose content was evicted can then be sifted once more.
It comes back to its own index, and the cache and the tables stay as they are.
-/

variable {K : Type} [Key K] {n : Nat} {forest later x y : Forest K n} {below : Fin n → Meaning}
  {serves : (Element K → Bool) → Prop} {predicate : Element K → Bool} {cache : FilterCache}
  {index r : Index} {filtered : Filtered}

/-- What a cache holds was sifted with a predicate that it serves. -/
def CacheHolds (forest : Forest K n) (serves : (Element K → Bool) → Prop)
    (cache : FilterCache) : Prop :=
  ∀ index result, cache.lookup index = some result → ∃ content predicate, serves predicate ∧
    forest.Denotes index content ∧ forest.Denotes result (content.filter predicate)

/-- What a cache holds is filed as a part of the set that was filtered. -/
def CacheFiled (forest : Forest K n) (cache : FilterCache) : Prop :=
  ∀ index result, cache.lookup index = some result → forest.Filed result index

theorem cacheHolds_empty (forest : Forest K n) (serves : (Element K → Bool) → Prop) :
    forest.CacheHolds serves .empty := by
  intro index result found
  rw [Table.lookup_empty] at found
  cases found

theorem cacheFiled_empty (forest : Forest K n) : forest.CacheFiled .empty := by
  intro index result found
  rw [Table.lookup_empty] at found
  cases found

theorem CacheHolds.mono (holds : forest.CacheHolds serves cache)
    (canonical : forest.sets.Canonical) (evolves : forest.Evolves later) :
    later.CacheHolds serves cache := by
  intro index result found
  rcases holds index result found with ⟨content, predicate, served, denotes, denotesResult⟩
  exact ⟨content, predicate, served, evolves.denotes canonical denotes,
    evolves.denotes canonical denotesResult⟩

theorem CacheFiled.mono (filed : forest.CacheFiled cache) (extension : forest.Extends later) :
    later.CacheFiled cache :=
  fun index result found => (filed index result found).mono extension

/-- A filtering keeps the cache as it is, unless it has sifted the set. -/
theorem cache_filter (answered : filter index predicate cache forest = (.ok filtered, later)) :
    filtered.cache = cache ∨ ∃ content, filtered.cache = cache.store index filtered.index ∧
      forest.content index = .ok content ∧
      later.sets = (forest.sets.intern (content.filter predicate)).2 ∧
      filtered.index = (forest.sets.intern (content.filter predicate)).1.1 ∧
      later.Filed filtered.index index := by
  have ways := filtering forest index predicate cache
  rcases forest.exists_note_eq .filtering with ⟨activities, noted⟩
  rw [answered, noted] at ways
  cases ways with
  | empty isEmpty => exact Or.inl rfl
  | cached usable => exact Or.inl rfl
  | @sifted content useless read =>
      have stored := ({ forest with activities } : Forest K n).sets_intern
        (content.filter predicate)
      have filed := (({ forest with activities } : Forest K n).intern
        (content.filter predicate)).2.filed_fileInclusion
          (({ forest with activities } : Forest K n).intern (content.filter predicate)).1.index
          index
      rcases (({ forest with activities } : Forest K n).intern
        (content.filter predicate)).2.exists_fileInclusion_eq
          (({ forest with activities } : Forest K n).intern
            (content.filter predicate)).1.index index with ⟨inclusions, changed⟩
      rw [changed] at filed ⊢
      exact Or.inr ⟨content, rfl, read, stored, index_intern _ _, filed⟩

/-- A filtering with a predicate that the cache serves adds a result of this predicate. -/
theorem CacheHolds.filter (holds : forest.CacheHolds serves cache)
    (canonical : forest.sets.Canonical) (served : serves predicate)
    (answered : Forest.filter index predicate cache forest = (.ok filtered, later)) :
    later.CacheHolds serves filtered.cache := by
  have changes : Changes (fun _ => True) forest (Forest.filter index predicate cache forest).2 :=
    changes_filter forest index predicate cache
  have evolves := changes.evolves
  rw [answered] at evolves
  have kept := holds.mono canonical evolves
  rcases cache_filter answered with same | ⟨content, stored, read, sets, interned, -⟩
  · rw [same]
    exact kept
  · intro other result found
    rw [stored, Table.lookup_store] at found
    split at found
    · next here =>
        subst other
        cases found
        refine ⟨content, predicate, served,
          evolves.denotes canonical (denotes_of_content canonical read), ?_⟩
        rw [Denotes, sets, interned]
        exact canonical.denotes_interned (content.filter predicate)
    · exact kept other result found

/-- So does what it files. -/
theorem CacheFiled.filter (filed : forest.CacheFiled cache) (sound : forest.Sound below)
    (lawful : ∀ child, (below child).Lawful)
    (answered : Forest.filter index predicate cache forest = (.ok filtered, later)) :
    later.CacheFiled filtered.cache := by
  have advances := sound.changes lawful (fun _ admitted => admitted)
    (changes_filter forest index predicate cache)
  rw [answered] at advances
  have kept := filed.mono advances.extension
  rcases cache_filter answered with same | ⟨content, stored, -, -, -, isFiled⟩
  · rw [same]
    exact kept
  · intro other result found
    rw [stored, Table.lookup_store] at found
    split at found
    · next here =>
        subst other
        cases found
        exact isFiled
    · exact kept other result found

/-! ## Caches of one predicate -/

/-- What a cache holds is right for a predicate, and has been filed. -/
def CacheRight (forest : Forest K n) (predicate : Element K → Bool) (cache : FilterCache) : Prop :=
  ∀ index result, cache.lookup index = some result → ∃ content, forest.Denotes index content ∧
    forest.Denotes result (content.filter predicate) ∧ forest.Filed result index

/-- What is held and filed is right if the cache serves no other predicate. -/
theorem cacheRight_iff : forest.CacheRight predicate cache ↔
    forest.CacheHolds (· = predicate) cache ∧ forest.CacheFiled cache := by
  constructor
  · intro right
    refine ⟨?_, ?_⟩
    · intro index result found
      rcases right index result found with ⟨content, denotes, denotesResult, -⟩
      exact ⟨content, predicate, rfl, denotes, denotesResult⟩
    · intro index result found
      rcases right index result found with ⟨-, -, -, filed⟩
      exact filed
  · rintro ⟨holds, filed⟩ index result found
    rcases holds index result found with ⟨content, _, rfl, denotes, denotesResult⟩
    exact ⟨content, denotes, denotesResult, filed index result found⟩

/-! ## Sifting once more -/

/-- To store a known part of a set again brings its content back and files nothing new. -/
theorem sift_again (forest : Forest K n) (canonical : forest.sets.Canonical)
    {kept : Content K} (denotes : forest.Denotes r kept) (filed : forest.Filed r index)
    (outcome : Outcome) :
    (forest.intern kept).1.index = r ∧ ∃ counters,
      ((forest.intern kept).2.fileInclusion (forest.intern kept).1.index index).tallyFilter
          outcome =
        { forest with sets := (forest.sets.intern kept).2, counters } := by
  have known : (forest.intern kept).1.index = r :=
    (forest.index_intern kept).trans (canonical.intern_known denotes).1
  rcases forest.exists_intern_eq kept with ⟨counted, stored⟩
  have filedLater : ({ forest with
      sets := (forest.sets.intern kept).2
      counters := counted } : Forest K n).Filed r index := filed
  rw [known, stored, filedLater.fileInclusion_eq]
  exact ⟨rfl, _, rfl⟩

/-- A cached result that is resident is answered. -/
theorem Filtering.of_usable {outcome : Except Error Filtered × Forest K n}
    (ways : Filtering forest index predicate cache outcome)
    (inUse : forest.checkIndex index = .ok ()) (notEmpty : index ≠ Index.empty)
    (usable : forest.usable? (cache.lookup index) = .ok (some r)) :
    outcome = (.ok ⟨r, 0, cache⟩, forest.tallyFilter .hit) := by
  cases ways with
  | outside refused => cases inUse.symm.trans refused
  | empty isEmpty => exact absurd isEmpty notEmpty
  | lost unusable => cases usable.symm.trans unusable
  | cached answered =>
      cases usable.symm.trans answered
      rfl
  | unread useless notRead => cases usable.symm.trans useless
  | sifted useless read => cases usable.symm.trans useless

/-- Without a cached result that is resident, the set is sifted if it can be read. -/
theorem Filtering.of_useless {outcome : Except Error Filtered × Forest K n}
    (ways : Filtering forest index predicate cache outcome)
    (inUse : forest.checkIndex index = .ok ()) (notEmpty : index ≠ Index.empty)
    (useless : forest.usable? (cache.lookup index) = .ok none) :
    (∃ error, forest.sets.get index = .error error ∧ outcome = (.error error, forest)) ∨
    ∃ content, forest.sets.get index = .ok content ∧ outcome =
      (.ok ⟨(forest.intern (content.filter predicate)).1.index, content.length,
          cache.store index (forest.intern (content.filter predicate)).1.index⟩,
        ((forest.intern (content.filter predicate)).2.fileInclusion
          (forest.intern (content.filter predicate)).1.index index).tallyFilter
            (.ofMiss (forest.intern (content.filter predicate)).1.cold)) := by
  cases ways with
  | outside refused => cases inUse.symm.trans refused
  | empty isEmpty => exact absurd isEmpty notEmpty
  | lost unusable => cases useless.symm.trans unusable
  | cached answered => cases useless.symm.trans answered
  | unread _ notRead => exact Or.inl ⟨_, notRead, rfl⟩
  | @sifted content _ read =>
      rw [Forest.content, inUse] at read
      exact Or.inr ⟨content, read, rfl⟩

/-- A cached result that was evicted is sifted once more, unless the set was evicted
itself.  An intact forest answers the same from the cache. -/
theorem Similar.inStep_filter_evicted (similar : Similar (.upToEviction (Element K)) x y)
    (right : x.CacheRight predicate cache) (found : cache.lookup index = some r)
    (evicted : x.sets.isEvicted r = .ok true) (notEmpty : index ≠ Index.empty) :
    Lockstep (Resemblance.upToEviction (Element K)).Excuses
      (Similar (.upToEviction (Element K))) (Filtered.Alike False)
      (filter index predicate cache x) (filter index predicate cache y) := by
  rcases right index r found with ⟨content, denotes, denotesResult, filed⟩
  have resident := Arena.isEvicted_of_get
    (similar.sets.2 r _ ((similar.sets.1.denotes r _).mp denotesResult))
  have useless : x.usable? (cache.lookup index) = .ok none := by
    rw [found, usable?, evicted]
    rfl
  have usable : y.usable? (cache.lookup index) = .ok (some r) := by
    rw [found, usable?, resident]
    rfl
  have inUse : x.checkIndex index = .ok () :=
    checkIndex_of_lt (similar.sets.1.left.lt_size denotes)
  have inUseIntact : y.checkIndex index = .ok () := by
    rw [← similar.checkIndex]
    exact inUse
  have ways := filtering x index predicate cache
  have waysIntact := filtering y index predicate cache
  have similarNoted := similar.note .filtering
  rcases x.exists_note_eq .filtering with ⟨activities, noted⟩
  rcases y.exists_note_eq .filtering with ⟨activities', notedIntact⟩
  rw [noted, notedIntact] at similarNoted
  rw [noted] at ways
  rw [notedIntact] at waysIntact
  rw [waysIntact.of_usable inUseIntact notEmpty usable]
  rcases ways.of_useless inUse notEmpty useless with
    ⟨error, notRead, answered⟩ | ⟨content', read, answered⟩
  · rw [answered]
    rcases similar.sets.1.left.get_of_denotes denotes with readHere | dropped
    · cases readHere.symm.trans notRead
    · cases dropped.symm.trans notRead
      exact .excused ⟨id, index, rfl⟩
  · have same : content' = content := by
      rcases similar.sets.1.left.get_of_denotes denotes with readHere | dropped
      · exact Except.ok.inj (read.symm.trans readHere)
      · cases dropped.symm.trans read
    subst content'
    rcases sift_again { x with activities } similar.sets.1.left denotesResult filed
      (.ofMiss (({ x with activities } : Forest K n).intern
        (content.filter predicate)).1.cold) with ⟨sameIndex, counters, stored⟩
    rw [answered, stored, sameIndex, Table.store_eq_self found]
    exact .answered ⟨rfl, False.elim, rfl⟩ ((similarNoted.intern_left denotesResult).counted id
      ⟨counters, rfl⟩ ⟨_, rfl⟩)

/-- With a right cache, filterings are in lockstep in any case. -/
theorem Similar.lockstep_filter (similar : Similar (.upToEviction (Element K)) x y)
    (right : x.CacheRight predicate cache) (index : Index) :
    Lockstep (Resemblance.upToEviction (Element K)).Excuses
      (Similar (.upToEviction (Element K))) (Filtered.Alike False)
      (filter index predicate cache x) (filter index predicate cache y) := by
  have agreed : (index ≠ Index.empty → Agrees x y (cache.lookup index)) →
      Lockstep (Resemblance.upToEviction (Element K)).Excuses
        (Similar (.upToEviction (Element K))) (Filtered.Alike False)
        (filter index predicate cache x) (filter index predicate cache y) := fun agrees =>
    (inStep_filter similar index predicate cache agrees).mono (fun _ _ related => related)
      fun _ _ same => same ▸ .refl _ _
  cases found : cache.lookup index with
  | none =>
      refine agreed fun _ => ?_
      rw [found]
      exact nofun
  | some r =>
      rcases right index r found with ⟨content, -, denotesResult, -⟩
      have resident := Arena.isEvicted_of_get
        (similar.sets.2 r _ ((similar.sets.1.denotes r _).mp denotesResult))
      rcases similar.sets.1.left.exists_isEvicted denotesResult with ⟨dropped, evicted⟩
      by_cases isEmpty : index = Index.empty
      · exact agreed fun notEmpty => absurd isEmpty notEmpty
      · cases dropped with
        | true => exact similar.inStep_filter_evicted right found evicted isEmpty
        | false =>
            refine agreed fun _ => ?_
            rw [found]
            rintro _ ⟨⟩
            exact evicted.trans resident.symm

end SetForest.Forest
