import SetForest.Forest.Inclusion

/-!
# Filtering

The elements of a set that satisfy a predicate form a set again.  The caller
keeps a cache of the results by index.  A forest cannot tell predicates apart,
so a cache is exact only if it serves one predicate on one forest.  A cache that
serves several gives wrong answers by itself, but what the forest files about
its own sets stays true: an inclusion is filed only for a result that was just
computed from the set.
-/

namespace SetForest

/-- The results of filtering with one predicate, by the index of the input. -/
abbrev FilterCache := Table Index Index

/-- The answer to a filtering.  It carries the number of times that the
predicate was consulted and the cache to use from then on. -/
structure Filtered where
  index : Index
  calls : Nat
  cache : FilterCache

/-- The elements that satisfy a predicate, and how often it was consulted. -/
def Content.sift {K : Type} (predicate : Element K → Bool) : Content K → Content K × Nat
  | [] => ([], 0)
  | element :: rest =>
    let (kept, calls) := sift predicate rest
    (if predicate element then element :: kept else kept, calls + 1)

/-- Sifting keeps what a filter keeps. -/
theorem Content.sift_fst {K : Type} (predicate : Element K → Bool) (content : Content K) :
    (sift predicate content).1 = content.filter predicate := by
  induction content with
  | nil => rfl
  | cons element rest ih => simp [sift, List.filter_cons, ih]

/-- Sifting consults the predicate once for every element. -/
theorem Content.sift_snd {K : Type} (predicate : Element K → Bool) (content : Content K) :
    (sift predicate content).2 = content.length := by
  induction content with
  | nil => rfl
  | cons element rest ih => simp [sift, ih]

namespace Forest

variable {K : Type} [Key K] {n : Nat}

/-- The set of the elements that satisfy a predicate.  A resident result in the
cache is returned as it is. -/
def filter (index : Index) (predicate : Element K → Bool) (cache : FilterCache) :
    ForestM K n Filtered := do
  modify (note · .filtering)
  let forest ← get
  forest.checkIndex index
  if index = Index.empty then
    modify (tallyFilter · .emptyHit)
    return ⟨Index.empty, 0, cache⟩
  else
    match ← forest.usable? (cache.lookup index) with
    | some result =>
      modify (tallyFilter · .hit)
      return ⟨result, 0, cache⟩
    | none =>
      let (kept, calls) := Content.sift predicate (← forest.sets.get index)
      let registered ← modifyGet (intern · kept)
      modify (tallyFilter · (.ofMiss registered.cold))
      modify (fileInclusion · registered.index index)
      return ⟨registered.index, calls, cache.store index registered.index⟩

end Forest

end SetForest
