/-!
# Statistics

A forest counts how its operations were answered.  A `Tally` belongs to one
kind of operation and has a counter per way of answering; `Statistics` is a
copy of all tallies of a forest together with the sizes of its tables.
-/

namespace SetForest

/-- How an operation was answered. -/
inductive Outcome where
  /-- The result was remembered. -/
  | hit
  /-- Both operands were the same set. -/
  | equalHit
  /-- A known inclusion decided the result. -/
  | subsetHit
  /-- One operand was the empty set. -/
  | emptyHit
  /-- The result was computed and is a new set. -/
  | coldMiss
  /-- The result was computed and was stored before. -/
  | edgeMiss
deriving DecidableEq, Repr

/-- The outcome of computing a result, which depends on whether it is new. -/
def Outcome.ofMiss (cold : Bool) : Outcome :=
  if cold then coldMiss else edgeMiss

/-- How often each outcome occurred. -/
structure Tally where
  hits : Nat := 0
  equalHits : Nat := 0
  subsetHits : Nat := 0
  emptyHits : Nat := 0
  coldMisses : Nat := 0
  edgeMisses : Nat := 0
deriving DecidableEq, Repr, Inhabited

namespace Tally

/-- Count one more occurrence of an outcome. -/
def record (tally : Tally) : Outcome → Tally
  | .hit => { tally with hits := tally.hits + 1 }
  | .equalHit => { tally with equalHits := tally.equalHits + 1 }
  | .subsetHit => { tally with subsetHits := tally.subsetHits + 1 }
  | .emptyHit => { tally with emptyHits := tally.emptyHits + 1 }
  | .coldMiss => { tally with coldMisses := tally.coldMisses + 1 }
  | .edgeMiss => { tally with edgeMisses := tally.edgeMisses + 1 }

/-- The number of operations that the tally has seen. -/
def total (tally : Tally) : Nat :=
  tally.hits + tally.equalHits + tally.subsetHits + tally.emptyHits + tally.coldMisses +
    tally.edgeMisses

/-- The number of operations whose result had to be computed. -/
def misses (tally : Tally) : Nat :=
  tally.coldMisses + tally.edgeMisses

/-- Every recorded outcome counts once. -/
theorem total_record (tally : Tally) (outcome : Outcome) :
    (tally.record outcome).total = tally.total + 1 := by
  cases outcome <;> simp only [record, total] <;> omega

/-- The counters on one line, each with its name, and their total. -/
def text (tally : Tally) : String :=
  s!"Hits: {tally.hits}, Equal Hits: {tally.equalHits}, Subset Hits: {tally.subsetHits}, " ++
  s!"Empty Hits: {tally.emptyHits}, Cold Misses: {tally.coldMisses}, " ++
  s!"Edge Misses: {tally.edgeMisses}, Total: {tally.total}"

end Tally

/-- What a forest has counted.  The evictions and restorations are those of
single slots, and only of slots that were resident or evicted before. -/
structure Counters where
  propertySets : Tally := {}
  unions : Tally := {}
  intersections : Tally := {}
  differences : Tally := {}
  filters : Tally := {}
  evictions : Nat := 0
  restorations : Nat := 0
deriving DecidableEq, Repr, Inhabited

/-- The counters of a forest and the sizes of its tables at one time. -/
structure Statistics where
  sets : Nat := 0
  unionsCached : Nat := 0
  intersectionsCached : Nat := 0
  differencesCached : Nat := 0
  subsetsCached : Nat := 0
  counters : Counters := {}
deriving DecidableEq, Repr, Inhabited

/-- The report of a forest, one line per kind of operation. -/
def Statistics.text (statistics : Statistics) : String :=
  let { sets, unionsCached, intersectionsCached, differencesCached, subsetsCached, counters } :=
    statistics
  "Performance:\n" ++
  s!"    PropertySets (stored: {sets}): {counters.propertySets.text}\n" ++
  s!"    Unions (cached: {unionsCached}): {counters.unions.text}\n" ++
  s!"    Intersections (cached: {intersectionsCached}): {counters.intersections.text}\n" ++
  s!"    Differences (cached: {differencesCached}): {counters.differences.text}\n" ++
  s!"    Filters: {counters.filters.text}\n" ++
  s!"    Subsets (cached: {subsetsCached})\n" ++
  s!"    Evictions: {counters.evictions}, Restorations: {counters.restorations}\n"

end SetForest
