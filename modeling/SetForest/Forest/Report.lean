import SetForest.Forest.Read

/-!
# Reports

The statistics of a forest, and its dump: all stored sets by index, followed by
what is remembered about pairs of them in the order of the pairs.
-/

namespace SetForest.Forest

variable {K : Type} [Key K] {n : Nat}

/-- The counters of the forest together with the sizes of its tables. -/
def statistics (forest : Forest K n) : Statistics where
  sets := forest.size
  unionsCached := forest.unions.size
  intersectionsCached := forest.intersections.size
  differencesCached := forest.differences.size
  subsetsCached := forest.inclusions.size
  counters := forest.counters

/-- A heading with a count, followed by one indented line per entry. -/
def dumpSection (heading : String) (lines : List String) : String :=
  s!"    {heading}: (Count: {lines.length})\n" ++
    String.join (lines.map (fun line => "      " ++ line ++ "\n"))

/-- A remembered fact about a pair, between braces. -/
def dumpEntry (pair : Operands) (fact : String) : String :=
  "\x7b" ++ pair.text ++ " -> " ++ fact ++ "\x7d"

/-- The content of a slot, or the mark that it is evicted. -/
def dumpSet [ToString K] (forest : Forest K n) (index : Index) : String :=
  let shown :=
    match forest.sets.get index with
    | .ok content => Content.text content
    | .error _ => "<evicted>"
  s!"{index} : " ++ shown

/-- Everything that the forest stores and remembers. -/
def dump [ToString K] (forest : Forest K n) : String :=
  let results (table : Table Operands Index) :=
    table.toList.map fun (pair, result) => dumpEntry pair (toString result)
  let inclusions :=
    forest.inclusions.toList.map fun (pair, relation) => dumpEntry pair relation.abbreviation
  s!"LatticeHashForest ({forest.strategy.name}):\n" ++
    dumpSection "PropertySets" ((List.range forest.size).map forest.dumpSet) ++
    dumpSection "Unions" (results forest.unions) ++
    dumpSection "Intersections" (results forest.intersections) ++
    dumpSection "Differences" (results forest.differences) ++
    dumpSection "Subsets" inclusions

end SetForest.Forest
