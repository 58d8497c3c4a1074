import SetForest.Statistics
import SetForest.Storage.Strategy
import SetForest.Workload.Replay

/-!
# Reports of a run

A run reports every mismatch as it is found, and at the end a summary that can
also be written to a file as a JSON object.  The object is indented by two
blanks, and its members are in the order of their names.
-/

namespace SetForest.CommandLine

/-- The text of a mismatch found in a file. -/
def mismatchText (path : String) (mismatch : Workload.Mismatch) : String :=
  s!"{path}: could not match {mismatch.operation.name} (test {mismatch.case})\n" ++
  s!"    arg1:     {mismatch.left}\n" ++
  s!"    arg2:     {mismatch.right}\n" ++
  s!"    expected: {mismatch.expected}\n" ++
  s!"    actual:   {mismatch.actual}\n"

/-- The result of replaying operation files. -/
structure Report where
  strategy : Strategy
  files : Nat
  cases : Nat
  mismatches : Nat
  statistics : Statistics
deriving DecidableEq, Repr

/-- A JSON object with one member per line.  The values are given as texts. -/
def jsonObject (indentation : Nat) (members : List (String × String)) : String :=
  let blanks (count : Nat) := String.ofList (List.replicate count ' ')
  let lines := members.map fun (name, value) =>
    blanks (indentation + 2) ++ "\"" ++ name ++ "\": " ++ value
  "\x7b\n" ++ ",\n".intercalate lines ++ "\n" ++ blanks indentation ++ "\x7d"

/-- A tally as a member of a report. -/
def jsonTally (tally : Tally) : String :=
  jsonObject 2
    [("cold_misses", toString tally.coldMisses),
      ("edge_misses", toString tally.edgeMisses),
      ("empty_hits", toString tally.emptyHits),
      ("equal_hits", toString tally.equalHits),
      ("hits", toString tally.hits),
      ("subset_hits", toString tally.subsetHits)]

/-- The report of a run that took some number of microseconds. -/
def Report.json (report : Report) (microseconds : Nat) : String :=
  let counters := report.statistics.counters
  jsonObject 0
    [("backend", "\"" ++ report.strategy.name ++ "\""),
      ("cases", toString report.cases),
      ("differences", jsonTally counters.differences),
      ("files", toString report.files),
      ("intersections", jsonTally counters.intersections),
      ("mismatches", toString report.mismatches),
      ("property_sets", jsonTally counters.propertySets),
      ("sets", toString report.statistics.sets),
      ("time_us", toString microseconds),
      ("unions", jsonTally counters.unions)]

end SetForest.CommandLine
