import Std.Data.ExtTreeSet

/-!
# Keys

Sets are ordered by the keys of their elements, and tables by theirs.  A key
type therefore brings a total order whose ties are equalities.  The class
`Key` bundles the order with its laws, so that a construction over an
arbitrary key type asks for one thing.

`Key.distinct` lists the members of a collection in increasing order, each
once.  The list depends on the members alone, not on their order or number
(`Key.distinct_congr`).
-/

namespace SetForest

/-- A type with a lawful total order: the comparison is transitive, and equal
keys are the only ones that it does not tell apart. -/
class Key (K : Type) extends Ord K, Std.TransOrd K, Std.LawfulEqOrd K

instance : Key Nat where
instance : Key Int where
instance : Key Int64 where
instance : Key String where

/-- Lists of keys are ordered lexicographically. -/
instance {K : Type} [Key K] : Key (List K) where

namespace Key

variable {K : Type} [Key K]

/-- Whether two keys are the same one. -/
def same (first second : K) : Bool :=
  compare first second == .eq

theorem same_iff (first second : K) : same first second = true ↔ first = second := by
  simp [same]

/-- The values of a list in increasing order, repetitions included. -/
def sort (values : List K) : List K :=
  values.mergeSort (fun first second => (compare first second).isLE)

/-- The values of a list in increasing order, each of them once. -/
def distinct (values : List K) : List K :=
  (Std.ExtTreeSet.ofList values compare).toList

/-- No value is lost and none is added. -/
theorem mem_distinct (value : K) (values : List K) :
    value ∈ distinct values ↔ value ∈ values := by
  classical
  simp [distinct, Std.ExtTreeSet.mem_ofList]

/-- Each value is smaller than all that follow it. -/
theorem pairwise_distinct (values : List K) :
    (distinct values).Pairwise (fun first second => compare first second = .lt) :=
  Std.ExtTreeSet.ordered_toList

/-- Only the members of a list matter. -/
theorem distinct_congr {first second : List K}
    (agree : ∀ value, value ∈ first ↔ value ∈ second) : distinct first = distinct second := by
  classical
  unfold distinct
  congr 1
  apply Std.ExtTreeSet.ext_mem
  simpa [Std.ExtTreeSet.mem_ofList] using agree

end Key

end SetForest
