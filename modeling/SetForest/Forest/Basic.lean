import SetForest.Config
import SetForest.Content.Search
import SetForest.Operation
import SetForest.Statistics
import SetForest.Storage.Arena

/-!
# Forests

A forest stores sets, hands out an index for each distinct one, and remembers
the results of operations on them by index.  It may have child forests, which
are named by their positions among the `n` forests below it.  The elements of
its sets then carry one index per child.

A forest is a value.  Its operations are actions in `ForestM`, which keep the
state that was reached when they fail.  What an action may change is thus
visible in its definition, and a failure can be compared with the state before.
-/

namespace SetForest

/-- The kinds of work whose performance a profiling forest records. -/
inductive Activity where
  | registration
  | operation (performed : Operation)
  | keyRemoval
  | keyUpdate
  | filtering
deriving DecidableEq, Repr

/-- The name of a kind of work.  An operation has its own name. -/
def Activity.name : Activity → String
  | .registration => "register_set"
  | .operation performed => performed.name
  | .keyRemoval => "remove_single_key"
  | .keyUpdate => "update_key"
  | .filtering => "filter"

/-- A store of sets over the keys `K`, above `n` other forests. -/
structure Forest (K : Type) [Key K] (n : Nat) where
  config : Config
  strategy : Strategy
  /-- The positions of the child forests.  A position may occur more than once. -/
  children : List (Fin n)
  sets : Arena (Element K)
  unions : Table Operands Index
  intersections : Table Operands Index
  differences : Table Operands Index
  /-- Known inclusions, filed under pairs whose left index is the smaller one. -/
  inclusions : Table Operands Inclusion
  counters : Counters
  /-- The kinds of work done, in the order in which each was first done. -/
  activities : List Activity

/-- An action on a forest.  A failure keeps the state that it was reached in. -/
abbrev ForestM (K : Type) [Key K] (n : Nat) := ExceptT Error (StateM (Forest K n))

/-- The answer to a registration: the index, and whether the content is new. -/
structure Registered where
  index : Index
  cold : Bool
deriving DecidableEq, Repr

namespace Forest

variable {K : Type} [Key K] {n : Nat}

/-- A forest that stores the empty set alone. -/
def create (config : Config) (strategy : Strategy) (children : List (Fin n)) : Forest K n where
  config
  strategy
  children
  sets := ((Arena.create strategy config.blockSize).intern []).2
  unions := .empty
  intersections := .empty
  differences := .empty
  inclusions := .empty
  counters := {}
  activities := []

/-- The number of indices handed out, those of evicted sets included. -/
def size (forest : Forest K n) : Nat :=
  forest.sets.size

/-- Accept an index that was handed out. -/
def checkIndex (forest : Forest K n) (index : Index) : Except Error Unit :=
  if index < forest.size then .ok () else .error (.outOfRange index forest.size)

/-- The elements of a stored set. -/
def content (forest : Forest K n) (index : Index) : Except Error (Content K) := do
  forest.checkIndex index
  forest.sets.get index

/-- Record that a kind of work is done, if the forest is profiling. -/
def note (forest : Forest K n) (activity : Activity) : Forest K n :=
  if forest.config.profiling && !forest.activities.contains activity then
    { forest with activities := forest.activities ++ [activity] }
  else forest

/-- Store a content without checking it.  A slot that comes back is counted. -/
def intern (forest : Forest K n) (content : Content K) : Registered × Forest K n :=
  let ((index, interning), sets) := forest.sets.intern content
  let forest := { forest with sets }
  match interning with
  | .cold => (⟨index, true⟩, forest)
  | .hit => (⟨index, false⟩, forest)
  | .restored =>
    let counters := { forest.counters with restorations := forest.counters.restorations + 1 }
    (⟨index, false⟩, { forest with counters })

/-- Count the outcome of a registration. -/
def tallyRegistration (forest : Forest K n) (outcome : Outcome) : Forest K n :=
  let propertySets := forest.counters.propertySets.record outcome
  { forest with counters := { forest.counters with propertySets } }

/-- Count the outcome of a filtering. -/
def tallyFilter (forest : Forest K n) (outcome : Outcome) : Forest K n :=
  let filters := forest.counters.filters.record outcome
  { forest with counters := { forest.counters with filters } }

/-- Count the outcome of a lattice operation. -/
def tallyOperation (forest : Forest K n) (operation : Operation) (outcome : Outcome) :
    Forest K n :=
  let counters := forest.counters
  let counters :=
    match operation with
    | .union => { counters with unions := counters.unions.record outcome }
    | .intersection => { counters with intersections := counters.intersections.record outcome }
    | .difference => { counters with differences := counters.differences.record outcome }
  { forest with counters }

/-- The remembered results of an operation. -/
def memo (forest : Forest K n) : Operation → Table Operands Index
  | .union => forest.unions
  | .intersection => forest.intersections
  | .difference => forest.differences

/-- Remember a result of an operation. -/
def remember (forest : Forest K n) (operation : Operation) (pair : Operands) (result : Index) :
    Forest K n :=
  match operation with
  | .union => { forest with unions := forest.unions.store pair result }
  | .intersection => { forest with intersections := forest.intersections.store pair result }
  | .difference => { forest with differences := forest.differences.store pair result }

/-- A remembered result is of use as long as its content is resident. -/
def usable? (forest : Forest K n) (remembered : Option Index) : Except Error (Option Index) :=
  match remembered with
  | none => .ok none
  | some result => do
    if ← forest.sets.isEvicted result then return none else return some result

end Forest

end SetForest
