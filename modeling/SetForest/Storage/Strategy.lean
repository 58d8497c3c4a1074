/-!
# Storage strategies

A forest is created for one of three settings: use by one caller, shared use
behind locks, or concurrent use.  The strategy decides the form of its storage
and nothing else that a caller can observe, its name in a dump apart.
-/

namespace SetForest

/-- The strategies of storage that a forest can be created with. -/
inductive Strategy where
  | unshared
  | locked
  | concurrent
deriving DecidableEq, Repr

namespace Strategy

/-- The name of a strategy in dumps, in reports and on the command line. -/
def name : Strategy → String
  | unshared => "local"
  | locked => "locked"
  | concurrent => "concurrent"

/-- The strategy that a user asks for by its name. -/
def ofName? : String → Option Strategy
  | "local" => some unshared
  | "locked" => some locked
  | "concurrent" => some concurrent
  | _ => none

theorem ofName?_name (strategy : Strategy) : ofName? strategy.name = some strategy := by
  cases strategy <;> rfl

end Strategy

end SetForest
