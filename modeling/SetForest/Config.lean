/-!
# Configuration

The tunables of a forest are fixed when it is created.  None of them changes
what a set denotes: they choose how keys are searched, how storage grows, and
what is checked and recorded along the way.
-/

namespace SetForest

/-- The tunables of a forest. -/
structure Config where
  /-- Sets with more elements than this are searched by halving. -/
  searchThreshold : Nat := 12
  /-- The number of slots in a chunk, for storage that grows in chunks.  Zero counts as one. -/
  blockSize : Nat := 32
  /-- Whether the order of registered sets is checked. -/
  integrityChecks : Bool := true
  /-- Whether the kinds of operations performed are recorded. -/
  profiling : Bool := false
deriving DecidableEq, Repr

/-- A change to one tunable. -/
inductive Setting where
  | searchThreshold (size : Nat)
  | blockSize (size : Nat)
  | integrityChecks (enabled : Bool)
  | profiling (enabled : Bool)
deriving DecidableEq, Repr

/-- A setting that no configuration accepts. -/
inductive ConfigError where
  | zeroBlockSize
deriving DecidableEq, Repr

def ConfigError.message : ConfigError → String
  | .zeroBlockSize => "block size must be non-zero"

namespace Config

/-- Change one tunable.  A chunk has at least one slot. -/
def set (config : Config) : Setting → Except ConfigError Config
  | .searchThreshold size => .ok { config with searchThreshold := size }
  | .blockSize 0 => .error .zeroBlockSize
  | .blockSize size => .ok { config with blockSize := size }
  | .integrityChecks enabled => .ok { config with integrityChecks := enabled }
  | .profiling enabled => .ok { config with profiling := enabled }

/-- Change the tunables in turn, up to the first setting that is refused. -/
def setAll (config : Config) (settings : List Setting) : Except ConfigError Config :=
  settings.foldlM set config

end Config

end SetForest
