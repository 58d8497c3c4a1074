import SetForest.Family.Apply
import SetForest.Family.Spec

/-!
# Sessions

A session is a family of forests together with named filter caches, and it is
driven by commands to single forests.  A command that fails leaves behind what
it did before the failure, and the session goes on.

Caches are named within a storage strategy.  The name alone decides which cache
a filtering uses, whatever the forest and the predicate are.
-/

namespace SetForest

/-- What a caller can ask of one forest. -/
inductive Command (K : Type) where
  | registerSet (content : Content K)
  | registerUnordered (elements : List (Element K))
  | registerSingle (element : Element K)
  | apply (operation : Operation) (a b : Index)
  | insertSingle (a : Index) (element : Element K)
  | removeSingle (a : Index) (element : Element K)
  | updateKey (a : Index) (element : Element K)
  | removeKey (a : Index) (key : K)
  | filter (a : Index) (predicate : Element K → Bool) (cache : String)
  | nestedOf (a : Index) (key : K) (child : Nat)
  | evict (a : Index)
  | isEvicted (a : Index)
  | content (a : Index)
  | iterate (a : Index) (steps : Nat)
  | sizeOf (a : Index)
  | isEmpty (a : Index)
  | contains (a : Index) (key : K)
  | findKey (a : Index) (key : K)
  | inclusion (a b : Index)
  | setText (a : Index)
  | size
  | config
  | dump
  | statistics
  | activities

/-- A set that a command produced: its index, its text unless it is evicted, and
the number of sets in the forest afterwards. -/
structure Produced where
  index : Index
  text : Option String
  size : Nat
deriving DecidableEq, Repr

/-- The answer to a command. -/
inductive Answer (K : Type) where
  | registered (produced : Produced) (cold : Bool)
  | computed (produced : Produced)
  | filtered (produced : Produced) (calls cached : Nat)
  | done
  | index (value : Index)
  | flag (value : Bool)
  | number (value : Nat)
  | content (value : Content K)
  /-- The elements that an iteration has passed, and those that it has left. -/
  | iteration (passed left : Content K)
  | element (value : Option (Element K))
  | inclusion (value : Option Inclusion)
  | text (value : String)
  | config (value : Config)
  | statistics (value : Statistics)
  | activities (value : List Activity)
deriving DecidableEq, Repr

/-- A family of forests with the filter caches of every strategy by name. -/
structure Session (K : Type) [Key K] (n : Nat) where
  family : Family K n
  unsharedCaches : Table String FilterCache
  lockedCaches : Table String FilterCache
  concurrentCaches : Table String FilterCache

/-- An action on a session.  A failure keeps the state that it was reached in. -/
abbrev SessionM (K : Type) [Key K] (n : Nat) := ExceptT Error (StateM (Session K n))

namespace Session

variable {K : Type} [Key K] {n : Nat} {α : Type}

/-- A session without caches. -/
def start (family : Family K n) : Session K n :=
  ⟨family, .empty, .empty, .empty⟩

/-- The caches of a strategy by name. -/
def caches (session : Session K n) : Strategy → Table String FilterCache
  | .unshared => session.unsharedCaches
  | .locked => session.lockedCaches
  | .concurrent => session.concurrentCaches

/-- The cache of a name.  A name that was never used has an empty cache. -/
def cache (session : Session K n) (strategy : Strategy) (name : String) : FilterCache :=
  ((session.caches strategy).lookup name).getD .empty

/-- Keep a cache under its name. -/
def keepCache (session : Session K n) (strategy : Strategy) (name : String)
    (cache : FilterCache) : Session K n :=
  match strategy with
  | .unshared => { session with unsharedCaches := session.unsharedCaches.store name cache }
  | .locked => { session with lockedCaches := session.lockedCaches.store name cache }
  | .concurrent => { session with concurrentCaches := session.concurrentCaches.store name cache }

/-- Act on the family of a session. -/
def onFamily (action : FamilyM K n α) : SessionM K n α := fun session =>
  let (answer, family) := action session.family
  (answer, { session with family })

/-- Filter a set with the cache of a name. -/
def filter (position : Fin n) (a : Index) (predicate : Element K → Bool) (name : String) :
    SessionM K n Filtered := do
  let strategy ← onFamily (Family.reading (fun forest => .ok forest.strategy) position)
  let cache := (← get).cache strategy name
  let filtered ← onFamily (Family.within (Forest.filter a predicate cache) position)
  modify (keepCache · strategy name filtered.cache)
  return filtered

variable [ToString K]

/-- Describe a set that was just produced. -/
def produced (position : Fin n) (index : Index) : SessionM K n Produced :=
  onFamily (Family.reading
    (fun forest => .ok ⟨index, (forest.setText index).toOption, forest.size⟩) position)

/-- Carry out a command on the forest at a position. -/
def step (position : Fin n) : Command K → SessionM K n (Answer K)
  | .registerSet content => do
    let registered ← onFamily (Family.within (Forest.registerSet content) position)
    return .registered (← produced position registered.index) registered.cold
  | .registerUnordered elements => do
    let registered ← onFamily (Family.within (Forest.registerUnordered elements) position)
    return .registered (← produced position registered.index) registered.cold
  | .registerSingle element => do
    let registered ←
      onFamily (Family.within (ExceptT.lift (Forest.registerSingle element)) position)
    return .registered (← produced position registered.index) registered.cold
  | .apply operation a b => do
    return .computed (← produced position (← onFamily (Family.apply operation position a b)))
  | .insertSingle a element => do
    return .computed (← produced position (← onFamily (Family.insertSingle position a element)))
  | .removeSingle a element => do
    return .computed (← produced position (← onFamily (Family.removeSingle position a element)))
  | .updateKey a element => do
    let index ← onFamily (Family.within (Forest.updateKey a element) position)
    return .computed (← produced position index)
  | .removeKey a key => do
    let index ← onFamily (Family.within (Forest.removeKey a key) position)
    return .computed (← produced position index)
  | .filter a predicate name => do
    let filtered ← filter position a predicate name
    return .filtered (← produced position filtered.index) filtered.calls filtered.cache.size
  | .evict a => do
    onFamily (Family.within (Forest.evict a) position)
    return .done
  | .nestedOf a key child => observe fun forest => return .index (← forest.nestedOf a key child)
  | .isEvicted a => observe fun forest => return .flag (← forest.isEvicted a)
  | .content a => observe fun forest => return .content (← forest.content a)
  | .iterate a steps => observe fun forest => do
    let content ← forest.content a
    return .iteration (content.take steps) (content.drop steps)
  | .sizeOf a => observe fun forest => return .number (← forest.sizeOf a)
  | .isEmpty a => return .flag (a = Index.empty)
  | .contains a key => observe fun forest => return .flag (← forest.contains a key)
  | .findKey a key => observe fun forest => return .element (← forest.findKey a key)
  | .inclusion a b => observe fun forest => return .inclusion (← forest.inclusion a b)
  | .setText a => observe fun forest => return .text (← forest.setText a)
  | .size => observe fun forest => return .number forest.size
  | .config => observe fun forest => return .config forest.config
  | .dump => observe fun forest => return .text forest.dump
  | .statistics => observe fun forest => return .statistics forest.statistics
  | .activities => observe fun forest => return .activities forest.activities
where
  /-- Answer from the state of the forest, which stays as it is. -/
  observe (read : {m : Nat} → Forest K m → Except Error (Answer K)) : SessionM K n (Answer K) :=
    onFamily (Family.reading read position)

/-- Carry out commands in turn.  Each has its own answer or failure. -/
def run (session : Session K n) (commands : List (Fin n × Command K)) :
    List (Except Error (Answer K)) × Session K n :=
  let stepped (addressed : Fin n × Command K) : StateM (Session K n) (Except Error (Answer K)) :=
    ExceptT.run (step addressed.1 addressed.2)
  (commands.mapM stepped).run session

end Session

end SetForest
