import SetForest.Proofs.Family.Planting
import SetForest.Proofs.Session.Run

namespace SetForest

/-!
# Storage over whole runs

An arena is described by the contents that it has received.  `Arena.Faithful`
says what it has to answer after any history of interning and evicting, in terms
of that list alone.  Since a forest only interns and evicts, the same holds for
the forests of a session at any time, whatever commands were given.
-/

/-! ## Arenas -/

/-- An arena keeps what it has received.  Each content has the place of its first
appearance for its index, and can be read there unless it was evicted. -/
structure Arena.Faithful {E : Type} [Key E] [DecidableEq E] (arena : Arena E)
    (received : List (List E)) : Prop where
  size : arena.size = received.eraseDups.length
  index : ∀ content, (arena.intern content).1.1 = received.eraseDups.idxOf content
  cold_iff : ∀ content, (arena.intern content).1.2 = .cold ↔ content ∉ received
  restored_iff : ∀ content, (arena.intern content).1.2 = .restored ↔
    content ∈ received ∧ arena.isEvicted (received.eraseDups.idxOf content) = .ok true
  hit_iff : ∀ content, (arena.intern content).1.2 = .hit ↔
    content ∈ received ∧ arena.isEvicted (received.eraseDups.idxOf content) = .ok false
  get : ∀ index content, received.eraseDups[index]? = some content →
    arena.get index = .ok content ∨ arena.get index = .error (.evicted index)
  get_beyond : ∀ index, arena.size ≤ index →
    arena.get index = .error (.outOfRange index arena.size)
  get_intern : ∀ content, (arena.intern content).2.get (arena.intern content).1.1 = .ok content

namespace Arena

variable {E : Type} [Key E]

theorem Records.faithful [DecidableEq E] {arena : Arena E} {received : List (List E)}
    (records : arena.Records received) : arena.Faithful received where
  size := records.size
  index := records.intern_index
  cold_iff := records.intern_cold_iff
  restored_iff := records.intern_restored_iff
  hit_iff := records.intern_hit_iff
  get := fun _ _ => records.get_of_getElem?
  get_beyond := fun _ => records.canonical.get_of_le
  get_intern := records.canonical.get_interned

end Arena

/-! ## Forests -/

namespace Forest

variable {K : Type} [Key K] {n : Nat} {forest : Forest K n}

/-- An index in use reads as the content that it stands for, or as evicted. -/
theorem exists_reading (canonical : forest.sets.Canonical) {index : Index}
    (inUse : index < forest.size) : ∃ content, forest.Denotes index content ∧
      (forest.content index = .ok content ∨ forest.content index = .error (.evicted index)) := by
  rcases canonical.exists_denotes inUse with ⟨content, denotes⟩
  refine ⟨content, denotes, ?_⟩
  rw [Forest.content, Forest.checkIndex, if_pos inUse]
  exact canonical.get_of_denotes denotes

end Forest

namespace Session

variable {K : Type} [Key K] [ToString K] {n : Nat} {specs : List Spec} {family : Family K n}
  {session : Session K n}

/-- The storage of every forest that a session reaches is canonical, and index
zero is the empty set. -/
theorem canonical_run (planted : Family.ofSpecs? specs = some ⟨n, family⟩)
    (starts : session.family = family) (commands : List (Fin n × Command K)) (position : Fin n) :
    ((session.run commands).2.family.forestAt position).sets.Canonical ∧
      ((session.run commands).2.family.forestAt position).Denotes Index.empty [] := by
  have evolves := (session.evolves_run commands).forestAt position
  have sound := (Family.sound_ofSpecs? planted).forestAt position
  rw [starts] at evolves
  rcases evolves.sets with ⟨calls, performed⟩
  refine ⟨?_, evolves.denotes sound.canonical sound.empty⟩
  rw [performed]
  exact sound.canonical.performAll calls

end Session

/-- Storage is canonical over whole runs.  After any calls an arena of any kind is
faithful to what it has received.  Two interned contents have one index if and
only if they are equal, however far apart the calls are, and from then on the
index reads as that content or as evicted.  In the forests of a session, which
any commands may have been given to, equality of indices is equality of sets, and
index zero alone is the empty set. -/
theorem storage_canonical :
    (∀ (E : Type) [Key E] [DecidableEq E] (strategy : Strategy) (blockSize : Nat)
      (calls : List (Arena.Call E)),
      ((Arena.create strategy blockSize).performAll calls).Faithful (Arena.received calls)) ∧
    (∀ (E : Type) [Key E] (strategy : Strategy) (blockSize : Nat)
      (before between : List (Arena.Call E)) (first second : List E),
      let arena := (Arena.create strategy blockSize).performAll before
      let index := (arena.intern first).1.1
      let later := (arena.intern first).2.performAll between
      ((later.intern second).1.1 = index ↔ second = first) ∧
        (later.get index = .ok first ∨ later.get index = .error (.evicted index))) ∧
    (∀ (K : Type) [Key K] [ToString K] (n : Nat) (specs : List Spec) (family : Family K n)
      (session : Session K n) (commands : List (Fin n × Command K)) (position : Fin n),
      Family.ofSpecs? specs = some ⟨n, family⟩ → session.family = family →
      let forest := (session.run commands).2.family.forestAt position
      (∀ index, index < forest.size → ∃ content, forest.Denotes index content ∧
        (forest.content index = .ok content ∨ forest.content index = .error (.evicted index))) ∧
      (∀ a b left right, forest.Denotes a left → forest.Denotes b right →
        (a = b ↔ left = right) ∧
        (left.Increasing → right.Increasing →
          (a = b ↔ ∀ element, element ∈ left ↔ element ∈ right))) ∧
      (∀ a, forest.Denotes a [] ↔ a = Index.empty)) := by
  refine ⟨?_, ?_, ?_⟩
  · intro E _ _ strategy blockSize calls
    exact (Arena.records_performAll strategy blockSize calls).faithful
  · intro E _ strategy blockSize before between first second
    have canonical : ((Arena.create strategy blockSize).performAll before : Arena E).Canonical :=
      (Arena.canonical_create strategy blockSize).performAll before
    have stored := canonical.intern first
    have denotes := stored.denotes_performAll (canonical.denotes_interned first) between
    exact ⟨canonical.intern_index_eq_iff first second between,
      (stored.performAll between).get_of_denotes denotes⟩
  · intro K _ _ n specs family session commands position planted starts
    rcases Session.canonical_run planted starts commands position with ⟨canonical, empty⟩
    refine ⟨fun index inUse => Forest.exists_reading canonical inUse, ?_, ?_⟩
    · intro a b left right denotesLeft denotesRight
      have sameList := Forest.index_eq_iff canonical denotesLeft denotesRight
      refine ⟨sameList, ?_⟩
      intro leftIncreasing rightIncreasing
      rw [sameList]
      constructor
      · rintro rfl element
        exact Iff.rfl
      · exact Content.ext_mem leftIncreasing rightIncreasing
    · intro a
      constructor
      · intro denotes
        exact Forest.WellStored.index_unique denotes empty
      · rintro rfl
        exact empty

/-- Two sets of a session, one of which was evicted and registered again. -/
theorem storage_canonical_restored :
    let start := Session.start (Family.single {} .unshared : Family Nat 1)
    let commands := [(0, .registerSingle (.flat 5)), (0, .registerSingle (.flat 7)),
      (0, .evict 1), (0, .registerSingle (.flat 5))]
    let forest := (start.run commands).2.family.forestAt 0
    forest.Denotes 1 [.flat 5] ∧ forest.Denotes 2 [.flat 7] ∧
      (∃ content, forest.Denotes 1 content ∧
        (forest.content 1 = .ok content ∨ forest.content 1 = .error (.evicted 1))) ∧
      ((1 : Index) = 2 ↔ ∀ element, element ∈ [Element.flat 5] ↔ element ∈ [Element.flat 7]) := by
  intro start commands forest
  rcases storage_canonical.2.2 Nat 1 [{}] start.family start commands 0 rfl rfl with
    ⟨read, equal, _⟩
  have first : forest.sets.indices.lookup [.flat 5] = some 1 := by decide +kernel
  have second : forest.sets.indices.lookup [.flat 7] = some 2 := by decide +kernel
  exact ⟨first, second, read 1 (by decide +kernel), (equal 1 2 _ _ first second).2
    (Content.increasing_singleton _) (Content.increasing_singleton _)⟩

end SetForest
