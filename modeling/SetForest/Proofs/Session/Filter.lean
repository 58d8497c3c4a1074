import SetForest.Proofs.Forest.Filter
import SetForest.Proofs.Session.Caches
import SetForest.Proofs.Session.Resident

namespace SetForest

/-!
# Filtering in reached states

A cache lives outside of the forests and survives all that is done to them.  The sets that
it knows, and the results that it holds, may be evicted in any order.  As long as it is
reserved for one forest and one predicate, what it holds stays right, and so does every
answer that is drawn from it.

A cache that is used for several predicates or forests answers with what it happens to
hold.  What the forests remember and file is true nevertheless, because a filtering files
a part only after it has sifted it from its set.
-/

open SetForest.Action

variable {K : Type} [Key K] [ToString K] {n : Nat} {specs : List Spec} {family : Family K n}
  {session reached after : Session K n} {position other : Fin n} {name : String} {a : Index}
  {filtered : Filtered}

namespace Session

/-- A filtering is a step, as far as the state is concerned. -/
theorem evolves_filter (session : Session K n) (position : Fin n) (a : Index)
    (predicate : Element K → Bool) (name : String) :
    session.family.Evolves (filter position a predicate name session).2.family := by
  rw [← step_filter_snd]
  exact session.evolves_step position _

/-- What was answered for a set that is not empty is answered again, whatever the forest and
the predicate are, if the index is that of a resident set there. -/
theorem filter_misused {p q : Element K → Bool}
    (canonical : (session.family.forestAt position).sets.Canonical)
    (shared : (session.family.forestAt other).strategy =
      (session.family.forestAt position).strategy) (notEmpty : a ≠ Index.empty)
    (answered : filter other a p name session = (.ok filtered, after))
    (inUse : a < (after.family.forestAt position).size)
    (resident : (after.family.forestAt position).isEvicted filtered.index = .ok false) :
    ∃ last, filter position a q name after =
      (.ok ⟨filtered.index, 0, filtered.cache⟩, last) := by
  have evolves := session.evolves_filter other a p name
  have first := session.filter_forest other a p name
  have kept := session.cache_filter other a p name
    (session.family.forestAt position).strategy name
  rw [answered] at evolves first kept
  dsimp only at kept
  rw [if_pos ⟨shared, rfl⟩] at kept
  have second := after.filter_forest position a q name
  rw [(evolves.forestAt position).strategy, kept,
    Forest.filter_cached ((evolves.forestAt position).canonical canonical) inUse notEmpty
      (Forest.lookup_filter notEmpty first) resident] at second
  exact ⟨_, Prod.fst_eq_iff.mp (congrArg Prod.fst second).symm⟩

/-- A cache that has served one predicate answers a second one with the result of the
first. -/
theorem filter_misled {content : Content K} {p q : Element K → Bool}
    (canonical : (session.family.forestAt position).sets.Canonical)
    (read : (session.family.forestAt position).content a = .ok content)
    (notCached : (session.cache (session.family.forestAt position).strategy name).lookup a = none)
    (differ : content.filter p ≠ content.filter q)
    (empty : (session.family.forestAt position).Denotes Index.empty []) :
    ∃ filtered after last, filter position a p name session = (.ok filtered, after) ∧
      filter position a q name after = (.ok ⟨filtered.index, 0, filtered.cache⟩, last) ∧
      ¬(last.family.forestAt position).Denotes filtered.index (content.filter q) := by
  have denotes := Forest.denotes_of_content canonical read
  have notEmpty : a ≠ Index.empty := by
    rintro rfl
    rcases canonical.unique denotes empty with rfl
    exact differ rfl
  rcases Forest.exists_filter_of_not_cached canonical read notEmpty notCached with
    ⟨filtered, later, sifted, readLater⟩
  have first := session.filter_forest position a p name
  have evolves := session.evolves_filter position a p name
  rw [sifted] at first
  have answered : filter position a p name session =
      (.ok filtered, (filter position a p name session).2) :=
    Prod.fst_eq_iff.mp (congrArg Prod.fst first).symm
  rw [answered] at first evolves
  cases first
  have canonicalLater := (evolves.forestAt position).canonical canonical
  have inUse := canonicalLater.lt_size ((evolves.forestAt position).denotes canonical denotes)
  rcases filter_misused canonical rfl notEmpty answered inUse
    (Forest.isEvicted_eq_false_iff.mpr ⟨_, readLater⟩) with ⟨last, misled⟩
  refine ⟨filtered, _, last, answered, misled, ?_⟩
  intro wrong
  have further := (evolves_filter (filter position a p name session).2 position a q name)
  rw [misled] at further
  have right := (further.forestAt position).denotes canonicalLater
    (Forest.denotes_of_content canonicalLater readLater)
  exact differ (((further.forestAt position).canonical canonicalLater).unique right wrong)

end Session

/-- Filtering is exact in every state that a session reaches.  If the cache was empty at
first and is reserved for one forest and one predicate, an answer is the index of the
elements that satisfy the predicate, and it can be read afterwards.  The predicate is
consulted once for each element, or not at all if the answer was at hand.  A filtering is
refused only if its set was never handed out, or was evicted without an answer at hand.
The cache maps sets to their results, and goes on to do so.

A cache that is not reserved answers what it has answered before, for other predicates and
in other forests, so that its answers may be wrong.  What is remembered and filed in a
forest is true, however the caches were used and whatever they held at first. -/
theorem filter_exact (planted : Family.ofSpecs? specs = some ⟨n, family⟩)
    (starts : session.family = family) {commands : List (Fin n × Command K)}
    (reaches : (session.run commands).2 = reached) (position : Fin n) (name : String) :
    let forest := reached.family.forestAt position
    let cache := reached.cache forest.strategy name
    (∀ predicate : Element K → Bool, session.cache forest.strategy name = .empty →
      Session.Reserves family position name (· = predicate) commands →
      (∀ a filtered after,
        Session.filter position a predicate name reached = (.ok filtered, after) →
        ∃ content, forest.Denotes a content ∧
          (after.family.forestAt position).content filtered.index =
            .ok (content.filter predicate) ∧
          (forest.AtHand cache a ∧ filtered.calls = 0 ∨
            ¬forest.AtHand cache a ∧ filtered.calls = content.length)) ∧
      (∀ a error after,
        Session.filter position a predicate name reached = (.error error, after) →
        (forest.size ≤ a ∧ error = .outOfRange a forest.size) ∨
          (forest.isEvicted a = .ok true ∧ ¬forest.AtHand cache a ∧ error = .evicted a)) ∧
      ∀ a r, cache.lookup a = some r →
        (∃ content, forest.Denotes a content ∧ forest.Denotes r (content.filter predicate)) ∧
        ∀ more, Session.Reserves family position name (· = predicate) more →
          ((reached.run more).2.cache forest.strategy name).lookup a = some r) ∧
    (∀ other a p q filtered after,
      (reached.family.forestAt other).strategy = forest.strategy → a ≠ Index.empty →
      Session.filter other a p name reached = (.ok filtered, after) →
      a < (after.family.forestAt position).size →
      (after.family.forestAt position).isEvicted filtered.index = .ok false →
      ∃ last, Session.filter position a q name after =
        (.ok ⟨filtered.index, 0, filtered.cache⟩, last)) ∧
    (∀ a content, ∀ p q : Element K → Bool, forest.content a = .ok content →
      cache.lookup a = none → content.filter p ≠ content.filter q →
      ∃ filtered after last, Session.filter position a p name reached = (.ok filtered, after) ∧
        Session.filter position a q name after =
          (.ok ⟨filtered.index, 0, filtered.cache⟩, last) ∧
        ¬(last.family.forestAt position).Denotes filtered.index (content.filter q)) ∧
    ((∀ command ∈ commands, command.2.Fits (family.forestAt command.1)) →
      (∀ operation pair r, (forest.memo operation).lookup pair = some r →
        (reached.family.meaning position).Answers operation pair.left pair.right r) ∧
      ∀ a b relation, forest.filedInclusion a b = some relation →
        (reached.family.meaning position).Relates relation a b) := by
  subst reaches
  intro forest cache
  have dependable : forest.Dependable := Session.dependable_run planted starts commands position
  have canonical := dependable.canonical
  refine ⟨?_, ?_, ?_, ?_⟩
  · intro predicate unused reserves
    have evolves := session.evolves_run commands
    subst family
    have holds : forest.CacheHolds (· = predicate) cache :=
      Session.cacheHolds_of_empty ((evolves.forestAt position).strategy ▸ unused)
        (Session.dependable_run planted rfl [] position).canonical reserves
    refine ⟨?_, ?_, ?_⟩
    · intro a filtered after answered
      have sifted := (session.run commands).2.filter_forest position a predicate name
      rw [answered] at sifted
      exact holds.answers_filter dependable sifted
    · intro a error after refused
      have sifted := (session.run commands).2.filter_forest position a predicate name
      rw [refused] at sifted
      exact holds.refuses_filter dependable sifted
    · intro a r found
      rcases holds a r found with ⟨content, _, rfl, denotes, denotesResult⟩
      refine ⟨⟨content, denotes, denotesResult⟩, ?_⟩
      intro more reservesMore
      exact Session.lookup_eq_run holds canonical (reservesMore.congr evolves) found
  · intro other a p q filtered after shared notEmpty answered inUse resident
    exact Session.filter_misused canonical shared notEmpty answered inUse resident
  · intro a content p q read notCached differ
    exact Session.filter_misled canonical read notCached differ
      (canonical.denotes_of_get dependable.empty)
  · intro fits
    rcases Session.sound_of_planted planted starts fits with ⟨sound, -⟩
    rw [Family.meaning_eq]
    exact ⟨(sound.forestAt position).remembered, (sound.forestAt position).filed⟩

/-- A cached result is sifted once more after it was evicted, and refused after its set was
evicted as well.  To another predicate, the cache gives the same wrong answer. -/
theorem filter_exact_evicted :
    let small (element : Element Nat) : Bool := element.key < 6
    let start := Session.start (Family.single {} .unshared : Family Nat 1)
    let commands := [(0, .registerSet [.flat 5, .flat 7]), (0, .filter 1 small "small"),
      (0, .evict 2)]
    let reached := (start.run commands).2
    let lost := (start.run (commands ++ [(0, .evict 1)])).2
    (∃ filtered after content, Session.filter 0 1 small "small" reached = (.ok filtered, after) ∧
      (filtered.index, filtered.calls) = (2, 2) ∧ (reached.family.forestAt 0).Denotes 1 content ∧
      (after.family.forestAt 0).content filtered.index = .ok (content.filter small)) ∧
    (∃ after, Session.filter 0 1 small "small" lost = (.error (.evicted 1), after) ∧
      ¬(lost.family.forestAt 0).AtHand
        (lost.cache (lost.family.forestAt 0).strategy "small") 1) ∧
    ∃ filtered after last,
      Session.filter 0 1 small "other" reached = (.ok filtered, after) ∧
      Session.filter 0 1 (fun element => !small element) "other" after =
        (.ok ⟨filtered.index, 0, filtered.cache⟩, last) ∧
      ¬(last.family.forestAt 0).Denotes filtered.index
        (List.filter (fun element => !small element) [.flat 5, .flat 7]) := by
  intro small start commands reached lost
  have planted : Family.ofSpecs? [{}] = some ⟨1, start.family⟩ := rfl
  have reserves : Session.Reserves start.family 0 "small" (· = small)
      (commands ++ [(0, .evict 1)]) := by
    intro other a predicate member _
    simp only [commands, List.mem_append, List.mem_cons, Prod.mk.injEq, reduceCtorEq,
      Command.filter.injEq, and_false, false_or, or_false, List.not_mem_nil] at member
    exact ⟨member.1, member.2.2.1⟩
  have reservesBefore : Session.Reserves start.family 0 "small" (· = small) commands :=
    fun other a predicate member => reserves other a predicate (List.mem_append_left _ member)
  refine ⟨?_, ?_, ?_⟩
  · rcases (filter_exact planted rfl (Eq.refl reached) 0 "small").1 small
      (Session.cache_start _ _ _) reservesBefore with ⟨exact, -, -⟩
    have answers : (Session.filter 0 1 small "small" reached).1.map
        (fun filtered => (filtered.index, filtered.calls)) = .ok (2, 2) := by decide +kernel
    rcases outcome : Session.filter 0 1 small "small" reached with ⟨error | filtered, after⟩
    · rw [outcome] at answers
      cases answers
    · rw [outcome] at answers
      rcases exact 1 filtered after outcome with ⟨content, denotes, read, -⟩
      exact ⟨filtered, after, content, rfl, Except.ok.inj answers, denotes, read⟩
  · rcases (filter_exact planted rfl (Eq.refl lost) 0 "small").1 small
      (Session.cache_start _ _ _) reserves with ⟨-, refuses, -⟩
    have fails : (Session.filter 0 1 small "small" lost).1.isOk = false := by decide +kernel
    rcases outcome : Session.filter 0 1 small "small" lost with ⟨error | filtered, after⟩
    · rcases refuses 1 error after outcome with ⟨outside, -⟩ | ⟨-, notAtHand, rfl⟩
      · exact absurd outside (by decide +kernel)
      · exact ⟨after, rfl, notAtHand⟩
    · rw [outcome] at fails
      cases fails
  · rcases filter_exact planted rfl (Eq.refl reached) 0 "other" with ⟨-, -, misled, -⟩
    have read : (reached.family.forestAt 0).content 1 = .ok [.flat 5, .flat 7] := by decide +kernel
    have notCached : (reached.cache (reached.family.forestAt 0).strategy "other").lookup 1 =
        none := by decide +kernel
    exact misled 1 _ small (fun element => !small element) read notCached (by decide +kernel)

end SetForest
