import SetForest.Proofs.Family.Terms
import SetForest.Proofs.Session.Lattice
import SetForest.Proofs.Session.Similar

namespace SetForest

/-!
# The laws of a distributive lattice in reached states

A session that evicts nothing keeps all its sets, so every term over grounded indices
can be evaluated in the state that it reaches.  The two sides of a law then have the
same value.  It does not matter in which order the calls of a law are made, and what
is asked in between.  What a call has answered is still right in the last state, and
there the laws hold.

An index is grounded if it is in use, as are the children of its elements and so on below.
If that can be said of the children of all stored elements, a law needs no more of its
operands than that they are in use (`Session.evaluate_laws_of_closed`).
-/

variable {K : Type} [Key K] {n : Nat} {specs : List Spec} {family : Family K n}

namespace Session

open SetForest.Action

variable [ToString K]

/-- A command that does not evict leaves everything readable. -/
theorem intact_step (session : Session K n) (sound : session.family.Sound)
    (intact : session.family.Intact) (position : Fin n) (command : Command K)
    (evictsNot : ∀ a, command ≠ .evict a) : (step position command session).2.family.Intact := by
  let strategies (position : Fin n) : Strategy := (session.family.forestAt position).strategy
  let everyName (_ : Fin n) (_ : String) : Prop := True
  have similar : Similar (.intact (Element K)) everyName strategies strategies session session :=
    ⟨sound.similar_self intact, fun _ _ _ => rfl⟩
  have agree : ∀ x y : Arena (Element K), (Resemblance.intact (Element K)).alike x y →
      ∀ index, x.isEvicted index = y.isEvicted index :=
    fun _ _ alike => Arena.isEvicted_congr alike.1.2.2
  have plainly : command.Plain → (step position command session).2.family.Intact := by
    intro plain
    have stepped := lockstep_step similar (fun _ _ _ _ _ => Iff.rfl) position command plain
      (fun _ _ _ _ => trivial) rfl rfl
      (Command.inStep_of_agree similar.family agree position _ command)
    exact (stepped.eq_of_alike (fun _ excused => excused.1 trivial)
      fun _ _ alike => alike.eq).2.family.intact
  have asking : command.Asks → (step position command session).2.family.Intact := by
    intro asks
    rw [session.step_of_asks position asks]
    exact intact
  cases command with
  | evict a => exact absurd rfl (evictsNot a)
  | isEvicted a => exact asking trivial
  | dump => exact asking trivial
  | statistics => exact asking trivial
  | _ => exact plainly trivial

/-- A run that does not evict leaves everything readable. -/
theorem intact_run (session : Session K n) (sound : session.family.Sound)
    (intact : session.family.Intact) (commands : List (Fin n × Command K))
    (fits : ∀ command ∈ commands, command.2.Fits (session.family.forestAt command.1))
    (evictsNot : ∀ command ∈ commands, ∀ a, command.2 ≠ .evict a) :
    (session.run commands).2.family.Intact := by
  induction commands generalizing session with
  | nil => exact intact
  | cons first rest ih =>
      rw [run_cons]
      have atFirst := fits first List.mem_cons_self
      exact ih _ (session.sound_step first.1 first.2 sound atFirst).1
        (session.intact_step sound intact first.1 first.2 (evictsNot first List.mem_cons_self))
        (fits_rest sound fits)
        (fun command member => evictsNot command (List.mem_cons_of_mem first member))

/-- A call of a lattice operation that was answered. -/
def Called (transcript : List ((Fin n × Command K) × Except Error (Answer K))) (position : Fin n)
    (operation : Operation) (a b r : Index) : Prop :=
  ∃ produced, ((position, Command.apply operation a b), .ok (.computed produced)) ∈ transcript ∧
    produced.index = r

/-- A call is found by its place among the commands of a run. -/
theorem called_of_getElem? {session : Session K n} {commands : List (Fin n × Command K)}
    {position : Fin n} {operation : Operation} {a b : Index} (place : Nat) (produced : Produced)
    (asked : commands[place]? = some (position, .apply operation a b))
    (answered : (session.run commands).1[place]? = some (.ok (.computed produced))) :
    Called (session.transcript commands) position operation a b produced.index :=
  ⟨produced, mem_transcript_of_getElem? place asked answered, rfl⟩

/-- What a call has answered in a run is right in the last state. -/
theorem determines_of_called (session : Session K n) (sound : session.family.Sound)
    (commands : List (Fin n × Command K))
    (fits : ∀ command ∈ commands, command.2.Fits (session.family.forestAt command.1))
    {position : Fin n} {operation : Operation} {a b r : Index}
    (called : Called (session.transcript commands) position operation a b r) :
    ((session.run commands).2.family.meaning position).Determines operation a b r := by
  rcases called with ⟨produced, member, rfl⟩
  rcases exists_of_mem_transcript member with ⟨before, after, rfl, answered⟩
  rcases List.forall_mem_append.mp fits with ⟨fitsBefore, fitsRest⟩
  rcases List.forall_mem_cons.mp fitsRest with ⟨-, fitsAfter⟩
  rcases session.sound_run before sound fitsBefore with ⟨soundBefore, toBefore⟩
  rcases exists_of_computed answered with ⟨later, applied, same⟩
  rcases soundBefore.contents_of_apply applied with ⟨soundLater, toLater, determines, -⟩
  rw [run_append, run_cons]
  rw [← same] at soundLater toLater determines
  have further := sound_run _ after soundLater
    (Command.fits_of_extends (toBefore.trans toLater) fitsAfter)
  exact (further.2.meaning_le position).determines determines

end Session

variable [ToString K] {session reached : Session K n}

/-- In a session that evicts nothing, all that a law needs of its operands is that they are
in use, provided that the children of all stored elements are. -/
theorem Session.evaluate_laws_of_closed
    (planted : Family.ofSpecs? specs = some ⟨n, session.family⟩)
    {commands : List (Fin n × Command K)}
    (fits : ∀ command ∈ commands, command.2.Fits (session.family.forestAt command.1))
    (evictsNot : ∀ command ∈ commands, ∀ a, command.2 ≠ .evict a)
    (reaches : (session.run commands).2 = reached) {position : Fin n}
    (closed : reached.family.Closed position) {a b c : Index}
    (inUse : ∀ index ∈ [a, b, c], index < (reached.family.forestAt position).size)
    {law : Term × Term} (isLaw : law ∈ Term.laws (.index a) (.index b) (.index c)) :
    ∃ r later last, law.1.evaluate position reached.family = (.ok r, later) ∧
      law.2.evaluate position later = (.ok r, last) := by
  subst reached
  have started := Family.sound_ofSpecs? planted
  have sound := (session.sound_run commands started fits).1
  have intact := session.intact_run started (Family.intact_ofSpecs? planted) commands fits evictsNot
  have grounded := fun index member => sound.grounded_of_closed closed (inUse index member)
  exact sound.evaluate_laws intact (grounded a (by simp)) (grounded b (by simp))
    (grounded c (by simp)) isLaw

/-- Union and intersection have the laws of a distributive lattice with the empty set
as its least element, in forests of any depth.  A session that evicts nothing has
reached some state.  Then every operation on grounded sets has an answer.  The two
sides of a law can be evaluated one after the other and have the same value.  They
also have the same value if their calls are made in any order, by a session that goes
on from there and may do anything else in between. -/
theorem lattice_laws (planted : Family.ofSpecs? specs = some ⟨n, family⟩)
    (starts : session.family = family) {commands : List (Fin n × Command K)}
    (fits : ∀ command ∈ commands, command.2.Fits (family.forestAt command.1))
    (evictsNot : ∀ command ∈ commands, ∀ a, command.2 ≠ .evict a)
    (reaches : (session.run commands).2 = reached) (position : Fin n) :
    (∀ operation a b, reached.family.Grounded position a → reached.family.Grounded position b →
      ∃ r later, Family.apply operation position a b reached.family = (.ok r, later) ∧
        later.Grounded position r) ∧
    ∀ a b c, reached.family.Grounded position a → reached.family.Grounded position b →
      reached.family.Grounded position c →
      ∀ law ∈ Term.laws (.index a) (.index b) (.index c),
        (∃ r later last, law.1.evaluate position reached.family = (.ok r, later) ∧
          law.2.evaluate position later = (.ok r, last)) ∧
        ∀ more : List (Fin n × Command K),
          (∀ command ∈ more, command.2.Fits (family.forestAt command.1)) →
          ∀ x y, law.1.Evaluates (Session.Called (reached.transcript more) position) x →
            law.2.Evaluates (Session.Called (reached.transcript more) position) y → x = y := by
  subst family reached
  have sound := (session.sound_run commands (Family.sound_ofSpecs? planted) fits).1
  have extension := (session.sound_run commands (Family.sound_ofSpecs? planted) fits).2
  have intact := session.intact_run (Family.sound_ofSpecs? planted)
    (Family.intact_ofSpecs? planted) commands fits evictsNot
  refine ⟨?_, ?_⟩
  · intro operation a b aGrounded bGrounded
    rcases sound.exists_apply operation (aGrounded.resident intact) (bGrounded.resident intact) with
      ⟨r, later, answered⟩
    rcases sound.contents_of_apply answered with ⟨soundLater, further, determines, -⟩
    exact ⟨r, later, answered, soundLater.keeps_grounded position operation a b r
      determines.answers (aGrounded.mono further) (bGrounded.mono further)⟩
  · intro a b c aGrounded bGrounded cGrounded law isLaw
    refine ⟨sound.evaluate_laws intact aGrounded bGrounded cGrounded isLaw, ?_⟩
    intro more moreFits x y firstValue secondValue
    have fitsHere := Command.fits_of_extends extension moreFits
    rcases Session.sound_run _ more sound fitsHere with ⟨soundLast, toLast⟩
    have right : ∀ operation a b r,
        Session.Called ((session.run commands).2.transcript more) position operation a b r →
        (((session.run commands).2.run more).2.family.meaning position).Answers operation a b r :=
      fun _ _ _ _ called => (Session.determines_of_called _ sound more fitsHere called).answers
    exact soundLast.laws (aGrounded.mono toLast) (bGrounded.mono toLast) (cGrounded.mono toLast)
      isLaw (firstValue.mono right) (secondValue.mono right)

/-- The law of distribution for three maps over a forest of numbers, two of which share
a key, with its two sides evaluated in turn, and with their calls mixed. -/
theorem lattice_laws_distribution :
    let below : Family Nat 1 := .single {} .unshared
    let start : Session Nat 2 := .start (below.plant (Forest.create {} .unshared [0]))
    let commands := [(0, .registerSingle (.flat 5)), (0, .registerSingle (.flat 7)),
      (1, .registerSingle ⟨1, [1]⟩), (1, .registerSingle ⟨1, [2]⟩), (1, .registerSingle ⟨2, [2]⟩)]
    let reached := (start.run commands).2
    let more := [(1, .apply .intersection 1 2), (1, .apply .union 2 3),
      (1, .apply .intersection 1 3), (1, .apply .union 4 0), (1, .apply .intersection 1 5)]
    let left := (Term.index 1).intersection ((Term.index 2).union (.index 3))
    let right := ((Term.index 1).intersection (.index 2)).union
      ((Term.index 1).intersection (.index 3))
    (∃ r later last, left.evaluate 1 reached.family = (.ok r, later) ∧
      right.evaluate 1 later = (.ok r, last)) ∧
    ∃ x y, left.Evaluates (Session.Called (reached.transcript more) 1) x ∧
      right.Evaluates (Session.Called (reached.transcript more) 1) y ∧ x = y := by
  intro below start commands reached more left right
  have fits : ∀ command ∈ commands, command.2.Fits (start.family.forestAt command.1) := by
    simp only [commands, List.forall_mem_cons]
    exact ⟨rfl, rfl, rfl, rfl, rfl, nofun⟩
  have moreFits : ∀ command ∈ more, command.2.Fits (start.family.forestAt command.1) := by
    simp only [more, List.forall_mem_cons]
    exact ⟨trivial, trivial, trivial, trivial, trivial, nofun⟩
  have evictsNot : ∀ command ∈ commands, ∀ a, command.2 ≠ .evict a := by
    simp only [commands, List.forall_mem_cons]
    exact ⟨nofun, nofun, nofun, nofun, nofun, nofun⟩
  have planted : Family.ofSpecs? [{}, { children := [0] }] = some ⟨2, start.family⟩ := rfl
  have sound := (start.sound_run commands (Family.sound_ofSpecs? planted) fits).1
  have one : reached.family.Resident 1 1 :=
    Family.resident_of_reads [⟨1, [1]⟩] (by decide +kernel) (by decide +kernel)
  have two : reached.family.Resident 1 2 :=
    Family.resident_of_reads [⟨1, [2]⟩] (by decide +kernel) (by decide +kernel)
  have three : reached.family.Resident 1 3 :=
    Family.resident_of_reads [⟨2, [2]⟩] (by decide +kernel) (by decide +kernel)
  rcases (lattice_laws planted rfl fits evictsNot rfl 1).2 1 2 3 (one.grounded sound)
    (two.grounded sound) (three.grounded sound) (left, right)
    (by simp [Term.laws, left, right]) with
      ⟨evaluated, mixed⟩
  have leftValue : left.Evaluates (Session.Called (reached.transcript more) 1) 4 :=
    .apply (.index 1)
      (.apply (.index 2) (.index 3)
        (Session.called_of_getElem? 1 ⟨5, some "\x7b (1 -> [2]) (2 -> [2]) \x7d", 6⟩ rfl
          (by decide +kernel)))
      (Session.called_of_getElem? 4 ⟨4, some "\x7b (1 -> [0]) \x7d", 6⟩ rfl (by decide +kernel))
  have rightValue : right.Evaluates (Session.Called (reached.transcript more) 1) 4 :=
    .apply
      (.apply (.index 1) (.index 2)
        (Session.called_of_getElem? 0 ⟨4, some "\x7b (1 -> [0]) \x7d", 5⟩ rfl (by decide +kernel)))
      (.apply (.index 1) (.index 3)
        (Session.called_of_getElem? 2 ⟨0, some "\x7b \x7d", 6⟩ rfl (by decide +kernel)))
      (Session.called_of_getElem? 3 ⟨4, some "\x7b (1 -> [0]) \x7d", 6⟩ rfl (by decide +kernel))
  exact ⟨evaluated, 4, 4, leftValue, rightValue, mixed more moreFits 4 4 leftValue rightValue⟩

end SetForest
