import SetForest.Proofs.Family.Edits
import SetForest.Proofs.Forest.Read
import SetForest.Proofs.Session.Ordered

namespace SetForest

/-!
# Edits in reached states

Two sequences of edits agree on a set if they lead to the same index.  One can be made
after the other, in either order.  The calls of both can also be mixed with each other and
with anything else that a session does, and results on the way may be evicted and stored
again (`Session.Agree`).

Sequences agree if they make the same of the map that the set is (`Session.agree`).  The
laws of updates at a key follow from those of `Edit.effect`, for every threshold of the
search.
-/

variable {K : Type} [Key K] {n : Nat}

namespace Edit

/-- The command that makes an edit. -/
def command (a : Index) : Edit K → Command K
  | update element => .updateKey a element
  | removeKey key => .removeKey a key
  | insert element => .insertSingle a element
  | remove element => .removeSingle a element

/-- Where a sequence of edits leads to, by the answers to single calls. -/
inductive Evaluates (called : Edit K → Index → Index → Prop) :
    List (Edit K) → Index → Index → Prop where
  | nil (a : Index) : Evaluates called [] a a
  | cons {edit : Edit K} {rest : List (Edit K)} {a b r : Index} (answered : called edit a b)
      (further : Evaluates called rest b r) : Evaluates called (edit :: rest) a r

theorem Evaluates.edited {called : Edit K → Index → Index → Prop} {edits : List (Edit K)}
    {a r : Index} (value : Evaluates called edits a r) {forest : Forest K n}
    (canonical : forest.sets.Canonical)
    (right : ∀ edit ∈ edits, ∀ b s, called edit b s → forest.Edited [edit] b s)
    {content : Content K} (denotes : forest.Denotes a content) : forest.Edited edits a r := by
  induction value generalizing content with
  | nil a => exact ⟨content, content, denotes, denotes, rfl⟩
  | @cons edit rest a b r answered further ih =>
      have here := right edit List.mem_cons_self a b answered
      rcases here.inUse with ⟨kept, denotesKept⟩
      exact here.append canonical
        (ih (fun other member => right other (List.mem_cons_of_mem edit member)) denotesKept)

end Edit

namespace Session

variable [ToString K]

variable {fit : Family K n → Prop} {allowed : Family K n → Fin n × Command K → Prop}

/-- An edit that was answered. -/
def Edited (transcript : List ((Fin n × Command K) × Except Error (Answer K))) (position : Fin n)
    (edit : Edit K) (a r : Index) : Prop :=
  ∃ produced, ((position, edit.command a), .ok (.computed produced)) ∈ transcript ∧
    produced.index = r

theorem edited_of_getElem? {session : Session K n} {commands : List (Fin n × Command K)}
    {position : Fin n} {edit : Edit K} {a : Index} (place : Nat) (produced : Produced)
    (asked : commands[place]? = some (position, edit.command a))
    (answered : (session.run commands).1[place]? = some (.ok (.computed produced))) :
    Edited (session.transcript commands) position edit a produced.index :=
  ⟨produced, mem_transcript_of_getElem? place asked answered, rfl⟩

/-- An edit is answered by its forest. -/
theorem exists_perform_of_step {session : Session K n} {position : Fin n} {edit : Edit K}
    {a : Index} {produced : Produced}
    (answered : (step position (edit.command a) session).1 = .ok (.computed produced)) :
    ∃ later, edit.perform position a session.family = (.ok produced.index, later) ∧
      (step position (edit.command a) session).2.family = later := by
  cases edit <;> exact exists_of_computed answered

variable {position : Fin n} {among : Edit K → Prop} {session reached : Session K n} {a r : Index}
  {first second : List (Edit K)}

/-- What an edit has answered in a run is right in the last state. -/
theorem edited_of_transcript (keeps : Keeps fit allowed)
    (reliable : Edit.Reliable position fit among) (fits : fit session.family)
    {commands : List (Fin n × Command K)}
    (areAllowed : ∀ command ∈ commands, allowed session.family command) {edit : Edit K}
    (isAmong : among edit) (edited : Edited (session.transcript commands) position edit a r) :
    ((session.run commands).2.family.forestAt position).Edited [edit] a r := by
  rcases edited with ⟨produced, member, rfl⟩
  rcases exists_of_mem_transcript member with ⟨before, after, rfl, answered⟩
  have fitsBefore := keeps.run fits before (List.forall_mem_append.mp areAllowed).1
  rcases exists_perform_of_step answered with ⟨later, performed, same⟩
  rcases reliable.right edit isAmong _ a _ later fitsBefore performed with
    ⟨fitsLater, -, editedLater⟩
  rw [run_append, run_cons]
  rw [← same] at fitsLater editedLater
  exact editedLater.mono (reliable.ordered _ fitsLater).canonical
    ((evolves_run _ after).forestAt position)

/-- Two sequences of edits of a set lead to the same index.  They can be made in turn, and
their calls can be mixed with each other and with other work. -/
structure Agree (allowed : Family K n → Fin n × Command K → Prop) (reached : Session K n)
    (position : Fin n) (a : Index) (first second : List (Edit K)) : Prop where
  forth : ∃ r later last, Edit.performAll position first a reached.family = (.ok r, later) ∧
    Edit.performAll position second a later = (.ok r, last)
  back : ∃ r later last, Edit.performAll position second a reached.family = (.ok r, later) ∧
    Edit.performAll position first a later = (.ok r, last)
  mixed : ∀ more, (∀ command ∈ more, allowed reached.family command) → ∀ x y,
    Edit.Evaluates (Edited (reached.transcript more) position) first a x →
    Edit.Evaluates (Edited (reached.transcript more) position) second a y → x = y

/-- Sequences that make the same of the map agree. -/
theorem agree (keeps : Keeps fit allowed) (reliable : Edit.Reliable position fit among)
    (fits : fit reached.family) {content : Content K}
    (read : (reached.family.forestAt position).content a = .ok content)
    (areAmong : ∀ edit ∈ first ++ second, among edit)
    (same : Edit.effects first content.find? = Edit.effects second content.find?) :
    Agree allowed reached position a first second := by
  rcases List.forall_mem_append.mp areAmong with ⟨firstAmong, secondAmong⟩
  refine ⟨reliable.exists_both firstAmong secondAmong fits read same,
    reliable.exists_both secondAmong firstAmong fits read same.symm, ?_⟩
  · intro more areAllowed x y firstValue secondValue
    have ordered := reliable.ordered _ (keeps.run fits more areAllowed)
    have evolves := (reached.evolves_run more).forestAt position
    have canonical := (reliable.ordered _ fits).canonical
    have denotes := evolves.denotes canonical (Forest.denotes_of_content canonical read)
    have right : ∀ edits : List (Edit K), (∀ edit ∈ edits, among edit) → ∀ edit ∈ edits, ∀ b s,
        Edited (reached.transcript more) position edit b s →
        ((reached.run more).2.family.forestAt position).Edited [edit] b s :=
      fun edits areAmong edit member b s edited =>
        edited_of_transcript keeps reliable fits areAllowed (areAmong edit member) edited
    have firstEdited := firstValue.edited ordered.canonical (right first firstAmong) denotes
    have secondEdited := secondValue.edited ordered.canonical (right second secondAmong) denotes
    exact firstEdited.index_eq secondEdited ordered.canonical ordered.increasing denotes same

end Session

variable [ToString K] {specs : List Spec} {family : Family K n} {session reached : Session K n}
  {a : Index} {content : Content K}

/-- Sets behave as finite maps from keys to elements.  In every state that a session with
sets in order has reached, an update or a removal is found at its key and nowhere else.
Of two updates at one key, the second counts, and updates at different keys commute.  A
removal undoes an update at its key.  An element that the set has can be put in again, also
after it was removed, and this gives the set itself.  The thresholds of the search may be
any, and nothing is asked of the children of elements. -/
theorem updates_as_maps (planted : Family.ofSpecs? specs = some ⟨n, family⟩)
    (starts : session.family = family) {commands : List (Fin n × Command K)}
    (inOrder : ∀ command ∈ commands, command.2.InOrder (family.forestAt command.1).config)
    (reaches : (session.run commands).2 = reached) (position : Fin n)
    (read : (reached.family.forestAt position).content a = .ok content) :
    let forest := reached.family.forestAt position
    let agree := reached.Agree
      (fun family command => command.2.InOrder (family.forestAt command.1).config) position a
    (∀ element, ∃ r later,
      Family.within (Forest.updateKey a element) position reached.family = (.ok r, later) ∧
      (later.forestAt position).findKey r element.key = .ok (some element) ∧
      ∀ key, key ≠ element.key →
        (later.forestAt position).findKey r key = forest.findKey a key) ∧
    (∀ removed, ∃ r later,
      Family.within (Forest.removeKey a removed) position reached.family = (.ok r, later) ∧
      (later.forestAt position).findKey r removed = .ok none ∧
      ∀ key, key ≠ removed → (later.forestAt position).findKey r key = forest.findKey a key) ∧
    (∀ e f : Element K, e.key = f.key → agree [.update e, .update f] [.update f]) ∧
    (∀ e f : Element K, e.key ≠ f.key → agree [.update e, .update f] [.update f, .update e]) ∧
    (∀ e : Element K, agree [.update e, .removeKey e.key] [.removeKey e.key]) ∧
    ∀ e : Element K, forest.findKey a e.key = .ok (some e) →
      agree [.update e] [] ∧ agree [.removeKey e.key, .update e] [] := by
  subst family reached
  intro forest agree
  have ordered := session.ordered_run (.ofSpecs? planted) commands inOrder
  have reliable := Edit.reliable_direct (K := K) position
  have agrees : ∀ {first second : List (Edit K)}, (∀ edit ∈ first ++ second, edit.Direct) →
      Edit.effects first content.find? = Edit.effects second content.find? → agree first second :=
    Session.agree Session.keeps_ordered reliable ordered read
  refine ⟨?_, ?_, ?_, ?_, ?_, ?_⟩
  · intro element
    have isDirect : Edit.Direct (.update element) := trivial
    exact reliable.exists_findKey isDirect ordered read
  · intro removed
    have isDirect : Edit.Direct (.removeKey removed) := trivial
    exact reliable.exists_findKey isDirect ordered read
  · intro e f sameKey
    exact agrees (by simp [Edit.Direct]) (Edit.effect_effect sameKey)
  · intro e f different
    exact agrees (by simp [Edit.Direct]) (Edit.effect_comm different)
  · intro e
    exact agrees (by simp [Edit.Direct]) (Edit.effect_effect rfl)
  · intro e holds
    have increasing := (ordered.forestAt position).increasing_of_content read
    rw [Forest.findKey_eq increasing read] at holds
    have found : content.find? e.key = some e := Except.ok.inj holds
    have unchanged : (Edit.update e).effect content.find? = content.find? :=
      Edit.effect_eq_self found
    have sameKey : (Edit.removeKey e.key).key = (Edit.update e).key := rfl
    exact ⟨agrees (by simp [Edit.Direct]) unchanged,
      agrees (by simp [Edit.Direct]) ((Edit.effect_effect sameKey).trans unchanged)⟩

/-- Two updates of a map over a forest of numbers, the first result of which is stored but
evicted.  They commute when they are made in turn, and when their calls are mixed and a
result between them is evicted.  A removal is undone. -/
theorem updates_as_maps_commute :
    let below : Family Nat 1 := .single {} .unshared
    let start : Session Nat 2 :=
      .start (below.plant (Forest.create { searchThreshold := 1 } .unshared [0]))
    let commands := [(1, .registerSet [⟨1, [0]⟩, ⟨3, [0]⟩]), (1, .updateKey 1 ⟨2, [0]⟩),
      (1, .evict 2)]
    let reached := (start.run commands).2
    let more := [(1, .updateKey 1 ⟨4, [0]⟩), (1, .updateKey 1 ⟨2, [0]⟩),
      (1, .updateKey 3 ⟨2, [0]⟩), (1, .evict 3), (1, .updateKey 2 ⟨4, [0]⟩)]
    let left : List (Edit Nat) := [.update ⟨2, [0]⟩, .update ⟨4, [0]⟩]
    let right : List (Edit Nat) := [.update ⟨4, [0]⟩, .update ⟨2, [0]⟩]
    (∃ r later, Family.within (Forest.updateKey 1 ⟨2, [0]⟩) 1 reached.family = (.ok r, later) ∧
      (later.forestAt 1).findKey r 2 = .ok (some ⟨2, [0]⟩)) ∧
    (∃ r later last, Edit.performAll 1 left 1 reached.family = (.ok r, later) ∧
      Edit.performAll 1 right 1 later = (.ok r, last)) ∧
    (∃ x y, Edit.Evaluates (Session.Edited (reached.transcript more) 1) left 1 x ∧
      Edit.Evaluates (Session.Edited (reached.transcript more) 1) right 1 y ∧ x = y) ∧
    ∃ r later last,
      Edit.performAll 1 [.removeKey 3, .update ⟨3, [0]⟩] 1 reached.family = (.ok r, later) ∧
      Edit.performAll 1 [] 1 later = (.ok r, last) := by
  intro below start commands reached more left right
  have inOrder : ∀ command ∈ commands,
      command.2.InOrder (start.family.forestAt command.1).config := by
    simp only [commands, List.forall_mem_cons]
    exact ⟨nofun, trivial, trivial, nofun⟩
  have moreInOrder : ∀ command ∈ more,
      command.2.InOrder (reached.family.forestAt command.1).config := by
    simp only [more, List.forall_mem_cons]
    exact ⟨trivial, trivial, trivial, trivial, trivial, nofun⟩
  have planted : Family.ofSpecs? [{}, { config := { searchThreshold := 1 }, children := [0] }] =
    some ⟨2, start.family⟩ := rfl
  have read : (reached.family.forestAt 1).content 1 = .ok [⟨1, [0]⟩, ⟨3, [0]⟩] := by
    decide +kernel
  rcases updates_as_maps planted rfl inOrder rfl 1 read with
    ⟨updated, -, -, commutes, -, holding⟩
  have commute := commutes ⟨2, [0]⟩ ⟨4, [0]⟩ (by decide)
  have leftValue : Edit.Evaluates (Session.Edited (reached.transcript more) 1) left 1 4 :=
    .cons (Session.edited_of_getElem? 1
        ⟨2, some "\x7b (1 -> [0]) (2 -> [0]) (3 -> [0]) \x7d", 4⟩ rfl (by decide +kernel))
      (.cons (Session.edited_of_getElem? 4
        ⟨4, some "\x7b (1 -> [0]) (2 -> [0]) (3 -> [0]) (4 -> [0]) \x7d", 5⟩ rfl
          (by decide +kernel)) (.nil 4))
  have rightValue : Edit.Evaluates (Session.Edited (reached.transcript more) 1) right 1 4 :=
    .cons (Session.edited_of_getElem? 0
        ⟨3, some "\x7b (1 -> [0]) (3 -> [0]) (4 -> [0]) \x7d", 4⟩ rfl (by decide +kernel))
      (.cons (Session.edited_of_getElem? 2
        ⟨4, some "\x7b (1 -> [0]) (2 -> [0]) (3 -> [0]) (4 -> [0]) \x7d", 5⟩ rfl
          (by decide +kernel)) (.nil 4))
  rcases updated ⟨2, [0]⟩ with ⟨r, later, answered, found, -⟩
  exact ⟨⟨r, later, answered, found⟩, commute.forth,
    ⟨4, 4, leftValue, rightValue, commute.mixed more moreInOrder 4 4 leftValue rightValue⟩,
    (holding ⟨3, [0]⟩ (by decide +kernel)).2.forth⟩

end SetForest
