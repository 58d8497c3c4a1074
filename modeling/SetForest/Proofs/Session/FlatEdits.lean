import SetForest.Proofs.Family.FlatEdits
import SetForest.Proofs.Session.Edits
import SetForest.Proofs.Session.Resident

namespace SetForest

/-!
# The two ways to edit a set of keys

A key can be put into a set or left out of it by a search in the content, or by a lattice
operation with the set of the key.  Neither way takes notice of what the other leaves in
the tables, and both lead to the same index.  So they can take each other's place in any
sequence of edits, as far as the index of the result is concerned.
-/

variable {K : Type} [Key K] {n : Nat} [ToString K]

namespace Session

/-- Fitting commands keep forests of keys. -/
theorem keeps_flatAt (position : Fin n) : Keeps (fun family : Family K n => family.FlatAt position)
    fun family command => command.2.Fits (family.forestAt command.1) where
  step := by
    intro session command flatAt fits
    rcases family_step session command.1 command.2 with ⟨cache, stepped⟩
    rw [stepped]
    exact flatAt.steps (fun _ admitted => admitted)
      (Command.steps_effect command.1 cache session.family command.2 fits.stores)
  mono := fun family later command evolves fits => fits.evolves evolves

end Session

variable {specs : List Spec} {family : Family K n} {session reached : Session K n} {a : Index}
  {content : Content K}

/-- In a forest without children, the two ways to edit a set at a key agree in every state
that a session reaches.  To remove a key that was inserted gives the set itself if it did
not have the key, and what a removal gives otherwise.  To insert a key that was removed is
to insert it.  An edit changes what is contained at its key and nowhere else, and the size
accordingly. -/
theorem edits_agree_flat (planted : Family.ofSpecs? specs = some ⟨n, family⟩)
    (starts : session.family = family) {commands : List (Fin n × Command K)}
    (fits : ∀ command ∈ commands, command.2.Fits (family.forestAt command.1))
    (reaches : (session.run commands).2 = reached) (position : Fin n)
    (flat : (family.forestAt position).children = [])
    (read : (reached.family.forestAt position).content a = .ok content) (x : K) :
    let forest := reached.family.forestAt position
    let agree := reached.Agree
      (fun family command => command.2.Fits (family.forestAt command.1)) position a
    agree [.removeKey x] [.remove (.flat x)] ∧
    agree [.update (.flat x)] [.insert (.flat x)] ∧
    (forest.contains a x = .ok false → agree [.insert (.flat x), .remove (.flat x)] []) ∧
    (forest.contains a x = .ok true →
      agree [.insert (.flat x), .remove (.flat x)] [.remove (.flat x)]) ∧
    agree [.remove (.flat x), .insert (.flat x)] [.insert (.flat x)] ∧
    Edit.Decides (.update (.flat x)) position a reached.family true ∧
    Edit.Decides (.insert (.flat x)) position a reached.family true ∧
    Edit.Decides (.removeKey x) position a reached.family false ∧
    Edit.Decides (.remove (.flat x)) position a reached.family false := by
  subst family reached
  intro forest agree
  have flatAt := Session.flatAt_run planted rfl fits flat
  have reliable := Edit.reliable_flat (K := K) position
  have agrees : ∀ {first second : List (Edit K)}, (∀ edit ∈ first ++ second, edit.Flat) →
      Edit.effects first content.find? = Edit.effects second content.find? → agree first second :=
    Session.agree (Session.keeps_flatAt position) reliable flatAt read
  have removesKey : Edit.Flat (.removeKey x) := nofun
  have updates : Edit.Flat (.update (.flat x)) := fun _ here => by cases here; rfl
  have inserts : Edit.Flat (.insert (.flat x)) := fun _ here => by cases here; rfl
  have removes : Edit.Flat (.remove (.flat x)) := fun _ here => by cases here; rfl
  have insertedKey : (Edit.insert (Element.flat x)).key = (Edit.remove (.flat x)).key := rfl
  refine ⟨?_, ?_, ?_, ?_, ?_, reliable.decides updates flatAt read,
    reliable.decides inserts flatAt read, reliable.decides removesKey flatAt read,
    reliable.decides removes flatAt read⟩
  · exact agrees (by simp [removesKey, removes])
      (Edit.effect_congr (.removeKey x) (.remove (.flat x)) rfl rfl)
  · exact agrees (by simp [updates, inserts])
      (Edit.effect_congr (.update (.flat x)) (.insert (.flat x)) rfl rfl)
  · intro absent
    rw [Forest.contains_eq (flatAt.ordered.increasing_of_content read) read] at absent
    have notFound : content.find? x = none :=
      Option.isNone_iff_eq_none.mp (Option.isSome_eq_false_iff.mp (Except.ok.inj absent))
    have unchanged : (Edit.remove (.flat x)).effect content.find? = content.find? :=
      Edit.effect_eq_self notFound
    exact agrees (by simp [inserts, removes]) ((Edit.effect_effect insertedKey).trans unchanged)
  · intro present
    exact agrees (by simp [inserts, removes]) (Edit.effect_effect insertedKey)
  · exact agrees (by simp [inserts, removes]) (Edit.effect_effect insertedKey.symm)

/-- A key is put into a set in both ways, where the union with its set is remembered but
evicted.  It is taken out again, and a key that was there is inserted and removed. -/
theorem edits_agree_flat_evicted :
    let start := Session.start (Family.single {} .unshared : Family Nat 1)
    let commands := [(0, .registerSet [.flat 3, .flat 5]), (0, .registerSingle (.flat 7)),
      (0, .apply .union 1 2), (0, .evict 3)]
    let reached := (start.run commands).2
    let more := [(0, .insertSingle 1 (.flat 7)), (0, .evict 3), (0, .updateKey 1 (.flat 7))]
    (∃ r later last,
      Edit.performAll 0 [.update (.flat 7)] 1 reached.family = (.ok r, later) ∧
      Edit.performAll 0 [.insert (.flat 7)] 1 later = (.ok r, last)) ∧
    (∃ x y,
      Edit.Evaluates (Session.Edited (reached.transcript more) 0) [.update (.flat 7)] 1 x ∧
      Edit.Evaluates (Session.Edited (reached.transcript more) 0) [.insert (.flat 7)] 1 y ∧
      x = y) ∧
    (∃ r later last,
      Edit.performAll 0 [.insert (.flat 7), .remove (.flat 7)] 1 reached.family = (.ok r, later) ∧
      Edit.performAll 0 [] 1 later = (.ok r, last)) ∧
    (∃ r later last,
      Edit.performAll 0 [.insert (.flat 5), .remove (.flat 5)] 1 reached.family = (.ok r, later) ∧
      Edit.performAll 0 [.remove (.flat 5)] 1 later = (.ok r, last)) ∧
    Edit.Decides (.remove (.flat 5)) 0 1 reached.family false := by
  intro start commands reached more
  have fits : ∀ command ∈ commands, command.2.Fits (start.family.forestAt command.1) := by
    simp only [commands, List.forall_mem_cons]
    exact ⟨⟨nofun, List.forall_mem_cons.mpr ⟨rfl, List.forall_mem_cons.mpr ⟨rfl, nofun⟩⟩⟩, rfl,
      trivial, trivial, nofun⟩
  have flat : (reached.family.forestAt 0).children = [] := by decide +kernel
  have moreFits : ∀ command ∈ more, command.2.Fits (reached.family.forestAt command.1) := by
    simp only [more, List.forall_mem_cons, Command.Fits, flat]
    exact ⟨rfl, trivial, rfl, nofun⟩
  have planted : Family.ofSpecs? [{}] = some ⟨1, start.family⟩ := rfl
  have read : (reached.family.forestAt 0).content 1 = .ok [.flat 3, .flat 5] := by decide +kernel
  rcases edits_agree_flat planted rfl fits rfl 0 rfl read 7 with ⟨-, inserted, restored, -⟩
  rcases edits_agree_flat planted rfl fits rfl 0 rfl read 5 with
    ⟨-, -, -, removed, -, -, -, -, decided⟩
  have updateValue : Edit.Evaluates (Session.Edited (reached.transcript more) 0)
      [.update (.flat 7)] 1 3 :=
    .cons (Session.edited_of_getElem? 2 ⟨3, some "\x7b 3 5 7 \x7d", 4⟩ rfl (by decide +kernel))
      (.nil 3)
  have insertValue : Edit.Evaluates (Session.Edited (reached.transcript more) 0)
      [.insert (.flat 7)] 1 3 :=
    .cons (Session.edited_of_getElem? 0 ⟨3, some "\x7b 3 5 7 \x7d", 4⟩ rfl (by decide +kernel))
      (.nil 3)
  exact ⟨inserted.forth,
    ⟨3, 3, updateValue, insertValue, inserted.mixed more moreFits 3 3 updateValue insertValue⟩,
    (restored (by decide +kernel)).forth, (removed (by decide +kernel)).forth, decided⟩

end SetForest
