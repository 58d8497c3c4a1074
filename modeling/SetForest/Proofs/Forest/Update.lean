import SetForest.Proofs.Content.Edits
import SetForest.Proofs.Forest.Residence

namespace SetForest.Forest

/-!
# What an update at one key stores

An update needs nothing of its forest but a content that can be read.  It answers with the
index of the changed content, which can be read afterwards, and takes nothing away
(`Forest.Replaces`).

What an edit says of two indices does not depend on the way in which it was made, and it is
true ever after (`Forest.Edited`).  Two sequences of edits that make the same of a map thus
lead to the same index, whenever and in whichever order they are made.
-/

variable {K : Type} [Key K] {n : Nat}

/-- A content that can be read is changed and stored, and all others are left as they are. -/
structure Replaces (change : Content K → Content K) (a : Index) (forest : Forest K n)
    (outcome : Except Error Index × Forest K n) : Prop where
  retains : forest.Retains (fun _ => True) outcome.2
  stored : ∀ content, forest.content a = .ok content →
    ∃ r, outcome.1 = .ok r ∧ outcome.2.content r = .ok (change content)
  refused : ∀ error, forest.content a = .error error → outcome.1 = .error error

variable {forest later : Forest K n} {change : Content K → Content K} {a r : Index}

/-- An answer tells that the content could be read. -/
theorem Replaces.content_eq (replaces : forest.Replaces change a (.ok r, later)) :
    ∃ content, forest.content a = .ok content ∧ later.content r = .ok (change content) := by
  cases read : forest.content a with
  | error error => cases replaces.refused error read
  | ok content =>
      rcases replaces.stored content read with ⟨r', same, readLater⟩
      cases same
      exact ⟨content, rfl, readLater⟩

/-- What cannot be read is not changed. -/
theorem replaces_of_unread {error : Error} (notRead : forest.content a = .error error)
    (activities : List Activity) :
    forest.Replaces change a (.error error, { forest with activities }) := by
  refine ⟨⟨rfl, id, fun _ _ _ _ read => read⟩, ?_, ?_⟩
  · intro content read
    cases notRead.symm.trans read
  · intro other refused
    cases notRead.symm.trans refused
    rfl

/-- What is read is changed and interned, whatever is written to the tables besides. -/
theorem replaces_of_interned (canonical : forest.sets.Canonical) {content : Content K}
    (read : forest.content a = .ok content) (children : later.children = forest.children)
    (sets : later.sets = (forest.sets.intern (change content)).2) :
    forest.Replaces change a (.ok (forest.sets.intern (change content)).1.1, later) := by
  refine ⟨.of_intern (change content) children sets, ?_, ?_⟩
  · intro other readHere
    cases read.symm.trans readHere
    refine ⟨_, rfl, ?_⟩
    rw [← index_intern]
    exact content_of_intern canonical sets
  · intro error notRead
    cases read.symm.trans notRead

/-- An update puts its element in. -/
theorem replaces_updateKey (canonical : forest.sets.Canonical) (a : Index)
    (element : Element K) : forest.Replaces (·.put element) a (updateKey a element forest) := by
  rcases forest.exists_note_eq .keyUpdate with ⟨activities, noted⟩
  have ways := updating forest a element
  rw [noted] at ways
  generalize updateKey a element forest = outcome at ways ⊢
  cases ways with
  | @unread error notRead =>
      have notReadHere : forest.content a = .error error := notRead
      exact replaces_of_unread notReadHere activities
  | @updated content read =>
      have readHere : forest.content a = .ok content := read
      rcases ({ forest with activities } : Forest K n).exists_intern_eq (content.put element) with
        ⟨counters, interned⟩
      rw [interned, index_intern]
      exact replaces_of_interned canonical readHere rfl rfl

/-- A removal leaves its key out. -/
theorem replaces_removeKey (canonical : forest.sets.Canonical) (a : Index) (key : K) :
    forest.Replaces (·.without key forest.config.searchThreshold) a (removeKey a key forest) := by
  rcases forest.exists_note_eq .keyRemoval with ⟨activities, noted⟩
  have ways := removal forest a key
  rw [noted] at ways
  generalize removeKey a key forest = outcome at ways ⊢
  cases ways with
  | @unread error notRead =>
      have notReadHere : forest.content a = .error error := notRead
      exact replaces_of_unread notReadHere activities
  | @absent content read notFound =>
      have readHere : forest.content a = .ok content := read
      refine ⟨⟨rfl, id, fun _ _ _ _ read => read⟩, ?_, ?_⟩
      · intro other readOther
        cases readHere.symm.trans readOther
        refine ⟨a, rfl, ?_⟩
        dsimp only
        rw [Content.without, notFound]
        exact read
      · intro error notRead
        cases readHere.symm.trans notRead
  | @removed content position read found =>
      have readHere : forest.content a = .ok content := read
      have without : content.without key forest.config.searchThreshold =
          content.eraseIdx position := by
        rw [Content.without, found]
      rcases (({ forest with activities } : Forest K n).intern
        (content.eraseIdx position)).2.exists_fileInclusion_eq
          (({ forest with activities } : Forest K n).intern (content.eraseIdx position)).1.index
          a with ⟨inclusions, filed⟩
      rcases ({ forest with activities } : Forest K n).exists_intern_eq
        (content.eraseIdx position) with ⟨counters, interned⟩
      rw [filed, interned, index_intern, ← without]
      exact replaces_of_interned canonical readHere rfl rfl

/-! ## Edits -/

/-- One index stands for what some edits make of the set of another. -/
def Edited (forest : Forest K n) (edits : List (Edit K)) (a r : Index) : Prop :=
  ∃ content kept, forest.Denotes a content ∧ forest.Denotes r kept ∧
    kept.find? = Edit.effects edits content.find?

namespace Edited

variable {edits more : List (Edit K)} {b s : Index}

theorem inUse (edited : forest.Edited edits a r) : forest.InUse r := by
  rcases edited with ⟨-, kept, -, denotes, -⟩
  exact ⟨kept, denotes⟩

theorem append (edited : forest.Edited edits a b) (canonical : forest.sets.Canonical)
    (further : forest.Edited more b r) : forest.Edited (edits ++ more) a r := by
  rcases edited with ⟨content, mid, denotes, denotesMid, effect⟩
  rcases further with ⟨mid', kept, denotesMid', denotesKept, effectMore⟩
  rcases canonical.unique denotesMid denotesMid' with rfl
  refine ⟨content, kept, denotes, denotesKept, ?_⟩
  rw [effectMore, effect, Edit.effects, Edit.effects, Edit.effects, List.foldl_append]

theorem mono (edited : forest.Edited edits a r) (canonical : forest.sets.Canonical)
    (evolves : forest.Evolves later) : later.Edited edits a r := by
  rcases edited with ⟨content, kept, denotes, denotesKept, effect⟩
  exact ⟨content, kept, evolves.denotes canonical denotes, evolves.denotes canonical denotesKept,
    effect⟩

/-- What is made of a set depends on the effect alone. -/
theorem index_eq (edited : forest.Edited edits a r) (other : forest.Edited more a s)
    (canonical : forest.sets.Canonical)
    (increasing : ∀ index content, forest.Denotes index content → content.Increasing)
    {content : Content K} (denotes : forest.Denotes a content)
    (same : Edit.effects edits content.find? = Edit.effects more content.find?) : r = s := by
  rcases edited with ⟨first, kept, denotesFirst, denotesKept, effect⟩
  rcases other with ⟨second, keptOther, denotesSecond, denotesOther, effectOther⟩
  rcases canonical.unique denotes denotesFirst with rfl
  rcases canonical.unique denotes denotesSecond with rfl
  apply (index_eq_iff canonical denotesKept denotesOther).mpr
  apply Content.ext (increasing r kept denotesKept) (increasing s keptOther denotesOther)
  intro key
  rw [effect, effectOther, same]

end Edited

end SetForest.Forest
