import SetForest.Proofs.Family.Flat
import SetForest.Proofs.Workload.Cases

namespace SetForest.Workload

/-!
# What replaying reports

A case is replayed on a forest, which compares two indices.  In a forest of keys that works
as it should, the answer does not depend on what is stored there.  The sets of a case are
registered anew, so that all of them can be read, and indices of sets that can be read are
equal if and only if the sets are.  What is reported is therefore what the cases say by
themselves, and the forest stays fit for whatever is replayed next.
-/

open SetForest.Action

variable {n : Nat} {family : Family Int64 n} {position : Fin n}

/-- A list of numbers is registered under an index where its set can be read. -/
theorem exists_registerNumbers (flatAt : family.FlatAt position) (values : List Int64) :
    ∃ index later, registerNumbers position values family = (.ok index, later) ∧
      later.FlatAt position ∧ family.Retains later ∧
      (later.forestAt position).content index = .ok (.ofKeys values) := by
  rcases flatAt.exists_registerUnordered values with ⟨registered, later, answered, rest⟩
  refine ⟨registered.index, later, ?_, rest⟩
  rw [registerNumbers, bind_apply, answered]
  rfl

theorem setText_apply {index : Index} {content : Content Int64}
    (read : (family.forestAt position).content index = .ok content) :
    setText position index family = (.ok content.text, family) := by
  rw [setText, Family.reading_apply, Forest.setText, read]
  rfl

/-- One case is reported as it deserves, and the next one can be replayed. -/
theorem replayCase_apply (flatAt : family.FlatAt position) (case : Case) (place : Nat) :
    ∃ later, replayCase position case place family = (.ok (mismatch? case place), later) ∧
      later.FlatAt position := by
  rcases exists_registerNumbers flatAt case.left with
    ⟨a, first, leftAnswered, flatFirst, -, leftRead⟩
  rcases exists_registerNumbers flatFirst case.right with
    ⟨b, second, rightAnswered, flatSecond, toSecond, rightRead⟩
  have leftRead := flatFirst.content_eq toSecond leftRead
  rcases flatSecond.exists_apply case.operation leftRead rightRead with
    ⟨r, content, third, applied, flatThird, toThird, actualRead, keys⟩
  have leftRead := flatSecond.content_eq toThird leftRead
  have rightRead := flatSecond.content_eq toThird rightRead
  rcases exists_registerNumbers flatThird case.expected with
    ⟨e, last, expectedAnswered, flatLast, toLast, expectedRead⟩
  have leftRead := flatThird.content_eq toLast leftRead
  have rightRead := flatThird.content_eq toLast rightRead
  have actualRead := flatThird.content_eq toLast actualRead
  have actual : content = .ofKeys case.result := by
    rw [flatLast.eq_ofKeys_iff actualRead, Case.result, Case.solved_expected, keys,
      Content.keys_ofKeys, Content.keys_ofKeys]
  subst content
  refine ⟨last, ?_, flatLast⟩
  simp only [replayCase, bind_apply, leftAnswered, rightAnswered, applied, expectedAnswered]
  rw [mismatch?]
  by_cases same : r = e
  · rw [if_pos same, if_pos ((flatLast.index_eq_iff actualRead expectedRead).mp same)]
    rfl
  · rw [if_neg same, if_neg (fun equal =>
      same ((flatLast.index_eq_iff actualRead expectedRead).mpr equal))]
    simp only [bind_apply, setText_apply leftRead, setText_apply rightRead,
      setText_apply expectedRead, setText_apply actualRead]
    rfl

/-- Replaying reports what the cases say by themselves. -/
theorem replay_apply (flatAt : family.FlatAt position) (cases : List Case) :
    ∃ later, replay position cases family = (.ok (mismatches cases), later) ∧
      later.FlatAt position := by
  have turns : ∀ (placed : Case × Nat) (state : Family Int64 n), state.FlatAt position →
      ∃ later, replayCase position placed.1 placed.2 state =
        (.ok (mismatch? placed.1 placed.2), later) ∧ later.FlatAt position :=
    fun placed _ flatState => replayCase_apply flatState placed.1 placed.2
  rcases mapM_eq_ok turns cases.zipIdx flatAt with ⟨later, answered, flatLater⟩
  refine ⟨later, ?_, flatLater⟩
  rw [replay, bind_apply, answered]
  simp [mismatches, List.filterMap_map]

/-- Files that are replayed in turn are reported one by one. -/
theorem replay_files (flatAt : family.FlatAt position) (files : List (List Case)) :
    ∃ later, files.mapM (replay position) family = (.ok (files.map mismatches), later) ∧
      later.FlatAt position :=
  mapM_eq_ok (fun cases _ flatState => replay_apply flatState cases) files flatAt

end SetForest.Workload
