import Mathlib.Algebra.GroupWithZero.Nat
import SetForest.CommandLine.Program
import SetForest.Proofs.Session.Resident
import SetForest.Proofs.Workload.Replay

namespace SetForest

/-!
# Replaying files

The program replays its files in turn on one forest.  Whatever that forest has been used
for, each file is reported as if it had a forest of its own.  This holds of the program as
it stands: it prints the same, fails for the same file, and counts the same.
-/

namespace CommandLine

open Workload

variable {tree : FileTree}

/-- What replaying a file prints and counts does not depend on the forest. -/
theorem replayFile_eq {progress : Progress} (flatAt : progress.family.FlatAt 0) (path : String) :
    replayFile tree progress path = do
      let cases ← loadCases tree path
      print (String.join ((mismatches cases).map (mismatchText path)))
      return { family := (replay 0 cases progress.family).2
               cases := progress.cases + cases.length
               mismatches := progress.mismatches + (mismatches cases).length } := by
  refine bind_congr fun cases => ?_
  rcases replay_apply flatAt cases with ⟨later, replayed, -⟩
  rw [onForest, replayed]
  rfl

/-- To replay files on one forest is to replay each of them alone, and to add up. -/
theorem foldlM_replayFile {fresh : Family Int64 1} (flatFresh : fresh.FlatAt 0)
    (paths : List String) {progress : Progress} (flatAt : progress.family.FlatAt 0) :
    (do
      let finish ← paths.foldlM (replayFile tree) progress
      return (finish.cases, finish.mismatches)) =
    (do
      let alone ← paths.mapM (replayFile tree { family := fresh })
      return (progress.cases + (alone.map Progress.cases).sum,
        progress.mismatches + (alone.map Progress.mismatches).sum)) := by
  induction paths generalizing progress with
  | nil => simp
  | cons path paths ih =>
      have freshStart : ({ family := fresh } : Progress).family.FlatAt 0 := flatFresh
      rw [List.foldlM_cons, List.mapM_cons, replayFile_eq flatAt, replayFile_eq freshStart]
      simp only [bind_assoc, pure_bind]
      refine bind_congr fun cases => bind_congr fun _ => ?_
      rcases replay_apply flatAt cases with ⟨later, replayed, flatLater⟩
      rw [replayed, ih flatLater]
      simp [Nat.add_assoc]

end CommandLine

open Workload CommandLine

variable {n : Nat} {specs : List Spec} {family : Family Int64 n} {session : Session Int64 n}

/-- Replaying is an exact check, whatever the forest has been through.  In every state that
a session reaches, cases are replayed on a forest of keys without a failure.  There is a
mismatch for each case that does not hold and for no other, in the order of the cases, and
it reports the sets of that case.  So solved cases always match, and files that are replayed
in turn on one forest are reported as on fresh forests of their own.  The program, which
prints and counts what it replays, does the same as if it took a fresh forest for each
file. -/
theorem replay_exact (planted : Family.ofSpecs? specs = some ⟨n, family⟩)
    (starts : session.family = family) {commands : List (Fin n × Command Int64)}
    (fits : ∀ command ∈ commands, command.2.Fits (family.forestAt command.1)) {position : Fin n}
    (flat : (family.forestAt position).children = []) :
    let reached := (session.run commands).2.family
    (∀ cases : List Case, ∃ mismatches, (replay position cases reached).1 = .ok mismatches ∧
      mismatches.Pairwise (fun first second => first.case < second.case) ∧
      (∀ place case, cases[place]? = some case →
        (place ∈ mismatches.map Mismatch.case ↔ ¬case.Holds)) ∧
      ∀ mismatch, mismatch ∈ mismatches ↔
        ∃ case, cases[mismatch.case]? = some case ∧ mismatch.Reports case) ∧
    (∀ cases : List Case,
      (∀ case ∈ cases, ∃ operation left right, case = .solved operation left right) →
      (replay position cases reached).1 = .ok []) ∧
    (∀ (files : List (List Case)) (config : Config) (strategy : Strategy),
      (files.mapM (replay position) reached).1 =
        files.mapM fun cases => (replay 0 cases (.single config strategy)).1) ∧
    ∀ (tree : FileTree) (paths : List String) (strategy : Strategy),
      let start : Progress := { family := .single {} strategy }
      (do
        let finish ← paths.foldlM (replayFile tree) start
        return (finish.cases, finish.mismatches)) =
      (do
        let alone ← paths.mapM (replayFile tree start)
        return ((alone.map Progress.cases).sum, (alone.map Progress.mismatches).sum)) := by
  intro reached
  have flatAt : reached.FlatAt position := Session.flatAt_run planted starts fits flat
  refine ⟨?_, ?_, ?_, ?_⟩
  · intro cases
    rcases replay_apply flatAt cases with ⟨later, replayed, -⟩
    exact ⟨mismatches cases, congrArg Prod.fst replayed, pairwise_mismatches cases,
      fun _ _ => mem_places_iff, mem_mismatches_iff cases⟩
  · intro cases solved
    rcases replay_apply flatAt cases with ⟨later, replayed, -⟩
    rw [replayed, mismatches_solved solved]
  · intro files config strategy
    rcases replay_files flatAt files with ⟨later, replayed, -⟩
    have alone : (fun cases => (replay 0 cases (.single config strategy)).1) =
        fun cases => (pure (mismatches cases) : Except Error (List Mismatch)) := by
      funext cases
      rcases replay_apply (Family.flatAt_single config strategy) cases with ⟨after, outcome, -⟩
      exact congrArg Prod.fst outcome
    rw [replayed, alone, List.mapM_pure]
    rfl
  · intro tree paths strategy start
    have fresh : start.family.FlatAt 0 := Family.flatAt_single {} strategy
    refine (foldlM_replayFile fresh paths fresh).trans (bind_congr fun alone => ?_)
    rw [show start.cases = 0 from rfl, show start.mismatches = 0 from rfl, Nat.zero_add,
      Nat.zero_add]

/-- A forest below another one has lost two of its sets, one of which is the union that the
first case is about.  The second case expects too much. -/
theorem replay_exact_evicted :
    let below : Family Int64 1 := .single {} .unshared
    let start : Session Int64 2 := .start (below.plant (Forest.create {} .unshared [0]))
    let commands := [(0, .registerSingle (.flat 5)), (0, .registerSingle (.flat 7)),
      (0, .apply .union 1 2), (1, .registerSingle ⟨1, [3]⟩), (0, .evict 3), (0, .evict 1)]
    let reached := (start.run commands).2.family
    let cases : List Case :=
      [.solved .union [7, 5, 7] [5], ⟨.difference, [7, 5], [7], [7, 5, 5]⟩]
    (∃ mismatches, (replay 0 cases reached).1 = .ok mismatches ∧
      mismatches.map Mismatch.case = [1] ∧
      ∀ mismatch ∈ mismatches, ∃ case, cases[mismatch.case]? = some case ∧
        mismatch.Reports case) ∧
    (replay 0 [.solved .union [7, 5, 7] [5]] reached).1 = .ok [] ∧
    ([cases, [], cases].mapM (replay 0) reached).1 =
      [cases, [], cases].mapM fun cases => (replay 0 cases (.single {} .locked)).1 := by
  intro below start commands reached cases
  have fits : ∀ command ∈ commands, command.2.Fits (start.family.forestAt command.1) := by
    simp only [commands, List.forall_mem_cons]
    exact ⟨rfl, rfl, trivial, rfl, trivial, trivial, nofun⟩
  have planted : Family.ofSpecs? [{}, { children := [0] }] = some ⟨2, start.family⟩ := rfl
  have flat : (start.family.forestAt 0).children = [] := rfl
  rcases replay_exact planted rfl fits flat with ⟨exact, solved, files, -⟩
  refine ⟨?_, ?_, files [cases, [], cases] {} .locked⟩
  · rcases exact cases with ⟨mismatches, replayed, -, -, reported⟩
    have found : (replay 0 cases reached).1 = .ok [⟨1, .difference, "\x7b 5 7 \x7d",
        "\x7b 7 \x7d", "\x7b 5 7 \x7d", "\x7b 5 \x7d"⟩] := by
      decide +kernel
    refine ⟨mismatches, replayed, ?_, fun mismatch member => (reported mismatch).mp member⟩
    cases replayed.symm.trans found
    rfl
  · refine solved _ ?_
    rintro _ (_ | ⟨_, ⟨⟩⟩)
    exact ⟨_, _, _, rfl⟩

end SetForest
