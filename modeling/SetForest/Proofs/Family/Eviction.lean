import SetForest.Proofs.Family.Complete
import SetForest.Proofs.Family.Merge
import SetForest.Proofs.Family.Paths
import SetForest.Proofs.Forest.Eviction

namespace SetForest.Family

/-!
# Families that were evicted from

A family from which contents were evicted is compared with an intact one that has
been asked the same.  Where the intact family answers from a table, the other one may
have to merge the operands again, and its forests below are asked what they had been
asked before.  The intact family can be asked the same once more and stays as it is,
since it knows all the answers (`Sound.exists_callAll_of_knows`).  So both families
are in lockstep after the calls, and the top forest settles a result that it had all
along (`UpToEviction.inStep_remembered`).
-/

variable {K : Type} [Key K] {n : Nat} {x y : Family K n} {operation : Operation} {a b r : Index}

/-! ## What intact families know -/

/-- Every forest differs in its counters at most. -/
abbrev Counted (family later : Family K n) : Prop :=
  Related (fun _ => Forest.Counted) family later

theorem Counted.refl (family : Family K n) : Counted family family :=
  Related.refl (fun _ => Forest.Counted.refl) family

theorem Intact.of_counted {later : Family K n} (intact : x.Intact) (counted : Counted x later) :
    later.Intact := by
  intro position
  rcases counted.forestAt position with ⟨counters, same⟩
  rw [same]
  exact intact position

theorem Knows.of_counted {later : Family K n} {position : Fin n}
    (knows : x.Knows position operation a b) (counted : Counted x later) :
    later.Knows position operation a b := by
  rcases counted.forestAt position with ⟨counters, same⟩
  rcases knows with ⟨left, right, noted, settled⟩
  rw [Knows, same]
  exact ⟨left, right, noted, by cases operation <;> exact settled⟩

/-- An intact family answers what it knows, and only counts that it was asked. -/
theorem Sound.exists_apply_of_knows (sound : x.Sound) (intact : x.Intact) {position : Fin n}
    (knows : x.Knows position operation a b) :
    ∃ r later, Family.apply operation position a b x = (.ok r, later) ∧ Counted x later := by
  induction sound with
  | bare => exact position.elim0
  | @plant n below top soundBelow soundTop ih =>
      induction position using Fin.lastCases with
      | last =>
          rw [Knows, forestAt_last] at knows
          rcases soundTop.exists_known soundBelow.lawful intact.top knows with ⟨r, known⟩
          rw [apply_last, show Forest.consult operation a b top = (.ok (.known r), _) from
            Prod.ext known rfl]
          exact ⟨r, _, rfl, .plant (Counted.refl below) (Forest.counted_consult knows.noted a b)⟩
      | cast position =>
          rw [Knows, forestAt_castSucc] at knows
          rcases ih intact.below knows with ⟨r, later, answered, counted⟩
          rw [apply_castSucc, onBelow_apply, answered]
          exact ⟨r, _, rfl, .plant counted (Forest.Counted.refl top)⟩

/-- It answers all calls of an alignment if it knows them. -/
theorem Sound.exists_callAll_of_knows (sound : x.Sound) (intact : x.Intact)
    {cells : List (Cell K n)} (known : ∀ cell ∈ cells, ∀ call ∈ cell.calls,
      x.Knows call.1 operation call.2.left call.2.right) :
    ∃ content later, callAll operation cells x = (.ok content, later) ∧ Counted x later := by
  let fit (state : Family K n) : Prop := state.Sound ∧ Counted x state
  have calls : ∀ cell ∈ cells, ∀ call ∈ cell.calls, ∀ state, fit state → ∃ r later,
      Family.apply operation call.1 call.2.left call.2.right state = (.ok r, later) ∧
        fit later := by
    rintro cell member call called state ⟨soundState, counted⟩
    rcases soundState.exists_apply_of_knows (intact.of_counted counted)
      ((known cell member call called).of_counted counted) with
        ⟨r, later, answered, countedLater⟩
    have soundLater := (soundState.apply operation call.1 call.2.left call.2.right).holds
    rw [answered] at soundLater
    exact ⟨r, later, answered, soundLater,
      counted.trans (fun _ _ _ _ => Forest.Counted.trans) countedLater⟩
  have start : fit x := ⟨sound, Counted.refl x⟩
  rcases exists_callAll cells calls start with ⟨content, later, answered, -, counted⟩
  exact ⟨content, later, answered, counted⟩

/-! ## Two families -/

/-- A family that may have been evicted from, beside an intact one. -/
structure UpToEviction (x y : Family K n) : Prop where
  similar : Similar (.upToEviction (Element K)) x y
  sound : x.Sound
  complete : x.Complete
  readsEmpty : x.ReadsEmpty
  soundIntact : y.Sound

/-- Operations keep all such families of one size in lockstep. -/
def KeepInStep (K : Type) [Key K] (n : Nat) (operation : Operation) : Prop :=
  ∀ (position : Fin n) (a b : Index) (x y : Family K n), UpToEviction x y →
    Lockstep (Resemblance.upToEviction (Element K)).Excuses UpToEviction Eq
      (apply operation position a b x) (apply operation position a b y)

namespace UpToEviction

variable {top top' : Forest K n}

theorem intact (upTo : UpToEviction x y) : y.Intact :=
  fun position => (upTo.similar.forestAt position).sets.2

/-- What one family knows, the other does, too. -/
theorem knows (upTo : UpToEviction x y) {position : Fin n}
    (known : x.Knows position operation a b) : y.Knows position operation a b := by
  have forests := upTo.similar.forestAt position
  have inUse : ∀ index, (x.forestAt position).InUse index → (y.forestAt position).InUse index :=
    fun index used => used.imp fun content => (forests.sets.1.denotes index content).mp
  refine ⟨inUse a known.left, inUse b known.right,
    known.noted.mono forests.config.symm (forests.activities ▸ List.Subset.refl _), ?_⟩
  rw [← forests.shortcut, ← forests.memo]
  exact known.settled

/-- It is the same for the forests below, and the top forests go with them. -/
theorem of_plant (upTo : UpToEviction (.plant x top) (.plant y top')) :
    UpToEviction x y ∧ Forest.Similar (.upToEviction (Element K)) top top' ∧
      top.Sound x.meaning ∧ top.Complete x.Knows ∧ top.sets.get Index.empty = .ok [] ∧
      top'.Sound y.meaning := by
  rcases upTo with ⟨similar, sound, complete, readsEmpty, soundIntact⟩
  cases similar with
  | plant similarBelow similarTop =>
      cases sound with
      | plant soundBelow soundTop =>
          cases complete with
          | plant completeBelow completeTop =>
              cases soundIntact with
              | plant soundIntactBelow soundIntactTop =>
                  exact ⟨⟨similarBelow, soundBelow, completeBelow, readsEmpty.below,
                    soundIntactBelow⟩, similarTop, soundTop, completeTop, readsEmpty.top,
                    soundIntactTop⟩

/-- Steps that leave the families similar leave them as they have to be. -/
theorem of_steps (upTo : UpToEviction x y) {position : Fin n} {admits admits' : Content K → Prop}
    (admitted : ∀ content, admits content → (x.forestAt position).Admits content)
    (admitted' : ∀ content, admits' content → (y.forestAt position).Admits content)
    {later later' : Family K n} (steps : Steps admits position x later)
    (steps' : Steps admits' position y later')
    (similar : Similar (.upToEviction (Element K)) later later') : UpToEviction later later' where
  similar := similar
  sound := (upTo.sound.steps admitted steps).1
  complete := upTo.complete.steps upTo.sound admitted steps
  readsEmpty := upTo.readsEmpty.steps upTo.sound steps
  soundIntact := (upTo.soundIntact.steps admitted' steps').1

theorem of_apply (upTo : UpToEviction x y) {position : Fin n}
    (similar : Similar (.upToEviction (Element K)) (Family.apply operation position a b x).2
      (Family.apply operation position a b y).2) :
    UpToEviction (Family.apply operation position a b x).2
      (Family.apply operation position a b y).2 := by
  have nothing : ∀ (forest : Forest K position) (content : Content K),
      False → forest.Admits content := fun _ _ => False.elim
  exact upTo.of_steps (nothing _) (nothing _) (.single (.applied operation a b))
    (.single (.applied operation a b)) similar

/-- Evicting more changes nothing. -/
theorem evict (upTo : UpToEviction x y) (position : Fin n) (index : Index) :
    UpToEviction (within (Forest.evict index) position x).2 y := by
  have nothing : ∀ (forest : Forest K position) (content : Content K),
      False → forest.Admits content := fun _ _ => False.elim
  have evicted : Related (fun m forest later => ∀ intact : Forest K m,
      Forest.Similar (.upToEviction (Element K)) forest intact →
        Forest.Similar (.upToEviction (Element K)) later intact)
      x (within (Forest.evict index) position x).2 :=
    related_within (fun _ _ _ => id) (fun {_} => Forest.evict index) x position
      fun _ similar => similar.evict_left index
  exact upTo.of_steps (nothing _) (nothing _)
    (.single (.changed (fun {_} => Forest.evict index) (Forest.changes_evict _ index))) .refl
    (Related.of_forestAt fun other => evicted.forestAt other _ (upTo.similar.forestAt other))

/-- A complete family that nothing was evicted from stands beside itself. -/
theorem of_intact (sound : x.Sound) (complete : x.Complete) (readsEmpty : x.ReadsEmpty)
    (intact : x.Intact) : UpToEviction x x := by
  refine ⟨Related.of_forestAt fun position => ?_, sound, complete, readsEmpty, sound⟩
  have canonical := (sound.forestAt position).canonical
  exact ⟨rfl, rfl, ⟨⟨canonical, canonical, rfl, fun _ _ => Iff.rfl⟩, intact position⟩, rfl, rfl,
    rfl, rfl, nofun, rfl⟩

/-- The calls of a merge that was made before are answered once more, unless something
that they need was evicted.  The family stays similar to an intact one that is not
asked. -/
theorem callAll_again (upTo : UpToEviction x y) (inStep : KeepInStep K n operation)
    {cells : List (Cell K n)} (known : ∀ cell ∈ cells, ∀ call ∈ cell.calls,
      x.Knows call.1 operation call.2.left call.2.right) :
    (∃ index later, callAll operation cells x = (.error (.evicted index), later)) ∨
      ∃ content later, callAll operation cells x = (.ok content, later) ∧
        Similar (.upToEviction (Element K)) later y := by
  have lockstep := lockstep_callAll inStep cells upTo
  rcases upTo.soundIntact.exists_callAll_of_knows upTo.intact
    (fun cell member call called => upTo.knows (known cell member call called)) with
      ⟨content, later, answered, counted⟩
  rw [answered] at lockstep
  generalize callAll operation cells x = outcome at lockstep ⊢
  cases lockstep with
  | excused excused =>
      rcases excused.2 with ⟨index, rfl⟩
      exact Or.inl ⟨index, _, rfl⟩
  | answered same upToLater =>
      obtain rfl := same
      refine Or.inr ⟨_, _, rfl, Related.of_forestAt ?_⟩
      intro position
      exact (upToLater.similar.forestAt position).counted id (.refl _)
        (counted.forestAt position).symm

/-- When the calls are answered, the top forest settles the result that it remembers. -/
theorem settle_again (upTo : UpToEviction (.plant x top) (.plant y top'))
    (found : (top.memo operation).lookup (operation.operands a b) = some r) (different : a ≠ b)
    (evicted : top.sets.isEvicted r = .ok true) {left right content : Content K}
    (leftRead : top.sets.get a = .ok left) (rightRead : top.sets.get b = .ok right)
    {later : Family K n}
    (called : callAll operation (Content.align operation top.children left right) x =
      (.ok content, later)) :
    (Forest.settle operation a b content (Forest.consult operation a b top).2).1 = r ∧
      Forest.Similar (.upToEviction (Element K))
        (Forest.settle operation a b content (Forest.consult operation a b top).2).2
        (Forest.consult operation a b top').2 := by
  rcases upTo.of_plant with ⟨upToBelow, similarTop, soundTop, completeTop, emptyRead, -⟩
  have soundBelow := upToBelow.sound
  have noted := (soundTop.consult soundBelow.lawful operation a b).1
  have completeNoted := Complete.top_consult completeTop soundBelow soundTop operation a b
    (.refl x) (.refl x)
  have similarNoted := similarTop.consult id operation a b
  -- The merge gives the content that the result has always had.
  have denotes : top.Denotes r content := by
    have resolved := (Sound.ensures_callAll (fun _ soundState => soundState.apply operation)
      soundBelow (Content.align operation top.children left right)).answered content
    have soundLater := (Sound.ensures_callAll (fun _ soundState => soundState.apply operation)
      soundBelow (Content.align operation top.children left right)).holds
    have extension := (Sound.ensures_callAll (fun _ soundState => soundState.apply operation)
      soundBelow (Content.align operation top.children left right)).advances
    rw [called] at resolved soundLater extension
    have determines := ((Forest.Extends.refl top).meaning_le extension.meaning_le)
      |>.determines (soundTop.determines_of_remembered soundBelow.lawful found different)
    exact ((soundTop.mono extension.meaning_le).denotes_iff_of_resolved soundLater.lawful determines
      leftRead rightRead (resolved rfl)).mpr fun drops => different drops.2.1
  have notEmpty : r ≠ Index.empty := by
    rintro rfl
    cases (Arena.isEvicted_of_get emptyRead).symm.trans evicted
  refine similarNoted.settle_again noted.sound completeNoted ?_ different notEmpty
    (noted.extension.denotes r content denotes)
  rw [Forest.memo_consult]
  exact found

/-- A remembered result is answered by the intact family at once.  The other family
answers the same, by a merge if need be, unless something that it needs was evicted. -/
theorem inStep_remembered (upTo : UpToEviction (.plant x top) (.plant y top'))
    (inStep : KeepInStep K n operation) (noShortcut : top.shortcut operation a b = none)
    (found : (top.memo operation).lookup (operation.operands a b) = some r) :
    InStep (.upToEviction (Element K)) (Family.apply operation (Fin.last n) a b (.plant x top))
      (Family.apply operation (Fin.last n) a b (.plant y top')) := by
  have different := Forest.ne_of_shortcut_eq_none noShortcut
  rcases upTo.of_plant with ⟨upToBelow, similarTop, soundTop, completeTop, -, soundIntactTop⟩
  have lawful := upToBelow.sound.lawful
  have similarNoted := similarTop.consult id operation a b
  have knownIntact : (Forest.consult operation a b top').1 = .ok (.known r) := by
    apply soundIntactTop.consult_of_intact upToBelow.soundIntact.lawful similarTop.sets.2
    · rw [← similarTop.memo]
      exact found
    · rw [← similarTop.shortcut]
      exact noShortcut
  rw [apply_last, apply_last, show Forest.consult operation a b top' = (.ok (.known r), _) from
    Prod.ext knownIntact rfl]
  rcases soundTop.consult_of_remembered lawful found noShortcut with
    known | ⟨index, refused⟩ | ⟨evicted, left, right, leftRead, rightRead, unknown⟩
  · rw [show Forest.consult operation a b top = (.ok (.known r), _) from Prod.ext known rfl]
    exact .answered rfl (.plant upToBelow.similar similarNoted)
  · rw [show Forest.consult operation a b top = (.error (.evicted index), _) from
      Prod.ext refused rfl]
    exact .excused ⟨id, index, rfl⟩
  · rw [show Forest.consult operation a b top = (.ok (.unknown _), _) from Prod.ext unknown rfl]
    have denotesLeft := soundTop.canonical.denotes_of_get leftRead
    have denotesRight := soundTop.canonical.denotes_of_get rightRead
    have calls : ∀ cell ∈ Content.align operation top.children left right, ∀ call ∈ cell.calls,
        x.Knows call.1 operation call.2.left call.2.right := by
      intro cell member call called
      rcases Content.mem_calls_align (soundTop.increasing a left denotesLeft)
        (soundTop.increasing b right denotesRight) member called with
          ⟨first, inLeft, second, inRight, sameKey, number, atChild, operands⟩
      rw [operands]
      exact completeTop.called operation a b r left right found different denotesLeft denotesRight
        first inLeft second inRight sameKey number call.1 atChild
    rcases upToBelow.callAll_again inStep calls with
      ⟨index, later, failed⟩ | ⟨content, later, called, similarLater⟩
    · dsimp only
      rw [failed]
      exact .excused ⟨id, index, rfl⟩
    · rcases upTo.settle_again found different evicted leftRead rightRead called with
        ⟨sameIndex, settled⟩
      dsimp only
      rw [called]
      exact .answered sameIndex (.plant similarLater settled)

end UpToEviction

/-- Operations keep a family that may have been evicted from in lockstep with an intact
one. -/
theorem keepInStep (operation : Operation) : KeepInStep K n operation := by
  intro position a b x y upTo
  induction n generalizing a b with
  | zero => exact position.elim0
  | succ n ih =>
      cases x with
      | plant x top =>
          cases y with
          | plant y top' =>
              rcases upTo.of_plant with ⟨upToBelow, similarTop, -⟩
              refine Lockstep.strengthen ?_ upTo.of_apply
              induction position using Fin.lastCases with
              | cast position =>
                  have below := (ih position a b x y upToBelow).mono
                    (fun _ _ upTo => upTo.similar) (fun _ _ same => same)
                  rw [apply_castSucc]
                  exact lockstep_onBelow similarTop below
              | last =>
                  have called : ∀ cells : List (Cell K n), InStep (.upToEviction (Element K))
                      (callAll operation cells x) (callAll operation cells y) := fun cells =>
                    (lockstep_callAll ih cells upToBelow).mono
                      (fun _ _ upTo => upTo.similar) (fun _ _ same => same)
                  cases noShortcut : top.shortcut operation a b with
                  | some answer =>
                      refine lockstep_apply_last (fun _ => Forest.Similar.kept _) upToBelow.similar
                        (Forest.inStep_consult similarTop operation a b ?_) called
                      rw [noShortcut]
                      exact nofun
                  | none =>
                      cases found : (top.memo operation).lookup (operation.operands a b) with
                      | some r => exact upTo.inStep_remembered ih noShortcut found
                      | none =>
                          refine lockstep_apply_last (fun _ => Forest.Similar.kept _)
                            upToBelow.similar
                            (Forest.inStep_consult similarTop operation a b ?_) called
                          intro _
                          rw [found]
                          exact nofun

end SetForest.Family
