import FysobEngine.Common.LinkedTimerTicks

/-!
# The log only grows

No function of the timer takes an entry back, so a bound on the calls of
`add_task` in the end is one at every moment before.
-/

namespace FysobEngine.Common.LinkedTimer

variable {s : LinkedTimer} {log : List Entry}

theorem ite_grows {p : Prop} [Decidable p] {one two : LinkedTimer} (first : log <+: one.log)
    (second : log <+: two.log) : log <+: (if p then one else two).log := by
  split
  · exact first
  · exact second

section

variable (before : log <+: s.log)
include before

theorem note_grows (entry : Entry) : log <+: (s.note entry).log :=
  before.trans (List.prefix_append _ _)

theorem access_grows (link : Link) : log <+: (s.access link).log := by
  unfold access
  split
  · exact before
  · exact note_grows before _

theorem skipNext_grows (link : Link) : log <+: (s.skipNext link).log :=
  access_grows (access_grows before _) _

theorem skipPrev_grows (link : Link) : log <+: (s.skipPrev link).log :=
  access_grows (access_grows before _) _

theorem linkBefore_grows (last : Link) (address : Nat) :
    log <+: (s.linkBefore last address).log :=
  (access_grows (access_grows (access_grows before _) _) _).trans (List.prefix_append _ _)

theorem delete_grows (address : Nat) : log <+: (s.delete address).log := by
  unfold delete
  split
  · exact note_grows before _
  · exact before.trans (List.prefix_append _ _)

theorem skipBoth_grows (link : Link) : log <+: (s.skipBoth link).log := by
  have accessed := access_grows before link
  have next : log <+: (if (s.access link).links.prev link = .null then s.access link
      else (s.access link).skipNext link).log := ite_grows accessed (skipNext_grows accessed link)
  exact ite_grows next (skipPrev_grows next link)

/-! ## Calls -/

variable (clock : Nat → Nat)

theorem addTimer_grows (milseconds : Nat) (timer : TimerTask) :
    log <+: (s.addTimer clock milseconds timer).2.log := by
  have made : log <+: ((s.getCurrentMillisec clock).2.newNode timer
      (clock s.readings + milseconds)).log := before
  exact linkBefore_grows made _ _

theorem addTask_grows (interval : UInt32) (type : TimerType) :
    log <+: (s.addTask clock interval type).log := by
  have counted : log <+: ({ s with autoIncreaseId := s.autoIncreaseId + 1 } : LinkedTimer).log :=
    before
  have added := addTimer_grows counted clock interval.toNat ⟨s.autoIncreaseId + 1, interval, type⟩
  exact added.trans (List.prefix_append _ _)

theorem removeTask_grows (id : UInt32) : log <+: (s.removeTask id).log := by
  unfold removeTask
  split
  · exact note_grows before _
  · rename_i address _
    have cleared : log <+: (s.setTimerMap id none).log := before
    have passed := note_grows (skipBoth_grows cleared (.node address)) (.unlinked address)
    have relinked (l : Foundation.LinkRings.Links Link) :
        log <+: ({ ((s.setTimerMap id none).skipBoth (.node address)).note (.unlinked address) with
          links := l } : LinkedTimer).log := passed
    exact note_grows (delete_grows (relinked _) address) _

theorem perform_grows (call : Call) : log <+: (s.perform clock call).log := by
  cases call with
  | addTask interval type => exact addTask_grows before clock interval type
  | removeTask id => exact removeTask_grows before id

end

variable (clock : Nat → Nat) (script : Nat → List Call)

theorem performs_grows (calls : List Call) (before : log <+: s.log) :
    log <+: (calls.foldl (perform clock) s).log := by
  induction calls generalizing s with
  | nil => exact before
  | cons call rest ih => exact ih (perform_grows before clock call)

/-! ## Ticks -/

theorem cascadeNodes_grows (now : Nat) (spoke : Link) (turns : Nat) {link : Link} {casnum : Nat}
    (before : log <+: s.log) : log <+: (cascadeNodes now spoke turns link s casnum).1.log := by
  induction turns generalizing s link casnum with
  | zero =>
      rw [cascadeNodes]
      exact ite_grows before (note_grows before _)
  | succ turns ih =>
      rw [cascadeNodes]
      split
      · exact before
      · split
        · exact note_grows before _
        · split
          · exact ih (linkBefore_grows before _ _)
          · exact ih (linkBefore_grows before _ _)

theorem drainSpoke_grows (spoke : Link) (turns : Nat) {link : Link} (before : log <+: s.log) :
    log <+: (drainSpoke spoke turns link s).log := by
  induction turns generalizing s link with
  | zero =>
      rw [drainSpoke]
      exact ite_grows before (note_grows before _)
  | succ turns ih =>
      rw [drainSpoke]
      split
      · exact before
      · split
        · exact note_grows before _
        · have skipped := skipPrev_grows (skipNext_grows before link) link
          exact ih (linkBefore_grows (note_grows skipped _) _ _)

theorem cascade_grows (left wheel : Nat) (before : log <+: s.log) :
    log <+: (cascade clock left wheel s).1.log := by
  induction left generalizing s wheel with
  | zero => exact before
  | succ left ih =>
      have moved : log <+: ((s.getCurrentMillisec clock).2.setSpokeIndex wheel
          (s.spokeIndex wheel + 1)).log := before
      have accessed := access_grows moved (.spoke wheel (s.spokeIndex wheel))
      have behind : log <+: (cascaded clock wheel s).log := cascadeNodes_grows _ _ _ accessed
      rw [cascade_succ]
      refine ite_grows (ih (wheel + 1) ?_) behind
      exact behind

theorem emptied_grows (before : log <+: s.log) : log <+: s.emptied.log :=
  drainSpoke_grows _ _ (access_grows before _)

theorem tick_grows (before : log <+: s.log) : log <+: (s.tick clock).log := by
  have emptied := emptied_grows before
  have cascaded : log <+: (cascade clock 4 1 (s.emptied.setSpokeIndex 0 0)).1.log :=
    cascade_grows clock 4 1 emptied
  rw [tick_eq]
  exact ite_grows cascaded emptied

theorem ticks_grows (loopnum : Nat) (before : log <+: s.log) :
    log <+: (ticks clock loopnum s).log := by
  induction loopnum generalizing s with
  | zero => exact before
  | succ loopnum ih => exact ih (tick_grows clock before)

/-! ## Callbacks -/

theorem invoke_grows (node : TimerNode) (before : log <+: s.log) :
    log <+: (s.invoke clock script node).log := by
  have counted : log <+: ({ s with invocations := s.invocations + 1 } : LinkedTimer).log := before
  exact performs_grows clock _ (note_grows counted _)

theorem reregister_grows (node : TimerNode) (before : log <+: s.log) :
    log <+: (s.reregister clock node).log := by
  unfold reregister
  split
  · exact addTimer_grows before clock _ _
  · exact before

theorem timeoutLoop_grows (turns : Nat) {link : Link} (before : log <+: s.log) :
    log <+: (timeoutLoop clock script turns link s).log := by
  induction turns generalizing s link with
  | zero =>
      rw [timeoutLoop]
      exact ite_grows before (note_grows before _)
  | succ turns ih =>
      rw [timeoutLoop]
      split
      · exact before
      · split
        · exact note_grows before _
        · rename_i node _
          have invoked := invoke_grows clock script node (reregister_grows clock node before)
          exact ih (delete_grows (access_grows invoked link) _)

end FysobEngine.Common.LinkedTimer
