import FysobEngine.Common.LinkedTimerBookkeeping

/-!
# The memory of the timer

A node that is there is the one that the map has for its task. So the spokes hold all
that is left when a timer is destroyed, and `~wheel` deletes each node of it once.
-/

namespace FysobEngine.Common.LinkedTimer

open Foundation.LinkRings Foundation.Logs Foundation.Runs
open Timer (wheelNum wheelSize)

variable {clock : Nat → Nat} {script : Nat → List Call} {s s' middle : LinkedTimer}
  {loose : List Nat} {node : TimerNode}

/-! ## Who has the nodes -/

/-- A node that is there is mapped, unless it is loose, and one that is gone has been
deleted. -/
structure Owned (s : LinkedTimer) (loose : List Nat) : Prop where
  named : ∀ address node, s.nodes address = some node →
    node.address = address ∧ address < s.allocations
  gone : ∀ address < s.allocations, s.nodes address = none → .deleted address ∈ s.log
  known : ∀ id address, s.timerMap id = some address → id.toNat ≤ s.autoIncreaseId.toNat
  mapped : ∀ address node, s.nodes address = some node → address ∉ loose →
    s.timerMap node.timer.id = some address

/-- Links have been rewritten, and neither nodes nor the map. -/
structure Rewired (s s' : LinkedTimer) : Prop where
  nodes : s'.nodes = s.nodes
  allocations : s'.allocations = s.allocations
  timerMap : s'.timerMap = s.timerMap
  autoIncreaseId : s'.autoIncreaseId = s.autoIncreaseId
  adds : adds s'.log = adds s.log
  grows : s.log <+: s'.log

theorem Rewired.refl (s : LinkedTimer) : Rewired s s := ⟨rfl, rfl, rfl, rfl, rfl, List.prefix_rfl⟩

theorem Rewired.trans (first : Rewired s middle) (second : Rewired middle s') : Rewired s s' :=
  ⟨second.nodes.trans first.nodes, second.allocations.trans first.allocations,
    second.timerMap.trans first.timerMap, second.autoIncreaseId.trans first.autoIncreaseId,
    second.adds.trans first.adds, first.grows.trans second.grows⟩

theorem Owned.rewired (owned : Owned s loose) (rewired : Rewired s s') : Owned s' loose where
  named := by
    rw [rewired.nodes, rewired.allocations]
    exact owned.named
  gone address := by
    rw [rewired.nodes, rewired.allocations]
    exact fun old none => rewired.grows.subset (owned.gone address old none)
  known := by
    rw [rewired.timerMap, rewired.autoIncreaseId]
    exact owned.known
  mapped := by
    rw [rewired.nodes, rewired.timerMap]
    exact owned.mapped

/-! ### What only rewires -/

theorem note_rewired (s : LinkedTimer) {entry : Entry} (silent : adds [entry] = 0) :
    Rewired s (s.note entry) := by
  refine ⟨rfl, rfl, rfl, rfl, ?_, List.prefix_append _ _⟩
  change adds (s.log ++ [entry]) = adds s.log
  rw [adds_append, silent]
  rfl

theorem access_rewired (s : LinkedTimer) (link : Link) : Rewired s (s.access link) := by
  unfold access
  split
  · exact Rewired.refl s
  · exact note_rewired s rfl

theorem relinked (s : LinkedTimer) (links : Links Link) : Rewired s { s with links := links } :=
  ⟨rfl, rfl, rfl, rfl, rfl, List.prefix_rfl⟩

theorem skipNext_rewired (s : LinkedTimer) (link : Link) : Rewired s (s.skipNext link) :=
  ((access_rewired s _).trans (access_rewired _ _)).trans (relinked _ _)

theorem skipPrev_rewired (s : LinkedTimer) (link : Link) : Rewired s (s.skipPrev link) :=
  ((access_rewired s _).trans (access_rewired _ _)).trans (relinked _ _)

theorem skipBoth_rewired (s : LinkedTimer) (link : Link) : Rewired s (s.skipBoth link) := by
  refine (access_rewired s link).trans ?_
  unfold skipBoth
  dsimp only
  split
  · split
    · exact Rewired.refl _
    · exact skipPrev_rewired _ link
  · split
    · exact skipNext_rewired _ link
    · exact (skipNext_rewired _ link).trans (skipPrev_rewired _ link)

theorem linkBefore_rewired (s : LinkedTimer) (last : Link) (address : Nat) :
    Rewired s (s.linkBefore last address) :=
  (((access_rewired s _).trans (access_rewired _ _)).trans (access_rewired _ _)).trans
    ((relinked _ _).trans (note_rewired _ rfl))

theorem cascadeNodes_rewired (now : Nat) (spoke : Link) (turns : Nat) (link : Link)
    (s : LinkedTimer) (casnum : Nat) :
    Rewired s (cascadeNodes now spoke turns link s casnum).1 := by
  induction turns generalizing s link casnum with
  | zero =>
      rw [cascadeNodes]
      split
      · exact Rewired.refl s
      · exact note_rewired s rfl
  | succ turns ih =>
      rw [cascadeNodes]
      split
      · exact Rewired.refl s
      · split
        · exact note_rewired s rfl
        · split
          · exact (linkBefore_rewired s _ _).trans (ih _ _ _)
          · exact (linkBefore_rewired s _ _).trans (ih _ _ _)

theorem cascade_rewired (clock : Nat → Nat) (left wheel : Nat) (s : LinkedTimer) :
    Rewired s (cascade clock left wheel s).1 := by
  induction left generalizing s wheel with
  | zero => exact Rewired.refl s
  | succ left ih =>
      have moved : Rewired s ((s.getCurrentMillisec clock).2.setSpokeIndex wheel
          (s.spokeIndex wheel + 1)) := ⟨rfl, rfl, rfl, rfl, rfl, List.prefix_rfl⟩
      have accessed := moved.trans (access_rewired _ (.spoke wheel (s.spokeIndex wheel)))
      have behind : Rewired s (cascaded clock wheel s) :=
        (accessed.trans (relinked _ _)).trans (cascadeNodes_rewired _ _ _ _ _ _)
      have reset : Rewired (cascaded clock wheel s)
          ((cascaded clock wheel s).setSpokeIndex wheel 0) :=
        ⟨rfl, rfl, rfl, rfl, rfl, List.prefix_rfl⟩
      rw [cascade_succ]
      split
      · exact (behind.trans reset).trans (ih (wheel + 1) _)
      · exact behind

theorem drainSpoke_rewired (spoke : Link) (turns : Nat) (link : Link) (s : LinkedTimer) :
    Rewired s (drainSpoke spoke turns link s) := by
  induction turns generalizing s link with
  | zero =>
      rw [drainSpoke]
      split
      · exact Rewired.refl s
      · exact note_rewired s rfl
  | succ turns ih =>
      rw [drainSpoke]
      split
      · exact Rewired.refl s
      · split
        · exact note_rewired s rfl
        · rename_i node _
          have skipped := (skipNext_rewired s link).trans (skipPrev_rewired _ link)
          have noted : Rewired s
              (((s.skipNext link).skipPrev link).note (.unlinked node.address)) :=
            skipped.trans (note_rewired _ rfl)
          exact (noted.trans (linkBefore_rewired _ .ready _)).trans (ih _ _)

theorem tick_rewired (clock : Nat → Nat) (s : LinkedTimer) : Rewired s (s.tick clock) := by
  have drained : Rewired s s.emptied :=
    ((access_rewired s _).trans (drainSpoke_rewired _ _ _ _)).trans
      ⟨rfl, rfl, rfl, rfl, rfl, List.prefix_rfl⟩
  have reset : Rewired s.emptied (s.emptied.setSpokeIndex 0 0) :=
    ⟨rfl, rfl, rfl, rfl, rfl, List.prefix_rfl⟩
  have later (s : LinkedTimer) (checktime : Nat) :
      Rewired s { s with checktime := checktime } := ⟨rfl, rfl, rfl, rfl, rfl, List.prefix_rfl⟩
  rw [tick_eq]
  split
  · exact ((drained.trans reset).trans (cascade_rewired clock 4 1 _)).trans (later _ _)
  · exact drained.trans (later _ _)

theorem ticks_rewired (clock : Nat → Nat) (loopnum : Nat) (s : LinkedTimer) :
    Rewired s (ticks clock loopnum s) := by
  induction loopnum generalizing s with
  | zero => exact Rewired.refl s
  | succ loopnum ih => exact (tick_rewired clock s).trans (ih _)

/-! ### What moves nodes -/

/-- An entry of the map is set. The node that had it is loose, and the new one no more. -/
theorem Owned.set {new : Option Nat} (owned : Owned s (new.toList ++ loose)) {id : UInt32}
    (key : ∀ address ∈ new, ∀ node, s.nodes address = some node → node.timer.id = id)
    (bound : new.isSome → id.toNat ≤ s.autoIncreaseId.toNat) :
    Owned (s.setTimerMap id new) ((s.timerMap id).toList ++ loose) where
  named := owned.named
  gone := owned.gone
  known other address found := by
    simp only [setTimerMap] at found
    split at found
    · rename_i same
      exact same ▸ bound (Option.isSome_of_eq_some found)
    · exact owned.known other address found
  mapped address node found apart := by
    obtain ⟨before, apart⟩ := not_or.mp (List.mem_append.not.mp apart)
    by_cases newest : new = some address
    · rw [setTimerMap, key address newest node found]
      exact (if_pos rfl).trans newest
    · have old : s.timerMap node.timer.id = some address := by
        refine owned.mapped address node found fun member => ?_
        obtain first | last := List.mem_append.mp member
        · exact newest (Option.mem_toList.mp first)
        · exact apart last
      have ne : node.timer.id ≠ id := by
        rintro same
        rw [← same, old] at before
        exact before List.mem_cons_self
      exact (if_neg ne).trans old

theorem Owned.unset (owned : Owned s loose) (id : UInt32) :
    Owned (s.setTimerMap id none) ((s.timerMap id).toList ++ loose) := by
  have whole : Owned s ((none : Option Nat).toList ++ loose) := owned
  exact whole.set (fun _ impossible => by cases impossible) fun impossible => by cases impossible

theorem Owned.delete {address : Nat} (owned : Owned s (address :: loose)) :
    Owned (s.delete address) loose := by
  unfold LinkedTimer.delete
  cases found : s.nodes address with
  | none =>
      refine (⟨owned.named, owned.gone, owned.known, fun other node there apart => ?_⟩ :
        Owned s loose).rewired (note_rewired s rfl)
      refine owned.mapped other node there fun member => ?_
      obtain rfl | last := List.mem_cons.mp member
      · rw [found] at there
        cases there
      · exact apart last
  | some node =>
      refine ⟨fun other node there => ?_, fun other old none => ?_, owned.known,
        fun other node there apart => ?_⟩
      · by_cases same : other = address
        · subst same
          cases (Function.update_self ..).symm.trans there
        · exact owned.named other node ((Function.update_of_ne same ..).symm.trans there)
      · by_cases same : other = address
        · subst same
          exact List.mem_append_right _ List.mem_cons_self
        · have before := (Function.update_of_ne same ..).symm.trans none
          exact List.mem_append_left _ (owned.gone other old before)
      · by_cases same : other = address
        · subst same
          cases (Function.update_self ..).symm.trans there
        · refine owned.mapped other node ((Function.update_of_ne same ..).symm.trans there) ?_
          exact fun member => (List.mem_cons.mp member).elim same apart

/-- The new node of `add_timer` is loose. -/
theorem Owned.addTimer (clock : Nat → Nat) (owned : Owned s loose) (milseconds : Nat)
    (timer : TimerTask) :
    Owned (s.addTimer clock milseconds timer).2 (s.allocations :: loose) := by
  have made : Owned ((s.getCurrentMillisec clock).2.newNode timer (clock s.readings + milseconds))
      (s.allocations :: loose) := by
    refine ⟨fun address node there => ?_, fun address old none => ?_, owned.known,
      fun address node there apart => ?_⟩
    · by_cases same : address = s.allocations
      · subst same
        have new : some (⟨s.allocations, clock s.readings + milseconds, timer⟩ : TimerNode) =
            some node := (Function.update_self (β := fun _ => Option TimerNode) ..).symm.trans there
        cases new
        exact ⟨rfl, Nat.lt_succ_self _⟩
      · obtain ⟨own, within⟩ :=
          owned.named address node ((Function.update_of_ne same ..).symm.trans there)
        exact ⟨own, Nat.lt_succ_of_lt within⟩
    · by_cases same : address = s.allocations
      · subst same
        cases (Function.update_self ..).symm.trans none
      · refine owned.gone address ?_ ((Function.update_of_ne same ..).symm.trans none)
        exact Nat.lt_of_le_of_ne (Nat.le_of_lt_succ old) same
    · obtain ⟨same, apart⟩ := not_or.mp (List.mem_cons.not.mp apart)
      exact owned.mapped address node ((Function.update_of_ne same ..).symm.trans there) apart
  exact made.rewired (linkBefore_rewired _ _ _)

theorem addTimer_fields (clock : Nat → Nat) (s : LinkedTimer) (milseconds : Nat)
    (timer : TimerTask) :
    (s.addTimer clock milseconds timer).2.nodes s.allocations =
        some ⟨s.allocations, clock s.readings + milseconds, timer⟩ ∧
      (s.addTimer clock milseconds timer).2.timerMap = s.timerMap ∧
      (s.addTimer clock milseconds timer).2.autoIncreaseId = s.autoIncreaseId ∧
      adds (s.addTimer clock milseconds timer).2.log = adds s.log := by
  have linked := linkBefore_rewired
    ((s.getCurrentMillisec clock).2.newNode timer (clock s.readings + milseconds))
    (((s.getCurrentMillisec clock).2.newNode timer (clock s.readings + milseconds)).spokeFor
      milseconds) s.allocations
  refine ⟨?_, linked.timerMap, linked.autoIncreaseId, linked.adds⟩
  exact (congrFun linked.nodes _).trans (Function.update_self ..)

/-- A new node is entered into the map. The one that was there is loose. -/
theorem Owned.enter (clock : Nat → Nat) (owned : Owned s loose) (milseconds : Nat)
    {timer : TimerTask} (bound : timer.id.toNat ≤ s.autoIncreaseId.toNat) :
    Owned ((s.addTimer clock milseconds timer).2.setTimerMap timer.id
      (some (s.addTimer clock milseconds timer).1)) ((s.timerMap timer.id).toList ++ loose) := by
  obtain ⟨new, map, issued, -⟩ := addTimer_fields clock s milseconds timer
  rw [← map]
  refine Owned.set (owned.addTimer clock milseconds timer) (fun address same node there => ?_) ?_
  · cases same
    cases new.symm.trans there
    rfl
  · rw [issued]
    exact fun _ => bound

/-- `auto_timer_increase_id_` counts the tasks. -/
def Issued (s : LinkedTimer) : Prop := adds s.log = s.autoIncreaseId.toNat

theorem Issued.rewired (issued : Issued s) (rewired : Rewired s s') : Issued s' := by
  rw [Issued, rewired.adds, rewired.autoIncreaseId]
  exact issued

theorem next_id_toNat {id : UInt32} (few : id.toNat + 1 < 2 ^ 32) :
    (id + 1).toNat = id.toNat + 1 := by
  rw [UInt32.toNat_add]
  exact Nat.mod_eq_of_lt few

theorem addTask_owned (clock : Nat → Nat) (owned : Owned s loose) (issued : Issued s)
    (interval : UInt32) (type : TimerType)
    (few : adds (s.addTask clock interval type).log < 2 ^ 32) :
    Owned (s.addTask clock interval type) loose ∧ Issued (s.addTask clock interval type) := by
  have counted : adds (s.addTask clock interval type).log = adds s.log + 1 := by
    have before := (addTimer_fields clock { s with autoIncreaseId := s.autoIncreaseId + 1 }
      interval.toNat ⟨s.autoIncreaseId + 1, interval, type⟩).2.2.2
    exact (adds_append _ _).trans (congrArg (· + 1) before)
  rw [counted, issued] at few
  have next := next_id_toNat few
  have drawn : Owned { s with autoIncreaseId := s.autoIncreaseId + 1 } loose := by
    refine ⟨owned.named, owned.gone, fun id address found => ?_, owned.mapped⟩
    have old := owned.known id address found
    dsimp only
    omega
  have fresh : s.timerMap (s.autoIncreaseId + 1) = none := by
    cases found : s.timerMap (s.autoIncreaseId + 1) with
    | none => rfl
    | some address =>
        have old := owned.known _ address found
        omega
  have own : (⟨s.autoIncreaseId + 1, interval, type⟩ : TimerTask).id.toNat ≤
      (s.autoIncreaseId + 1).toNat := Nat.le_refl _
  have entered := drawn.enter clock interval.toNat own
  have noted : Owned (s.addTask clock interval type)
      ((s.timerMap (s.autoIncreaseId + 1)).toList ++ loose) :=
    ⟨entered.named, fun address old none => List.mem_append_left _ (entered.gone address old none),
      entered.known, entered.mapped⟩
  rw [fresh] at noted
  refine ⟨noted, ?_⟩
  rw [Issued, counted, issued, ← next]
  exact congrArg UInt32.toNat (addTimer_fields clock
    { s with autoIncreaseId := s.autoIncreaseId + 1 } interval.toNat _).2.2.1.symm

theorem delete_issued (issued : Issued s) (address : Nat) : Issued (s.delete address) := by
  unfold LinkedTimer.delete
  split
  · exact issued.rewired (note_rewired s rfl)
  · have deleted : adds (s.log ++ [.deleted address]) = adds s.log := adds_append _ _
    exact deleted.trans issued

theorem removeTask_owned (owned : Owned s loose) (issued : Issued s) (id : UInt32) :
    Owned (s.removeTask id) loose ∧ Issued (s.removeTask id) := by
  unfold removeTask
  cases found : s.timerMap id with
  | none =>
      have noted : Rewired s (s.note (.removed id)) := note_rewired s rfl
      exact ⟨owned.rewired noted, issued.rewired noted⟩
  | some address =>
      have cleared : Owned (s.setTimerMap id none) (address :: loose) := by
        have set := owned.unset id
        rw [found] at set
        exact set
      have counted : Issued (s.setTimerMap id none) := issued
      have passed : Rewired (s.setTimerMap id none)
          (((s.setTimerMap id none).skipBoth (.node address)).note (.unlinked address)) :=
        (skipBoth_rewired _ _).trans (note_rewired _ rfl)
      have cut (links : Links Link) := passed.trans (relinked _ links)
      have noted {s : LinkedTimer} : Rewired s (s.note (.removed id)) := note_rewired s rfl
      refine ⟨Owned.rewired ?_ noted, Issued.rewired ?_ noted⟩
      · exact (cleared.rewired (cut _)).delete
      · exact delete_issued (counted.rewired (cut _)) address

/-! ## The calls and the callbacks -/

theorem perform_owned (clock : Nat → Nat) (owned : Owned s loose) (issued : Issued s)
    (call : Call) (few : adds (s.perform clock call).log < 2 ^ 32) :
    Owned (s.perform clock call) loose ∧ Issued (s.perform clock call) := by
  cases call with
  | addTask interval type => exact addTask_owned clock owned issued interval type few
  | removeTask id => exact removeTask_owned owned issued id

theorem performs_owned (clock : Nat → Nat) (owned : Owned s loose) (issued : Issued s)
    (calls : List Call) (few : adds (calls.foldl (perform clock) s).log < 2 ^ 32) :
    Owned (calls.foldl (perform clock) s) loose ∧ Issued (calls.foldl (perform clock) s) := by
  induction calls generalizing s with
  | nil => exact ⟨owned, issued⟩
  | cons call rest ih =>
      have grows := performs_grows clock rest (List.prefix_rfl (l := (s.perform clock call).log))
      obtain ⟨first, counted⟩ := perform_owned clock owned issued call
        (Nat.lt_of_le_of_lt (adds_mono grows) few)
      exact ih first counted few

/-- The node in hand is loose when its task is registered again, or has left the map. -/
theorem reregister_owned (clock : Nat → Nat) (owned : Owned s []) (issued : Issued s)
    (there : s.nodes node.address = some node) :
    Owned (s.reregister clock node) [node.address] ∧ Issued (s.reregister clock node) := by
  have own : s.timerMap node.timer.id = some node.address :=
    owned.mapped node.address node there List.not_mem_nil
  unfold reregister
  cases node.timer.type with
  | circle =>
      have entered := owned.enter clock node.timer.interval.toNat
        (owned.known node.timer.id node.address own)
      rw [own] at entered
      obtain ⟨-, -, kept, counted⟩ :=
        addTimer_fields clock s node.timer.interval.toNat node.timer
      exact ⟨entered, counted.trans (issued.trans (congrArg UInt32.toNat kept).symm)⟩
  | once =>
      have cleared := owned.unset node.timer.id
      rw [own] at cleared
      exact ⟨cleared, issued⟩

theorem invoke_owned (clock : Nat → Nat) (script : Nat → List Call) (owned : Owned s loose)
    (issued : Issued s) (node : TimerNode)
    (few : adds (s.invoke clock script node).log < 2 ^ 32) :
    Owned (s.invoke clock script node) loose ∧ Issued (s.invoke clock script node) := by
  have begun : Rewired s ({ s with invocations := s.invocations + 1 }.note (.fired node.timer)) :=
    (⟨rfl, rfl, rfl, rfl, rfl, List.prefix_rfl⟩ :
      Rewired s { s with invocations := s.invocations + 1 }).trans (note_rewired _ rfl)
  exact performs_owned clock (owned.rewired begun) (issued.rewired begun) _ few

theorem timeoutLoop_owned (turns : Nat) {link : Link} (owned : Owned s []) (issued : Issued s)
    (few : adds (timeoutLoop clock script turns link s).log < 2 ^ 32) :
    Owned (timeoutLoop clock script turns link s) [] ∧
      Issued (timeoutLoop clock script turns link s) := by
  induction turns generalizing s link with
  | zero =>
      have noted : Rewired s (s.note .fault) := note_rewired s rfl
      rw [timeoutLoop]
      split
      · exact ⟨owned, issued⟩
      · exact ⟨owned.rewired noted, issued.rewired noted⟩
  | succ turns ih =>
      by_cases ends : link = .ready
      · rw [timeoutLoop, if_pos ends]
        exact ⟨owned, issued⟩
      cases found : s.nodeAt link with
      | none =>
          have noted : Rewired s (s.note .fault) := note_rewired s rfl
          rw [timeoutLoop, if_neg ends, found]
          exact ⟨owned.rewired noted, issued.rewired noted⟩
      | some node =>
          rw [timeoutLoop_node ends found] at few ⊢
          have there : s.nodes node.address = some node := by
            cases link with
            | node address =>
                have own := (owned.named address node found).1
                exact own ▸ found
            | null => cases found
            | ready => cases found
            | spoke wheel index => cases found
          obtain ⟨registered, counted⟩ := reregister_owned clock owned issued there
          have small : adds ((s.reregister clock node).invoke clock script node).log < 2 ^ 32 := by
            refine Nat.lt_of_le_of_lt (adds_mono ?_) few
            exact timeoutLoop_grows clock script turns
              (delete_grows (access_grows List.prefix_rfl _) _)
          obtain ⟨invoked, counted⟩ := invoke_owned clock script registered counted node small
          have accessed := access_rewired ((s.reregister clock node).invoke clock script node) link
          exact ih (invoked.rewired accessed).delete
            (delete_issued (counted.rewired accessed) node.address) few

/-- One call from outside. -/
theorem performs_step_owned {action : Timer.Action} (owned : Owned s []) (issued : Issued s)
    (step : Performs clock script s action s') (few : adds s'.log < 2 ^ 32) :
    Owned s' [] ∧ Issued s' := by
  cases action with
  | call call =>
      cases step
      exact perform_owned clock owned issued call few
  | detectTimerList =>
      obtain ⟨-, rfl⟩ := detect_cases step
      have read : Rewired s (s.getCurrentMillisec clock).2 :=
        ⟨rfl, rfl, rfl, rfl, rfl, List.prefix_rfl⟩
      have ticked := read.trans (ticks_rewired clock
        ((s.getCurrentMillisec clock).2.loopnum (clock s.readings)) _)
      obtain ⟨done, counted⟩ :=
        timeoutLoop_owned _ (owned.rewired ticked) (issued.rewired ticked) few
      exact ⟨done.rewired (relinked _ _), counted.rewired (relinked _ _)⟩

theorem reached_owned {actions : List Timer.Action}
    (run : Reached (fun _ _ => True) (Performs clock script) s actions s')
    (few : adds s'.log < 2 ^ 32) (owned : Owned s []) (issued : Issued s) :
    Owned s' [] ∧ Issued s' := by
  induction run with
  | nil => exact ⟨owned, issued⟩
  | cons _ step rest ih =>
      have small := Nat.lt_of_le_of_lt (adds_mono (reached_grow rest)) few
      obtain ⟨first, counted⟩ := performs_step_owned owned issued step small
      exact ih few first counted

theorem create_owned (clock : Nat → Nat) : Owned (create clock) [] where
  named _ _ found := by cases found
  gone _ old := absurd old (Nat.not_lt_zero _)
  known _ _ found := by cases found
  mapped _ _ found := by cases found

end FysobEngine.Common.LinkedTimer
