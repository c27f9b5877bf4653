import FysobEngine.Common.LinkedTimerLedger
import FysobEngine.Common.LinkedTimerMirror

/-!
# The books of the timer

The links spell the lists, the map leads to the linked nodes, and the log accounts
for the map. Every function of the timer keeps the books.
-/

namespace FysobEngine.Common

open Foundation.LinkRings Foundation.Logs

namespace Timer

def Linked (t : Timer) (node : TimerNode) : Prop := ∃ spot, node ∈ t.nodesAt spot

/-- The map leads to the nodes that are linked or in hand, under their ids. -/
def Mapped (t : Timer) (loose : List TimerNode) : Prop :=
  ∀ node, t.timerMap node.timer.id = some node ↔ t.Linked node ∨ node ∈ loose

variable {t t' : Timer} {loose loose' : List TimerNode}

theorem Mapped.move (mapped : t.Mapped loose) (map : t'.timerMap = t.timerMap)
    (same : ∀ node, t'.Linked node ∨ node ∈ loose' ↔ t.Linked node ∨ node ∈ loose) :
    t'.Mapped loose' := by
  intro node
  rw [map, same]
  exact mapped node

/-- One id is mapped anew. -/
theorem Mapped.set (mapped : t.Mapped []) (id : UInt32) (new : Option TimerNode)
    (map : ∀ other, t'.timerMap other = if other = id then new else t.timerMap other)
    (key : ∀ node, new = some node → node.timer.id = id)
    (linked : ∀ node, t'.Linked node ↔ new = some node ∨ t.Linked node ∧ node.timer.id ≠ id) :
    t'.Mapped [] := by
  intro node
  rw [map, linked]
  by_cases same : node.timer.id = id
  · rw [if_pos same]
    simp [same]
  · have other : new ≠ some node := fun eq => same (key node eq)
    rw [if_neg same, mapped node]
    simp [same, other]

/-- The spoke that is chosen exists. -/
theorem spokeFor_exists (t : Timer) (milseconds : Nat) :
    (Spot.spoke (t.spokeFor milseconds).1 (t.spokeFor milseconds).2).Exists := by
  unfold spokeFor
  dsimp only
  have inner (value : Nat) : value &&& wheelMask2 < 64 := Nat.lt_succ_of_le Nat.and_le_right
  split_ifs
  · refine ⟨(by decide : 0 < wheelNum), ?_⟩
    rw [mask1_eq_mod]
    exact Nat.mod_lt _ (wheelSize_pos 0)
  · exact ⟨(by decide : 1 < wheelNum), inner _⟩
  · exact ⟨(by decide : 2 < wheelNum), inner _⟩
  · exact ⟨(by decide : 3 < wheelNum), inner _⟩
  · exact ⟨(by decide : 4 < wheelNum), inner _⟩

theorem addTimerNode_eq_setSpoke (t : Timer) (milseconds : Nat) (node : TimerNode) :
    t.addTimerNode milseconds node =
      t.setSpoke (t.spokeFor milseconds).1 (t.spokeFor milseconds).2
        (t.nodesAt (.spoke (t.spokeFor milseconds).1 (t.spokeFor milseconds).2) ++ [node]) :=
  rfl

@[simp] theorem nodesAt_setSpoke_self (t : Timer) (wheel index : Nat) (nodes : List TimerNode) :
    (t.setSpoke wheel index nodes).nodesAt (.spoke wheel index) = nodes := by
  simp [nodesAt, setSpoke]

theorem nodesAt_setSpoke_of_ne {wheel index : Nat} {spot : Spot} (t : Timer)
    (nodes : List TimerNode) (ne : spot ≠ .spoke wheel index) :
    (t.setSpoke wheel index nodes).nodesAt spot = t.nodesAt spot := by
  cases spot with
  | ready => rfl
  | spoke k j =>
      refine if_neg fun same => ne ?_
      rw [same.1, same.2]

/-- A node more at one spot. -/
theorem linked_append {spot : Spot} {node : TimerNode}
    (here : t'.nodesAt spot = t.nodesAt spot ++ [node])
    (others : ∀ spot', spot' ≠ spot → t'.nodesAt spot' = t.nodesAt spot') (other : TimerNode) :
    t'.Linked other ↔ other = node ∨ t.Linked other := by
  constructor
  · rintro ⟨spot', member⟩
    by_cases same : spot' = spot
    · rw [same, here] at member
      obtain before | last := List.mem_append.mp member
      · exact .inr ⟨spot, before⟩
      · exact .inl (List.mem_singleton.mp last)
    · rw [others spot' same] at member
      exact .inr ⟨spot', member⟩
  · rintro (rfl | ⟨spot', member⟩)
    · exact ⟨spot, by simp [here]⟩
    · by_cases same : spot' = spot
      · exact ⟨spot, by rw [here]; exact List.mem_append_left _ (same ▸ member)⟩
      · exact ⟨spot', by rwa [others spot' same]⟩

/-! ### Removing a task -/

section RemoveTask

variable {id : UInt32} {node : TimerNode}

theorem removeTask_nodesAt (found : t.timerMap id = some node) (spot : Spot) :
    (t.removeTask id).nodesAt spot = (t.nodesAt spot).filter (· ≠ node) := by
  rw [removeTask, found]
  cases spot <;> rfl

theorem removeTask_timerMap (found : t.timerMap id = some node) (other : UInt32) :
    (t.removeTask id).timerMap other = if other = id then none else t.timerMap other := by
  rw [removeTask, found]
  rfl

theorem removeTask_autoIncreaseId (t : Timer) (id : UInt32) :
    (t.removeTask id).autoIncreaseId = t.autoIncreaseId := by
  unfold removeTask
  split <;> rfl

theorem removeTask_linked (found : t.timerMap id = some node) (other : TimerNode) :
    (t.removeTask id).Linked other ↔ t.Linked other ∧ other ≠ node := by
  simp [Linked, removeTask_nodesAt found]

theorem filter_ne_of_not_mem {nodes : List TimerNode} (outside : node ∉ nodes) :
    nodes.filter (· ≠ node) = nodes :=
  List.filter_eq_self.mpr fun _ member => decide_eq_true fun same => outside (same ▸ member)

/-- The map leads to the nodes that are left. -/
theorem Mapped.removeTask (mapped : t.Mapped []) (found : t.timerMap id = some node)
    (key : node.timer.id = id) : (t.removeTask id).Mapped [] := by
  refine mapped.set id none (removeTask_timerMap found) nofun fun other => ?_
  rw [removeTask_linked found]
  constructor
  · rintro ⟨old, ne⟩
    refine .inr ⟨old, fun same => ne ?_⟩
    have known := (mapped other).mpr (.inl old)
    rw [same, found] at known
    exact (Option.some.inj known).symm
  · rintro (none | ⟨old, ne⟩)
    · cases none
    · exact ⟨old, fun same => ne (same ▸ key)⟩

end RemoveTask

theorem addTimerNode_linked (t : Timer) (milseconds : Nat) (node other : TimerNode) :
    (t.addTimerNode milseconds node).Linked other ↔ other = node ∨ t.Linked other := by
  rw [addTimerNode_eq_setSpoke]
  exact linked_append (nodesAt_setSpoke_self _ _ _ _)
    (fun _ ne => nodesAt_setSpoke_of_ne _ _ ne) other

end Timer

namespace LinkedTimer

variable {s : LinkedTimer} {t t' : Timer} {front : Link} {loose : List TimerNode}
  {node hand : TimerNode}

structure Books (s : LinkedTimer) (t : Timer) (front : Link) (loose : List TimerNode) : Prop where
  mirrors : Mirrors s t front
  mapped : t.Mapped loose
  ledger : Ledger s.log t.timerMap t.autoIncreaseId
  each : ∀ node ∈ loose, Loose s t node
  apart : loose.Nodup

theorem spokeFor_eq (agrees : Agrees s t) (milseconds : Nat) : s.spokeFor milseconds =
    (Spot.spoke (t.spokeFor milseconds).1 (t.spokeFor milseconds).2).last := by
  rw [spokeFor, agrees.spokeIndex]
  rfl

/-! ## Adding a timer -/

/-- What `add_timer` does on both sides: it links the new node `node`. -/
structure Added (s : LinkedTimer) (t : Timer) (front : Link) (node : TimerNode)
    (s' : LinkedTimer) (t' : Timer) : Prop where
  mirrors : Mirrors s' t' front
  linked : ∀ other, t'.Linked other ↔ other = node ∨ t.Linked other
  log : s'.log = s.log ++ [.linked node.address]
  timerMap : t'.timerMap = t.timerMap
  autoIncreaseId : t'.autoIncreaseId = t.autoIncreaseId
  readyNodes : t'.readyNodes = t.readyNodes
  loose : ∀ hand, Loose s t hand → Loose s' t' hand

theorem addTimerNode_mirrors (m : Mirrors s t front) (loose : Loose s t node)
    (other : front ≠ node.link) (milseconds : Nat) :
    Mirrors (s.addTimerNode milseconds node.address) (t.addTimerNode milseconds node) front := by
  rw [addTimerNode, spokeFor_eq m.agrees, Timer.addTimerNode_eq_setSpoke]
  refine m.linkBefore (t.spokeFor_exists milseconds) loose other ?_ ?_ ?_
  · exact m.agrees.congr rfl rfl
  · exact Timer.nodesAt_setSpoke_self _ _ _ _
  · exact fun spot ne => Timer.nodesAt_setSpoke_of_ne _ _ ne

theorem addTimerNode_log (m : Mirrors s t front) (loose : Loose s t node) (milseconds : Nat) :
    (s.addTimerNode milseconds node.address).log = s.log ++ [.linked node.address] := by
  rw [addTimerNode, spokeFor_eq m.agrees,
    m.linkBefore_eq (t.spokeFor_exists milseconds) loose.allocated]

@[simp] theorem linkBefore_nodes (s : LinkedTimer) (last : Link) (address : Nat) :
    (s.linkBefore last address).nodes = s.nodes := by
  simp [linkBefore, note]

theorem addTimer_added (clock : Nat → Nat) (m : Mirrors s t front) (milseconds : Nat)
    (timer : TimerTask) :
    (s.addTimer clock milseconds timer).1 = (t.addTimer clock milseconds timer).1.address ∧
      (t.addTimer clock milseconds timer).1.timer = timer ∧
      Added s t front (t.addTimer clock milseconds timer).1
        (s.addTimer clock milseconds timer).2 (t.addTimer clock milseconds timer).2 := by
  have agrees := m.agrees
  have node_eq : (t.addTimer clock milseconds timer).1 =
      ⟨s.allocations, clock s.readings + milseconds, timer⟩ := by
    rw [agrees.allocations, agrees.readings]
    rfl
  have read : Mirrors { s with readings := s.readings + 1 }
      { t with readings := t.readings + 1 } front :=
    m.frame rfl rfl rfl rfl ⟨agrees.1, agrees.2, agrees.3, agrees.4, agrees.5,
      congrArg (· + 1) agrees.readings, agrees.7⟩ rfl
  -- the state before the new node is linked; the notes of its trace are not read
  obtain ⟨before, whole, lists, map, issued, ready, fresh⟩ : ∃ before : Timer,
      (t.addTimer clock milseconds timer).2 =
        before.addTimerNode milseconds (t.addTimer clock milseconds timer).1 ∧
      before.nodesAt = t.nodesAt ∧ before.timerMap = t.timerMap ∧
      before.autoIncreaseId = t.autoIncreaseId ∧ before.readyNodes = t.readyNodes ∧
      Agrees ({ s with readings := s.readings + 1 }.newNode timer
        (clock s.readings + milseconds)) before :=
    ⟨_, rfl, rfl, rfl, rfl, rfl, ⟨agrees.1, agrees.2, agrees.3, agrees.4,
      congrArg (· + 1) agrees.allocations, congrArg (· + 1) agrees.readings, agrees.7⟩⟩
  obtain ⟨made, loose, other⟩ := read.newNode timer (clock s.readings + milseconds) fresh lists
  rw [whole, node_eq]
  have linked (node : TimerNode) : before.Linked node ↔ t.Linked node := by
    rw [Timer.Linked, lists, Timer.Linked]
  refine ⟨rfl, rfl, addTimerNode_mirrors made loose other milseconds, fun node => ?_,
    addTimerNode_log made loose milseconds, map, issued, ready,
    fun hand free => ⟨?_, fun spot member => ?_⟩⟩
  · rw [Timer.addTimerNode_linked, linked]
  · have ne : hand.address ≠ s.allocations := Nat.ne_of_lt (m.named _ _ free.allocated).2
    have kept : ((s.addTimer clock milseconds timer).2).nodes hand.address =
        s.nodes hand.address := by
      exact (congrFun (linkBefore_nodes _ _ _) _).trans (Function.update_of_ne ne _ _)
    exact kept.trans free.allocated
  · obtain same | old := (Timer.addTimerNode_linked _ _ _ _).mp ⟨spot, member⟩
    · have address : hand.address < s.allocations := (m.named _ _ free.allocated).2
      rw [same] at address
      exact Nat.lt_irrefl _ address
    · obtain ⟨spot', inside⟩ := (linked hand).mp old
      exact free.outside spot' inside

/-! ## Calls -/

theorem setTimerMap_mirrors (m : Mirrors s t front) (id : UInt32) (new : Option TimerNode) :
    Mirrors (s.setTimerMap id (new.map TimerNode.address)) (t.setTimerMap id new) front := by
  refine m.frame rfl rfl rfl rfl ⟨m.agrees.1, m.agrees.2, fun other => ?_, m.agrees.4, m.agrees.5,
    m.agrees.6, m.agrees.7⟩ rfl
  simp only [setTimerMap, Timer.setTimerMap]
  split
  · rfl
  · exact m.agrees.timerMap other

/-- The new node is entered into the map under its id, which nothing else has. -/
theorem Added.register {t₀ : Timer} {s' : LinkedTimer} (added : Added s t front node s' t')
    (mapped : t₀.Mapped []) (map : t.timerMap = t₀.timerMap)
    (kept : ∀ other, t.Linked other ↔ t₀.Linked other ∧ other.timer.id ≠ node.timer.id) :
    Mirrors (s'.setTimerMap node.timer.id (some node.address))
        (t'.setTimerMap node.timer.id (some node)) front ∧
      (t'.setTimerMap node.timer.id (some node)).Mapped [] := by
  refine ⟨setTimerMap_mirrors added.mirrors node.timer.id (some node), ?_⟩
  refine mapped.set node.timer.id (some node) (fun other => ?_) ?_ fun other => ?_
  · rw [← map, ← added.timerMap]
    rfl
  · exact fun other same => congrArg (·.timer.id) (Option.some.inj same).symm
  · have same : (t'.setTimerMap node.timer.id (some node)).Linked other ↔ t'.Linked other := Iff.rfl
    rw [same, added.linked, kept, Option.some.injEq, eq_comm]

/-- What `add_task` does on both sides. -/
theorem addTask_cases (clock : Nat → Nat) (m : Mirrors s t front) (interval : UInt32)
    (type : TimerType) : ∃ node s' t',
      Added { s with autoIncreaseId := s.autoIncreaseId + 1 }
        { t with autoIncreaseId := t.autoIncreaseId + 1 } front node s' t' ∧
      node.timer = ⟨t.autoIncreaseId + 1, interval, type⟩ ∧
      s.addTask clock interval type =
        (s'.setTimerMap node.timer.id (some node.address)).note (.added node.timer) ∧
      t.addTask clock interval type = t'.setTimerMap node.timer.id (some node) := by
  have agrees := m.agrees
  have counted : Mirrors { s with autoIncreaseId := s.autoIncreaseId + 1 }
      { t with autoIncreaseId := t.autoIncreaseId + 1 } front :=
    m.frame rfl rfl rfl rfl ⟨agrees.1, agrees.2, agrees.3,
      congrArg (· + 1) agrees.autoIncreaseId, agrees.5, agrees.6, agrees.7⟩ rfl
  obtain ⟨address, timer, added⟩ := addTimer_added clock counted interval.toNat
    ⟨t.autoIncreaseId + 1, interval, type⟩
  refine ⟨_, _, _, added, timer, ?_, ?_⟩
  · rw [timer, ← address, ← agrees.autoIncreaseId]
    rfl
  · rw [timer]
    rfl

theorem addTask_books (clock : Nat → Nat) (books : Books s t front []) (interval : UInt32)
    (type : TimerType) (few : adds (s.addTask clock interval type).log < 2 ^ 32) :
    Books (s.addTask clock interval type) (t.addTask clock interval type) front [] ∧
      ∀ hand, Loose s t hand →
        Loose (s.addTask clock interval type) (t.addTask clock interval type) hand := by
  obtain ⟨node, s', t', added, timer, side, side'⟩ :=
    addTask_cases clock books.mirrors interval type
  rw [side] at few
  rw [side, side']
  have log : s'.log = s.log ++ [.linked node.address] := added.log
  have linkedLedger : Ledger s'.log t.timerMap t.autoIncreaseId := by
    rw [log]
    exact books.ledger.silent rfl
  have room : adds s'.log + 1 < 2 ^ 32 := by
    change adds (s'.log ++ [.added node.timer]) < 2 ^ 32 at few
    rw [adds_append] at few
    exact few
  have fresh := linkedLedger.fresh room
  have id_eq : node.timer.id = t.autoIncreaseId + 1 := by rw [timer]
  obtain ⟨mirrors, mapped⟩ := added.register books.mapped rfl fun other => by
    refine ⟨fun linked => ⟨linked, fun same => ?_⟩, And.left⟩
    have found := (books.mapped other).mpr (.inl linked)
    rw [same, id_eq, fresh] at found
    cases found
  refine ⟨⟨mirrors.note nofun nofun nofun, mapped, ?_, nofun, List.nodup_nil⟩, fun hand free => ?_⟩
  · have issued : (t'.setTimerMap node.timer.id (some node)).autoIncreaseId =
        t.autoIncreaseId + 1 := added.autoIncreaseId
    rw [issued]
    refine linkedLedger.add room id_eq rfl (if_pos rfl) fun id other => ?_
    exact (if_neg other).trans (congrFun added.timerMap id)
  · have kept := added.loose hand ⟨free.allocated, free.outside⟩
    exact ⟨kept.allocated, kept.outside⟩

/-- The node of a mapped task is linked at one spot, once. -/
theorem Books.linked_once (books : Books s t front loose) (linked : t.Linked node) :
    ∃ spot xs ys, t.nodesAt spot = xs ++ node :: ys ∧ node ∉ xs ∧ node ∉ ys ∧
      ∀ spot', spot' ≠ spot → node ∉ t.nodesAt spot' := by
  obtain ⟨spot, member⟩ := linked
  obtain ⟨xs, ys, here⟩ := List.append_of_mem member
  have nodup := (List.nodup_cons.mp (books.mirrors.strands.nodup spot)).2
  have distinct : (t.nodesAt spot).Nodup := List.Nodup.of_map TimerNode.link nodup
  rw [here, List.nodup_middle, List.nodup_cons, List.mem_append, not_or] at distinct
  refine ⟨spot, xs, ys, here, distinct.1.1, distinct.1.2, fun spot' other inside => other ?_⟩
  exact books.mirrors.strands.eq_of_mem (List.mem_map_of_mem (f := TimerNode.link) inside)
    (List.mem_map_of_mem member)

/-- What `remove_task` does with the node that it finds. -/
theorem removeTask_cases (m : Mirrors s t front) {id : UInt32} (found : t.timerMap id = some node)
    (linked : t.Linked node) : ∃ l : Links Link,
      (∀ link, link ≠ node.link → l.next link = (s.links.unlink node.link).next link) ∧
      (∀ link, link ≠ node.link → l.prev link = (s.links.unlink node.link).prev link) ∧
      s.removeTask id =
        (({ ({ s.setTimerMap id none with links := s.links.unlink node.link }.note
          (.unlinked node.address)) with links := l } : LinkedTimer).delete node.address).note
            (.removed id) := by
  obtain ⟨spot, member⟩ := linked
  have mapped : s.timerMap id = some node.address := by
    rw [m.agrees.timerMap, found]
    rfl
  have cleared : Mirrors (s.setTimerMap id none) (t.setTimerMap id none) front :=
    setTimerMap_mirrors m id none
  have passed : (s.setTimerMap id none).skipBoth (.node node.address) =
      { s.setTimerMap id none with links := s.links.unlink node.link } :=
    cleared.skipBoth_eq (show node ∈ (t.setTimerMap id none).nodesAt spot from member)
  refine ⟨((s.links.unlink node.link).setPrev node.link .null).setNext node.link .null, ?_, ?_, ?_⟩
  · exact fun link ne => Links.setNext_next_of_ne _ _ ne
  · exact fun link ne => Links.setPrev_prev_of_ne _ _ ne
  · rw [removeTask, mapped]
    dsimp only
    rw [passed]
    rfl

/-- An unknown id removes nothing. -/
theorem removeTask_unknown (books : Books s t front []) {id : UInt32}
    (unknown : t.timerMap id = none) :
    Books (s.removeTask id) (t.removeTask id) front [] ∧
      ∀ hand, Loose s t hand → Loose (s.removeTask id) (t.removeTask id) hand := by
  have absent : s.timerMap id = none := by
    rw [books.mirrors.agrees.timerMap, unknown]
    rfl
  have side : s.removeTask id = s.note (.removed id) := by
    rw [removeTask, absent]
  have side' : t.removeTask id = t := by
    rw [Timer.removeTask, unknown]
  rw [side, side']
  refine ⟨⟨books.mirrors.note nofun nofun nofun, books.mapped, ?_, nofun, List.nodup_nil⟩,
    fun hand free => ⟨free.allocated, free.outside⟩⟩
  exact books.ledger.remove unknown fun _ _ => rfl

/-- The node that is found is taken out of the links and out of the lists. -/
theorem removeTask_unlinks (books : Books s t front []) {id : UInt32}
    (found : t.timerMap id = some node) (linked : t.Linked node) :
    Mirrors ({ s.setTimerMap id none with links := s.links.unlink node.link }.note
        (.unlinked node.address)) (t.removeTask id) front ∧
      Loose (s.setTimerMap id none) (t.removeTask id) node ∧ front ≠ node.link := by
  obtain ⟨spot, xs, ys, here, before, behind, elsewhere⟩ := books.linked_once linked
  have here' : (t.removeTask id).nodesAt spot = xs ++ ys := by
    rw [Timer.removeTask_nodesAt found, here, List.filter_append,
      List.filter_cons_of_neg (by simp), Timer.filter_ne_of_not_mem before,
      Timer.filter_ne_of_not_mem behind]
  have others : ∀ spot', spot' ≠ spot →
      (t.removeTask id).nodesAt spot' = t.nodesAt spot' := by
    intro spot' ne
    rw [Timer.removeTask_nodesAt found, Timer.filter_ne_of_not_mem (elsewhere spot' ne)]
  have cleared : Mirrors (s.setTimerMap id none) (t.setTimerMap id none) front :=
    setTimerMap_mirrors books.mirrors id none
  have agrees : Agrees (s.setTimerMap id none) (t.removeTask id) := by
    rw [Timer.removeTask, found]
    exact cleared.agrees.congr rfl rfl
  obtain ⟨unlinked, loose⟩ := cleared.unlink agrees here here' others
  exact ⟨unlinked, loose, books.mirrors.front_ne (by rw [here]; exact List.mem_append_cons_self)⟩

theorem removeTask_books (books : Books s t front []) (id : UInt32) :
    Books (s.removeTask id) (t.removeTask id) front [] ∧
      ∀ hand, Loose s t hand → Loose (s.removeTask id) (t.removeTask id) hand := by
  cases found : t.timerMap id with
  | none => exact removeTask_unknown books found
  | some node =>
      have key := (books.ledger.mapped id node found).1
      have linked : t.Linked node := by
        rw [← key] at found
        exact ((books.mapped node).mp found).resolve_right nofun
      obtain ⟨unlinked, loose, other⟩ := removeTask_unlinks books found linked
      obtain ⟨l, next, prev, side⟩ := removeTask_cases books.mirrors found linked
      have scrubbed := unlinked.relink (unlinked.scrub node.address other
        (fun spot inside => loose.outside spot (unlinked.mem_of_link loose.allocated inside))
        next prev)
      have deleted := scrubbed.delete ⟨loose.allocated, loose.outside⟩ scrubbed.strands
        scrubbed.front other scrubbed.agrees fun _ _ member => member
      rw [side]
      refine ⟨⟨deleted.note nofun nofun nofun, books.mapped.removeTask found key, ?_, nofun,
        List.nodup_nil⟩, fun hand free => ?_⟩
      · have log : (({ ({ s.setTimerMap id none with links := s.links.unlink node.link }.note
            (.unlinked node.address)) with links := l } : LinkedTimer).delete node.address).log =
            s.log ++ [.unlinked node.address] ++ [.deleted node.address] := by
          rw [Mirrors.delete_eq]
          · rfl
          · exact loose.allocated
        have silent : Ledger (s.log ++ [.unlinked node.address] ++ [.deleted node.address])
            t.timerMap t.autoIncreaseId := (books.ledger.silent rfl).silent rfl
        have map := Timer.removeTask_timerMap found
        rw [Timer.removeTask_autoIncreaseId]
        rw [← log] at silent
        exact silent.remove ((map id).trans (if_pos rfl)) fun other ne =>
          (map other).trans (if_neg ne)
      · have ne : hand.address ≠ node.address := by
          intro same
          have both := free.allocated
          obtain ⟨spot, member⟩ := linked
          rw [same, books.mirrors.allocated spot node member] at both
          exact free.outside spot (Option.some.inj both ▸ member)
        refine ⟨?_, fun spot inside => ?_⟩
        · exact (delete_nodes_of_ne _ ne).trans free.allocated
        · obtain ⟨spot', old⟩ := ((Timer.removeTask_linked found hand).mp ⟨spot, inside⟩).1
          exact free.outside spot' old

end LinkedTimer

end FysobEngine.Common
