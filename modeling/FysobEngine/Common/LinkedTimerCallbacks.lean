import FysobEngine.Common.LinkedTimerLog

/-!
# Callbacks keep the books

While a callback is invoked its node is in hand: the ready list begins at it, and
the map does not lead to it. Whatever the callback adds or removes, the node stays
allocated, and its next link leads to the node that is due after it.
-/

namespace FysobEngine.Common

open Foundation.LinkRings Foundation.Logs

namespace LinkedTimer

variable {clock : Nat → Nat} {script : Nat → List Call} {s : LinkedTimer} {t : Timer}
  {front : Link} {node : TimerNode} {rest : List TimerNode}

theorem adds_mono {log log' : List Entry} (grows : log <+: log') : adds log ≤ adds log' :=
  grows.sublist.countP_le

/-! ## Calls -/

theorem perform_books (clock : Nat → Nat) (books : Books s t front []) (call : Call)
    (few : adds (s.perform clock call).log < 2 ^ 32) :
    Books (s.perform clock call) (t.perform clock call) front [] ∧
      ∀ hand, Loose s t hand → Loose (s.perform clock call) (t.perform clock call) hand := by
  cases call with
  | addTask interval type => exact addTask_books clock books interval type few
  | removeTask id => exact removeTask_books books id

theorem performs_books (clock : Nat → Nat) (books : Books s t front []) (calls : List Call)
    (few : adds (calls.foldl (perform clock) s).log < 2 ^ 32) :
    Books (calls.foldl (perform clock) s) (calls.foldl (Timer.perform clock) t) front [] ∧
      ∀ hand, Loose s t hand →
        Loose (calls.foldl (perform clock) s) (calls.foldl (Timer.perform clock) t) hand := by
  induction calls generalizing s t with
  | nil => exact ⟨books, fun _ loose => loose⟩
  | cons call rest ih =>
      have grows := performs_grows clock rest (List.prefix_rfl (l := (s.perform clock call).log))
      obtain ⟨first, kept⟩ := perform_books clock books call
        (Nat.lt_of_le_of_lt (adds_mono grows) few)
      obtain ⟨later, still⟩ := ih first few
      exact ⟨later, fun hand loose => still hand (kept hand loose)⟩

/-! ## A node in hand -/

/-- A node has been taken off the ready list, and the map still leads to it. -/
structure InHand (s : LinkedTimer) (t : Timer) (node : TimerNode) (rest : List TimerNode) :
    Prop where
  ready : t.readyNodes = node :: rest
  mirrors : Mirrors s { t with readyNodes := rest } node.link
  mapped : t.Mapped []
  ledger : Ledger s.log t.timerMap t.autoIncreaseId
  allocated : s.nodes node.address = some node

theorem InHand.found (hand : InHand s t node rest) : t.timerMap node.timer.id = some node := by
  refine (hand.mapped node).mpr (.inl ⟨.ready, ?_⟩)
  change node ∈ t.readyNodes
  rw [hand.ready]
  exact List.mem_cons_self

theorem InHand.loose (hand : InHand s t node rest) : Loose s { t with readyNodes := rest } node :=
  ⟨hand.allocated, fun _ member => hand.mirrors.front_ne member rfl⟩

/-- The other nodes have other ids. -/
theorem InHand.linked_iff (hand : InHand s t node rest) (other : TimerNode) :
    Timer.Linked { t with readyNodes := rest } other ↔
      t.Linked other ∧ other.timer.id ≠ node.timer.id := by
  constructor
  · rintro ⟨spot, member⟩
    have linked : t.Linked other := by
      cases spot with
      | ready =>
          refine ⟨.ready, ?_⟩
          change other ∈ t.readyNodes
          rw [hand.ready]
          exact List.mem_cons_of_mem node member
      | spoke wheel index => exact ⟨.spoke wheel index, member⟩
    refine ⟨linked, fun same => ?_⟩
    have found := (hand.mapped other).mpr (.inl linked)
    rw [same, hand.found] at found
    exact hand.loose.outside spot (Option.some.inj found ▸ member)
  · rintro ⟨⟨spot, member⟩, ne⟩
    cases spot with
    | ready =>
        change other ∈ t.readyNodes at member
        rw [hand.ready] at member
        obtain rfl | later := List.mem_cons.mp member
        · exact absurd rfl ne
        · exact ⟨.ready, later⟩
    | spoke wheel index => exact ⟨.spoke wheel index, member⟩

end LinkedTimer

/-- `do_timeout_callback` before it invokes the callback, on lists. -/
def Timer.reregister (clock : Nat → Nat) (t : Timer) (node : TimerNode) : Timer :=
  match node.timer.type with
  | .circle =>
      let (again, t) := t.addTimer clock node.timer.interval.toNat node.timer
      t.setTimerMap node.timer.id (some again)
  | .once => t.setTimerMap node.timer.id none

namespace LinkedTimer

variable {clock : Nat → Nat} {script : Nat → List Call} {s : LinkedTimer} {t : Timer}
  {front : Link} {node : TimerNode} {rest : List TimerNode}

/-- Behind the registration the node in hand is in no list and not in the map, and the
log notes that it fires. -/
theorem InHand.fire (clock : Nat → Nat) (hand : InHand s t node rest) :
    Mirrors (s.reregister clock node) (Timer.reregister clock { t with readyNodes := rest } node)
        node.link ∧
      (Timer.reregister clock { t with readyNodes := rest } node).Mapped [] ∧
      Ledger ((s.reregister clock node).log ++ [.fired node.timer])
        (Timer.reregister clock { t with readyNodes := rest } node).timerMap
        (Timer.reregister clock { t with readyNodes := rest } node).autoIncreaseId ∧
      Loose (s.reregister clock node) (Timer.reregister clock { t with readyNodes := rest } node)
        node := by
  rw [reregister, Timer.reregister]
  cases type : node.timer.type with
  | circle =>
      obtain ⟨address, timer, added⟩ := addTimer_added clock hand.mirrors
        node.timer.interval.toNat node.timer
      obtain ⟨mirrors, mapped⟩ := added.register hand.mapped rfl (by
        rw [timer]
        exact hand.linked_iff)
      have kept := added.loose node hand.loose
      have silent : Ledger (addTimer clock s node.timer.interval.toNat node.timer).2.log t.timerMap
          t.autoIncreaseId := by
        rw [added.log]
        exact hand.ledger.silent rfl
      rw [timer, ← address] at mirrors
      rw [timer] at mapped
      refine ⟨mirrors, mapped, ?_, kept.allocated, kept.outside⟩
      have issued : (Timer.addTimer clock { t with readyNodes := rest }
          node.timer.interval.toNat node.timer).2.autoIncreaseId = t.autoIncreaseId :=
        added.autoIncreaseId
      rw [← issued] at silent
      refine silent.fire hand.found (fun _ => ⟨_, if_pos rfl, timer⟩) (fun single => ?_)
        fun id ne => (if_neg ne).trans (congrFun added.timerMap id)
      rw [type] at single
      cases single
  | once =>
      have map (other : UInt32) : (Timer.setTimerMap { t with readyNodes := rest } node.timer.id
          none).timerMap other = if other = node.timer.id then none else t.timerMap other := rfl
      refine ⟨setTimerMap_mirrors hand.mirrors node.timer.id none, ?_, ?_, hand.loose.allocated,
        hand.loose.outside⟩
      · refine hand.mapped.set node.timer.id none map nofun fun other => ?_
        have same : Timer.Linked
            (Timer.setTimerMap { t with readyNodes := rest } node.timer.id none) other ↔
              Timer.Linked { t with readyNodes := rest } other := Iff.rfl
        rw [same, hand.linked_iff]
        simp
      · refine hand.ledger.fire hand.found (fun circle => ?_) (fun _ => if_pos rfl)
          fun id ne => if_neg ne
        rw [type] at circle
        cases circle

/-- The callback of a node whose firing has been accounted for. -/
theorem invoke_books (script : Nat → List Call) (mirrors : Mirrors s t front)
    (mapped : t.Mapped [])
    (ledger : Ledger (s.log ++ [.fired node.timer]) t.timerMap t.autoIncreaseId)
    (few : adds (s.invoke clock script node).log < 2 ^ 32) :
    Books (s.invoke clock script node) (t.invoke clock script node) front [] ∧
      ∀ hand, Loose s t hand →
        Loose (s.invoke clock script node) (t.invoke clock script node) hand := by
  have agrees := mirrors.agrees
  have noted : Mirrors (s.note (.fired node.timer)) t front := mirrors.note nofun nofun nofun
  have begun : Books ({ s with invocations := s.invocations + 1 }.note (.fired node.timer))
      ({ t with invocations := t.invocations + 1 }.note
        (.fired node (clock (t.readings - 1)))) front [] := by
    refine ⟨noted.frame rfl rfl rfl rfl ?_ rfl, mapped, ledger, nofun, List.nodup_nil⟩
    exact ⟨agrees.1, agrees.2, agrees.3, agrees.4, agrees.5, agrees.6,
      congrArg (· + 1) agrees.invocations⟩
  have side : s.invoke clock script node = (script t.invocations).foldl (perform clock)
      ({ s with invocations := s.invocations + 1 }.note (.fired node.timer)) := by
    rw [invoke, agrees.invocations]
  rw [side] at few ⊢
  obtain ⟨done, kept⟩ := performs_books clock begun (script t.invocations) few
  exact ⟨done, fun hand loose => kept hand ⟨loose.allocated, loose.outside⟩⟩

/-- The callback of the node in hand. -/
theorem InHand.invoke (script : Nat → List Call) (hand : InHand s t node rest)
    (few : adds ((s.reregister clock node).invoke clock script node).log < 2 ^ 32) :
    Books ((s.reregister clock node).invoke clock script node)
        ((Timer.reregister clock { t with readyNodes := rest } node).invoke clock script node)
        node.link [] ∧
      Loose ((s.reregister clock node).invoke clock script node)
        ((Timer.reregister clock { t with readyNodes := rest } node).invoke clock script node)
        node := by
  obtain ⟨mirrors, mapped, ledger, loose⟩ := hand.fire clock
  obtain ⟨books, kept⟩ := invoke_books script mirrors mapped ledger few
  exact ⟨books, kept node loose⟩

/-! ## The loop -/

theorem timeoutLoop_end (turns : Nat) (s : LinkedTimer) :
    timeoutLoop clock script turns .ready s = s := by
  cases turns with
  | zero => rw [timeoutLoop, if_pos rfl]
  | succ turns => rw [timeoutLoop, if_pos rfl]

theorem timeoutLoop_node {link : Link} (ne : link ≠ .ready) (found : s.nodeAt link = some node)
    (turns : Nat) : timeoutLoop clock script (turns + 1) link s =
      timeoutLoop clock script turns
        ((((s.reregister clock node).invoke clock script node).access link).links.next link)
        ((((s.reregister clock node).invoke clock script node).access link).delete
          node.address) := by
  rw [timeoutLoop, if_neg ne, found]

theorem timer_timeoutLoop_cons (ready : t.readyNodes = node :: rest) (left : Nat) :
    Timer.timeoutLoop clock script (left + 1) t = Timer.timeoutLoop clock script left
      ((Timer.reregister clock { t with readyNodes := rest } node).invoke clock script node) := by
  rw [Timer.timeoutLoop, ready]
  rfl

theorem timer_timeoutLoop_nil (ready : t.readyNodes = []) (left : Nat) :
    Timer.timeoutLoop clock script left t = t := by
  cases left with
  | zero => rw [Timer.timeoutLoop]
  | succ left => rw [Timer.timeoutLoop, ready]

/-- The first node of the ready list is taken. -/
theorem Mirrors.takeReady (m : Mirrors s t front) (ready : t.readyNodes = node :: rest) :
    Strands s.links (Spot.first node.link) Spot.last
        (Timer.linksAt { t with readyNodes := rest }) ∧
      (∀ spot, ∀ node ∈ Timer.nodesAt { t with readyNodes := rest } spot,
        node ∈ t.nodesAt spot) ∧
      node ∈ t.nodesAt .ready ∧ s.links.next front = node.link := by
  have here : t.linksAt .ready = node.link :: rest.map TimerNode.link :=
    congrArg (List.map TimerNode.link) ready
  have first := (m.strands.strand .ready).next_first
  rw [here] at first
  refine ⟨m.strands.advance here rfl rfl fun spot ne => ?_, fun spot node' inside => ?_, ?_, first⟩
  · cases spot with
    | ready => exact absurd rfl ne
    | spoke wheel index => exact ⟨rfl, rfl⟩
  · cases spot with
    | ready =>
        change node' ∈ t.readyNodes
        rw [ready]
        exact List.mem_cons_of_mem node inside
    | spoke wheel index => exact inside
  · change node ∈ t.readyNodes
    rw [ready]
    exact List.mem_cons_self

/-- An empty ready list becomes a ring again. -/
theorem Mirrors.closeReady (m : Mirrors s t front) (ready : t.readyNodes = []) :
    Mirrors { s with links := s.links.close .ready } t .ready ∧ s.links.next front = .ready := by
  have agrees := m.agrees
  have here : t.linksAt .ready = [] := congrArg (List.map TimerNode.link) ready
  have first := (m.strands.strand .ready).next_first
  rw [here] at first
  refine ⟨⟨agrees.congr rfl rfl, ?_, rfl, m.allocated, m.placed, m.linked, m.named, m.gone,
    m.tidy⟩, first⟩
  refine m.strands.close (i := .ready) here rfl (fun spot ne => ?_) fun spot ne => ?_
  · cases spot with
    | ready => exact absurd rfl ne
    | spoke wheel index => exact ⟨rfl, rfl⟩
  · cases spot with
    | ready => exact absurd rfl ne
    | spoke wheel index => nofun

/-- Behind a callback the next node of the ready list is taken, and the one that was
in hand deleted. -/
theorem Books.nextHand (books : Books s t node.link []) (loose : Loose s t node)
    {next : TimerNode} (ready : t.readyNodes = next :: rest) :
    InHand (s.delete node.address) t next rest ∧ s.links.next node.link = next.link := by
  have m := books.mirrors
  have agrees := m.agrees
  obtain ⟨strands, fewer, member, first⟩ := m.takeReady ready
  have other : next.link ≠ node.link := (m.front_ne member).symm
  have address : next.address ≠ node.address := fun same => other (congrArg Link.node same)
  refine ⟨⟨ready, m.delete loose strands (m.alive_node member) other ?_ fewer, books.mapped, ?_,
    (delete_nodes_of_ne s address).trans (m.allocated .ready next member)⟩, first⟩
  · exact agrees.congr rfl rfl
  · rw [Mirrors.delete_eq loose.allocated]
    exact books.ledger.silent rfl

/-- Behind the last callback the ready list is closed. -/
theorem Books.lastHand (books : Books s t node.link []) (loose : Loose s t node)
    (ready : t.readyNodes = []) :
    Books { s.delete node.address with links := (s.delete node.address).links.close .ready }
        t .ready [] ∧ s.links.next node.link = .ready := by
  obtain ⟨closed, first⟩ := books.mirrors.closeReady ready
  have deleted := closed.delete ⟨loose.allocated, loose.outside⟩ closed.strands rfl nofun
    closed.agrees fun _ _ member => member
  have same : ({ s with links := s.links.close .ready } : LinkedTimer).delete node.address =
      { s.delete node.address with links := (s.delete node.address).links.close .ready } := by
    rw [Mirrors.delete_eq loose.allocated, Mirrors.delete_eq]
    exact loose.allocated
  refine ⟨⟨same ▸ deleted, books.mapped, ?_, nofun, List.nodup_nil⟩, first⟩
  rw [Mirrors.delete_eq loose.allocated]
  exact books.ledger.silent rfl

theorem reregister_ready (clock : Nat → Nat) (t : Timer) (node : TimerNode) :
    (Timer.reregister clock t node).readyNodes = t.readyNodes := by
  rw [Timer.reregister]
  split <;> rfl

/-- The loop goes on from the node in hand to the end of the ready list, which is
then closed. -/
theorem timeoutLoop_books (turns left : Nat) (hand : InHand s t node rest)
    (enough : rest.length < turns) (enough' : rest.length < left)
    (few : adds (timeoutLoop clock script turns node.link s).log < 2 ^ 32) :
    Books { timeoutLoop clock script turns node.link s with
        links := (timeoutLoop clock script turns node.link s).links.close .ready }
      (Timer.timeoutLoop clock script left t) .ready [] ∧
      (Timer.timeoutLoop clock script left t).readyNodes = [] := by
  induction turns generalizing s t node rest left with
  | zero => cases enough
  | succ turns ih =>
      cases left with
      | zero => cases enough'
      | succ left =>
          have ne : node.link ≠ .ready := link_ne_last node .ready
          have found : s.nodeAt node.link = some node := hand.allocated
          rw [timeoutLoop_node ne found] at few ⊢
          rw [timer_timeoutLoop_cons hand.ready]
          have small : adds ((s.reregister clock node).invoke clock script node).log < 2 ^ 32 := by
            refine Nat.lt_of_le_of_lt (adds_mono ?_) few
            exact timeoutLoop_grows clock script turns
              (delete_grows (access_grows List.prefix_rfl _) _)
          obtain ⟨books, loose⟩ := hand.invoke script small
          rw [access_of_alive books.mirrors.front] at few ⊢
          have shorter : ((Timer.reregister clock { t with readyNodes := rest } node).invoke clock
              script node).readyNodes.length ≤ rest.length := by
            refine Nat.le_trans (Timer.performs_ready _ _) (Nat.le_of_eq ?_)
            exact congrArg List.length (reregister_ready clock _ node)
          cases ready : ((Timer.reregister clock { t with readyNodes := rest } node).invoke clock
              script node).readyNodes with
          | nil =>
              obtain ⟨closed, onward⟩ := books.lastHand loose ready
              rw [onward, timeoutLoop_end, timer_timeoutLoop_nil ready]
              exact ⟨closed, ready⟩
          | cons next later =>
              obtain ⟨taken, onward⟩ := books.nextHand loose ready
              rw [onward] at few ⊢
              rw [ready, List.length_cons] at shorter
              exact ih left taken (by omega) (by omega) few

theorem doTimeoutCallback_books (books : Books s t .ready [])
    (few : adds (s.doTimeoutCallback clock script).log < 2 ^ 32) :
    Books (s.doTimeoutCallback clock script) (t.doTimeoutCallback clock script) .ready [] ∧
      (t.doTimeoutCallback clock script).readyNodes = [] := by
  have agrees := books.mirrors.agrees
  have enough := books.mirrors.length_le .ready
  cases ready : t.readyNodes with
  | nil =>
      obtain ⟨closed, first⟩ := books.mirrors.closeReady ready
      rw [doTimeoutCallback, Timer.doTimeoutCallback, first, timeoutLoop_end,
        timer_timeoutLoop_nil ready]
      exact ⟨⟨closed, books.mapped, books.ledger, nofun, List.nodup_nil⟩, ready⟩
  | cons node rest =>
      obtain ⟨strands, fewer, member, first⟩ := books.mirrors.takeReady ready
      change t.readyNodes.length ≤ s.allocations at enough
      rw [ready, List.length_cons] at enough
      have taken : Mirrors s { t with readyNodes := rest } node.link :=
        ⟨agrees.congr rfl rfl, strands, books.mirrors.alive_node member,
          fun spot node inside => books.mirrors.allocated spot node (fewer spot node inside),
          books.mirrors.placed_of_fewer fewer,
          fun spot node inside => books.mirrors.linked spot node (fewer spot node inside),
          books.mirrors.named, books.mirrors.gone, books.mirrors.tidy⟩
      have hand : InHand s t node rest := ⟨ready, taken, books.mapped, books.ledger,
        books.mirrors.allocated .ready node member⟩
      rw [doTimeoutCallback, first] at few ⊢
      rw [Timer.doTimeoutCallback, ready]
      exact timeoutLoop_books _ _ hand enough (Nat.lt_succ_self _) few

end LinkedTimer

end FysobEngine.Common
