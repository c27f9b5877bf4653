import Mathlib.Data.List.Perm.Subperm
import FysobEngine.Common.LinkedTimerBooks

/-!
# Ticks keep the books

The loops over links go along the nodes of the lists: the nodes of a spoke are
unlinked one after another, or they are cut off together and linked anew.
-/

namespace FysobEngine.Common.LinkedTimer

open Foundation.LinkRings Foundation.Logs
open Timer (wheelNum wheelSize)

variable {s : LinkedTimer} {t t' : Timer} {front : Link} {rest : List TimerNode}
  {node : TimerNode} {spot : Spot}

/-- What is no link, node, log entry or map may change on both sides. -/
theorem Books.frame {loose : List TimerNode} (books : Books s t front loose) {s' : LinkedTimer}
    (links : s'.links = s.links) (nodes : s'.nodes = s.nodes)
    (allocations : s'.allocations = s.allocations) (log : s'.log = s.log) (agrees : Agrees s' t')
    (lists : t'.nodesAt = t.nodesAt) (map : t'.timerMap = t.timerMap)
    (issued : t'.autoIncreaseId = t.autoIncreaseId) : Books s' t' front loose where
  mirrors := books.mirrors.frame links nodes allocations log agrees lists
  mapped := books.mapped.move map fun node => by rw [Timer.Linked, lists, Timer.Linked]
  ledger := by
    rw [log, map, issued]
    exact books.ledger
  each node member := by
    obtain ⟨allocated, outside⟩ := books.each node member
    exact ⟨nodes ▸ allocated, lists ▸ outside⟩
  apart := books.apart

theorem Books.setSpokeIndex {loose : List TimerNode} (books : Books s t front loose)
    (wheel index : Nat) :
    Books (s.setSpokeIndex wheel index) (t.setSpokeIndex wheel index) front loose := by
  have agrees := books.mirrors.agrees
  refine books.frame rfl rfl rfl rfl ⟨?_, agrees.2, agrees.3, agrees.4, agrees.5, agrees.6,
    agrees.7⟩ rfl rfl rfl
  funext k
  rw [LinkedTimer.setSpokeIndex, Timer.setSpokeIndex, agrees.spokeIndex]

theorem Books.read {loose : List TimerNode} (clock : Nat → Nat) (books : Books s t front loose) :
    Books (s.getCurrentMillisec clock).2 (t.getCurrentMillisec clock).2 front loose := by
  have agrees := books.mirrors.agrees
  exact books.frame rfl rfl rfl rfl ⟨agrees.1, agrees.2, agrees.3, agrees.4, agrees.5,
    congrArg (· + 1) agrees.readings, agrees.7⟩ rfl rfl rfl

theorem link_ne_last (node : TimerNode) (spot : Spot) : node.link ≠ spot.last := by
  cases spot <;> nofun

theorem Mirrors.distinct (m : Mirrors s t front) (spot : Spot) :
    ((t.nodesAt spot).map TimerNode.address).Nodup := by
  have nodup := (List.nodup_cons.mp (m.strands.nodup spot)).2
  refine List.Nodup.of_map Link.node ?_
  rw [List.map_map]
  exact nodup

/-- There are no more nodes than allocations. -/
theorem Mirrors.length_le (m : Mirrors s t front) (spot : Spot) :
    (t.nodesAt spot).length ≤ s.allocations := by
  have within : (t.nodesAt spot).map TimerNode.address ⊆ List.range s.allocations := by
    intro address member
    obtain ⟨node, inside, rfl⟩ := List.mem_map.mp member
    exact List.mem_range.mpr (m.address_lt inside)
  have short := (List.subperm_of_subset (m.distinct spot) within).length_le
  rwa [List.length_map, List.length_range] at short

/-! ## Nodes in hand are linked -/

/-- A node in hand is linked at the end of a spot. -/
theorem Books.link (books : Books s t .ready (node :: rest)) (place : spot.Exists)
    (agrees : Agrees s t') (here : t'.nodesAt spot = t.nodesAt spot ++ [node])
    (others : ∀ spot', spot' ≠ spot → t'.nodesAt spot' = t.nodesAt spot')
    (map : t'.timerMap = t.timerMap) (issued : t'.autoIncreaseId = t.autoIncreaseId) :
    Books (s.linkBefore spot.last node.address) t' .ready rest := by
  have loose := books.each node List.mem_cons_self
  obtain ⟨notMem, nodup⟩ := List.nodup_cons.mp books.apart
  have linked := Timer.linked_append here others
  refine ⟨books.mirrors.linkBefore place loose nofun agrees here others, ?_, ?_, ?_, nodup⟩
  · refine books.mapped.move map fun other => ?_
    rw [linked, List.mem_cons]
    exact ⟨fun either => either.elim (fun first => first.elim (fun same => .inr (.inl same)) .inl)
      fun last => .inr (.inr last), fun either => either.elim (fun first => .inl (.inr first))
      fun last => last.elim (fun same => .inl (.inl same)) .inr⟩
  · rw [books.mirrors.linkBefore_eq place loose.allocated, map, issued]
    exact books.ledger.silent rfl
  · intro other member
    obtain ⟨allocated, outside⟩ := books.each other (List.mem_cons_of_mem node member)
    refine ⟨(congrFun (linkBefore_nodes _ _ _) _).trans allocated, fun spot' inside => ?_⟩
    obtain same | ⟨spot'', old⟩ := (linked other).mp ⟨spot', inside⟩
    · exact notMem (same ▸ member)
    · exact outside spot'' old

/-- The way along the other nodes in hand stays. -/
theorem Books.link_trail (books : Books s t .ready (node :: rest)) (place : spot.Exists)
    {last : Link} (trail : Trail s.links last (rest.map TimerNode.link)) :
    Trail (s.linkBefore spot.last node.address).links last (rest.map TimerNode.link) := by
  have loose := books.each node List.mem_cons_self
  have notMem := (List.nodup_cons.mp books.apart).1
  have ne := link_ne_last node spot
  rw [books.mirrors.linkBefore_eq place loose.allocated]
  refine trail.congr fun link member => ?_
  obtain ⟨other, inside, rfl⟩ := List.mem_map.mp member
  obtain ⟨allocated, outside⟩ := books.each other (List.mem_cons_of_mem node inside)
  refine Links.linkBefore_next_of_ne ne (fun same => notMem ?_) fun same => ?_
  · have address : other.address = node.address := Link.node.inj same
    rw [address, loose.allocated] at allocated
    rw [Option.some.inj allocated]
    exact inside
  · have source := (books.mirrors.strands.strand spot).prev_last
    rw [← same] at source
    obtain begins | old := List.mem_cons.mp source
    · cases spot with
      | ready => cases begins
      | spoke wheel index => cases begins
    · exact outside spot (books.mirrors.mem_of_link allocated old)

theorem Books.toReady (books : Books s t .ready (node :: rest)) :
    Books (s.addToReadyNode node.address) (t.addToReadyNode node) .ready rest := by
  have agrees := books.mirrors.agrees
  have place : Spot.ready.Exists := trivial
  have agrees' : Agrees s (t.addToReadyNode node) := agrees.congr rfl rfl
  have others : ∀ spot, spot ≠ .ready →
      (t.addToReadyNode node).nodesAt spot = t.nodesAt spot := by
    intro spot ne
    cases spot with
    | ready => exact absurd rfl ne
    | spoke wheel index => rfl
  have linked := books.link place agrees' rfl others rfl rfl
  exact linked

theorem Books.toSpoke (books : Books s t .ready (node :: rest)) (milseconds : Nat)
    (event : Event) : Books (s.addTimerNode milseconds node.address)
      ((t.note event).addTimerNode milseconds node) .ready rest := by
  have agrees := books.mirrors.agrees
  rw [addTimerNode, spokeFor_eq agrees, Timer.addTimerNode_eq_setSpoke]
  refine books.link (t.spokeFor_exists milseconds) (agrees.congr rfl rfl) ?_ (fun spot ne => ?_)
    rfl rfl
  · exact Timer.nodesAt_setSpoke_self _ _ _ _
  · exact Timer.nodesAt_setSpoke_of_ne _ _ ne

/-! ## Cascades -/

theorem cascadeNodes_end (now : Nat) (spoke : Link) (turns : Nat) (s : LinkedTimer)
    (casnum : Nat) : cascadeNodes now spoke turns spoke s casnum = (s, casnum) := by
  cases turns with
  | zero => rw [cascadeNodes, if_pos rfl]
  | succ turns => rw [cascadeNodes, if_pos rfl]

theorem cascadeNodes_node {spoke link : Link} (ne : link ≠ spoke)
    (found : s.nodeAt link = some node) (now turns casnum : Nat) :
    cascadeNodes now spoke (turns + 1) link s casnum =
      if node.deadTime ≤ now then
        cascadeNodes now spoke turns (s.links.next link) (s.addToReadyNode node.address) casnum
      else
        cascadeNodes now spoke turns (s.links.next link)
          (s.addTimerNode (node.deadTime - now) node.address) (casnum + 1) := by
  rw [cascadeNodes, if_neg ne, found]

theorem cascadeNodes_books {wheel index turns : Nat} (now casnum casnum' : Nat)
    (books : Books s t .ready rest) (enough : rest.length ≤ turns)
    (trail : Trail s.links (.spoke wheel index) (rest.map TimerNode.link)) :
    Books (cascadeNodes now (.spoke wheel index) turns
      ((rest.map TimerNode.link).headD (.spoke wheel index)) s casnum).1
      (Timer.cascadeNodes now rest t casnum').1 .ready [] := by
  induction rest generalizing s t turns casnum casnum' with
  | nil =>
      rw [List.map_nil, List.headD_nil, cascadeNodes_end]
      exact books
  | cons node rest ih =>
      cases turns with
      | zero => cases enough
      | succ turns =>
          have short : rest.length ≤ turns := Nat.le_of_succ_le_succ enough
          have loose := books.each node List.mem_cons_self
          have agrees := books.mirrors.agrees
          have found : s.nodeAt node.link = some node := loose.allocated
          have ne : node.link ≠ .spoke wheel index := link_ne_last node (.spoke wheel index)
          have place : Spot.ready.Exists := trivial
          rw [List.map_cons, List.headD_cons, cascadeNodes_node ne found, Timer.cascadeNodes,
            trail.1]
          split
          · exact ih _ _ books.toReady short (books.link_trail place trail.2)
          · refine ih _ _ (books.toSpoke _ _) short ?_
            rw [addTimerNode, spokeFor_eq books.mirrors.agrees]
            exact books.link_trail (t.spokeFor_exists _) trail.2

/-- The nodes of a spoke that is cut off are in hand. -/
theorem Books.detach (books : Books s t .ready []) (wheel index : Nat) :
    Books { s with links := s.links.close (.spoke wheel index) } (t.setSpoke wheel index [])
        .ready (t.spokes wheel index) ∧
      Trail (s.links.close (.spoke wheel index)) (.spoke wheel index)
        ((t.spokes wheel index).map TimerNode.link) := by
  have agrees := books.mirrors.agrees
  have here := Timer.nodesAt_setSpoke_self t wheel index []
  have others (spot : Spot) (ne : spot ≠ .spoke wheel index) :=
    Timer.nodesAt_setSpoke_of_ne t [] ne
  refine ⟨⟨books.mirrors.detach (agrees.congr rfl rfl) here others,
    books.mapped.move rfl fun node => ?_, books.ledger,
    fun node member => ⟨?_, fun spot inside => ?_⟩, ?_⟩, ?_⟩
  · constructor
    · rintro (⟨spot, member⟩ | member)
      · by_cases same : spot = .spoke wheel index
        · rw [same, here] at member
          cases member
        · rw [others spot same] at member
          exact .inl ⟨spot, member⟩
      · exact .inl ⟨.spoke wheel index, member⟩
    · rintro (⟨spot, member⟩ | impossible)
      · by_cases same : spot = .spoke wheel index
        · rw [same] at member
          exact .inr member
        · exact .inl ⟨spot, by rwa [others spot same]⟩
      · cases impossible
  · exact books.mirrors.allocated (.spoke wheel index) node member
  · by_cases same : spot = .spoke wheel index
    · rw [same, here] at inside
      cases inside
    · rw [others spot same] at inside
      exact same (books.mirrors.strands.eq_of_mem
        (List.mem_map_of_mem (f := TimerNode.link) inside) (List.mem_map_of_mem member))
  · exact List.Nodup.of_map TimerNode.link
      (List.nodup_cons.mp (books.mirrors.strands.nodup (.spoke wheel index))).2
  · refine (books.mirrors.strands.strand (.spoke wheel index)).trail.congr fun link member => ?_
    obtain ⟨node, -, rfl⟩ := List.mem_map.mp member
    exact Links.close_next_of_ne _ (link_ne_last node (.spoke wheel index))

/-- The state behind the nodes of one wheel in `cascade`. -/
def cascaded (clock : Nat → Nat) (wheel : Nat) (s : LinkedTimer) : LinkedTimer :=
  let now := clock s.readings
  let spoke := Link.spoke wheel (s.spokeIndex wheel)
  let s :=
    ((s.getCurrentMillisec clock).2.setSpokeIndex wheel (s.spokeIndex wheel + 1)).access spoke
  (cascadeNodes now spoke s.allocations (s.links.next spoke)
    { s with links := s.links.close spoke } 0).1

theorem cascade_succ (clock : Nat → Nat) (left wheel : Nat) (s : LinkedTimer) :
    (cascade clock (left + 1) wheel s).1 =
      if (cascaded clock wheel s).spokeIndex wheel ≥ wheelSize wheel then
        (cascade clock left (wheel + 1) ((cascaded clock wheel s).setSpokeIndex wheel 0)).1
      else cascaded clock wheel s := by
  rw [cascade]
  exact apply_ite Prod.fst _ _ _

theorem cascaded_books (clock : Nat → Nat) (books : Books s t .ready []) {wheel : Nat}
    (inner : wheel < wheelNum) (inside : t.spokeIndex wheel < wheelSize wheel) :
    Books (cascaded clock wheel s) (Timer.cascaded clock wheel t) .ready [] := by
  have agrees := books.mirrors.agrees
  have moved := (books.read clock).setSpokeIndex wheel (t.spokeIndex wheel + 1)
  have alive : ((s.getCurrentMillisec clock).2.setSpokeIndex wheel (t.spokeIndex wheel + 1)).alive
      (.spoke wheel (t.spokeIndex wheel)) = true := decide_eq_true ⟨inner, inside⟩
  have begins : s.links.next (.spoke wheel (t.spokeIndex wheel)) =
      ((t.spokes wheel (t.spokeIndex wheel)).map TimerNode.link).headD
        (.spoke wheel (t.spokeIndex wheel)) :=
    (books.mirrors.strands.strand (.spoke wheel (t.spokeIndex wheel))).next_first
  obtain ⟨cut, trail⟩ := moved.detach wheel (t.spokeIndex wheel)
  have enough := moved.mirrors.length_le (.spoke wheel (t.spokeIndex wheel))
  have gone := cascadeNodes_books (clock s.readings) 0 0 cut enough trail
  rw [cascaded, agrees.spokeIndex, access_of_alive alive, Timer.cascaded,
    ← agrees.readings]
  change Books (cascadeNodes _ _ _ (s.links.next (.spoke wheel (t.spokeIndex wheel))) _ 0).1 _ _ _
  rw [begins]
  exact gone

theorem cascade_books (clock : Nat → Nat) (books : Books s t .ready []) (bounded : t.Bounded)
    {left wheel : Nat} (wheels : left + wheel = wheelNum) :
    Books (cascade clock left wheel s).1 (Timer.cascade clock left wheel t).1 .ready [] ∧
      (Timer.cascade clock left wheel t).1.Bounded := by
  induction left generalizing wheel s t with
  | zero => exact ⟨books, bounded⟩
  | succ left ih =>
      have inner : wheel < wheelNum := by omega
      have behind := cascaded_books clock books inner (bounded wheel inner)
      have others := (Timer.cascaded_frame clock wheel t).2.1
      rw [cascade_succ, Timer.cascade_succ, behind.mirrors.agrees.spokeIndex]
      split
      · exact ih (behind.setSpokeIndex wheel 0) (bounded.reset others) (by omega)
      · rename_i within
        exact ⟨behind, bounded.moved others (Nat.lt_of_not_le within)⟩

/-! ## Ticks -/

theorem drainSpoke_end (spoke : Link) (turns : Nat) (s : LinkedTimer) :
    drainSpoke spoke turns spoke s = s := by
  cases turns with
  | zero => rw [drainSpoke, if_pos rfl]
  | succ turns => rw [drainSpoke, if_pos rfl]

theorem drainSpoke_node {spoke link : Link} (ne : link ≠ spoke)
    (found : s.nodeAt link = some node) (turns : Nat) :
    drainSpoke spoke (turns + 1) link s =
      drainSpoke spoke turns
        ((((s.skipNext link).skipPrev link).note (.unlinked node.address)).links.next link)
        ((((s.skipNext link).skipPrev link).note (.unlinked node.address)).addToReadyNode
          node.address) := by
  rw [drainSpoke, if_neg ne, found]

theorem setSpoke_self {wheel index : Nat} {nodes : List TimerNode}
    (whole : t.spokes wheel index = nodes) : t = t.setSpoke wheel index nodes := by
  have same : t.spokes = (t.setSpoke wheel index nodes).spokes := by
    funext k j
    simp only [Timer.setSpoke]
    split
    · rename_i here
      rw [here.1, here.2, whole]
    · rfl
  exact congrArg (fun spokes => { t with spokes := spokes }) same

theorem setSpoke_setSpoke (t : Timer) (wheel index : Nat) (one two : List TimerNode) :
    (t.setSpoke wheel index one).setSpoke wheel index two = t.setSpoke wheel index two := by
  have same : ((t.setSpoke wheel index one).setSpoke wheel index two).spokes =
      (t.setSpoke wheel index two).spokes := by
    funext k j
    simp only [Timer.setSpoke]
    split <;> rfl
  exact congrArg (fun spokes => { t with spokes := spokes }) same

/-- The first node of a spoke is unlinked. -/
theorem Books.unlinkFirst (books : Books s t .ready []) {wheel index : Nat}
    (whole : t.spokes wheel index = node :: rest) :
    Books (((s.skipNext node.link).skipPrev node.link).note (.unlinked node.address))
        (t.setSpoke wheel index rest) .ready [node] ∧
      (((s.skipNext node.link).skipPrev node.link).note (.unlinked node.address)).links.next
        node.link = (rest.map TimerNode.link).headD (.spoke wheel index) := by
  have m := books.mirrors
  have agrees := m.agrees
  have here := Timer.nodesAt_setSpoke_self t wheel index rest
  have others (spot : Spot) (ne : spot ≠ .spoke wheel index) :=
    Timer.nodesAt_setSpoke_of_ne t rest ne
  have member : node ∈ t.nodesAt (.spoke wheel index) := by
    change node ∈ t.spokes wheel index
    rw [whole]
    exact List.mem_cons_self
  have before : t.nodesAt (.spoke wheel index) = [] ++ node :: rest := whole
  have skipped := m.skip_eq member
  have still : Agrees s (t.setSpoke wheel index rest) := agrees.congr rfl rfl
  obtain ⟨unlinked, loose⟩ := m.unlink still before here others
  rw [skipped]
  refine ⟨⟨unlinked, books.mapped.move rfl fun other => ?_, books.ledger.silent rfl, ?_,
    List.nodup_singleton node⟩, ?_⟩
  · constructor
    · rintro (⟨spot, inside⟩ | last)
      · by_cases same : spot = .spoke wheel index
        · rw [same, here] at inside
          refine .inl ⟨.spoke wheel index, ?_⟩
          rw [before]
          exact List.mem_cons_of_mem node inside
        · rw [others spot same] at inside
          exact .inl ⟨spot, inside⟩
      · rw [List.mem_singleton.mp last]
        exact .inl ⟨_, member⟩
    · rintro (⟨spot, inside⟩ | impossible)
      · by_cases same : spot = .spoke wheel index
        · rw [same, before] at inside
          obtain rfl | later := List.mem_cons.mp inside
          · exact .inr List.mem_cons_self
          · exact .inl ⟨.spoke wheel index, by rwa [here]⟩
        · exact .inl ⟨spot, by rwa [others spot same]⟩
      · cases impossible
  · intro other last
    rw [List.mem_singleton.mp last]
    exact ⟨loose.allocated, loose.outside⟩
  · have strand := m.strands.strand (.spoke wheel index)
    rw [Timer.linksAt, before] at strand
    exact (Links.unlink_next_of_ne _ (m.alive_neighbours member).2.2.symm).trans strand.trail.1

theorem drainSpoke_books {wheel index turns : Nat} {nodes : List TimerNode}
    (books : Books s t .ready []) (whole : t.spokes wheel index = nodes)
    (enough : nodes.length ≤ turns) :
    Books (drainSpoke (.spoke wheel index) turns
        ((nodes.map TimerNode.link).headD (.spoke wheel index)) s)
      { t.setSpoke wheel index [] with readyNodes := t.readyNodes ++ nodes } .ready [] := by
  induction nodes generalizing s t turns with
  | nil =>
      rw [List.map_nil, List.headD_nil, drainSpoke_end, List.append_nil,
        ← setSpoke_self whole]
      exact books
  | cons node rest ih =>
      cases turns with
      | zero => cases enough
      | succ turns =>
          have member : node ∈ t.nodesAt (.spoke wheel index) := by
            change node ∈ t.spokes wheel index
            rw [whole]
            exact List.mem_cons_self
          have found : s.nodeAt node.link = some node := books.mirrors.allocated _ node member
          have ne : node.link ≠ .spoke wheel index := link_ne_last node (.spoke wheel index)
          obtain ⟨unlinked, next⟩ := books.unlinkFirst whole
          have moved := ih unlinked.toReady (by simp [Timer.addToReadyNode, Timer.setSpoke])
            (Nat.le_of_succ_le_succ enough)
          rw [List.map_cons, List.headD_cons, drainSpoke_node ne found, next]
          have regrouped :
              { ((t.setSpoke wheel index rest).addToReadyNode node).setSpoke wheel index [] with
                readyNodes := t.readyNodes ++ [node] ++ rest } =
              { t.setSpoke wheel index [] with readyNodes := t.readyNodes ++ node :: rest } := by
            rw [List.append_assoc]
            exact congrArg (fun t' : Timer =>
              { t' with readyNodes := t.readyNodes ++ ([node] ++ rest) })
              (setSpoke_setSpoke t wheel index rest [])
          rw [← regrouped]
          exact moved

/-- The state behind the first wheel in a tick. -/
def emptied (s : LinkedTimer) : LinkedTimer :=
  let spoke := Link.spoke 0 (s.spokeIndex 0)
  let s := s.access spoke
  let s := drainSpoke spoke s.allocations (s.links.next spoke) s
  s.setSpokeIndex 0 (s.spokeIndex 0 + 1)

theorem tick_eq (clock : Nat → Nat) (s : LinkedTimer) : s.tick clock =
    if wheelSize 0 ≤ s.emptied.spokeIndex 0 then
      { (cascade clock 4 1 (s.emptied.setSpokeIndex 0 0)).1 with
        checktime := (cascade clock 4 1 (s.emptied.setSpokeIndex 0 0)).1.checktime +
          Timer.granularity }
    else { s.emptied with checktime := s.emptied.checktime + Timer.granularity } :=
  apply_ite (fun s : LinkedTimer => { s with checktime := s.checktime + Timer.granularity }) _ _ _

theorem emptied_books (books : Books s t .ready []) (bounded : t.Bounded) :
    Books s.emptied t.emptied .ready [] := by
  have inner : 0 < wheelNum := by decide
  have alive : s.alive (.spoke 0 (t.spokeIndex 0)) = true :=
    decide_eq_true ⟨inner, bounded 0 inner⟩
  have begins : s.links.next (.spoke 0 (t.spokeIndex 0)) =
      ((t.spokes 0 (t.spokeIndex 0)).map TimerNode.link).headD (.spoke 0 (t.spokeIndex 0)) :=
    (books.mirrors.strands.strand (.spoke 0 (t.spokeIndex 0))).next_first
  have drained := drainSpoke_books books rfl (books.mirrors.length_le (.spoke 0 (t.spokeIndex 0)))
  rw [emptied, books.mirrors.agrees.spokeIndex, access_of_alive alive, begins,
    drained.mirrors.agrees.spokeIndex]
  exact drained.setSpokeIndex 0 (t.spokeIndex 0 + 1)

theorem Books.setChecktime (books : Books s t .ready []) (checktime : Nat) :
    Books { s with checktime := s.checktime + checktime }
      { t with checktime := t.checktime + checktime } .ready [] := by
  have agrees := books.mirrors.agrees
  exact books.frame rfl rfl rfl rfl ⟨agrees.1, congrArg (· + checktime) agrees.checktime, agrees.3,
    agrees.4, agrees.5, agrees.6, agrees.7⟩ rfl rfl rfl

theorem tick_books (clock : Nat → Nat) (books : Books s t .ready []) (bounded : t.Bounded) :
    Books (s.tick clock) (t.tick clock) .ready [] ∧ (t.tick clock).Bounded := by
  have emptied := emptied_books books bounded
  have others : ∀ other, other ≠ 0 → t.emptied.spokeIndex other = t.spokeIndex other :=
    fun other apart => if_neg apart
  have index : t.emptied.spokeIndex 0 = t.spokeIndex 0 + 1 := rfl
  rw [tick_eq, Timer.tick_eq, emptied.mirrors.agrees.spokeIndex, index]
  split
  · obtain ⟨cascaded, inside⟩ := cascade_books clock (emptied.setSpokeIndex 0 0)
      (bounded.reset others) (rfl : 4 + 1 = wheelNum)
    exact ⟨cascaded.setChecktime _, inside⟩
  · rename_i within
    exact ⟨emptied.setChecktime _, bounded.moved others (index ▸ Nat.lt_of_not_le within)⟩

theorem ticks_books (clock : Nat → Nat) (loopnum : Nat) (books : Books s t .ready [])
    (bounded : t.Bounded) :
    Books (ticks clock loopnum s) (Timer.ticks clock loopnum t) .ready [] ∧
      (Timer.ticks clock loopnum t).Bounded := by
  induction loopnum generalizing s t with
  | zero => exact ⟨books, bounded⟩
  | succ loopnum ih =>
      obtain ⟨ticked, inside⟩ := tick_books clock books bounded
      exact ih ticked inside

end FysobEngine.Common.LinkedTimer
