import FysobEngine.Common.LinkedTimer
import FysobEngine.Common.TimerTicks
import FysobEngine.Foundation.Logs

/-!
# The links spell the lists

A state of the linked timer mirrors a state of the timer whose spokes are lists.
The link surgery of the one is the list operation of the other, and it never
touches memory that is not there.
-/

namespace FysobEngine.Common

open Foundation.LinkRings Foundation.Logs

def TimerNode.link (node : TimerNode) : Link := .node node.address

/-- Where a node can be linked. -/
inductive Spot where
  | ready
  | spoke (wheel index : Nat)
  deriving DecidableEq

namespace Spot

/-- The link that the list of a spot ends at. -/
def last : Spot → Link
  | .ready => .ready
  | .spoke wheel index => .spoke wheel index

/-- The link that it begins at. While callbacks are invoked the ready list begins
at the node in hand. -/
def first (front : Link) : Spot → Link
  | .ready => front
  | .spoke wheel index => .spoke wheel index

def Exists : Spot → Prop
  | .ready => True
  | .spoke wheel index => wheel < Timer.wheelNum ∧ index < Timer.wheelSize wheel

end Spot

/-- The nodes linked at a spot. -/
def Timer.nodesAt (t : Timer) : Spot → List TimerNode
  | .ready => t.readyNodes
  | .spoke wheel index => t.spokes wheel index

def Timer.linksAt (t : Timer) (spot : Spot) : List Link := (t.nodesAt spot).map TimerNode.link

/-- What is not lists. -/
def Timer.compared (t : Timer) :=
  (t.spokeIndex, t.checktime, t.timerMap, t.autoIncreaseId, t.allocations, t.readings,
    t.invocations)

namespace LinkedTimer

/-! ## What the log says of a node -/

/-- The node has been linked, and neither unlinked nor deleted since. -/
def LinkedNow (log : List Entry) (address : Nat) : Prop :=
  Since log (.linked address) fun entry => entry = .unlinked address ∨ entry = .deleted address

/-- Only linked nodes are unlinked, no node is deleted twice, and the program never
leaves defined behaviour. -/
structure Tidy (log : List Entry) : Prop where
  sound : .fault ∉ log
  unlinks : ∀ address, Guarded log (.unlinked address) (LinkedNow · address)
  deletes : ∀ address, log.count (.deleted address) ≤ 1

theorem Tidy.append {log : List Entry} {entry : Entry} (tidy : Tidy log) (ok : entry ≠ .fault)
    (unlinks : ∀ address, entry = .unlinked address → LinkedNow log address)
    (deletes : ∀ address, entry = .deleted address → .deleted address ∉ log) :
    Tidy (log ++ [entry]) where
  sound := by
    intro member
    obtain earlier | last := List.mem_append.mp member
    · exact tidy.sound earlier
    · exact ok (List.mem_singleton.mp last).symm
  unlinks address := (tidy.unlinks address).append (unlinks address)
  deletes address := by
    rw [List.count_append, List.count_singleton]
    split
    · rename_i last
      have new := deletes address (by simpa using last)
      rw [List.count_eq_zero_of_not_mem new]
    · exact tidy.deletes address

/-! ## Mirrors -/

/-- What is not links, nodes or trace. -/
def compared (s : LinkedTimer) :=
  (s.spokeIndex, s.checktime, s.timerMap, s.autoIncreaseId, s.allocations, s.readings,
    s.invocations)

/-- The two agree on what is not links. -/
structure Agrees (s : LinkedTimer) (t : Timer) : Prop where
  spokeIndex : s.spokeIndex = t.spokeIndex
  checktime : s.checktime = t.checktime
  timerMap : ∀ id, s.timerMap id = (t.timerMap id).map TimerNode.address
  autoIncreaseId : s.autoIncreaseId = t.autoIncreaseId
  allocations : s.allocations = t.allocations
  readings : s.readings = t.readings
  invocations : s.invocations = t.invocations

structure Mirrors (s : LinkedTimer) (t : Timer) (front : Link) : Prop where
  agrees : Agrees s t
  strands : Strands s.links (Spot.first front) Spot.last t.linksAt
  front : s.alive front = true
  allocated : ∀ spot, ∀ node ∈ t.nodesAt spot, s.nodes node.address = some node
  placed : ∀ spot, t.nodesAt spot ≠ [] → spot.Exists
  linked : ∀ spot, ∀ node ∈ t.nodesAt spot, LinkedNow s.log node.address
  named : ∀ address node, s.nodes address = some node →
    node.address = address ∧ address < s.allocations
  gone : ∀ address, .deleted address ∈ s.log → s.nodes address = none ∧ address < s.allocations
  tidy : Tidy s.log

variable {s : LinkedTimer} {t t' : Timer} {front : Link} {spot : Spot} {node : TimerNode}

theorem Agrees.congr {s' : LinkedTimer} (agrees : Agrees s t) (side : s'.compared = s.compared)
    (side' : t'.compared = t.compared) : Agrees s' t' := by
  simp only [compared, Timer.compared, Prod.mk.injEq] at side side'
  constructor <;> simp [side, side', agrees.spokeIndex, agrees.checktime, agrees.timerMap,
    agrees.autoIncreaseId, agrees.allocations, agrees.readings, agrees.invocations]

theorem access_of_alive {link : Link} (alive : s.alive link = true) : s.access link = s :=
  if_pos alive

theorem delete_nodes_of_ne (s : LinkedTimer) {address other : Nat} (ne : other ≠ address) :
    (s.delete address).nodes other = s.nodes other := by
  unfold delete
  split
  · rfl
  · exact Function.update_of_ne ne _ _

theorem alive_last (s : LinkedTimer) {spot : Spot} (place : spot.Exists) :
    s.alive spot.last = true := by
  cases spot with
  | ready => rfl
  | spoke wheel index => exact decide_eq_true place

/-- Loose nodes are allocated and linked nowhere. -/
structure Loose (s : LinkedTimer) (t : Timer) (node : TimerNode) : Prop where
  allocated : s.nodes node.address = some node
  outside : ∀ spot, node ∉ t.nodesAt spot

namespace Mirrors

theorem alive_first (m : Mirrors s t front) (place : spot.Exists) :
    s.alive (spot.first front) = true := by
  cases spot with
  | ready => exact m.front
  | spoke wheel index => exact decide_eq_true place

theorem alive_node (m : Mirrors s t front) (member : node ∈ t.nodesAt spot) :
    s.alive node.link = true := by
  rw [TimerNode.link, alive, m.allocated spot node member]
  rfl

theorem alive_source (m : Mirrors s t front) (place : spot.Exists) {link : Link}
    (member : link ∈ spot.first front :: t.linksAt spot) : s.alive link = true := by
  obtain rfl | inside := List.mem_cons.mp member
  · exact m.alive_first place
  · obtain ⟨node, linked, rfl⟩ := List.mem_map.mp inside
    exact m.alive_node linked

/-- Nodes with one address are one node. -/
theorem mem_of_link (m : Mirrors s t front) (loose : s.nodes node.address = some node)
    (member : node.link ∈ t.linksAt spot) : node ∈ t.nodesAt spot := by
  obtain ⟨other, linked, same⟩ := List.mem_map.mp member
  have address : other.address = node.address := Link.node.inj same
  have found := m.allocated spot other linked
  rw [address, loose] at found
  rw [Option.some.inj found]
  exact linked

/-- Where nodes are left, the spot exists. -/
theorem placed_of_fewer (m : Mirrors s t front)
    (fewer : ∀ spot, ∀ node ∈ t'.nodesAt spot, node ∈ t.nodesAt spot) (spot : Spot)
    (nonempty : t'.nodesAt spot ≠ []) : spot.Exists := by
  obtain ⟨node, inside⟩ := List.exists_mem_of_ne_nil _ nonempty
  exact m.placed spot (List.ne_nil_of_mem (fewer spot node inside))

theorem front_ne (m : Mirrors s t front) (member : node ∈ t.nodesAt spot) :
    front ≠ node.link := by
  intro same
  have clash := m.strands.first_not_mem (i := .ready) spot
  exact clash (same ▸ List.mem_map_of_mem member)

/-! ### Linking a node -/

theorem linkBefore_eq (m : Mirrors s t front) (place : spot.Exists)
    (allocated : s.nodes node.address = some node) : s.linkBefore spot.last node.address =
      { s with
        links := s.links.linkBefore spot.last node.link
        log := s.log ++ [.linked node.address] } := by
  have prev := m.alive_source place (m.strands.strand spot).prev_last
  have here : s.alive (.node node.address) = true := by
    rw [alive, allocated]
    rfl
  rw [linkBefore, access_of_alive (s.alive_last place), access_of_alive prev,
    access_of_alive here]
  rfl

theorem linkBefore (m : Mirrors s t front) (place : spot.Exists) (loose : Loose s t node)
    (other : front ≠ node.link) (agrees : Agrees s t')
    (here : t'.nodesAt spot = t.nodesAt spot ++ [node])
    (others : ∀ spot', spot' ≠ spot → t'.nodesAt spot' = t.nodesAt spot') :
    Mirrors (s.linkBefore spot.last node.address) t' front := by
  have cases_mem : ∀ spot', ∀ node' ∈ t'.nodesAt spot',
      node' ∈ t.nodesAt spot' ∨ spot' = spot ∧ node' = node := by
    intro spot' node' member
    by_cases same : spot' = spot
    · rw [same, here] at member
      obtain before | last := List.mem_append.mp member
      · exact .inl (same ▸ before)
      · exact .inr ⟨same, List.mem_singleton.mp last⟩
    · rw [others spot' same] at member
      exact .inl member
  rw [m.linkBefore_eq place loose.allocated]
  refine ⟨agrees.congr rfl rfl, ?_, m.front, ?_, ?_, ?_, m.named, ?_, ?_⟩
  · refine m.strands.linkBefore ?_ ?_ ?_ ?_
    · simp [Timer.linksAt, here]
    · intro spot' ne
      rw [Timer.linksAt, others spot' ne, Timer.linksAt]
    · intro spot' member
      obtain begins | inside := List.mem_cons.mp member
      · cases spot' with
        | ready => exact other begins.symm
        | spoke wheel index => cases begins
      · exact loose.outside spot' (m.mem_of_link loose.allocated inside)
    · intro spot' same
      cases spot' with
      | ready => cases same
      | spoke wheel index => cases same
  · intro spot' node' member
    obtain before | ⟨-, rfl⟩ := cases_mem spot' node' member
    · exact m.allocated spot' node' before
    · exact loose.allocated
  · intro spot' nonempty
    by_cases same : spot' = spot
    · rw [same]
      exact place
    · rw [others spot' same] at nonempty
      exact m.placed spot' nonempty
  · intro spot' node' member
    obtain before | ⟨-, rfl⟩ := cases_mem spot' node' member
    · exact (m.linked spot' node' before).append (by simp)
    · exact Since.new _ _ _
  · intro address member
    obtain before | last := List.mem_append.mp member
    · exact m.gone address before
    · cases List.mem_singleton.mp last
  · exact m.tidy.append nofun nofun nofun

/-! ### Unlinking a node -/

/-- The neighbours of a linked node may be accessed. -/
theorem alive_neighbours (m : Mirrors s t front) (member : node ∈ t.nodesAt spot) :
    s.alive (s.links.prev node.link) = true ∧ s.alive (s.links.next node.link) = true ∧
      s.links.prev node.link ≠ node.link := by
  have place := m.placed spot (List.ne_nil_of_mem member)
  obtain ⟨before, proper, after⟩ := m.strands.neighbours (List.mem_map_of_mem member)
  refine ⟨m.alive_source place before, ?_, proper⟩
  obtain inside | final := after
  · exact m.alive_source place (List.mem_cons_of_mem _ inside)
  · rw [final]
    exact s.alive_last place

theorem skipNext_eq (m : Mirrors s t front) (member : node ∈ t.nodesAt spot) :
    s.skipNext node.link = { s with
      links := s.links.setNext (s.links.prev node.link) (s.links.next node.link) } := by
  rw [skipNext, access_of_alive (m.alive_node member),
    access_of_alive (m.alive_neighbours member).1]

/-- The way on from the node is still there when it has been passed over. -/
theorem skipNext_next (m : Mirrors s t front) (member : node ∈ t.nodesAt spot) :
    (s.skipNext node.link).links.next node.link = s.links.next node.link := by
  rw [m.skipNext_eq member]
  exact Links.setNext_next_of_ne _ _ (m.alive_neighbours member).2.2.symm

theorem skip_eq (m : Mirrors s t front) (member : node ∈ t.nodesAt spot) :
    (s.skipNext node.link).skipPrev node.link = { s with links := s.links.unlink node.link } := by
  have here : (s.skipNext node.link).alive node.link = true := by
    rw [m.skipNext_eq member]
    exact m.alive_node member
  have next :
      (s.skipNext node.link).alive ((s.skipNext node.link).links.next node.link) = true := by
    rw [m.skipNext_next member, m.skipNext_eq member]
    exact (m.alive_neighbours member).2.1
  rw [skipPrev, access_of_alive here, access_of_alive next, m.skipNext_eq member]
  rfl

theorem skipBoth_eq (m : Mirrors s t front) (member : node ∈ t.nodesAt spot) :
    s.skipBoth node.link = { s with links := s.links.unlink node.link } := by
  obtain ⟨prev, next, -⟩ := m.alive_neighbours member
  have notNull {link : Link} (alive : s.alive link = true) : link ≠ .null := by
    rintro rfl
    cases alive
  have behind : (s.skipNext node.link).links.next node.link ≠ .null := by
    rw [m.skipNext_next member]
    exact notNull next
  rw [skipBoth, access_of_alive (m.alive_node member), if_neg (notNull prev), if_neg behind,
    m.skip_eq member]

theorem unlink (m : Mirrors s t front) {xs ys : List TimerNode} (agrees : Agrees s t')
    (here : t.nodesAt spot = xs ++ node :: ys) (here' : t'.nodesAt spot = xs ++ ys)
    (others : ∀ spot', spot' ≠ spot → t'.nodesAt spot' = t.nodesAt spot') :
    Mirrors ({ s with links := s.links.unlink node.link }.note (.unlinked node.address)) t' front ∧
      Loose s t' node := by
  have member : node ∈ t.nodesAt spot := by simp [here]
  have fewer : ∀ spot', ∀ node' ∈ t'.nodesAt spot', node' ∈ t.nodesAt spot' := by
    intro spot' node' inside
    by_cases same : spot' = spot
    · rw [same, here'] at inside
      rw [same, here]
      exact (List.mem_append.mp inside).elim (List.mem_append_left _)
        fun later => List.mem_append_right _ (List.mem_cons_of_mem node later)
    · rwa [others spot' same] at inside
  have outside : ∀ spot', node.link ∉ t'.linksAt spot' := by
    intro spot' inside
    by_cases same : spot' = spot
    · have nodup := (List.nodup_cons.mp (m.strands.nodup spot)).2
      rw [Timer.linksAt, here, List.map_append, List.map_cons] at nodup
      rw [same, Timer.linksAt, here', List.map_append] at inside
      exact (List.nodup_cons.mp (List.nodup_middle.mp nodup)).1 inside
    · rw [Timer.linksAt, others spot' same] at inside
      exact same (m.strands.eq_of_mem inside (List.mem_map_of_mem member))
  have loose : ∀ spot', node ∉ t'.nodesAt spot' := fun spot' inside =>
    outside spot' (List.mem_map_of_mem inside)
  refine ⟨⟨agrees.congr rfl rfl, ?_, m.front,
    fun spot' node' inside => m.allocated spot' node' (fewer spot' node' inside),
    m.placed_of_fewer fewer, ?_, m.named, ?_, ?_⟩, ⟨m.allocated spot node member, loose⟩⟩
  · have links : t.linksAt spot = xs.map TimerNode.link ++ node.link :: ys.map TimerNode.link := by
      simp [Timer.linksAt, here]
    refine m.strands.unlink links ?_ ?_
    · simp [Timer.linksAt, here']
    · intro spot' ne
      rw [Timer.linksAt, others spot' ne, Timer.linksAt]
  · intro spot' node' inside
    refine (m.linked spot' node' (fewer spot' node' inside)).append ?_
    rintro (same | same)
    · refine outside spot' (List.mem_map.mpr ⟨node', inside, ?_⟩)
      rw [TimerNode.link, TimerNode.link, Entry.unlinked.inj same]
    · cases same
  · intro address inside
    obtain before | last := List.mem_append.mp inside
    · exact m.gone address before
    · cases List.mem_singleton.mp last
  · refine m.tidy.append nofun (fun address same => ?_) nofun
    rw [← Entry.unlinked.inj same]
    exact m.linked spot node member

/-! ### Memory -/

theorem delete_eq {s : LinkedTimer} (allocated : s.nodes node.address = some node) :
    s.delete node.address =
      { s with
        nodes := Function.update s.nodes node.address none
        log := s.log ++ [.deleted node.address] } := by
  rw [delete, allocated]
  rfl

theorem delete (m : Mirrors s t front) (loose : Loose s t node) {front' : Link}
    (strands : Strands s.links (Spot.first front') Spot.last t'.linksAt)
    (front : s.alive front' = true) (other : front' ≠ node.link)
    (agrees : Agrees s t') (fewer : ∀ spot, ∀ node ∈ t'.nodesAt spot, node ∈ t.nodesAt spot) :
    Mirrors (s.delete node.address) t' front' := by
  have elsewhere : ∀ spot, ∀ node' ∈ t.nodesAt spot, node'.address ≠ node.address := by
    intro spot node' member same
    refine loose.outside spot (m.mem_of_link loose.allocated (List.mem_map.mpr ⟨node', member, ?_⟩))
    rw [TimerNode.link, TimerNode.link, same]
  rw [delete_eq loose.allocated]
  refine ⟨agrees.congr rfl rfl, strands, ?_, ?_, m.placed_of_fewer fewer, ?_, ?_, ?_, ?_⟩
  · cases front' with
    | null => cases front
    | ready => rfl
    | spoke wheel index => exact front
    | node address =>
        have ne : address ≠ node.address := fun same => other (by rw [same]; rfl)
        simpa [alive, Function.update_of_ne ne] using front
  · intro spot node' member
    have before := fewer spot node' member
    exact (Function.update_of_ne (elsewhere spot node' before) _ _).trans
      (m.allocated spot node' before)
  · intro spot node' member
    have before := fewer spot node' member
    refine (m.linked spot node' before).append ?_
    rintro (same | same)
    · cases same
    · exact elsewhere spot node' before (Entry.deleted.inj same).symm
  · intro address node' found
    by_cases same : address = node.address
    · rw [same] at found
      simp at found
    · exact m.named address node' ((Function.update_of_ne same _ _).symm.trans found)
  · intro address member
    by_cases same : address = node.address
    · rw [same]
      exact ⟨Function.update_self _ _ _, (m.named _ _ loose.allocated).2⟩
    · obtain before | last := List.mem_append.mp member
      · exact ⟨(Function.update_of_ne same _ _).trans (m.gone address before).1,
          (m.gone address before).2⟩
      · exact absurd (Entry.deleted.inj (List.mem_singleton.mp last)) same
  · refine m.tidy.append nofun nofun fun address same => ?_
    rw [← Entry.deleted.inj same]
    intro before
    have empty := (m.gone _ before).1
    rw [loose.allocated] at empty
    cases empty

/-- A node that is in no list is on no strand. -/
theorem off_strands {address : Nat} (other : front ≠ .node address)
    (outside : ∀ spot, .node address ∉ t.linksAt spot) (spot : Spot) :
    .node address ∉ spot.first front :: t.linksAt spot ∧
      .node address ∉ t.linksAt spot ++ [spot.last] := by
  refine ⟨fun member => ?_, fun member => ?_⟩
  · obtain begins | inside := List.mem_cons.mp member
    · cases spot with
      | ready => exact other begins.symm
      | spoke wheel index => cases begins
    · exact outside spot inside
  · obtain inside | final := List.mem_append.mp member
    · exact outside spot inside
    · cases spot with
      | ready => cases List.mem_singleton.mp final
      | spoke wheel index => cases List.mem_singleton.mp final

/-- The links of such a node do not matter. -/
theorem scrub (m : Mirrors s t front) (address : Nat) (other : front ≠ .node address)
    (outside : ∀ spot, .node address ∉ t.linksAt spot) {l : Links Link}
    (next : ∀ link, link ≠ .node address → l.next link = s.links.next link)
    (prev : ∀ link, link ≠ .node address → l.prev link = s.links.prev link) :
    Strands l (Spot.first front) Spot.last t.linksAt := by
  refine m.strands.congr (fun spot link member => next link ?_) fun spot link member =>
    prev link ?_
  · rintro rfl
    exact (off_strands other outside spot).1 member
  · rintro rfl
    exact (off_strands other outside spot).2 member

theorem relink (m : Mirrors s t front) {l : Links Link}
    (strands : Strands l (Spot.first front) Spot.last t.linksAt) :
    Mirrors { s with links := l } t front :=
  ⟨m.agrees.congr rfl rfl, strands, m.front, m.allocated, m.placed, m.linked, m.named, m.gone,
    m.tidy⟩

/-- What is no link, node or log entry may change on both sides. -/
theorem frame (m : Mirrors s t front) {s' : LinkedTimer} (links : s'.links = s.links)
    (nodes : s'.nodes = s.nodes) (allocations : s'.allocations = s.allocations)
    (log : s'.log = s.log) (agrees : Agrees s' t') (lists : t'.nodesAt = t.nodesAt) :
    Mirrors s' t' front := by
  have linksAt : t'.linksAt = t.linksAt := by
    funext spot
    rw [Timer.linksAt, lists, Timer.linksAt]
  have alive : ∀ link, s'.alive link = s.alive link := by
    intro link
    cases link <;> simp [LinkedTimer.alive, nodes]
  refine ⟨agrees, ?_, ?_, ?_, ?_, ?_, ?_, ?_, ?_⟩
  · rw [links, linksAt]
    exact m.strands
  · rw [alive]
    exact m.front
  · rw [lists, nodes]
    exact m.allocated
  · rw [lists]
    exact m.placed
  · rw [lists, log]
    exact m.linked
  · rw [nodes, allocations]
    exact m.named
  · rw [nodes, allocations, log]
    exact m.gone
  · rw [log]
    exact m.tidy

/-- Entries about tasks. -/
theorem note (m : Mirrors s t front) {entry : Entry} (ok : entry ≠ .fault)
    (unlinked : ∀ address, entry ≠ .unlinked address)
    (deleted : ∀ address, entry ≠ .deleted address) : Mirrors (s.note entry) t front := by
  refine ⟨m.agrees.congr rfl rfl, m.strands, m.front, m.allocated, m.placed, ?_, m.named, ?_, ?_⟩
  · intro spot node member
    refine (m.linked spot node member).append ?_
    rintro (same | same)
    · exact unlinked _ same
    · exact deleted _ same
  · intro address member
    obtain before | last := List.mem_append.mp member
    · exact m.gone address before
    · exact absurd (List.mem_singleton.mp last).symm (deleted address)
  · exact m.tidy.append ok (fun address same => absurd same (unlinked address))
      fun address same => absurd same (deleted address)

theorem address_lt (m : Mirrors s t front) (member : node ∈ t.nodesAt spot) :
    node.address < s.allocations :=
  (m.named _ _ (m.allocated spot node member)).2

theorem front_lt (m : Mirrors s t front) {address : Nat} (begins : front = .node address) :
    address < s.allocations := by
  have alive := m.front
  rw [begins] at alive
  obtain ⟨node, found⟩ := Option.isSome_iff_exists.mp alive
  exact (m.named _ _ found).2

theorem newNode (m : Mirrors s t front) (timer : TimerTask) (deadTime : Nat)
    (agrees : Agrees (s.newNode timer deadTime) t') (lists : t'.nodesAt = t.nodesAt) :
    Mirrors (s.newNode timer deadTime) t' front ∧
      Loose (s.newNode timer deadTime) t' ⟨s.allocations, deadTime, timer⟩ ∧
      front ≠ .node s.allocations := by
  have linksAt : t'.linksAt = t.linksAt := by
    funext spot
    rw [Timer.linksAt, lists, Timer.linksAt]
  have other : front ≠ .node s.allocations := fun begins =>
    Nat.lt_irrefl _ (m.front_lt begins)
  have outside : ∀ spot, .node s.allocations ∉ t.linksAt spot := by
    intro spot member
    obtain ⟨node, inside, same⟩ := List.mem_map.mp member
    have order := m.address_lt inside
    rw [Link.node.inj same] at order
    exact Nat.lt_irrefl _ order
  have new : (s.newNode timer deadTime).nodes s.allocations =
      some ⟨s.allocations, deadTime, timer⟩ := Function.update_self _ _ _
  have kept : ∀ address node, s.nodes address = some node →
      (s.newNode timer deadTime).nodes address = some node := by
    intro address node found
    have ne : address ≠ s.allocations := Nat.ne_of_lt (m.named address node found).2
    exact (Function.update_of_ne ne _ _).trans found
  refine ⟨⟨agrees, ?_, ?_, ?_, ?_, ?_, ?_, ?_, m.tidy⟩, ⟨new, ?_⟩, other⟩
  · rw [linksAt]
    exact m.scrub _ other outside (fun link ne => Links.close_next_of_ne _ ne)
      fun link ne => Links.close_prev_of_ne _ ne
  · have alive := m.front
    cases front with
    | null => cases alive
    | ready => rfl
    | spoke wheel index => exact alive
    | node address =>
        obtain ⟨node, found⟩ := Option.isSome_iff_exists.mp alive
        exact Option.isSome_iff_exists.mpr ⟨node, kept address node found⟩
  · rw [lists]
    exact fun spot node member => kept _ _ (m.allocated spot node member)
  · rw [lists]
    exact m.placed
  · rw [lists]
    exact m.linked
  · intro address node found
    by_cases same : address = s.allocations
    · rw [same, new] at found
      rw [← Option.some.inj found, same]
      exact ⟨rfl, Nat.lt_succ_self _⟩
    · have old := m.named address node ((Function.update_of_ne same _ _).symm.trans found)
      exact ⟨old.1, Nat.lt_succ_of_lt old.2⟩
  · intro address member
    obtain ⟨empty, order⟩ := m.gone address member
    exact ⟨(Function.update_of_ne (Nat.ne_of_lt order) _ _).trans empty, Nat.lt_succ_of_lt order⟩
  · intro spot member
    rw [lists] at member
    exact outside spot (List.mem_map_of_mem (f := TimerNode.link) member)

/-- The nodes of a spoke are cut off from it. -/
theorem detach (m : Mirrors s t .ready) {wheel index : Nat} (agrees : Agrees s t')
    (here : t'.nodesAt (.spoke wheel index) = [])
    (others : ∀ spot, spot ≠ .spoke wheel index → t'.nodesAt spot = t.nodesAt spot) :
    Mirrors { s with links := s.links.close (.spoke wheel index) } t' .ready := by
  have fewer : ∀ spot, ∀ node ∈ t'.nodesAt spot, node ∈ t.nodesAt spot := by
    intro spot node member
    by_cases same : spot = .spoke wheel index
    · rw [same, here] at member
      cases member
    · rwa [others spot same] at member
  refine ⟨agrees.congr rfl rfl, ?_, rfl,
    fun spot node member => m.allocated spot node (fewer spot node member),
    m.placed_of_fewer fewer, fun spot node member => m.linked spot node (fewer spot node member),
    m.named, m.gone, m.tidy⟩
  refine m.strands.close (i := .spoke wheel index) ?_ rfl ?_ ?_
  · rw [Timer.linksAt, here]
    rfl
  · intro spot ne
    exact ⟨congrArg (List.map TimerNode.link) (others spot ne), rfl⟩
  · intro spot ne same
    cases spot with
    | ready => cases same
    | spoke wheel' index' =>
        cases same
        exact ne rfl

end Mirrors

end LinkedTimer

end FysobEngine.Common
