import Mathlib.Data.List.Count
import FysobEngine.Common.LinkedTimerMemory

/-!
# The end of a timer

`~timer` deletes the wheels, and `~wheel` the nodes in the spokes. Of all nodes that a
timer has allocated in its life none is left, and none has been deleted twice.
-/

namespace FysobEngine.Common.LinkedTimer

open Foundation.LinkRings Foundation.Logs Foundation.Runs
open Timer (wheelNum wheelSize)

/-! ## The destructors -/

/-- The loop of `~wheel` over the links of a spoke. A link to another spoke is a fault, as
that may be deleted with its wheel. -/
def deleteNodes (spoke : Link) : Nat → Link → LinkedTimer → LinkedTimer
  | 0, link, s => if link = spoke then s else s.note .fault
  | .succ turns, link, s =>
      if link = spoke then s
      else
        match s.nodeAt link with
        | none => s.note .fault
        | some node => deleteNodes spoke turns (s.links.next link) (s.delete node.address)

/-- One turn of the loop of `~wheel`. -/
def deleteSpoke (s : LinkedTimer) (spoke : Link) : LinkedTimer :=
  let s := s.access spoke
  deleteNodes spoke s.allocations (s.links.next spoke) s

/-- `~wheel`. -/
def deleteWheel (s : LinkedTimer) (wheel : Nat) : LinkedTimer :=
  (List.range (wheelSize wheel)).foldl (fun s index => s.deleteSpoke (.spoke wheel index)) s

/-- `~timer`. -/
def destroy (s : LinkedTimer) : LinkedTimer := (List.range wheelNum).foldl deleteWheel s

variable {clock : Nat → Nat} {script : Nat → List Call} {s : LinkedTimer} {node : TimerNode}
  {addresses : List Nat} {spoke : Link}

/-! ## Nodes deleted one after another -/

/-- The nodes at these addresses are there. -/
def Present (s : LinkedTimer) (addresses : List Nat) : Prop :=
  ∀ address ∈ addresses, ∃ node, s.nodes address = some node ∧ node.address = address

@[simp] theorem delete_links (s : LinkedTimer) (address : Nat) :
    (s.delete address).links = s.links := by
  unfold delete
  split <;> rfl

@[simp] theorem delete_allocations (s : LinkedTimer) (address : Nat) :
    (s.delete address).allocations = s.allocations := by
  unfold delete
  split <;> rfl

theorem deletes_fields (addresses : List Nat) (s : LinkedTimer) :
    (addresses.foldl delete s).links = s.links ∧
      (addresses.foldl delete s).allocations = s.allocations := by
  induction addresses generalizing s with
  | nil => exact ⟨rfl, rfl⟩
  | cons address rest ih =>
      obtain ⟨links, allocations⟩ := ih (s.delete address)
      exact ⟨links.trans (delete_links s address), allocations.trans (delete_allocations s address)⟩

theorem Present.delete {address : Nat} (present : Present s addresses)
    (apart : address ∉ addresses) : Present (s.delete address) addresses := by
  intro other member
  obtain ⟨node, there, own⟩ := present other member
  have ne : other ≠ address := fun same => apart (same ▸ member)
  exact ⟨node, (delete_nodes_of_ne s ne).trans there, own⟩

theorem Present.deletes {rest : List Nat} (present : Present s (addresses ++ rest))
    (nodup : (addresses ++ rest).Nodup) : Present (addresses.foldl LinkedTimer.delete s) rest := by
  induction addresses generalizing s with
  | nil => exact present
  | cons address later ih =>
      obtain ⟨apart, nodup⟩ := List.nodup_cons.mp nodup
      refine ih (Present.delete (fun other member => ?_) apart) nodup
      exact present other (List.mem_cons_of_mem address member)

/-- Distinct nodes that are there are gone behind their deletions, and nothing else. -/
theorem deletes_eq (present : Present s addresses) (nodup : addresses.Nodup) :
    (∀ address, (addresses.foldl delete s).nodes address =
        if address ∈ addresses then none else s.nodes address) ∧
      (addresses.foldl delete s).log = s.log ++ addresses.map .deleted := by
  induction addresses generalizing s with
  | nil => exact ⟨fun address => (if_neg List.not_mem_nil).symm, (List.append_nil _).symm⟩
  | cons address rest ih =>
      obtain ⟨apart, nodup⟩ := List.nodup_cons.mp nodup
      obtain ⟨node, there, own⟩ := present address List.mem_cons_self
      have later : Present s rest := fun other member =>
        present other (List.mem_cons_of_mem address member)
      have first : s.delete address = { s with
          nodes := Function.update s.nodes address none
          log := s.log ++ [.deleted address] } := by
        subst own
        exact Mirrors.delete_eq there
      obtain ⟨nodes, log⟩ := ih (later.delete apart) nodup
      refine ⟨fun other => ?_, ?_⟩
      · rw [List.foldl_cons, nodes, first]
        by_cases same : other = address
        · subst same
          rw [if_neg apart, if_pos List.mem_cons_self]
          exact Function.update_self ..
        · have here : other ∈ address :: rest ↔ other ∈ rest :=
            List.mem_cons.trans (or_iff_right same)
          simp only [here, Function.update_of_ne same]
      · rw [List.foldl_cons, log, first, List.append_assoc]
        rfl

/-! ## The spokes -/

theorem deleteNodes_end (spoke : Link) (turns : Nat) (s : LinkedTimer) :
    deleteNodes spoke turns spoke s = s := by
  cases turns with
  | zero => rw [deleteNodes, if_pos rfl]
  | succ turns => rw [deleteNodes, if_pos rfl]

/-- The loop goes along the nodes of a spoke. -/
theorem deleteNodes_eq {turns : Nat} (trail : Trail s.links spoke (addresses.map Link.node))
    (sentinel : ∀ address, Link.node address ≠ spoke) (present : Present s addresses)
    (nodup : addresses.Nodup) (enough : addresses.length ≤ turns) :
    deleteNodes spoke turns ((addresses.map Link.node).headD spoke) s =
      addresses.foldl delete s := by
  induction addresses generalizing s turns with
  | nil => exact deleteNodes_end spoke turns s
  | cons address rest ih =>
      cases turns with
      | zero => cases enough
      | succ turns =>
          obtain ⟨apart, nodup⟩ := List.nodup_cons.mp nodup
          obtain ⟨node, there, own⟩ := present address List.mem_cons_self
          have found : s.nodeAt (.node address) = some node := there
          have later : Present s rest := fun other member =>
            present other (List.mem_cons_of_mem address member)
          rw [List.map_cons, List.headD_cons, deleteNodes, if_neg (sentinel address), found,
            trail.1]
          dsimp only
          rw [own, List.foldl_cons]
          refine ih ?_ (later.delete apart) nodup (Nat.le_of_succ_le_succ enough)
          rw [delete_links]
          exact trail.2

/-- Nodes at distinct addresses are not more than there were allocations. -/
theorem addresses_length_le (nodup : addresses.Nodup)
    (within : ∀ address ∈ addresses, address < s.allocations) :
    addresses.length ≤ s.allocations := by
  have short := (List.subperm_of_subset nodup
    fun address member => List.mem_range.mpr (within address member)).length_le
  rwa [List.length_range] at short

/-- The spokes in the order of the destructors. -/
def spots : List (Nat × Nat) :=
  (List.range wheelNum).flatMap fun wheel => (List.range (wheelSize wheel)).map (wheel, ·)

theorem mem_spots {wheel index : Nat} :
    (wheel, index) ∈ spots ↔ wheel < wheelNum ∧ index < wheelSize wheel := by
  simp [spots]

theorem spots_nodup : spots.Nodup := by
  refine List.nodup_flatMap.mpr ⟨fun wheel _ => ?_, ?_⟩
  · exact List.nodup_range.map fun one two same => (Prod.mk.inj same).2
  · refine List.nodup_range.imp fun {one two} apart => ?_
    intro spot here there
    obtain ⟨_, -, rfl⟩ := List.mem_map.mp here
    obtain ⟨_, -, same⟩ := List.mem_map.mp there
    exact apart (Prod.mk.inj same).1.symm

theorem destroy_eq (s : LinkedTimer) :
    s.destroy = spots.foldl (fun s spot => s.deleteSpoke (.spoke spot.1 spot.2)) s := by
  rw [spots, List.foldl_flatMap]
  simp only [List.foldl_map]
  rfl

/-- The destructors delete what the rings hold, one after another. -/
theorem deleteSpokes_eq {places : List (Nat × Nat)} {spokes : Nat → Nat → List Nat}
    (exist : ∀ spot ∈ places, spot.1 < wheelNum ∧ spot.2 < wheelSize spot.1)
    (rings : ∀ spot ∈ places, Ring s (.spoke spot.1 spot.2) (spokes spot.1 spot.2))
    (within : ∀ spot ∈ places, ∀ address ∈ spokes spot.1 spot.2, address < s.allocations)
    (present : Present s (places.flatMap fun spot => spokes spot.1 spot.2))
    (nodup : (places.flatMap fun spot => spokes spot.1 spot.2).Nodup) :
    places.foldl (fun s spot => s.deleteSpoke (.spoke spot.1 spot.2)) s =
      (places.flatMap fun spot => spokes spot.1 spot.2).foldl delete s := by
  induction places generalizing s with
  | nil => rfl
  | cons spot rest ih =>
      have here : spot ∈ spot :: rest := List.mem_cons_self
      have ring := rings spot here
      have alive : s.alive (.spoke spot.1 spot.2) = true := decide_eq_true (exist spot here)
      rw [List.flatMap_cons] at present nodup ⊢
      have first : s.deleteSpoke (.spoke spot.1 spot.2) =
          (spokes spot.1 spot.2).foldl delete s := by
        rw [deleteSpoke, access_of_alive alive, ring.strand.next_first]
        refine deleteNodes_eq ring.strand.trail (fun _ impossible => by cases impossible)
          (fun address member => present address (List.mem_append_left _ member)) ring.nodup ?_
        exact addresses_length_le ring.nodup (within spot here)
      obtain ⟨links, allocations⟩ := deletes_fields (spokes spot.1 spot.2) s
      rw [List.foldl_cons, first, List.foldl_append]
      refine ih (fun spot member => exist spot (List.mem_cons_of_mem _ member))
        (fun spot member => ?_) (fun spot member => ?_) (present.deletes nodup)
        (List.nodup_append.mp nodup).2.1
      · obtain ⟨strand, distinct⟩ := rings spot (List.mem_cons_of_mem _ member)
        exact ⟨links.symm ▸ strand, distinct⟩
      · rw [allocations]
        exact within spot (List.mem_cons_of_mem _ member)

/-! ## The whole life -/

/-- The addresses in the spokes. -/
def spokeAddresses (spokes : Nat → Nat → List Nat) : List Nat :=
  spots.flatMap fun spot => spokes spot.1 spot.2

theorem mem_spokeAddresses {spokes : Nat → Nat → List Nat} {address : Nat} :
    address ∈ spokeAddresses spokes ↔
      ∃ wheel < wheelNum, ∃ index < wheelSize wheel, address ∈ spokes wheel index := by
  constructor
  · intro member
    obtain ⟨⟨wheel, index⟩, place, inside⟩ := List.mem_flatMap.mp member
    obtain ⟨inner, within⟩ := mem_spots.mp place
    exact ⟨wheel, inner, index, within, inside⟩
  · rintro ⟨wheel, inner, index, within, inside⟩
    exact List.mem_flatMap.mpr ⟨(wheel, index), mem_spots.mpr ⟨inner, within⟩, inside⟩

theorem Bookkeeping.nodup {spokes : Nat → Nat → List Nat} (books : Bookkeeping s spokes) :
    (spokeAddresses spokes).Nodup := by
  refine List.nodup_flatMap.mpr ⟨fun spot place => ?_, spots_nodup.imp fun {one two} apart => ?_⟩
  · obtain ⟨inner, within⟩ := mem_spots.mp place
    exact (books.rings spot.1 inner spot.2 within).nodup
  · intro address here there
    obtain ⟨wheel, index⟩ := books.once _ _ _ _ address here there
    exact apart (Prod.ext wheel index)

/-- What the spokes hold is there. -/
theorem Bookkeeping.present {spokes : Nat → Nat → List Nat} (books : Bookkeeping s spokes)
    (owned : Owned s []) : Present s (spokeAddresses spokes) := by
  intro address member
  obtain ⟨wheel, inner, index, within, inside⟩ := mem_spokeAddresses.mp member
  obtain ⟨id, mapped⟩ := books.linked wheel inner index within address inside
  obtain ⟨node, there, -⟩ := (books.mapped id address mapped).2
  exact ⟨node, there, (owned.named address node there).1⟩

/-- And nothing else is. -/
theorem Bookkeeping.all {spokes : Nat → Nat → List Nat} (books : Bookkeeping s spokes)
    (owned : Owned s []) {address : Nat} (there : s.nodes address = some node) :
    address ∈ spokeAddresses spokes := by
  have mapped := owned.mapped address node there List.not_mem_nil
  exact mem_spokeAddresses.mpr (books.mapped _ address mapped).1

theorem Bookkeeping.destroy_eq {spokes : Nat → Nat → List Nat} (books : Bookkeeping s spokes)
    (owned : Owned s []) : s.destroy = (spokeAddresses spokes).foldl delete s := by
  rw [LinkedTimer.destroy_eq]
  refine deleteSpokes_eq (fun spot place => mem_spots.mp place) (fun spot place => ?_)
    (fun spot place address inside => ?_) (books.present owned) books.nodup
  · obtain ⟨inner, within⟩ := mem_spots.mp place
    exact books.rings spot.1 inner spot.2 within
  · have member : address ∈ spokeAddresses spokes :=
      List.mem_flatMap.mpr ⟨spot, place, inside⟩
    obtain ⟨node, there, -⟩ := books.present owned address member
    exact (owned.named address node there).2

/-- A timer that is destroyed between two calls has deleted every node that it ever
allocated exactly once, and has never touched a node that was gone. -/
theorem destroyed_clean {actions : List Timer.Action}
    (run : Reached (fun _ _ => True) (Performs clock script) (create clock) actions s)
    (few : adds s.log < 2 ^ 32) :
    .fault ∉ s.destroy.log ∧ (∀ address, s.destroy.nodes address = none) ∧
      ∀ address, s.destroy.log.count (.deleted address) =
        if address < s.allocations then 1 else 0 := by
  obtain ⟨t, -, kept⟩ := reached_kept run few (create_kept clock)
  obtain ⟨owned, -⟩ := reached_owned run few (create_owned clock) rfl
  have books := kept.books_balance
  have mirrors := kept.books.mirrors
  have present := books.present owned
  obtain ⟨nodes, log⟩ := deletes_eq present books.nodup
  rw [← books.destroy_eq owned] at nodes log
  refine ⟨?_, fun address => ?_, fun address => ?_⟩
  · rw [log]
    intro member
    obtain before | last := List.mem_append.mp member
    · exact mirrors.tidy.sound before
    · simp at last
  · rw [nodes]
    split
    · rfl
    · rename_i apart
      cases there : s.nodes address with
      | none => rfl
      | some node => exact absurd (books.all owned there) apart
  · rw [log, List.count_append, List.count_map_of_injective _ _ fun _ _ => Entry.deleted.inj]
    cases there : s.nodes address with
    | some node =>
        -- it is deleted by the destructor
        have new : s.log.count (.deleted address) = 0 := List.count_eq_zero.mpr fun before => by
          rw [(mirrors.gone address before).1] at there
          cases there
        rw [new, List.count_eq_one_of_mem books.nodup (books.all owned there),
          if_pos (owned.named address node there).2]
    | none =>
        have apart : address ∉ spokeAddresses _ := fun member => by
          obtain ⟨node, found, -⟩ := present address member
          rw [there] at found
          cases found
        rw [List.count_eq_zero.mpr apart]
        by_cases old : address < s.allocations
        · have before := List.one_le_count_iff.mpr (owned.gone address old there)
          rw [if_pos old]
          exact Nat.le_antisymm (mirrors.tidy.deletes address) before
        · rw [if_neg old, Nat.add_zero, List.count_eq_zero]
          exact fun before => old (mirrors.gone address before).2

/-- Of a periodic task and two others, one is removed and one has fired. -/
def destroyedRun : Option LinkedTimer :=
  [Call.addTask 0 .circle, .addTask 0 .once, .addTask 500 .once, .removeTask 3].foldl
    (perform (Timer.steadyClock 0 10)) (create (Timer.steadyClock 0 10))
    |>.detectTimerList (Timer.steadyClock 0 10) fun _ => []

theorem destroyedRun_clean : ∃ s, destroyedRun = some s ∧ s.allocations = 4 ∧
    s.destroy.log.count (.deleted 0) = 1 ∧ ∀ address, s.destroy.nodes address = none := by
  have runs : destroyedRun.any (fun s => s.allocations = 4 ∧ adds s.log < 2 ^ 32) = true := by
    decide +kernel
  obtain ⟨s, done, facts⟩ := (Option.any_eq_true _ _).mp runs
  obtain ⟨allocations, few⟩ := of_decide_eq_true facts
  have run : Reached (fun _ _ => True) (Performs (Timer.steadyClock 0 10) fun _ => [])
      (create (Timer.steadyClock 0 10))
      [.call (.addTask 0 .circle), .call (.addTask 0 .once), .call (.addTask 500 .once),
        .call (.removeTask 3), .detectTimerList] s :=
    .cons trivial rfl (.cons trivial rfl (.cons trivial rfl (.cons trivial rfl
      (.cons trivial done (.nil _)))))
  obtain ⟨-, gone, deleted⟩ := destroyed_clean run few
  refine ⟨s, done, allocations, ?_, gone⟩
  rw [deleted, allocations]
  rfl

end FysobEngine.Common.LinkedTimer
