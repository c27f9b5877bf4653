import Mathlib.Data.List.Nodup
import Mathlib.Logic.Function.Basic

/-!
# Doubly linked lists

Links that point to the next and the previous one. A strand leads from one link
over some nodes to another; a ring is a strand that ends where it began, at its
sentinel. A family of strands shares no link.
-/

namespace FysobEngine.Foundation.LinkRings

variable {α ι : Type _}

structure Links (α : Type _) where
  next : α → α
  prev : α → α

/-- The links lead from `first` over the nodes to `last`, and back. -/
def Strand (l : Links α) : α → List α → α → Prop
  | first, [], last => l.next first = last ∧ l.prev last = first
  | first, a :: rest, last => l.next first = a ∧ l.prev a = first ∧ Strand l a rest last

/-- The next links lead over the nodes to `last`; nothing is said of the way back. -/
def Trail (l : Links α) (last : α) : List α → Prop
  | [] => True
  | a :: rest => l.next a = rest.headD last ∧ Trail l last rest

/-! ## Reading along a strand -/

section Reading

variable {l l' : Links α} {first last a : α} {xs ys : List α}

theorem Strand.next_first (strand : Strand l first xs last) : l.next first = xs.headD last := by
  cases xs with
  | nil => exact strand.1
  | cons a rest => exact strand.1

theorem Strand.trail (strand : Strand l first xs last) : Trail l last xs := by
  induction xs generalizing first with
  | nil => trivial
  | cons a rest ih => exact ⟨strand.2.2.next_first, ih strand.2.2⟩

theorem Strand.prev_last (strand : Strand l first xs last) : l.prev last ∈ first :: xs := by
  induction xs generalizing first with
  | nil =>
      rw [strand.2]
      exact List.mem_cons_self
  | cons a rest ih => exact List.mem_cons_of_mem first (ih strand.2.2)

theorem strand_append :
    Strand l first (xs ++ a :: ys) last ↔ Strand l first xs a ∧ Strand l a ys last := by
  induction xs generalizing first with
  | nil => exact and_assoc.symm
  | cons b rest ih => simp only [List.cons_append, Strand, ih, and_assoc]

theorem Strand.front (strand : Strand l first (xs ++ ys) last) :
    Strand l first xs (ys.headD last) := by
  cases ys with
  | nil =>
      rw [List.append_nil] at strand
      exact strand
  | cons a rest => exact (strand_append.mp strand).1

/-- The links read the other way. -/
def Links.reverse (l : Links α) : Links α where
  next := l.prev
  prev := l.next

theorem Strand.reverse (strand : Strand l first xs last) :
    Strand l.reverse last xs.reverse first := by
  induction xs generalizing first with
  | nil => exact ⟨strand.2, strand.1⟩
  | cons a rest ih =>
      rw [List.reverse_cons]
      exact strand_append.mpr ⟨ih strand.2.2, strand.2.1, strand.1⟩

/-- What links that may be null lead to, in a number of steps. -/
def follow (link : α → Option α) : Nat → α → List α
  | 0, _ => []
  | steps + 1, a => a :: (link a).elim [] (follow link steps)

theorem follow_some {link : α → Option α} {b : α} (linked : link a = some b) (steps : Nat) :
    follow link (steps + 1) a = a :: follow link steps b := by
  rw [follow, linked]
  rfl

theorem follow_none {link : α → Option α} (ends : link a = none) (steps : Nat) :
    follow link (steps + 1) a = [a] := by
  rw [follow, ends]
  rfl

theorem Strand.follow_next {l : Links (Option α)} (ends : l.next (some last) = none)
    (strand : Strand l (some first) (xs.map some) (some last)) {steps : Nat}
    (enough : xs.length + 2 ≤ steps) :
    follow (fun a => l.next (some a)) steps first = first :: xs ++ [last] := by
  induction xs generalizing first steps with
  | nil =>
      obtain ⟨steps, rfl⟩ := Nat.exists_eq_add_of_le' enough
      rw [List.length_nil, Nat.zero_add, follow_some strand.1, follow_none ends]
      rfl
  | cons a rest ih =>
      obtain ⟨steps, rfl⟩ := Nat.exists_eq_add_of_le' (Nat.one_le_of_lt enough)
      have behind := ih strand.2.2 (Nat.le_of_succ_le_succ enough)
      rw [follow_some strand.1, behind]
      rfl

/-- A strand depends on the next links of all but its last link and on the previous
links of all but its first. -/
theorem Strand.congr (strand : Strand l first xs last)
    (next : ∀ b ∈ first :: xs, l'.next b = l.next b)
    (prev : ∀ b ∈ xs ++ [last], l'.prev b = l.prev b) : Strand l' first xs last := by
  induction xs generalizing first with
  | nil =>
      refine ⟨?_, ?_⟩
      · exact (next first List.mem_cons_self).trans strand.1
      · exact (prev last List.mem_cons_self).trans strand.2
  | cons a rest ih =>
      refine ⟨?_, ?_, ih strand.2.2 (fun b member => ?_) (fun b member => ?_)⟩
      · exact (next first List.mem_cons_self).trans strand.1
      · exact (prev a List.mem_cons_self).trans strand.2.1
      · exact next b (List.mem_cons_of_mem first member)
      · exact prev b (List.mem_cons_of_mem a member)

theorem Trail.congr (trail : Trail l last xs) (next : ∀ b ∈ xs, l'.next b = l.next b) :
    Trail l' last xs := by
  induction xs with
  | nil => trivial
  | cons a rest ih =>
      refine ⟨(next a List.mem_cons_self).trans trail.1, ih trail.2 fun b member => ?_⟩
      exact next b (List.mem_cons_of_mem a member)

/-- A strand is led to another link. -/
theorem Strand.retarget {other : α} (strand : Strand l first xs last)
    (nodup : (first :: xs).Nodup) (turned : l'.next (l.prev last) = other)
    (back : l'.prev other = l.prev last)
    (next : ∀ b ∈ first :: xs, b ≠ l.prev last → l'.next b = l.next b)
    (prev : ∀ b ∈ xs, l'.prev b = l.prev b) : Strand l' first xs other := by
  induction xs generalizing first with
  | nil =>
      rw [strand.2] at turned back
      exact ⟨turned, back⟩
  | cons a rest ih =>
      obtain ⟨forth, returned, tail⟩ := strand
      obtain ⟨notMem, nodup⟩ := List.nodup_cons.mp nodup
      have notLast : first ≠ l.prev last := by
        intro same
        rw [same] at notMem
        exact notMem tail.prev_last
      refine ⟨?_, (prev a List.mem_cons_self).trans returned, ih tail nodup ?_ ?_⟩
      · exact (next first List.mem_cons_self notLast).trans forth
      · exact fun b member => next b (List.mem_cons_of_mem first member)
      · exact fun b member => prev b (List.mem_cons_of_mem a member)

end Reading

/-! ## Link surgery -/

namespace Links

variable [DecidableEq α]

def setNext (l : Links α) (a b : α) : Links α := { l with next := Function.update l.next a b }

def setPrev (l : Links α) (a b : α) : Links α := { l with prev := Function.update l.prev a b }

/-- A link that is a ring by itself. -/
def close (l : Links α) (a : α) : Links α := (l.setNext a a).setPrev a a

/-- The neighbours of a node are linked to each other. -/
def unlink (l : Links α) (a : α) : Links α :=
  let l := l.setNext (l.prev a) (l.next a)
  l.setPrev (l.next a) (l.prev a)

/-- A node is linked in front of another. -/
def linkBefore (l : Links α) (last a : α) : Links α :=
  let l := l.setPrev a (l.prev last)
  let l := l.setNext (l.prev last) a
  let l := l.setNext a last
  l.setPrev last a

variable (l : Links α) {a b last : α}

@[simp] theorem setNext_next_self (c : α) : (l.setNext a c).next a = c :=
  Function.update_self _ _ _

@[simp] theorem setPrev_prev_self (c : α) : (l.setPrev a c).prev a = c :=
  Function.update_self _ _ _

theorem setNext_next_of_ne (c : α) (ne : b ≠ a) : (l.setNext a c).next b = l.next b :=
  Function.update_of_ne ne _ _

theorem setPrev_prev_of_ne (c : α) (ne : b ≠ a) : (l.setPrev a c).prev b = l.prev b :=
  Function.update_of_ne ne _ _

theorem close_next_of_ne (ne : b ≠ a) : (l.close a).next b = l.next b :=
  setNext_next_of_ne l a ne

theorem close_prev_of_ne (ne : b ≠ a) : (l.close a).prev b = l.prev b :=
  setPrev_prev_of_ne _ a ne

theorem close_strand : Strand (l.close a) a [] a :=
  ⟨setNext_next_self l a, setPrev_prev_self _ a⟩

theorem unlink_next_of_ne (ne : b ≠ l.prev a) : (l.unlink a).next b = l.next b :=
  setNext_next_of_ne l _ ne

theorem unlink_next_prev : (l.unlink a).next (l.prev a) = l.next a :=
  setNext_next_self l _

variable {l}

/-- A node that is not its own neighbour keeps its links when it is unlinked. -/
theorem unlink_eq (proper : l.prev a ≠ a) :
    l.unlink a = (l.setNext (l.prev a) (l.next a)).setPrev (l.next a) (l.prev a) := by
  unfold unlink
  dsimp only
  rw [setNext_next_of_ne l _ proper.symm]
  rfl

theorem unlink_prev_of_ne (proper : l.prev a ≠ a) (ne : b ≠ l.next a) :
    (l.unlink a).prev b = l.prev b := by
  rw [unlink_eq proper]
  exact setPrev_prev_of_ne _ _ ne

theorem unlink_prev_next (proper : l.prev a ≠ a) : (l.unlink a).prev (l.next a) = l.prev a := by
  rw [unlink_eq proper]
  exact setPrev_prev_self _ _

/-- The previous link of `last` is read again after the node's own has been set. -/
theorem linkBefore_eq (ne : a ≠ last) : l.linkBefore last a =
    ((((l.setPrev a (l.prev last)).setNext (l.prev last) a).setNext a last).setPrev last a) := by
  unfold linkBefore
  dsimp only
  rw [setPrev_prev_of_ne l _ ne.symm]

theorem linkBefore_next_self (ne : a ≠ last) : (l.linkBefore last a).next a = last := by
  rw [linkBefore_eq ne]
  exact setNext_next_self _ _

theorem linkBefore_next_prev (ne : a ≠ last) (other : l.prev last ≠ a) :
    (l.linkBefore last a).next (l.prev last) = a := by
  rw [linkBefore_eq ne]
  exact (setNext_next_of_ne _ _ other).trans (setNext_next_self _ _)

theorem linkBefore_next_of_ne (ne : a ≠ last) (self : b ≠ a) (other : b ≠ l.prev last) :
    (l.linkBefore last a).next b = l.next b := by
  rw [linkBefore_eq ne]
  exact (setNext_next_of_ne _ _ self).trans (setNext_next_of_ne _ _ other)

theorem linkBefore_prev_self (ne : a ≠ last) : (l.linkBefore last a).prev a = l.prev last := by
  rw [linkBefore_eq ne]
  exact (setPrev_prev_of_ne _ _ ne).trans (setPrev_prev_self _ _)

theorem linkBefore_prev_last : (l.linkBefore last a).prev last = a :=
  setPrev_prev_self _ _

theorem linkBefore_prev_of_ne (ne : a ≠ last) (self : b ≠ a) (other : b ≠ last) :
    (l.linkBefore last a).prev b = l.prev b := by
  rw [linkBefore_eq ne]
  exact (setPrev_prev_of_ne _ _ other).trans (setPrev_prev_of_ne _ _ self)

end Links

open Links

/-! ## Surgery on a strand -/

section Surgery

variable [DecidableEq α] {l : Links α} {first last a : α} {xs ys : List α}

theorem Strand.linkBefore (strand : Strand l first xs last) (nodup : (first :: xs).Nodup)
    (outside : last ∉ xs) (fresh : a ∉ first :: xs) (ne : a ≠ last) :
    Strand (l.linkBefore last a) first (xs ++ [a]) last := by
  have elsewhere {b : α} (member : b ∈ first :: xs) : b ≠ a := fun same => fresh (same ▸ member)
  refine strand_append.mpr ⟨strand.retarget nodup ?_ ?_ ?_ ?_, ?_, ?_⟩
  · exact linkBefore_next_prev ne (elsewhere strand.prev_last)
  · exact linkBefore_prev_self ne
  · exact fun b member other => linkBefore_next_of_ne ne (elsewhere member) other
  · intro b member
    have notLast : b ≠ last := fun same => outside (same ▸ member)
    exact linkBefore_prev_of_ne ne (elsewhere (List.mem_cons_of_mem first member)) notLast
  · exact linkBefore_next_self ne
  · exact linkBefore_prev_last

theorem Strand.unlink (strand : Strand l first (xs ++ a :: ys) last)
    (nodup : (first :: (xs ++ a :: ys)).Nodup) (outside : last ∉ xs ++ a :: ys) :
    Strand (l.unlink a) first (xs ++ ys) last := by
  obtain ⟨front, back⟩ := strand_append.mp strand
  rw [← List.cons_append, List.nodup_append] at nodup
  obtain ⟨before, behind, apart⟩ := nodup
  have proper : l.prev a ≠ a := apart _ front.prev_last a List.mem_cons_self
  have next_eq : l.next a = ys.headD last := back.next_first
  have rejoined : ∀ b, l.next a = b → b ∉ xs → Strand (l.unlink a) first xs b := by
    intro b turned other
    refine front.retarget before ?_ ?_ ?_ ?_
    · exact (unlink_next_prev l).trans turned
    · rw [← turned]
      exact unlink_prev_next proper
    · exact fun c _ notPrev => unlink_next_of_ne l notPrev
    · intro c member
      exact unlink_prev_of_ne proper fun same => other (turned ▸ same ▸ member)
  cases ys with
  | nil =>
      rw [List.append_nil]
      exact rejoined last next_eq fun member => outside (List.mem_append_left _ member)
  | cons y rest =>
      obtain ⟨_, _, tail⟩ := back
      have clean {b : α} (member : b ∈ y :: rest) : b ∉ first :: xs := fun inside =>
        apart b inside b (List.mem_cons_of_mem a member) rfl
      refine strand_append.mpr ⟨rejoined y next_eq fun member => ?_, tail.congr ?_ ?_⟩
      · exact clean List.mem_cons_self (List.mem_cons_of_mem first member)
      · intro b member
        exact unlink_next_of_ne l fun same => clean member (same ▸ front.prev_last)
      · intro b member
        refine unlink_prev_of_ne proper fun same => ?_
        rw [same, next_eq, List.headD_cons] at member
        obtain later | rfl := List.mem_append.mp member |>.imp id List.mem_singleton.mp
        · exact (List.nodup_cons.mp (List.nodup_cons.mp behind).2).1 later
        · exact outside (by simp)

end Surgery

/-! ## Families of strands -/

/-- Strands that share no link. -/
structure Strands (l : Links α) (first last : ι → α) (nodes : ι → List α) : Prop where
  strand : ∀ i, Strand l (first i) (nodes i) (last i)
  nodup : ∀ i, (first i :: nodes i).Nodup
  apart : ∀ i j a, a ∈ first i :: nodes i → a ∈ first j :: nodes j → i = j
  outside : ∀ i j, last i ∉ nodes j
  ends : ∀ i j, last i = last j → i = j

namespace Strands

variable {l : Links α} {first last : ι → α} {nodes nodes' : ι → List α} {i : ι} {a : α}

theorem eq_of_mem (strands : Strands l first last nodes) {j : ι} (here : a ∈ nodes i)
    (there : a ∈ nodes j) : i = j :=
  strands.apart i j a (List.mem_cons_of_mem _ here) (List.mem_cons_of_mem _ there)

theorem first_not_mem (strands : Strands l first last nodes) (j : ι) : first i ∉ nodes j := by
  intro member
  have same := strands.apart i j _ List.mem_cons_self (List.mem_cons_of_mem _ member)
  subst same
  exact (List.nodup_cons.mp (strands.nodup i)).1 member

/-- Strands that have lost some of their links, whatever the links are now. -/
theorem shrink (strands : Strands l first last nodes) {l' : Links α} {first' : ι → α}
    (strand : ∀ j, Strand l' (first' j) (nodes' j) (last j))
    (fewer : ∀ j, List.Sublist (first' j :: nodes' j) (first j :: nodes j)) :
    Strands l' first' last nodes' where
  strand := strand
  nodup j := (strands.nodup j).sublist (fewer j)
  apart i j a here there := strands.apart i j a ((fewer i).subset here) ((fewer j).subset there)
  outside i j member := strands.outside i j ((fewer j).tail.subset member)
  ends := strands.ends

theorem congr (strands : Strands l first last nodes) {l' : Links α}
    (next : ∀ j, ∀ b ∈ first j :: nodes j, l'.next b = l.next b)
    (prev : ∀ j, ∀ b ∈ nodes j ++ [last j], l'.prev b = l.prev b) :
    Strands l' first last nodes :=
  strands.shrink (fun j => (strands.strand j).congr (next j) (prev j)) fun _ => List.Sublist.refl _

/-- The first node of a strand becomes where it begins. -/
theorem advance (strands : Strands l first last nodes) {first' : ι → α} {rest : List α}
    (here : nodes i = a :: rest) (here' : nodes' i = rest) (begin' : first' i = a)
    (others : ∀ j, j ≠ i → nodes' j = nodes j ∧ first' j = first j) :
    Strands l first' last nodes' := by
  refine strands.shrink (fun j => ?_) (fun j => ?_)
  · by_cases same : j = i
    · subst same
      have strand := strands.strand j
      rw [here] at strand
      rw [here', begin']
      exact strand.2.2
    · rw [(others j same).1, (others j same).2]
      exact strands.strand j
  · by_cases same : j = i
    · subst same
      rw [here, here', begin']
      exact List.sublist_cons_self _ _
    · rw [(others j same).1, (others j same).2]

theorem neighbours (strands : Strands l first last nodes) (member : a ∈ nodes i) :
    l.prev a ∈ first i :: nodes i ∧ l.prev a ≠ a ∧ (l.next a ∈ nodes i ∨ l.next a = last i) := by
  obtain ⟨xs, ys, here⟩ := List.append_of_mem member
  have strand := strands.strand i
  have nodup := strands.nodup i
  rw [here] at strand nodup ⊢
  obtain ⟨front, back⟩ := strand_append.mp strand
  rw [← List.cons_append, List.nodup_append] at nodup
  refine ⟨?_, nodup.2.2 _ front.prev_last a List.mem_cons_self, ?_⟩
  · rw [← List.cons_append]
    exact List.mem_append_left _ front.prev_last
  · rw [back.next_first]
    cases ys with
    | nil => exact .inr rfl
    | cons y rest => exact .inl (by simp)

variable [DecidableEq α]

theorem unlink (strands : Strands l first last nodes) {xs ys : List α}
    (here : nodes i = xs ++ a :: ys) (here' : nodes' i = xs ++ ys)
    (others : ∀ j, j ≠ i → nodes' j = nodes j) : Strands (l.unlink a) first last nodes' := by
  obtain ⟨before, proper, after⟩ := strands.neighbours (i := i) (a := a) (by simp [here])
  have strand := strands.strand i
  have nodup := strands.nodup i
  have outside := strands.outside i i
  rw [here] at strand nodup outside
  refine strands.shrink (fun j => ?_) (fun j => ?_)
  · by_cases same : j = i
    · subst same
      rw [here']
      exact strand.unlink nodup outside
    · rw [others j same]
      refine (strands.strand j).congr (fun b member => ?_) (fun b member => ?_)
      · refine unlink_next_of_ne l fun eq => same ?_
        exact strands.apart j i b member (eq ▸ before)
      · refine unlink_prev_of_ne proper fun eq => same ?_
        obtain inside | final := List.mem_append.mp member
        · obtain neighbour | neighbour := after
          · exact strands.eq_of_mem inside (eq ▸ neighbour)
          · exact absurd (neighbour ▸ eq ▸ inside) (strands.outside i j)
        · rw [List.mem_singleton.mp final] at eq
          obtain neighbour | neighbour := after
          · exact absurd (eq ▸ neighbour) (strands.outside j i)
          · exact strands.ends j i (eq.trans neighbour)
  · by_cases same : j = i
    · subst same
      rw [here, here']
      exact ((List.sublist_cons_self a ys).append_left xs).cons_cons _
    · rw [others j same]

theorem linkBefore (strands : Strands l first last nodes) (here' : nodes' i = nodes i ++ [a])
    (others : ∀ j, j ≠ i → nodes' j = nodes j) (fresh : ∀ j, a ∉ first j :: nodes j)
    (new : ∀ j, a ≠ last j) : Strands (l.linkBefore (last i) a) first last nodes' := by
  have neighbour := (strands.strand i).prev_last
  have widened : ∀ j b, b ∈ first j :: nodes' j → b ∈ first j :: nodes j ∨ j = i ∧ b = a := by
    intro j b member
    by_cases same : j = i
    · subst same
      rw [here', ← List.cons_append] at member
      exact (List.mem_append.mp member).imp id fun last => ⟨rfl, List.mem_singleton.mp last⟩
    · rw [others j same] at member
      exact .inl member
  refine ⟨fun j => ?_, fun j => ?_, fun j k b one two => ?_, fun j k member => ?_, strands.ends⟩
  · by_cases same : j = i
    · subst same
      rw [here']
      exact (strands.strand j).linkBefore (strands.nodup j) (strands.outside j j) (fresh j) (new j)
    · rw [others j same]
      refine (strands.strand j).congr (fun b member => ?_) (fun b member => ?_)
      · refine linkBefore_next_of_ne (new i) (fun eq => fresh j (eq ▸ member)) fun eq => same ?_
        exact strands.apart j i b member (eq ▸ neighbour)
      · obtain inside | final := List.mem_append.mp member
        · refine linkBefore_prev_of_ne (new i) (fun eq => fresh j ?_) fun eq => ?_
          · exact List.mem_cons_of_mem _ (eq ▸ inside)
          · exact strands.outside i j (eq ▸ inside)
        · rw [List.mem_singleton.mp final]
          exact linkBefore_prev_of_ne (new i) (new j).symm fun eq => same (strands.ends j i eq)
  · by_cases same : j = i
    · subst same
      rw [here', ← List.cons_append, List.nodup_append]
      refine ⟨strands.nodup j, List.nodup_singleton a, fun b member c last eq => fresh j ?_⟩
      rw [← List.mem_singleton.mp last, ← eq]
      exact member
    · rw [others j same]
      exact strands.nodup j
  · obtain one | ⟨rfl, rfl⟩ := widened j b one
    · obtain two | ⟨-, rfl⟩ := widened k b two
      · exact strands.apart j k b one two
      · exact absurd one (fresh j)
    · obtain two | ⟨rfl, -⟩ := widened k b two
      · exact absurd two (fresh k)
      · rfl
  · by_cases same : k = i
    · subst same
      rw [here'] at member
      obtain inside | final := List.mem_append.mp member
      · exact strands.outside j k inside
      · exact new j (List.mem_singleton.mp final).symm
    · rw [others k same] at member
      exact strands.outside j k member

/-- A strand is given up, and where it ended becomes a ring. -/
theorem close (strands : Strands l first last nodes) {first' : ι → α} (here' : nodes' i = [])
    (begin' : first' i = last i) (others : ∀ j, j ≠ i → nodes' j = nodes j ∧ first' j = first j)
    (alone : ∀ j, j ≠ i → last i ≠ first j) : Strands (l.close (last i)) first' last nodes' := by
  have clear : ∀ j, j ≠ i → ∀ b ∈ first' j :: nodes' j, b ≠ last i := by
    intro j other b member eq
    rw [(others j other).1, (others j other).2] at member
    obtain begins | inside := List.mem_cons.mp member
    · exact alone j other (eq.symm.trans begins)
    · exact strands.outside i j (eq ▸ inside)
  refine ⟨fun j => ?_, fun j => ?_, fun j k b one two => ?_, fun j k member => ?_, strands.ends⟩
  · by_cases same : j = i
    · subst same
      rw [here', begin']
      exact close_strand l
    · have strand := strands.strand j
      rw [← (others j same).1, ← (others j same).2] at strand
      refine strand.congr (fun b member => ?_) (fun b member => ?_)
      · exact close_next_of_ne l (clear j same b member)
      · refine close_prev_of_ne l ?_
        obtain inside | final := List.mem_append.mp member
        · exact clear j same b (List.mem_cons_of_mem _ inside)
        · rw [List.mem_singleton.mp final]
          exact fun eq => same (strands.ends j i eq)
  · by_cases same : j = i
    · subst same
      rw [here']
      exact List.nodup_singleton _
    · rw [(others j same).1, (others j same).2]
      exact strands.nodup j
  · by_cases first : j = i
    · by_cases second : k = i
      · rw [first, second]
      · subst first
        rw [here', begin', List.mem_singleton] at one
        exact absurd one (clear k second b two)
    · by_cases second : k = i
      · subst second
        rw [here', begin', List.mem_singleton] at two
        exact absurd two (clear j first b one)
      · rw [(others j first).1, (others j first).2] at one
        rw [(others k second).1, (others k second).2] at two
        exact strands.apart j k b one two
  · by_cases same : k = i
    · subst same
      rw [here'] at member
      cases member
    · rw [(others k same).1] at member
      exact strands.outside j k member

end Strands

end FysobEngine.Foundation.LinkRings
