import Mathlib.Logic.Function.Basic
import FysobEngine.Foundation.Runs

/-!
# Nodes joined by streams

Every node has a peer, and what a node puts out travels to its peer in order. A
step of a node may take items off the front of those that are on the way to it.
The steps of the nodes interleave in any order.
-/

namespace FysobEngine.Foundation.Networks

open Runs

variable {ι σ α γ : Type _}

/-- How the nodes of a network are joined, and what each of them can do. -/
structure Wiring (ι σ α γ : Type _) where
  peer : ι → ι
  peer_peer (i : ι) : peer (peer i) = i
  step : ι → σ → α → Option σ
  /-- What an action takes from the stream to its node. -/
  takes : α → List γ
  /-- What an action puts on the stream to the peer. -/
  puts : σ → α → List γ

/-- The states of the nodes, with the items that are on the way to each. -/
structure Network (ι σ γ : Type _) where
  nodes : ι → σ
  wire : ι → List γ

/-- The actions of one node, in order. -/
def actionsOf [DecidableEq ι] (i : ι) (events : List (ι × α)) : List α :=
  events.filterMap fun event => if event.1 = i then some event.2 else none

namespace Wiring

variable [DecidableEq ι] (w : Wiring ι σ α γ)

/-- The streams behind an action `a` of the node `i` in the state `s`. -/
def carried (wire : ι → List γ) (i : ι) (s : σ) (a : α) (j : ι) : List γ :=
  (if j = i then (wire j).drop (w.takes a).length else wire j) ++
    if j = w.peer i then w.puts s a else []

/-- One step of one node. -/
def next [DecidableEq γ] (n : Network ι σ γ) (event : ι × α) : Option (Network ι σ γ) :=
  if w.takes event.2 <+: n.wire event.1 then
    (w.step event.1 (n.nodes event.1) event.2).map fun s =>
      { nodes := Function.update n.nodes event.1 s
        wire := w.carried n.wire event.1 (n.nodes event.1) event.2 }
  else none

/-- A run of the network in which each action meets its node's condition. -/
def Runs [DecidableEq γ] (valid : ι → σ → α → Prop) (n : Network ι σ γ)
    (events : List (ι × α)) (n' : Network ι σ γ) : Prop :=
  Reached (fun n event => valid event.1 (n.nodes event.1) event.2)
    (fun n event n' => w.next n event = some n') n events n'

variable {w}

@[simp] theorem actionsOf_same (i : ι) (a : α) (rest : List (ι × α)) :
    actionsOf i ((i, a) :: rest) = a :: actionsOf i rest := by
  simp [actionsOf]

theorem actionsOf_other {i j : ι} (other : j ≠ i) (a : α) (rest : List (ι × α)) :
    actionsOf i ((j, a) :: rest) = actionsOf i rest := by
  simp [actionsOf, other]

theorem actionsOf_append (i : ι) (before behind : List (ι × α)) :
    actionsOf i (before ++ behind) = actionsOf i before ++ actionsOf i behind :=
  List.filterMap_append

section Steps

variable [DecidableEq γ] {n n' : Network ι σ γ} {valid : ι → σ → α → Prop}

theorem next_some {i : ι} {a : α} (step : w.next n (i, a) = some n') :
    w.takes a <+: n.wire i ∧ ∃ s, w.step i (n.nodes i) a = some s ∧
      n'.nodes = Function.update n.nodes i s ∧
      n'.wire = w.carried n.wire i (n.nodes i) a := by
  unfold next at step
  split at step
  · next arrived =>
      obtain ⟨s, done, rfl⟩ := Option.map_eq_some_iff.mp step
      exact ⟨arrived, s, done, rfl, rfl⟩
  · cases step

/-- Each node makes a run of its own. -/
theorem Runs.node {events : List (ι × α)} (run : w.Runs valid n events n') (i : ι) :
    Reached (valid i) (fun s a s' => w.step i s a = some s') (n.nodes i) (actionsOf i events)
      (n'.nodes i) := by
  unfold Runs at run
  induction run with
  | nil n => exact .nil _
  | @cons n middle last event rest ok step _ ih =>
      obtain ⟨j, a⟩ := event
      obtain ⟨_, s, done, nodes, _⟩ := next_some step
      by_cases same : j = i
      · subst same
        rw [actionsOf_same]
        have reached : middle.nodes j = s := by rw [nodes, Function.update_self]
        exact .cons ok (reached ▸ done) ih
      · rw [actionsOf_other same]
        have kept : middle.nodes i = n.nodes i := by
          rw [nodes, Function.update_of_ne (Ne.symm same)]
        rw [← kept]
        exact ih

/-- Nothing is lost, repeated or reordered on the way: what was on the way to a
node and what its peer has put out since is what the node has taken and what is
still on the way. -/
theorem Runs.wire {events : List (ι × α)} (run : w.Runs valid n events n') (i : ι) :
    n.wire i ++ produced (w.step (w.peer i)) w.puts (n.nodes (w.peer i))
        (actionsOf (w.peer i) events) =
      (actionsOf i events).flatMap w.takes ++ n'.wire i := by
  unfold Runs at run
  induction run with
  | nil n => simp [actionsOf, produced]
  | @cons n middle last event rest ok step _ ih =>
      obtain ⟨j, a⟩ := event
      obtain ⟨⟨behind, arrived⟩, s, done, nodes, wire⟩ := next_some step
      have taken : (actionsOf i ((j, a) :: rest)).flatMap w.takes =
          (if i = j then w.takes a else []) ++ (actionsOf i rest).flatMap w.takes := by
        by_cases same : j = i
        · subst same
          rw [actionsOf_same, List.flatMap_cons, if_pos rfl]
        · rw [actionsOf_other same, if_neg (Ne.symm same), List.nil_append]
      have put : produced (w.step (w.peer i)) w.puts (n.nodes (w.peer i))
          (actionsOf (w.peer i) ((j, a) :: rest)) =
          (if i = w.peer j then w.puts (n.nodes j) a else []) ++
            produced (w.step (w.peer i)) w.puts (middle.nodes (w.peer i))
              (actionsOf (w.peer i) rest) := by
        by_cases same : j = w.peer i
        · subst same
          have reached : middle.nodes (w.peer i) = s := by rw [nodes, Function.update_self]
          rw [actionsOf_same, produced, done, reached, if_pos (w.peer_peer i).symm]
          rfl
        · have apart : i ≠ w.peer j := fun joined => same (by rw [joined, w.peer_peer])
          have kept : middle.nodes (w.peer i) = n.nodes (w.peer i) := by
            rw [nodes, Function.update_of_ne (Ne.symm same)]
          rw [actionsOf_other same, if_neg apart, List.nil_append, kept]
      -- the items taken are the first of those on the way
      have split : n.wire i ++ (if i = w.peer j then w.puts (n.nodes j) a else []) =
          (if i = j then w.takes a else []) ++ middle.wire i := by
        rw [wire, carried, ← List.append_assoc]
        congr 1
        by_cases same : i = j
        · subst same
          rw [if_pos rfl, if_pos rfl, ← arrived, List.drop_left]
        · rw [if_neg same, if_neg same, List.nil_append]
      rw [taken, put, ← List.append_assoc, split, List.append_assoc, List.append_assoc, ih]

end Steps

end Wiring

end FysobEngine.Foundation.Networks
