import Mathlib.Algebra.Ring.Nat

/-!
# Incremental decoders

A decoder looks at the items received so far and either waits for more or
performs an action that takes some of them off the front. One call performs
actions until it waits or an action ends it. The actions that a stream asks
for do not depend on where the calls cut it.
-/

namespace FysobEngine.Foundation.Framing

variable {β α : Type _}

/-- A decision procedure on the items at hand that later items do not revise. -/
structure Decoder (β α : Type _) where
  /-- The action that the items at the front ask for; `none` waits. -/
  next : List β → Option α
  /-- The number of items an action takes off the front. -/
  size : α → Nat
  /-- Whether a call goes on behind the action. -/
  again : α → Bool
  progress : ∀ {s : List β} {a : α}, next s = some a → 0 < size a
  within : ∀ {s : List β} {a : α}, next s = some a → size a ≤ s.length
  stable : ∀ {s : List β} {a : α} (more : List β), next s = some a → next (s ++ more) = some a

namespace Decoder

variable (d : Decoder β α)

theorem sub_lt {s : List β} {a : α} (found : d.next s = some a) :
    s.length - d.size a < s.length :=
  Nat.sub_lt (Nat.lt_of_lt_of_le (d.progress found) (d.within found)) (d.progress found)

/-- Every action that a stream asks for, and the items left over. -/
def drain (s : List β) : List α × List β :=
  match found : d.next s with
  | none => ([], s)
  | some a =>
      have := d.sub_lt found
      let inner := drain (s.drop (d.size a))
      (a :: inner.1, inner.2)
termination_by s.length

/-- One call on the items at hand: the actions performed and the items kept. -/
def call (s : List β) : List α × List β :=
  match found : d.next s with
  | none => ([], s)
  | some a =>
      have := d.sub_lt found
      if d.again a then
        let inner := call (s.drop (d.size a))
        (a :: inner.1, inner.2)
      else ([a], s.drop (d.size a))
termination_by s.length

/-- A call behind each chunk, on the items kept so far and the chunk. -/
def feed : List β → List (List β) → List α × List β
  | held, [] => ([], held)
  | held, chunk :: rest =>
      let first := d.call (held ++ chunk)
      let inner := feed first.2 rest
      (first.1 ++ inner.1, inner.2)

/-- The items that a list of actions takes. -/
def consumed (log : List α) : Nat := (log.map d.size).sum

theorem drain_wait {s : List β} (waits : d.next s = none) : d.drain s = ([], s) := by
  rw [drain]
  split
  · rfl
  · next a found =>
      rw [waits] at found
      cases found

theorem drain_act {s : List β} {a : α} (found : d.next s = some a) :
    d.drain s = (a :: (d.drain (s.drop (d.size a))).1, (d.drain (s.drop (d.size a))).2) := by
  rw [drain]
  split
  · next waits =>
      rw [found] at waits
      cases waits
  · next b other =>
      rw [found, Option.some.injEq] at other
      rw [other]

theorem call_wait {s : List β} (waits : d.next s = none) : d.call s = ([], s) := by
  rw [call]
  split
  · rfl
  · next a found =>
      rw [waits] at found
      cases found

theorem call_again {s : List β} {a : α} (found : d.next s = some a) (again : d.again a = true) :
    d.call s = (a :: (d.call (s.drop (d.size a))).1, (d.call (s.drop (d.size a))).2) := by
  rw [call]
  split
  · next waits =>
      rw [found] at waits
      cases waits
  · next b other =>
      rw [found, Option.some.injEq] at other
      subst other
      rw [if_pos again]

theorem call_stop {s : List β} {a : α} (found : d.next s = some a) (stop : d.again a = false) :
    d.call s = ([a], s.drop (d.size a)) := by
  rw [call]
  split
  · next waits =>
      rw [found] at waits
      cases waits
  · next b other =>
      rw [found, Option.some.injEq] at other
      subst other
      rw [if_neg (by rw [stop]; exact Bool.false_ne_true)]

/-- Induction along the actions that the front of a list asks for. -/
theorem induct_next {P : List β → Prop} (wait : ∀ s, d.next s = none → P s)
    (act : ∀ s a, d.next s = some a → P (s.drop (d.size a)) → P s) (s : List β) : P s := by
  cases found : d.next s with
  | none => exact wait s found
  | some a =>
      have := d.sub_lt found
      exact act s a found (induct_next wait act (s.drop (d.size a)))
termination_by s.length

theorem drop_append {s : List β} {a : α} (found : d.next s = some a) (more : List β) :
    (s ++ more).drop (d.size a) = s.drop (d.size a) ++ more :=
  List.drop_append_of_le_length (d.within found)

/-- Later items only come behind the actions of a call. -/
theorem drain_call (s more : List β) :
    d.drain (s ++ more) =
      ((d.call s).1 ++ (d.drain ((d.call s).2 ++ more)).1,
        (d.drain ((d.call s).2 ++ more)).2) := by
  induction s using d.induct_next with
  | wait s waits =>
      rw [d.call_wait waits]
      rfl
  | act s a found ih =>
      rw [d.drain_act (d.stable more found), d.drop_append found]
      cases again : d.again a with
      | true =>
          rw [d.call_again found again, ih]
          rfl
      | false =>
          rw [d.call_stop found again]
          rfl

/-- A part of a stream asks for the first actions of the stream. -/
theorem drain_front (s more : List β) : (d.drain s).1 <+: (d.drain (s ++ more)).1 := by
  induction s using d.induct_next with
  | wait s waits =>
      rw [d.drain_wait waits]
      exact List.nil_prefix
  | act s a found ih =>
      rw [d.drain_act found, d.drain_act (d.stable more found), d.drop_append found]
      exact (List.prefix_cons_inj a).mpr ih

/-- The actions of a fed stream, followed by those still asked for, are the
actions of the whole stream. -/
theorem drain_feed (held : List β) (chunks : List (List β)) :
    d.drain (held ++ chunks.flatten) =
      ((d.feed held chunks).1 ++ (d.drain (d.feed held chunks).2).1,
        (d.drain (d.feed held chunks).2).2) := by
  induction chunks generalizing held with
  | nil =>
      rw [List.flatten_nil, List.append_nil]
      rfl
  | cons chunk rest ih =>
      rw [List.flatten_cons, ← List.append_assoc, d.drain_call, ih]
      simp only [feed, List.append_assoc]

/-- A fed stream performs a prefix of the actions of the whole stream. -/
theorem feed_consumed (chunks : List (List β)) :
    (d.feed [] chunks).1 <+: (d.drain chunks.flatten).1 := by
  have whole := d.drain_feed [] chunks
  rw [List.nil_append] at whole
  rw [whole]
  exact List.prefix_append _ _

/-- The items kept are the stream behind the items taken. -/
theorem call_rest (s : List β) :
    d.consumed (d.call s).1 + (d.call s).2.length = s.length := by
  induction s using d.induct_next with
  | wait s waits =>
      rw [d.call_wait waits]
      exact Nat.zero_add _
  | act s a found ih =>
      have bound := d.within found
      cases again : d.again a with
      | true =>
          rw [d.call_again found again]
          simp only [consumed, List.map_cons, List.sum_cons] at ih ⊢
          rw [Nat.add_assoc, ih, List.length_drop, Nat.add_sub_cancel' bound]
      | false =>
          rw [d.call_stop found again]
          simp only [consumed, List.map_cons, List.map_nil, List.sum_cons, List.sum_nil]
          rw [Nat.add_zero, List.length_drop, Nat.add_sub_cancel' bound]

theorem consumed_append (first second : List α) :
    d.consumed (first ++ second) = d.consumed first + d.consumed second := by
  rw [consumed, List.map_append, List.sum_append]
  rfl

theorem feed_rest (held : List β) (chunks : List (List β)) :
    d.consumed (d.feed held chunks).1 + (d.feed held chunks).2.length =
      held.length + chunks.flatten.length := by
  induction chunks generalizing held with
  | nil => exact Nat.zero_add _
  | cons chunk rest ih =>
      have first := d.call_rest (held ++ chunk)
      rw [List.length_append] at first
      simp only [feed, d.consumed_append]
      rw [Nat.add_assoc, ih, ← Nat.add_assoc, first, List.flatten_cons, List.length_append,
        Nat.add_assoc]

/-- A call whose actions all go on ends where the decoder waits. -/
theorem call_waits (s : List β) (goes : ∀ a ∈ (d.call s).1, d.again a = true) :
    d.next (d.call s).2 = none := by
  induction s using d.induct_next with
  | wait s waits =>
      rw [d.call_wait waits]
      exact waits
  | act s a found ih =>
      cases again : d.again a with
      | true =>
          rw [d.call_again found again] at goes ⊢
          exact ih fun b member => goes b (List.mem_cons_of_mem a member)
      | false =>
          rw [d.call_stop found again] at goes
          rw [goes a List.mem_cons_self] at again
          cases again

/-- Where no action ends a call, feeding a stream in chunks performs exactly
its actions. -/
theorem feed_eq_drain {held : List β} (waits : d.next held = none) (chunks : List (List β))
    (goes : ∀ a ∈ (d.drain (held ++ chunks.flatten)).1, d.again a = true) :
    d.feed held chunks = d.drain (held ++ chunks.flatten) := by
  induction chunks generalizing held with
  | nil =>
      rw [List.flatten_nil, List.append_nil, d.drain_wait waits]
      rfl
  | cons chunk rest ih =>
      rw [List.flatten_cons, ← List.append_assoc, d.drain_call] at goes ⊢
      simp only [List.mem_append] at goes
      have stays := d.call_waits (held ++ chunk) fun a member => goes a (.inl member)
      have tail := ih stays fun a member => goes a (.inr member)
      simp only [feed, tail]

end Decoder

end FysobEngine.Foundation.Framing
