import FysobEngine.Handler.PipelineOrder

/-!
# What a chain of handlers means

Handlers that answer their events, each in its own way, are composed along the
chain: an event from the connection goes into the handlers behind, an answer out
through those before. The linked contexts compute this composition.
-/

namespace FysobEngine.Handler

open Foundation.LinkRings

variable {μ : Type}

/-! ## The composition -/

/-- The event that a handler asks its context for. -/
def Request.event : Request μ → Call μ
  | .fire event => event
  | .call event => event

/-- What a handler asks for at an event. -/
def AbstractHandler.answers (handler : AbstractHandler μ) : Call μ → List (Request μ)
  | .connect => handler.connect
  | .read msg => handler.decode msg
  | .write msg => handler.encode msg
  | .close => handler.close
  | .notifyClosed => handler.notifyClosed

/-- What an event to the connection comes to, through the handlers before it, from
the nearest one to the first. -/
def outward : List (AbstractHandler μ) → Call μ → List (Work μ)
  | [], call => call.reaches
  | handler :: before, call =>
      (handler.answers call).flatMap fun request => outward before request.event

/-- What an event from the connection comes to, which the handlers `before` have
passed on to those `behind`. -/
def inward : List (AbstractHandler μ) → List (AbstractHandler μ) → Call μ → List (Work μ)
  | _, [], _ => []
  | before, handler :: behind, call =>
      (handler.answers call).flatMap fun request =>
        match request with
        | .fire event =>
            if event.inward then inward (handler :: before) behind event
            else outward before event
        | .call event => outward (handler :: before) event

/-- A handler that makes no event from the connection out of one to it, and calls
its own context only for an event to the connection. -/
structure AbstractHandler.Layered (handler : AbstractHandler μ) : Prop where
  inward : ∀ call, call.inward = true → ∀ request ∈ handler.answers call,
    (∃ event, request = .fire event) ∨ ∃ event, request = .call event ∧ event.inward = false
  outward : ∀ call, call.inward = false → ∀ request ∈ handler.answers call,
    ∃ event, request = .fire event ∧ event.inward = false

/-- A handler that only decodes and encodes, as those of the engine do. -/
def AbstractHandler.coder (decode encode : μ → List (Request μ)) : AbstractHandler μ :=
  { AbstractHandler.base with decode := decode, encode := encode }

theorem AbstractHandler.coder_layered {decode encode : μ → List (Request μ)}
    (decodes : ∀ msg, ∀ request ∈ decode msg, (∃ event, request = .fire event) ∨
      ∃ event, request = .call event ∧ event.inward = false)
    (encodes : ∀ msg, ∀ request ∈ encode msg,
      ∃ event, request = .fire event ∧ event.inward = false) :
    (coder decode encode).Layered where
  inward call inward request member := by
    cases call with
    | connect => exact .inl ⟨_, List.mem_singleton.mp member⟩
    | read msg => exact decodes msg request member
    | write msg => cases inward
    | close => cases inward
    | notifyClosed => exact .inl ⟨_, List.mem_singleton.mp member⟩
  outward call outward request member := by
    cases call with
    | connect => cases outward
    | read msg => cases outward
    | write msg => exact encodes msg request member
    | close => exact ⟨_, List.mem_singleton.mp member, rfl⟩
    | notifyClosed => cases outward

theorem AbstractHandler.base_layered : (base : AbstractHandler μ).Layered :=
  coder_layered (fun _ _ member => .inl ⟨_, List.mem_singleton.mp member⟩)
    (fun _ _ member => ⟨_, List.mem_singleton.mp member, rfl⟩)

/-- Whether the pipeline itself is called. -/
def Work.atConnection : Work μ → Bool
  | .context _ _ => false
  | .write _ => true
  | .close => true

namespace Pipeline

variable {p : Pipeline μ}

/-! ## Calls and what they come to -/

/-- Some work comes to an end, with these calls of the pipeline itself. -/
def Means (p : Pipeline μ) (work calls : List (Work μ)) : Prop :=
  ∃ trace, p.Delivers work trace ∧ trace.filter Work.atConnection = calls

theorem run_append {fuel fuel' : Nat} {work work' trace trace' : List (Work μ)}
    (one : p.run fuel work = some trace) (two : p.run fuel' work' = some trace') :
    p.run (fuel + fuel') (work ++ work') = some (trace ++ trace') := by
  induction fuel generalizing work trace with
  | zero =>
      cases work with
      | nil =>
          cases one
          rw [Nat.zero_add]
          exact two
      | cons first rest => cases one
  | succ fuel ih =>
      cases work with
      | nil =>
          cases one
          exact run_mono (Nat.le_add_left fuel' (fuel + 1)) two
      | cons first rest =>
          obtain ⟨inner, performed, mapped⟩ := Option.bind_eq_some_iff.mp one
          obtain ⟨behind, ran, rfl⟩ := Option.map_eq_some_iff.mp mapped
          have both := ih ran
          rw [List.append_assoc] at both
          rw [Nat.succ_add, List.cons_append, Pipeline.run, performed, Option.bind_some, both]
          rfl

theorem means_nil : p.Means [] [] := ⟨[], delivers_nil, rfl⟩

theorem Means.append {work work' calls calls' : List (Work μ)} (one : p.Means work calls)
    (two : p.Means work' calls') : p.Means (work ++ work') (calls ++ calls') := by
  obtain ⟨trace, ⟨fuel, run⟩, filtered⟩ := one
  obtain ⟨trace', ⟨fuel', run'⟩, filtered'⟩ := two
  refine ⟨trace ++ trace', ⟨fuel + fuel', run_append run run'⟩, ?_⟩
  rw [List.filter_append, filtered, filtered']

theorem means_flatMap {α : Type} {xs : List α} {work calls : α → List (Work μ)}
    (each : ∀ x ∈ xs, p.Means (work x) (calls x)) :
    p.Means (xs.flatMap work) (xs.flatMap calls) := by
  induction xs with
  | nil => exact means_nil
  | cons x rest ih =>
      rw [List.flatMap_cons, List.flatMap_cons]
      exact (each x List.mem_cons_self).append
        (ih fun other member => each other (List.mem_cons_of_mem x member))

/-- A context leaves its calls to those that it calls in turn. -/
theorem Means.context {address : Nat} {call : Call μ} {inner calls : List (Work μ)}
    (performed : p.perform (.context address call) = some inner) (means : p.Means inner calls) :
    p.Means [.context address call] calls := by
  obtain ⟨trace, delivers, filtered⟩ := means
  exact ⟨_, Delivers.single performed delivers, filtered⟩

theorem means_reaches (call : Call μ) : p.Means call.reaches call.reaches := by
  cases call with
  | connect => exact means_nil
  | read msg => exact means_nil
  | write msg => exact ⟨[.write msg], Delivers.single rfl delivers_nil, rfl⟩
  | close => exact ⟨[.close], Delivers.single rfl delivers_nil, rfl⟩
  | notifyClosed => exact means_nil

/-! ## The contexts of the handlers -/

/-- The context at an address holds a handler. -/
def Holds (p : Pipeline μ) (address : Nat) (handler : AbstractHandler μ) : Prop :=
  ∃ ctx, p.contexts[address]? = some ctx ∧ ctx.kind = .context ∧ ctx.handler = some handler

/-- What a request at an address calls. -/
def asks (p : Pipeline μ) (address : Nat) : Request μ → List (Work μ)
  | .fire event =>
      Context.fireAt (if event.inward then p.next address else p.prev address) event
  | .call event => [.context address event]

theorem Holds.perform {address : Nat} {handler : AbstractHandler μ}
    (holds : p.Holds address handler) (call : Call μ) :
    p.perform (.context address call) = some ((handler.answers call).flatMap (p.asks address)) := by
  obtain ⟨ctx, here, kind, held⟩ := holds
  have requests : ctx.request address = p.asks address := by
    funext request
    cases request with
    | call event => rfl
    | fire event =>
        cases event <;> simp [Context.request, asks, Call.inward, Context.fire, Pipeline.next,
          Pipeline.prev, here, Context.fireConnect, Context.fireRead, Context.fireWrite,
          Context.fireClose, Context.fireClosed]
  rw [perform_at here, ← requests]
  cases call <;> simp [Context.call, Context.connect, Context.read, Context.write, Context.close,
    Context.notifyClosed, kind, Context.handled, held, AbstractHandler.answers]

/-- Contexts that hold layered handlers, in front of a context or behind it. -/
def HoldAll (p : Pipeline μ) (contexts : List (Nat × AbstractHandler μ)) : Prop :=
  ∀ x ∈ contexts, p.Holds x.1 x.2 ∧ x.2.Layered

theorem HoldAll.cons {first : Nat × AbstractHandler μ} {rest : List (Nat × AbstractHandler μ)}
    (all : p.HoldAll (first :: rest)) :
    p.Holds first.1 first.2 ∧ first.2.Layered ∧ p.HoldAll rest :=
  ⟨(all first List.mem_cons_self).1, (all first List.mem_cons_self).2,
    fun x member => all x (List.mem_cons_of_mem first member)⟩

/-- The addresses, as they stand in the links. -/
def addresses (contexts : List (Nat × AbstractHandler μ)) : List (Option Nat) :=
  contexts.map fun x => some x.1

theorem addresses_cons (first : Nat × AbstractHandler μ)
    (rest : List (Nat × AbstractHandler μ)) :
    addresses (first :: rest) = some first.1 :: addresses rest := rfl

theorem addresses_headD (contexts : List (Nat × AbstractHandler μ)) (last : Nat) :
    (addresses contexts).headD (some last) =
      some ((contexts.head?.map Prod.fst).getD last) := by
  cases contexts with
  | nil => rfl
  | cons first rest => rfl

/-- What the head and the tail do with an event that has come to its end. -/
structure Ends (p : Pipeline μ) : Prop where
  head : ∀ call : Call μ, call.inward = false → p.perform (.context 0 call) = some call.reaches
  tail : ∀ call : Call μ, call.inward = true → p.perform (.context 1 call) = some []

theorem outward_means (ends : p.Ends) {before : List (Nat × AbstractHandler μ)}
    {last : Option Nat} (strand : Strand p.links (some 0) (addresses before).reverse last)
    (all : p.HoldAll before) {call : Call μ} (outwards : call.inward = false) :
    p.Means [.context ((before.head?.map Prod.fst).getD 0) call]
      (outward (before.map Prod.snd) call) := by
  induction before generalizing last call with
  | nil => exact Means.context (ends.head call outwards) (means_reaches call)
  | cons first rest ih =>
      obtain ⟨holds, layered, all⟩ := all.cons
      rw [addresses_cons, List.reverse_cons] at strand
      obtain ⟨front, _⟩ := strand_append.mp strand
      have back : p.prev first.1 = some ((rest.head?.map Prod.fst).getD 0) := by
        have turned := front.reverse.next_first
        rw [List.reverse_reverse] at turned
        exact turned.trans (addresses_headD rest 0)
      refine Means.context (holds.perform call) (means_flatMap fun request member => ?_)
      obtain ⟨event, rfl, outwards⟩ := layered.outward call outwards request member
      have work : p.asks first.1 (.fire event) =
          [.context ((rest.head?.map Prod.fst).getD 0) event] := by
        rw [asks, outwards, if_neg Bool.false_ne_true, back]
        rfl
      rw [work]
      exact ih front all outwards

theorem inward_means (ends : p.Ends) {before behind : List (Nat × AbstractHandler μ)}
    (strand : Strand p.links (some 0) ((addresses before).reverse ++ addresses behind) (some 1))
    (all : p.HoldAll before) (others : p.HoldAll behind) {call : Call μ}
    (inwards : call.inward = true) :
    p.Means [.context ((behind.head?.map Prod.fst).getD 1) call]
      (inward (before.map Prod.snd) (behind.map Prod.snd) call) := by
  induction behind generalizing before call with
  | nil => exact Means.context (ends.tail call inwards) means_nil
  | cons first rest ih =>
      obtain ⟨holds, layered, others⟩ := others.cons
      obtain ⟨front, remaining⟩ := strand_append.mp strand
      have forth : p.next first.1 = some ((rest.head?.map Prod.fst).getD 1) :=
        remaining.next_first.trans (addresses_headD rest 1)
      have back : p.prev first.1 = some ((before.head?.map Prod.fst).getD 0) := by
        have turned := front.reverse.next_first
        rw [List.reverse_reverse] at turned
        exact turned.trans (addresses_headD before 0)
      have through : p.HoldAll (first :: before) := by
        intro x member
        rcases List.mem_cons.mp member with rfl | member
        · exact ⟨holds, layered⟩
        · exact all x member
      have along : Strand p.links (some 0)
          ((addresses (first :: before)).reverse ++ addresses rest) (some 1) := by
        rw [addresses_cons, List.reverse_cons, List.append_assoc]
        exact strand
      refine Means.context (holds.perform call) (means_flatMap fun request member => ?_)
      rcases layered.inward call inwards request member with
        ⟨event, rfl⟩ | ⟨event, rfl, outwards⟩
      · cases direction : event.inward with
        | true =>
            have work : p.asks first.1 (.fire event) =
                [.context ((rest.head?.map Prod.fst).getD 1) event] := by
              rw [asks, direction, if_pos rfl, forth]
              rfl
            rw [work]
            simp only [direction, if_true]
            exact ih along through others direction
        | false =>
            have work : p.asks first.1 (.fire event) =
                [.context ((before.head?.map Prod.fst).getD 0) event] := by
              rw [asks, direction, if_neg Bool.false_ne_true, back]
              rfl
            rw [work]
            simp only [direction, Bool.false_eq_true, if_false]
            exact outward_means ends front all direction
      · -- the context itself is the nearest one on the way out
        exact outward_means ends along.front through outwards

/-! ## The chain -/

theorem Chained.ends {handlers : List (String × Option (AbstractHandler μ))}
    (chained : p.Chained handlers) : p.Ends := by
  obtain ⟨head, atHead, headKind⟩ := chained.headContext
  obtain ⟨tail, atTail, tailKind⟩ := chained.tailContext
  refine ⟨fun call outwards => ?_, fun call inwards => ?_⟩
  · rw [perform_at atHead, Context.call_head_outward headKind outwards]
  · rw [perform_at atTail, Context.call_tail_inward tailKind inwards]

/-- The handlers at the addresses of their contexts. -/
def placed (handlers : List (AbstractHandler μ)) : List (Nat × AbstractHandler μ) :=
  (nodes handlers.length).zip handlers

theorem nodes_length (n : Nat) : (nodes n).length = n := List.length_range'

theorem placed_snd (handlers : List (AbstractHandler μ)) :
    (placed handlers).map Prod.snd = handlers :=
  List.map_snd_zip (Nat.le_of_eq (nodes_length handlers.length).symm)

theorem placed_addresses (handlers : List (AbstractHandler μ)) :
    addresses (placed handlers) = (nodes handlers.length).map some := by
  have firsts : (placed handlers).map Prod.fst = nodes handlers.length :=
    List.map_fst_zip (Nat.le_of_eq (nodes_length handlers.length))
  rw [← firsts, List.map_map]
  rfl

theorem placed_getElem? {handlers : List (AbstractHandler μ)} {i : Nat}
    (inside : i < handlers.length) :
    (placed handlers)[i]? = some (i + 2, handlers[i]) := by
  rw [placed, List.getElem?_zip_eq_some]
  refine ⟨?_, List.getElem?_eq_getElem inside⟩
  rw [nodes, List.getElem?_range' inside, Nat.one_mul, Nat.add_comm]

/-- A pipeline and the composition of its handlers: what starts at the head, and
what a handler starts from its context. -/
structure Composes (p : Pipeline μ) (handlers : List (AbstractHandler μ)) : Prop where
  fromHead : ∀ call, call.inward = true →
    p.Means [.context p.head call] (inward [] handlers call)
  fromContext : ∀ i ctx call, i < handlers.length → p.contexts[i + 2]? = some ctx →
    p.Means (ctx.fire call)
      (if call.inward then
        inward (handlers.take (i + 1)).reverse (handlers.drop (i + 1)) call
      else outward (handlers.take i).reverse call)

/-- The handlers under their names, as they are added. -/
def named (handlers : List (String × AbstractHandler μ)) :
    List (String × Option (AbstractHandler μ)) :=
  handlers.map fun added => (added.1, some added.2)

section Named

variable {handlers : List (String × AbstractHandler μ)}

theorem Chained.holdAll (chained : p.Chained (named handlers))
    (layered : ∀ added ∈ handlers, added.2.Layered) :
    p.HoldAll (placed (handlers.map Prod.snd)) := by
  intro x member
  obtain ⟨i, inside, there⟩ := List.mem_iff_getElem.mp member
  have size : i < (handlers.map Prod.snd).length := by
    rw [placed, List.length_zip, nodes_length, Nat.min_self] at inside
    exact inside
  have same := (List.getElem?_eq_getElem inside).symm.trans (placed_getElem? size)
  rw [there, Option.some.injEq] at same
  subst same
  rw [List.length_map] at size
  have added : (named handlers)[i]? = some (handlers[i].1, some handlers[i].2) := by
    rw [named, List.getElem?_map, List.getElem?_eq_getElem size]
    rfl
  obtain ⟨ctx, here, kind, -, held⟩ := chained.handlerContext added
  refine ⟨⟨ctx, here, kind, ?_⟩, ?_⟩
  · rw [held, List.getElem_map]
  · rw [List.getElem_map]
    exact layered _ (List.getElem_mem size)

theorem Chained.strand_at (chained : p.Chained (named handlers)) (i : Nat) :
    Strand p.links (some 0)
      ((addresses ((placed (handlers.map Prod.snd)).take i).reverse).reverse ++
        addresses ((placed (handlers.map Prod.snd)).drop i)) (some 1) := by
  have whole := chained.strand
  have size : (named handlers).length = (handlers.map Prod.snd).length := by
    rw [named, List.length_map, List.length_map]
  rw [size, ← placed_addresses] at whole
  rw [addresses, ← List.map_reverse, List.reverse_reverse, addresses, ← List.map_append,
    List.take_append_drop]
  exact whole

theorem HoldAll.sub {contexts part : List (Nat × AbstractHandler μ)} (all : p.HoldAll contexts)
    (sub : ∀ x ∈ part, x ∈ contexts) : p.HoldAll part :=
  fun x member => all x (sub x member)

theorem Chained.composes (chained : p.Chained (named handlers))
    (layered : ∀ added ∈ handlers, added.2.Layered) :
    p.Composes (handlers.map Prod.snd) := by
  have all := chained.holdAll layered
  have into : ∀ i call, call.inward = true →
      p.Means [.context ((((placed (handlers.map Prod.snd)).drop i).head?.map Prod.fst).getD 1)
          call]
        (inward ((handlers.map Prod.snd).take i).reverse ((handlers.map Prod.snd).drop i)
          call) := by
    intro i call inwards
    have means := inward_means chained.ends (chained.strand_at i)
      (all.sub fun x member => List.mem_of_mem_take (List.mem_reverse.mp member))
      (all.sub fun x member => List.mem_of_mem_drop member) inwards
    rw [List.map_reverse, List.map_take, List.map_drop, placed_snd] at means
    exact means
  refine ⟨fun call inwards => ?_, fun i ctx call inside here => ?_⟩
  · obtain ⟨head, atHead, kind⟩ := chained.headContext
    have forth : head.next =
        some ((((placed (handlers.map Prod.snd)).drop 0).head?.map Prod.fst).getD 1) := by
      have strand := chained.strand_at 0
      exact (links_at atHead).1.symm.trans (strand.next_first.trans (addresses_headD _ 1))
    rw [chained.head]
    refine Means.context ?_ (into 0 call inwards)
    rw [perform_at atHead, Context.call_head_inward kind inwards, Context.fire_inward inwards,
      forth]
    rfl
  · obtain ⟨within, there⟩ := List.getElem?_eq_some_iff.mp (placed_getElem? inside)
    have strand := chained.strand_at i
    rw [List.drop_eq_getElem_cons within, there, addresses_cons] at strand
    obtain ⟨front, remaining⟩ := strand_append.mp strand
    cases direction : call.inward with
    | true =>
        have forth := remaining.next_first.trans (addresses_headD _ 1)
        rw [Context.fire_inward direction, ← (links_at here).1, forth, if_pos rfl]
        exact into (i + 1) call direction
    | false =>
        have back := front.reverse.next_first
        rw [List.reverse_reverse] at back
        have means := outward_means chained.ends front
          (all.sub fun x member => List.mem_of_mem_take (List.mem_reverse.mp member)) direction
        rw [List.map_reverse, List.map_take, placed_snd] at means
        have linked : ctx.prev = some
            ((((placed (handlers.map Prod.snd)).take i).reverse.head?.map Prod.fst).getD 0) :=
          (links_at here).2.symm.trans (back.trans (addresses_headD _ 0))
        rw [Context.fire_outward direction, linked, if_neg Bool.false_ne_true]
        exact means

/-- The linked contexts of handlers that answer in layers do what the composition of
the handlers says. Every event comes to its end. -/
theorem addHandlers_composes (handlers : List (String × AbstractHandler μ))
    (layered : ∀ added ∈ handlers, added.2.Layered) :
    ∃ p, create.addHandlers (named handlers) = some p ∧ p.Composes (handlers.map Prod.snd) := by
  obtain ⟨p, added, chained⟩ := addHandlers_chained create_chained (named handlers)
  exact ⟨p, added, Chained.composes chained layered⟩

/-- A handler that writes the length of a message in front of it. -/
def lengthPrefix : AbstractHandler (List Nat) :=
  .coder (fun msg => [.fire (.read msg)]) fun msg => [.fire (.write (msg.length :: msg))]

/-- A handler that answers every message with itself, and then closes. -/
def answerOnce : AbstractHandler (List Nat) :=
  .coder (fun msg => [.fire (.write msg), .fire .close]) fun msg => [.fire (.write msg)]

theorem lengthPrefix_layered : lengthPrefix.Layered :=
  AbstractHandler.coder_layered (fun _ _ member => .inl ⟨_, List.mem_singleton.mp member⟩)
    fun _ _ member => ⟨_, List.mem_singleton.mp member, rfl⟩

theorem answerOnce_layered : answerOnce.Layered := by
  refine AbstractHandler.coder_layered (fun msg request member => ?_)
    fun _ _ member => ⟨_, List.mem_singleton.mp member, rfl⟩
  rcases List.mem_cons.mp member with same | member
  · exact .inl ⟨_, same⟩
  · exact .inl ⟨_, List.mem_singleton.mp member⟩

theorem addHandlers_composes_answer :
    ∃ p, create.addHandlers (named [("length", lengthPrefix), ("answer", answerOnce)]) =
        some p ∧
      p.Composes [lengthPrefix, answerOnce] :=
  addHandlers_composes [("length", lengthPrefix), ("answer", answerOnce)] (by
    intro added member
    rcases List.mem_cons.mp member with rfl | member
    · exact lengthPrefix_layered
    · cases List.mem_singleton.mp member
      exact answerOnce_layered)

example : inward [] [lengthPrefix, answerOnce] (.read [7, 9]) = [.write [2, 7, 9], .close] := by
  decide

end Named

end Pipeline

end FysobEngine.Handler
