import FysobEngine.Foundation.LinkRings
import FysobEngine.Handler.Pipeline
import Mathlib.Data.Option.Basic

/-!
# The order of the handlers

The contexts of a pipeline form a strand from the head to the tail, in the order in
which the handlers were added. Handlers that forward every event pass it along the
strand, from the connection in that order and to the connection in the reverse one.
-/

namespace FysobEngine.Handler

open Foundation.LinkRings

variable {μ : Type}

/-- A context without its links. -/
def Context.unlinked (ctx : Context μ) : Context μ := { ctx with prev := none, next := none }

namespace Pipeline

variable {p p' : Pipeline μ} {address other : Nat}

/-- The links between the contexts. -/
def links (p : Pipeline μ) : Links (Option Nat) where
  next address := address.bind p.next
  prev address := address.bind p.prev

/-! ## Links and contexts -/

/-- One link of one context is set. -/
theorem modify_set {contexts : List (Context μ)} {change : Context μ → Context μ}
    {link : Context μ → Option Nat} {value : Option Nat} (inside : address < contexts.length)
    (set : ∀ ctx, link (change ctx) = value) :
    (contexts.modify address change)[other]?.bind link =
      if other = address then value else contexts[other]?.bind link := by
  rw [List.getElem?_modify]
  by_cases here : other = address
  · subst here
    rw [if_pos rfl, List.getElem?_eq_getElem inside]
    simp [set]
  · rw [if_neg here]
    simp [Ne.symm here]

/-- A change leaves a link of every context as it is. -/
theorem modify_keep {contexts : List (Context μ)} {change : Context μ → Context μ}
    {link : Context μ → Option Nat} (keep : ∀ ctx, link (change ctx) = link ctx) :
    (contexts.modify address change)[other]?.bind link = contexts[other]?.bind link := by
  rw [List.getElem?_modify]
  cases contexts[other]? with
  | none => rfl
  | some ctx =>
      by_cases here : address = other
      · simp [here, keep]
      · simp [here]

theorem setNext_next (inside : address < p.contexts.length) (next : Option Nat) :
    (p.setNext address next).next other = if other = address then next else p.next other :=
  modify_set inside fun _ => rfl

theorem setPrev_prev (inside : address < p.contexts.length) (prev : Option Nat) :
    (p.setPrev address prev).prev other = if other = address then prev else p.prev other :=
  modify_set inside fun _ => rfl

theorem setNext_prev (next : Option Nat) :
    (p.setNext address next).prev other = p.prev other :=
  modify_keep fun _ => rfl

theorem setPrev_next (prev : Option Nat) :
    (p.setPrev address prev).next other = p.next other :=
  modify_keep fun _ => rfl

/-- A link that may be null is updated at an address. -/
theorem bind_update {link link' : Nat → Option Nat} {value : Option Nat}
    (updated : ∀ other, link' other = if other = address then value else link other) :
    (fun a : Option Nat => a.bind link') =
      Function.update (fun a : Option Nat => a.bind link) (some address) value := by
  funext a
  cases a with
  | none => rfl
  | some other =>
      rw [Function.update_apply, Option.bind_some, Option.bind_some, updated other]
      simp only [Option.some.injEq]

theorem setNext_links (inside : address < p.contexts.length) (next : Option Nat) :
    (p.setNext address next).links = p.links.setNext (some address) next := by
  have back : (p.setNext address next).prev = p.prev := funext fun _ => setNext_prev next
  rw [links, links, Links.setNext, bind_update fun _ => setNext_next inside next, back]

theorem setPrev_links (inside : address < p.contexts.length) (prev : Option Nat) :
    (p.setPrev address prev).links = p.links.setPrev (some address) prev := by
  have forth : (p.setPrev address prev).next = p.next := funext fun _ => setPrev_next prev
  rw [links, links, Links.setPrev, bind_update fun _ => setPrev_prev inside prev, forth]

/-- A new context has no links yet. -/
theorem append_link (contexts : List (Context μ)) (new : Context μ)
    {link : Context μ → Option Nat} (null : link new = none) :
    (contexts ++ [new])[address]?.bind link = contexts[address]?.bind link := by
  rcases Nat.lt_trichotomy address contexts.length with inside | rfl | outside
  · rw [List.getElem?_append_left inside]
  · rw [List.getElem?_concat_length, List.getElem?_eq_none (Nat.le_refl _)]
    exact null
  · have beyond : (contexts ++ [new]).length ≤ address := by
      rw [List.length_append]
      exact outside
    rw [List.getElem?_eq_none beyond, List.getElem?_eq_none (Nat.le_of_lt outside)]

theorem append_links (p : Pipeline μ) (kind : ContextClass) (name : String)
    (handler : Option (AbstractHandler μ)) :
    { p with contexts := p.contexts ++ [Context.create kind name handler] }.links = p.links := by
  have forth : { p with contexts := p.contexts ++ [Context.create kind name handler] }.next =
      p.next := funext fun _ => append_link p.contexts _ rfl
  have back : { p with contexts := p.contexts ++ [Context.create kind name handler] }.prev =
      p.prev := funext fun _ => append_link p.contexts _ rfl
  rw [links, links, forth, back]

theorem modify_unlinked (contexts : List (Context μ)) (address : Nat)
    {change : Context μ → Context μ} (same : ∀ ctx, (change ctx).unlinked = ctx.unlinked) :
    (contexts.modify address change).map Context.unlinked = contexts.map Context.unlinked := by
  refine List.ext_getElem? fun other => ?_
  rw [List.getElem?_map, List.getElem?_map, List.getElem?_modify]
  cases contexts[other]? with
  | none => rfl
  | some ctx =>
      by_cases here : address = other
      · simp [here, same]
      · simp [here]

theorem setNext_unlinked (p : Pipeline μ) (address : Nat) (next : Option Nat) :
    (p.setNext address next).contexts.map Context.unlinked =
      p.contexts.map Context.unlinked :=
  modify_unlinked p.contexts address fun _ => rfl

theorem setPrev_unlinked (p : Pipeline μ) (address : Nat) (prev : Option Nat) :
    (p.setPrev address prev).contexts.map Context.unlinked =
      p.contexts.map Context.unlinked :=
  modify_unlinked p.contexts address fun _ => rfl

/-! ## Adding handlers -/

/-- A handler is linked in front of the tail. -/
structure Added (p : Pipeline μ) (name : String) (handler : Option (AbstractHandler μ))
    (p' : Pipeline μ) : Prop where
  head : p'.head = p.head
  tail : p'.tail = p.tail
  links : p'.links = p.links.linkBefore (some p.tail) (some p.contexts.length)
  contexts : p'.contexts.map Context.unlinked =
    p.contexts.map Context.unlinked ++ [Context.create .context name handler]

theorem addHandler_added {before : Nat} (linked : p.prev p.tail = some before)
    (inside : before < p.contexts.length) (tail : p.tail < p.contexts.length)
    (name : String) (handler : Option (AbstractHandler μ)) :
    ∃ p', p.addHandler name handler = some p' ∧ p.Added name handler p' := by
  let new := p.contexts.length
  let q : Pipeline μ :=
    { p with contexts := p.contexts ++ [Context.create .context name handler] }
  have size : q.contexts.length = new + 1 := List.length_append
  have links : q.links = p.links := append_links p .context name handler
  have back : q.prev p.tail = some before :=
    (congrFun (congrArg Links.prev links) (some p.tail)).trans linked
  let first := q.setNext before (some new)
  let second := first.setPrev new (first.prev p.tail)
  let third := second.setNext new (some p.tail)
  have sizes : first.contexts.length = new + 1 ∧ second.contexts.length = new + 1 ∧
      third.contexts.length = new + 1 := by
    simp [first, second, third, setNext, setPrev, size]
  refine ⟨third.setPrev p.tail (some new), ?_, rfl, rfl, ?_, ?_⟩
  · unfold addHandler
    dsimp only
    split
    · next null => cases back.symm.trans null
    · next found there =>
        cases back.symm.trans there
        rfl
  · have again : first.prev p.tail = some before := (setNext_prev _).trans back
    have there : p.links.prev (some p.tail) = some before := linked
    have ne : some new ≠ some p.tail := by
      rw [ne_eq, Option.some.injEq]
      exact Nat.ne_of_gt tail
    -- The library sets the four links in another order, but no link twice.
    rw [setPrev_links (by omega), setNext_links (by omega), setPrev_links (by omega),
      setNext_links (by omega), links, again, Links.linkBefore_eq ne, there]
    rfl
  · rw [setPrev_unlinked, setNext_unlinked, setPrev_unlinked, setNext_unlinked]
    exact List.map_append

/-- The contexts of `n` handlers. -/
def nodes (n : Nat) : List Nat := List.range' 2 n

theorem mem_nodes {n address : Nat} : address ∈ nodes n ↔ 2 ≤ address ∧ address < n + 2 := by
  rw [nodes, List.mem_range'_1, Nat.add_comm]

theorem nodes_succ (n : Nat) : nodes (n + 1) = nodes n ++ [n + 2] := by
  rw [nodes, List.range'_1_concat, Nat.add_comm 2 n]
  rfl

theorem nodes_split {i n : Nat} (inside : i < n) :
    ∃ rest, nodes n = nodes i ++ (i + 2) :: rest := by
  obtain ⟨more, rfl⟩ := Nat.exists_eq_add_of_lt inside
  refine ⟨List.range' (i + 3) more, ?_⟩
  have tail : List.range' (2 + 1 * i) (more + 1) = (i + 2) :: List.range' (i + 3) more := by
    rw [Nat.one_mul, Nat.add_comm 2 i, List.range'_succ]
  rw [nodes, nodes, ← tail, List.range'_append, Nat.add_assoc]

/-- The contexts lead from the head over those of the handlers to the tail. -/
structure Chained (p : Pipeline μ) (handlers : List (String × Option (AbstractHandler μ))) :
    Prop where
  head : p.head = 0
  tail : p.tail = 1
  contexts : p.contexts.map Context.unlinked =
    Context.create .headContext "head" none :: Context.create .tailContext "tail" none ::
      handlers.map fun added => Context.create .context added.1 added.2
  strand : Strand p.links (some 0) ((nodes handlers.length).map some) (some 1)
  start : p.prev 0 = none
  stop : p.next 1 = none

theorem create_chained : (create : Pipeline μ).Chained [] where
  head := rfl
  tail := rfl
  contexts := rfl
  strand := ⟨rfl, rfl⟩
  start := rfl
  stop := rfl

variable {handlers : List (String × Option (AbstractHandler μ))}

theorem Chained.length (chained : p.Chained handlers) :
    p.contexts.length = handlers.length + 2 := by
  have same := congrArg List.length chained.contexts
  simpa using same

theorem some_nodes_nodup (n : Nat) : (some 0 :: (nodes n).map some).Nodup := by
  have inner : (0 :: nodes n).Nodup := by
    rw [List.nodup_cons, mem_nodes]
    exact ⟨by omega, List.nodup_range'⟩
  exact inner.map (Option.some_injective Nat)

theorem some_mem_nodes {n address : Nat} :
    some address ∈ (nodes n).map some ↔ 2 ≤ address ∧ address < n + 2 := by
  rw [← mem_nodes]
  simp

theorem Added.chained {name : String} {handler : Option (AbstractHandler μ)}
    (added : p.Added name handler p') (chained : p.Chained handlers) :
    p'.Chained (handlers ++ [(name, handler)]) := by
  have links := added.links
  rw [chained.tail, chained.length] at links
  have new : some (handlers.length + 2) ≠ some 1 := by simp
  refine ⟨added.head.trans chained.head, added.tail.trans chained.tail, ?_, ?_, ?_, ?_⟩
  · rw [added.contexts, chained.contexts, List.map_append]
    rfl
  · rw [links, List.length_append, List.length_singleton, nodes_succ, List.map_append]
    refine chained.strand.linkBefore (some_nodes_nodup _) ?_ ?_ new
    · rw [some_mem_nodes]
      omega
    · rw [List.mem_cons, some_mem_nodes]
      simp
  · have kept : p'.links.prev (some 0) = p.links.prev (some 0) := by
      rw [links]
      exact Links.linkBefore_prev_of_ne new (by simp) (by simp)
    exact kept.trans chained.start
  · have kept : p'.links.next (some 1) = p.links.next (some 1) := by
      rw [links]
      refine Links.linkBefore_next_of_ne new (by simp) fun same => ?_
      have member := chained.strand.prev_last
      rw [← same, List.mem_cons, some_mem_nodes] at member
      simp at member
    exact kept.trans chained.stop

theorem addHandler_chained (chained : p.Chained handlers) (name : String)
    (handler : Option (AbstractHandler μ)) :
    ∃ p', p.addHandler name handler = some p' ∧ p'.Chained (handlers ++ [(name, handler)]) := by
  have size := chained.length
  have inside : ∃ before, p.links.prev (some 1) = some before ∧ before < p.contexts.length := by
    have member := chained.strand.prev_last
    rw [List.mem_cons, List.mem_map] at member
    rcases member with linked | ⟨before, among, linked⟩
    · exact ⟨0, linked, by omega⟩
    · rw [mem_nodes] at among
      exact ⟨before, linked.symm, by omega⟩
  obtain ⟨before, linked, inside⟩ := inside
  have linked : p.prev p.tail = some before := by
    rw [chained.tail]
    exact linked
  have tail : p.tail < p.contexts.length := by
    rw [chained.tail]
    omega
  obtain ⟨p', done, added⟩ := addHandler_added linked inside tail name handler
  exact ⟨p', done, added.chained chained⟩

theorem addHandlers_chained (chained : p.Chained handlers)
    (more : List (String × Option (AbstractHandler μ))) :
    ∃ p', p.addHandlers more = some p' ∧ p'.Chained (handlers ++ more) := by
  induction more generalizing p handlers with
  | nil =>
      rw [List.append_nil]
      exact ⟨p, rfl, chained⟩
  | cons added rest ih =>
      obtain ⟨middle, first, chained⟩ := addHandler_chained chained added.1 added.2
      obtain ⟨p', behind, chained⟩ := ih chained
      rw [List.append_assoc] at chained
      refine ⟨p', ?_, chained⟩
      rw [addHandlers, first]
      exact behind

/-! ## What an event calls -/

/-- The calls that some work leads to, when it comes to an end. -/
def Delivers (p : Pipeline μ) (work trace : List (Work μ)) : Prop :=
  ∃ fuel, p.run fuel work = some trace

theorem run_succ {fuel : Nat} {work trace : List (Work μ)} (run : p.run fuel work = some trace) :
    p.run (fuel + 1) work = some trace := by
  induction fuel generalizing work trace with
  | zero =>
      cases work with
      | nil => exact run
      | cons first rest => cases run
  | succ fuel ih =>
      cases work with
      | nil => exact run
      | cons first rest =>
          obtain ⟨inner, performed, mapped⟩ := Option.bind_eq_some_iff.mp run
          obtain ⟨behind, ran, rfl⟩ := Option.map_eq_some_iff.mp mapped
          rw [Pipeline.run, performed, Option.bind_some, ih ran]
          rfl

theorem run_mono {fuel enough : Nat} (le : fuel ≤ enough) {work trace : List (Work μ)}
    (run : p.run fuel work = some trace) : p.run enough work = some trace := by
  induction le with
  | refl => exact run
  | step _ ih => exact run_succ ih

theorem delivers_nil : p.Delivers [] [] := ⟨0, rfl⟩

theorem Delivers.cons {first : Work μ} {inner rest trace : List (Work μ)}
    (performed : p.perform first = some inner) (behind : p.Delivers (inner ++ rest) trace) :
    p.Delivers (first :: rest) (first :: trace) := by
  obtain ⟨fuel, run⟩ := behind
  refine ⟨fuel + 1, ?_⟩
  rw [Pipeline.run, performed, Option.bind_some, run]
  rfl

theorem Delivers.single {work : Work μ} {inner trace : List (Work μ)}
    (performed : p.perform work = some inner) (behind : p.Delivers inner trace) :
    p.Delivers [work] (work :: trace) := by
  refine Delivers.cons performed ?_
  rw [List.append_nil]
  exact behind

/-- An event goes along a strand of contexts that pass it on. -/
theorem delivers_strand {call : Call μ} {l : Links (Option Nat)} {first : Option Nat}
    {xs : List Nat} {last : Nat} {inner trace : List (Work μ)}
    (strand : Strand l first (xs.map some) (some last))
    (passes : ∀ address ∈ xs, p.perform (.context address call) =
      some (Context.fireAt (l.next (some address)) call))
    (ends : p.perform (.context last call) = some inner) (behind : p.Delivers inner trace) :
    p.Delivers (Context.fireAt (l.next first) call)
      ((xs ++ [last]).map (fun address => .context address call) ++ trace) := by
  induction xs generalizing first with
  | nil =>
      rw [strand.1]
      exact Delivers.single ends behind
  | cons address rest ih =>
      rw [strand.1]
      refine Delivers.single (passes address List.mem_cons_self) ?_
      exact ih strand.2.2 fun later member => passes later (List.mem_cons_of_mem address member)

end Pipeline

/-- A handler that passes every event on, and does no more with its context. -/
structure AbstractHandler.Forwards (handler : AbstractHandler μ) : Prop where
  connect : handler.connect = [.fire .connect]
  decode : ∀ msg, handler.decode msg = [.fire (.read msg)]
  encode : ∀ msg, handler.encode msg = [.fire (.write msg)]
  close : handler.close = [.fire .close]
  notifyClosed : handler.notifyClosed = [.fire .notifyClosed]

theorem AbstractHandler.base_forwards : (base : AbstractHandler μ).Forwards where
  connect := rfl
  decode _ := rfl
  encode _ := rfl
  close := rfl
  notifyClosed := rfl

/-- Whether an event comes from the connection. -/
def Call.inward : Call μ → Bool
  | .connect => true
  | .read _ => true
  | .write _ => false
  | .close => false
  | .notifyClosed => true

/-- What the head makes of an event that goes to the connection. -/
def Call.reaches : Call μ → List (Work μ)
  | .connect => []
  | .read _ => []
  | .write msg => [.write msg]
  | .close => [.close]
  | .notifyClosed => []

namespace Context

variable {ctx : Context μ} {call : Call μ}

theorem fire_inward (inward : call.inward = true) : ctx.fire call = fireAt ctx.next call := by
  cases call with
  | connect => rfl
  | read msg => rfl
  | write msg => cases inward
  | close => cases inward
  | notifyClosed => rfl

theorem fire_outward (outward : call.inward = false) : ctx.fire call = fireAt ctx.prev call := by
  cases call with
  | connect => cases outward
  | read msg => cases outward
  | write msg => rfl
  | close => rfl
  | notifyClosed => cases outward

theorem call_forwards (kind : ctx.kind = .context) {handler : AbstractHandler μ}
    (held : ctx.handler = some handler) (forwards : handler.Forwards) (address : Nat) :
    ctx.call address call = some (ctx.fire call) := by
  cases call with
  | connect => simp [Context.call, connect, kind, handled, held, forwards.connect, request]
  | read msg => simp [Context.call, read, kind, handled, held, forwards.decode, request]
  | write msg => simp [Context.call, write, kind, handled, held, forwards.encode, request]
  | close => simp [Context.call, close, kind, handled, held, forwards.close, request]
  | notifyClosed =>
      simp [Context.call, notifyClosed, kind, handled, held, forwards.notifyClosed, request]

theorem call_head_inward (kind : ctx.kind = .headContext) (inward : call.inward = true)
    (address : Nat) : ctx.call address call = some (ctx.fire call) := by
  cases call with
  | connect => simp [Context.call, connect, kind, fire]
  | read msg => simp [Context.call, read, kind, fire]
  | write msg => cases inward
  | close => cases inward
  | notifyClosed => simp [Context.call, notifyClosed, kind, fire]

theorem call_head_outward (kind : ctx.kind = .headContext) (outward : call.inward = false)
    (address : Nat) : ctx.call address call = some call.reaches := by
  cases call with
  | connect => cases outward
  | read msg => cases outward
  | write msg => simp [Context.call, write, kind, Call.reaches]
  | close => simp [Context.call, close, kind, Call.reaches]
  | notifyClosed => cases outward

theorem call_tail_inward (kind : ctx.kind = .tailContext) (inward : call.inward = true)
    (address : Nat) : ctx.call address call = some [] := by
  cases call with
  | connect => simp [Context.call, connect, kind]
  | read msg => simp [Context.call, read, kind]
  | write msg => cases inward
  | close => cases inward
  | notifyClosed => simp [Context.call, notifyClosed, kind]

end Context

namespace Pipeline

variable {p : Pipeline μ} {handlers : List (String × Option (AbstractHandler μ))}

theorem context_of_unlinked (address : Nat) {plain : Context μ}
    (here : (p.contexts.map Context.unlinked)[address]? = some plain) :
    ∃ ctx, p.contexts[address]? = some ctx ∧ ctx.unlinked = plain := by
  rw [List.getElem?_map] at here
  exact Option.map_eq_some_iff.mp here

theorem links_at {address : Nat} {ctx : Context μ} (here : p.contexts[address]? = some ctx) :
    p.links.next (some address) = ctx.next ∧ p.links.prev (some address) = ctx.prev := by
  simp [links, Pipeline.next, Pipeline.prev, here]

theorem perform_at {address : Nat} {ctx : Context μ} (here : p.contexts[address]? = some ctx)
    (call : Call μ) : p.perform (.context address call) = ctx.call address call := by
  simp [perform, here]

namespace Chained

theorem headContext (chained : p.Chained handlers) :
    ∃ ctx, p.contexts[0]? = some ctx ∧ ctx.kind = .headContext := by
  have listed := congrArg (·[0]?) chained.contexts
  obtain ⟨ctx, here, same⟩ := context_of_unlinked 0 listed
  exact ⟨ctx, here, congrArg Context.kind same⟩

theorem tailContext (chained : p.Chained handlers) :
    ∃ ctx, p.contexts[1]? = some ctx ∧ ctx.kind = .tailContext := by
  have listed := congrArg (·[1]?) chained.contexts
  obtain ⟨ctx, here, same⟩ := context_of_unlinked 1 listed
  exact ⟨ctx, here, congrArg Context.kind same⟩

/-- The contexts behind the tail hold the handlers, in the order of the calls. -/
theorem handlerContext (chained : p.Chained handlers) {i : Nat}
    {added : String × Option (AbstractHandler μ)} (at_i : handlers[i]? = some added) :
    ∃ ctx, p.contexts[i + 2]? = some ctx ∧ ctx.kind = .context ∧ ctx.name = added.1 ∧
      ctx.handler = added.2 := by
  have listed : (p.contexts.map Context.unlinked)[i + 2]? =
      some (Context.create .context added.1 added.2) := by
    rw [chained.contexts, List.getElem?_cons_succ, List.getElem?_cons_succ,
      List.getElem?_map, at_i]
    rfl
  obtain ⟨ctx, here, same⟩ := context_of_unlinked (i + 2) listed
  exact ⟨ctx, here, congrArg Context.kind same, congrArg Context.name same,
    congrArg Context.handler same⟩

end Chained

/-- Every handler is there and passes every event on. -/
def AllForward (handlers : List (String × Option (AbstractHandler μ))) : Prop :=
  ∀ added ∈ handlers, ∃ handler, added.2 = some handler ∧ handler.Forwards

theorem Chained.perform_node (chained : p.Chained handlers) (all : AllForward handlers)
    {address : Nat} (member : address ∈ nodes handlers.length) (call : Call μ) :
    ∃ ctx, p.contexts[address]? = some ctx ∧
      p.perform (.context address call) = some (ctx.fire call) := by
  obtain ⟨low, high⟩ := mem_nodes.mp member
  obtain ⟨i, rfl⟩ := Nat.exists_eq_add_of_le' low
  have inside : i < handlers.length := by omega
  obtain ⟨ctx, here, kind, -, held⟩ :=
    chained.handlerContext (List.getElem?_eq_getElem inside)
  obtain ⟨handler, there, forwards⟩ := all handlers[i] (List.getElem_mem inside)
  refine ⟨ctx, here, ?_⟩
  rw [perform_at here]
  exact Context.call_forwards kind (held.trans there) forwards _

/-- An event from the connection goes from the head over every handler to the tail. -/
theorem Chained.delivers_inward (chained : p.Chained handlers) (call : Call μ)
    (all : AllForward handlers) (inward : call.inward = true) :
    p.Delivers [.context p.head call]
      ((p.head :: nodes handlers.length ++ [p.tail]).map fun address =>
        .context address call) := by
  obtain ⟨head, atHead, headKind⟩ := chained.headContext
  obtain ⟨tail, atTail, tailKind⟩ := chained.tailContext
  rw [chained.head, chained.tail]
  have started : p.perform (.context 0 call) =
      some (Context.fireAt (p.links.next (some 0)) call) := by
    rw [perform_at atHead, Context.call_head_inward headKind inward,
      Context.fire_inward inward, (links_at atHead).1]
  have stopped : p.perform (.context 1 call) = some [] := by
    rw [perform_at atTail, Context.call_tail_inward tailKind inward]
  refine Delivers.single started ?_
  have along := delivers_strand chained.strand (fun address member => ?_) stopped delivers_nil
  · rw [List.append_nil] at along
    exact along
  · obtain ⟨ctx, here, performed⟩ := chained.perform_node all member call
    rw [performed, Context.fire_inward inward, (links_at here).1]

/-- An event to the connection goes from a handler over those before it to the head. -/
theorem Chained.delivers_outward (chained : p.Chained handlers) (call : Call μ)
    (all : AllForward handlers) (outward : call.inward = false) {i : Nat}
    (inside : i < handlers.length) {ctx : Context μ} (here : p.contexts[i + 2]? = some ctx) :
    p.Delivers (ctx.fire call)
      (((p.head :: nodes i).reverse.map fun address => .context address call) ++
        call.reaches) := by
  obtain ⟨head, atHead, headKind⟩ := chained.headContext
  rw [chained.head, List.reverse_cons]
  have strand : Strand p.links (some 0) ((nodes i).map some) (some (i + 2)) := by
    obtain ⟨rest, split⟩ := nodes_split inside
    have whole := chained.strand
    rw [split, List.map_append, List.map_cons] at whole
    exact (strand_append.mp whole).1
  have back := strand.reverse
  rw [← List.map_reverse] at back
  rw [Context.fire_outward outward, ← (links_at here).2]
  have reached := Context.call_head_outward headKind outward 0
  rw [← perform_at atHead] at reached
  refine delivers_strand back (fun address member => ?_) reached ?_
  · have among : address ∈ nodes handlers.length := by
      have earlier := mem_nodes.mp (List.mem_reverse.mp member)
      exact mem_nodes.mpr (by omega)
    obtain ⟨ctx, here, performed⟩ := chained.perform_node all among call
    rw [performed, Context.fire_outward outward, ← (links_at here).2]
    rfl
  · cases call with
    | connect => cases outward
    | read msg => cases outward
    | write msg => exact Delivers.single rfl delivers_nil
    | close => exact Delivers.single rfl delivers_nil
    | notifyClosed => cases outward

/-- The contexts hold the handlers in the order in which they were added, and the links
lead over them and back. -/
structure InOrder (p : Pipeline μ) (handlers : List (String × Option (AbstractHandler μ))) :
    Prop where
  ends : ∃ head tail, p.contexts[p.head]? = some head ∧ head.kind = .headContext ∧
    p.contexts[p.tail]? = some tail ∧ tail.kind = .tailContext
  holds : ∀ i added, handlers[i]? = some added →
    ∃ ctx, p.contexts[i + 2]? = some ctx ∧ ctx.kind = .context ∧ ctx.name = added.1 ∧
      ctx.handler = added.2
  forth : ∀ steps, handlers.length + 2 ≤ steps →
    follow p.next steps p.head = p.head :: nodes handlers.length ++ [p.tail]
  back : ∀ steps, handlers.length + 2 ≤ steps →
    follow p.prev steps p.tail = (p.head :: nodes handlers.length ++ [p.tail]).reverse

/-- The calls of each event, for handlers that pass every event on. -/
structure PassesOn (p : Pipeline μ) (n : Nat) : Prop where
  connect : p.Delivers [p.fireConnect]
    ((p.head :: nodes n ++ [p.tail]).map fun address => .context address .connect)
  read : ∀ msg, p.Delivers [p.fireRead msg]
    ((p.head :: nodes n ++ [p.tail]).map fun address => .context address (.read msg))
  closed : p.Delivers [p.fireClosed]
    ((p.head :: nodes n ++ [p.tail]).map fun address => .context address .notifyClosed)
  write : ∀ i ctx msg, i < n → p.contexts[i + 2]? = some ctx →
    p.Delivers (ctx.fireWrite msg)
      (((p.head :: nodes i).reverse.map fun address => .context address (.write msg)) ++
        [.write msg])
  close : ∀ i ctx, i < n → p.contexts[i + 2]? = some ctx →
    p.Delivers ctx.fireClose
      (((p.head :: nodes i).reverse.map fun address => .context address .close) ++ [.close])

theorem Chained.inOrder (chained : p.Chained handlers) : p.InOrder handlers where
  ends := by
    obtain ⟨head, atHead, headKind⟩ := chained.headContext
    obtain ⟨tail, atTail, tailKind⟩ := chained.tailContext
    rw [chained.head, chained.tail]
    exact ⟨head, tail, atHead, headKind, atTail, tailKind⟩
  holds i added at_i := chained.handlerContext at_i
  forth steps enough := by
    rw [chained.head, chained.tail]
    refine chained.strand.follow_next chained.stop ?_
    rw [nodes, List.length_range']
    exact enough
  back steps enough := by
    have around : (0 :: nodes handlers.length ++ [1]).reverse =
        1 :: (nodes handlers.length).reverse ++ [0] := by simp
    rw [chained.head, chained.tail, around]
    have reversed := chained.strand.reverse
    rw [← List.map_reverse] at reversed
    refine reversed.follow_next chained.start ?_
    rw [List.length_reverse, nodes, List.length_range']
    exact enough

theorem Chained.passesOn (chained : p.Chained handlers) (all : AllForward handlers) :
    p.PassesOn handlers.length where
  connect := chained.delivers_inward .connect all rfl
  read msg := chained.delivers_inward (.read msg) all rfl
  closed := chained.delivers_inward .notifyClosed all rfl
  write _ _ msg inside here := chained.delivers_outward (.write msg) all rfl inside here
  close _ _ inside here := chained.delivers_outward .close all rfl inside here

theorem addHandlers_inOrder (handlers : List (String × Option (AbstractHandler μ))) :
    ∃ p, create.addHandlers handlers = some p ∧ p.InOrder handlers ∧
      (AllForward handlers → p.PassesOn handlers.length) := by
  obtain ⟨p, added, chained⟩ := addHandlers_chained create_chained handlers
  exact ⟨p, added, chained.inOrder, chained.passesOn⟩

/-- Handlers that leave all to their base class. -/
theorem addHandlers_inOrder_base : ∃ p : Pipeline μ,
    create.addHandlers [("decoder", some .base), ("echo", some .base)] = some p ∧
      p.InOrder [("decoder", some .base), ("echo", some .base)] ∧ p.PassesOn 2 := by
  obtain ⟨p, added, inOrder, passesOn⟩ :=
    addHandlers_inOrder (μ := μ) [("decoder", some .base), ("echo", some .base)]
  refine ⟨p, added, inOrder, passesOn fun handler member => ?_⟩
  simp only [List.mem_cons, List.not_mem_nil, or_false] at member
  rcases member with rfl | rfl
  · exact ⟨.base, rfl, AbstractHandler.base_forwards⟩
  · exact ⟨.base, rfl, AbstractHandler.base_forwards⟩

example : ((create.addHandlers [("decoder", some .base), ("echo", some .base)]).bind
    fun p => p.run 4 [p.fireRead 7]) =
      some ([0, 2, 3, 1].map fun address => .context address (.read 7)) := by
  decide

end Pipeline

end FysobEngine.Handler
