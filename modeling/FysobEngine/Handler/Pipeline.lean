import Mathlib.Data.List.Basic

/-!
# The pipeline

A pipeline is a doubly linked list of contexts, one for each handler, between a head
and a tail. Events from the connection go along the next links, requests to the
connection along the previous ones.
-/

namespace FysobEngine.Handler

variable {μ : Type}

/-- The virtual functions of a context. The same names stand for the events: `fire_read`
calls `read` on the next context. -/
inductive Call (μ : Type) where
  | connect
  | read (msg : μ)
  | write (msg : μ)
  | close
  | notifyClosed
  deriving DecidableEq, Repr

/-- What a handler does with the context that it is given. -/
inductive Request (μ : Type) where
  | fire (call : Call μ)
  | call (call : Call μ)
  deriving DecidableEq, Repr

/-- What the functions of a handler do with their context, in order. What a handler does
besides is its own affair. -/
structure AbstractHandler (μ : Type) where
  connect : List (Request μ)
  decode : μ → List (Request μ)
  encode : μ → List (Request μ)
  close : List (Request μ)
  notifyClosed : List (Request μ)

/-- The functions of `abstract_handler`, for a handler that overrides none. -/
def AbstractHandler.base : AbstractHandler μ where
  connect := [.fire .connect]
  decode msg := [.fire (.read msg)]
  encode msg := [.fire (.write msg)]
  close := [.fire .close]
  notifyClosed := [.fire .notifyClosed]

/-- What is called while an event is under way: a context, or the pipeline itself. -/
inductive Work (μ : Type) where
  | context (address : Nat) (call : Call μ)
  | write (msg : μ)
  | close
  deriving DecidableEq, Repr

/-! ## Contexts -/

inductive ContextClass where
  | context
  | headContext
  | tailContext
  deriving DecidableEq, Repr

/-- A context. Contexts are numbered in the order of `contexts_`. -/
structure Context (μ : Type) where
  kind : ContextClass
  prev : Option Nat
  next : Option Nat
  name : String
  handler : Option (AbstractHandler μ)

namespace Context

def create (kind : ContextClass) (name : String) (handler : Option (AbstractHandler μ)) :
    Context μ where
  kind := kind
  prev := none
  next := none
  name := name
  handler := handler

/-- `if (link) link->call();`. -/
def fireAt (link : Option Nat) (call : Call μ) : List (Work μ) :=
  link.toList.map fun address => .context address call

variable (ctx : Context μ)

def fireConnect : List (Work μ) := fireAt ctx.next .connect

def fireRead (msg : μ) : List (Work μ) := fireAt ctx.next (.read msg)

def fireWrite (msg : μ) : List (Work μ) := fireAt ctx.prev (.write msg)

def fireClose : List (Work μ) := fireAt ctx.prev .close

def fireClosed : List (Work μ) := fireAt ctx.next .notifyClosed

def fire : Call μ → List (Work μ)
  | .connect => ctx.fireConnect
  | .read msg => ctx.fireRead msg
  | .write msg => ctx.fireWrite msg
  | .close => ctx.fireClose
  | .notifyClosed => ctx.fireClosed

/-- A handler's requests, made on the context at an address. -/
def request (address : Nat) : Request μ → List (Work μ)
  | .fire call => ctx.fire call
  | .call call => [.context address call]

/-- `handler_->...`, which needs a handler. -/
def handled (address : Nat) (requests : AbstractHandler μ → List (Request μ)) :
    Option (List (Work μ)) :=
  ctx.handler.map fun handler => (requests handler).flatMap (ctx.request address)

variable (address : Nat)

def connect : Option (List (Work μ)) :=
  match ctx.kind with
  | .headContext => some ctx.fireConnect
  | .tailContext => some []
  | .context => ctx.handled address fun handler => handler.connect

def read (msg : μ) : Option (List (Work μ)) :=
  match ctx.kind with
  | .headContext => some (ctx.fireRead msg)
  | .tailContext => some []
  | .context => ctx.handled address fun handler => handler.decode msg

def write (msg : μ) : Option (List (Work μ)) :=
  match ctx.kind with
  | .headContext => some [.write msg]
  | .tailContext => some (ctx.fireWrite msg)
  | .context => ctx.handled address fun handler => handler.encode msg

def close : Option (List (Work μ)) :=
  match ctx.kind with
  | .headContext => some [.close]
  | .tailContext => some ctx.fireClose
  | .context => ctx.handled address fun handler => handler.close

def notifyClosed : Option (List (Work μ)) :=
  match ctx.kind with
  | .headContext => some ctx.fireClosed
  | .tailContext => some []
  | .context => ctx.handled address fun handler => handler.notifyClosed

def call : Call μ → Option (List (Work μ))
  | .connect => ctx.connect address
  | .read msg => ctx.read address msg
  | .write msg => ctx.write address msg
  | .close => ctx.close address
  | .notifyClosed => ctx.notifyClosed address

end Context

/-! ## The pipeline -/

structure Pipeline (μ : Type) where
  head : Nat
  tail : Nat
  contexts : List (Context μ)

namespace Pipeline

/-- The constructor, which links the head and the tail. -/
def create : Pipeline μ where
  head := 0
  tail := 1
  contexts :=
    [{ Context.create .headContext "head" none with next := some 1 },
      { Context.create .tailContext "tail" none with prev := some 0 }]

variable (p : Pipeline μ)

def next (address : Nat) : Option Nat := p.contexts[address]?.bind Context.next

def prev (address : Nat) : Option Nat := p.contexts[address]?.bind Context.prev

def setNext (address : Nat) (next : Option Nat) : Pipeline μ :=
  { p with contexts := p.contexts.modify address fun ctx => { ctx with next := next } }

def setPrev (address : Nat) (prev : Option Nat) : Pipeline μ :=
  { p with contexts := p.contexts.modify address fun ctx => { ctx with prev := prev } }

/-- `add_handler`, which follows the previous link of the tail. -/
def addHandler (name : String) (handler : Option (AbstractHandler μ)) : Option (Pipeline μ) :=
  let ctx := p.contexts.length
  let p := { p with contexts := p.contexts ++ [Context.create .context name handler] }
  match p.prev p.tail with
  | none => none
  | some before =>
      let p := p.setNext before (some ctx)
      let p := p.setPrev ctx (p.prev p.tail)
      let p := p.setNext ctx (some p.tail)
      some (p.setPrev p.tail (some ctx))

def addHandlers (p : Pipeline μ) :
    List (String × Option (AbstractHandler μ)) → Option (Pipeline μ)
  | [] => some p
  | (name, handler) :: rest => (p.addHandler name handler).bind (addHandlers · rest)

def fireConnect : Work μ := .context p.head .connect

/-- `fire_read`, with the read buffer of the session as its message. -/
def fireRead (readBuffer : μ) : Work μ := .context p.head (.read readBuffer)

def fireClosed : Work μ := .context p.head .notifyClosed

/-- What a call calls in turn. What `write` and `close` do to the session is not followed
here. -/
def perform : Work μ → Option (List (Work μ))
  | .context address call => p.contexts[address]?.bind fun ctx => ctx.call address call
  | .write _ => some []
  | .close => some []

/-- Every call that is made until all have returned, in the order of the calls. There is
no result where a call meets a null pointer. -/
def run : Nat → List (Work μ) → Option (List (Work μ))
  | _, [] => some []
  | 0, _ :: _ => none
  | fuel + 1, work :: rest =>
      (p.perform work).bind fun inner => (run fuel (inner ++ rest)).map (work :: ·)

end Pipeline

end FysobEngine.Handler
