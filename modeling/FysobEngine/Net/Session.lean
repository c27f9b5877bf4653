import FysobEngine.Net.SessionBuffer

/-!
# Sessions

`session` as a step relation. Handlers of asynchronous operations and posted
tasks run one at a time, and the tasks posted to one `io_service` in the order
of their posting. A started operation completes once, at any later moment and
with any result. That `LOGF` returns at every level is an assumption: the logger
in use ends the process at a fatal one, and then no later step comes about.
-/

namespace FysobEngine.Net

/-- The errors that a session tells apart. -/
inductive ErrorCode where
  | operationAborted
  | eof
  | other
  deriving DecidableEq, Repr

inductive Level where
  | info
  | fatal
  deriving DecidableEq, Repr

/-- What a session does to its socket, its pipeline and its owner, in order. No
function of the session reads it. -/
inductive Event where
  | asyncReadSome
  | asyncWriteSome (data : List UInt8)
  /-- A write operation hands the socket these bytes. -/
  | sent (data : List UInt8)
  | shutdown
  | cancel
  | closeSocket
  | fireConnect
  | fireRead
  | fireClosed
  | closeHandler
  | writeHighWaterMaskHandler
  | log (level : Level)
  deriving DecidableEq, Repr

/-- A task that a session posts to the `io_service` of its socket. -/
inductive IoTask where
  | write
  | close
  deriving DecidableEq, Repr

/-- A task that a session posts to its work service. -/
inductive WorkTask where
  | fireRead
  | write (data : List UInt8)
  deriving DecidableEq, Repr

/-- What one of the session's own `write` functions is given. The task that it posts
keeps the bytes of a value. So it does for `write(str)`, which posts the pointer:
the string is taken to stay as it is until the task has run. `write(data, len)`
makes a `data_block`, whose constructor allocates as many bytes as its own `len`
says before it is set and copies `data` there. What was copied past the
allocation is lost, and the task finds other bytes in its place. An allocation that
throws posts no task and is no step here. -/
inductive WriteArgument where
  | value (data : List UInt8)
  | block (data : List UInt8) (allocated : Nat) (beyond : List UInt8)
  deriving DecidableEq, Repr

namespace WriteArgument

/-- The bytes that the caller wants to be written. -/
def given : WriteArgument → List UInt8
  | .value data | .block data _ _ => data

/-- The bytes that the posted task appends. -/
def queued : WriteArgument → List UInt8
  | .value data => data
  | .block data allocated beyond =>
      let lost := data.length - allocated
      data.take allocated ++ (beyond.rightpad lost 0).take lost

end WriteArgument

/-- What a handler may do to its session. `write` goes through the pipeline,
`postWrite` is the session's own. -/
inductive HandlerCall where
  | retrieve (len : Nat)
  | write (data : List UInt8)
  | postWrite (argument : WriteArgument)
  | close
  deriving DecidableEq, Repr

/-- What `server` and `client` set before they start a session. -/
structure Settings where
  readHighWaterMask : Nat
  writeHighWaterMask : Nat
  /-- Whether a `write_high_water_mask_handler_` is set. -/
  writeHighWaterMaskHandler : Bool
  /-- Whether a `close_handler_` is set. -/
  closeHandler : Bool
  deriving DecidableEq, Repr

structure Session (β : Type) where
  readBuffer : β
  writeBuffer : β
  pendingWriteLen : Nat
  reading : Bool
  writing : Bool
  workReadCount : Nat
  closeFlag : Bool
  handleCount : Nat
  started : Bool
  /-- The number of outstanding reads. -/
  reads : Nat
  /-- The bytes that each outstanding write was given. -/
  writes : List (List UInt8)
  ioQueue : List IoTask
  workQueue : List WorkTask
  trace : List Event

namespace Session

variable {β : Type} [SessionBuffer β] (settings : Settings)

/-- The constructor. -/
def create : Session β where
  readBuffer := SessionBuffer.create
  writeBuffer := SessionBuffer.create
  pendingWriteLen := 0
  reading := false
  writing := false
  workReadCount := 0
  closeFlag := false
  handleCount := 0
  started := false
  reads := 0
  writes := []
  ioQueue := []
  workQueue := []
  trace := []

/-- Subtraction of a `std::size_t`. -/
def subtract (count len : Nat) : Nat :=
  if len ≤ count then count - len else count + 2 ^ 64 - len

def note (s : Session β) (event : Event) : Session β := { s with trace := s.trace ++ [event] }

def postIo (s : Session β) (task : IoTask) : Session β :=
  { s with ioQueue := s.ioQueue ++ [task] }

def postWork (s : Session β) (task : WorkTask) : Session β :=
  { s with workQueue := s.workQueue ++ [task] }

/-- `read`. -/
def read (s : Session β) : Session β :=
  { s.note .asyncReadSome with reading := true, reads := s.reads + 1 }

/-- `write()`, the task of `notify_write`. -/
def write (s : Session β) : Session β :=
  if !s.writing && s.pendingWriteLen > 0 then
    let data := SessionBuffer.constBuffer s.writeBuffer
    { s.note (.asyncWriteSome data) with
      writing := true
      handleCount := s.handleCount + 1
      writes := s.writes ++ [data] }
  else s

/-- `notify_write`. -/
def notifyWrite (s : Session β) (length : Nat) : Session β :=
  let s := { s with pendingWriteLen := s.pendingWriteLen + length }
  let s := s.postIo .write
  if settings.writeHighWaterMask ≠ 0 ∧ settings.writeHighWaterMaskHandler ∧
      SessionBuffer.writableBytes s.writeBuffer > settings.writeHighWaterMask then
    s.note .writeHighWaterMaskHandler
  else s

/-- What `pipeline::write` does, and the task that `write(data)` posts. -/
def append (s : Session β) (data : List UInt8) : Option (Session β) := do
  let writeBuffer ← SessionBuffer.append s.writeBuffer data
  some (notifyWrite settings { s with writeBuffer := writeBuffer } data.length)

/-- `fire_closed` and the close handler, as a session calls them when it ends. -/
def notifyClosed (s : Session β) : Session β :=
  let s := s.note .fireClosed
  if settings.closeHandler then s.note .closeHandler else s

/-- `close_after_last_read`, with its answer. -/
def closeAfterLastRead (s : Session β) : Session β × Bool :=
  if s.closeFlag && !s.writing then
    let s := (s.note .shutdown).note .closeSocket
    if s.workReadCount = 0 then (s.notifyClosed settings, true) else (s, true)
  else (s, false)

/-- `close_after_last_write`, whose answer is not used. -/
def closeAfterLastWrite (s : Session β) : Session β :=
  if s.closeFlag then
    let s := s.note .shutdown
    if !s.reading then
      let s := s.note .closeSocket
      if s.workReadCount = 0 then s.notifyClosed settings else s
    else s
  else s

/-- `close_if_necessary`. -/
def closeIfNecessary (s : Session β) : Session β :=
  if s.closeFlag && !s.writing && s.workReadCount == 0 then
    if s.reading then s.note .cancel else s.postIo .close
  else s

/-- The task that `close_if_necessary` posts. -/
def closeTask (s : Session β) : Session β :=
  ((s.note .shutdown).note .closeSocket).notifyClosed settings

/-- `close`. -/
def close (s : Session β) : Session β := closeIfNecessary { s with closeFlag := true }

/-- `retrieve` of the read buffer, whose high-water handler is `read`. -/
def retrieve (s : Session β) (len : Nat) : Option (Session β) := do
  let (readBuffer, invoked) ← SessionBuffer.retrieve s.readBuffer len
  let s := { s with readBuffer := readBuffer }
  some (if invoked then s.read else s)

/-- One call of a handler. -/
def perform (s : Session β) : HandlerCall → Option (Session β)
  | .retrieve len => s.retrieve len
  | .write data => s.append settings data
  | .postWrite argument => some (s.postWork (.write argument.queued))
  | .close => some s.close

def performAll : List HandlerCall → Session β → Option (Session β)
  | [], s => some s
  | call :: rest, s => (s.perform settings call).bind (performAll rest)

/-- `start`, with the calls that the handlers make when they are connected. -/
def start (s : Session β) (connect : List HandlerCall) : Option (Session β) := do
  let s ← performAll settings connect (s.note .fireConnect)
  some s.read

/-- The task that `handle_read` posts, with the calls of the handlers. -/
def fireRead (s : Session β) (decode : List HandlerCall) : Option (Session β) := do
  let s ← performAll settings decode (s.note .fireRead)
  let s := { s with
    handleCount := subtract s.handleCount 1
    workReadCount := subtract s.workReadCount 1 }
  some s.closeIfNecessary

/-- `handle_read`, with the bytes that arrived. -/
def handleRead (s : Session β) (result : Except ErrorCode (List UInt8)) :
    Option (Session β) :=
  let s := { s with handleCount := s.handleCount + 1, reading := false }
  match result with
  | .ok data => do
      let readBuffer ← SessionBuffer.receive s.readBuffer data
      let (s, last) := closeAfterLastRead settings { s with readBuffer := readBuffer }
      if last then some s
      else
        let s :=
          if settings.readHighWaterMask = 0 ∨
              SessionBuffer.readableBytes s.readBuffer < settings.readHighWaterMask then
            s.read
          else
            let mask := settings.readHighWaterMask
            { s with readBuffer := SessionBuffer.setNotifyBehindHighWaterMask s.readBuffer mask }
        some (postWork { s with workReadCount := s.workReadCount + 1 } .fireRead)
  | .error code =>
      let level : Level := if code = .operationAborted ∨ code = .eof then .info else .fatal
      let s := s.note (.log level)
      some (closeAfterLastRead settings { s with closeFlag := true }).1

/-- `handle_write`, with the number of bytes that were sent. -/
def handleWrite (s : Session β) (result : Except ErrorCode Nat) : Option (Session β) :=
  let s := { s with handleCount := subtract s.handleCount 1, writing := false }
  match result with
  | .ok length => do
      let (writeBuffer, _) ← SessionBuffer.retrieve s.writeBuffer length
      let s := { s with
        writeBuffer := writeBuffer
        pendingWriteLen := subtract s.pendingWriteLen length }
      some (if s.pendingWriteLen > 0 then s.write else s.closeAfterLastWrite settings)
  | .error code =>
      let level : Level := if code = .operationAborted then .info else .fatal
      let s := s.note (.log level)
      some (closeAfterLastWrite settings { s with closeFlag := true })

/-- The completion of an outstanding write that was given `data`. -/
def writeDone (s : Session β) (data : List UInt8) (result : Except ErrorCode Nat) :
    Option (Session β) :=
  match result with
  | .ok length =>
      if length ≤ data.length then
        (s.note (.sent (data.take length))).handleWrite settings result
      else none
  | .error _ => s.handleWrite settings result

/-- What can happen to a session. `server` and `client` start it once; anyone who
holds it may call `write`, `postWrite` and `close`. -/
inductive Action where
  | start (connect : List HandlerCall)
  | readDone (result : Except ErrorCode (List UInt8))
  | writeDone (operation : Nat) (result : Except ErrorCode Nat)
  | runIo
  | runWork (decode : List HandlerCall)
  | write (data : List UInt8)
  | postWrite (argument : WriteArgument)
  | close

/-- One step, when the action is enabled and leads to no failed assertion. -/
def step (s : Session β) : Action → Option (Session β)
  | .start connect =>
      if s.started then none
      else (s.start settings connect).map fun s => { s with started := true }
  | .readDone result =>
      match s.reads with
      | 0 => none
      | .succ reads => handleRead settings { s with reads := reads } result
  | .writeDone operation result =>
      match s.writes[operation]? with
      | none => none
      | some data =>
          writeDone settings { s with writes := s.writes.eraseIdx operation } data result
  | .runIo =>
      match s.ioQueue with
      | [] => none
      | .write :: rest => some (write { s with ioQueue := rest })
      | .close :: rest => some (closeTask settings { s with ioQueue := rest })
  | .runWork decode =>
      match s.workQueue with
      | [] => none
      | .fireRead :: rest => fireRead settings { s with workQueue := rest } decode
      | .write data :: rest => append settings { s with workQueue := rest } data
  | .write data => s.append settings data
  | .postWrite argument => some (s.postWork (.write argument.queued))
  | .close => some s.close

/-- The step relation. -/
def Steps (s : Session β) (action : Action) (s' : Session β) : Prop :=
  s.step settings action = some s'

end Session

end FysobEngine.Net
