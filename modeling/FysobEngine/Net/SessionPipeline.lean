import FysobEngine.Handler.PipelineMeaning
import FysobEngine.Net.SessionDecoding

/-!
# The pipeline on its session

`pipeline::write` looks for the type of a message among those that it knows and
appends the bytes of the message. What a chain of handlers comes to is then a list
of calls on the session, up to the first message whose type is not known.
-/

namespace FysobEngine.Net

open Endian Handler

/-! ## Messages -/

/-- The types of plain values that `pipeline::write` knows, but for `long double`. The
registers hand on all the bits of each, as on x86-64. -/
inductive BaseDataType where
  | char
  | int8
  | int16
  | int32
  | int64
  | uint8
  | uint16
  | uint32
  | uint64
  | float
  | double
  deriving DecidableEq, Repr

/-- `sizeof`. -/
def BaseDataType.size : BaseDataType → Nat
  | .char => 1
  | .int8 => 1
  | .int16 => 2
  | .int32 => 4
  | .int64 => 8
  | .uint8 => 1
  | .uint16 => 2
  | .uint32 => 4
  | .uint64 => 8
  | .float => 4
  | .double => 8

/-- A `long double`: ten bytes in a register, sixteen in memory. Nothing determines the
six bytes of padding: `padding` is what `change_endian` finds behind the value, `left`
what `append` finds behind the register that the result was returned in. A value that is
written twice makes two messages, which may find other bytes. -/
structure LongDouble where
  value : Nat
  padding : List UInt8
  left : List UInt8
  padding_length : padding.length = 6
  left_length : left.length = 6
  deriving DecidableEq, Repr

namespace LongDouble

/-- What is in front of the padding. -/
def registerSize : Nat := 10

/-- The bytes of a `long double` in memory. -/
def bytes (smallEndian : Bool) (x : LongDouble) : List UInt8 :=
  memory smallEndian registerSize x.value ++ x.padding

/-- The bytes behind `adapte_endian` in big-endian order. `change_endian` reverses all
sixteen and returns what fits the register. A host of the other byte order has no such
register and returns the sixteen as they are. -/
def adapted (smallEndian : Bool) (x : LongDouble) : List UInt8 :=
  if smallEndian then (x.bytes smallEndian).reverse.take registerSize ++ x.left
  else x.bytes smallEndian

theorem bytes_length (smallEndian : Bool) (x : LongDouble) : (x.bytes smallEndian).length = 16 := by
  rw [bytes, List.length_append, memory, wireBytes_length, x.padding_length]
  rfl

theorem adapted_length (smallEndian : Bool) (x : LongDouble) :
    (x.adapted smallEndian).length = 16 := by
  cases smallEndian with
  | false => exact x.bytes_length false
  | true =>
      rw [adapted, if_pos rfl, List.length_append, List.length_take, List.length_reverse,
        x.bytes_length, x.left_length]
      rfl

/-- A small-endian host puts the four highest bytes of a `long double` on the wire, in
big-endian order, between bytes that say nothing about it. -/
def wire (smallEndian : Bool) (x : LongDouble) : List UInt8 :=
  if smallEndian then
    x.padding.reverse ++ (wireBytes true registerSize x.value).take 4 ++ x.left
  else wireBytes true registerSize x.value ++ x.padding

theorem adapted_wire (smallEndian : Bool) (x : LongDouble) :
    x.adapted smallEndian = x.wire smallEndian := by
  cases smallEndian with
  | false => rfl
  | true =>
      have inFront : x.padding.reverse.length = 6 := List.length_reverse.trans x.padding_length
      rw [adapted, if_pos rfl, bytes, List.reverse_append, List.take_append, inFront,
        List.take_of_length_le (Nat.le_trans (Nat.le_of_eq inFront) (by decide))]
      rfl

end LongDouble

/-- What `typeid` tells apart. It does not tell a reference from its type. -/
inductive TypeInfo where
  | void
  | readData
  | writeData
  | string
  | base (type : BaseDataType)
  | longDouble
  | other
  deriving DecidableEq, Repr

/-- A message. A plain value is the number that its bytes make up. -/
inductive AnyValue where
  | empty
  | readData (data : List UInt8)
  | writeData (data : List UInt8)
  | string (str : List UInt8)
  | base (type : BaseDataType) (value : Nat)
  | longDouble (x : LongDouble)
  | other
  deriving DecidableEq, Repr

namespace AnyValue

/-- `type`. -/
def type : AnyValue → TypeInfo
  | .empty => .void
  | .readData _ => .readData
  | .writeData _ => .writeData
  | .string _ => .string
  | .base type _ => .base type
  | .longDouble _ => .longDouble
  | .other => .other

/-- The bytes that a `read_data`, a `write_data` or a string shows. -/
def shown : AnyValue → List UInt8
  | .empty => []
  | .readData data => data
  | .writeData data => data
  | .string str => str
  | .base _ _ => []
  | .longDouble _ => []
  | .other => []

/-- The number of a plain value. -/
def number : AnyValue → Nat
  | .empty => 0
  | .readData _ => 0
  | .writeData _ => 0
  | .string _ => 0
  | .base _ value => value
  | .longDouble _ => 0
  | .other => 0

/-- The bytes of a `long double` as `append` gets them. -/
def adapted (smallEndian : Bool) : AnyValue → List UInt8
  | .empty => []
  | .readData _ => []
  | .writeData _ => []
  | .string _ => []
  | .base _ _ => []
  | .longDouble x => x.adapted smallEndian
  | .other => []

/-- The bytes of a message on the wire, for those that have any. Those of a `long double`
alone are up to the host. -/
def payload (smallEndian : Bool) : AnyValue → Option (List UInt8)
  | .empty => none
  | .readData data => some data
  | .writeData data => some data
  | .string str => some str
  | .base type value => some (wireBytes true type.size value)
  | .longDouble x => some (x.wire smallEndian)
  | .other => none

end AnyValue

namespace Session

variable {β : Type} (settings : Settings) (smallEndian : Bool)

/-! ## `pipeline::write` -/

section Write

variable [SessionBuffer β]

/-- One of the attempts of `write`: the session, and whether the type was this one.
`append` and `notify_write` are called with these arguments. -/
def writeType (type : TypeInfo) (data : AnyValue → List UInt8) (length : AnyValue → Nat)
    (msg : AnyValue) (s : Session β) : Option (Session β × Bool) :=
  if msg.type = type then do
    let writeBuffer ← SessionBuffer.append s.writeBuffer (data msg)
    some (notifyWrite settings { s with writeBuffer := writeBuffer } (length msg), true)
  else some (s, false)

/-- `write_data_struct`. -/
def writeDataStruct (type : TypeInfo) : AnyValue → Session β → Option (Session β × Bool) :=
  writeType settings type AnyValue.shown fun msg => msg.shown.length

/-- `write_string_type`. -/
def writeStringType : AnyValue → Session β → Option (Session β × Bool) :=
  writeType settings .string AnyValue.shown fun msg => msg.shown.length

/-- `write_base_data_type`, whose `append` is `append_endian` in big-endian order. -/
def writeBaseDataType (type : BaseDataType) : AnyValue → Session β → Option (Session β × Bool) :=
  writeType settings (.base type)
    (fun msg => memory smallEndian type.size
      (adapteEndian smallEndian type.size msg.number true))
    fun _ => type.size

/-- `write_base_data_type` of a `long double`. -/
def writeLongDouble : AnyValue → Session β → Option (Session β × Bool) :=
  writeType settings .longDouble (AnyValue.adapted smallEndian) fun _ => 16

/-- The other types of plain values, in the order in which `write` tries them. -/
def baseDataTypes : List BaseDataType :=
  [.char, .int8, .int16, .int32, .int64, .uint8, .uint16, .uint32, .uint64, .float, .double]

/-- The attempts of `write`, in their order. The types `std::string&` and `const
std::string&` are the same to `typeid`. -/
def attempts : List (AnyValue → Session β → Option (Session β × Bool)) :=
  writeDataStruct settings .readData :: writeDataStruct settings .writeData ::
    writeStringType settings :: writeStringType settings :: writeStringType settings ::
      (baseDataTypes.map (writeBaseDataType settings smallEndian) ++
        [writeLongDouble settings smallEndian])

/-- The first attempt that succeeds, and whether `bad_cast` is thrown as there is none. -/
def attempt (msg : AnyValue) :
    List (AnyValue → Session β → Option (Session β × Bool)) → Session β →
      Option (Session β × Bool)
  | [], s => some (s, true)
  | first :: rest, s =>
      (first msg s).bind fun (s, written) =>
        if written then some (s, false) else attempt msg rest s

/-- `pipeline::write`, and whether it throws `bad_cast`. -/
def pipelineWrite (s : Session β) (msg : AnyValue) : Option (Session β × Bool) :=
  attempt msg (attempts settings smallEndian) s

end Write

variable {settings smallEndian} {s : Session β}

theorem attempt_skip {msg : AnyValue}
    {one : AnyValue → Session β → Option (Session β × Bool)}
    (skipped : one msg s = some (s, false))
    (rest : List (AnyValue → Session β → Option (Session β × Bool))) :
    attempt msg (one :: rest) s = attempt msg rest s := by
  rw [attempt, skipped, Option.bind_some]
  rfl

theorem attempt_skips {msg : AnyValue}
    {first : List (AnyValue → Session β → Option (Session β × Bool))}
    (skipped : ∀ one ∈ first, one msg s = some (s, false))
    (rest : List (AnyValue → Session β → Option (Session β × Bool))) :
    attempt msg (first ++ rest) s = attempt msg rest s := by
  induction first with
  | nil => rfl
  | cons one others ih =>
      rw [List.cons_append, attempt_skip (skipped one List.mem_cons_self)]
      exact ih fun other member => skipped other (List.mem_cons_of_mem one member)

section Written

variable [SessionBuffer β]

theorem writeType_other {type : TypeInfo} {data : AnyValue → List UInt8}
    {length : AnyValue → Nat} {msg : AnyValue} (other : msg.type ≠ type) :
    writeType settings type data length msg s = some (s, false) :=
  if_neg other

/-- An attempt for the type of a message appends its bytes. -/
theorem writeType_same {type : TypeInfo} {data : AnyValue → List UInt8}
    {length : AnyValue → Nat} {msg : AnyValue} (same : msg.type = type)
    (whole : length msg = (data msg).length) :
    writeType settings type data length msg s =
      (s.append settings (data msg)).map fun s' => (s', true) := by
  rw [writeType, if_pos same, whole, append]
  cases SessionBuffer.append s.writeBuffer (data msg) with
  | none => rfl
  | some writeBuffer => rfl

theorem attempt_takes {msg : AnyValue}
    {one : AnyValue → Session β → Option (Session β × Bool)} {data : List UInt8}
    (taken : one msg s = (s.append settings data).map fun s' => (s', true))
    (rest : List (AnyValue → Session β → Option (Session β × Bool))) :
    attempt msg (one :: rest) s = (s.append settings data).map fun s' => (s', false) := by
  rw [attempt, taken]
  cases s.append settings data with
  | none => rfl
  | some s' => rfl

/-- A message that shows no bytes is left to the attempts at plain values. -/
theorem attempts_base {msg : AnyValue}
    (shapeless : ∀ type ∈ [TypeInfo.readData, .writeData, .string], msg.type ≠ type) :
    attempt msg (attempts settings smallEndian) s =
      attempt msg (baseDataTypes.map (writeBaseDataType settings smallEndian) ++
        [writeLongDouble settings smallEndian]) s := by
  have structs : ∀ one ∈ [writeDataStruct settings .readData,
      writeDataStruct settings .writeData, writeStringType settings, writeStringType settings,
      writeStringType settings], one msg s = some (s, false) := by
    intro one member
    have notString : msg.type ≠ .string := shapeless _ (by decide)
    simp only [List.mem_cons, List.not_mem_nil, or_false] at member
    rcases member with rfl | rfl | rfl | rfl | rfl
    · exact writeType_other (shapeless _ (by decide))
    · exact writeType_other (shapeless _ (by decide))
    · exact writeType_other notString
    · exact writeType_other notString
    · exact writeType_other notString
  exact attempt_skips structs _

theorem baseDataTypes_split (type : BaseDataType) :
    ∃ before behind, baseDataTypes = before ++ type :: behind ∧ type ∉ before :=
  List.eq_append_cons_of_mem (by cases type <;> decide)

theorem baseDataTypes_skip {msg : AnyValue} {types : List BaseDataType}
    (other : ∀ type ∈ types, msg.type ≠ .base type)
    (rest : List (AnyValue → Session β → Option (Session β × Bool))) :
    attempt msg (types.map (writeBaseDataType settings smallEndian) ++ rest) s =
      attempt msg rest s := by
  refine attempt_skips (fun one member => ?_) rest
  obtain ⟨type, listed, rfl⟩ := List.mem_map.mp member
  exact writeType_other (other type listed)

/-- The attempts at the types before that of a plain value fail, and the next one
appends the value in big-endian order. -/
theorem attempt_base (type : BaseDataType) (value : Nat)
    (rest : List (AnyValue → Session β → Option (Session β × Bool))) :
    attempt (.base type value)
        (baseDataTypes.map (writeBaseDataType settings smallEndian) ++ rest) s =
      (s.append settings (wireBytes true type.size value)).map fun s' => (s', false) := by
  obtain ⟨before, behind, split, first⟩ := baseDataTypes_split type
  have stored := memory_adapteEndian smallEndian true type.size value
  rw [split, List.map_append, List.map_cons, List.append_assoc, List.cons_append,
    baseDataTypes_skip, ← stored]
  · refine attempt_takes (writeType_same rfl ?_) _
    change type.size = (memory smallEndian type.size
      (adapteEndian smallEndian type.size value true)).length
    rw [stored, wireBytes_length]
  · intro other earlier same
    cases same
    exact first earlier

/-- `pipeline::write` appends the bytes of a message, or throws `bad_cast` and leaves
the session as it is. -/
theorem pipelineWrite_eq (msg : AnyValue) :
    s.pipelineWrite settings smallEndian msg =
      match msg.payload smallEndian with
      | none => some (s, true)
      | some data => (s.append settings data).map fun s' => (s', false) := by
  have unknown : (∀ type, msg.type ≠ .base type) → msg.type ≠ .longDouble →
      attempt msg (baseDataTypes.map (writeBaseDataType settings smallEndian) ++
        [writeLongDouble settings smallEndian]) s = some (s, true) := by
    intro other notLong
    rw [baseDataTypes_skip fun type _ => other type]
    exact attempt_skip (writeType_other notLong) []
  rw [pipelineWrite]
  cases msg with
  | readData data => exact attempt_takes (writeType_same rfl rfl) _
  | writeData data =>
      refine (attempt_skip (writeType_other fun same => by cases same) _).trans ?_
      exact attempt_takes (writeType_same rfl rfl) _
  | string str =>
      refine (attempt_skip (writeType_other fun same => by cases same) _).trans ?_
      refine (attempt_skip (writeType_other fun same => by cases same) _).trans ?_
      exact attempt_takes (writeType_same rfl rfl) _
  | base type value =>
      refine (attempts_base (by simp [AnyValue.type])).trans ?_
      exact attempt_base type value _
  | longDouble x =>
      refine (attempts_base (by simp [AnyValue.type])).trans ?_
      rw [baseDataTypes_skip fun type _ same => by cases same]
      change _ = (s.append settings (x.wire smallEndian)).map fun s' => (s', false)
      rw [← x.adapted_wire smallEndian]
      exact attempt_takes (writeType_same rfl (x.adapted_length smallEndian).symm) []
  | empty =>
      refine (attempts_base (by simp [AnyValue.type])).trans ?_
      exact unknown (fun type same => by cases same) fun same => by cases same
  | other =>
      refine (attempts_base (by simp [AnyValue.type])).trans ?_
      exact unknown (fun type same => by cases same) fun same => by cases same

end Written

/-! ## What a chain of handlers does to the session -/

section Chain

variable [SessionBuffer β] (settings) (smallEndian)

/-- One call while an event is under way, and whether an exception ends it. -/
def handle (s : Session β) : Work AnyValue → Option (Session β × Bool)
  | .context _ _ => some (s, false)
  | .write msg => s.pipelineWrite settings smallEndian msg
  | .close => some (s.close, false)

def handleAll : List (Work AnyValue) → Session β → Option (Session β × Bool)
  | [], s => some (s, false)
  | work :: rest, s =>
      (s.handle settings smallEndian work).bind fun (s, thrown) =>
        if thrown then some (s, true) else handleAll rest s

end Chain

/-- The calls on the session, up to the first message of an unknown type. -/
def handlerCalls (smallEndian : Bool) : List (Work AnyValue) → List HandlerCall
  | [] => []
  | .context _ _ :: rest => handlerCalls smallEndian rest
  | .write msg :: rest =>
      match msg.payload smallEndian with
      | none => []
      | some data => .write data :: handlerCalls smallEndian rest
  | .close :: rest => .close :: handlerCalls smallEndian rest

/-- Whether there is such a message. -/
def throws (smallEndian : Bool) : List (Work AnyValue) → Bool
  | [] => false
  | .context _ _ :: rest => throws smallEndian rest
  | .write msg :: rest => (msg.payload smallEndian).isNone || throws smallEndian rest
  | .close :: rest => throws smallEndian rest

theorem handlerCalls_filter (trace : List (Work AnyValue)) :
    handlerCalls smallEndian (trace.filter Work.atConnection) = handlerCalls smallEndian trace := by
  induction trace with
  | nil => rfl
  | cons work rest ih =>
      cases work with
      | context address call => exact ih
      | write msg =>
          rw [List.filter_cons_of_pos rfl, handlerCalls, handlerCalls, ih]
      | close => exact congrArg (HandlerCall.close :: ·) ih

theorem throws_filter (trace : List (Work AnyValue)) :
    throws smallEndian (trace.filter Work.atConnection) = throws smallEndian trace := by
  induction trace with
  | nil => rfl
  | cons work rest ih =>
      cases work with
      | context address call => exact ih
      | write msg => exact congrArg ((msg.payload smallEndian).isNone || ·) ih
      | close => exact ih

/-- The handlers have no way to the read buffer. -/
theorem handlerCalls_retrieved (works : List (Work AnyValue)) :
    (handlerCalls smallEndian works).filterMap HandlerCall.retrieved = [] := by
  induction works with
  | nil => rfl
  | cons work rest ih =>
      cases work with
      | context address call => exact ih
      | write msg =>
          rw [handlerCalls]
          cases msg.payload smallEndian with
          | none => rfl
          | some data => exact ih
      | close => exact ih

section Effects

variable [SessionBuffer β]

theorem handleAll_eq (works : List (Work AnyValue)) :
    handleAll settings smallEndian works s =
      (performAll settings (handlerCalls smallEndian works) s).map
        fun s' => (s', throws smallEndian works) := by
  induction works generalizing s with
  | nil => rfl
  | cons work rest ih =>
      rw [handleAll]
      cases work with
      | context address call => exact ih
      | write msg =>
          rw [handle, pipelineWrite_eq, handlerCalls, throws]
          cases msg.payload smallEndian with
          | none => rfl
          | some data =>
              dsimp only
              rw [performAll, perform]
              cases s.append settings data with
              | none => rfl
              | some s' => exact ih
      | close => exact ih

variable (settings smallEndian β) in
/-- Some work comes to an end and does to any session what these calls do. -/
def Effects (p : Pipeline AnyValue) (work calls : List (Work AnyValue)) : Prop :=
  ∃ trace, p.Delivers work trace ∧ ∀ s : Session β,
    handleAll settings smallEndian trace s =
      (performAll settings (handlerCalls smallEndian calls) s).map
        fun s' => (s', throws smallEndian calls)

theorem effects_of_means {p : Pipeline AnyValue} {work calls : List (Work AnyValue)}
    (means : p.Means work calls) : Effects β settings smallEndian p work calls := by
  obtain ⟨trace, delivers, rfl⟩ := means
  refine ⟨trace, delivers, fun s => ?_⟩
  rw [handlerCalls_filter, throws_filter]
  exact handleAll_eq trace

end Effects

/-- What a pipeline does to a session is the composition of its handlers: from the
head, and from the context of each handler. -/
structure Serves (β : Type) [SessionBuffer β] (settings : Settings) (smallEndian : Bool)
    (p : Pipeline AnyValue) (handlers : List (AbstractHandler AnyValue)) : Prop where
  fromHead : ∀ call, call.inward = true →
    Effects β settings smallEndian p [.context p.head call] (inward [] handlers call)
  fromContext : ∀ i ctx call, i < handlers.length → p.contexts[i + 2]? = some ctx →
    Effects β settings smallEndian p (ctx.fire call)
      (if call.inward then
        inward (handlers.take (i + 1)).reverse (handlers.drop (i + 1)) call
      else outward (handlers.take i).reverse call)

theorem serves_of_composes [SessionBuffer β] {p : Pipeline AnyValue}
    {handlers : List (AbstractHandler AnyValue)} (composes : p.Composes handlers) :
    Serves β settings smallEndian p handlers where
  fromHead call inwards := effects_of_means (composes.fromHead call inwards)
  fromContext i ctx call inside here :=
    effects_of_means (composes.fromContext i ctx call inside here)

/-- Every event of a pipeline comes to its end and does to the session what the
composition of the handlers asks for, up to the first message of an unknown type. -/
theorem addHandlers_serves [SessionBuffer β] (handlers : List (String × AbstractHandler AnyValue))
    (layered : ∀ added ∈ handlers, added.2.Layered) :
    ∃ p, Pipeline.create.addHandlers (Pipeline.named handlers) = some p ∧
      Serves β settings smallEndian p (handlers.map Prod.snd) := by
  obtain ⟨p, added, chained⟩ :=
    Pipeline.addHandlers_chained Pipeline.create_chained (Pipeline.named handlers)
  exact ⟨p, added, serves_of_composes (Pipeline.Chained.composes chained layered)⟩

/-- A handler that writes the length of a message in front of it. -/
def lengthField : AbstractHandler AnyValue :=
  .coder (fun msg => [.fire (.read msg)]) fun msg =>
    [.fire (.write (.base .uint16 msg.shown.length)), .fire (.write msg)]

/-- A handler that answers every message with itself. -/
def echoHandler : AbstractHandler AnyValue :=
  .coder (fun msg => [.fire (.write msg)]) fun msg => [.fire (.write msg)]

theorem lengthField_layered : lengthField.Layered := by
  refine AbstractHandler.coder_layered
    (fun _ _ member => .inl ⟨_, List.mem_singleton.mp member⟩) fun msg request member => ?_
  rcases List.mem_cons.mp member with same | member
  · exact ⟨_, same, rfl⟩
  · exact ⟨_, List.mem_singleton.mp member, rfl⟩

theorem echoHandler_layered : echoHandler.Layered :=
  AbstractHandler.coder_layered (fun _ _ member => .inl ⟨_, List.mem_singleton.mp member⟩)
    fun _ _ member => ⟨_, List.mem_singleton.mp member, rfl⟩

/-- A length prefix and an echo behind it. -/
def prefixedEcho : List (String × AbstractHandler AnyValue) :=
  [("length", lengthField), ("echo", echoHandler)]

theorem prefixedEcho_layered : ∀ added ∈ prefixedEcho, added.2.Layered := by
  intro added member
  rcases List.mem_cons.mp member with rfl | member
  · exact lengthField_layered
  · cases List.mem_singleton.mp member
    exact echoHandler_layered

theorem addHandlers_serves_echo :
    ∃ p, Pipeline.create.addHandlers (Pipeline.named prefixedEcho) = some p ∧
      Serves AsioBuffer.LaidOut ⟨0, 0, false, true⟩ true p (prefixedEcho.map Prod.snd) :=
  addHandlers_serves prefixedEcho prefixedEcho_layered

/-! ## Frames that go through a chain -/

section Frames

variable [QueueBuffer β] {ω : Type} (settings) (smallEndian) (p : Pipeline AnyValue)
  (address : Nat) (d : FrameDecoder ω)

/-- What a turn of the decoder in a context does to its session. `fuel` bounds the
calls that a message leads to. -/
def turnThrough (fuel : Nat) (outcome : ω) (s : Session β) : Option (Session β × Bool) :=
  (performAll settings ((d.retrieves outcome).map .retrieve) s).bind fun s =>
    match d.fired outcome with
    | none => some (s, false)
    | some message =>
        (p.contexts[address]?).bind fun ctx =>
          (p.run fuel (ctx.fireRead (.readData message))).bind fun trace =>
            s.handleAll settings smallEndian trace

/-- `decode` of the decoder in a context, for a number of turns, with whether an
exception ended it. -/
def decodeThrough (fuel : Nat) :
    Nat → Session β → Option (List ω × Except Fault (Session β × Bool))
  | 0, _ => none
  | .succ turns, s =>
      if SessionBuffer.readableBytes s.readBuffer = 0 then some ([], .ok (s, false))
      else
        match d.turn (QueueBuffer.content s.readBuffer) with
        | .error fault => some ([], .error fault)
        | .ok (outcome, _) =>
            (turnThrough settings smallEndian p address d fuel outcome s).bind fun (s, thrown) =>
              if thrown then some ([outcome], .ok (s, true))
              else if d.again outcome then
                (decodeThrough fuel turns s).map fun (outcomes, ending) =>
                  (outcome :: outcomes, ending)
              else some ([outcome], .ok (s, false))

end Frames

/-- The calls that the handlers behind a decoder make for a message. -/
def answersTo (smallEndian : Bool) (handlers : List (AbstractHandler AnyValue))
    (message : List UInt8) : List HandlerCall :=
  handlerCalls smallEndian (inward [.base] handlers (.read (.readData message)))

theorem answersTo_behind (handlers : List (AbstractHandler AnyValue)) :
    Behind (answersTo smallEndian handlers) :=
  fun _ => handlerCalls_retrieved _

section Serving

variable [QueueBuffer β] {ω : Type} {p : Pipeline AnyValue} {d : FrameDecoder ω}
  {handlers : List (AbstractHandler AnyValue)}

theorem turnThrough_eq {ctx : Context AnyValue} {address : Nat}
    (here : p.contexts[address]? = some ctx)
    (effects : ∀ message, Effects β settings smallEndian p (ctx.fireRead (.readData message))
      (inward [.base] handlers (.read (.readData message))))
    (known : ∀ message,
      throws smallEndian (inward [.base] handlers (.read (.readData message))) = false)
    (outcome : ω) :
    ∃ fuel, ∀ enough, fuel ≤ enough → ∀ s : Session β,
      turnThrough settings smallEndian p address d enough outcome s =
        (performAll settings (turnCalls d (answersTo smallEndian handlers) outcome) s).map fun s' =>
          (s', false) := by
  cases fires : d.fired outcome with
  | none =>
      refine ⟨0, fun enough _ s => ?_⟩
      rw [turnThrough, turnCalls, fires, Option.elim_none, List.append_nil]
      cases performAll settings ((d.retrieves outcome).map .retrieve) s with
      | none => rfl
      | some s' => rfl
  | some message =>
      obtain ⟨trace, ⟨fuel, run⟩, does⟩ := effects message
      refine ⟨fuel, fun enough le s => ?_⟩
      rw [turnThrough, turnCalls, fires, Option.elim_some, performAll_append]
      cases performAll settings ((d.retrieves outcome).map .retrieve) s with
      | none => rfl
      | some s' =>
          dsimp only [Option.bind_some]
          rw [here, Option.bind_some, Pipeline.run_mono le run, Option.bind_some, does, known]
          rfl

theorem decodeThrough_eq {ctx : Context AnyValue} {address : Nat}
    (here : p.contexts[address]? = some ctx)
    (effects : ∀ message, Effects β settings smallEndian p (ctx.fireRead (.readData message))
      (inward [.base] handlers (.read (.readData message))))
    (known : ∀ message,
      throws smallEndian (inward [.base] handlers (.read (.readData message))) = false)
    {turns : Nat} {s : Session β} {outcomes : List ω} {ending : Except Fault (Session β)}
    (done : decodeOn settings d (answersTo smallEndian handlers) turns s =
      some (outcomes, ending)) :
    ∃ fuel, ∀ enough, fuel ≤ enough →
      decodeThrough settings smallEndian p address d enough turns s =
        some (outcomes, ending.map fun s' => (s', false)) := by
  induction turns generalizing s outcomes with
  | zero => cases done
  | succ turns ih =>
      rw [decodeOn] at done
      by_cases drained : SessionBuffer.readableBytes s.readBuffer = 0
      · rw [if_pos drained] at done
        cases done
        refine ⟨0, fun enough _ => ?_⟩
        rw [decodeThrough, if_pos drained]
        rfl
      · rw [if_neg drained] at done
        cases turned : d.turn (QueueBuffer.content s.readBuffer) with
        | error fault =>
            rw [turned] at done
            cases done
            refine ⟨0, fun enough _ => ?_⟩
            rw [decodeThrough, if_neg drained, turned]
            rfl
        | ok ended =>
            obtain ⟨outcome, left⟩ := ended
            rw [turned] at done
            obtain ⟨middle, calls, result⟩ := Option.bind_eq_some_iff.mp done
            obtain ⟨fuel, turn⟩ := turnThrough_eq (d := d) here effects known outcome
            cases again : d.again outcome with
            | false =>
                rw [again, if_neg Bool.false_ne_true] at result
                cases result
                refine ⟨fuel, fun enough le => ?_⟩
                rw [decodeThrough, if_neg drained, turned]
                dsimp only
                rw [turn enough le s, calls, Option.map_some, Option.bind_some, again]
                rfl
            | true =>
                rw [again, if_pos rfl] at result
                obtain ⟨⟨later, ended⟩, inner, same⟩ := Option.map_eq_some_iff.mp result
                cases same
                obtain ⟨more, behind⟩ := ih inner
                refine ⟨max fuel more, fun enough le => ?_⟩
                rw [decodeThrough, if_neg drained, turned]
                dsimp only
                rw [turn enough (Nat.le_trans (Nat.le_max_left fuel more) le) s, calls,
                  Option.map_some, Option.bind_some, again,
                  behind enough (Nat.le_trans (Nat.le_max_right fuel more) le)]
                rfl

/-- A decoder added in front of handlers that answer in layers. Whatever it does when
each message is answered at once, it does through the linked contexts, and its turns
are those on the bytes alone. -/
theorem decoder_serves (name : String) (behind : List (String × AbstractHandler AnyValue))
    (layered : ∀ added ∈ behind, added.2.Layered)
    (known : ∀ message,
      throws smallEndian (inward [.base] (behind.map Prod.snd) (.read (.readData message))) =
        false) :
    ∃ p, Pipeline.create.addHandlers (Pipeline.named ((name, .base) :: behind)) = some p ∧
      ∀ turns (s : Session β) outcomes ending,
        decodeOn settings d (answersTo smallEndian (behind.map Prod.snd)) turns s =
            some (outcomes, ending) →
        d.decodeLoop turns (QueueBuffer.content s.readBuffer) =
            some (outcomes, ending.map fun s' => QueueBuffer.content s'.readBuffer) ∧
          ∃ fuel, decodeThrough settings smallEndian p 2 d fuel turns s =
            some (outcomes, ending.map fun s' => (s', false)) := by
  obtain ⟨p, added, chained⟩ :=
    Pipeline.addHandlers_chained Pipeline.create_chained (Pipeline.named ((name, .base) :: behind))
  have all : ∀ added ∈ (name, .base) :: behind, added.2.Layered := by
    intro added member
    rcases List.mem_cons.mp member with rfl | member
    · exact AbstractHandler.base_layered
    · exact layered added member
  have serves : Serves β settings smallEndian p (((name, .base) :: behind).map Prod.snd) :=
    serves_of_composes (Pipeline.Chained.composes chained all)
  obtain ⟨ctx, here, _⟩ := chained.handlerContext (i := 0) rfl
  refine ⟨p, added, fun turns s outcomes ending done => ?_⟩
  have effects : ∀ message, Effects β settings smallEndian p (ctx.fireRead (.readData message))
      (inward [.base] (behind.map Prod.snd) (.read (.readData message))) := fun message =>
    serves.fromContext 0 ctx (.read (.readData message)) (Nat.succ_pos _) here
  obtain ⟨fuel, through⟩ := decodeThrough_eq here effects known done
  exact ⟨(decodeOn_loop (answersTo_behind _) done).1, fuel, through fuel (Nat.le_refl fuel)⟩

end Serving

example (message : List UInt8) : answersTo true (prefixedEcho.map Prod.snd) message =
    [.write (wireBytes true 2 message.length), .write message] := rfl

/-- A decoder in front of the two handlers, over block buffers. -/
theorem decoder_serves_echo :
    ∃ p, Pipeline.create.addHandlers
        (Pipeline.named (("decoder", .base) :: prefixedEcho)) = some p ∧
      ∀ turns (s : Session AsioBuffer.LaidOut) outcomes ending,
        decodeOn ⟨0, 0, false, true⟩
          (LengthField.LengthFieldBaseFrameDecoder.byteLength.frameDecoder true)
          (answersTo true (prefixedEcho.map Prod.snd)) turns s = some (outcomes, ending) →
        (LengthField.LengthFieldBaseFrameDecoder.byteLength.frameDecoder true).decodeLoop turns
            (QueueBuffer.content s.readBuffer) =
            some (outcomes, ending.map fun s' => QueueBuffer.content s'.readBuffer) ∧
          ∃ fuel, decodeThrough ⟨0, 0, false, true⟩ true p 2
              (LengthField.LengthFieldBaseFrameDecoder.byteLength.frameDecoder true) fuel turns
                s = some (outcomes, ending.map fun s' => (s', false)) :=
  decoder_serves "decoder" prefixedEcho prefixedEcho_layered fun _ => rfl

end Session

end FysobEngine.Net
