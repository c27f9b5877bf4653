import FysobEngine.Net.ByteQueue

/-!
# The delimiter decoder

`delimiter_based_frame_decoder` over a queue of unread bytes. Positions are
`int` in the source and lengths `size_t`, so a position past `INT_MAX` wraps.
-/

namespace FysobEngine.Handler.Delimiter

open Net

/-- The constructors throw for an empty delimiter. -/
structure DelimiterBasedFrameDecoder where
  maxFrameLength : UInt32
  delimiters : List (List UInt8)
  stripDelimiter : Bool
  validated : ∀ delimiter ∈ delimiters, delimiter ≠ []

/-- How one turn of the loop of `decode` ends, with the bytes it takes off. -/
inductive Outcome where
  | nothing
  | oversized (skipped : Nat)
  | frame (data : List UInt8) (taken : Nat)
  deriving DecidableEq, Repr

namespace Outcome

def bytes : Outcome → Nat
  | .nothing => 0
  | .oversized skipped => skipped
  | .frame _ taken => taken

/-- Only the warning about the length leaves the loop. -/
def again : Outcome → Bool
  | .oversized _ => false
  | _ => true

end Outcome

/-- The comparison of a needle with the bytes from one index on. -/
inductive Comparison where
  | mismatch
  | ranOut
  | found
  deriving DecidableEq, Repr

/-- An `int` passed where a `size_t` is expected. -/
def toSize (value : Int32) : Nat := value.toInt64.toUInt64.toNat

namespace DelimiterBasedFrameDecoder

/-- The inner loop of `index_of`. -/
def compareFrom (smallEndian : Bool) (haystack : List UInt8) :
    Nat → List UInt8 → Except Fault Comparison
  | _, [] => .ok .found
  | haystackIndex, byte :: rest => do
      let peeked ← orAssert (ByteQueue.peekIndexEndian smallEndian haystack haystackIndex 1 true)
      if peeked ≠ byte.toNat then .ok .mismatch
      else if haystackIndex + 1 = haystack.length ∧ rest ≠ [] then .ok .ranOut
      else compareFrom smallEndian haystack (haystackIndex + 1) rest

/-- The outer loop of `index_of`, with the number of indices left. -/
def indexOfLoop (smallEndian : Bool) (haystack needle : List UInt8) :
    Nat → Nat → Except Fault Int32
  | 0, _ => .ok (-1)
  | .succ left, index => do
      let comparison ← compareFrom smallEndian haystack index needle
      match comparison with
      | .found => .ok (Int32.ofNat index)
      | .ranOut => .ok (-1)
      | .mismatch => indexOfLoop smallEndian haystack needle left (index + 1)

/-- `index_of`. -/
def indexOf (smallEndian : Bool) (haystack needle : List UInt8) : Except Fault Int32 :=
  indexOfLoop smallEndian haystack needle haystack.length 0

/-- The search over the delimiters for the nearest one. -/
def nearest (smallEndian : Bool) (buf : List UInt8) :
    List (List UInt8) → Int32 → List UInt8 → Except Fault (Int32 × List UInt8)
  | [], minFrameLength, minDelim => .ok (minFrameLength, minDelim)
  | delim :: rest, minFrameLength, minDelim => do
      let frameLength ← indexOf smallEndian buf delim
      if 0 ≤ frameLength ∧ frameLength < minFrameLength then
        nearest smallEndian buf rest frameLength delim
      else nearest smallEndian buf rest minFrameLength minDelim

variable (smallEndian : Bool) (cfg : DelimiterBasedFrameDecoder)

/-- `max_frame_length_ + 1` is added as `uint32_t` and stored as `int`. -/
def ceiling : Int32 := (cfg.maxFrameLength + 1).toInt32

/-- One turn of the loop of `decode`, with the bytes that stay in the buffer. -/
def turn (buf : List UInt8) : Except Fault (Outcome × List UInt8) := do
  let (minFrameLength, minDelim) ← nearest smallEndian buf cfg.delimiters cfg.ceiling []
  if minDelim ≠ [] then
    let minDelimLength := Int32.ofNat minDelim.length
    if minFrameLength.toUInt32 > cfg.maxFrameLength then do
      let skipped := toSize (minFrameLength + minDelimLength)
      let rest ← orAssert (ByteQueue.retrieve buf skipped)
      .ok (.oversized skipped, rest)
    else if cfg.stripDelimiter then do
      let (data, rest) ← orAssert (ByteQueue.read buf (toSize minFrameLength))
      let rest ← orAssert (ByteQueue.retrieve rest (toSize minDelimLength))
      .ok (.frame data (toSize minFrameLength + toSize minDelimLength), rest)
    else do
      let whole := toSize (minFrameLength + minDelimLength)
      let (data, rest) ← orAssert (ByteQueue.read buf whole)
      .ok (.frame data whole, rest)
  else .ok (.nothing, buf)

/-- The loop of `decode` for a number of turns: how the turns ended and what
stays in the buffer. `none` when the turns run out. -/
def decodeLoop : Nat → List UInt8 → Option (List Outcome × Except Fault (List UInt8))
  | 0, _ => none
  | .succ turns, buf =>
      if buf.length = 0 then some ([], .ok buf)
      else
        match cfg.turn smallEndian buf with
        | .error fault => some ([], .error fault)
        | .ok (outcome, rest) =>
            if outcome.again then
              (decodeLoop turns rest).map fun (outcomes, ending) => (outcome :: outcomes, ending)
            else some ([outcome], .ok rest)

/-- `decode` ends after finitely many turns, and every turn that stays in the
loop takes at least one byte. -/
def Terminates (buf : List UInt8) : Prop :=
  ∃ turns outcomes rest, cfg.decodeLoop smallEndian turns buf = some (outcomes, .ok rest) ∧
    ∀ outcome ∈ outcomes, outcome.again = true → 1 ≤ outcome.bytes

/-! ## The search for a delimiter -/

theorem compareFrom_ok (haystack : List UInt8) (needle : List UInt8) (index : Nat)
    (inside : index < haystack.length) :
    ∃ comparison, compareFrom smallEndian haystack index needle = .ok comparison := by
  induction needle generalizing index with
  | nil => exact ⟨.found, rfl⟩
  | cons byte rest ih =>
      rw [compareFrom, ByteQueue.peekIndexEndian_byte smallEndian true inside]
      dsimp only [orAssert, bind, Except.bind]
      split
      · exact ⟨.mismatch, rfl⟩
      · split
        · exact ⟨.ranOut, rfl⟩
        · next more =>
            by_cases last : index + 1 = haystack.length
            · -- the needle ends with the buffer
              have none : rest = [] := by
                apply Classical.byContradiction
                intro left
                exact more ⟨last, left⟩
              rw [none]
              exact ⟨.found, rfl⟩
            · exact ih (index + 1) (by omega)

/-- The search never looks past the end of the buffer. -/
theorem indexOf_ok (haystack needle : List UInt8) :
    ∃ position, indexOf smallEndian haystack needle = .ok position := by
  have loop (left index : Nat) (inside : index + left = haystack.length) :
      ∃ position, indexOfLoop smallEndian haystack needle left index = .ok position := by
    induction left generalizing index with
    | zero => exact ⟨-1, rfl⟩
    | succ left ih =>
        obtain ⟨comparison, compared⟩ :=
          compareFrom_ok smallEndian haystack needle index (by omega)
        rw [indexOfLoop, compared]
        dsimp only [bind, Except.bind]
        cases comparison with
        | mismatch => exact ih (index + 1) (by omega)
        | ranOut => exact ⟨-1, rfl⟩
        | found => exact ⟨Int32.ofNat index, rfl⟩
  exact loop haystack.length 0 (Nat.zero_add _)

/-- A delimiter occurs at a position below the start, no other one occurs before
it, and it is the first listed of those that occur there. -/
def Nearest (buf : List UInt8) (delims : List (List UInt8)) (start position : Int32)
    (delim : List UInt8) : Prop :=
  indexOf smallEndian buf delim = .ok position ∧ 0 ≤ position ∧ position < start ∧
    ∃ before after, delims = before ++ delim :: after ∧
      (∀ other ∈ before, ∀ place, indexOf smallEndian buf other = .ok place →
        place < 0 ∨ position < place) ∧
      ∀ other ∈ after, ∀ place, indexOf smallEndian buf other = .ok place →
        place < 0 ∨ position ≤ place

/-- The loop cuts the front of the buffer at a delimiter. -/
def CutsAt (buf : List UInt8) (position : Int32) (delim : List UInt8) : Prop :=
  Nearest smallEndian buf cfg.delimiters cfg.ceiling position delim

end DelimiterBasedFrameDecoder

end FysobEngine.Handler.Delimiter
