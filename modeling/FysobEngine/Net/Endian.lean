import Mathlib.Algebra.Ring.Nat

/-!
# Byte order of integers

`change_endian` reverses the bytes of an integer in memory. What
`is_small_endian` finds out is a property of the host, `smallEndian` below.
-/

namespace FysobEngine.Net.Endian

/-- The number whose bytes are listed least significant first. -/
def littleValue : List UInt8 → Nat
  | [] => 0
  | byte :: rest => byte.toNat + 256 * littleValue rest

/-- The `width` bytes of a number, least significant first. -/
def littleBytes : Nat → Nat → List UInt8
  | 0, _ => []
  | .succ width, value => UInt8.ofNat value :: littleBytes width (value / 256)

/-- The bytes of a number in one of the two orders. -/
def wireBytes (bigEndian : Bool) (width value : Nat) : List UInt8 :=
  if bigEndian then (littleBytes width value).reverse else littleBytes width value

/-- The number that a field holds in one of the two orders. -/
def wireValue (bigEndian : Bool) (bytes : List UInt8) : Nat :=
  littleValue (if bigEndian then bytes.reverse else bytes)

/-- The bytes of an integer in the memory of the host. -/
def memory (smallEndian : Bool) (width value : Nat) : List UInt8 :=
  wireBytes (!smallEndian) width value

/-- The integer that the host finds in memory. -/
def fromMemory (smallEndian : Bool) (bytes : List UInt8) : Nat :=
  wireValue (!smallEndian) bytes

/-- `change_endian`. -/
def changeEndian (smallEndian : Bool) (width value : Nat) : Nat :=
  fromMemory smallEndian (memory smallEndian width value).reverse

/-- `adapte_endian`. -/
def adapteEndian (smallEndian : Bool) (width value : Nat) (bigEndian : Bool) : Nat :=
  if (smallEndian && bigEndian) || (!smallEndian && !bigEndian) then
    changeEndian smallEndian width value
  else value

theorem littleBytes_length (width value : Nat) : (littleBytes width value).length = width := by
  induction width generalizing value with
  | zero => rfl
  | succ width ih => rw [littleBytes, List.length_cons, ih]

/-- Byte `i` has the weight `256 ^ i`. -/
theorem littleBytes_getElem? {width i : Nat} (value : Nat) (inside : i < width) :
    (littleBytes width value)[i]? = some (UInt8.ofNat (value / 256 ^ i)) := by
  induction width generalizing value i with
  | zero => exact absurd inside (Nat.not_lt_zero _)
  | succ width ih =>
      rw [littleBytes]
      cases i with
      | zero => rw [List.getElem?_cons_zero, Nat.pow_zero, Nat.div_one]
      | succ i =>
          rw [List.getElem?_cons_succ, ih _ (Nat.lt_of_succ_lt_succ inside), Nat.div_div_eq_div_mul,
            Nat.pow_succ']

theorem littleValue_littleBytes {width value : Nat} (fits : value < 256 ^ width) :
    littleValue (littleBytes width value) = value := by
  induction width generalizing value with
  | zero =>
      rw [Nat.pow_zero, Nat.lt_one_iff] at fits
      exact fits.symm
  | succ width ih =>
      have rest : value / 256 < 256 ^ width := by
        rw [Nat.pow_succ] at fits
        omega
      rw [littleBytes, littleValue, ih rest, UInt8.toNat_ofNat']
      exact Nat.mod_add_div value 256

theorem littleBytes_littleValue (bytes : List UInt8) :
    littleBytes bytes.length (littleValue bytes) = bytes := by
  induction bytes with
  | nil => rfl
  | cons byte rest ih =>
      have bound : byte.toNat < 256 := byte.toNat_lt
      have low : UInt8.ofNat (byte.toNat + 256 * littleValue rest) = byte := by
        apply UInt8.toNat_inj.mp
        rw [UInt8.toNat_ofNat']
        omega
      have high : (byte.toNat + 256 * littleValue rest) / 256 = littleValue rest := by omega
      rw [List.length_cons, littleValue, littleBytes, low, high, ih]

theorem littleValue_lt (bytes : List UInt8) : littleValue bytes < 256 ^ bytes.length := by
  induction bytes with
  | nil => exact Nat.one_pos
  | cons byte rest ih =>
      have bound : byte.toNat < 256 := byte.toNat_lt
      rw [List.length_cons, littleValue, Nat.pow_succ]
      omega

theorem wireValue_lt (bigEndian : Bool) (bytes : List UInt8) :
    wireValue bigEndian bytes < 256 ^ bytes.length := by
  cases bigEndian with
  | false => exact littleValue_lt bytes
  | true =>
      have reversed := littleValue_lt bytes.reverse
      rwa [List.length_reverse] at reversed

theorem wireBytes_length (bigEndian : Bool) (width value : Nat) :
    (wireBytes bigEndian width value).length = width := by
  cases bigEndian with
  | false => exact littleBytes_length width value
  | true => exact List.length_reverse.trans (littleBytes_length width value)

theorem wireValue_wireBytes (bigEndian : Bool) {width value : Nat} (fits : value < 256 ^ width) :
    wireValue bigEndian (wireBytes bigEndian width value) = value := by
  cases bigEndian with
  | false => exact littleValue_littleBytes fits
  | true =>
      have turned := List.reverse_reverse (littleBytes width value)
      exact (congrArg littleValue turned).trans (littleValue_littleBytes fits)

/-- An integer, adapted and stored by any host, is on the wire in the wanted order. -/
theorem memory_adapteEndian (smallEndian bigEndian : Bool) (width value : Nat) :
    memory smallEndian width (adapteEndian smallEndian width value bigEndian) =
      wireBytes bigEndian width value := by
  have turned := littleBytes_littleValue (littleBytes width value).reverse
  rw [List.length_reverse, littleBytes_length] at turned
  cases smallEndian <;> cases bigEndian <;>
    simp [adapteEndian, changeEndian, fromMemory, memory, wireValue, wireBytes, turned]

/-- A field of the wire, loaded by any host and adapted, has its wire value. -/
theorem adapteEndian_fromMemory (smallEndian bigEndian : Bool) (bytes : List UInt8) :
    adapteEndian smallEndian bytes.length (fromMemory smallEndian bytes) bigEndian =
      wireValue bigEndian bytes := by
  have turned := littleBytes_littleValue bytes.reverse
  rw [List.length_reverse] at turned
  have kept := littleBytes_littleValue bytes
  cases smallEndian <;> cases bigEndian <;>
    simp [adapteEndian, changeEndian, fromMemory, memory, wireValue, wireBytes, turned, kept]

end FysobEngine.Net.Endian
