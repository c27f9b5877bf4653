import FysobEngine.Handler.LengthFieldDecoder

/-!
# Typed values on the wire

What one host appends to a buffer with `append_endian` another one reads with
`peek_index_endian`, `read_endian` or as a length field. The writer adapts an
integer and copies its memory, the reader copies the memory and adapts it.
-/

namespace FysobEngine.Handler.LengthField

open Net Net.Endian

/-- The bytes of a number, the most significant one first. -/
def mostSignificantFirst (width value : Nat) : List UInt8 :=
  (List.range width).map fun i => UInt8.ofNat (value / 256 ^ (width - 1 - i))

theorem wireBytes_big (width value : Nat) :
    wireBytes true width value = mostSignificantFirst width value := by
  apply List.ext_getElem?
  intro i
  have length := littleBytes_length width value
  by_cases inside : i < width
  · have turned : (littleBytes width value).reverse[i]? =
        (littleBytes width value)[width - 1 - i]? := by
      rw [List.getElem?_reverse (by omega), length]
    have digit := littleBytes_getElem? value (show width - 1 - i < width by omega)
    have listed : (mostSignificantFirst width value)[i]? =
        some (UInt8.ofNat (value / 256 ^ (width - 1 - i))) := by
      rw [mostSignificantFirst, List.getElem?_map, List.getElem?_range inside, Option.map_some]
    exact (turned.trans digit).trans listed.symm
  · rw [List.getElem?_eq_none (by rw [wireBytes_length]; omega), List.getElem?_eq_none]
    rw [mostSignificantFirst, List.length_map, List.length_range]
    omega

theorem wireBytes_eq (bigEndian : Bool) (width value : Nat) :
    wireBytes bigEndian width value =
      if bigEndian then mostSignificantFirst width value
      else (mostSignificantFirst width value).reverse := by
  cases bigEndian with
  | true => exact wireBytes_big width value
  | false =>
      have turned := congrArg List.reverse (wireBytes_big width value)
      exact (List.reverse_reverse _).symm.trans turned

/-- One host appends an integer behind `before`, other bytes follow, and another host
reads it. -/
structure Survives (writer reader bigEndian : Bool) (width value : Nat)
    (before behind : List UInt8) : Prop where
  bytes : ∃ field, ByteQueue.appendEndian writer before width value bigEndian = before ++ field ∧
    field.length = width ∧
    field = if bigEndian then mostSignificantFirst width value
      else (mostSignificantFirst width value).reverse
  peeked : ByteQueue.peekIndexEndian reader
    (ByteQueue.appendEndian writer before width value bigEndian ++ behind) before.length width
      bigEndian = some value
  read : ∃ rest, ByteQueue.retrieve
      (ByteQueue.appendEndian writer before width value bigEndian ++ behind) before.length =
        some rest ∧
    ByteQueue.peekEndian reader rest width bigEndian = some (value, rest) ∧
    ByteQueue.readEndian reader rest width bigEndian = some (value, behind)
  lengthField : ∀ cfg : LengthFieldBaseFrameDecoder, cfg.lengthFieldOffset.toNat = before.length →
    cfg.lengthFieldLength.toNat = width → cfg.bigEndian = bigEndian →
    ∃ length, cfg.getUnajustFrameLength reader
        (ByteQueue.appendEndian writer before width value bigEndian ++ behind) = .ok length ∧
      length.toNat = value

theorem wireBytes_drop (bigEndian : Bool) (width value : Nat) (before behind : List UInt8) :
    (((before ++ wireBytes bigEndian width value) ++ behind).drop before.length).take width =
      wireBytes bigEndian width value := by
  rw [List.append_assoc, List.drop_left, List.take_left' (wireBytes_length bigEndian width value)]

variable {width value : Nat}

/-- Typed values survive the wire on any pair of hosts. -/
theorem values_survive (writer reader bigEndian : Bool)
    (supported : width = 1 ∨ width = 2 ∨ width = 4 ∨ width = 8) (fits : value < 256 ^ width)
    (before behind : List UInt8) : Survives writer reader bigEndian width value before behind := by
  have stored := ByteQueue.appendEndian_eq writer bigEndian before width value
  have length := wireBytes_length bigEndian width value
  have whole : before.length + width ≤
      ((before ++ wireBytes bigEndian width value) ++ behind).length := by
    simp only [List.length_append, length]
    omega
  have field := wireBytes_drop bigEndian width value before behind
  constructor
  · exact ⟨_, stored, length, wireBytes_eq bigEndian width value⟩
  · rw [stored, ByteQueue.peekIndexEndian_some reader bigEndian whole, field,
      wireValue_wireBytes bigEndian fits]
  · have front : width ≤ (wireBytes bigEndian width value ++ behind).length := by
      rw [List.length_append]
      omega
    refine ⟨wireBytes bigEndian width value ++ behind, ?_, ?_, ?_⟩
    · rw [stored, ByteQueue.retrieve_some (by omega), List.append_assoc, List.drop_left]
    · rw [ByteQueue.peekEndian_some reader bigEndian front, List.take_left' length,
        wireValue_wireBytes bigEndian fits]
    · rw [ByteQueue.readEndian_some reader bigEndian front, List.take_left' length,
        List.drop_left' length, wireValue_wireBytes bigEndian fits]
  · rintro cfg offset rfl rfl
    rw [← offset] at whole field
    have widest : cfg.lengthFieldLength.toNat ≤ 8 := by omega
    have small : value < 2 ^ 64 :=
      Nat.lt_of_lt_of_le fits (Nat.pow_le_pow_right (by decide) widest)
    refine ⟨UInt64.ofNat value, ?_, ?_⟩
    · rw [stored, cfg.getUnajustFrameLength_supported reader supported,
        cfg.peekField_ok reader whole, LengthFieldBaseFrameDecoder.fieldValue, field,
        wireValue_wireBytes cfg.bigEndian fits]
    · rw [UInt64.toNat_ofNat']
      exact Nat.mod_eq_of_lt small

/-- A 16-bit length, written by a small-endian host and read by a big-endian one. -/
theorem values_survive_length : Survives true false true 2 258 [7] [9] :=
  values_survive true false true (.inr (.inl rfl)) (by decide) [7] [9]

end FysobEngine.Handler.LengthField
