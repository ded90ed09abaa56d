import Overworld.Zstandard.Frame
import Overworld.Proofs.MessagePack
import Mathlib.Data.Option.Basic

/-!
# Frames that hold their contents as they are

Decoding a frame that was written gives its contents back, of whatever size they are.
-/

set_option autoImplicit false

namespace Overworld.Zstandard

@[simp] theorem bytes_of_length (n v : Nat) : (bytesOf n v).length = n := by
  induction n generalizing v with
  | zero => rfl
  | succ n ih => simp [bytesOf, ih]

theorem little_endian_bytes_of (n v : Nat) : littleEndian (bytesOf n v) = v % 256 ^ n := by
  induction n generalizing v with
  | zero => simp [bytesOf, littleEndian, Nat.mod_one]
  | succ n ih =>
    have tail := ih (v / 256)
    unfold littleEndian at tail ⊢
    rw [bytesOf, List.foldr_cons, tail, MessagePack.byte_to_nat (Nat.mod_lt _ (by decide)),
      Nat.pow_succ, Nat.mul_comm _ 256, Nat.mod_mul]

theorem field_bytes_of {n v : Nat} (h : v < 256 ^ n) (rest : Bytes) :
    Head.field n (bytesOf n v ++ rest) = some (v, rest) := by
  have value := little_endian_bytes_of n v
  rw [Nat.mod_eq_of_lt h] at value
  have taken : (bytesOf n v ++ rest).take n = bytesOf n v := by simp
  have left : (bytesOf n v ++ rest).drop n = rest := by simp
  simp [Head.field, taken, left, value]

/-- What the head of a written frame states. -/
def writtenHead : Head := ⟨maxBlock, none, true⟩

theorem read_plain_head (rest : Bytes) :
    Head.read (plainHead ++ rest) = some (writtenHead, rest) := by
  have descriptor : Head.field 1 (plainHead ++ rest) = some (4, 0x38 :: rest) := by
    simp [Head.field, plainHead, littleEndian]
  have window : Head.field 1 (0x38 :: rest) = some (0x38, rest) := by
    simp [Head.field, littleEndian]
  have absent : Head.field 0 rest = some (0, rest) := by simp [Head.field, littleEndian]
  have size : Head.windowOf 0x38 = maxBlock := by decide
  have small : maxBlock ≤ maxWindow := by decide
  simp [Head.read, descriptor, window, absent, size, small, writtenHead, Nat.testBit, guard]

theorem decode_one_plain (contents : Bytes) (memory : Memory) (out : Array UInt8) (rest : Bytes) :
    decodeOne writtenHead 0 contents.length memory out (contents ++ rest) =
      some (memory, out ++ contents.toArray, rest) := by
  simp [decodeOne]

/-- One block is decoded, and either it is the last or decoding goes on behind it. -/
theorem decode_blocks_step {contents : Bytes} (h : contents.length ≤ maxBlock) (last : Bool)
    (fuel : Nat) (memory : Memory) (out : Array UInt8) (rest : Bytes) :
    decodeBlocks writtenHead (fuel + 1) memory out (plainBlock last contents ++ rest) =
      if last then some (out ++ contents.toArray, rest)
      else decodeBlocks writtenHead fuel memory (out ++ contents.toArray) rest := by
  have small : contents.length * 8 + last.toNat < 256 ^ 3 := by
    have := last.toNat_le
    simp only [maxBlock] at h
    omega
  have size : (contents.length * 8 + last.toNat) / 8 = contents.length := by
    have := last.toNat_le
    omega
  have kind : (contents.length * 8 + last.toNat) / 2 % 4 = 0 := by
    have := last.toNat_le
    omega
  have flag : (contents.length * 8 + last.toNat) % 2 = last.toNat := by
    have := last.toNat_le
    omega
  rw [plainBlock, List.append_assoc, decodeBlocks, field_bytes_of small]
  simp only [Option.bind_eq_bind, Option.bind_some, size, kind, flag,
    decode_one_plain contents memory out rest]
  cases last <;> simp [writtenHead, h, guard]

theorem decode_blocks_plain {n : Nat} {contents : Bytes}
    (h : contents.length ≤ (n + 1) * maxBlock) {fuel : Nat} (enough : n < fuel) (memory : Memory)
    (out : Array UInt8) (rest : Bytes) :
    decodeBlocks writtenHead fuel memory out (plainBlocks n contents ++ rest) =
      some (out ++ contents.toArray, rest) := by
  induction n generalizing contents fuel out with
  | zero =>
    obtain ⟨fuel, rfl⟩ := Nat.exists_eq_add_of_lt enough
    rw [plainBlocks, Nat.zero_add, decode_blocks_step (by omega)]
    rfl
  | succ n ih =>
    obtain ⟨fuel, rfl⟩ : ∃ k, fuel = k + 1 := ⟨fuel - 1, by omega⟩
    have split : contents.take maxBlock ++ contents.drop maxBlock = contents :=
      List.take_append_drop _ _
    have rest_length : (contents.drop maxBlock).length ≤ (n + 1) * maxBlock := by
      rw [List.length_drop]
      have : (n + 1 + 1) * maxBlock = (n + 1) * maxBlock + maxBlock := Nat.succ_mul _ _
      omega
    rw [plainBlocks, List.append_assoc, decode_blocks_step (List.length_take_le ..)]
    rw [if_neg (by decide), ih rest_length (by omega)]
    have joined : (contents.take maxBlock).toArray ++ (contents.drop maxBlock).toArray =
        contents.toArray := by rw [List.append_toArray, split]
    rw [Array.append_assoc, joined]

theorem plain_blocks_length (n : Nat) (contents : Bytes) :
    n < (plainBlocks n contents).length := by
  induction n generalizing contents with
  | zero =>
    simp only [plainBlocks, plainBlock, List.length_append, bytes_of_length]
    omega
  | succ n ih =>
    have tail := ih (contents.drop maxBlock)
    simp only [plainBlocks, plainBlock, List.length_append, bytes_of_length]
    omega

theorem checksum_bound (contents : Bytes) : checksum contents < 256 ^ 4 := by
  unfold checksum
  omega

theorem block_count (n : Nat) : n ≤ ((n - 1) / maxBlock + 1) * maxBlock := by
  have positive : 0 < maxBlock := by decide
  have := Nat.lt_div_mul_add (a := n - 1) positive
  rw [Nat.succ_mul]
  omega

theorem guard_holds {p : Prop} [Decidable p] (h : p) : (guard p : Option Unit) = some () :=
  if_pos h

theorem decode_frame_checked {head : Head} {bytes blocks sum rest : Bytes} {out : Array UInt8}
    (read : Head.read bytes = some (head, blocks)) (unsized : head.size = none)
    (checked : head.checked = true)
    (decoded : decodeBlocks head (blocks.length + 1) Memory.start #[] blocks = some (out, sum))
    (field : Head.field 4 sum = some (checksum out.toList, rest)) :
    decodeFrame bytes = some (out.toList, rest) := by
  have sized : head.size.getD out.size = out.size := by rw [unsized, Option.getD_none]
  simp only [decodeFrame, read, Option.bind_eq_bind, Option.bind_some, decoded,
    guard_holds sized, checked, if_true]
  -- The digest is compared with itself as a name: nothing here may compute it.
  rw [field, Option.bind_some, guard_holds rfl, Option.bind_some]
  rfl

theorem decode_frame_written (contents rest : Bytes) :
    decodeFrame (plainHead ++ (plainBlocks ((contents.length - 1) / maxBlock) contents ++
      (bytesOf 4 (checksum contents) ++ rest))) = some (contents, rest) := by
  have blocks := block_count contents.length
  have long := plain_blocks_length ((contents.length - 1) / maxBlock) contents
  have sum := field_bytes_of (checksum_bound contents) rest
  refine decode_frame_checked (read_plain_head _) rfl rfl ?_ sum
  rw [decode_blocks_plain blocks (by simp only [List.length_append]; omega)]
  rw [Array.empty_append]

theorem decode_frames_one {body contents : Bytes} (h : decodeFrame body = some (contents, [])) :
    decode (frameMark ++ body) = some contents := by
  have notSkip : isSkipMark frameMark = false := by decide
  have marked : (frameMark ++ body).take 4 = frameMark := rfl
  have left : (frameMark ++ body).drop 4 = body := rfl
  have length : (frameMark ++ body).length = (body.length + 3) + 1 := by
    simp [frameMark]
  have nonempty : frameMark ++ body ≠ [] := by simp [frameMark]
  rw [decode, length, decodeFrames, marked, left]
  · simp [notSkip, h, decodeFrames]
  · exact nonempty

/-- Compressing loses nothing. -/
theorem decode_encode (contents : Bytes) : decode (encode contents) = some contents := by
  have frame := decode_frame_written contents []
  rw [List.append_nil] at frame
  rw [encode, List.append_assoc, List.append_assoc]
  exact decode_frames_one frame

end Overworld.Zstandard
