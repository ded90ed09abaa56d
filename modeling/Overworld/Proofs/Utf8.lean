import Overworld.Text.Utf8
import Mathlib.Tactic.SplitIfs

/-!
# UTF-8 is read as it is written

Encoded characters split into just these characters, and a text in which no byte is stray
is the encoding of its characters.
-/

set_option autoImplicit false

namespace Overworld.Utf8

theorem of_nat_to_nat {n : Nat} (h : n < 256) : (UInt8.ofNat n).toNat = n := by
  simp [Nat.mod_eq_of_lt h]

theorem char_bound (c : Char) : c.toNat < 0xD800 ∨ 0xDFFF < c.toNat ∧ c.toNat < 0x110000 :=
  c.valid

theorem is_tail_iff (b : UInt8) : isTail b = true ↔ 0x80 ≤ b.toNat ∧ b.toNat ≤ 0xBF := by
  simp [isTail, UInt8.le_iff_toNat_le]

/-- What the second byte has to be: a continuing one, within the bounds that four of the leading
bytes set. -/
theorem suits_iff (lead second : UInt8) :
    suits lead second = true ↔
      (0x80 ≤ second.toNat ∧ second.toNat ≤ 0xBF) ∧
        (lead.toNat = 0xE0 → 0xA0 ≤ second.toNat) ∧ (lead.toNat = 0xED → second.toNat ≤ 0x9F) ∧
        (lead.toNat = 0xF0 → 0x90 ≤ second.toNat) ∧ (lead.toNat = 0xF4 → second.toNat ≤ 0x8F) := by
  unfold suits
  simp only [← UInt8.toNat_inj, is_tail_iff, UInt8.le_iff_toNat_le, Bool.and_eq_true,
    decide_eq_true_eq, apply_ite (· = true)]
  simp only [UInt8.reduceToNat]
  split_ifs <;> omega

/-- The four ways in which a character begins. -/
theorem first_eq (b : UInt8) (rest : Bytes) :
    first b rest =
      if b.toNat < 0x80 then some (Char.ofNat b.toNat, 0)
      else if 0xC2 ≤ b.toNat ∧ b.toNat ≤ 0xDF then
        match rest with
        | b₁ :: _ =>
          if isTail b₁ then some (Char.ofNat ((b.toNat % 32) * 64 + tailBits b₁), 1) else none
        | _ => none
      else if 0xE0 ≤ b.toNat ∧ b.toNat ≤ 0xEF then
        match rest with
        | b₁ :: b₂ :: _ =>
          if suits b b₁ && isTail b₂ then
            some (Char.ofNat (((b.toNat % 16) * 64 + tailBits b₁) * 64 + tailBits b₂), 2)
          else none
        | _ => none
      else if 0xF0 ≤ b.toNat ∧ b.toNat ≤ 0xF4 then
        match rest with
        | b₁ :: b₂ :: b₃ :: _ =>
          if suits b b₁ && isTail b₂ && isTail b₃ then
            some (Char.ofNat
              ((((b.toNat % 8) * 64 + tailBits b₁) * 64 + tailBits b₂) * 64 + tailBits b₃), 3)
          else none
        | _ => none
      else none := by
  simp only [first, UInt8.lt_iff_toNat_lt, UInt8.le_iff_toNat_le, Bool.and_eq_true,
    decide_eq_true_eq]
  rfl

theorem first_one {n : Nat} (h : n < 0x80) (rest : Bytes) :
    first (UInt8.ofNat n) rest = some (Char.ofNat n, 0) := by
  rw [first_eq, of_nat_to_nat (by omega), if_pos h]

theorem first_two {n : Nat} (lo : 0x80 ≤ n) (hi : n < 0x800) (rest : Bytes) :
    first (UInt8.ofNat (n / 64 % 0x20 + 0xC0)) (UInt8.ofNat (n % 0x40 + 0x80) :: rest) =
      some (Char.ofNat n, 1) := by
  have lead := of_nat_to_nat (n := n / 64 % 0x20 + 0xC0) (by omega)
  have second := of_nat_to_nat (n := n % 0x40 + 0x80) (by omega)
  have tail := (is_tail_iff (UInt8.ofNat (n % 0x40 + 0x80))).mpr (by omega)
  have value : (n / 64 % 0x20 + 0xC0) % 32 * 64 + (n % 0x40 + 0x80) % 64 = n := by omega
  rw [first_eq, lead, if_neg (by omega), if_pos (by omega)]
  simp only [tail, if_true, tailBits, second, value]

theorem first_three {n : Nat} (lo : 0x800 ≤ n) (hi : n < 0x10000)
    (plane : n < 0xD800 ∨ 0xDFFF < n) (rest : Bytes) :
    first (UInt8.ofNat (n / 4096 % 0x10 + 0xE0))
        (UInt8.ofNat (n / 64 % 0x40 + 0x80) :: UInt8.ofNat (n % 0x40 + 0x80) :: rest) =
      some (Char.ofNat n, 2) := by
  have lead := of_nat_to_nat (n := n / 4096 % 0x10 + 0xE0) (by omega)
  have second := of_nat_to_nat (n := n / 64 % 0x40 + 0x80) (by omega)
  have third := of_nat_to_nat (n := n % 0x40 + 0x80) (by omega)
  have suit := (suits_iff (UInt8.ofNat (n / 4096 % 0x10 + 0xE0))
    (UInt8.ofNat (n / 64 % 0x40 + 0x80))).mpr (by rw [lead, second]; omega)
  have tail := (is_tail_iff (UInt8.ofNat (n % 0x40 + 0x80))).mpr (by omega)
  have value : ((n / 4096 % 0x10 + 0xE0) % 16 * 64 + (n / 64 % 0x40 + 0x80) % 64) * 64 +
      (n % 0x40 + 0x80) % 64 = n := by omega
  rw [first_eq, lead, if_neg (by omega), if_neg (by omega), if_pos (by omega)]
  simp only [suit, tail, Bool.and_self, if_true, tailBits, second, third, value]

theorem first_four {n : Nat} (lo : 0x10000 ≤ n) (hi : n < 0x110000) (rest : Bytes) :
    first (UInt8.ofNat (n / 262144 % 0x08 + 0xF0))
        (UInt8.ofNat (n / 4096 % 0x40 + 0x80) :: UInt8.ofNat (n / 64 % 0x40 + 0x80) ::
          UInt8.ofNat (n % 0x40 + 0x80) :: rest) =
      some (Char.ofNat n, 3) := by
  have lead := of_nat_to_nat (n := n / 262144 % 0x08 + 0xF0) (by omega)
  have second := of_nat_to_nat (n := n / 4096 % 0x40 + 0x80) (by omega)
  have third := of_nat_to_nat (n := n / 64 % 0x40 + 0x80) (by omega)
  have fourth := of_nat_to_nat (n := n % 0x40 + 0x80) (by omega)
  have suit := (suits_iff (UInt8.ofNat (n / 262144 % 0x08 + 0xF0))
    (UInt8.ofNat (n / 4096 % 0x40 + 0x80))).mpr (by rw [lead, second]; omega)
  have tail := (is_tail_iff (UInt8.ofNat (n / 64 % 0x40 + 0x80))).mpr (by omega)
  have tail' := (is_tail_iff (UInt8.ofNat (n % 0x40 + 0x80))).mpr (by omega)
  have value : (((n / 262144 % 0x08 + 0xF0) % 8 * 64 + (n / 4096 % 0x40 + 0x80) % 64) * 64 +
      (n / 64 % 0x40 + 0x80) % 64) * 64 + (n % 0x40 + 0x80) % 64 = n := by omega
  rw [first_eq, lead, if_neg (by omega), if_neg (by omega), if_neg (by omega), if_pos (by omega)]
  simp only [suit, tail, tail', Bool.and_self, if_true, tailBits, second, third, fourth, value]

/-- The bytes of a character are recognised as that character, whatever follows. -/
theorem first_encoded (c : Char) :
    ∃ b tail, String.utf8EncodeChar c = b :: tail ∧
      ∀ rest, first b (tail ++ rest) = some (c, tail.length) := by
  have bound := char_bound c
  have self : Char.ofNat c.toNat = c := Char.ofNat_toNat c
  unfold String.utf8EncodeChar
  simp only [show c.val.toNat = c.toNat from rfl]
  split_ifs with one two three
  · exact ⟨_, _, rfl, fun rest => by rw [first_one (by omega), self]; rfl⟩
  · exact ⟨_, _, rfl, fun rest => by
      rw [List.cons_append, first_two (by omega) (by omega), self]; rfl⟩
  · exact ⟨_, _, rfl, fun rest => by
      rw [List.cons_append, List.cons_append, first_three (by omega) (by omega) (by omega), self]
      rfl⟩
  · exact ⟨_, _, rfl, fun rest => by
      rw [List.cons_append, List.cons_append, List.cons_append,
        first_four (by omega) (by omega), self]
      rfl⟩

theorem pieces_after_append (used rest : Bytes) :
    piecesAfter used.length (used ++ rest) = piecesAfter 0 rest := by
  induction used with
  | nil => rfl
  | cons b used ih => exact ih

theorem pieces_encode_char (c : Char) (rest : Bytes) :
    pieces (String.utf8EncodeChar c ++ rest) = .char c :: pieces rest := by
  obtain ⟨b, tail, bytes, recognised⟩ := first_encoded c
  rw [bytes, List.cons_append, pieces, piecesAfter, recognised]
  simp only [pieces_after_append]
  rfl

/-- Encoded characters split into just these. -/
theorem pieces_encode_append (cs : List Char) (rest : Bytes) :
    pieces (encode cs ++ rest) = cs.map .char ++ pieces rest := by
  induction cs with
  | nil => rfl
  | cons c cs ih =>
    rw [encode, List.flatMap_cons, List.append_assoc, pieces_encode_char]
    rw [encode] at ih
    rw [ih]
    rfl

theorem chars_encode_append (cs : List Char) (rest : Bytes) :
    chars (encode cs ++ rest) = cs ++ chars rest := by
  rw [chars, pieces_encode_append, List.map_append, List.map_map, chars]
  congr 1
  exact List.map_id _

theorem is_valid_encode (cs : List Char) : isValid (encode cs) = true := by
  have whole := pieces_encode_append cs []
  rw [List.append_nil] at whole
  rw [isValid, whole]
  simp [pieces, piecesAfter]

theorem char_of_nat_to_nat {n : Nat} (h : n < 0xD800 ∨ 0xDFFF < n ∧ n < 0x110000) :
    (Char.ofNat n).toNat = n := by
  have valid : n.isValidChar := h
  rw [Char.ofNat, dif_pos valid]
  rfl

/-- The bytes of a character, in terms of its number. -/
theorem encode_char_of_nat {n : Nat} (h : n < 0xD800 ∨ 0xDFFF < n ∧ n < 0x110000) :
    String.utf8EncodeChar (Char.ofNat n) =
      if n ≤ 0x7F then [UInt8.ofNat n]
      else if n ≤ 0x7FF then [UInt8.ofNat (n / 64 % 0x20 + 0xC0), UInt8.ofNat (n % 0x40 + 0x80)]
      else if n ≤ 0xFFFF then
        [UInt8.ofNat (n / 4096 % 0x10 + 0xE0), UInt8.ofNat (n / 64 % 0x40 + 0x80),
          UInt8.ofNat (n % 0x40 + 0x80)]
      else
        [UInt8.ofNat (n / 262144 % 0x08 + 0xF0), UInt8.ofNat (n / 4096 % 0x40 + 0x80),
          UInt8.ofNat (n / 64 % 0x40 + 0x80), UInt8.ofNat (n % 0x40 + 0x80)] := by
  have value : (Char.ofNat n).val.toNat = n := char_of_nat_to_nat h
  simp only [String.utf8EncodeChar, value]

theorem byte_eq_of_nat {b : UInt8} {n : Nat} (h : n = b.toNat) : UInt8.ofNat n = b := by
  subst h
  simp

/-- A character that is recognised is written with just the bytes it was read from. -/
theorem encode_first {b : UInt8} {rest : Bytes} {c : Char} {k : Nat}
    (h : first b rest = some (c, k)) :
    k ≤ rest.length ∧ String.utf8EncodeChar c = b :: rest.take k := by
  have bound := b.toNat_lt
  rw [first_eq] at h
  split_ifs at h with one two three four
  · simp only [Option.some.injEq, Prod.mk.injEq] at h
    obtain ⟨rfl, rfl⟩ := h
    refine ⟨by omega, ?_⟩
    rw [encode_char_of_nat (by omega), if_pos (by omega), byte_eq_of_nat rfl, List.take_zero]
  · match rest with
    | [] => cases h
    | b₁ :: _ =>
      simp only at h
      split_ifs at h with t
      simp only [Option.some.injEq, Prod.mk.injEq] at h
      obtain ⟨rfl, rfl⟩ := h
      rw [is_tail_iff] at t
      unfold tailBits
      generalize number : b.toNat % 32 * 64 + b₁.toNat % 64 = n
      refine ⟨by simp, ?_⟩
      rw [encode_char_of_nat (by omega), if_neg (by omega), if_pos (by omega),
        byte_eq_of_nat (b := b) (by omega), byte_eq_of_nat (b := b₁) (by omega)]
      rfl
  · match rest with
    | [] | [_] => cases h
    | b₁ :: b₂ :: _ =>
      simp only at h
      split_ifs at h with t
      simp only [Option.some.injEq, Prod.mk.injEq] at h
      obtain ⟨rfl, rfl⟩ := h
      simp only [Bool.and_eq_true, is_tail_iff, suits_iff] at t
      unfold tailBits
      generalize number : (b.toNat % 16 * 64 + b₁.toNat % 64) * 64 + b₂.toNat % 64 = n
      refine ⟨by simp, ?_⟩
      rw [encode_char_of_nat (by omega), if_neg (by omega), if_neg (by omega), if_pos (by omega),
        byte_eq_of_nat (b := b) (by omega), byte_eq_of_nat (b := b₁) (by omega),
        byte_eq_of_nat (b := b₂) (by omega)]
      rfl
  · match rest with
    | [] | [_] | [_, _] => cases h
    | b₁ :: b₂ :: b₃ :: _ =>
      simp only at h
      split_ifs at h with t
      simp only [Option.some.injEq, Prod.mk.injEq] at h
      obtain ⟨rfl, rfl⟩ := h
      simp only [Bool.and_eq_true, is_tail_iff, suits_iff] at t
      unfold tailBits
      generalize number :
        ((b.toNat % 8 * 64 + b₁.toNat % 64) * 64 + b₂.toNat % 64) * 64 + b₃.toNat % 64 = n
      refine ⟨by simp, ?_⟩
      rw [encode_char_of_nat (by omega), if_neg (by omega), if_neg (by omega), if_neg (by omega),
        byte_eq_of_nat (b := b) (by omega), byte_eq_of_nat (b := b₁) (by omega),
        byte_eq_of_nat (b := b₂) (by omega), byte_eq_of_nat (b := b₃) (by omega)]
      rfl

theorem encode_pieces (k : Nat) (s : Bytes) (le : k ≤ s.length)
    (valid : ∀ p ∈ piecesAfter k s, ∃ c, p = .char c) :
    encode ((piecesAfter k s).map fun
      | .char c => c
      | .stray _ => replacement) = s.drop k := by
  induction s generalizing k with
  | nil =>
    obtain rfl : k = 0 := by simpa using le
    rfl
  | cons b rest ih =>
    cases k with
    | succ k => exact ih k (by simpa using le) valid
    | zero =>
      rw [piecesAfter] at valid ⊢
      cases f : first b rest with
      | none =>
        rw [f] at valid
        obtain ⟨c, hc⟩ := valid (.stray b) (by simp)
        cases hc
      | some found =>
        obtain ⟨c, k⟩ := found
        obtain ⟨fits, bytes⟩ := encode_first f
        rw [f] at valid
        have tail := ih k fits fun p hp => valid p (by simp [hp])
        simp only [List.map_cons, encode, List.flatMap_cons, bytes] at tail ⊢
        rw [tail, List.cons_append, List.take_append_drop]
        rfl

/-- A text in which no byte is stray is the encoding of its characters. -/
theorem encode_chars {s : Bytes} (valid : isValid s = true) : encode (chars s) = s := by
  refine encode_pieces 0 s (Nat.zero_le _) ?_
  intro p hp
  have ok := List.all_eq_true.mp valid p hp
  cases p with
  | char c => exact ⟨c, rfl⟩
  | stray b => cases ok

end Overworld.Utf8
