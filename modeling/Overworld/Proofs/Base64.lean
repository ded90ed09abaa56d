import Overworld.Proofs.Utf8
import Overworld.Yaml.Tree

/-!
# Base 64 is read back

Every text is read back from its letters, and line breaks between the letters change nothing.
-/

set_option autoImplicit false

namespace Overworld.Base64

/-- A letter of the alphabet or the padding. -/
def IsLetter (b : UInt8) : Prop := (∃ n < 64, b = letter n) ∨ b = 0x3D

theorem value_letter {n : Nat} (h : n < 64) : value? (letter n) = some n := by
  revert n
  decide

theorem letter_not_padding {n : Nat} (h : n < 64) : letter n ≠ 0x3D := by
  revert n
  decide

theorem is_letter_letter {n : Nat} (h : n < 64) : IsLetter (letter n) := .inl ⟨n, h, rfl⟩

theorem letter_bounds {b : UInt8} (h : IsLetter b) : 0x2B ≤ b.toNat ∧ b.toNat ≤ 0x7A := by
  rcases h with ⟨n, small, rfl⟩ | rfl
  · revert n
    decide
  · decide

theorem encode_letters (s : Bytes) : ∀ b ∈ encode s, IsLetter b := by
  have pad : IsLetter 0x3D := .inr rfl
  induction s using encode.induct with
  | case1 => simp [encode]
  | case2 a =>
    have ha := a.toNat_lt
    simp only [encode, List.forall_mem_cons, List.not_mem_nil, false_implies, implies_true,
      and_true]
    exact ⟨is_letter_letter (by omega), is_letter_letter (by omega), pad, pad⟩
  | case3 a b =>
    have ha := a.toNat_lt
    have hb := b.toNat_lt
    simp only [encode, List.forall_mem_cons, List.not_mem_nil, false_implies, implies_true,
      and_true]
    exact ⟨is_letter_letter (by omega), is_letter_letter (by omega), is_letter_letter (by omega),
      pad⟩
  | case4 a b c rest ih =>
    have ha := a.toNat_lt
    have hb := b.toNat_lt
    have hc := c.toNat_lt
    rw [encode]
    simp only [List.forall_mem_cons]
    exact ⟨is_letter_letter (by omega), is_letter_letter (by omega), is_letter_letter (by omega),
      is_letter_letter (by omega), ih⟩

theorem decode_letters_encode (s : Bytes) : decodeLetters (encode s) = some s := by
  induction s using encode.induct with
  | case1 => rfl
  | case2 a =>
    have ha := a.toNat_lt
    rw [encode, decodeLetters, value_letter (by omega), value_letter (by omega)]
    show some [UInt8.ofNat _] = some [a]
    rw [Utf8.byte_eq_of_nat (b := a) (by omega)]
  | case3 a b =>
    have ha := a.toNat_lt
    have hb := b.toNat_lt
    rw [encode, decodeLetters, value_letter (by omega), value_letter (by omega),
      value_letter (by omega)]
    · show some [UInt8.ofNat _, UInt8.ofNat _] = some [a, b]
      rw [Utf8.byte_eq_of_nat (b := a) (by omega), Utf8.byte_eq_of_nat (b := b) (by omega)]
    · exact letter_not_padding (by omega)
  | case4 a b c rest ih =>
    have ha := a.toNat_lt
    have hb := b.toNat_lt
    have hc := c.toNat_lt
    have last : letter (c.toNat % 64) ≠ 0x3D := letter_not_padding (by omega)
    rw [encode, decodeLetters, value_letter (by omega), value_letter (by omega),
      value_letter (by omega), value_letter (by omega), ih]
    · show some (UInt8.ofNat _ :: UInt8.ofNat _ :: UInt8.ofNat _ :: rest) =
        some (a :: b :: c :: rest)
      rw [Utf8.byte_eq_of_nat (b := a) (by omega), Utf8.byte_eq_of_nat (b := b) (by omega),
        Utf8.byte_eq_of_nat (b := c) (by omega)]
    · exact fun _ padding => absurd padding last
    · exact fun padding => absurd padding last

theorem letter_ne {b c : UInt8} (h : IsLetter b) (control : c.toNat < 0x20) : b ≠ c := by
  rintro rfl
  have := (letter_bounds h).1
  omega

/-- Line feeds between the letters change nothing. -/
theorem decode_of_filter {s t : Bytes} (h : t.filter (· != 0x0A) = encode s) :
    decode t = some s := by
  have twice : t.filter (fun b => b != 0x0A && b != 0x0D) =
      (t.filter (· != 0x0A)).filter (· != 0x0D) := by
    rw [List.filter_filter]
    congr 1
    funext b
    exact Bool.and_comm _ _
  have plain : (encode s).filter (· != 0x0D) = encode s := by
    rw [List.filter_eq_self]
    intro b hb
    simpa using letter_ne (c := 0x0D) (encode_letters s b hb) (by decide)
  rw [decode, twice, h, plain, decode_letters_encode]

theorem wrap_lines_filter (width n : Nat) {s : Bytes} (h : ∀ b ∈ s, b ≠ 0x0A) :
    (Yaml.Written.wrapLines width n s).filter (· != 0x0A) = s := by
  induction s generalizing n with
  | nil => cases n <;> rfl
  | cons b s ih =>
    have tail := fun n => ih n fun c hc => h c (by simp [hc])
    have head : (b != 0x0A) = true := by simpa using h b (by simp)
    cases n with
    | zero => simp [Yaml.Written.wrapLines, head, tail]
    | succ n => simp [Yaml.Written.wrapLines, head, tail]

end Overworld.Base64
