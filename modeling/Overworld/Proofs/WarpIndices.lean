import Overworld.Proofs.Utf8
import Overworld.Proofs.Yaml.Decoding
import Overworld.Raw.WarpIndex
import Mathlib.Data.Nat.Digits.Defs

/-!
# Texts that are warp indices

Without quotes an index is a sign, if any, and decimal digits. Double quotes around a text change
nothing: the text between them is read back as it is, or it is no number anyway.
-/

set_option autoImplicit false

namespace Overworld

namespace Number

variable {s ds : Bytes} {b : UInt8} {acc m : Nat} {n : Int} {negative : Bool}

/-! ## What digits denote -/

def decimal (ds : Bytes) : Nat := Nat.ofDigits 10 (ds.reverse.map fun b => b.toNat - 0x30)

structure Digits (ds : Bytes) : Prop where
  some : ds ≠ []
  digit : ∀ b ∈ ds, Bytes.isDigit b = true

/-- A text is a sign, if any, and digits, and denotes the number. -/
inductive Denotes : Bytes → Int → Prop
  | plain {ds : Bytes} : Digits ds → Denotes ds (decimal ds)
  | plus {ds : Bytes} : Digits ds → Denotes (0x2B :: ds) (decimal ds)
  | minus {ds : Bytes} : Digits ds → Denotes (0x2D :: ds) (-(decimal ds : Int))

def shift (acc : Nat) (b : UInt8) : Nat := 10 * acc + (b.toNat - 0x30)

theorem decimal_eq_foldl (ds : Bytes) : decimal ds = ds.foldl shift 0 := by
  rw [decimal, Nat.ofDigits_eq_foldr, List.foldr_map, List.foldr_reverse]
  congr 1
  funext acc b
  exact Nat.add_comm _ _

theorem le_foldl_shift (ds : Bytes) (acc : Nat) : acc ≤ ds.foldl shift acc := by
  induction ds generalizing acc with
  | nil => exact Nat.le_refl acc
  | cons b ds ih =>
    have grows : acc ≤ shift acc b := by
      rw [shift]
      omega
    exact grows.trans (ih _)

theorem digit_value_of_digit (h : Bytes.isDigit b = true) :
    digitValue? b = some (b.toNat - 0x30) ∧ b.toNat - 0x30 < 10 := by
  refine ⟨if_pos h, ?_⟩
  simp only [Bytes.isDigit, Bool.and_eq_true, decide_eq_true_eq, UInt8.le_iff_toNat_le] at h
  have high : b.toNat ≤ 0x39 := h.2
  omega

/-- A letter is no digit of base ten. -/
theorem ten_le_digit_value {d : Nat} (other : Bytes.isDigit b = false)
    (h : digitValue? b = some d) : 10 ≤ d := by
  simp only [digitValue?, other, Bool.false_eq_true, if_false] at h
  split at h
  · rename_i letter
    simp only [Bool.and_eq_true, decide_eq_true_eq, UInt8.le_iff_toNat_le] at letter
    have low : 0x61 ≤ (Bytes.lowerByte b).toNat := letter.1
    have value := Option.some.inj h
    omega
  · cases h

theorem read_digits_eq_ok (small : acc < 0x10000000000000000) : readDigits 10 acc s = .ok m ↔
    (∀ b ∈ s, Bytes.isDigit b = true) ∧ m = s.foldl shift acc ∧ m < 0x10000000000000000 := by
  induction s generalizing acc with
  | nil =>
    simp only [readDigits, Except.ok.injEq, List.foldl_nil]
    constructor
    · rintro rfl
      exact ⟨by simp, rfl, small⟩
    · exact fun h => h.2.1.symm
  | cons b s ih =>
    rw [readDigits, List.forall_mem_cons, List.foldl_cons]
    by_cases digit : Bytes.isDigit b = true
    · obtain ⟨value, low⟩ := digit_value_of_digit digit
      simp only [value, low, if_true, digit, true_and]
      by_cases fits : shift acc b < 0x10000000000000000
      · rw [← ih fits]
        simp only [shift] at fits ⊢
        rw [if_pos fits]
      · -- the value only grows with the digits that follow
        have grows := le_foldl_shift s (shift acc b)
        rw [shift] at fits
        simp only [fits, if_false, reduceCtorEq, false_iff, not_and]
        intro _ same bound
        rw [shift] at grows same
        omega
    · simp only [digit, Bool.false_eq_true, false_and, iff_false]
      cases value : digitValue? b with
      | none => simp
      | some d =>
        have high := ten_le_digit_value (Bool.eq_false_iff.mpr digit) value
        simp [Nat.not_lt.mpr high]

theorem read_nat_eq_ok : readNat 10 s = .ok m ↔
    Digits s ∧ m = decimal s ∧ m < 0x10000000000000000 := by
  rw [readNat, decimal_eq_foldl]
  by_cases none : s = []
  · simp only [none, List.isEmpty_nil, if_true, reduceCtorEq, false_iff, not_and]
    exact fun digits => absurd rfl digits.some
  · rw [if_neg (by simpa using none), read_digits_eq_ok (by decide)]
    exact ⟨fun ⟨digit, rest⟩ => ⟨⟨none, digit⟩, rest⟩, fun ⟨digits, rest⟩ => ⟨digits.digit, rest⟩⟩

theorem signed_eq_ok : signed negative m = .ok n ↔ n = (if negative then -(m : Int) else m) ∧
    -0x8000000000000000 ≤ n ∧ n < 0x8000000000000000 := by
  unfold signed
  cases negative with
  | true =>
    simp only [if_true]
    split
    · simp only [Except.ok.injEq]
      omega
    · simp only [reduceCtorEq, false_iff]
      omega
  | false =>
    simp only [Bool.false_eq_true, if_false]
    split
    · simp only [Except.ok.injEq]
      omega
    · simp only [reduceCtorEq, false_iff]
      omega

theorem split_sign_cases (s : Bytes) : (∃ ds, s = 0x2D :: ds ∧ splitSign s = (true, ds)) ∨
    (∃ ds, s = 0x2B :: ds ∧ splitSign s = (false, ds)) ∨ splitSign s = (false, s) := by
  unfold splitSign
  split
  · exact .inl ⟨_, rfl, rfl⟩
  · exact .inr (.inl ⟨_, rfl, rfl⟩)
  · exact .inr (.inr rfl)

theorem split_sign_digits (h : Digits ds) : splitSign ds = (false, ds) := by
  cases ds with
  | nil => exact absurd rfl h.some
  | cons b ds => exact Yaml.split_sign_digit ds (h.digit b (by simp))

theorem signed_digits_eq_ok : (readNat 10 ds).bind (signed negative) = .ok n ↔ Digits ds ∧
    n = (if negative then -(decimal ds : Int) else decimal ds) ∧
    -0x8000000000000000 ≤ n ∧ n < 0x8000000000000000 := by
  constructor
  · intro h
    cases read : readNat 10 ds with
    | error e =>
      rw [read] at h
      cases h
    | ok m =>
      obtain ⟨digits, rfl, _⟩ := read_nat_eq_ok.mp read
      rw [read] at h
      exact ⟨digits, signed_eq_ok.mp h⟩
  · rintro ⟨digits, value, bounds⟩
    have small : decimal ds < 0x10000000000000000 := by
      cases negative <;> simp only [Bool.false_eq_true, if_false, if_true] at value <;> omega
    rw [read_nat_eq_ok.mpr ⟨digits, rfl, small⟩]
    exact signed_eq_ok.mpr ⟨value, bounds⟩

/-- The texts that are read as 64-bit integers, with their values. -/
theorem read_int_eq_ok : readInt 10 s = .ok n ↔
    Denotes s n ∧ -0x8000000000000000 ≤ n ∧ n < 0x8000000000000000 := by
  have read : readInt 10 s = (readNat 10 (splitSign s).2).bind (signed (splitSign s).1) := rfl
  rw [read, signed_digits_eq_ok]
  constructor
  · rintro ⟨digits, rfl, bounds⟩
    refine ⟨?_, bounds⟩
    rcases split_sign_cases s with ⟨ds, rfl, sign⟩ | ⟨ds, rfl, sign⟩ | sign
    · rw [sign] at digits ⊢
      exact .minus digits
    · rw [sign] at digits ⊢
      exact .plus digits
    · rw [sign] at digits ⊢
      exact .plain digits
  · rintro ⟨denotes, bounds⟩
    cases denotes with
    | plain digits =>
      rw [split_sign_digits digits]
      exact ⟨digits, rfl, bounds⟩
    | plus digits => exact ⟨digits, rfl, bounds⟩
    | minus digits => exact ⟨digits, rfl, bounds⟩

theorem mem_of_denotes (h : Denotes s n) (mem : b ∈ s) :
    Bytes.isDigit b = true ∨ b = 0x2B ∨ b = 0x2D := by
  cases h with
  | plain digits => exact .inl (digits.digit b mem)
  | plus digits =>
    rcases List.mem_cons.mp mem with sign | mem
    · exact .inr (.inl sign)
    · exact .inl (digits.digit b mem)
  | minus digits =>
    rcases List.mem_cons.mp mem with sign | mem
    · exact .inr (.inr sign)
    · exact .inl (digits.digit b mem)

theorem digits_of_nat (k : Nat) : Digits (Bytes.ofNat k) := by
  obtain ⟨b, s, split, _⟩ := Yaml.of_nat_cons k
  exact ⟨by simp [split], fun b mem => Yaml.of_nat_digit mem⟩

theorem foldl_shift_chars {cs : List Char} (digits : ∀ c ∈ cs, c.isDigit = true) (acc : Nat) :
    (cs.map fun c => UInt8.ofNat c.toNat).foldl shift acc = Nat.ofDigitChars 10 cs acc := by
  induction cs generalizing acc with
  | nil => rfl
  | cons c cs ih =>
    obtain ⟨first, rest⟩ := List.forall_mem_cons.mp digits
    rw [List.map_cons, List.foldl_cons, ih rest, Nat.ofDigitChars_cons, shift,
      (Yaml.digit_byte first).1]
    rfl

theorem decimal_of_nat (k : Nat) : decimal (Bytes.ofNat k) = k := by
  have digits : ∀ c ∈ Nat.toDigits 10 k, c.isDigit = true := fun c hc => Yaml.digit_of_natural hc
  rw [decimal_eq_foldl, Bytes.ofNat, foldl_shift_chars digits]
  exact Nat.ofDigitChars_toDigits (by decide) (by decide)

theorem denotes_of_int (n : Int) : Denotes (Bytes.ofInt n) n := by
  have digits := digits_of_nat n.natAbs
  have value := decimal_of_nat n.natAbs
  rw [Bytes.ofInt]
  by_cases negative : n < 0
  · have same : n = -(decimal (Bytes.ofNat n.natAbs) : Int) := by
      rw [value]
      omega
    rw [if_pos negative]
    nth_rewrite 2 [same]
    exact .minus digits
  · have same : n = decimal (Bytes.ofNat n.natAbs) := by
      rw [value]
      omega
    rw [if_neg negative]
    nth_rewrite 2 [same]
    exact .plain digits

end Number

namespace Quoted

variable {s t : Bytes} {b : UInt8} {fuel : Nat}

/-! ## Texts between double quotes -/

/-- No quote of any kind stands in a text, and no escape. -/
def Bare (s : Bytes) : Prop := ∀ b ∈ s, b ≠ 0x22 ∧ b ≠ 0x27 ∧ b ≠ 0x60 ∧ b ≠ 0x5C

def doubled (s : Bytes) : Bytes := 0x22 :: (s ++ [0x22])

theorem unquote_bare (bare : Bare s) : unquote s = none := by
  cases s with
  | nil => rfl
  | cons b s =>
    obtain ⟨double, single, back, _⟩ := bare b (by simp)
    simp [unquote, double, single, back]

theorem next_unit_ascii (low : b < 0x80) (quote : b ≠ 0x22) (slash : b ≠ 0x5C) (feed : b ≠ 0x0A) :
    nextUnit 0x22 (b :: s) = some ([b], s) := by
  simp [nextUnit, quote, slash, feed, Utf8.first, low]

/-- Any other character is read as bytes beyond ASCII. -/
theorem next_unit_high {unit rest : Bytes} (high : ¬ b < 0x80) (slash : b ≠ 0x5C)
    (h : nextUnit 0x22 (b :: s) = some (unit, rest)) : ∃ c ∈ unit, ¬ c < 0x80 := by
  rw [nextUnit] at h
  split at h
  · cases h
  · split at h
    · cases h
      exact ⟨b, by simp, high⟩
    · cases h
      exact ⟨0xEF, by decide, by decide⟩

theorem read_double_ascii (low : ∀ b ∈ s, b < 0x80 ∧ b ≠ 0x0A) (bare : Bare s)
    (enough : s.length < fuel) : readDouble fuel (s ++ [0x22]) = some s := by
  induction s generalizing fuel with
  | nil =>
    obtain ⟨fuel, rfl⟩ := Nat.exists_eq_succ_of_ne_zero (Nat.ne_of_gt enough)
    rfl
  | cons b s ih =>
    obtain ⟨fuel, rfl⟩ := Nat.exists_eq_succ_of_ne_zero (Nat.ne_of_gt (Nat.zero_lt_of_lt enough))
    obtain ⟨⟨first, feed⟩, low⟩ := List.forall_mem_cons.mp low
    obtain ⟨⟨quote, _, _, slash⟩, bare⟩ := List.forall_mem_cons.mp bare
    have more : b :: s ++ [0x22] ≠ [0x22] := by simp
    have rest := ih low bare (Nat.lt_of_succ_lt_succ enough)
    rw [readDouble, if_neg more, List.cons_append, next_unit_ascii first quote slash feed]
    simp [rest]

/-- What is read between the quotes is the text itself if it is ASCII. -/
theorem eq_of_read_double (bare : Bare s) (read : readDouble fuel (s ++ [0x22]) = some t)
    (low : ∀ b ∈ t, b < 0x80) : t = s := by
  induction s generalizing fuel t with
  | nil =>
    cases fuel with
    | zero => cases read
    | succ fuel =>
      cases read
      rfl
  | cons b s ih =>
    cases fuel with
    | zero => cases read
    | succ fuel =>
      obtain ⟨⟨quote, _, _, slash⟩, bare⟩ := List.forall_mem_cons.mp bare
      have more : b :: s ++ [0x22] ≠ [0x22] := by simp
      rw [readDouble, if_neg more, List.cons_append] at read
      simp only [Option.bind_eq_bind, Option.bind_eq_some_iff, Prod.exists, Option.pure_def,
        Option.some.injEq] at read
      obtain ⟨unit, rest, next, tail, later, rfl⟩ := read
      by_cases ascii : b < 0x80
      · by_cases feed : b = 0x0A
        · simp [nextUnit, feed] at next
        · rw [next_unit_ascii ascii quote slash feed] at next
          cases next
          rw [ih bare later fun c hc => low c (by simp [hc])]
          rfl
      · obtain ⟨c, mem, high⟩ := next_unit_high ascii slash next
        exact absurd (low c (List.mem_append_left _ mem)) high

end Quoted

namespace Raw.WarpIndex

open Overworld.Number (Denotes readInt read_int_eq_ok)
open Overworld.Quoted (Bare doubled)

variable {s raw : Bytes} {old : Int64} {n : Int}

/-! ## Indices -/

/-- Reading a text into an index succeeds and makes it this number. -/
def Sets (old : Int64) (raw : Bytes) (n : Int) : Prop :=
  (assign old raw).outcome = .ok () ∧ (assign old raw).value.toInt = n

theorem sets_iff : Sets old raw n ↔ readInt 10 (unquoted raw) = .ok n := by
  rw [Sets, assign, parse]
  cases read : readInt 10 (unquoted raw) with
  | error e => simp
  | ok m =>
    obtain ⟨_, low, high⟩ := read_int_eq_ok.mp read
    have value : (Int64.ofInt m).toInt = m := Int64.toInt_ofInt_of_le low high
    simp [value]

theorem unquoted_bare (bare : Bare s) : unquoted s = s := by
  rw [unquoted, Quoted.unquote_bare bare]
  rfl

theorem ascii_of_denotes (h : Denotes s n) : ∀ b ∈ s, b < 0x80 ∧ b ≠ 0x0A := by
  intro b mem
  rcases Number.mem_of_denotes h mem with digit | rfl | rfl
  · refine ⟨?_, Yaml.digit_byte_ne digit (by decide)⟩
    simp only [Bytes.isDigit, Bool.and_eq_true, decide_eq_true_eq, UInt8.le_iff_toNat_le] at digit
    have high : b.toNat ≤ 0x39 := digit.2
    show b.toNat < 0x80
    omega
  · decide
  · decide

theorem bare_of_denotes (h : Denotes s n) : Bare s := by
  intro b mem
  rcases Number.mem_of_denotes h mem with digit | rfl | rfl
  · have other : ∀ d, Bytes.isDigit d = false → b ≠ d := fun d => Yaml.digit_byte_ne digit
    exact ⟨other _ (by decide), other _ (by decide), other _ (by decide), other _ (by decide)⟩
  · decide
  · decide

theorem read_doubled (bare : Bare s) :
    readInt 10 (unquoted (doubled s)) = .ok n ↔ readInt 10 s = .ok n := by
  constructor
  · intro read
    have denotes := (read_int_eq_ok.mp read).1
    rw [unquoted] at read denotes
    cases inner : Quoted.unquote (doubled s) with
    | none =>
      -- the quote at the beginning is still there
      rw [inner] at denotes
      exact absurd rfl (bare_of_denotes denotes 0x22 (by simp [doubled])).1
    | some t =>
      rw [inner] at read denotes
      have low : ∀ b ∈ t, b < 0x80 := fun b mem => (ascii_of_denotes denotes b mem).1
      rw [← Quoted.eq_of_read_double bare inner low]
      exact read
  · intro read
    have ascii := ascii_of_denotes (read_int_eq_ok.mp read).1
    have inner : Quoted.unquote (doubled s) = some s := by
      apply Quoted.read_double_ascii ascii bare
      simp only [List.length_append, List.length_cons, List.length_nil]
      omega
    rw [unquoted, inner]
    exact read

/-- Without quotes and escapes, an index is read from just the texts that denote a 64-bit integer,
and in double quotes from the same ones. A text that is refused leaves the index as it was. -/
theorem indices_are_signed_decimals (old : Int64) :
    (∀ s, Bare s → (∀ n, Sets old s n ↔
      Denotes s n ∧ -0x8000000000000000 ≤ n ∧ n < 0x8000000000000000) ∧
      ∀ n, Sets old (doubled s) n ↔ Sets old s n) ∧
    (∀ raw cause, (assign old raw).outcome = .error cause → (assign old raw).value = old) ∧
    ∀ n : Int64, Sets old (Bytes.ofInt n.toInt) n.toInt ∧
      Sets old (doubled (Bytes.ofInt n.toInt)) n.toInt := by
  refine ⟨fun s bare => ⟨fun n => ?_, fun n => ?_⟩, fun raw cause failed => ?_, fun n => ?_⟩
  · rw [sets_iff, unquoted_bare bare, read_int_eq_ok]
  · rw [sets_iff, sets_iff, unquoted_bare bare, read_doubled bare]
  · rw [assign] at failed ⊢
    cases read : parse raw with
    | ok m => simp [read] at failed
    | error e => rfl
  · have denotes := Number.denotes_of_int n.toInt
    have bare := bare_of_denotes denotes
    have read : readInt 10 (Bytes.ofInt n.toInt) = .ok n.toInt :=
      read_int_eq_ok.mpr ⟨denotes, n.le_toInt, n.toInt_lt⟩
    rw [sets_iff, sets_iff, unquoted_bare bare, read_doubled bare]
    exact ⟨read, read⟩

theorem padded_and_least_indices :
    Sets 5 (utf8 "+0007") 7 ∧
    Sets 5 (doubled (utf8 "-9223372036854775808")) (-9223372036854775808) ∧
    ¬ Sets 5 (doubled (utf8 "9223372036854775808")) 9223372036854775808 ∧
    (assign 5 (utf8 "9223372036854775808")).value = 5 := by
  have padded : Denotes (utf8 "+0007") 7 := .plus ⟨by decide +kernel, by decide +kernel⟩
  have least : Denotes (utf8 "-9223372036854775808") (-9223372036854775808) :=
    .minus ⟨by decide +kernel, by decide +kernel⟩
  have spec := indices_are_signed_decimals 5
  have beyond : Bare (utf8 "9223372036854775808") := by unfold Bare; decide +kernel
  refine ⟨((spec.1 _ (bare_of_denotes padded)).1 7).mpr ⟨padded, by decide, by decide⟩, ?_, ?_, ?_⟩
  · rw [(spec.1 _ (bare_of_denotes least)).2, (spec.1 _ (bare_of_denotes least)).1]
    exact ⟨least, by decide, by decide⟩
  · rw [(spec.1 _ beyond).2, (spec.1 _ beyond).1]
    exact fun h => absurd h.2.2 (by decide)
  · exact spec.2.1 _ (.warpIndex (utf8 "9223372036854775808") (utf8 "9223372036854775808")
      .outOfRange) (by decide +kernel)

end Raw.WarpIndex

end Overworld
