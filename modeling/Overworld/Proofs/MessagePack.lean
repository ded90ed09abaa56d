import Overworld.MessagePack
import Mathlib.Algebra.Group.Nat.Defs
import Mathlib.Data.List.Forall2
import Mathlib.Data.List.Nodup

/-!
# Codecs read what they write

Each codec gives back the value it wrote and leaves what follows it, whatever value it is
read over. Numbers, texts and lists are written in one of several widths. Each width is read
by its own code, so the cases of writing and reading meet at every boundary.
-/

set_option autoImplicit false

namespace Overworld.MessagePack

theorem byte_to_nat {n : Nat} (h : n < 256) : (UInt8.ofNat n).toNat = n :=
  UInt8.toNat_ofNat_of_lt' h

theorem big_endian_succ (w v : Nat) :
    bigEndian (w + 1) v = UInt8.ofNat (v / 256 ^ w % 256) :: bigEndian w v := by
  simp [bigEndian, List.range_succ]

@[simp] theorem big_endian_length (w v : Nat) : (bigEndian w v).length = w := by
  simp [bigEndian]

theorem value_of_foldl (acc : Nat) (bytes : Bytes) :
    bytes.foldl (fun n b => 256 * n + b.toNat) acc = acc * 256 ^ bytes.length + valueOf bytes := by
  induction bytes generalizing acc with
  | nil => simp [valueOf]
  | cons b bytes ih =>
    rw [valueOf, List.foldl_cons, List.foldl_cons, ih, ih (256 * 0 + b.toNat)]
    rw [List.length_cons, Nat.pow_succ]
    grind

theorem value_of_big_endian (w v : Nat) : valueOf (bigEndian w v) = v % 256 ^ w := by
  induction w with
  | zero => simp [bigEndian, valueOf, Nat.mod_one]
  | succ w ih =>
    rw [big_endian_succ, valueOf, List.foldl_cons, value_of_foldl, ih, big_endian_length]
    rw [byte_to_nat (Nat.mod_lt _ (by decide)), Nat.pow_succ, Nat.mod_mul]
    grind

theorem take_bytes_append (s rest : Bytes) : takeBytes s.length (s ++ rest) = some (s, rest) := by
  simp [takeBytes]

theorem natural_big_endian {w v : Nat} (h : v < 256 ^ w) (rest : Bytes) :
    natural w (bigEndian w v ++ rest) = some (v, rest) := by
  have taken := take_bytes_append (bigEndian w v) rest
  rw [big_endian_length] at taken
  have value := value_of_big_endian w v
  rw [Nat.mod_eq_of_lt h] at value
  simp [natural, taken, value]

theorem signed_big_endian {w v : Nat} (h : v < 256 ^ w) (rest : Bytes) :
    signed w (bigEndian w v ++ rest) = some (Int.bmod v (256 ^ w), rest) := by
  rw [signed, natural_big_endian h]
  rfl

/-- The low bytes of a negative number are read back with its sign. -/
theorem signed_low {w : Nat} {n : Int} (lo : -(256 ^ w : Nat) ≤ 2 * n) (hi : n < 0)
    (rest : Bytes) :
    signed w (bigEndian w (n % (256 ^ w : Nat)).toNat ++ rest) = some (n, rest) := by
  have pos : (0 : Int) < (256 ^ w : Nat) := Int.natCast_pos.mpr (Nat.pow_pos (by decide))
  have nonneg := Int.emod_nonneg n (Int.ne_of_gt pos)
  have below := Int.emod_lt_of_pos n pos
  rw [signed_big_endian (by omega), Int.toNat_of_nonneg nonneg, Int.emod_bmod,
    Int.bmod_eq_of_le_mul_two (by omega) (by omega)]

namespace Codec

/-- Whether a codec gives back the values of a class, whatever they are read over and whatever
follows them. -/
def Restores {α : Type} (c : Codec α) (P : α → Prop) : Prop :=
  ∀ x, P x → ∀ old rest, c.read old (c.write x ++ rest) = some (x, rest)

theorem integer_shortest {n : Int} (lo : -0x8000000000000000 ≤ n) (hi : n < 0x10000000000000000)
    (rest : Bytes) : integer (shortest n ++ rest) = some (n, rest) := by
  unfold shortest
  split
  · rename_i nonneg
    obtain ⟨m, rfl⟩ := Int.eq_ofNat_of_zero_le nonneg
    simp only [Int.toNat_natCast]
    split
    · rename_i h
      have code : (UInt8.ofNat m).toNat = m := byte_to_nat (by omega)
      have h0 : UInt8.ofNat m ≠ 0xC0 := fun e => by
        have := congrArg UInt8.toNat e
        simp at this
        omega
      have h1 : UInt8.ofNat m < 0x80 := by
        rw [UInt8.lt_iff_toNat_lt, code]
        exact h
      simp [integer, h0, h1, code]
    · split
      · simp [integer, natural_big_endian (w := 1) (by omega)]
      · split
        · simp [integer, natural_big_endian (w := 2) (by omega)]
        · split
          · simp [integer, natural_big_endian (w := 4) (by omega)]
          · simp [integer, natural_big_endian (w := 8) (v := m) (by omega)]
  · rename_i neg
    simp only [Nat.pow_eq]
    split
    · have code : (UInt8.ofNat (n % (256 ^ 1 : Nat)).toNat).toNat = (n % 256).toNat :=
        byte_to_nat (by omega)
      have h0 : UInt8.ofNat (n % (256 ^ 1 : Nat)).toNat ≠ 0xC0 := fun e => by
        have := congrArg UInt8.toNat e
        rw [code] at this
        simp at this
        omega
      have h1 : ¬ UInt8.ofNat (n % (256 ^ 1 : Nat)).toNat < 0x80 := by
        rw [UInt8.lt_iff_toNat_lt, code]
        simp
        omega
      have h2 : 0xE0 ≤ UInt8.ofNat (n % (256 ^ 1 : Nat)).toNat := by
        rw [UInt8.le_iff_toNat_le, code]
        simp
        omega
      simp only [List.cons_append, List.nil_append, integer, if_neg h0, if_neg h1, if_pos h2, code]
      congr 2
      omega
    · split
      · exact signed_low (w := 1) (by omega) (by omega) rest
      · split
        · exact signed_low (w := 2) (by omega) (by omega) rest
        · split
          · exact signed_low (w := 4) (by omega) (by omega) rest
          · exact signed_low (w := 8) (by omega) (by omega) rest

theorem int16_restores : int16.Restores fun _ => True := by
  intro x _ old rest
  have small : x.toUInt16.toNat < 256 ^ 2 := x.toUInt16.toNat_lt
  have value : Int.bmod x.toUInt16.toNat 65536 = x.toInt :=
    (BitVec.toInt_eq_toNat_bmod x.toBitVec).symm
  simp [int16, integer, signed_big_endian small, value]

theorem int32_restores : int32.Restores fun _ => True := by
  intro x _ old rest
  have small : x.toUInt32.toNat < 256 ^ 4 := x.toUInt32.toNat_lt
  have value : Int.bmod x.toUInt32.toNat 4294967296 = x.toInt :=
    (BitVec.toInt_eq_toNat_bmod x.toBitVec).symm
  simp [int32, integer, signed_big_endian small, value]

theorem uint16_restores : uint16.Restores fun _ => True := by
  intro x _ old rest
  have small : x.toNat < 256 ^ 2 := x.toNat_lt
  have value : ((x.toNat : Int) % 0x10000).toNat = x.toNat := by omega
  simp [uint16, integer, natural_big_endian small, value]

theorem int64_restores : int64.Restores fun _ => True := by
  intro x _ old rest
  have lo := x.le_toInt
  have hi := x.toInt_lt
  simp [int64, integer_shortest (n := x.toInt) (by omega) (by omega)]

/-- Texts and lists whose length can be written. -/
def Countable {α : Type} (s : List α) : Prop := s.length < 0x100000000

instance {α : Type} (s : List α) : Decidable (Countable s) :=
  inferInstanceAs (Decidable (s.length < 0x100000000))

/-- The code of a short text, list or map holds its length, and is not that of nothing. -/
theorem short_code {b n : Nat} (h : b + n < 0xC0) :
    ∃ c : UInt8, UInt8.ofNat (b + n) = c ∧ c.toNat = b + n ∧ c ≠ 0xC0 := by
  have value : (UInt8.ofNat (b + n)).toNat = b + n := byte_to_nat (by omega)
  refine ⟨_, rfl, value, ?_⟩
  intro e
  rw [e] at value
  simp at value
  omega

theorem text_restores : text.Restores Countable := by
  intro s small old rest
  have small : s.length < 0x100000000 := small
  have taken := take_bytes_append s rest
  simp only [text]
  split
  · obtain ⟨c, code, value, ne⟩ := short_code (b := 0xA0) (n := s.length) (by omega)
    have lo : 0xA0 ≤ c := by
      rw [UInt8.le_iff_toNat_le, value]
      simp
    have hi : c ≤ 0xBF := by
      rw [UInt8.le_iff_toNat_le, value]
      simp
      omega
    rw [code]
    simp [MessagePack.text, textLength, ne, lo, hi, value, taken]
  · split
    · simp [MessagePack.text, textLength, natural_big_endian (w := 1) (by omega), taken]
    · split
      · simp [MessagePack.text, textLength, natural_big_endian (w := 2) (by omega), taken]
      · simp [MessagePack.text, textLength, natural_big_endian (w := 4) (v := s.length) (by omega),
          taken]

/-- The head of a list, read as the list codec reads it. -/
theorem list_head_length {n : Nat} (h : n < 0x100000000) (rest : Bytes) :
    ∃ code s, listHead n ++ rest = code :: s ∧ listLength code s = some (some n, rest) := by
  unfold listHead
  split
  · obtain ⟨c, code, value, ne⟩ := short_code (b := 0x90) (n := n) (by omega)
    have lo : 0x90 ≤ c := by
      rw [UInt8.le_iff_toNat_le, value]
      simp
    have hi : c ≤ 0x9F := by
      rw [UInt8.le_iff_toNat_le, value]
      simp
      omega
    rw [code]
    exact ⟨_, _, rfl, by simp [listLength, ne, lo, hi, value]⟩
  · split
    · exact ⟨_, _, rfl, by simp [listLength, natural_big_endian (w := 2) (by omega)]⟩
    · exact ⟨_, _, rfl, by simp [listLength, natural_big_endian (w := 4) (v := n) (by omega)]⟩

section
variable {α σ : Type} {c : Codec α} {P : α → Prop}

theorem read_items_restores (hc : c.Restores P) (zero : α) {xs : List α} (hx : ∀ x ∈ xs, P x)
    (old : List α) (rest : Bytes) :
    readItems c zero xs.length old (xs.flatMap c.write ++ rest) = some (xs, rest) := by
  induction xs generalizing old with
  | nil => rfl
  | cons x xs ih =>
    have first := hc x (hx x (by simp)) (old.headD zero) (xs.flatMap c.write ++ rest)
    have tail := ih (fun y hy => hx y (by simp [hy])) old.tail
    simp only [List.length_cons, readItems, List.flatMap_cons, List.append_assoc, first]
    simp [tail]

/-- A list that is missing, or one that can be counted and whose elements are of a class. -/
def Listed (P : α → Prop) (l : Option (List α)) : Prop :=
  ∀ xs, l = some xs → Countable xs ∧ ∀ x ∈ xs, P x

theorem list_restores (hc : c.Restores P) (zero : α) : (list c zero).Restores (Listed P) := by
  intro l hl old rest
  cases l with
  | none => simp [list, listLength]
  | some xs =>
    obtain ⟨count, hx⟩ := hl xs rfl
    obtain ⟨code, s, head, length⟩ := list_head_length count (xs.flatMap c.write ++ rest)
    have items := read_items_restores hc zero hx (old.getD []) rest
    simp only [list, List.append_assoc, head]
    simp [length, items]

theorem optional_restores (hc : c.Restores P) (zero : α)
    (first : ∀ x rest, (c.write x ++ rest).head? ≠ some 0xC0) :
    (optional c zero).Restores fun x => ∀ y, x = some y → P y := by
  intro x hx old rest
  cases x with
  | none => rfl
  | some y =>
    have body := hc y (hx y rfl) (old.getD zero) rest
    have code := first y rest
    simp only [optional]
    split
    · rename_i e
      rw [e] at code
      simp at code
    · simp [body]

/-- Whether reading a part of a record over any other changes that one as said. -/
def Field.Copies (f : Field σ) (r : σ) (put : σ → σ) : Prop :=
  ∀ old rest, f.read old (f.write r ++ rest) = some (put old, rest)

theorem field_copies (hc : c.Restores P) {key : String} {get : σ → α} {set : σ → α → σ} {r : σ}
    (h : P (get r)) : (Field.of key c get set).Copies r fun old => set old (get r) := by
  intro old rest
  simp [Field.of, hc (get r) h]

theorem read_entries_copies {all fields : List (Field σ)} {r : σ} {puts : List (σ → σ)}
    (keys : (all.map (·.key)).Nodup) (short : ∀ f ∈ all, Countable f.key)
    (sub : ∀ f ∈ fields, f ∈ all) (copies : List.Forall₂ (Field.Copies · r) fields puts)
    (old : σ) (rest : Bytes) :
    readEntries all fields.length old
        (fields.flatMap (fun f => text.write f.key ++ f.write r) ++ rest) =
      some (puts.foldl (fun r put => put r) old, rest) := by
  induction copies generalizing old with
  | nil => rfl
  | @cons f put fields puts hf _ ih =>
    have mem := sub f (by simp)
    have key := text_restores f.key (short f mem) []
    have found : all.find? (fun g => g.key = f.key) = some f := by
      have unique : ∀ g ∈ all, g.key = f.key → g = f := fun g hg e =>
        List.inj_on_of_nodup_map keys hg mem e
      cases e : all.find? (fun g => g.key = f.key) with
      | none => exact absurd (List.find?_eq_none.mp e f mem) (by simp)
      | some g =>
        have hg := List.mem_of_find?_eq_some e
        have same := List.find?_some e
        rw [unique g hg (by simpa using same)]
    have tail := ih (fun g hg => sub g (by simp [hg])) (put old)
    have rewritten : MessagePack.text (text.write f.key ++ (f.write r ++
        (fields.flatMap (fun f => text.write f.key ++ f.write r) ++ rest))) = some (f.key, _) :=
      key _
    simp only [List.length_cons, readEntries, List.flatMap_cons, List.append_assoc, rewritten,
      Option.bind_eq_bind, Option.bind_some, found, hf _ _, tail, List.foldl_cons]

/-- A record of up to fifteen parts is given back, if its parts together make it up. -/
theorem record_restores {zero : σ} {fields : List (Field σ)} {Q : σ → Prop}
    (few : fields.length < 16) (keys : (fields.map (·.key)).Nodup)
    (short : ∀ f ∈ fields, Countable f.key)
    (parts : ∀ r, Q r → ∃ puts, List.Forall₂ (Field.Copies · r) fields puts ∧
      ∀ old, puts.foldl (fun r put => put r) old = r) :
    (record zero fields).Restores Q := by
  intro r hr old rest
  obtain ⟨puts, copies, total⟩ := parts r hr
  have entries := read_entries_copies keys short (fun _ h => h) copies old rest
  obtain ⟨c, code, value, ne⟩ := short_code (b := 0x80) (n := fields.length) (by omega)
  have lo : 0x80 ≤ c := by
    rw [UInt8.le_iff_toNat_le, value]
    simp
  have hi : c ≤ 0x8F := by
    rw [UInt8.le_iff_toNat_le, value]
    simp
    omega
  rw [total old] at entries
  simp only [record, mapHead, if_pos few, code]
  simp [mapLength, ne, lo, hi, value, entries]

end

end Codec

end Overworld.MessagePack
