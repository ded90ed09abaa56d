import Overworld.Proofs.Yaml.Decoding
import Overworld.World.Resolution

/-!
# The order of numbered keys

Two keys that differ only in a number are sorted by that number if it fits into a signed word of 64
bits. Entries whose keys can be ranked can be arranged in one way only, so the order in which they
were met does not matter.
-/

set_option autoImplicit false

namespace Overworld.Yaml.KeyOrder

variable {a b c : Char} {as bs cs : List Char} {i j p s : Nat}

/-! ## Runs of digits -/

theorem digit_class (h : c.isDigit = true) :
    CharacterClass.isDigit c = true ∧ CharacterClass.isLetter c = false := by
  have code := digit_code h
  have all : ∀ n < 10, CharacterClass.isDigit (Char.ofNat (0x30 + n)) = true ∧
      CharacterClass.isLetter (Char.ofNat (0x30 + n)) = false := by decide +kernel
  have this := all (c.toNat - 0x30) (by omega)
  rwa [show 0x30 + (c.toNat - 0x30) = c.toNat by omega, Char.ofNat_toNat] at this

theorem digit_run (digits : ∀ c ∈ cs, c.isDigit = true) (acc len : Nat) :
    digitRun (Int64.ofNat acc) len cs =
      (Int64.ofNat (Nat.ofDigitChars 10 cs acc), len + cs.length) := by
  induction cs generalizing acc len with
  | nil => rfl
  | cons c cs ih =>
    have digit := digits c (by simp)
    have code := digit_code digit
    have next : Int64.ofNat acc * 10 + Int64.ofInt ((c.toNat : Int) - 0x30) =
        Int64.ofNat (10 * acc + (c.toNat - '0'.toNat)) := by
      have value : (c.toNat : Int) - 0x30 = ((c.toNat - '0'.toNat : Nat) : Int) := by
        show (c.toNat : Int) - 0x30 = ((c.toNat - 0x30 : Nat) : Int)
        omega
      rw [value, Int64.ofInt_eq_ofNat, Int64.ofNat_add, Int64.ofNat_mul, Int64.mul_comm]
      rfl
    rw [digitRun, if_pos (digit_class digit).1, next, ih fun c mem => digits c (by simp [mem]),
      Nat.ofDigitChars_cons, List.length_cons]
    congr 1
    omega

theorem first_digit (c : Char) (cs : List Char) : Nat.ofDigitChars 10 (c :: cs) 0 =
    10 ^ cs.length * (c.toNat - '0'.toNat) + Nat.ofDigitChars 10 cs 0 := by
  rw [Nat.ofDigitChars_cons, Nat.ofDigitChars_eq_ofDigitChars_zero, Nat.mul_zero, Nat.zero_add]

theorem digits_below (digits : ∀ c ∈ cs, c.isDigit = true) :
    Nat.ofDigitChars 10 cs 0 < 10 ^ cs.length := by
  induction cs with
  | nil => decide
  | cons c cs ih =>
    have code := digit_code (digits c (by simp))
    have rest := ih fun c mem => digits c (by simp [mem])
    have digit : c.toNat - '0'.toNat ≤ 9 := by
      show c.toNat - 0x30 ≤ 9
      omega
    have scaled := Nat.mul_le_mul_left (10 ^ cs.length) digit
    rw [first_digit, List.length_cons, pow_succ]
    omega

theorem digits_above (digit : c.isDigit = true) (nonzero : c ≠ '0') :
    10 ^ cs.length ≤ Nat.ofDigitChars 10 (c :: cs) 0 := by
  have code := digit_code digit
  have positive : 1 ≤ c.toNat - '0'.toNat := by
    have other : c.toNat ≠ 0x30 := fun same => nonzero (Char.toNat_inj.mp same)
    show 1 ≤ c.toNat - 0x30
    omega
  have scaled := Nat.mul_le_mul_left (10 ^ cs.length) positive
  rw [first_digit]
  omega

theorem digits_positive (digits : ∀ c ∈ cs, c.isDigit = true) :
    cs.any (· != '0') = true ↔ 0 < Nat.ofDigitChars 10 cs 0 := by
  induction cs with
  | nil => decide
  | cons c cs ih =>
    have rest := ih fun c mem => digits c (by simp [mem])
    by_cases zero : c = '0'
    · rw [zero, List.any_cons, Nat.ofDigitChars_cons]
      simpa using rest
    · have above := @digits_above c cs (digits c (by simp)) zero
      have positive : 0 < 10 ^ cs.length := by positivity
      have here : (c != '0') = true := by simpa using zero
      rw [List.any_cons, here, Bool.true_or]
      exact iff_of_true rfl (by omega)

/-! ## Digits after a common beginning -/

theorem digits_mono (h : s ≤ p) (cs : List Char) :
    Nat.ofDigitChars 10 cs s ≤ Nat.ofDigitChars 10 cs p := by
  rw [Nat.ofDigitChars_eq_ofDigitChars_zero, @Nat.ofDigitChars_eq_ofDigitChars_zero cs p]
  have scaled := Nat.mul_le_mul_left (10 ^ cs.length) h
  omega

/-- Fewer digits make a smaller number, if what stands before them or the first of the others is
not zero. -/
theorem shorter_less (digitsA : ∀ c ∈ as, c.isDigit = true) (digit : b.isDigit = true)
    (shorter : as.length < (b :: bs).length) (leads : 0 < s ∨ b ≠ '0') :
    Nat.ofDigitChars 10 as s < Nat.ofDigitChars 10 (b :: bs) s := by
  have below := digits_below digitsA
  have power : 10 ^ as.length ≤ 10 ^ bs.length :=
    Nat.pow_le_pow_right (by decide) (by simpa [Nat.lt_succ_iff] using shorter)
  have power' : 10 ^ (b :: bs).length = 10 ^ bs.length * 10 := by rw [List.length_cons, pow_succ]
  rw [Nat.ofDigitChars_eq_ofDigitChars_zero,
    @Nat.ofDigitChars_eq_ofDigitChars_zero (b :: bs) s, power']
  have scaled : 10 ^ as.length * s ≤ 10 ^ bs.length * s := Nat.mul_le_mul_right s power
  have tenfold : 10 ^ bs.length * 10 * s = 10 * (10 ^ bs.length * s) := by ring
  rcases leads with positive | nonzero
  · have once : 10 ^ bs.length ≤ 10 ^ bs.length * s := Nat.le_mul_of_pos_right _ positive
    omega
  · have above := @digits_above b bs digit nonzero
    omega

theorem same_length_less (same : as.length = bs.length) :
    Nat.ofDigitChars 10 as s < Nat.ofDigitChars 10 bs s ↔
      Nat.ofDigitChars 10 as 0 < Nat.ofDigitChars 10 bs 0 := by
  rw [Nat.ofDigitChars_eq_ofDigitChars_zero, @Nat.ofDigitChars_eq_ofDigitChars_zero bs s, same]
  omega

theorem first_digit_less (digitsA : ∀ c ∈ a :: as, c.isDigit = true)
    (same : as.length = bs.length) (less : a.toNat - '0'.toNat < b.toNat - '0'.toNat) :
    Nat.ofDigitChars 10 (a :: as) 0 < Nat.ofDigitChars 10 (b :: bs) 0 := by
  have below := digits_below fun c mem => digitsA c (List.mem_cons_of_mem a mem)
  have scaled := Nat.mul_le_mul_left (10 ^ bs.length) (Nat.succ_le_of_lt less)
  rw [first_digit, first_digit, same]
  rw [same] at below
  rw [Nat.mul_succ] at scaled
  omega

theorem first_digit_ne (digitsA : ∀ c ∈ a :: as, c.isDigit = true)
    (digitsB : ∀ c ∈ b :: bs, c.isDigit = true) (same : as.length = bs.length) (apart : a ≠ b) :
    Nat.ofDigitChars 10 (a :: as) 0 ≠ Nat.ofDigitChars 10 (b :: bs) 0 := by
  have codeA := digit_code (digitsA a (by simp))
  have codeB := digit_code (digitsB b (by simp))
  have digits : a.toNat - '0'.toNat ≠ b.toNat - '0'.toNat := by
    intro equal
    apply apart
    apply Char.toNat_inj.mp
    have equal' : a.toNat - 0x30 = b.toNat - 0x30 := equal
    omega
  rcases Nat.lt_or_gt_of_ne digits with less | less
  · exact (first_digit_less digitsA same less).ne
  · exact (first_digit_less digitsB same.symm less).ne'

/-- Of two runs of digits the longer one has a number before it, or begins with more than zero. -/
def Leads (s : Nat) (as bs : List Char) : Prop :=
  (as.length < bs.length → 0 < s ∨ bs.head? ≠ some '0') ∧
    (bs.length < as.length → 0 < s ∨ as.head? ≠ some '0')

/-- Digits that differ from the first one on compare by their number and then by their value,
whatever stands before them. -/
theorem digits_order (digitsA : ∀ c ∈ a :: as, c.isDigit = true)
    (digitsB : ∀ c ∈ b :: bs, c.isDigit = true) (apart : a ≠ b)
    (leads : Leads s (a :: as) (b :: bs)) :
    Nat.ofDigitChars 10 (a :: as) s ≠ Nat.ofDigitChars 10 (b :: bs) s ∧
      (Nat.ofDigitChars 10 (a :: as) s < Nat.ofDigitChars 10 (b :: bs) s ↔
        as.length < bs.length ∨ as.length = bs.length ∧
          Nat.ofDigitChars 10 (a :: as) 0 < Nat.ofDigitChars 10 (b :: bs) 0) := by
  obtain ⟨leadsB, leadsA⟩ := leads
  have lengths : (a :: as).length < (b :: bs).length ↔ as.length < bs.length := by simp
  have lengths' : (b :: bs).length < (a :: as).length ↔ bs.length < as.length := by simp
  rcases Nat.lt_trichotomy as.length bs.length with shorter | same | longer
  · have less := shorter_less digitsA (digitsB b (by simp)) (lengths.mpr shorter)
      ((leadsB (lengths.mpr shorter)).imp_right fun nonzero zero => nonzero (by rw [zero]; rfl))
    exact ⟨less.ne, iff_of_true less (.inl shorter)⟩
  · have scaled := @same_length_less (a :: as) (b :: bs) s (by simp [same])
    have scaled' := @same_length_less (b :: bs) (a :: as) s (by simp [same])
    have other := first_digit_ne digitsA digitsB same apart
    omega
  · have less := shorter_less digitsB (digitsA a (by simp)) (lengths'.mpr longer)
      ((leadsA (lengths'.mpr longer)).imp_right fun nonzero zero => nonzero (by rw [zero]; rfl))
    omega

/-! ## Comparing numbers -/

/-- The value that a comparison begins with at the first difference. -/
def carried (before : List Char) (a b : Char) : Nat :=
  if (a = '0' || b = '0') && (before.takeWhile CharacterClass.isDigit).any (· != '0') then 1 else 0

theorem first_difference_digits {before : List Char} (digitsA : ∀ c ∈ a :: as, c.isDigit = true)
    (digitsB : ∀ c ∈ b :: bs, c.isDigit = true)
    (smallA : Nat.ofDigitChars 10 (a :: as) (carried before a b) < 9223372036854775808)
    (smallB : Nat.ofDigitChars 10 (b :: bs) (carried before a b) < 9223372036854775808)
    (other : Nat.ofDigitChars 10 (a :: as) (carried before a b) ≠
      Nat.ofDigitChars 10 (b :: bs) (carried before a b)) :
    firstDifference before a as b bs =
      decide (Nat.ofDigitChars 10 (a :: as) (carried before a b) <
        Nat.ofDigitChars 10 (b :: bs) (carried before a b)) := by
  have letterA := (digit_class (digitsA a (by simp))).2
  have letterB := (digit_class (digitsB b (by simp))).2
  have begins : (if (a = '0' || b = '0') &&
      (before.takeWhile CharacterClass.isDigit).any (· != '0') then (1 : Int64) else 0) =
        Int64.ofNat (carried before a b) := by
    unfold carried
    split <;> rfl
  have valueA := Int64.toInt_ofNat_of_lt smallA
  have valueB := Int64.toInt_ofNat_of_lt smallB
  have apart : Int64.ofNat (Nat.ofDigitChars 10 (a :: as) (carried before a b)) ≠
      Int64.ofNat (Nat.ofDigitChars 10 (b :: bs) (carried before a b)) := by
    intro same
    have same' := congrArg Int64.toInt same
    rw [valueA, valueB] at same'
    omega
  unfold firstDifference
  simp only [letterA, letterB, begins, digit_run digitsA, digit_run digitsB, apart, Bool.and_self,
    Bool.or_self, Bool.false_eq_true, if_false, ne_eq, not_false_eq_true, if_true,
    Int64.lt_iff_toInt_lt, valueA, valueB, Nat.cast_lt]

theorem lt_after_append (common before as bs : List Char) :
    ltAfter before (common ++ as) (common ++ bs) = ltAfter (common.reverse ++ before) as bs := by
  induction common generalizing before with
  | nil => rfl
  | cons c common ih =>
    rw [List.cons_append, List.cons_append, ltAfter, if_pos rfl, ih]
    simp

theorem split_common (as bs : List Char) : ∃ common as' bs', as = common ++ as' ∧
    bs = common ++ bs' ∧ (as' = [] ∨ bs' = [] ∨ as'.head? ≠ bs'.head?) := by
  induction as generalizing bs with
  | nil => exact ⟨[], [], bs, rfl, rfl, .inl rfl⟩
  | cons a as ih =>
    cases bs with
    | nil => exact ⟨[], a :: as, [], rfl, rfl, .inr (.inl rfl)⟩
    | cons b bs =>
      by_cases same : a = b
      · obtain ⟨common, as', bs', rfl, rfl, differ⟩ := ih bs
        exact ⟨a :: common, as', bs', rfl, by rw [same]; rfl, differ⟩
      · exact ⟨[], a :: as, b :: bs, rfl, rfl, .inr (.inr (by simpa using same))⟩

/-- A number of more than one digit does not begin with zero. -/
theorem zero_first (h : Nat.toDigits 10 i = '0' :: cs) : cs = [] := by
  rcases Nat.eq_zero_or_pos i with rfl | positive
  · exact (List.cons.inj h).2.symm
  · obtain ⟨c, _, digits, nonzero⟩ := to_digits_head positive
    exact absurd (List.cons.inj (digits.symm.trans h)).1 nonzero

theorem beginning_positive {common : List Char} (used : common ≠ [])
    (h : Nat.toDigits 10 i = common ++ c :: cs) : 0 < Nat.ofDigitChars 10 common 0 := by
  cases common with
  | nil => exact absurd rfl used
  | cons d rest =>
    have nonzero : d ≠ '0' := by
      rintro rfl
      have none := zero_first h
      simp at none
    have digit : d.isDigit = true := digit_of_natural (n := i) (by rw [h]; simp)
    have above := @digits_above d rest digit nonzero
    have positive : 0 < 10 ^ rest.length := by positivity
    omega

theorem numbers_lead {common : List Char} (splitA : Nat.toDigits 10 i = common ++ a :: as)
    (splitB : Nat.toDigits 10 j = common ++ b :: bs) :
    Leads (Nat.ofDigitChars 10 common 0) (a :: as) (b :: bs) := by
  by_cases used : common = []
  · subst used
    constructor
    · intro shorter
      right
      rintro ⟨⟩
      rw [zero_first splitB] at shorter
      simp at shorter
    · intro longer
      right
      rintro ⟨⟩
      rw [zero_first splitA] at longer
      simp at longer
  · have positive := beginning_positive used splitA
    exact ⟨fun _ => .inl positive, fun _ => .inl positive⟩

/-- What a comparison begins with leads as the whole beginning does. -/
theorem carried_leads {common before : List Char} (digits : ∀ c ∈ common, c.isDigit = true)
    (stops : before.head?.any CharacterClass.isDigit = false)
    (leads : Leads (Nat.ofDigitChars 10 common 0) (a :: as) (b :: bs)) :
    carried (common.reverse ++ before) a b ≤ Nat.ofDigitChars 10 common 0 ∧
      Leads (carried (common.reverse ++ before) a b) (a :: as) (b :: bs) := by
  have run : (common.reverse ++ before).takeWhile CharacterClass.isDigit = common.reverse := by
    have none : before.takeWhile CharacterClass.isDigit = [] := by
      cases before with
      | nil => rfl
      | cons c before => exact List.takeWhile_cons_of_neg (by simpa using stops)
    rw [List.takeWhile_append_of_pos, none, List.append_nil]
    intro c mem
    exact (digit_class (digits c (List.mem_reverse.mp mem))).1
  have positive := digits_positive digits
  have value : carried (common.reverse ++ before) a b =
      if (a = '0' ∨ b = '0') ∧ 0 < Nat.ofDigitChars 10 common 0 then 1 else 0 := by
    unfold carried
    rw [run, List.any_reverse]
    simp [positive]
  rw [value]
  split
  · rename_i both
    exact ⟨both.2, fun _ => .inl one_pos, fun _ => .inl one_pos⟩
  · rename_i either
    refine ⟨Nat.zero_le _, ?_, ?_⟩
    · intro shorter
      right
      rintro ⟨⟩
      rcases leads.1 shorter with more | nonzero
      · exact either ⟨.inr rfl, more⟩
      · exact nonzero rfl
    · intro longer
      right
      rintro ⟨⟩
      rcases leads.2 longer with more | nonzero
      · exact either ⟨.inl rfl, more⟩
      · exact nonzero rfl

/-- Digits that no digit stands before compare as their numbers do. -/
theorem lt_after_digits {before : List Char}
    (stops : before.head?.any CharacterClass.isDigit = false) (smallI : i < 9223372036854775808)
    (smallJ : j < 9223372036854775808) :
    ltAfter before (Nat.toDigits 10 i) (Nat.toDigits 10 j) = decide (i < j) := by
  obtain ⟨common, as, bs, splitA, splitB, differ⟩ :=
    split_common (Nat.toDigits 10 i) (Nat.toDigits 10 j)
  have valueI : Nat.ofDigitChars 10 as (Nat.ofDigitChars 10 common 0) = i := by
    rw [← Nat.ofDigitChars_append, ← splitA, Nat.ofDigitChars_toDigits (by decide) (by decide)]
  have valueJ : Nat.ofDigitChars 10 bs (Nat.ofDigitChars 10 common 0) = j := by
    rw [← Nat.ofDigitChars_append, ← splitB, Nat.ofDigitChars_toDigits (by decide) (by decide)]
  have digits : ∀ c ∈ common, c.isDigit = true :=
    fun c mem => digit_of_natural (n := i) (by rw [splitA]; simp [mem])
  have digitsA : ∀ c ∈ as, c.isDigit = true :=
    fun c mem => digit_of_natural (n := i) (by rw [splitA]; simp [mem])
  have digitsB : ∀ c ∈ bs, c.isDigit = true :=
    fun c mem => digit_of_natural (n := j) (by rw [splitB]; simp [mem])
  rw [splitA, splitB, lt_after_append]
  cases as with
  | nil =>
    cases bs with
    | nil =>
      have same : i = j := valueI.symm.trans valueJ
      simp [ltAfter, same]
    | cons b bs =>
      have used : common ≠ [] := by
        rintro rfl
        exact Nat.toDigits_ne_nil splitA
      have less := @shorter_less b [] bs (Nat.ofDigitChars 10 common 0) (by simp)
        (digitsB b (by simp)) (by simp) (.inl (beginning_positive used splitB))
      rw [valueI, valueJ] at less
      simp [ltAfter, less]
  | cons a as =>
    cases bs with
    | nil =>
      have used : common ≠ [] := by
        rintro rfl
        exact Nat.toDigits_ne_nil splitB
      have less := @shorter_less a [] as (Nat.ofDigitChars 10 common 0) (by simp)
        (digitsA a (by simp)) (by simp) (.inl (beginning_positive used splitA))
      rw [valueI, valueJ] at less
      simp [ltAfter, less.le]
    | cons b bs =>
      have apart : a ≠ b := by simpa using differ
      have leads := numbers_lead splitA splitB
      obtain ⟨less, leads'⟩ := carried_leads digits stops leads
      obtain ⟨_, whole⟩ := digits_order digitsA digitsB apart leads
      obtain ⟨other, rest⟩ := digits_order digitsA digitsB apart leads'
      have boundA := digits_mono less (a :: as)
      have boundB := digits_mono less (b :: bs)
      rw [ltAfter, if_neg apart,
        first_difference_digits digitsA digitsB (by omega) (by omega) other]
      rw [valueI, valueJ] at whole
      rw [decide_eq_decide, rest, whole]

theorem utf8_eq_encode (s : String) : utf8 s = Utf8.encode s.toList := by
  have bytes := @String.utf8Encode_toList s
  show s.toByteArray.data.toList = _
  rw [← bytes, List.utf8Encode]
  simp [Utf8.encode]

theorem chars_numbered (kind : String) (i : Nat) :
    Utf8.chars (Resolver.numbered kind i) = (kind.toList ++ ['_']) ++ Nat.toDigits 10 i := by
  have text : Resolver.numbered kind i =
      Utf8.encode ((kind.toList ++ ['_']) ++ Nat.toDigits 10 i) := by
    rw [Resolver.numbered, utf8_eq_encode, of_nat_eq_encode, encode_append, encode_append,
      List.append_assoc]
    rfl
  rw [text, chars_encode]

/-- Numbered keys are sorted by their numbers. -/
theorem lt_numbered (kind : String) (smallI : i < 9223372036854775808)
    (smallJ : j < 9223372036854775808) :
    lt (Resolver.numbered kind i) (Resolver.numbered kind j) = decide (i < j) := by
  have stops : ((kind.toList ++ ['_']).reverse ++ []).head?.any CharacterClass.isDigit = false := by
    simp only [List.reverse_append, List.reverse_singleton, List.cons_append, List.head?_cons]
    decide
  rw [lt, chars_numbered, chars_numbered, lt_after_append]
  exact lt_after_digits stops smallI smallJ

/-! ## Arrangements -/

variable {α : Type} {rank : Bytes → Nat} {es es' : List (Bytes × α)}

/-- No entry sorts before the one in front of it. -/
def Arranged (es : List (Bytes × α)) : Prop := es.IsChain fun x y => lt y.1 x.1 = false

instance (es : List (Bytes × α)) : Decidable (Arranged es) :=
  inferInstanceAs (Decidable (es.IsChain _))

/-- The keys of entries are sorted by ranks, and no two entries have the same rank. -/
structure Ranked (rank : Bytes → Nat) (es : List (Bytes × α)) : Prop where
  sorted : ∀ x ∈ es, ∀ y ∈ es, lt x.1 y.1 = decide (rank x.1 < rank y.1)
  distinct : (es.map fun x => rank x.1).Nodup

theorem Ranked.of_perm (h : Ranked rank es) (perm : es'.Perm es) : Ranked rank es' where
  sorted x hx y hy := h.sorted x (perm.mem_iff.mp hx) y (perm.mem_iff.mp hy)
  distinct := (perm.map _).nodup_iff.mpr h.distinct

theorem Ranked.tail {x : Bytes × α} (h : Ranked rank (x :: es)) : Ranked rank es where
  sorted y hy z hz := h.sorted y (by simp [hy]) z (by simp [hz])
  distinct := (List.nodup_cons.mp h.distinct).2

theorem Ranked.ascending (h : Ranked rank es) (arranged : Arranged es) :
    (es.map fun x => rank x.1).Pairwise (· < ·) := by
  have chain : (es.map fun x => rank x.1).IsChain (· < ·) := by
    induction es with
    | nil => exact .nil
    | cons x es ih =>
      cases es with
      | nil => exact .singleton _
      | cons y es =>
        obtain ⟨here, rest⟩ := List.isChain_cons_cons.mp arranged
        apply List.isChain_cons_cons.mpr
        refine ⟨?_, ih h.tail rest⟩
        have ranks := h.sorted y (by simp) x (by simp)
        have other : rank x.1 ≠ rank y.1 := by
          intro same
          have distinct := (List.nodup_cons.mp h.distinct).1
          exact distinct (by simp [same])
        rw [here] at ranks
        have notLess := of_decide_eq_false ranks.symm
        show rank x.1 < rank y.1
        omega
  exact List.isChain_iff_pairwise.mp chain

theorem Ranked.sort_arranged (h : Ranked rank es) : Arranged (sort es) := by
  have ranks : (sort es).map (fun x => rank x.1) =
      (es.map fun x => rank x.1).mergeSort fun m n => decide (m ≤ n) := by
    apply List.map_mergeSort
    intro x hx y hy
    rw [h.sorted y hy x hx, ← decide_not]
    simp
  have sorted : ((es.map fun x => rank x.1).mergeSort fun m n => decide (m ≤ n)).Pairwise
      fun m n => decide (m ≤ n) = true :=
    List.pairwise_mergeSort (by simp; omega) (by simp; omega) _
  rw [← ranks] at sorted
  apply List.Pairwise.isChain
  apply (List.pairwise_map.mp sorted).imp_of_mem
  intro x y hx hy le
  have perm : (sort es).Perm es := List.mergeSort_perm es _
  rw [h.sorted y (perm.mem_iff.mp hy) x (perm.mem_iff.mp hx)]
  exact decide_eq_false (not_lt.mpr (of_decide_eq_true le))

/-- Entries whose keys have ranks can be arranged in one way only. -/
theorem Ranked.eq_sort (h : Ranked rank es) (perm : es'.Perm es) (arranged : Arranged es') :
    es' = sort es := by
  have perm' : es'.Perm (sort es) := perm.trans (List.mergeSort_perm _ _).symm
  have first := List.pairwise_map.mp ((h.of_perm perm).ascending arranged)
  have second := List.pairwise_map.mp
    ((h.of_perm (List.mergeSort_perm es _)).ascending h.sort_arranged)
  apply perm'.eq_of_pairwise _ first second
  intro x y _ _ less less'
  omega

/-- Two entries change places if the second key sorts before the first. -/
theorem sort_pair (x y : Bytes × α) :
    sort [x, y] = if lt y.1 x.1 then [y, x] else [x, y] := by
  simp only [sort, List.mergeSort, List.MergeSort.Internal.splitInTwo]
  cases turned : lt y.1 x.1 <;> simp [turned]

/-! ## Keys that have ranks -/

theorem ranked_of_names {ι : Type} {name : ι → Bytes} {used : ι → Prop}
    (named : ∀ x ∈ es, ∃ i, used i ∧ x.1 = name i)
    (sorted : ∀ i j, used i → used j →
      lt (name i) (name j) = decide (rank (name i) < rank (name j)))
    (inj : ∀ i j, rank (name i) = rank (name j) → i = j) (distinct : (es.map Prod.fst).Nodup) :
    Ranked rank es := by
  constructor
  · intro x hx y hy
    obtain ⟨i, usedI, keyI⟩ := named x hx
    obtain ⟨j, usedJ, keyJ⟩ := named y hy
    rw [keyI, keyJ, sorted i j usedI usedJ]
  · have keys : (es.map fun x => rank x.1) = (es.map Prod.fst).map rank := by
      rw [List.map_map]
      rfl
    rw [keys]
    apply distinct.map_on
    intro k hk k' hk' same
    obtain ⟨x, hx, rfl⟩ := List.mem_map.mp hk
    obtain ⟨y, hy, rfl⟩ := List.mem_map.mp hk'
    obtain ⟨i, _, keyI⟩ := named x hx
    obtain ⟨j, _, keyJ⟩ := named y hy
    rw [keyI, keyJ] at same
    rw [keyI, keyJ, inj i j same]

/-- The number at the end of a numbered key. -/
def numberAfter (kind : String) (k : Bytes) : Nat :=
  Nat.ofDigitChars 10 ((Utf8.chars k).drop (kind.toList ++ ['_']).length) 0

theorem number_after_numbered (kind : String) (i : Nat) :
    numberAfter kind (Resolver.numbered kind i) = i := by
  rw [numberAfter, chars_numbered, List.drop_left,
    Nat.ofDigitChars_toDigits (by decide) (by decide)]

/-- The keys of entries are numbered, and the numbers fit into a signed word of 64 bits. -/
def Numbered (kind : String) (es : List (Bytes × α)) : Prop :=
  ∀ x ∈ es, ∃ i, i < 9223372036854775808 ∧ x.1 = Resolver.numbered kind i

theorem Numbered.ranked {kind : String} (h : Numbered kind es)
    (distinct : (es.map Prod.fst).Nodup) : Ranked (numberAfter kind) es := by
  apply ranked_of_names h _ _ distinct
  · intro i j smallI smallJ
    rw [lt_numbered kind smallI smallJ, number_after_numbered, number_after_numbered]
  · intro i j same
    rwa [number_after_numbered, number_after_numbered] at same

/-- The numbers of numbered keys ascend. -/
def Ascending (kind : String) (es : List (Bytes × α)) : Prop :=
  ∃ is : List Nat, is.Pairwise (· < ·) ∧ es.map Prod.fst = is.map (Resolver.numbered kind)

theorem Numbered.ascending {kind : String} (h : Numbered kind es)
    (distinct : (es.map Prod.fst).Nodup) (arranged : Arranged es) : Ascending kind es := by
  refine ⟨_, (h.ranked distinct).ascending arranged, ?_⟩
  rw [List.map_map]
  apply List.map_congr_left
  intro x hx
  obtain ⟨i, _, key⟩ := h x hx
  show x.1 = Resolver.numbered kind (numberAfter kind x.1)
  rw [key, number_after_numbered]

/-- The place of a direction's name in the order of keys. -/
def directionRank (k : Bytes) : Nat := ["down", "left", "right", "up"].findIdx fun s => utf8 s = k

theorem lt_direction (d d' : Direction) :
    lt d.name d'.name = decide (directionRank d.name < directionRank d'.name) := by
  cases d <;> cases d' <;> decide

theorem direction_rank_inj (d d' : Direction) :
    directionRank d.name = directionRank d'.name → d = d' := by
  cases d <;> cases d' <;> decide

/-- The keys of entries are names of directions. -/
def Directed (es : List (Bytes × α)) : Prop := ∀ x ∈ es, ∃ d : Direction, x.1 = d.name

theorem Directed.ranked (h : Directed es) (distinct : (es.map Prod.fst).Nodup) :
    Ranked directionRank es := by
  have named : ∀ x ∈ es, ∃ d : Direction, True ∧ x.1 = d.name :=
    fun x hx => (h x hx).imp fun _ key => ⟨trivial, key⟩
  exact ranked_of_names named (fun d d' _ _ => lt_direction d d') direction_rank_inj distinct

end Overworld.Yaml.KeyOrder
