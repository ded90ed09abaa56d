import Overworld.Proofs.Yaml.TreeNodes
import Overworld.Yaml.Decode
import Mathlib.Tactic.Positivity

/-!
# Values of written nodes

A written text, number or truth value is decoded to itself: the style of a text is chosen so that
nothing else is guessed from it. The entries of a written mapping are those it was written with,
unless one of its keys asks for another mapping's entries.
-/

set_option autoImplicit false

namespace Overworld.Yaml

/-- A decoder gives a value for a node, whatever is known of anchors. -/
def Decoder.Gives {α : Type} (d : Decoder α) (n : Node) (x : α) : Prop := ∀ s, d s n = some (some x)

/-! ## Numbers -/

theorem digit_byte {c : Char} (h : c.isDigit = true) :
    (UInt8.ofNat c.toNat).toNat = c.toNat ∧ Bytes.isDigit (UInt8.ofNat c.toNat) = true := by
  have code := digit_code h
  have byte := Utf8.of_nat_to_nat (n := c.toNat) (by omega)
  refine ⟨byte, ?_⟩
  simp only [Bytes.isDigit, Bool.and_eq_true, decide_eq_true_eq, UInt8.le_iff_toNat_le, byte]
  exact code

theorem le_of_digit_chars (cs : List Char) (acc : Nat) : acc ≤ Nat.ofDigitChars 10 cs acc := by
  rw [Nat.ofDigitChars_eq_ofDigitChars_zero]
  have scaled : acc ≤ 10 ^ cs.length * acc := Nat.le_mul_of_pos_left acc (by positivity)
  omega

/-- Reading the digits of a number, which stays below every bound that its value is below. -/
theorem read_digits {cs : List Char} {acc : Nat} (digits : ∀ c ∈ cs, c.isDigit = true)
    (small : Nat.ofDigitChars 10 cs acc < 0x10000000000000000) :
    Number.readDigits 10 acc (cs.map fun c => UInt8.ofNat c.toNat) =
      .ok (Nat.ofDigitChars 10 cs acc) := by
  induction cs generalizing acc with
  | nil => rfl
  | cons c cs ih =>
    have digit := digits c (by simp)
    obtain ⟨byte, isDigit⟩ := digit_byte digit
    have code := digit_code digit
    have value : Number.digitValue? (UInt8.ofNat c.toNat) = some (c.toNat - 0x30) := by
      rw [Number.digitValue?, if_pos isDigit, byte]
    rw [Nat.ofDigitChars_cons] at small ⊢
    have grows := le_of_digit_chars cs (10 * acc + (c.toNat - '0'.toNat))
    rw [List.map_cons, Number.readDigits, value]
    simp only
    rw [if_pos (by omega), if_pos (by exact Nat.lt_of_le_of_lt grows small),
      ← ih (fun d hd => digits d (by simp [hd])) small]
    rfl

/-- No number but zero begins with the digit zero. -/
theorem to_digits_head {n : Nat} (positive : 0 < n) :
    ∃ c cs, Nat.toDigits 10 n = c :: cs ∧ c ≠ '0' := by
  have nonzero : ∀ d < 10, 0 < d → Nat.digitChar d ≠ '0' := by decide
  induction n using Nat.strongRecOn with
  | ind n ih =>
    by_cases small : n < 10
    · exact ⟨n.digitChar, [], Nat.toDigits_of_lt_base small, nonzero n small positive⟩
    · obtain ⟨c, cs, digits, other⟩ := ih (n / 10) (by omega) (by omega)
      refine ⟨c, cs ++ [(n % 10).digitChar], ?_, other⟩
      rw [Nat.toDigits_of_base_le (by decide) (by omega), digits, List.cons_append]

theorem of_nat_digit {n : Nat} {b : UInt8} (h : b ∈ Bytes.ofNat n) : Bytes.isDigit b = true := by
  obtain ⟨c, hc, rfl⟩ := List.mem_map.mp h
  exact (digit_byte (digit_of_natural hc)).2

theorem digit_byte_ne {b d : UInt8} (h : Bytes.isDigit b = true) (other : Bytes.isDigit d = false) :
    b ≠ d := by
  rintro rfl
  rw [h] at other
  cases other

theorem split_base_other {b : UInt8} (s : Bytes) (h : b ≠ 0x30) :
    Number.splitBase (b :: s) = (10, b :: s) := by
  unfold Number.splitBase
  split
  · rename_i e
    exact absurd (List.cons.inj e).1 h
  · rename_i e
    exact absurd (List.cons.inj e).1 h
  · rfl

theorem read_natural {n : Nat} (small : n < 0x10000000000000000) :
    Number.readNatAnyBase (Bytes.ofNat n) = .ok n := by
  rcases Nat.eq_zero_or_pos n with rfl | positive
  · decide
  · obtain ⟨c, cs, digits, nonzero⟩ := to_digits_head positive
    have digit := digit_of_natural (n := n) (c := c) (by simp [digits])
    have other : UInt8.ofNat c.toNat ≠ 0x30 := by
      intro same
      apply nonzero
      have byte := (digit_byte digit).1
      rw [same] at byte
      rw [← Char.ofNat_toNat c, ← byte]
      rfl
    have noMark : ∀ b ∈ Bytes.ofNat n, b ≠ 0x5F := fun b hb =>
      digit_byte_ne (of_nat_digit hb) (by decide)
    have whole : (Bytes.ofNat n).filter (· != 0x5F) = Bytes.ofNat n := by
      rw [List.filter_eq_self]
      intro b hb
      simpa using noMark b hb
    have noneMarked : (Bytes.ofNat n).contains 0x5F = false := by
      simpa using fun h => noMark 0x5F h rfl
    have base : Number.splitBase (Bytes.ofNat n) = (10, Bytes.ofNat n) := by
      rw [Bytes.ofNat, digits, List.map_cons]
      exact split_base_other _ other
    have value : Number.readDigits 10 0 (Bytes.ofNat n) = .ok n := by
      rw [Bytes.ofNat, read_digits (fun d hd => digit_of_natural hd)]
      · rw [Nat.ofDigitChars_ten_toDigits]
      · rw [Nat.ofDigitChars_ten_toDigits]
        exact small
    have nonempty : (Bytes.ofNat n).isEmpty = false := by simp [Bytes.ofNat, digits]
    simp only [Number.readNatAnyBase, nonempty, Bool.false_eq_true, if_false, base, whole, value,
      noneMarked, Bool.false_and]
    rfl

/-- The integers of 64 bits. -/
def Fits (n : Int) : Prop := -0x8000000000000000 ≤ n ∧ n < 0x8000000000000000

theorem split_sign_digit {b : UInt8} (s : Bytes) (h : Bytes.isDigit b = true) :
    Number.splitSign (b :: s) = (false, b :: s) := by
  unfold Number.splitSign
  split
  · rename_i e
    rw [(List.cons.inj e).1] at h
    exact absurd h (by decide)
  · rename_i e
    rw [(List.cons.inj e).1] at h
    exact absurd h (by decide)
  · rfl

theorem of_nat_cons (n : Nat) : ∃ b s, Bytes.ofNat n = b :: s ∧ Bytes.isDigit b = true := by
  obtain ⟨c, cs, digits⟩ := List.exists_cons_of_ne_nil (@Nat.toDigits_ne_nil n 10)
  refine ⟨UInt8.ofNat c.toNat, cs.map fun c => UInt8.ofNat c.toNat,
    by simp [Bytes.ofNat, digits], ?_⟩
  exact (digit_byte (digit_of_natural (n := n) (by simp [digits]))).2

theorem read_integer {n : Int} (fits : Fits n) : Number.readIntAnyBase (Bytes.ofInt n) = .ok n := by
  obtain ⟨low, high⟩ := fits
  have value : Number.readNatAnyBase (Bytes.ofNat n.natAbs) = .ok n.natAbs :=
    read_natural (by omega)
  by_cases negative : n < 0
  · have sign : Number.splitSign (Bytes.ofInt n) = (true, Bytes.ofNat n.natAbs) := by
      rw [Bytes.ofInt, if_pos negative]
      rfl
    simp only [Number.readIntAnyBase, sign, value]
    have signed : Number.signed true n.natAbs = .ok n := by
      rw [Number.signed, if_pos rfl, if_pos (by omega)]
      congr
      omega
    exact signed
  · obtain ⟨b, s, digits, digit⟩ := of_nat_cons n.natAbs
    have sign : Number.splitSign (Bytes.ofInt n) = (false, Bytes.ofNat n.natAbs) := by
      rw [Bytes.ofInt, if_neg negative, digits, split_sign_digit s digit]
    simp only [Number.readIntAnyBase, sign, value]
    have signed : Number.signed false n.natAbs = .ok n := by
      rw [Number.signed, if_neg (by simp), if_pos (by omega)]
      congr
      omega
    exact signed

/-! ## What is guessed -/

/-- No word that stands for a value begins like an integer. -/
theorem word_of_number {b : UInt8} {s : Bytes} (first : Bytes.isDigit b = true ∨ b = 0x2D)
    (body : ∀ c ∈ (Number.splitSign (b :: s)).2.head?, Bytes.isDigit c = true) :
    Value.word? (b :: s) = none := by
  have heads : ∀ w ∈ Value.spellings "true" ++ Value.spellings "false" ++ Value.spellings "null" ++
      [[0x7E], utf8 ".nan", utf8 ".NaN", utf8 ".NAN"],
      ∀ c ∈ w.head?, Bytes.isDigit c = false ∧ c ≠ 0x2D := by
    decide +kernel
  have other : ∀ w ∈ Value.spellings "true" ++ Value.spellings "false" ++ Value.spellings "null" ++
      [[0x7E], utf8 ".nan", utf8 ".NaN", utf8 ".NAN"], b :: s ≠ w := by
    rintro w hw rfl
    obtain ⟨noDigit, noSign⟩ := heads _ hw b rfl
    rcases first with digit | rfl
    · rw [noDigit] at digit
      cases digit
    · exact noSign rfl
  have infinite : ∀ w ∈ [utf8 ".inf", utf8 ".Inf", utf8 ".INF"],
      (Number.splitSign (b :: s)).2 ≠ w := by
    intro w hw same
    have dot : ∀ w ∈ [utf8 ".inf", utf8 ".Inf", utf8 ".INF"], w.head? = some 0x2E := by decide
    rw [same, dot w hw] at body
    exact absurd (body 0x2E rfl) (by decide)
  have trueWord : b :: s ∉ Value.spellings "true" := fun h => other _ (by simp [h]) rfl
  have falseWord : b :: s ∉ Value.spellings "false" := fun h => other _ (by simp [h]) rfl
  have nullWord : b :: s ∉ Value.spellings "null" := fun h => other _ (by simp [h]) rfl
  have tilde := other [0x7E] (by simp)
  have nan := other (utf8 ".nan") (by simp)
  have nan' := other (utf8 ".NaN") (by simp)
  have nan'' := other (utf8 ".NAN") (by simp)
  have inf := infinite (utf8 ".inf") (by simp)
  have inf' := infinite (utf8 ".Inf") (by simp)
  have inf'' := infinite (utf8 ".INF") (by simp)
  simp [Value.word?, trueWord, falseWord, nullWord, tilde, nan, nan', nan'', inf, inf', inf'']

/-- An integer has no dashes after its first byte, as a date would. -/
theorem accepts_integer (n : Int) : Timestamp.accepts (Bytes.ofInt n) = false := by
  have tail : ∀ b ∈ (Bytes.ofInt n).tail, Bytes.isDigit b = true := by
    unfold Bytes.ofInt
    split
    · exact fun b hb => of_nat_digit hb
    · exact fun b hb => of_nat_digit (List.mem_of_mem_tail hb)
  have noDate : Timestamp.date (Bytes.ofInt n) = none := by
    unfold Timestamp.date
    split
    · rename_i e
      rw [e] at tail
      exact absurd (tail 0x2D (by simp)) (by decide)
    · rfl
  rw [Timestamp.accepts, noDate]

/-- An integer of 64 bits is taken for that integer. -/
theorem guess_integer {n : Int} (fits : Fits n) :
    Value.guess true (Bytes.ofInt n) = .int n := by
  have first : ∃ b s, Bytes.ofInt n = b :: s ∧ (Bytes.isDigit b = true ∨ b = 0x2D) ∧
      ∀ c ∈ (Number.splitSign (b :: s)).2.head?, Bytes.isDigit c = true := by
    obtain ⟨b, s, digits, digit⟩ := of_nat_cons n.natAbs
    by_cases negative : n < 0
    · refine ⟨0x2D, b :: s, by rw [Bytes.ofInt, if_pos negative, digits], .inr rfl, ?_⟩
      rintro _ ⟨⟩
      exact digit
    · refine ⟨b, s, by rw [Bytes.ofInt, if_neg negative, digits], .inl digit, ?_⟩
      rw [split_sign_digit s digit]
      rintro _ ⟨⟩
      exact digit
  obtain ⟨b, s, text, begins, body⟩ := first
  have noWord : Value.word? (Bytes.ofInt n) = none := by
    rw [text]
    exact word_of_number begins body
  have noDot : b ≠ 0x2E := by
    rintro rfl
    exact absurd begins (by decide)
  have numeric : (Bytes.isDigit b || b = 0x2B || b = 0x2D) = true := by
    rcases begins with digit | rfl
    · simp [digit]
    · decide
  have noMark : (Bytes.ofInt n).filter (· != 0x5F) = Bytes.ofInt n := by
    rw [List.filter_eq_self]
    intro d hd
    have other : d ≠ 0x5F := by
      unfold Bytes.ofInt at hd
      split at hd
      · rcases List.mem_cons.mp hd with rfl | hd
        · decide
        · exact digit_byte_ne (of_nat_digit hd) (by decide)
      · exact digit_byte_ne (of_nat_digit hd) (by decide)
    simpa using other
  have number : Value.number (Bytes.ofInt n) = some (.int n) := by
    rw [Value.number, noMark]
    simp only [read_integer fits]
  have noTime := accepts_integer n
  rw [text] at noWord noTime number ⊢
  rw [Value.guess, noWord]
  simp only [noDot, if_false, numeric, if_true, noTime, Bool.and_false, Bool.false_eq_true, number,
    Option.getD_some]

theorem integer_gives {lo hi n : Int} (fits : Fits n) (low : lo ≤ n) (high : n ≤ hi) :
    (Decoder.integer lo hi).Gives (intNode n) n := by
  intro s
  have guess := guess_integer fits
  simp [Decoder.integer, Decoder.scalar, intNode, Scope.enter, Value.ofScalar, guess, low, high]

theorem flag_gives (b : Bool) : Decoder.flag.Gives (treeNode (.flag b)) b := by
  have guess : Value.guess true (Written.flagText b) = .bool b := by
    cases b <;> decide +kernel
  intro s
  simp [Decoder.flag, Decoder.scalar, treeNode, Scope.enter, Value.ofScalar, guess]

/-! ## Texts -/

theorem shape_bare {s : Bytes} (bare : (Written.shape s).encoded = false) :
    Written.shape s = ⟨false, Utf8.chars s⟩ ∧ Utf8.encode (Utf8.chars s) = s := by
  unfold Written.shape at bare ⊢
  by_cases valid : Utf8.isValid s = true
  · rw [if_pos valid]
    exact ⟨rfl, Utf8.encode_chars valid⟩
  · rw [if_neg valid] at bare
    cases bare

/-- The style of a text is such that it is taken for a text. -/
theorem of_scalar_bare {simple : Bool} {sh : Written.Shape} {cs : List Char}
    (bare : sh.encoded = false) (plain : Written.style simple sh = .plain → cs = sh.chars) :
    Value.ofScalar none (Written.style simple sh) (Utf8.encode cs) =
      some (.text (Utf8.encode cs)) := by
  by_cases style : Written.style simple sh = .plain
  · have styled := styled simple sh
    rw [style] at styled
    cases styled with
    | plain _ reads =>
      have guess := (reads_as_text (reads.resolve_left (by simp [bare]))).1
      rw [plain style, style]
      simp [Value.ofScalar, guess]
  · simp [Value.ofScalar, style]

theorem text_gives_bare {s : Bytes} (bare : (Written.shape s).encoded = false) :
    Decoder.text.Gives (textNode s) (Utf8.encode (textBack s)) := by
  have value := @of_scalar_bare false _ (textBack s) bare (by
    intro plain
    simp [textBack, plain])
  intro scope
  simp [Decoder.text, textNode, bare, Scope.enter, value]

theorem key_node_eq {k : Bytes} (h : KeyText k) :
    keyNode k = .scalar none (Written.style (Written.isSimpleKey (Written.shape k))
      (Written.shape k)) k := by
  obtain ⟨shape, encoded⟩ := shape_bare h.bare
  have chars : Utf8.encode (Written.shape k).chars = k := by
    rw [shape]
    exact encoded
  rw [keyNode, chars]

/-- A key is read back as a text, whatever it looks like. -/
theorem key_gives {k : Bytes} (h : KeyText k) : Decoder.text.Gives (keyNode k) k := by
  obtain ⟨shape, encoded⟩ := shape_bare h.bare
  have value := @of_scalar_bare (Written.isSimpleKey (Written.shape k)) _ _ h.bare fun _ => rfl
  have chars : Utf8.encode (Written.shape k).chars = k := by
    rw [shape]
    exact encoded
  rw [chars] at value
  intro scope
  rw [key_node_eq h]
  simp [Decoder.text, Scope.enter, value]

/-! ## Sequences -/

theorem map_m_gives {α : Type} {d : Decoder α} {f : α → Node} {xs : List α}
    (h : ∀ x ∈ xs, d.Gives (f x) x) (s : Scope) :
    (xs.map f).mapM (d s) = some (xs.map some) := by
  induction xs with
  | nil => rfl
  | cons x xs ih =>
    have tail := ih fun y hy => h y (by simp [hy])
    simp [List.mapM_cons, h x (by simp) s, tail]

theorem reduce_option_some {α : Type} (xs : List α) : (xs.map some).reduceOption = xs := by
  induction xs with
  | nil => rfl
  | cons x xs ih => exact congrArg (x :: ·) ih

/-- A row is read item by item. -/
theorem list_gives {α : Type} {d : Decoder α} {f : α → Int} {xs : List α}
    (h : ∀ x ∈ xs, d.Gives (intNode (f x)) x) :
    d.list.Gives (treeNode (.row (xs.map f))) xs := by
  intro s
  have items := map_m_gives (f := fun x => intNode (f x)) h s
  rw [treeNode, List.map_map]
  simp only [Decoder.list, Scope.enter]
  simp only [Option.bind_eq_bind, Option.bind_some, Function.comp_def, items, reduce_option_some]
  rfl

theorem item_nodes_eq (ts : List Tree) : itemNodes ts = ts.map treeNode := by
  induction ts with
  | nil => rfl
  | cons t ts ih => rw [itemNodes, ih, List.map_cons]

/-- So is a sequence. -/
theorem items_give {α : Type} {d : Decoder α} {f : α → Tree} {xs : List α}
    (h : ∀ x ∈ xs, d.Gives (treeNode (f x)) x) :
    d.list.Gives (treeNode (.items (xs.map f))) xs := by
  intro s
  have items := map_m_gives (f := fun x => treeNode (f x)) h s
  rw [treeNode, item_nodes_eq, List.map_map]
  simp only [Decoder.list, Scope.enter]
  simp only [Option.bind_eq_bind, Option.bind_some, Function.comp_def, items, reduce_option_some]
  rfl

/-- A row of the right length is read item by item. -/
theorem fixed_gives {α : Type} {d : Decoder α} {default : α} {f : α → Int} {xs : List α}
    (h : ∀ x ∈ xs, d.Gives (intNode (f x)) x) :
    (d.fixed xs.length default).Gives (treeNode (.row (xs.map f))) xs := by
  intro s
  have items := map_m_gives (f := fun x => intNode (f x)) h s
  rw [treeNode, List.map_map]
  simp only [Decoder.fixed, Scope.enter]
  simp only [Option.bind_eq_bind, Option.bind_some, Function.comp_def, items, reduce_option_some,
    List.length_map, ne_eq, not_true_eq_false, if_false, Nat.sub_self, List.replicate_zero,
    List.append_nil]
  rfl

/-! ## Mappings -/

/-- The key that asks for the entries of another mapping. -/
def mergeKey : Bytes := utf8 "<<"

/-- An entry as it is found in a scope. -/
def entryOf (s : Scope) (e : Bytes × Tree) : Entry := ⟨e.1, s, treeNode e.2, false⟩

theorem is_merge_key {k : Bytes} (h : KeyText k) : (keyNode k).isMerge = decide (k = mergeKey) := by
  rw [key_node_eq h]
  by_cases merge : k = mergeKey
  · subst merge
    have plain : Written.style (Written.isSimpleKey (Written.shape mergeKey))
        (Written.shape mergeKey) = .plain := by
      decide +kernel
    rw [plain]
    rfl
  · have other : k ≠ utf8 "<<" := merge
    simp [Node.isMerge, merge, other]

theorem identity_key {k : Bytes} (h : KeyText k) : Entry.identity (keyNode k) = (0, k) := by
  rw [key_node_eq h]
  rfl

theorem entry_nodes_eq (es : List (Bytes × Tree)) : entryNodes es = es.map entryNode := by
  induction es with
  | nil => rfl
  | cons e es ih => rw [entryNodes, ih, List.map_cons]

theorem distinct_keys {es : List (Bytes × Tree)} (keys : ∀ e ∈ es, KeyText e.1)
    (distinct : (es.map (·.1)).Nodup) : Entry.distinctKeys (entryNodes es) = true := by
  induction es with
  | nil => rfl
  | cons e es ih =>
    obtain ⟨k, t⟩ := e
    rw [List.map_cons, List.nodup_cons] at distinct
    have tail := ih (fun f hf => keys f (by simp [hf])) distinct.2
    have other : ∀ e ∈ entryNodes es, Entry.identity e.1 ≠ (0, k) := by
      intro e he
      rw [entry_nodes_eq] at he
      obtain ⟨⟨j, u⟩, hf, rfl⟩ := List.mem_map.mp he
      rw [entryNode, identity_key (keys (j, u) (by simp [hf]))]
      intro same
      exact distinct.1 (List.mem_map.mpr ⟨(j, u), hf, (Prod.mk.inj same).2⟩)
    rw [entryNodes, entryNode, Entry.distinctKeys, tail, Bool.and_true,
      identity_key (keys (k, t) (by simp)), List.all_eq_true]
    intro e he
    simpa using other e he

theorem own_entries {es : List (Bytes × Tree)} (keys : ∀ e ∈ es, KeyText e.1)
    (noMerge : mergeKey ∉ es.map (·.1)) (s : Scope) :
    Entry.own s false none (entryNodes es) = some (es.map (entryOf s), none) := by
  induction es with
  | nil => rfl
  | cons e es ih =>
    obtain ⟨k, t⟩ := e
    have key := keys (k, t) (by simp)
    have tail := ih (fun f hf => keys f (by simp [hf])) fun h => noMerge (by simp [h])
    have ordinary : (keyNode k).isMerge = false := by
      rw [is_merge_key key]
      simpa using fun h : k = mergeKey => noMerge (by simp [h])
    rw [entryNodes, entryNode, Entry.own, ordinary]
    simp [key_gives key s, tail, entryOf]

theorem find_merge {es : List (Bytes × Tree)} (keys : ∀ e ∈ es, KeyText e.1)
    (noMerge : mergeKey ∉ es.map (·.1)) :
    (entryNodes es).find? (·.1.isMerge) = none := by
  induction es with
  | nil => rfl
  | cons e es ih =>
    obtain ⟨k, t⟩ := e
    have ordinary : (keyNode k).isMerge = false := by
      rw [is_merge_key (keys (k, t) (by simp))]
      simpa using fun h : k = mergeKey => noMerge (by simp [h])
    rw [entryNodes, entryNode, List.find?_cons_of_neg (by simp [ordinary])]
    exact ih (fun f hf => keys f (by simp [hf])) fun h => noMerge (by simp [h])

/-- The entries of a written mapping are those it was written with. -/
theorem entries_of_fields {hides : Bool} {es : List (Bytes × Tree)}
    (keys : ∀ e ∈ es, KeyText e.1) (distinct : (es.map (·.1)).Nodup)
    (noMerge : mergeKey ∉ es.map (·.1)) (s : Scope) :
    entriesOf hides s (treeNode (.fields es)) = some (some (es.map (entryOf s))) := by
  rw [treeNode]
  simp only [entriesOf, Scope.enter, Option.bind_eq_bind, Option.bind_some]
  rw [show mergeDepth = 9999 + 1 from rfl, Entry.collect, distinct_keys keys distinct]
  simp only [Bool.not_true, Bool.false_eq_true, if_false, own_entries keys noMerge s,
    find_merge keys noMerge, Option.bind_eq_bind, Option.bind_some, Option.map_none]
  rfl

/-- The fields of a written record are those it was written with. -/
theorem record_of_fields {names : List Bytes} {es : List (Bytes × Tree)}
    (keys : ∀ e ∈ es, KeyText e.1) (distinct : (es.map (·.1)).Nodup)
    (noMerge : mergeKey ∉ es.map (·.1)) (known : ∀ e ∈ es, e.1 ∈ names) (s : Scope) :
    Decoder.record names s (treeNode (.fields es)) = some (some (es.map (entryOf s))) := by
  have all : (es.map (entryOf s)).filter (fun e => names.contains e.name) = es.map (entryOf s) := by
    rw [List.filter_eq_self]
    intro e he
    obtain ⟨f, hf, rfl⟩ := List.mem_map.mp he
    simpa [entryOf] using known f hf
  have nodup : ((es.map (entryOf s)).map (·.name)).Nodup := by
    rw [List.map_map]
    exact distinct
  simp only [Decoder.record, entries_of_fields keys distinct noMerge s, Option.bind_eq_bind,
    Option.bind_some, all, nodup, if_true]
  rfl

theorem field_present {α : Type} {es : List (Bytes × Tree)} {name : String} {t : Tree}
    {d : Decoder α} {default : α} (distinct : (es.map (·.1)).Nodup)
    (member : (utf8 name, t) ∈ es) (s : Scope) :
    Entry.field (es.map (entryOf s)) name d default = d.orDefault default s (treeNode t) := by
  have found : (es.map (entryOf s)).find? (fun e => e.name == utf8 name) =
      some (entryOf s (utf8 name, t)) := by
    induction es with
    | nil => cases member
    | cons e es ih =>
      rw [List.map_cons, List.nodup_cons] at distinct
      rcases List.mem_cons.mp member with rfl | member
      · rw [List.map_cons, List.find?_cons_of_pos (by simp [entryOf])]
      · have other : e.1 ≠ utf8 name := by
          rintro same
          exact distinct.1 (by rw [same]; exact List.mem_map_of_mem member)
        rw [List.map_cons, List.find?_cons_of_neg (by simpa [entryOf] using other)]
        exact ih distinct.2 member
  rw [Entry.field, found]
  rfl

theorem field_absent {α : Type} {es : List (Bytes × Tree)} {name : String} {d : Decoder α}
    {default : α} (absent : utf8 name ∉ es.map (·.1)) (s : Scope) :
    Entry.field (es.map (entryOf s)) name d default = some default := by
  have missing : (es.map (entryOf s)).find? (fun e => e.name == utf8 name) = none := by
    rw [List.find?_eq_none]
    intro e he same
    obtain ⟨f, hf, rfl⟩ := List.mem_map.mp he
    exact absent (by rw [← eq_of_beq same]; exact List.mem_map_of_mem hf)
  rw [Entry.field, missing]

end Overworld.Yaml
