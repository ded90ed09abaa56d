import Overworld.Proofs.Yaml.Literal
import Overworld.Proofs.Yaml.Scanning

/-!
# The characters of what is written

Every piece of a written document is well-formed text of characters that a stream may hold, so a
document splits into the characters of its pieces. A text that is no block is written inline, in
a way that the scanner reads back.
-/

set_option autoImplicit false

namespace Overworld.Yaml

/-- Well-formed text of characters that a stream may hold. -/
def Legal (s : Bytes) : Prop := ∃ cs, s = Utf8.encode cs ∧ ∀ c ∈ cs, isAllowed c = true

theorem legal_nil : Legal [] := ⟨[], rfl, by simp⟩

theorem legal_append {a b : Bytes} (ha : Legal a) (hb : Legal b) : Legal (a ++ b) := by
  obtain ⟨cs, rfl, first⟩ := ha
  obtain ⟨ds, rfl, second⟩ := hb
  refine ⟨cs ++ ds, (encode_append cs ds).symm, ?_⟩
  intro c hc
  rcases List.mem_append.mp hc with hc | hc
  · exact first c hc
  · exact second c hc

theorem chars_encode (cs : List Char) : Utf8.chars (Utf8.encode cs) = cs := by
  have split := Utf8.chars_encode_append cs []
  simpa [show Utf8.chars [] = [] from rfl] using split

theorem chars_append {a : Bytes} (ha : Legal a) (b : Bytes) :
    Utf8.chars (a ++ b) = Utf8.chars a ++ Utf8.chars b := by
  obtain ⟨cs, rfl, _⟩ := ha
  rw [Utf8.chars_encode_append, chars_encode]

theorem chars_of_utf8_encode (cs : List Char) : charsOfUtf8 (Utf8.encode cs) = some cs := by
  have pieces := Utf8.pieces_encode_append cs []
  rw [List.append_nil, show Utf8.pieces [] = [] from rfl, List.append_nil] at pieces
  rw [charsOfUtf8, pieces]
  induction cs with
  | nil => rfl
  | cons c cs ih =>
    have tail := ih (by
      have pieces := Utf8.pieces_encode_append cs []
      simpa [show Utf8.pieces [] = [] from rfl] using pieces)
    simp [List.mapM_cons, tail]

/-- The characters of a stream that does not begin with a byte order mark. -/
theorem characters_legal {s : Bytes} (h : Legal s)
    (noMark : (Utf8.chars s).head? ≠ some byteOrderMark) :
    characters s = some (Utf8.chars s) := by
  obtain ⟨cs, encoded, allowed⟩ := h
  have all : cs.all isAllowed = true := by simpa using allowed
  have pieces : Utf8.pieces s = cs.map .char := by
    have pieces := Utf8.pieces_encode_append cs []
    rwa [List.append_nil, show Utf8.pieces [] = [] from rfl, List.append_nil, ← encoded] at pieces
  have noStray : ∀ b rest, Utf8.pieces s ≠ .stray b :: rest := by
    intro b rest stray
    rw [pieces] at stray
    cases cs <;> cases stray
  have plain : characters s =
      (charsOfUtf8 s).bind fun cs => if cs.all isAllowed then some cs else none := by
    unfold characters
    split
    · exact absurd rfl (noStray _ _)
    · exact absurd rfl (noStray _ _)
    · exact absurd rfl noMark
    · rfl
  rw [plain, encoded, chars_of_utf8_encode, chars_encode, Option.bind_some, if_pos all]

theorem allowed_of_printable {c : Char} (h : Written.isPrintable c = true) :
    isAllowed c = true := by
  simp only [Written.isPrintable, isAllowed, Bool.or_eq_true, Bool.and_eq_true,
    decide_eq_true_eq, bne_iff_ne] at h ⊢
  omega

theorem legal_encode {cs : List Char}
    (h : ∀ c ∈ cs, Written.isPrintable c = true ∨ c = '\t') : Legal (Utf8.encode cs) := by
  refine ⟨cs, rfl, ?_⟩
  intro c hc
  rcases h c hc with printable | rfl
  · exact allowed_of_printable printable
  · decide

theorem visible_char {b : UInt8} (h : Visible b) :
    Written.isPrintable (Char.ofNat b.toNat) = true ∧ isBreak (Char.ofNat b.toNat) = false := by
  have ⟨low, high⟩ := h
  have value := @Utf8.char_of_nat_to_nat b.toNat (by omega)
  have other : ∀ d : Char, d.toNat < 0x20 → Char.ofNat b.toNat ≠ d := by
    rintro d control rfl
    omega
  have feed := other '\n' (by decide)
  have carriage := other '\r' (by decide)
  constructor
  · simp only [Written.isPrintable, value, Bool.or_eq_true, Bool.and_eq_true, decide_eq_true_eq]
    omega
  · simp only [isBreak, feed, carriage, value, decide_false, Bool.false_or, Bool.or_eq_false_iff,
      decide_eq_false_iff_not]
    omega

/-- ASCII bytes that stand for themselves on a line, and line feeds. -/
theorem legal_ascii {s : Bytes} (h : ∀ b ∈ s, Visible b ∨ b = 0x0A) : Legal s := by
  have ascii : ∀ b ∈ s, b.toNat < 0x80 := by
    intro b hb
    rcases h b hb with ⟨_, high⟩ | rfl
    · omega
    · decide
  rw [← encode_ascii_chars ascii]
  apply legal_encode
  intro c hc
  obtain ⟨b, hb, rfl⟩ := List.mem_map.mp hc
  left
  rcases h b hb with visible | rfl
  · exact (visible_char visible).1
  · decide

theorem chars_ascii {s : Bytes} (h : ∀ b ∈ s, b.toNat < 0x80) : Utf8.chars s = asciiChars s := by
  rw [← encode_ascii_chars h, chars_encode, encode_ascii_chars h]

/-! ## Texts -/

/-- What the style of a text says about it. -/
inductive Styled (simple : Bool) (sh : Written.Shape) : Style → Prop
  | plain (h : (Written.features sh.chars).plainAllowed = true)
      (reads : sh.encoded = true ∨ Written.readsAsText (Utf8.encode sh.chars) = true) :
      Styled simple sh .plain
  | single (h : (Written.features sh.chars).singleAllowed = true) (feed : '\n' ∉ sh.chars) :
      Styled simple sh .single
  | double : Styled simple sh .double
  | literal (h : (Written.features sh.chars).literalAllowed = true) (feed : '\n' ∈ sh.chars)
      (value : simple = false) : Styled simple sh .literal

theorem styled (simple : Bool) (sh : Written.Shape) :
    Styled simple sh (Written.style simple sh) := by
  unfold Written.style
  by_cases feed : '\n' ∈ sh.chars
  · have contains : sh.chars.contains '\n' = true := by simpa using feed
    simp only [contains, if_true]
    split
    · rename_i h
      obtain ⟨allowed, value⟩ := Bool.and_eq_true_iff.mp h
      exact .literal allowed feed (by simpa using value)
    · exact .double
  · have contains : sh.chars.contains '\n' = false := by simpa using feed
    simp only [contains, Bool.false_eq_true, if_false]
    by_cases reads : (sh.encoded || Written.readsAsText (Utf8.encode sh.chars)) = true
    · simp only [reads, if_true]
      split
      · rename_i h
        exact .plain h (by simpa using reads)
      · split
        · rename_i h
          exact .single h feed
        · exact .double
    · simp only [reads, Bool.false_eq_true, if_false]
      exact .double

theorem single_text_of_allowed {cs : List Char}
    (h : (Written.features cs).singleAllowed = true) (feed : '\n' ∉ cs) : SingleText cs := by
  simp only [Written.Features.singleAllowed, Written.features, Bool.not_eq_true',
    Bool.or_eq_false_iff] at h
  obtain ⟨⟨⟨breakSpace, spaceBreak⟩, tabs⟩, special⟩ := h
  refine ⟨?_, breakSpace, spaceBreak⟩
  intro c hc
  have noTab : c ≠ '\t' := by
    rintro rfl
    simp [hc] at tabs
  have noFeed : c ≠ '\n' := by
    rintro rfl
    exact feed hc
  refine ⟨?_, noFeed⟩
  simpa [noTab] using List.any_eq_false.mp special c hc

theorem literal_text_of_allowed {cs : List Char}
    (h : (Written.features cs).literalAllowed = true) (feed : '\n' ∈ cs) : LiteralText cs := by
  simp only [Written.Features.literalAllowed, Written.features, Bool.not_eq_true',
    Bool.or_eq_false_iff] at h
  refine ⟨?_, feed⟩
  intro c hc
  have ordinary := List.any_eq_false.mp h.2 c hc
  by_cases tab : c = '\t'
  · exact .inr tab
  · exact .inl (by simpa [tab] using ordinary)

/-- The characters of a text in a style, without a tag. -/
def bodyChars (indent : Nat) (style : Style) (cs : List Char) : List Char :=
  match style with
  | .plain => cs
  | .single => '\'' :: (singleChars indent false cs ++ ['\''])
  | .double => '"' :: (cs.flatMap doubleChars ++ ['"'])
  | _ => '|' :: (headerChars cs ++ literalChars indent true true cs)

theorem scalar_eq_encode (indent : Nat) (simple : Bool) (s : Bytes) :
    Written.scalar indent simple s =
      Written.tagText (Written.shape s) ++
        Utf8.encode (bodyChars indent (Written.style simple (Written.shape s))
          (Written.shape s).chars) := by
  unfold Written.scalar
  generalize Written.shape s = sh
  dsimp only
  congr 1
  cases Written.style simple sh with
  | plain => rfl
  | single =>
    simp only [bodyChars, encode_cons, encode_append, single_body_eq_encode]
    rfl
  | double =>
    simp only [bodyChars, encode_cons, encode_append, double_body_eq_encode]
    rfl
  | literal =>
    simp only [bodyChars, literal_header_eq_encode, literal_body_eq_encode, encode_cons,
      encode_append, List.append_assoc]
  | folded =>
    simp only [bodyChars, literal_header_eq_encode, literal_body_eq_encode, encode_cons,
      encode_append, List.append_assoc]

theorem mem_single_chars {indent : Nat} {fresh : Bool} {cs : List Char} {c : Char}
    (h : c ∈ singleChars indent fresh cs) : c = ' ' ∨ c ∈ cs := by
  induction cs generalizing fresh with
  | nil => exact absurd h (by simp [singleChars])
  | cons d cs ih =>
    rw [singleChars] at h
    split at h
    · rcases List.mem_cons.mp h with rfl | h
      · simp
      · exact (ih h).imp_right (List.mem_cons_of_mem d)
    · rcases List.mem_append.mp h with h | h
      · rcases List.mem_append.mp h with h | h
        · split at h
          · exact .inl (List.eq_of_mem_replicate h)
          · simp at h
        · split at h
          · rename_i quote
            have same : c = '\'' := by simpa using h
            exact .inr (by simp [quote, same])
          · exact .inr (by simp [List.mem_singleton.mp h])
      · exact (ih h).imp_right (List.mem_cons_of_mem d)

theorem mem_literal_chars {indent : Nat} {fresh opened : Bool} {cs : List Char} {c : Char}
    (h : c ∈ literalChars indent fresh opened cs) : c = ' ' ∨ c = '\n' ∨ c ∈ cs := by
  induction cs generalizing fresh opened with
  | nil => exact absurd h (by simp [literalChars])
  | cons d cs ih =>
    rw [literalChars] at h
    split at h
    · rcases List.mem_cons.mp h with rfl | h
      · simp
      · exact (ih h).imp_right (Or.imp_right (List.mem_cons_of_mem d))
    · rcases List.mem_append.mp h with h | h
      · cases fresh with
        | false => exact absurd h (by simp)
        | true =>
          rcases List.mem_append.mp h with h | h
          · cases opened with
            | false => exact absurd h (by simp)
            | true => exact .inr (.inl (List.mem_singleton.mp h))
          · exact .inl (List.eq_of_mem_replicate h)
      · rcases List.mem_cons.mp h with rfl | h
        · simp
        · exact (ih h).imp_right (Or.imp_right (List.mem_cons_of_mem d))

theorem double_chars_printable {c d : Char} (h : d ∈ doubleChars c) :
    Written.isPrintable d = true ∧ isBreak d = false := by
  unfold doubleChars at h
  split at h
  · rcases List.mem_cons.mp h with rfl | h
    · decide
    · obtain ⟨b, hb, rfl⟩ := List.mem_map.mp h
      exact visible_char (escape_visible c b hb)
  · rename_i ordinary
    simp only [Bool.or_eq_true, Bool.not_eq_true', not_or, Bool.not_eq_false,
      Bool.not_eq_true] at ordinary
    rw [List.mem_singleton.mp h]
    exact ordinary.1.1

theorem header_chars_printable {cs : List Char} {c : Char} (h : c ∈ headerChars cs) :
    Written.isPrintable c = true := by
  unfold headerChars at h
  rcases List.mem_append.mp h with h | h
  · split at h
    · rw [List.mem_singleton.mp h]
      decide
    · simp at h
  · cases e : chompingOf cs with
    | strip =>
      rw [e] at h
      rw [List.mem_singleton.mp h]
      decide
    | clip => simp [e, chompChars] at h
    | keep =>
      rw [e] at h
      rw [List.mem_singleton.mp h]
      decide

theorem body_chars_printable {indent : Nat} {simple : Bool} {sh : Written.Shape} {c : Char}
    (h : c ∈ bodyChars indent (Written.style simple sh) sh.chars) :
    Written.isPrintable c = true ∨ c = '\t' := by
  have styled := styled simple sh
  generalize Written.style simple sh = style at h styled
  cases styled with
  | plain allowed reads =>
    have nonempty : sh.chars ≠ [] := List.ne_nil_of_mem h
    exact .inl ((plain_text_of_allowed nonempty allowed).printed c h).2
  | single allowed feed =>
    left
    rcases List.mem_cons.mp h with rfl | h
    · decide
    · rcases List.mem_append.mp h with h | h
      · rcases mem_single_chars h with rfl | h
        · decide
        · exact ((single_text_of_allowed allowed feed).printed c h).1
      · rw [List.mem_singleton.mp h]
        decide
  | double =>
    left
    rcases List.mem_cons.mp h with rfl | h
    · decide
    · rcases List.mem_append.mp h with h | h
      · obtain ⟨d, _, h⟩ := List.mem_flatMap.mp h
        exact (double_chars_printable h).1
      · rw [List.mem_singleton.mp h]
        decide
  | literal allowed feed =>
    rcases List.mem_cons.mp h with rfl | h
    · exact .inl (by decide)
    · rcases List.mem_append.mp h with h | h
      · exact .inl (header_chars_printable h)
      · rcases mem_literal_chars h with rfl | rfl | h
        · exact .inl (by decide)
        · exact .inl (by decide)
        · exact (literal_text_of_allowed allowed feed).printed c h

theorem legal_tag (sh : Written.Shape) : Legal (Written.tagText sh) := by
  unfold Written.tagText
  split
  · exact legal_ascii (by decide)
  · exact legal_nil

/-- A written text is well formed, whatever the text. -/
theorem legal_scalar (indent : Nat) (simple : Bool) (s : Bytes) :
    Legal (Written.scalar indent simple s) := by
  rw [scalar_eq_encode]
  exact legal_append (legal_tag _) (legal_encode fun c => body_chars_printable)

theorem legal_line_end (simple : Bool) (s : Bytes) : Legal (Written.lineEnd simple s) := by
  unfold Written.lineEnd
  dsimp only
  split
  · exact legal_nil
  · exact legal_ascii (by decide)

theorem legal_pad (n : Nat) : Legal (Written.pad n) := by
  apply legal_ascii
  intro b hb
  rw [List.eq_of_mem_replicate hb]
  decide

/-- A text that is no block is written inline. -/
theorem inline_body {indent : Nat} {simple : Bool} {sh : Written.Shape} (indented : 0 < indent)
    (nonempty : Written.style simple sh = .plain → sh.chars ≠ [])
    (inline : Written.style simple sh ≠ .literal) :
    Scanner.Inline (bodyChars indent (Written.style simple sh) sh.chars) sh.chars
      (Written.style simple sh) := by
  have styled := styled simple sh
  generalize Written.style simple sh = style at nonempty inline styled
  cases styled with
  | plain allowed => exact .plain (plain_text_of_allowed (nonempty rfl) allowed)
  | single allowed feed => exact .single (single_text_of_allowed allowed feed) indent indented
  | double => exact .double sh.chars
  | literal => exact absurd rfl inline

theorem word_not_text {s t : Bytes} : Value.word? s ≠ some (.text t) := by
  unfold Value.word?
  repeat' split
  all_goals simp

theorem number_not_text {s t : Bytes} : Value.number s ≠ some (.text t) := by
  unfold Value.number
  dsimp only
  generalize s.filter (· != 0x5F) = plain
  generalize (if Value.isDecimal plain then (Binary64.read plain).toOption else none) = decimal
  cases Number.readIntAnyBase plain with
  | ok n => simp
  | error _ =>
    cases Number.readNatAnyBase plain with
    | ok n => simp
    | error _ =>
      cases decimal with
      | some f => simp
      | none => cases Value.marked 0x62 2 plain <;> simp

/-- What is taken for a text is taken whole, and is not empty. -/
theorem guess_text {times : Bool} {s t : Bytes} (h : Value.guess times s = .text t) :
    t = s ∧ s ≠ [] := by
  unfold Value.guess at h
  split at h
  · rename_i v word
    rw [h] at word
    exact absurd word word_not_text
  · cases s with
    | nil => cases h
    | cons b s =>
      refine ⟨?_, List.cons_ne_nil b s⟩
      dsimp only at h
      split at h
      · split at h
        · cases h
        · exact (Value.text.inj h).symm
      · split at h
        · split at h
          · cases h
          · cases number : Value.number (b :: s) with
            | none =>
              rw [number] at h
              exact (Value.text.inj h).symm
            | some v =>
              rw [number] at h
              exact absurd (number.trans (congrArg some h)) number_not_text
        · exact (Value.text.inj h).symm

theorem reads_as_text {s : Bytes} (h : Written.readsAsText s = true) :
    Value.guess true s = .text s ∧ s ≠ [] := by
  unfold Written.readsAsText at h
  split at h
  · rename_i t guessed
    obtain ⟨rfl, nonempty⟩ := guess_text guessed
    exact ⟨guessed, nonempty⟩
  · cases h

/-- The characters of an inline text that has no breaks stand on one line. -/
theorem inline_row {indent : Nat} {simple : Bool} {sh : Written.Shape}
    (inline : Written.style simple sh ≠ .literal) (row : ∀ c ∈ sh.chars, isBreak c = false) :
    ∀ c ∈ bodyChars indent (Written.style simple sh) sh.chars, isBreak c = false := by
  have styled := styled simple sh
  generalize Written.style simple sh = style at inline styled
  intro c hc
  cases styled with
  | plain => exact row c hc
  | single =>
    rcases List.mem_cons.mp hc with rfl | hc
    · decide
    · rcases List.mem_append.mp hc with hc | hc
      · rcases mem_single_chars hc with rfl | hc
        · decide
        · exact row c hc
      · rw [List.mem_singleton.mp hc]
        decide
  | double =>
    rcases List.mem_cons.mp hc with rfl | hc
    · decide
    · rcases List.mem_append.mp hc with hc | hc
      · obtain ⟨d, _, hc⟩ := List.mem_flatMap.mp hc
        exact (double_chars_printable hc).2
      · rw [List.mem_singleton.mp hc]
        decide
  | literal => exact absurd rfl inline

/-! ## Numbers and truth values -/

/-- The characters of an integer. -/
def intChars (n : Int) : List Char :=
  (if n < 0 then ['-'] else []) ++ Nat.toDigits 10 n.natAbs

theorem digit_code {c : Char} (h : c.isDigit = true) : 0x30 ≤ c.toNat ∧ c.toNat ≤ 0x39 := by
  have codes : 48 ≤ c.val ∧ c.val ≤ 57 := by simpa [Char.isDigit] using h
  exact ⟨UInt32.le_iff_toNat_le.mp codes.1, UInt32.le_iff_toNat_le.mp codes.2⟩

theorem digit_ne {c d : Char} (h : c.isDigit = true) (other : d.toNat < 0x30 ∨ 0x39 < d.toNat) :
    c ≠ d := by
  rintro rfl
  have := digit_code h
  omega

theorem digit_of_natural {n : Nat} {c : Char} (h : c ∈ Nat.toDigits 10 n) : c.isDigit = true :=
  Nat.isDigit_of_mem_toDigits (by decide) (by decide) h

theorem of_nat_eq_encode (n : Nat) : Bytes.ofNat n = Utf8.encode (Nat.toDigits 10 n) := by
  have each : ∀ c ∈ Nat.toDigits 10 n,
      [UInt8.ofNat c.toNat] = String.utf8EncodeChar c := by
    intro c hc
    have code := digit_code (digit_of_natural hc)
    have byte := Utf8.of_nat_to_nat (n := c.toNat) (by omega)
    have visible := @encode_char_visible (UInt8.ofNat c.toNat) (by omega)
    rw [byte, Char.ofNat_toNat] at visible
    exact visible.symm
  unfold Bytes.ofNat Utf8.encode
  generalize Nat.toDigits 10 n = digits at each
  induction digits with
  | nil => rfl
  | cons c digits ih =>
    rw [List.map_cons, List.flatMap_cons, ← each c (by simp),
      ih fun d hd => each d (by simp [hd])]
    rfl

theorem of_int_eq_encode (n : Int) : Bytes.ofInt n = Utf8.encode (intChars n) := by
  unfold Bytes.ofInt intChars
  rw [of_nat_eq_encode]
  split
  · rw [encode_append]
    rfl
  · rfl

theorem int_chars_cases {n : Int} {c : Char} (h : c ∈ intChars n) :
    c = '-' ∨ c.isDigit = true := by
  unfold intChars at h
  rcases List.mem_append.mp h with h | h
  · split at h
    · exact .inl (List.mem_singleton.mp h)
    · simp at h
  · exact .inr (digit_of_natural h)

theorem plainest_digit {c : Char} (h : c = '-' ∨ c.isDigit = true) :
    Plainest c ∧ Written.isPrintable c = true ∧ c ≠ '#' := by
  rcases h with rfl | h
  · exact ⟨⟨by decide, by decide, by decide, by decide⟩, by decide, by decide⟩
  · have code := digit_code h
    have other : ∀ d : Char, d.toNat < 0x30 ∨ 0x39 < d.toNat → c ≠ d := fun d => digit_ne h
    have noBreak : isBreak c = false := by
      simp only [isBreak, other '\n' (by decide), other '\r' (by decide), decide_false,
        Bool.false_or, Bool.or_eq_false_iff, decide_eq_false_iff_not]
      omega
    have noBlank : isBlank c = false :=
      not_blank_of_ne (other ' ' (by decide)) (other '\t' (by decide))
    have inside : isFlowEnd c = false := by
      simp [isFlowEnd, other ',' (by decide), other '?' (by decide), other '[' (by decide),
        other ']' (by decide), other '\x7b' (by decide), other '\x7d' (by decide)]
    refine ⟨⟨noBlank, noBreak, other ':' (by decide), inside⟩, ?_, other '#' (by decide)⟩
    simp only [Written.isPrintable, Bool.or_eq_true, Bool.and_eq_true, decide_eq_true_eq]
    omega

/-- An integer begins with a digit, perhaps after a sign. -/
theorem int_chars_head (n : Int) :
    ∃ c cs, intChars n = c :: cs ∧
      (c.isDigit = true ∨ c = '-' ∧ ∃ d ds, cs = d :: ds ∧ d.isDigit = true) := by
  obtain ⟨d, ds, digits⟩ := List.exists_cons_of_ne_nil (@Nat.toDigits_ne_nil n.natAbs 10)
  have digit : d.isDigit = true := digit_of_natural (n := n.natAbs) (by simp [digits])
  unfold intChars
  rw [digits]
  by_cases negative : n < 0
  · exact ⟨'-', d :: ds, by simp [negative], .inr ⟨rfl, d, ds, rfl, digit⟩⟩
  · exact ⟨d, ds, by simp [negative], .inl digit⟩

theorem digit_no_indicator {c : Char} (h : c.isDigit = true) :
    c ∉ "#,[]\x7b\x7d&*!|>'\"%@`".toList ∧ c ≠ '-' ∧ c ≠ '?' ∧ c ≠ ':' ∧ c ≠ '.' := by
  have other : ∀ d : Char, d.toNat < 0x30 ∨ 0x39 < d.toNat → c ≠ d := fun d => digit_ne h
  refine ⟨?_, other _ (by decide), other _ (by decide), other _ (by decide), other _ (by decide)⟩
  intro hc
  have outside : ∀ d ∈ "#,[]\x7b\x7d&*!|>'\"%@`".toList, d.toNat < 0x30 ∨ 0x39 < d.toNat := by
    decide
  exact other c (outside c hc) rfl

theorem indicator_later_none {cs : List Char} (h : ∀ c ∈ cs, c ≠ ':' ∧ c ≠ '#') (gap : Bool) :
    Written.indicatorLater gap cs = false := by
  induction cs generalizing gap with
  | nil => rfl
  | cons c cs ih =>
    obtain ⟨colon, hash⟩ := h c (by simp)
    simp [Written.indicatorLater, colon, hash, ih fun d hd => h d (by simp [hd])]

theorem begins_word_int (n : Int) :
    ∃ c cs, intChars n = c :: cs ∧ ∀ rest, Scanner.BeginsWord c (cs ++ rest) := by
  obtain ⟨c, cs, chars, first⟩ := int_chars_head n
  have plainest := @plainest_digit c (int_chars_cases (n := n) (by simp [chars]))
  refine ⟨c, cs, chars, ?_⟩
  intro rest
  rcases first with digit | ⟨rfl, d, ds, rfl, digit⟩
  · obtain ⟨other, dash, question, colon, _⟩ := digit_no_indicator digit
    have noMark : c ≠ byteOrderMark := digit_ne digit (by decide)
    refine ⟨⟨plainest.1.1, plainest.1.2.1, plainest.2.2, noMark⟩, other, ?_⟩
    rintro (e | e | e)
    · exact absurd e dash
    · exact absurd e question
    · exact absurd e colon
  · have next := plainest_digit (.inr digit)
    refine ⟨by decide, by decide, fun _ => ?_⟩
    simp [atGap, next.1.1, next.1.2.1]

theorem row_word_int (n : Int) : Scanner.RowWord (intChars n) :=
  ⟨fun _ hc => (plainest_digit (int_chars_cases hc)).1, begins_word_int n⟩

theorem plain_text_int (n : Int) : PlainText (intChars n) := by
  have each := fun c (hc : c ∈ intChars n) => plainest_digit (int_chars_cases hc)
  obtain ⟨c, cs, chars, first⟩ := int_chars_head n
  have noSpace : ∀ d ∈ intChars n, d ≠ ' ' := by
    rintro _ hd rfl
    exact absurd (each ' ' hd).1.1 (by decide)
  refine ⟨by simp [chars], fun d hd => ⟨(each d hd).1.2.1, (each d hd).2.1⟩, ?_, ?_, ?_, ?_, ?_⟩
  · rw [chars]
    simpa using noSpace c (by simp [chars])
  · intro last
    exact noSpace ' ' (List.mem_of_getLast? last) rfl
  · rw [chars]
    rcases first with digit | ⟨rfl, d, ds, rfl, digit⟩
    · obtain ⟨_, dash, _, _, dot⟩ := digit_no_indicator digit
      simp [Written.beginsLikeMark, dash, dot]
    · obtain ⟨_, dash, _⟩ := digit_no_indicator digit
      simp [Written.beginsLikeMark, dash]
  · rw [chars]
    rcases first with digit | ⟨rfl, d, ds, rfl, digit⟩
    · obtain ⟨other, dash, question, colon, _⟩ := digit_no_indicator digit
      simp only [Written.indicatorFirst, List.contains_eq_mem, other, dash, question, colon]
      simp
    · have next := plainest_digit (.inr digit)
      simp [Written.indicatorFirst, next.1.1]
  · exact indicator_later_none (fun d hd => ⟨(each d hd).1.2.2.1, (each d hd).2.2⟩) false

theorem legal_int (n : Int) : Legal (Bytes.ofInt n) := by
  rw [of_int_eq_encode]
  exact legal_encode fun c hc => .inl (plainest_digit (int_chars_cases hc)).2.1

theorem plain_text_flag (b : Bool) : PlainText (Utf8.chars (Written.flagText b)) := by
  cases b <;>
    exact ⟨by decide, by decide, by decide, by decide, by decide, by decide, by decide⟩

theorem legal_flag (b : Bool) : Legal (Written.flagText b) := by
  cases b <;> exact legal_ascii (by decide)

end Overworld.Yaml
