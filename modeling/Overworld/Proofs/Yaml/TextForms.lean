import Overworld.Proofs.Base64
import Overworld.Proofs.Yaml.Decoding

/-!
# Every form of a text

A text under a key is read in whatever form it was written: on one line, as a literal block, or
encoded after its tag. A block that begins with a break comes back without it. Only a block that
begins with a tab is not read at all.
-/

set_option autoImplicit false

namespace Overworld.Yaml

open Scanner

/-! ## Blocks -/

section
variable {ts : List Token} {i n : Nat} {o : List Int} {m : Mark} {r : List Char}

theorem token_bar {s s' : Scanner} {rest : List Char} {read : ReadScalar} (flow : s.inFlow = false)
    (dropped : s.dropKey = some s')
    (block : readBlock false s'.indent (s'.mark.skip 1) rest = some read) :
    s.token '|' rest = some (s'.afterScalar .literal read true) := by
  simp [token, flow, dropped, block]

theorem reaches_literal {cs : List Char} (h : LiteralText cs) (noTab : cs.head? ≠ some '\t')
    (inside : i < m.column) (less : n ≤ i) (solid : SolidHead r) :
    ∃ m', m'.column = n ∧
      Reaches (line ts i o false none m
          ('|' :: (headerChars cs ++ (literalChars (i + 4) true true cs ++
            (blockEndChars cs ++ (List.replicate n ' ' ++ r))))))
        (line (ts ++ [.scalar (literalBack cs) .literal]) i o true none m' r) := by
  obtain ⟨m', column, read⟩ := @read_block i n (m.skip 1) cs r h noTab less solid
  generalize text : headerChars cs ++ (literalChars (i + 4) true true cs ++
    (blockEndChars cs ++ (List.replicate n ' ' ++ r))) = rest at read ⊢
  have dropped : (line ts i o false none m ('|' :: rest)).dropKey =
      some (line ts i o false none m ('|' :: rest)) := rfl
  refine ⟨m', column, .more ?_ ?_ (.refl _)⟩
  · rw [step_token (by decide) (by omega) (fun zero => by omega), token_bar rfl dropped read,
      after_scalar_line]
    rfl
  · simp only [line, ← text, List.length_cons, List.length_append]
    omega

/-- What is written after a text in a style. -/
def endChars (style : Style) (cs : List Char) : List Char :=
  if style = .literal then blockEndChars cs else ['\n']

/-- What is read back of a text in a style. -/
def backChars (style : Style) (cs : List Char) : List Char :=
  if style = .literal then literalBack cs else cs

/-- The characters of a text after its tag, in any style. -/
theorem reaches_body {sh : Written.Shape}
    (nonempty : Written.style false sh = .plain → sh.chars ≠ [])
    (noTab : Written.style false sh = .literal → sh.chars.head? ≠ some '\t')
    (inside : i < m.column) (less : n ≤ i) (solid : SolidHead r) :
    ∃ m', m'.column = n ∧
      Reaches (line ts i o false none m
          (bodyChars (i + 4) (Written.style false sh) sh.chars ++
            (endChars (Written.style false sh) sh.chars ++ (List.replicate n ' ' ++ r))))
        (line (ts ++ [.scalar (backChars (Written.style false sh) sh.chars)
          (Written.style false sh)]) i o true none m' r) := by
  by_cases literal : Written.style false sh = .literal
  · have styled := styled false sh
    rw [literal] at styled
    cases styled with
    | literal allowed feed =>
      have text := literal_text_of_allowed allowed feed
      obtain ⟨m', column, reaches⟩ :=
        @reaches_literal ts i n o m r sh.chars text (noTab literal) inside less solid
      have body : bodyChars (i + 4) .literal sh.chars =
          '|' :: (headerChars sh.chars ++ literalChars (i + 4) true true sh.chars) := rfl
      refine ⟨m', column, ?_⟩
      rw [literal, body, endChars, if_pos rfl, backChars, if_pos rfl, List.cons_append,
        List.append_assoc]
      exact reaches
  · have body := inline_body (Nat.succ_pos (i + 3)) nonempty literal
    obtain ⟨m', column, _, reaches⟩ :=
      @reaches_inline_value ts i o false _ _ r _ m n body (by omega) (by omega) (by omega) solid
    refine ⟨m', column, ?_⟩
    rw [endChars, if_neg literal, backChars, if_neg literal]
    exact reaches

end

/-! ## Bare texts -/

theorem chars_line_end (s : Bytes) : Utf8.chars (Written.lineEnd false s) =
    endChars (Written.style false (Written.shape s)) (Written.shape s).chars := by
  unfold Written.lineEnd endChars blockEndChars
  by_cases literal : Written.style false (Written.shape s) = .literal
  · simp only [literal, decide_true, Bool.true_and, if_true]
    split <;> rfl
  · simp only [literal, decide_false, Bool.false_and, Bool.false_eq_true, if_false]
    rfl

/-- A block that begins with a tab. -/
def BeginsWithTab (s : Bytes) : Prop :=
  Written.style false (Written.shape s) = .literal ∧ (Written.shape s).chars.head? = some '\t'

instance (s : Bytes) : Decidable (BeginsWithTab s) := inferInstanceAs (Decidable (_ ∧ _))

theorem text_scans_bare {s : Bytes} (bare : (Written.shape s).encoded = false)
    (noTab : ¬ BeginsWithTab s) : TextScans s := by
  intro i n ts o m r inside less solid
  have first : Written.style false (Written.shape s) = .literal →
      (Written.shape s).chars.head? ≠ some '\t' := fun literal tab => noTab ⟨literal, tab⟩
  obtain ⟨m', column, reaches⟩ :=
    @reaches_body ts i n o m r _ (plain_nonempty bare) first inside less solid
  have tokens : textTokens s = [.scalar (backChars (Written.style false (Written.shape s))
      (Written.shape s).chars) (Written.style false (Written.shape s))] := by
    rw [textTokens, bare]
    rfl
  refine ⟨m', column, ?_⟩
  rw [chars_scalar bare, chars_line_end, tokens, List.append_assoc]
  exact reaches

/-! ## Encoded texts -/

/-- The tag of an encoded text. -/
def tagChars : List Char := ['!', '!', 'b', 'i', 'n', 'a', 'r', 'y']

theorem read_tag (rest : List Char) : readTag (tagChars ++ ' ' :: rest) =
    some (utf8 "!!", utf8 "binary", ' ' :: rest) := rfl

theorem token_tag {s s' : Scanner} {handle suffix : Bytes} {tail rest : List Char}
    (remember : s.rememberKey = some s') (read : readTag s'.rest = some (handle, suffix, rest)) :
    s.token '!' tail =
      some ((({ s' with keyAllowed := false }.emit (.tag handle suffix)).moveTo
        rest).skipComment) := by
  simp [token, remember, read]

theorem step_tag {ts : List Token} {i : Nat} {o : List Int} {m : Mark} {rest : List Char}
    (inside : i < m.column) (other : ∀ c ∈ rest.head?, isBlank c = false ∧ c ≠ '#') :
    (line ts i o false none m (tagChars ++ ' ' :: rest)).step =
      some (.more (line (ts ++ [.tag (utf8 "!!") (utf8 "binary")]) i o false none (m.skip 8)
        (' ' :: rest))) := by
  have moved : ({ line ts i o false none m (tagChars ++ ' ' :: rest) with
        keyAllowed := false }.emit (.tag (utf8 "!!") (utf8 "binary"))).moveTo (' ' :: rest) =
      line (ts ++ [.tag (utf8 "!!") (utf8 "binary")]) i o false none (m.skip 8) (' ' :: rest) := by
    simp [line, emit, moveTo, tagChars]
  have stays := @skip_comment_line i o false none (ts ++ [.tag (utf8 "!!") (utf8 "binary")])
    (m.skip 8) 1 rest other
  have token := @token_tag (line ts i o false none m (tagChars ++ ' ' :: rest)) _ _ _
    ((tagChars ++ ' ' :: rest).tail) _ remember_key_not_allowed (read_tag rest)
  rw [moved, show (' ' :: rest) = List.replicate 1 ' ' ++ rest from rfl, stays] at token
  refine (step_token (by decide) (by omega) fun zero => by omega).trans ?_
  exact congrArg (Option.map Progress.more) token

/-- The characters of the written form of a text that is no valid one. -/
theorem chars_encoded {indent : Nat} {s : Bytes} (encoded : (Written.shape s).encoded = true)
    (rest : Bytes) :
    Utf8.chars (Written.scalar indent false s ++ rest) =
      tagChars ++ ' ' :: (bodyChars indent (Written.style false (Written.shape s))
        (Written.shape s).chars ++ Utf8.chars rest) := by
  rw [scalar_eq_encode, Written.tagText, encoded, if_pos rfl, List.append_assoc,
    show utf8 "!!binary " = Utf8.encode (tagChars ++ [' ']) from rfl, Utf8.chars_encode_append,
    Utf8.chars_encode_append, List.append_assoc]
  rfl

/-- The letters of an encoded text, on one line or wrapped. -/
def letterText (s : Bytes) : Bytes :=
  let letters := Base64.encode s
  if letters.length < 70 then letters else Written.wrapLines 70 70 letters

theorem mem_wrap_lines {width n : Nat} {s : Bytes} {b : UInt8}
    (h : b ∈ Written.wrapLines width n s) : b ∈ s ∨ b = 0x0A := by
  induction s generalizing n with
  | nil =>
    cases n <;> exact .inr (List.mem_singleton.mp h)
  | cons c s ih =>
    cases n with
    | zero =>
      rcases List.mem_cons.mp h with rfl | h
      · exact .inr rfl
      · rcases List.mem_cons.mp h with rfl | h
        · exact .inl (by simp)
        · exact (ih h).imp_left (List.mem_cons_of_mem c)
    | succ n =>
      rcases List.mem_cons.mp h with rfl | h
      · exact .inl (by simp)
      · exact (ih h).imp_left (List.mem_cons_of_mem c)

theorem letter_text_bytes (s : Bytes) : ∀ b ∈ letterText s, b.toNat < 0x80 := by
  have letters : ∀ b ∈ Base64.encode s, b.toNat < 0x80 := fun b hb => by
    have := (Base64.letter_bounds (Base64.encode_letters s b hb)).2
    omega
  unfold letterText
  dsimp only
  split
  · exact letters
  · intro b hb
    rcases mem_wrap_lines hb with hb | rfl
    · exact letters b hb
    · decide

theorem letter_text_head {s : Bytes} (nonempty : s ≠ []) :
    ∃ b rest, letterText s = b :: rest ∧ Base64.IsLetter b := by
  have letters := Base64.encode_letters s
  obtain ⟨b, rest, first⟩ : ∃ b rest, Base64.encode s = b :: rest := by
    match s, nonempty with
    | [_], _ => exact ⟨_, _, rfl⟩
    | [_, _], _ => exact ⟨_, _, rfl⟩
    | _ :: _ :: _ :: _, _ => exact ⟨_, _, rfl⟩
  rw [first] at letters
  unfold letterText
  dsimp only
  rw [first]
  split
  · exact ⟨b, rest, rfl, letters b (by simp)⟩
  · exact ⟨b, _, rfl, letters b (by simp)⟩

theorem decode_letter_text (s : Bytes) : Base64.decode (letterText s) = some s := by
  apply Base64.decode_of_filter
  have plain : ∀ b ∈ Base64.encode s, b ≠ 0x0A := fun b hb =>
    Base64.letter_ne (Base64.encode_letters s b hb) (by decide)
  unfold letterText
  dsimp only
  split
  · rw [List.filter_eq_self]
    intro b hb
    simpa using plain b hb
  · exact Base64.wrap_lines_filter 70 70 plain

theorem shape_encoded {s : Bytes} (encoded : (Written.shape s).encoded = true) :
    s ≠ [] ∧ (Written.shape s).chars = asciiChars (letterText s) := by
  unfold Written.shape at encoded ⊢
  by_cases valid : Utf8.isValid s = true
  · rw [if_pos valid] at encoded
    cases encoded
  · refine ⟨?_, ?_⟩
    · rintro rfl
      exact valid rfl
    · rw [if_neg valid]
      exact chars_ascii (letter_text_bytes s)

/-- An encoded text begins with a letter. -/
theorem encoded_head {s : Bytes} (encoded : (Written.shape s).encoded = true) :
    ∃ c cs, (Written.shape s).chars = c :: cs ∧ isBreak c = false ∧ c ≠ '\t' := by
  obtain ⟨nonempty, chars⟩ := shape_encoded encoded
  obtain ⟨b, rest, first, letter⟩ := letter_text_head nonempty
  obtain ⟨low, high⟩ := Base64.letter_bounds letter
  obtain ⟨printable, noBreak⟩ := @visible_char b ⟨by omega, by omega⟩
  refine ⟨Char.ofNat b.toNat, asciiChars rest, by rw [chars, first]; rfl, noBreak, ?_⟩
  intro tab
  rw [tab] at printable
  exact absurd printable (by decide)

theorem text_scans_encoded {s : Bytes} (encoded : (Written.shape s).encoded = true) :
    TextScans s := by
  obtain ⟨c, cs, first, _, noTab⟩ := encoded_head encoded
  have nonempty :
      Written.style false (Written.shape s) = .plain → (Written.shape s).chars ≠ [] := by
    simp [first]
  intro i n ts o m r inside less solid
  obtain ⟨d, ds, body, head⟩ := @body_head false (Written.shape s) (i + 3) nonempty
  obtain ⟨m', column, reaches⟩ :=
    @reaches_body (ts ++ [.tag (utf8 "!!") (utf8 "binary")]) i n o ((m.skip 8).skip 1) r _ nonempty
      (fun _ => by simp [first, noTab]) (by simp; omega) less solid
  have tokens : textTokens s = [.tag (utf8 "!!") (utf8 "binary"),
      .scalar (backChars (Written.style false (Written.shape s)) (Written.shape s).chars)
        (Written.style false (Written.shape s))] := by
    rw [textTokens, encoded]
    rfl
  refine ⟨m', column, ?_⟩
  rw [chars_encoded encoded, chars_line_end, tokens]
  simp only [List.append_assoc, List.cons_append, body] at reaches ⊢
  have start : ∀ e ∈ (d :: (ds ++ (endChars (Written.style false (Written.shape s))
      (Written.shape s).chars ++ (List.replicate n ' ' ++ r)))).head?,
      isBlank e = false ∧ e ≠ '#' := by
    rintro _ ⟨⟩
    exact ⟨head.1, head.2.2.1⟩
  refine .more (step_tag inside start) (by simp [line, tagChars]) ?_
  refine .same (@step_spaces _ i o false none (m.skip 8) 1 _ ?_) (by simp [line]) reaches
  rintro _ ⟨⟩
  exact head

/-! ## What is read back -/

/-- What becomes of a text under a key. -/
def readBack (s : Bytes) : Bytes :=
  if (Written.shape s).encoded then s else Utf8.encode (textBack s)

theorem text_scans {s : Bytes} (noTab : ¬ BeginsWithTab s) : TextScans s := by
  cases encoded : (Written.shape s).encoded with
  | false => exact text_scans_bare encoded noTab
  | true => exact text_scans_encoded encoded

theorem text_gives_back (s : Bytes) : Decoder.text.Gives (textNode s) (readBack s) := by
  cases encoded : (Written.shape s).encoded with
  | false =>
    rw [readBack, encoded]
    exact text_gives_bare encoded
  | true =>
    obtain ⟨_, chars⟩ := shape_encoded encoded
    obtain ⟨c, cs, first, noBreak, _⟩ := encoded_head encoded
    have back : textBack s = (Written.shape s).chars := by
      simp [textBack, first, literalBack, noBreak]
    have letters : Utf8.encode (textBack s) = letterText s := by
      rw [back, chars, encode_ascii_chars (letter_text_bytes s)]
    have value : Value.ofScalar (some (utf8 "!!binary"))
        (Written.style false (Written.shape s)) (letterText s) = some (.text s) := by
      show (Base64.decode (letterText s)).map Value.text = some (.text s)
      rw [decode_letter_text]
      rfl
    intro scope
    rw [readBack, encoded]
    simp [Decoder.text, textNode, encoded, Scope.enter, letters, value]

theorem read_back_bare {s : Bytes} (bare : (Written.shape s).encoded = false)
    (inline : Written.style false (Written.shape s) ≠ .literal) : readBack s = s := by
  obtain ⟨shape, same⟩ := shape_bare bare
  rw [readBack, bare, textBack]
  simp only [inline, Bool.false_eq_true, if_false]
  rw [shape]
  exact same

theorem KeyText.scans {s : Bytes} (h : KeyText s) : TextScans s :=
  text_scans fun tab => key_inline h tab.1

theorem KeyText.read_back {s : Bytes} (h : KeyText s) : readBack s = s :=
  read_back_bare h.bare (key_inline h)

/-- A text loses at most a break at its head. -/
theorem read_back_cases (s : Bytes) : readBack s = s ∨
    ∃ c cs, isBreak c = true ∧ '\n' ∈ c :: cs ∧ s = Utf8.encode (c :: cs) ∧
      readBack s = Utf8.encode cs := by
  cases encoded : (Written.shape s).encoded with
  | true =>
    left
    rw [readBack, if_pos encoded]
  | false =>
    by_cases literal : Written.style false (Written.shape s) = .literal
    · obtain ⟨shape, same⟩ := shape_bare encoded
      have styled := styled false (Written.shape s)
      rw [literal] at styled
      rw [readBack, encoded, textBack]
      cases styled with
      | literal _ feed =>
        simp only [literal, if_true, Bool.false_eq_true, if_false]
        rw [shape] at feed ⊢
        cases chars : Utf8.chars s with
        | nil => simp [chars] at feed
        | cons c cs =>
          rw [chars] at same feed
          cases broken : isBreak c with
          | true => exact .inr ⟨c, cs, broken, feed, same.symm, by simp [literalBack, broken]⟩
          | false => exact .inl (by simp [literalBack, broken, same])
    · exact .inl (read_back_bare encoded literal)

theorem read_back_length (s : Bytes) : (readBack s).length ≤ s.length := by
  rcases read_back_cases s with same | ⟨c, cs, _, _, rfl, back⟩
  · rw [same]
  · rw [back, encode_cons, List.length_append]
    omega

theorem encode_eq_nil {cs : List Char} (h : Utf8.encode cs = []) : cs = [] := by
  have chars := Utf8.chars_encode_append cs []
  rw [List.append_nil, h] at chars
  simpa using chars.symm

/-- Nothing but a single line feed is read back as nothing. -/
theorem read_back_eq_nil (s : Bytes) : readBack s = [] ↔ s = [] ∨ s = utf8 "\n" := by
  constructor
  · intro none
    rcases read_back_cases s with same | ⟨c, cs, _, feed, rfl, back⟩
    · exact .inl (same ▸ none)
    · rw [back] at none
      rw [encode_eq_nil none, List.mem_singleton] at feed
      rw [encode_eq_nil none, ← feed]
      exact .inr rfl
  · rintro (rfl | rfl)
    · decide +kernel
    · decide +kernel

end Overworld.Yaml
