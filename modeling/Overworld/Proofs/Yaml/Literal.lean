import Mathlib.Data.List.TakeWhile
import Overworld.Proofs.Yaml.Scalar

/-!
# Literal blocks

A text of several lines is written as a literal block. Its indentation is stated where the text
begins with a space or a break, and found from the first line otherwise. What is read back is the
text, without its first character where that is a break: such a break ends the line of the block's
header and is lost. A text that begins with a tab is not read back at all.
-/

set_option autoImplicit false

namespace Overworld.Yaml

/-- The characters of a literal block after its header. -/
def literalChars (indent : Nat) : Bool → Bool → List Char → List Char
  | _, _, [] => []
  | fresh, opened, c :: cs =>
    if isBreak c then c :: literalChars indent true false cs
    else
      (if fresh then (if opened then ['\n'] else []) ++ List.replicate indent ' ' else []) ++
        c :: literalChars indent false true cs

theorem literal_body_eq_encode (indent : Nat) (fresh opened : Bool) (cs : List Char) :
    Written.literalBody indent fresh opened cs =
      Utf8.encode (literalChars indent fresh opened cs) := by
  induction cs generalizing fresh opened with
  | nil => rfl
  | cons c cs ih =>
    unfold Written.literalBody literalChars
    split
    · rw [encode_cons, ih]
    · rw [encode_append, encode_cons, ih, List.append_assoc]
      congr 1
      cases fresh
      · rfl
      · simp only [if_true, encode_append, pad_eq_encode]
        cases opened <;> rfl

/-- What makes a text fit to be a literal block. -/
structure LiteralText (cs : List Char) : Prop where
  printed : ∀ c ∈ cs, Written.isPrintable c = true ∨ c = '\t'
  feed : '\n' ∈ cs

theorem not_return_of_literal {c : Char} (h : Written.isPrintable c = true ∨ c = '\t') :
    c ≠ '\r' := by
  rintro rfl
  revert h
  decide

theorem break_text_literal {c : Char} (h : Written.isPrintable c = true ∨ c = '\t')
    (broken : isBreak c = true) : breakText c = c := by
  rcases h with printable | rfl
  · exact break_text_printable printable broken
  · exact absurd broken (by decide)

/-! ## The lines of a block -/

section
variable {indent : Nat} {b : BlockLines} {m : Mark}

/-- All that was read, last character first. -/
def BlockLines.whole (b : BlockLines) : List Char := b.empties ++ b.ending ++ b.text

theorem block_body_inside {c : Char} (rest : List Char) (noBreak : isBreak c = false) :
    blockBody false indent true b m (c :: rest) =
      blockBody false indent true { b with text := c :: b.text } (m.skip 1) rest := by
  rw [blockBody]
  · simp [noBreak]
  · intro _ e
    exact absurd e (not_return noBreak)

theorem block_body_line_end {c : Char} (rest : List Char) (broken : isBreak c = true)
    (noReturn : c ≠ '\r') (same : breakText c = c) :
    blockBody false indent true b m (c :: rest) =
      blockBody false indent false { b with ending := [c] } (m.newline 1) rest := by
  rw [blockBody]
  · simp [broken, same]
  · intro _ e
    exact absurd e noReturn

theorem block_body_empty_line {c : Char} (rest : List Char) (broken : isBreak c = true)
    (noReturn : c ≠ '\r') (same : breakText c = c) :
    blockBody false indent false b m (c :: rest) =
      blockBody false indent false { b with empties := c :: b.empties } (m.newline 1) rest := by
  have noSpace : c ≠ ' ' ∧ c ≠ '\t' := by
    constructor <;> rintro rfl <;> exact absurd broken (by decide)
  rw [blockBody]
  · simp [broken, same, noSpace.1, noSpace.2]
  · intro _ e
    exact absurd e noReturn

theorem block_body_spaces {n : Nat} (rest : List Char) (within : m.column + n ≤ indent) :
    blockBody false indent false b m (List.replicate n ' ' ++ rest) =
      blockBody false indent false b (m.skip n) rest := by
  induction n generalizing m with
  | zero => rfl
  | succ n ih =>
    have less : m.column < indent := by omega
    rw [List.replicate_succ, List.cons_append, blockBody]
    · simp only [less, decide_true, Bool.and_self, if_true]
      rw [ih (by simp; omega), Mark.skip_skip, Nat.add_comm]
    · simp

theorem block_body_begin {c : Char} (rest : List Char) (noBreak : isBreak c = false)
    (column : m.column = indent) :
    blockBody false indent false b m (c :: rest) =
      blockBody false indent true ⟨c :: b.whole, [], [], isBlank c⟩ (m.skip 1) rest := by
  rw [blockBody]
  · simp [column, noBreak, BlockLines.beginLine, BlockLines.whole]
  · intro _ e
    exact absurd e (not_return noBreak)

/-- Where reading stands between two characters of a block: inside a line nothing is held back,
and after a break the next line begins. Only breaks are held back, and the first one after a line
is its ending. -/
structure BlockLines.Stands (b : BlockLines) (inLine : Bool) (m : Mark) : Prop where
  inside : inLine = true → b.ending = [] ∧ b.empties = []
  outside : inLine = false → m.column = 0
  ended : inLine = false → b.ending = [] → b.text = []
  breaks : ∀ c ∈ b.empties ++ b.ending, isBreak c = true

/-- One character of a block is kept, whether it is held back or not. -/
theorem block_body_char {inLine : Bool} {c : Char} (cs rest : List Char)
    (stands : b.Stands inLine m) (printed : Written.isPrintable c = true ∨ c = '\t') :
    ∃ b' m',
      blockBody false indent inLine b m (literalChars indent (!inLine) inLine (c :: cs) ++ rest) =
        blockBody false indent (!isBreak c) b' m'
          (literalChars indent (isBreak c) (!isBreak c) cs ++ rest) ∧
      b'.whole = c :: b.whole ∧ b'.Stands (!isBreak c) m' := by
  cases broken : isBreak c with
  | true =>
    have noReturn := not_return_of_literal printed
    have same := break_text_literal printed broken
    rw [literalChars, if_pos broken, List.cons_append]
    cases inLine with
    | true =>
      obtain ⟨none, free⟩ := stands.inside rfl
      refine ⟨{ b with ending := [c] }, m.newline 1,
        block_body_line_end _ broken noReturn same, ?_, ?_⟩
      · simp [BlockLines.whole, none, free]
      · exact ⟨by simp, fun _ => rfl, by simp, by simp [free, broken]⟩
    | false =>
      refine ⟨{ b with empties := c :: b.empties }, m.newline 1,
        block_body_empty_line _ broken noReturn same, rfl, ?_⟩
      exact ⟨by simp, fun _ => rfl, stands.ended, by simpa [broken] using stands.breaks⟩
  | false =>
    rw [literalChars, if_neg (by simp [broken])]
    cases inLine with
    | true =>
      obtain ⟨none, free⟩ := stands.inside rfl
      refine ⟨{ b with text := c :: b.text }, m.skip 1, block_body_inside _ broken, ?_, ?_⟩
      · simp [BlockLines.whole, none, free]
      · exact ⟨fun _ => ⟨none, free⟩, by simp, by simp, stands.breaks⟩
    | false =>
      have column := stands.outside rfl
      refine ⟨⟨c :: b.whole, [], [], isBlank c⟩, (m.skip indent).skip 1, ?_, rfl, ?_⟩
      · simp only [Bool.not_false, if_true, Bool.false_eq_true, if_false, List.nil_append,
          List.append_assoc, List.cons_append]
        rw [block_body_spaces _ (by omega), block_body_begin _ broken (by simp [column])]
      · exact ⟨fun _ => ⟨rfl, rfl⟩, by simp, by simp, by simp⟩

/-- Every character of a block is kept. -/
theorem block_body_chars {inLine : Bool} (cs rest : List Char) (stands : b.Stands inLine m)
    (printed : ∀ c ∈ cs, Written.isPrintable c = true ∨ c = '\t') :
    ∃ b' m', blockBody false indent inLine b m (literalChars indent (!inLine) inLine cs ++ rest) =
        blockBody false indent (cs.getLast?.elim inLine (!isBreak ·)) b' m' rest ∧
      b'.whole = cs.reverse ++ b.whole ∧
      b'.Stands (cs.getLast?.elim inLine (!isBreak ·)) m' := by
  induction cs generalizing inLine b m with
  | nil => exact ⟨b, m, rfl, rfl, stands⟩
  | cons c cs ih =>
    have last : ((c :: cs).getLast?.elim inLine (!isBreak ·)) =
        cs.getLast?.elim (!isBreak c) (!isBreak ·) := by
      cases cs with
      | nil => rfl
      | cons d cs => simp [List.getLast?_cons]
    obtain ⟨b₁, m₁, first, whole₁, stands₁⟩ :=
      @block_body_char indent b m inLine c cs rest stands (printed c (by simp))
    obtain ⟨b₂, m₂, read, whole₂, stands₂⟩ :=
      ih stands₁ fun d hd => printed d (List.mem_cons_of_mem c hd)
    rw [Bool.not_not] at read
    rw [last]
    exact ⟨b₂, m₂, first.trans read, by simp [whole₂, whole₁], stands₂⟩

/-- A break that follows a line directly is its ending, and no empty line. -/
theorem BlockLines.Stands.empties_nil {inLine : Bool} {c d : Char} {before : List Char}
    (h : b.Stands inLine m) (whole : b.whole = c :: d :: before) (solid : isBreak d = false) :
    b.empties = [] := by
  have breaks := h.breaks
  unfold BlockLines.whole at whole
  cases inLine with
  | true => exact (h.inside rfl).2
  | false =>
    cases empties : b.empties with
    | nil => rfl
    | cons e es =>
      rw [empties] at whole breaks
      cases es with
      | cons f es =>
        obtain ⟨_, rfl, _⟩ : e = c ∧ f = d ∧ _ := by simpa using whole
        exact absurd (breaks f (by simp)) (by simp [solid])
      | nil =>
        cases ending : b.ending with
        | nil => simp [ending, h.ended rfl ending] at whole
        | cons f es =>
          rw [ending] at whole breaks
          obtain ⟨_, rfl, _⟩ : e = c ∧ f = d ∧ _ := by simpa using whole
          exact absurd (breaks f (by simp)) (by simp [solid])

/-- A block ends before a character that is not indented deeply enough. -/
theorem block_body_stop {n : Nat} {r : List Char} (less : m.column + n < indent)
    (solid : SolidHead r) :
    blockBody false indent false b m (List.replicate n ' ' ++ r) = some (b, m.skip n, r) := by
  rw [block_body_spaces _ (by omega)]
  cases r with
  | nil => rfl
  | cons c r =>
    obtain ⟨blank, noBreak, _⟩ := solid c rfl
    have noSpace : c ≠ ' ' ∧ c ≠ '\t' := by simpa [isBlank] using blank
    have other : m.column + n ≠ indent := by omega
    rw [blockBody]
    · simp [noSpace.1, noSpace.2, noBreak, other]
    · intro _ e
      exact absurd e (not_return noBreak)

/-! ## The head of a block -/

theorem block_lead_spaces {widest n : Nat} {breaks : List Char} (rest : List Char)
    (within : indent = 0 ∨ m.column + n ≤ indent) :
    blockLead indent widest breaks m (List.replicate n ' ' ++ rest) =
      blockLead indent widest breaks (m.skip n) rest := by
  induction n generalizing m with
  | zero => rfl
  | succ n ih =>
    have inside : indent = 0 ∨ m.column < indent := by omega
    rw [List.replicate_succ, List.cons_append, blockLead]
    · simp only [Bool.or_eq_true, decide_eq_true_eq, inside, Bool.and_eq_true, and_self, if_true]
      rw [ih (by simp; omega), Mark.skip_skip, Nat.add_comm]
    · simp

theorem block_lead_content {widest : Nat} {breaks : List Char} {c : Char} (rest : List Char)
    (noBreak : isBreak c = false) (solid : isBlank c = false ∨ indent ≠ 0 ∧ indent ≤ m.column) :
    blockLead indent widest breaks m (c :: rest) =
      some (max widest m.column, breaks, m, c :: rest) := by
  have notInside : ¬ ((indent = 0 ∨ m.column < indent) ∧ (c = ' ' ∨ c = '\t')) := by
    rintro ⟨inside, blank⟩
    rcases solid with solid | ⟨known, deep⟩
    · rw [(is_blank_iff c).mpr blank] at solid
      cases solid
    · omega
  rw [blockLead]
  · by_cases inside : indent = 0 ∨ m.column < indent
    · have noSpace : c ≠ ' ' ∧ c ≠ '\t' := by
        constructor <;> rintro rfl <;> exact notInside ⟨inside, by simp⟩
      simp [noSpace.1, noSpace.2, noBreak]
    · simp [inside, noBreak]
  · intro _ e
    exact absurd e (not_return noBreak)

theorem block_lead_solid {widest : Nat} {breaks r : List Char} (solid : SolidHead r) :
    blockLead indent widest breaks m r = some (max widest m.column, breaks, m, r) := by
  cases r with
  | nil => rfl
  | cons c r =>
    obtain ⟨blank, noBreak, _⟩ := solid c rfl
    exact block_lead_content r noBreak (.inl blank)

/-- Breaks at the head of a block are empty lines. -/
theorem block_lead_breaks {widest : Nat} {breaks bs : List Char} (rest : List Char)
    (column : m.column = 0)
    (printed : ∀ c ∈ bs, isBreak c = true ∧ (Written.isPrintable c = true ∨ c = '\t')) :
    ∃ m', m'.column = 0 ∧ m.line ≤ m'.line ∧
      blockLead indent widest breaks m (bs ++ rest) =
        blockLead indent widest (bs.reverse ++ breaks) m' rest := by
  induction bs generalizing m breaks with
  | nil => exact ⟨m, column, Nat.le_refl _, rfl⟩
  | cons c bs ih =>
    obtain ⟨broken, hc⟩ := printed c (by simp)
    obtain ⟨m', column', later, lead⟩ :=
      @ih (m.newline 1) (c :: breaks) rfl fun d hd => printed d (List.mem_cons_of_mem c hd)
    have noSpace : c ≠ ' ' ∧ c ≠ '\t' := by
      constructor <;> rintro rfl <;> exact absurd broken (by decide)
    refine ⟨m', column', Nat.le_trans (Nat.le_succ _) later, ?_⟩
    rw [List.reverse_cons, List.append_assoc, List.singleton_append, ← lead, List.cons_append,
      blockLead]
    · simp [noSpace.1, noSpace.2, broken, break_text_literal hc broken, column]
    · intro _ e
      exact absurd e (not_return_of_literal hc)

end

/-! ## Headers -/

/-- How a literal block states what happens to the breaks at its end. -/
def chompChars : Chomping → List Char
  | .strip => ['-']
  | .clip => []
  | .keep => ['+']

/-- What has to happen to the breaks at the end of a block for its text to come back. -/
def chompingOf (cs : List Char) : Chomping :=
  match cs.reverse with
  | [] => .strip
  | c :: before =>
    if !isBreak c then .strip else if before.head?.all isBreak then .keep else .clip

/-- Whether a literal block states its indentation. -/
def statesIndent (cs : List Char) : Bool := cs.head?.any fun c => c = ' ' || isBreak c

/-- The header of a literal block after its bar. -/
def headerChars (cs : List Char) : List Char :=
  (if statesIndent cs then ['4'] else []) ++ chompChars (chompingOf cs)

theorem literal_header_eq_encode (cs : List Char) :
    Written.literalHeader cs = Utf8.encode ('|' :: headerChars cs) := by
  unfold Written.literalHeader headerChars statesIndent chompingOf
  rw [encode_cons, encode_append]
  dsimp only
  rw [show String.utf8EncodeChar '|' = [0x7C] from rfl, List.singleton_append]
  congr 2
  · split <;> rfl
  · cases cs.reverse with
    | nil => rfl
    | cons c before =>
      dsimp only
      split
      · rfl
      · split <;> rfl

theorem break_no_header {c : Char} (broken : isBreak c = true) :
    c ≠ '+' ∧ c ≠ '-' ∧ c.isDigit = false := by
  refine ⟨?_, ?_, ?_⟩
  · rintro rfl
    exact absurd broken (by decide)
  · rintro rfl
    exact absurd broken (by decide)
  · by_contra digit
    have codes : 48 ≤ c.val ∧ c.val ≤ 57 := by simpa [Char.isDigit] using digit
    have between : 48 ≤ c.toNat ∧ c.toNat ≤ 57 :=
      ⟨UInt32.le_iff_toNat_le.mp codes.1, UInt32.le_iff_toNat_le.mp codes.2⟩
    simp only [isBreak, Bool.or_eq_true, decide_eq_true_eq] at broken
    rcases broken with (((rfl | rfl) | h) | h) | h
    · exact absurd between (by decide)
    · exact absurd between (by decide)
    all_goals omega

theorem read_header (given : Bool) (chomping : Chomping) {c : Char} (rest : List Char)
    (broken : isBreak c = true) :
    readHeader ((if given then ['4'] else []) ++ chompChars chomping ++ c :: rest) =
      some (chomping, if given then 4 else 0, c :: rest) := by
  obtain ⟨noPlus, noMinus, noDigit⟩ := break_no_header broken
  have digit : Char.isDigit '4' = true := rfl
  cases given <;> cases chomping <;>
    simp [readHeader, chompChars, noPlus, noMinus, noDigit, digit]

/-- What is read back of a literal block: all but a break at its head. -/
def literalBack (cs : List Char) : List Char :=
  match cs with
  | [] => []
  | c :: rest => if isBreak c then rest else c :: rest

/-- The end of the last line of a block, unless the text has ended it. -/
def blockEndChars (cs : List Char) : List Char :=
  if cs.getLast?.any isBreak then [] else ['\n']

theorem literal_chars_opened {indent : Nat} {cs : List Char} (h : LiteralText cs) :
    ∃ c, isBreak c = true ∧ c ≠ '\r' ∧
      literalChars indent true true cs = c :: literalChars indent true false (literalBack cs) := by
  cases cs with
  | nil => exact absurd h.feed (by simp)
  | cons c rest =>
    by_cases broken : isBreak c = true
    · refine ⟨c, broken, not_return_of_literal (h.printed c (by simp)), ?_⟩
      simp [literalChars, literalBack, broken]
    · refine ⟨'\n', by decide, by decide, ?_⟩
      simp [literalChars, literalBack, broken]

theorem literal_chars_breaks {indent : Nat} {bs : List Char} (cs : List Char)
    (broken : ∀ c ∈ bs, isBreak c = true) :
    literalChars indent true false (bs ++ cs) = bs ++ literalChars indent true false cs := by
  induction bs with
  | nil => rfl
  | cons b bs ih =>
    rw [List.cons_append, literalChars, if_pos (broken b (by simp)),
      ih fun c hc => broken c (by simp [hc]), List.cons_append]

/-! ## Whole blocks -/

theorem literal_back_suffix (cs : List Char) : literalBack cs <:+ cs := by
  cases cs with
  | nil => exact List.suffix_rfl
  | cons c cs =>
    rw [literalBack]
    split
    · exact List.suffix_cons c cs
    · exact List.suffix_rfl

theorem literal_back_reverse {cs before : List Char} {c d : Char}
    (h : cs.reverse = c :: d :: before) (solid : isBreak d = false) :
    ∃ before', (literalBack cs).reverse = c :: d :: before' := by
  have cs_eq : cs = before.reverse ++ [d, c] := by
    rw [← List.reverse_reverse cs, h]
    simp
  cases e : before.reverse with
  | nil => exact ⟨[], by simp [cs_eq, e, literalBack, solid]⟩
  | cons x xs =>
    rw [cs_eq, e, List.cons_append, literalBack]
    split
    · exact ⟨xs.reverse, by simp⟩
    · exact ⟨xs.reverse ++ [x], by simp⟩

/-- Where a text ends in a break, chomping keeps all the breaks that were read. -/
theorem finish_broken {b : BlockLines} {m : Mark} {cs : List Char} (stands : b.Stands false m)
    (whole : b.whole = (literalBack cs).reverse) (broken : cs.getLast?.any isBreak = true) :
    b.finish (chompingOf cs) = literalBack cs := by
  rw [← List.head?_reverse] at broken
  rw [← List.reverse_reverse (literalBack cs), ← whole]
  cases e : cs.reverse with
  | nil => simp [e] at broken
  | cons c before =>
    have ends : isBreak c = true := by simpa [e] using broken
    cases held : before.head?.all isBreak with
    | true =>
      have keep : chompingOf cs = .keep := by simp [chompingOf, e, ends, held]
      rw [keep]
      rfl
    | false =>
      have clip : chompingOf cs = .clip := by simp [chompingOf, e, ends, held]
      cases before with
      | nil => cases held
      | cons d before =>
        have solid : isBreak d = false := by simpa using held
        obtain ⟨before', e'⟩ := literal_back_reverse e solid
        have free := stands.empties_nil (whole.trans e') solid
        rw [clip]
        simp [BlockLines.finish, BlockLines.whole, free]

/-- When a block ends, chomping gives back what was read of it. -/
theorem block_body_finish {indent n : Nat} {b : BlockLines} {m : Mark} {cs r : List Char}
    (stands : b.Stands (!cs.getLast?.any isBreak) m) (whole : b.whole = (literalBack cs).reverse)
    (less : n < indent) (solid : SolidHead r) :
    ∃ b' m', m'.column = n ∧ b'.finish (chompingOf cs) = literalBack cs ∧
      blockBody false indent (!cs.getLast?.any isBreak) b m
        (blockEndChars cs ++ (List.replicate n ' ' ++ r)) = some (b', m', r) := by
  cases broken : cs.getLast?.any isBreak with
  | false =>
    rw [broken] at stands
    obtain ⟨none, free⟩ := stands.inside rfl
    have strip : chompingOf cs = .strip := by
      rw [← List.head?_reverse] at broken
      unfold chompingOf
      cases e : cs.reverse with
      | nil => rfl
      | cons c before =>
        have noBreak : isBreak c = false := by simpa [e] using broken
        simp [noBreak]
    refine ⟨{ b with ending := ['\n'] }, (m.newline 1).skip n, by simp, ?_, ?_⟩
    · rw [strip]
      simp only [BlockLines.whole, none, free, List.nil_append] at whole
      simp [BlockLines.finish, whole]
    · rw [blockEndChars, broken, if_neg (by simp), List.singleton_append, Bool.not_false,
        block_body_line_end _ (by decide) (by decide) (by decide),
        block_body_stop (by simpa using less) solid]
  | true =>
    rw [broken] at stands
    have column := stands.outside rfl
    refine ⟨b, m.skip n, by simp [column], finish_broken stands whole broken, ?_⟩
    rw [blockEndChars, broken, if_pos rfl, List.nil_append, Bool.not_true,
      block_body_stop (by omega) solid]

/-- The lines of a block of an indentation that is known, or else found from them. -/
def blockLines (parent known : Nat) (m : Mark) (rest : List Char) :
    Option (BlockLines × Mark × List Char) := do
  let (widest, breaks, m, rest) ← blockLead known 0 [] m rest
  blockBody false (if known = 0 then max (max widest (parent + 1)) 1 else known) false
    ⟨[], [], breaks, false⟩ m rest

theorem read_block_header {cs rest : List Char} {parent : Nat} {m : Mark} {c : Char}
    (broken : isBreak c = true) (noReturn : c ≠ '\r') :
    ∃ m', m'.column = 0 ∧
      readBlock false parent m (headerChars cs ++ c :: rest) =
        (blockLines parent (if statesIndent cs then parent + 4 else 0) m' rest).map
          fun x => ⟨x.1.finish (chompingOf cs), .lines [] [], x.2.1, x.2.2⟩ := by
  have header := read_header (statesIndent cs) (chompingOf cs) rest broken
  have tail : ∀ m, skipLineTail false m (c :: rest) = some (m, c :: rest) := by
    intro m
    rw [skipLineTail, if_pos broken]
  have next : ∀ m, skipBreak m (c :: rest) = (m.newline 1, rest) := by
    intro m
    rw [skipBreak]
    · rw [if_pos broken]
    · intro _ e
      exact absurd e noReturn
  have top : (max (parent : Int) 0).toNat = parent := by omega
  have first : ((parent : Int) + 1).toNat = parent + 1 := by omega
  refine ⟨(m.skip ((headerChars cs ++ c :: rest).length - (c :: rest).length)).newline 1, rfl, ?_⟩
  simp only [headerChars, readBlock, header, tail, next, blockLines, top, first,
    Option.bind_eq_bind, Option.bind_some]
  cases statesIndent cs <;> simp [Option.map_eq_bind, Option.bind_assoc]

/-- A text of breaks only comes back as the empty lines after the header. -/
theorem block_lines_breaks {parent n : Nat} {m : Mark} {cs r : List Char} (h : LiteralText cs)
    (broken : ∀ c ∈ cs, isBreak c = true) (column : m.column = 0) (less : n ≤ parent)
    (solid : SolidHead r) :
    ∃ b m', m'.column = n ∧ b.finish (chompingOf cs) = literalBack cs ∧
      blockLines parent (parent + 4) m
        (literalChars (parent + 4) true false (literalBack cs) ++
          (blockEndChars cs ++ (List.replicate n ' ' ++ r))) = some (b, m', r) := by
  obtain ⟨c, bs, rfl⟩ := List.exists_cons_of_ne_nil (List.ne_nil_of_mem h.feed)
  have back : literalBack (c :: bs) = bs := by simp [literalBack, broken c (by simp)]
  have tail : ∀ d ∈ bs, isBreak d = true := fun d hd => broken d (by simp [hd])
  have noEnd : blockEndChars (c :: bs) = [] := by
    have last := broken _ (List.getLast_mem (List.cons_ne_nil c bs))
    rw [blockEndChars, List.getLast?_eq_some_getLast (List.cons_ne_nil c bs)]
    simp [last]
  have keep : chompingOf (c :: bs) = .keep := by
    have all : ∀ d ∈ (c :: bs).reverse, isBreak d = true := fun d hd =>
      broken d (List.mem_reverse.mp hd)
    unfold chompingOf
    cases e : (c :: bs).reverse with
    | nil => simp at e
    | cons d before =>
      rw [e] at all
      cases before with
      | nil => simp [all d (by simp)]
      | cons f before => simp [all d (by simp), all f (by simp)]
  obtain ⟨m', column', _, lead⟩ :=
    @block_lead_breaks (parent + 4) m 0 [] bs (List.replicate n ' ' ++ r) column
      fun d hd => ⟨tail d hd, h.printed d (by simp [hd])⟩
  have chars : literalChars (parent + 4) true false bs = bs := by
    simpa [literalChars] using literal_chars_breaks [] tail
  refine ⟨⟨[], [], bs.reverse, false⟩, m'.skip n, by simp [column'], ?_, ?_⟩
  · simp [keep, back, BlockLines.finish]
  · have stop := @block_body_stop (parent + 4) ⟨[], [], bs.reverse, false⟩ (m'.skip n) 0 r
      (by simp [column']; omega) solid
    rw [back, noEnd, List.nil_append, chars, blockLines, lead,
      block_lead_spaces _ (.inr (by omega)), block_lead_solid solid]
    simpa using stop

/-- The indentation of a block is found at its first character, where it is not known before. -/
theorem block_lines_first {parent known : Nat} {m : Mark} {bs : List Char} {c : Char}
    (rest : List Char)
    (broken : ∀ d ∈ bs, isBreak d = true ∧ (Written.isPrintable d = true ∨ d = '\t'))
    (line : isBreak c = false)
    (indented : known = parent + 4 ∨ known = 0 ∧ bs = [] ∧ isBlank c = false)
    (column : m.column = 0) :
    ∃ m', blockLines parent known m (bs ++ (List.replicate (parent + 4) ' ' ++ c :: rest)) =
      blockBody false (parent + 4) true ⟨c :: bs.reverse, [], [], isBlank c⟩ m' rest := by
  obtain ⟨m', column', _, lead⟩ :=
    @block_lead_breaks known m 0 [] bs (List.replicate (parent + 4) ' ' ++ c :: rest) column broken
  have solid : isBlank c = false ∨ known ≠ 0 ∧ known ≤ (m'.skip (parent + 4)).column := by
    rcases indented with rfl | ⟨_, _, blank⟩
    · exact .inr ⟨by omega, by simp⟩
    · exact .inl blank
  have depth :
      (if known = 0 then max (max (parent + 4) (parent + 1)) 1 else known) = parent + 4 := by
    split <;> omega
  refine ⟨(m'.skip (parent + 4)).skip 1, ?_⟩
  rw [blockLines, lead, List.append_nil, block_lead_spaces _ (by omega),
    block_lead_content _ line solid]
  simp only [Option.bind_eq_bind, Option.bind_some, Mark.skip_column, column', Nat.zero_add,
    Nat.zero_max, depth]
  rw [block_body_begin _ line (by simp [column'])]
  simp [BlockLines.whole]

/-- A text with a line that is not empty comes back line by line. -/
theorem block_lines_content {parent known n : Nat} {m : Mark} {cs bs content r : List Char}
    {c : Char} (h : LiteralText cs) (split : literalBack cs = bs ++ c :: content)
    (broken : ∀ d ∈ bs, isBreak d = true) (line : isBreak c = false)
    (indented : known = parent + 4 ∨ known = 0 ∧ bs = [] ∧ isBlank c = false)
    (column : m.column = 0) (less : n ≤ parent) (solid : SolidHead r) :
    ∃ b m', m'.column = n ∧ b.finish (chompingOf cs) = literalBack cs ∧
      blockLines parent known m
        (literalChars (parent + 4) true false (literalBack cs) ++
          (blockEndChars cs ++ (List.replicate n ' ' ++ r))) = some (b, m', r) := by
  have printed : ∀ d ∈ bs ++ c :: content, Written.isPrintable d = true ∨ d = '\t' :=
    fun d hd => h.printed d ((literal_back_suffix cs).subset (split ▸ hd))
  -- the content is the end of the text, so both end in the same character
  have last : content.getLast?.elim true (!isBreak ·) = !cs.getLast?.any isBreak := by
    obtain ⟨before, text⟩ := literal_back_suffix cs
    rw [← text, split]
    cases content with
    | nil => simp [line]
    | cons d content => simp [List.getLast?_append, List.getLast?_cons]
  have chars : literalChars (parent + 4) true false (literalBack cs) =
      bs ++ (List.replicate (parent + 4) ' ' ++
        c :: literalChars (parent + 4) false true content) := by
    rw [split, literal_chars_breaks _ broken, literalChars, if_neg (by simp [line])]
    rfl
  obtain ⟨m₁, first⟩ := block_lines_first
    (literalChars (parent + 4) false true content ++
      (blockEndChars cs ++ (List.replicate n ' ' ++ r)))
    (fun d hd => ⟨broken d hd, printed d (by simp [hd])⟩) line indented column
  obtain ⟨b, m₂, read, whole, stands⟩ :=
    @block_body_chars (parent + 4) ⟨c :: bs.reverse, [], [], isBlank c⟩ m₁ true content
      (blockEndChars cs ++ (List.replicate n ' ' ++ r))
      ⟨fun _ => ⟨rfl, rfl⟩, by simp, by simp, by simp⟩ fun d hd => printed d (by simp [hd])
  rw [last] at read stands
  have all : b.whole = (literalBack cs).reverse := by
    rw [whole, split]
    simp [BlockLines.whole]
  obtain ⟨b', m', column', back, finish⟩ :=
    @block_body_finish (parent + 4) n b m₂ cs r stands all (by omega) solid
  refine ⟨b', m', column', back, ?_⟩
  rw [chars, List.append_assoc, List.append_assoc, List.cons_append, first, ← finish, ← read]
  rfl

/-- A literal block is read up to what follows it. Its text comes back, but for a break at its
head, unless it begins with a tab. -/
theorem read_block {parent n : Nat} {m : Mark} {cs r : List Char} (h : LiteralText cs)
    (noTab : cs.head? ≠ some '\t') (less : n ≤ parent) (solid : SolidHead r) :
    ∃ m', m'.column = n ∧
      readBlock false parent m (headerChars cs ++ (literalChars (parent + 4) true true cs ++
          (blockEndChars cs ++ (List.replicate n ' ' ++ r)))) =
        some ⟨literalBack cs, .lines [] [], m', r⟩ := by
  obtain ⟨c, broken, noReturn, opened⟩ := @literal_chars_opened (parent + 4) cs h
  obtain ⟨m₁, column, header⟩ := @read_block_header cs
    (literalChars (parent + 4) true false (literalBack cs) ++
      (blockEndChars cs ++ (List.replicate n ' ' ++ r))) parent m c broken noReturn
  rw [opened, List.cons_append, header]
  suffices lines : ∃ b m', m'.column = n ∧ b.finish (chompingOf cs) = literalBack cs ∧
      blockLines parent (if statesIndent cs then parent + 4 else 0) m₁
        (literalChars (parent + 4) true false (literalBack cs) ++
          (blockEndChars cs ++ (List.replicate n ' ' ++ r))) = some (b, m', r) by
    obtain ⟨b, m', column', back, read⟩ := lines
    exact ⟨m', column', by rw [read]; simp [back]⟩
  obtain ⟨d, ds, rfl⟩ := List.exists_cons_of_ne_nil (List.ne_nil_of_mem h.feed)
  cases first : isBreak d with
  | true =>
    have states : statesIndent (d :: ds) = true := by simp [statesIndent, first]
    have back : literalBack (d :: ds) = ds := by simp [literalBack, first]
    rw [states, if_pos rfl]
    cases rest : ds.dropWhile isBreak with
    | nil =>
      have all : ∀ e ∈ d :: ds, isBreak e = true := by
        intro e he
        rcases List.mem_cons.mp he with rfl | he
        · exact first
        · exact List.dropWhile_eq_nil_iff.mp rest e he
      exact block_lines_breaks h all column less solid
    | cons e content =>
      have split : literalBack (d :: ds) = ds.takeWhile isBreak ++ e :: content := by
        rw [back, ← rest, List.takeWhile_append_dropWhile]
      have line : isBreak e = false := by
        have stop := List.head?_dropWhile_not isBreak ds
        simpa [rest] using stop
      exact block_lines_content h split (fun x hx => List.mem_takeWhile_imp hx) line (.inl rfl)
        column less solid
  | false =>
    have split : literalBack (d :: ds) = [] ++ d :: ds := by simp [literalBack, first]
    refine block_lines_content h split (by simp) first ?_ column less solid
    by_cases space : d = ' '
    · left
      simp [statesIndent, space]
    · right
      have tab : d ≠ '\t' := by simpa using noTab
      simp [statesIndent, space, first, isBlank, tab]

end Overworld.Yaml
