import Overworld.Proofs.SnapshotRoundTrip

/-!
# Reading does not look ahead

Bytes that are read as a value are read as the same value when more bytes follow. So bytes that are
read to their end cannot be read at all when they are cut off, wherever the cut falls. Readers made
of such readers are of this kind again, and so are all codecs and the decoding of a frame.
-/

set_option autoImplicit false

namespace Overworld

/-! ## Readers made of readers -/

section Readers

variable {α β : Type} {read : Bytes → Option (α × Bytes)}

/-- What a reader makes of bytes stays the same when more bytes follow. -/
def PrefixStable (read : Bytes → Option (α × Bytes)) : Prop :=
  ∀ s x rest, read s = some (x, rest) → ∀ more, read (s ++ more) = some (x, rest ++ more)

namespace PrefixStable

theorem value (x : α) : PrefixStable fun s => some (x, s) := by
  rintro s _ _ ⟨⟩ more
  rfl

theorem nothing : PrefixStable fun _ => (none : Option (α × Bytes)) := by
  intro s x rest h
  cases h

theorem bind {next : α × Bytes → Option (β × Bytes)} (first : PrefixStable read)
    (second : ∀ x, PrefixStable fun s => next (x, s)) : PrefixStable fun s => read s >>= next := by
  intro s y rest h more
  obtain ⟨⟨x, between⟩, here, there⟩ := Option.bind_eq_some_iff.mp h
  dsimp only
  rw [first _ _ _ here more]
  exact second x _ _ _ there more

theorem map {f : α × Bytes → β × Bytes} (first : PrefixStable read)
    (second : ∀ x, PrefixStable fun s => some (f (x, s))) :
    PrefixStable fun s => (read s).map f := by
  simp only [Option.map_eq_bind]
  exact first.bind second

theorem guarded {p : Prop} {decided : Bytes → Decidable p} (h : PrefixStable read) :
    PrefixStable fun s => @guard Option _ p (decided s) >>= fun _ => read s := by
  by_cases holds : p
  · simp only [guard, holds, if_true]
    exact h
  · simp only [guard, holds, if_false]
    exact nothing

theorem ite {p : Prop} [Decidable p] {read' : Bytes → Option (α × Bytes)} (yes : PrefixStable read)
    (no : PrefixStable read') : PrefixStable fun s => if p then read s else read' s := by
  by_cases holds : p
  · simpa only [holds, if_true] using yes
  · simpa only [holds, if_false] using no

/-- A second reader is tried where the first one fails. What only it reads, the first one never
does. -/
theorem or_else {read' : Bytes → Option (α × Bytes)} (first : PrefixStable read)
    (second : PrefixStable read') (apart : ∀ s p, read' s = some p → ∀ s', read s' = none) :
    PrefixStable fun s => (read s).orElse fun _ => read' s := by
  intro s x rest h more
  dsimp only at h ⊢
  cases found : read s with
  | some p =>
    rw [found] at h
    cases h
    rw [first _ _ _ found more]
    rfl
  | none =>
    rw [found] at h
    rw [apart s _ h]
    exact second _ _ _ h more

theorem of_code (empty : read [] = none) (coded : ∀ code, PrefixStable fun s => read (code :: s)) :
    PrefixStable read := by
  intro s x rest h more
  cases s with
  | nil =>
    rw [empty] at h
    cases h
  | cons code s => exact coded code s x rest h more

/-- Bytes that are read to their end cannot be read when they are cut off. -/
theorem cut (h : PrefixStable read) {x : α} {part whole : Bytes} (all : read whole = some (x, []))
    (beginning : part <+: whole) (shorter : part ≠ whole) : read part = none := by
  obtain ⟨more, rfl⟩ := beginning
  cases found : read part with
  | none => rfl
  | some p =>
    have longer := h part p.1 p.2 found more
    rw [all] at longer
    have left : p.2 ++ more = [] := (congrArg Prod.snd (Option.some.inj longer)).symm
    exact absurd (by simp [(List.append_eq_nil_iff.mp left).2]) shorter

end PrefixStable

end Readers

/-! ## Codecs -/

namespace MessagePack

open PrefixStable

theorem take_bytes_stable (n : Nat) : PrefixStable (takeBytes n) := by
  intro s x rest h more
  have long : n ≤ s.length := by
    by_contra short
    simp [takeBytes] at h
    omega
  have taken : (s.take n).length = n := List.length_take_of_le long
  simp only [takeBytes, taken, if_true] at h
  cases h
  simp only [takeBytes, List.take_append_of_le_length long, List.drop_append_of_le_length long,
    taken, if_true]

theorem natural_stable (width : Nat) : PrefixStable (natural width) :=
  (take_bytes_stable width).map fun _ => value _

theorem signed_stable (width : Nat) : PrefixStable (signed width) :=
  (natural_stable width).map fun _ => value _

theorem integer_stable : PrefixStable integer := by
  apply of_code rfl
  intro code
  unfold integer
  refine ite (value _) (ite (value _) (ite (value _) ?_))
  split
  case h_9 => exact nothing
  case h_5 | h_6 | h_7 | h_8 => exact signed_stable _
  all_goals exact (natural_stable _).map fun _ => value _

theorem text_length_stable (code : UInt8) : PrefixStable (textLength code) := by
  unfold textLength
  refine ite (value _) (ite (value _) ?_)
  split
  case h_7 => exact nothing
  all_goals exact natural_stable _

theorem text_stable : PrefixStable text :=
  of_code rfl fun code => (text_length_stable code).bind fun n => take_bytes_stable n

theorem list_length_stable (code : UInt8) : PrefixStable (listLength code) := by
  unfold listLength
  refine ite (value _) (ite (value _) ?_)
  split
  case h_3 => exact nothing
  all_goals exact (natural_stable _).map fun _ => value _

theorem map_length_stable (code : UInt8) : PrefixStable (mapLength code) := by
  unfold mapLength
  refine ite (value _) (ite (value _) ?_)
  split
  case h_3 => exact nothing
  all_goals exact (natural_stable _).map fun _ => value _

theorem extension_length_stable (code : UInt8) : PrefixStable (extensionLength code) := by
  unfold extensionLength
  split
  case h_9 => exact nothing
  case h_6 | h_7 | h_8 => exact (natural_stable _).map fun _ => value _
  all_goals exact value _

theorem extension_not_text {code : UInt8} {s : Bytes} {p : Nat × Bytes}
    (h : extensionLength code s = some p) (s' : Bytes) : textLength code s' = none := by
  unfold extensionLength at h
  split at h
  case h_9 => cases h
  all_goals rfl

theorem content_stable (code : UInt8) :
    PrefixStable fun s => (content code s).map fun c => ((c.1, c.2.1), c.2.2) := by
  have heads := (text_length_stable code).or_else (extension_length_stable code) fun _ _ h =>
    extension_not_text h
  unfold content
  split
  · exact value (0, 0)
  split
  · exact value (0, 2 * (code.toNat - 0x80))
  split
  · exact value (0, code.toNat - 0x90)
  split
  case h_18 =>
    simp only [Option.map_map]
    exact heads.map fun n => value (n, 0)
  case h_14 | h_15 =>
    simp only [Option.map_map]
    exact (natural_stable _).map fun n => value (0, n)
  case h_16 | h_17 =>
    simp only [Option.map_map]
    exact (natural_stable _).map fun n => value (0, 2 * n)
  all_goals
    simp only [Option.map_some]
    exact value _

theorem content_append {code : UInt8} {s rest : Bytes} {bytes values : Nat}
    (h : content code s = some (bytes, values, rest)) (more : Bytes) :
    content code (s ++ more) = some (bytes, values, rest ++ more) := by
  have here := congrArg (Option.map fun c => ((c.1, c.2.1), c.2.2)) h
  have longer := content_stable code s (bytes, values) rest here more
  obtain ⟨⟨b, v, r⟩, found, same⟩ := Option.map_eq_some_iff.mp longer
  cases same
  exact found

/-- The fuel may grow as well: it is the number of the bytes. -/
theorem skip_values_append {fuel pending : Nat} {s rest : Bytes}
    (h : skipValues fuel pending s = some rest) (extra : Nat) (more : Bytes) :
    skipValues (fuel + extra) pending (s ++ more) = some (rest ++ more) := by
  induction fuel generalizing pending s with
  | zero =>
    cases pending with
    | zero =>
      cases h
      simp [skipValues]
    | succ pending => cases h
  | succ fuel ih =>
    cases pending with
    | zero =>
      cases h
      simp [skipValues]
    | succ pending =>
      cases s with
      | nil => cases h
      | cons code s =>
        simp only [skipValues, Option.bind_eq_bind, Option.bind_eq_some_iff] at h
        obtain ⟨⟨bytes, values, s₁⟩, here, ⟨_, s₂⟩, passed, there⟩ := h
        rw [Nat.add_right_comm]
        simp only [skipValues, List.cons_append, content_append here, Option.bind_eq_bind,
          Option.bind_some, take_bytes_stable _ _ _ _ passed more]
        exact ih there

theorem skip_append {s rest : Bytes} (h : skip s = some rest) (more : Bytes) :
    skip (s ++ more) = some (rest ++ more) := by
  rw [skip, List.length_append]
  exact skip_values_append h more.length more

theorem list_not_map {code : UInt8} {s : Bytes} {p : Option Nat × Bytes}
    (h : listLength code s = some p) (unmapped : mapLength code s = none) (s' : Bytes) :
    mapLength code s' = none := by
  unfold listLength at h
  split at h
  · rename_i nil
    subst nil
    cases unmapped
  · split at h
    · rename_i short
      simp only [Bool.and_eq_true, decide_eq_true_eq] at short
      have apart : ¬ code ≤ 0x8F := fun le =>
        absurd (UInt8.le_trans short.1 le) (by decide)
      have other : code ≠ 0xC0 ∧ code ≠ 0xDE ∧ code ≠ 0xDF := by
        refine ⟨?_, ?_, ?_⟩ <;>
        · rintro rfl
          exact absurd short.2 (by decide)
      simp [mapLength, other, apart]
    · split at h
      case h_3 => cases h
      all_goals rfl

namespace Codec

/-- A codec whose reading is stable, whatever it reads over. -/
def Stable {α : Type} (c : Codec α) : Prop := ∀ old, PrefixStable (c.read old)

theorem int16_stable : int16.Stable := fun _ => integer_stable.map fun _ => value _

theorem int32_stable : int32.Stable := fun _ => integer_stable.map fun _ => value _

theorem uint16_stable : uint16.Stable := fun _ => integer_stable.map fun _ => value _

theorem int64_stable : int64.Stable := fun _ => integer_stable.map fun _ => value _

theorem text_stable : text.Stable := fun _ => MessagePack.text_stable

section

variable {α σ : Type} {c : Codec α} {fields : List (Field σ)}

theorem read_items_stable (hc : c.Stable) (zero : α) (n : Nat) (old : List α) :
    PrefixStable (readItems c zero n old) := by
  induction n generalizing old with
  | zero => exact value []
  | succ n ih => exact (hc _).bind fun x => (ih _).bind fun xs => value (x :: xs)

theorem list_stable (hc : c.Stable) (zero : α) : (list c zero).Stable := by
  intro old
  apply of_code rfl
  intro code
  refine (list_length_stable code).bind fun length => ?_
  cases length with
  | none => exact value none
  | some n => exact (read_items_stable hc zero n _).bind fun xs => value (some xs)

/-- A part of a record whose reading is stable. -/
def Field.Stable (f : Field σ) : Prop := ∀ r, PrefixStable (f.read r)

theorem field_stable (hc : c.Stable) {key : String} {get : σ → α} {set : σ → α → σ} :
    (Field.of key c get set).Stable := fun r => (hc (get r)).map fun _ => value _

theorem read_entries_stable (parts : ∀ f ∈ fields, f.Stable) (n : Nat) (r : σ) :
    PrefixStable (readEntries fields n r) := by
  induction n generalizing r with
  | zero => exact value r
  | succ n ih =>
    refine MessagePack.text_stable.bind fun key => ?_
    intro s x rest h more
    dsimp only at h ⊢
    split at h
    · rename_i f found
      exact (parts f (List.mem_of_find?_eq_some found) r).bind ih s x rest h more
    · obtain ⟨between, skipped, h⟩ := Option.bind_eq_some_iff.mp h
      rw [skip_append skipped more]
      exact ih r _ _ _ h more

theorem read_parts_stable (parts : ∀ f ∈ fields, f.Stable) (r : σ) :
    PrefixStable (readParts fields r) := by
  induction fields generalizing r with
  | nil => exact value r
  | cons f fields ih =>
    refine (parts f (by simp) r).bind fun r => ?_
    exact ih (fun g hg => parts g (by simp [hg])) r

theorem record_stable {zero : σ} (parts : fields.Forall Field.Stable) :
    (record zero fields).Stable := by
  have parts := List.forall_iff_forall_mem.mp parts
  intro old
  apply of_code rfl
  intro code s x rest h more
  simp only [record] at h ⊢
  cases length : mapLength code s with
  | some p =>
    obtain ⟨n, s₁⟩ := p
    rw [length] at h
    rw [map_length_stable code _ _ _ length more]
    cases n with
    | none =>
      cases h
      rfl
    | some n => exact read_entries_stable parts n old _ _ _ h more
  | none =>
    rw [length] at h
    obtain ⟨⟨n, s₁⟩, listed, h⟩ := Option.bind_eq_some_iff.mp h
    -- the code is that of a list, so more bytes do not make it the head of a map
    have listed' := list_length_stable code _ _ _ listed more
    simp only [list_not_map listed length, listed', Option.bind_eq_bind, Option.bind_some]
    dsimp only at h
    split at h
    · cases h
      rfl
    · exact ite (read_parts_stable parts old) nothing _ _ _ h more

theorem optional_stable (hc : c.Stable) (zero : α) (empty : ∀ old, c.read old [] = none) :
    (optional c zero).Stable := by
  intro old
  apply of_code
  · simp [optional, empty]
  · intro code
    by_cases nil : code = 0xC0
    · subst nil
      exact value none
    · have other : (fun s => (optional c zero).read old (code :: s)) =
          fun s => (c.read (old.getD zero) (code :: s)).map fun p => (some p.1, p.2) := by
        ext s
        simp only [optional]
        split
        · rename_i same
          exact absurd (List.cons.inj same).1 nil
        · rfl
      rw [other]
      intro s x rest h more
      exact (hc (old.getD zero)).map (fun x => value (some x)) (code :: s) x rest h more

end

end Codec

end MessagePack

namespace Raw

open MessagePack.Codec

theorem Connection.codec_stable : Connection.codec.Stable :=
  record_stable ⟨field_stable text_stable, field_stable text_stable, field_stable int32_stable⟩

theorem Warp.codec_stable : Warp.codec.Stable :=
  record_stable ⟨field_stable int16_stable, field_stable int16_stable, field_stable int64_stable,
    field_stable text_stable, field_stable int64_stable⟩

theorem Object.codec_stable : Object.codec.Stable :=
  record_stable ⟨field_stable text_stable, field_stable int16_stable, field_stable int16_stable,
    field_stable text_stable⟩

theorem MapData.codec_stable : MapData.codec.Stable :=
  record_stable ⟨field_stable text_stable, field_stable text_stable, field_stable text_stable,
    field_stable text_stable, field_stable (list_stable Connection.codec_stable default),
    field_stable (list_stable Warp.codec_stable default),
    field_stable (list_stable Object.codec_stable default)⟩

theorem Layout.codec_stable : Layout.codec.Stable :=
  record_stable ⟨field_stable text_stable, field_stable text_stable, field_stable uint16_stable,
    field_stable uint16_stable, field_stable text_stable, field_stable text_stable,
    field_stable text_stable, field_stable text_stable⟩

theorem Record.codec_stable : Record.codec.Stable :=
  record_stable ⟨field_stable MapData.codec_stable, field_stable Layout.codec_stable⟩

theorem records_codec_stable : recordsCodec.Stable :=
  list_stable (optional_stable Record.codec_stable default fun _ => rfl) none

end Raw

/-! ## Frames -/

namespace Zstandard

open PrefixStable

theorem field_stable (n : Nat) : PrefixStable (Head.field n) := by
  intro s x rest h more
  unfold Head.field at h
  split at h
  · cases h
  · rename_i long
    cases h
    have long : n ≤ s.length := by omega
    have still : ¬ (s ++ more).length < n := by
      rw [List.length_append]
      omega
    simp only [Head.field, if_neg still, List.take_append_of_le_length long,
      List.drop_append_of_le_length long]

theorem head_stable : PrefixStable Head.read := by
  intro s x rest h more
  simp only [Head.read, Option.bind_eq_bind, Option.bind_eq_some_iff] at h ⊢
  obtain ⟨_, descriptor, _, plain, _, window, _, dictionary, _, size, _, bounded, h⟩ := h
  cases h
  exact ⟨_, field_stable _ _ _ _ descriptor more, _, plain, _, field_stable _ _ _ _ window more,
    _, field_stable _ _ _ _ dictionary more, _, field_stable _ _ _ _ size more, _, bounded, rfl⟩

theorem decode_one_append {head : Head} {kind size : Nat} {memory memory' : Memory}
    {out out' : Array UInt8} {s rest : Bytes}
    (h : decodeOne head kind size memory out s = some (memory', out', rest)) (more : Bytes) :
    decodeOne head kind size memory out (s ++ more) = some (memory', out', rest ++ more) := by
  unfold decodeOne at h ⊢
  split at h
  · split at h
    · cases h
    · rename_i long
      cases h
      have long : size ≤ s.length := by omega
      have still : ¬ (s ++ more).length < size := by
        rw [List.length_append]
        omega
      simp only [if_neg still, List.take_append_of_le_length long,
        List.drop_append_of_le_length long]
  · split at h
    · cases h
    · cases h
      rfl
  · split at h
    · cases h
    · rename_i long
      -- a compressed block is decoded from the bytes of its stated size alone
      simp only [Bool.or_eq_true, decide_eq_true_eq, not_or] at long
      obtain ⟨⟨memory₁, out₁⟩, decoded, same⟩ := Option.map_eq_some_iff.mp h
      cases same
      have least : size ≤ s.length := by omega
      have still : ¬ (size < 2 || (s ++ more).length < size) = true := by
        simp only [List.length_append, Bool.or_eq_true, decide_eq_true_eq]
        omega
      simp only [if_neg still, List.take_append_of_le_length least,
        List.drop_append_of_le_length least, decoded, Option.map_some]
  · cases h

/-- The fuel may grow as well: it exceeds the number of the bytes. -/
theorem decode_blocks_append {head : Head} {fuel : Nat} {memory : Memory}
    {out out' : Array UInt8} {s rest : Bytes}
    (h : decodeBlocks head fuel memory out s = some (out', rest)) (extra : Nat) (more : Bytes) :
    decodeBlocks head (fuel + extra) memory out (s ++ more) = some (out', rest ++ more) := by
  induction fuel generalizing memory out s with
  | zero => cases h
  | succ fuel ih =>
    rw [Nat.add_right_comm]
    simp only [decodeBlocks, Option.bind_eq_bind, Option.bind_eq_some_iff] at h ⊢
    obtain ⟨⟨n, s₁⟩, headed, _, fits, ⟨memory', out₁, s₂⟩, decoded, _, sized, h⟩ := h
    refine ⟨_, field_stable 3 _ _ _ headed more, _, fits, _, decode_one_append decoded more, _,
      sized, ?_⟩
    dsimp only at h ⊢
    by_cases last : n % 2 = 1
    · rw [if_pos last] at h ⊢
      cases h
      rfl
    · rw [if_neg last] at h ⊢
      exact ih h

theorem frame_stable : PrefixStable decodeFrame := by
  refine head_stable.bind fun head => ?_
  have blocks : PrefixStable fun s => decodeBlocks head (s.length + 1) Memory.start #[] s := by
    intro s x rest h more
    dsimp only
    rw [List.length_append, Nat.add_right_comm]
    exact decode_blocks_append h more.length more
  refine blocks.bind fun out => guarded ?_
  refine ite ((field_stable 4).bind fun sum => guarded (value _)) (value _)

/-- A frame with these contents, and nothing after it. -/
def IsFrame (frame contents : Bytes) : Prop :=
  ∃ inner, frame = frameMark ++ inner ∧ decodeFrame inner = some (contents, [])

theorem encode_is_frame (contents : Bytes) : IsFrame (encode contents) contents := by
  have frame := decode_frame_written contents []
  rw [List.append_nil] at frame
  exact ⟨_, by simp only [encode, List.append_assoc], frame⟩

/-- A frame that was cut off cannot be decoded, unless nothing is left of it. -/
theorem decode_cut_frame {frame contents part : Bytes} (h : IsFrame frame contents)
    (beginning : part <+: frame) (shorter : part ≠ frame) (nonempty : part ≠ []) :
    decode part = none := by
  obtain ⟨inner, rfl, whole⟩ := h
  obtain ⟨fuel, length⟩ : ∃ fuel, part.length = fuel + 1 :=
    Nat.exists_eq_add_one.mpr (List.length_pos_iff.mpr nonempty)
  rw [decode, length, decodeFrames]
  · by_cases short : part.length < 4
    · have notSkip : isSkipMark part = false := by
        unfold isSkipMark
        split
        · exact absurd short (by simp)
        · rfl
      have unmarked : part ≠ frameMark := by
        rintro rfl
        exact absurd short (by decide)
      simp [List.take_of_length_le (Nat.le_of_lt short), notSkip, unmarked]
    · obtain ⟨rest, rfl⟩ := List.prefix_of_prefix_length_le (List.prefix_append frameMark inner)
        beginning (Nat.le_of_not_lt short)
      have cut : decodeFrame rest = none := by
        apply frame_stable.cut whole
        · exact (List.prefix_append_right_inj frameMark).mp beginning
        · rintro rfl
          exact shorter rfl
      have notSkip : isSkipMark frameMark = false := by decide
      have marked : (frameMark ++ rest).take 4 = frameMark := rfl
      have left : (frameMark ++ rest).drop 4 = rest := rfl
      simp [marked, left, notSkip, cut]
  · exact nonempty

end Zstandard

end Overworld
