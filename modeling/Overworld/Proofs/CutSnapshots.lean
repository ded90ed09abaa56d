import Overworld.Proofs.PrefixStability
import Overworld.Proofs.SnapshotLoading
import Overworld.Proofs.SourceDirectories

/-!
# Snapshots that were cut off

A file that was cut off begins without the whole mark, or its frame was cut off. A frame may also be
whole and hold contents that were cut off. In each case the snapshot is reported as bad, and in none
does it give a table with fewer records or with others.
-/

set_option autoImplicit false

namespace Overworld

namespace Snapshot

open Raw (Record Table)

variable {t : Table} {bytes cut frame part : Bytes}

/-- The bytes are reported as a bad snapshot. -/
def Rejected (bytes : Bytes) : Prop :=
  ∃ f, decode bytes = .error f ∧ f.cause.isBadSnapshot = true

theorem rejected_of_fail {cause : Cause} (h : decode bytes = fail cause)
    (bad : cause.isBadSnapshot = true) : Rejected bytes :=
  ⟨_, h, bad⟩

theorem decode_cut_mark (beginning : cut <+: mark) (shorter : cut ≠ mark) :
    decode cut = fail .snapshotMark := by
  have unmarked : Bytes.dropBeginning? mark cut = none := by
    cases found : Bytes.dropBeginning? mark cut with
    | none => rfl
    | some rest =>
      have begins : cut.beginsWith mark = true := by rw [Bytes.beginsWith, found]; rfl
      obtain ⟨rest, rfl⟩ := Bytes.append_of_begins begins
      exact absurd (beginning.eq_of_length_le (by simp)) shorter
  rw [decode, unmarked]

theorem cut_frame_rejected (h : Zstandard.IsFrame frame (body t))
    (beginning : cut <+: mark ++ frame) (shorter : cut ≠ mark ++ frame) : Rejected cut := by
  by_cases marked : mark <+: cut
  · obtain ⟨part, rfl⟩ := marked
    have inside : part <+: frame := (List.prefix_append_right_inj mark).mp beginning
    have less : part ≠ frame := by
      rintro rfl
      exact shorter rfl
    by_cases empty : part = []
    · subst empty
      exact rejected_of_fail (decode_marked []) rfl
    · have undecoded := Zstandard.decode_cut_frame h inside less empty
      have failed := decode_marked part
      rw [undecoded] at failed
      exact rejected_of_fail failed rfl
  · have either := List.prefix_or_prefix_of_prefix beginning (List.prefix_append mark frame)
    have before : cut <+: mark := either.resolve_right marked
    refine rejected_of_fail (decode_cut_mark before ?_) rfl
    rintro rfl
    exact marked List.prefix_rfl

/-- Contents that were cut off are unreadable, or read like the whole. -/
theorem of_body_cut {whole : Bytes} (beginning : part <+: whole) :
    ofBody part = fail .snapshotBody ∨ ofBody part = ofBody whole := by
  obtain ⟨more, rfl⟩ := beginning
  cases read : Raw.recordsCodec.read none part with
  | none => exact .inl (by rw [ofBody, read])
  | some p =>
    have longer := Raw.records_codec_stable none part p.1 p.2 read more
    exact .inr (by rw [ofBody, ofBody, read, longer])

theorem of_body_cut_body (h : t.Storable) (beginning : part <+: body t) (shorter : part ≠ body t) :
    ofBody part = fail .snapshotBody := by
  have unread := (Raw.records_codec_stable none).cut (read_body h) beginning shorter
  rw [ofBody, unread]

/-- A snapshot that was cut off is reported as bad, wherever it was cut and whatever frame its
records were compressed to. So is one whose frame is whole but holds only a beginning of the
records, if their texts and lists are shorter than what can be counted in four bytes. Even if they
are not, a beginning of the records is never read as anything else than the whole. -/
theorem cut_snapshots_rejected (t : Table) :
    (∀ w bytes, w.pack t.toList = .ok (body t) → Zstandard.IsFrame (w.compress (body t)) (body t) →
      encode w t = .ok bytes → ∀ cut, cut <+: bytes → cut ≠ bytes → Rejected cut) ∧
    (∀ frame, Zstandard.IsFrame frame (body t) →
      ∀ cut, cut <+: mark ++ frame → cut ≠ mark ++ frame → Rejected cut) ∧
    (∀ frame part, Zstandard.decode frame = some part → part <+: body t →
      Rejected (mark ++ frame) ∨ decode (mark ++ frame) = ofBody (body t)) ∧
    (t.Storable → ∀ frame part, Zstandard.decode frame = some part → part <+: body t →
      part ≠ body t → Rejected (mark ++ frame)) := by
  refine ⟨?_, ?_, ?_, ?_⟩
  · intro w bytes packed framed encoded cut beginning shorter
    obtain ⟨_, packed', rfl⟩ := encode_eq_ok.mp encoded
    cases packed.symm.trans packed'
    exact cut_frame_rejected framed beginning shorter
  · intro frame framed cut beginning shorter
    exact cut_frame_rejected framed beginning shorter
  · intro frame part decoded beginning
    have opened := decode_marked frame
    rw [decoded] at opened
    rcases of_body_cut beginning with unread | same
    · exact .inl (rejected_of_fail (opened.trans unread) rfl)
    · exact .inr (opened.trans same)
  · intro storable frame part decoded beginning shorter
    have opened := decode_marked frame
    rw [decoded] at opened
    exact rejected_of_fail (opened.trans (of_body_cut_body storable beginning shorter)) rfl

/-- A map with one connection. -/
def pier : Record where
  data := {
    id := utf8 "MAP_PIER"
    name := utf8 "Pier"
    layout := utf8 "LAYOUT"
    music := []
    connections := some [⟨utf8 "up", utf8 "MAP_TOWN", -1⟩]
    warps := none
    objects := some [] }
  layout := ⟨utf8 "LAYOUT", [], 1, 1, [], [], [], []⟩

/-- A snapshot is cut off in its frame, and its contents in the middle of a connection. -/
theorem cut_pier_rejected :
    let t := Table.empty.add pier
    t.Storable ∧ (∃ bytes, encode .standard t = .ok bytes ∧ Rejected (bytes.take 11)) ∧
      Rejected (mark ++ Zstandard.encode ((body t).take 88)) := by
  intro t
  have connections : ∀ c ∈ [(⟨utf8 "up", utf8 "MAP_TOWN", -1⟩ : Raw.Connection)], c.Storable := by
    intro c hc
    obtain rfl := List.mem_singleton.mp hc
    constructor <;> decide
  have record : pier.Storable := by
    refine ⟨⟨?_, ?_, ?_, ?_, ?_, ?_, ?_⟩, ⟨?_, ?_, ?_, ?_, ?_, ?_⟩⟩
    case refine_5 =>
      rintro xs ⟨⟩
      exact ⟨by decide, connections⟩
    case refine_6 =>
      intro xs missing
      cases missing
    case refine_7 =>
      rintro xs ⟨⟩
      exact ⟨by decide, by simp⟩
    all_goals decide
  have storable : t.Storable := by
    refine ⟨by decide, ?_⟩
    intro r hr
    obtain rfl : r = pier := List.mem_singleton.mp hr
    exact record
  obtain ⟨files, _, _, bodies⟩ := cut_snapshots_rejected t
  refine ⟨storable, ⟨_, rfl, ?_⟩, ?_⟩
  · exact files .standard _ rfl (Zstandard.encode_is_frame _) rfl _ (List.take_prefix 11 _)
      (by decide +kernel)
  exact bodies storable _ _ (Zstandard.decode_encode _) (List.take_prefix 88 _) (by decide +kernel)

/-! ## Lengths that take more than four bytes -/

/-- A map of which a text is written last. -/
def quarry (text : Bytes) : Record where
  data := { (default : Raw.MapData) with id := utf8 "MAP_QUARRY" }
  layout := { (default : Raw.Layout) with tilesPath := text }

theorem pack_quarry_ends : ∃ before, ∀ text,
    pack [quarry text] = before ++ MessagePack.Codec.text.write text := by
  apply Exists.intro
  intro text
  simp only [pack, quarry, Raw.recordsCodec, Raw.Record.codec, Raw.Layout.codec,
    MessagePack.Codec.list, MessagePack.Codec.optional, MessagePack.Codec.record,
    MessagePack.Codec.Field.of, List.map_cons, List.map_nil, List.flatMap_cons, List.flatMap_nil,
    List.append_nil, List.length_cons, List.length_nil, ← List.append_assoc]
  rfl

/-- A text of 2^32 bytes is written with the length 0. -/
theorem write_giant {text : Bytes} (h : text.length = 2 ^ 32) :
    MessagePack.Codec.text.write text = [0xDB, 0, 0, 0, 0] ++ text := by
  simp only [MessagePack.Codec.text, h]
  rfl

/-- The records of a quarry up to the length 0 of its text. -/
def quarryPart : Bytes := (pack [quarry []]).dropLast ++ [0xDB, 0, 0, 0, 0]

theorem pack_quarry {text : Bytes} (h : text.length = 2 ^ 32) :
    pack [quarry text] = quarryPart ++ text := by
  obtain ⟨before, ends⟩ := pack_quarry_ends
  have shortest : MessagePack.Codec.text.write [] = [0xA0] := by decide
  rw [quarryPart, ends [], shortest, List.dropLast_concat, ends text, write_giant h,
    List.append_assoc]

/-- Where a text has 2^32 bytes, the records can be cut off right before it and no one notices: what
is left is read as a table, another one. -/
theorem giant_text_cut_unnoticed : ∃ (t : Table) (part : Bytes), part <+: body t ∧ part ≠ body t ∧
    ∃ t', decode (mark ++ Zstandard.encode part) = .ok t' ∧ t' ≠ t := by
  obtain ⟨text, length⟩ : ∃ text : Bytes, text.length = 2 ^ 32 :=
    ⟨List.replicate (2 ^ 32) 0, List.length_replicate⟩
  have long : text ≠ [] := by
    rintro rfl
    cases length
  have whole : body (Table.empty.add (quarry text)) = quarryPart ++ text := pack_quarry length
  refine ⟨Table.empty.add (quarry text), quarryPart, ?_, ?_, Table.empty.add (quarry []), ?_, ?_⟩
  · exact ⟨text, whole.symm⟩
  · rw [whole]
    intro same
    exact long (List.append_right_eq_self.mp same.symm)
  · have read : Raw.recordsCodec.read none quarryPart = some (some [some (quarry [])], []) := by
      decide +kernel
    exact decode_packed (Zstandard.decode_encode quarryPart) read
  · intro same
    have got := congrArg (fun t => t.toList.map (·.layout.tilesPath)) same
    exact long (List.cons.inj got).1.symm

end Snapshot

end Overworld
