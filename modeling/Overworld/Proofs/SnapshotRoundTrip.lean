import Overworld.Snapshot
import Overworld.Proofs.Outcome
import Overworld.Proofs.RawTables
import Overworld.Proofs.Zstandard

/-!
# Snapshots give tables back

Each kind of record is made up of parts that are given back, so it is given back itself. The
records of a table come in the order of their identifiers, no two of them with the same one, and
adding them to an empty table makes the table again.
-/

set_option autoImplicit false

namespace Overworld.Raw

open MessagePack MessagePack.Codec

/-! ## What can be kept

The lengths of texts and lists are kept in at most four bytes. Nothing else is bounded. -/

/-- Whether the texts of a connection can be kept. -/
def Connection.Storable (c : Connection) : Prop := Countable c.direction ∧ Countable c.map

/-- Whether the text of a warp can be kept. -/
def Warp.Storable (w : Warp) : Prop := Countable w.destination

/-- Whether the texts of an object can be kept. -/
def Object.Storable (o : Object) : Prop := Countable o.graphics ∧ Countable o.movement

/-- Whether the texts and lists of a map's own data can be kept. -/
structure MapData.Storable (d : MapData) : Prop where
  id : Countable d.id
  name : Countable d.name
  layout : Countable d.layout
  music : Countable d.music
  connections : Listed Connection.Storable d.connections
  warps : Listed Warp.Storable d.warps
  objects : Listed Object.Storable d.objects

/-- Whether the texts of a layout can be kept. -/
structure Layout.Storable (l : Layout) : Prop where
  id : Countable l.id
  name : Countable l.name
  primary : Countable l.primary
  secondary : Countable l.secondary
  borderPath : Countable l.borderPath
  tilesPath : Countable l.tilesPath

/-- Whether a record can be kept. -/
def Record.Storable (r : Record) : Prop := r.data.Storable ∧ r.layout.Storable

/-- Whether a table can be kept: its records, and their number. -/
def Table.Storable (t : Table) : Prop := Countable t.toList ∧ ∀ r ∈ t.toList, r.Storable

theorem Connection.codec_restores : Connection.codec.Restores Connection.Storable := by
  refine record_restores (by decide) (by decide) (by decide) ?_
  intro r h
  refine ⟨_, .cons (field_copies text_restores h.1) (.cons (field_copies text_restores h.2)
      (.cons (field_copies int32_restores trivial) .nil)), fun _ => rfl⟩

theorem Warp.codec_restores : Warp.codec.Restores Warp.Storable := by
  refine record_restores (by decide) (by decide) (by decide) ?_
  intro r h
  refine ⟨_, .cons (field_copies int16_restores trivial)
      (.cons (field_copies int16_restores trivial)
      (.cons (field_copies int64_restores trivial) (.cons (field_copies text_restores h)
        (.cons (field_copies int64_restores trivial) .nil)))), fun _ => rfl⟩

theorem Object.codec_restores : Object.codec.Restores Object.Storable := by
  refine record_restores (by decide) (by decide) (by decide) ?_
  intro r h
  refine ⟨_, .cons (field_copies text_restores h.1) (.cons (field_copies int16_restores trivial)
      (.cons (field_copies int16_restores trivial) (.cons (field_copies text_restores h.2) .nil))),
    fun _ => rfl⟩

theorem MapData.codec_restores : MapData.codec.Restores MapData.Storable := by
  have connections := list_restores Connection.codec_restores default
  have warps := list_restores Warp.codec_restores default
  have objects := list_restores Object.codec_restores default
  refine record_restores (by decide) (by decide) (by decide) ?_
  intro r h
  refine ⟨_, .cons (field_copies text_restores h.id) (.cons (field_copies text_restores h.name)
      (.cons (field_copies text_restores h.layout) (.cons (field_copies text_restores h.music)
        (.cons (field_copies connections h.connections) (.cons (field_copies warps h.warps)
          (.cons (field_copies objects h.objects) .nil)))))), fun _ => rfl⟩

theorem Layout.codec_restores : Layout.codec.Restores Layout.Storable := by
  refine record_restores (by decide) (by decide) (by decide) ?_
  intro r h
  refine ⟨_, .cons (field_copies text_restores h.id) (.cons (field_copies text_restores h.name)
      (.cons (field_copies uint16_restores trivial) (.cons (field_copies uint16_restores trivial)
        (.cons (field_copies text_restores h.primary)
          (.cons (field_copies text_restores h.secondary)
            (.cons (field_copies text_restores h.borderPath)
              (.cons (field_copies text_restores h.tilesPath) .nil))))))), fun _ => rfl⟩

theorem Record.codec_restores : Record.codec.Restores Record.Storable := by
  refine record_restores (by decide) (by decide) (by decide) ?_
  intro r h
  refine ⟨_, .cons (field_copies MapData.codec_restores h.1)
      (.cons (field_copies Layout.codec_restores h.2) .nil), fun _ => rfl⟩

theorem records_codec_restores :
    recordsCodec.Restores (Listed fun x => ∀ r, x = some r → r.Storable) := by
  apply list_restores
  apply optional_restores Record.codec_restores
  -- The first byte of a record is the code of a map of two entries.
  intro r rest first
  rw [Record.codec, record, mapHead, if_pos (by decide)] at first
  simp at first

end Overworld.Raw

namespace Overworld.Snapshot

open Raw (Record Table)
open Bytes (drop_beginning_append)

theorem insert_eq_ok (t : Table) (x : Option Record) (t' : Table) :
    insert t x = .ok t' ↔ ∃ r, x = some r ∧ t.get? r.data.id = none ∧ t' = t.add r := by
  cases x with
  | none => simp [insert, fail]
  | some r => cases found : t.get? r.data.id <;> simp [insert, found, fail, eq_comm]

/-- Records are all added exactly if none is missing and their identifiers are new and distinct. -/
theorem foldlM_insert_eq_ok {xs : List (Option Record)} {t t' : Table} :
    xs.foldlM insert t = .ok t' ↔ ∃ rs : List Record, xs = rs.map some ∧
      (rs.map (·.data.id)).Nodup ∧ (∀ r ∈ rs, t.get? r.data.id = none) ∧
        t' = rs.foldl Table.add t := by
  have listed : ∀ rs : List Record,
      List.Forall₂ (fun x r => x = some r) xs rs ↔ xs = rs.map some := by
    intro rs
    rw [← List.forall₂_eq_eq_eq, List.forall₂_map_right_iff]
  simp only [Table.foldlM_eq_ok_iff insert_eq_ok, listed]

theorem read_body {t : Table} (h : t.Storable) :
    Raw.recordsCodec.read none (body t) = some (some (t.toList.map some), []) := by
  have listed : MessagePack.Codec.Listed (fun x => ∀ r : Record, x = some r → r.Storable)
      (some (t.toList.map some)) := by
    intro xs e
    obtain rfl := Option.some.inj e
    refine ⟨by simpa [MessagePack.Codec.Countable] using h.1, ?_⟩
    intro x hx r e
    obtain ⟨s, hs, rfl⟩ := List.mem_map.mp hx
    obtain rfl := Option.some.inj e
    exact h.2 _ hs
  have read := Raw.records_codec_restores _ listed none []
  rwa [List.append_nil] at read

theorem of_body_read {t : Table} {packed rest : Bytes}
    (read : Raw.recordsCodec.read none packed = some (some (t.toList.map some), rest)) :
    ofBody packed = .ok t := by
  have distinct : (t.toList.map (·.data.id)).Nodup := by
    rw [Table.to_list_ids]
    exact t.records.keys_nodup
  have rebuilt : (t.toList.map some).foldlM insert Table.empty = .ok t :=
    foldlM_insert_eq_ok.mpr ⟨t.toList, rfl, distinct, fun _ _ => rfl, t.foldl_add_to_list.symm⟩
  rw [ofBody, read]
  exact rebuilt

theorem decode_marked (rest : Bytes) : decode (mark ++ rest) =
    (Zstandard.decode rest).elim (fail .snapshotBody) ofBody := by
  rw [decode, drop_beginning_append]
  dsimp only
  cases Zstandard.decode rest <;> rfl

/-- A frame gives a table if it gives a document and that gives the records of the table. -/
theorem decode_packed {t : Table} {packed rest frame : Bytes}
    (decompressed : Zstandard.decode frame = some packed)
    (read : Raw.recordsCodec.read none packed = some (some (t.toList.map some), rest)) :
    decode (mark ++ frame) = .ok t := by
  rw [decode_marked, decompressed]
  exact of_body_read read

/-- Decoding the snapshot of a table gives the table back: the same records under the same
identifiers, equal in every part. Of compression it matters only that it loses nothing of the
body, and the compression at hand loses nothing. -/
theorem decode_snapshot (t : Table) (h : t.Storable) :
    (∀ compress : Bytes → Bytes, Zstandard.decode (compress (body t)) = some (body t) →
      decode (mark ++ compress (body t)) = .ok t) ∧
    (encode .standard t).bind decode = .ok t := by
  refine ⟨fun compress lossless => decode_packed lossless (read_body h), ?_⟩
  exact decode_packed (Zstandard.decode_encode _) (read_body h)

/-- A record with least numbers, a missing list and an empty one. -/
def extremeRecord : Record where
  data := {
    id := utf8 "MAP_A"
    name := []
    layout := []
    music := []
    connections := none
    warps := some []
    objects := some [⟨utf8 "OBJ", -0x8000, 0x7FFF, []⟩] }
  layout := ⟨[], [], 0, 0xFFFF, [], [], [], []⟩

theorem decode_snapshot_extreme :
    (Table.empty.add extremeRecord).Storable ∧
      (encode .standard (Table.empty.add extremeRecord)).bind decode =
        .ok (Table.empty.add extremeRecord) := by
  have objects : ∀ o ∈ [(⟨utf8 "OBJ", -0x8000, 0x7FFF, []⟩ : Raw.Object)], o.Storable := by
    intro o ho
    obtain rfl := List.mem_singleton.mp ho
    constructor <;> decide
  have record : extremeRecord.Storable := by
    refine ⟨⟨?_, ?_, ?_, ?_, ?_, ?_, ?_⟩, ⟨?_, ?_, ?_, ?_, ?_, ?_⟩⟩
    case refine_5 => exact nofun
    case refine_6 =>
      rintro xs ⟨⟩
      exact ⟨by decide, nofun⟩
    case refine_7 =>
      rintro xs ⟨⟩
      exact ⟨by decide, objects⟩
    all_goals decide
  have storable : (Table.empty.add extremeRecord).Storable := by
    refine ⟨by decide, ?_⟩
    intro r hr
    obtain rfl : r = extremeRecord := List.mem_singleton.mp hr
    exact record
  exact ⟨storable, (decode_snapshot _ storable).2⟩

/-! ## Any writer -/

/-- Whatever is packed can be unpacked, and whatever is compressed can be decompressed. -/
structure Writer.Lossless (w : Writer) : Prop where
  unpacked : ∀ rs packed, w.pack rs = .ok packed →
    ∃ rest, Raw.recordsCodec.read none packed = some (some (rs.map some), rest)
  decompressed : ∀ contents, Zstandard.decode (w.compress contents) = some contents

/-- What those rely on who write the snapshot of a table and later read it: a writer that loses
nothing, or the standard one where four bytes are enough for every length. -/
def Writer.Keeps (w : Writer) (t : Table) : Prop := w.Lossless ∨ w = .standard ∧ t.Storable

theorem encode_eq_ok {w : Writer} {t : Table} {bytes : Bytes} : encode w t = .ok bytes ↔
    ∃ packed, w.pack t.toList = .ok packed ∧ bytes = mark ++ w.compress packed := by
  unfold encode
  rw [except_bind_eq_ok]
  simp only [in_step_eq_ok, pure, Except.pure, Except.ok.injEq, @eq_comm _ bytes]

theorem decode_encode {w : Writer} {t : Table} (h : w.Keeps t) {bytes : Bytes}
    (encoded : encode w t = .ok bytes) : decode bytes = .ok t := by
  obtain ⟨packed, done, rfl⟩ := encode_eq_ok.mp encoded
  rcases h with lossless | ⟨rfl, storable⟩
  · obtain ⟨rest, read⟩ := lossless.unpacked _ _ done
    exact decode_packed (lossless.decompressed packed) read
  · cases done
    exact decode_packed (Zstandard.decode_encode _) (read_body storable)

/-- Packs records only if they can be unpacked again. -/
def Writer.checked : Writer where
  pack rs :=
    if (Raw.recordsCodec.read none (Snapshot.pack rs)).map Prod.fst = some (some (rs.map some)) then
      .ok (Snapshot.pack rs)
    else fail .snapshotBody
  compress := Zstandard.encode

theorem checked_lossless : Writer.checked.Lossless := by
  refine ⟨?_, Zstandard.decode_encode⟩
  intro rs packed done
  simp only [Writer.checked] at done
  split at done
  · rename_i same
    cases done
    obtain ⟨⟨_, rest⟩, read, rfl⟩ := Option.map_eq_some_iff.mp same
    exact ⟨rest, read⟩
  · cases done

end Overworld.Snapshot
