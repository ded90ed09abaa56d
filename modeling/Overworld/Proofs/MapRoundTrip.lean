import Overworld.Proofs.MapDocument
import Overworld.Proofs.MapValidation

/-!
# Map files are read back

A valid map of printable texts is read back from its own document, unless one of its warps or
characters stands under the key `<<`: that key is written plain, and a plain `<<` asks for the
entries of another mapping.
-/

set_option autoImplicit false

namespace Overworld

open Yaml

/-- A text of printable ASCII characters. -/
def IsPrintable (s : Bytes) : Prop := ∀ b ∈ s, Visible b

instance (s : Bytes) : Decidable (IsPrintable s) := inferInstanceAs (Decidable (∀ b ∈ s, Visible b))

theorem IsPrintable.key_text {s : Bytes} (h : IsPrintable s) : KeyText s := by
  have ascii : ∀ b ∈ s, b.toNat < 0x80 := by
    intro b hb
    have := (h b hb).2
    omega
  have valid : Utf8.isValid s = true := by
    rw [← encode_ascii_chars ascii]
    exact Utf8.is_valid_encode _
  have shape : Written.shape s = ⟨false, asciiChars s⟩ := by
    rw [Written.shape, if_pos valid, chars_ascii ascii]
  constructor
  · rw [shape]
  · rw [shape]
    intro c hc
    obtain ⟨b, hb, rfl⟩ := List.mem_map.mp hc
    exact visible_char (h b hb)

theorem IsPrintable.scans {s : Bytes} (h : IsPrintable s) : TextScans s := h.key_text.scans

theorem IsPrintable.read_back {s : Bytes} (h : IsPrintable s) : readBack s = s :=
  h.key_text.read_back

theorem direction_key {k : Bytes} (h : k ∈ Direction.all.map Direction.name) :
    KeyText k ∧ k ≠ mergeKey := by
  revert k
  decide

namespace WorldMap

variable {m : WorldMap}

/-- The keys of a valid map are read back where those of its warps and characters are printable. -/
theorem keyed_of_printable (consistent : m.Consistent)
    (keys : ∀ k, k ∈ m.warps.keys ∨ k ∈ m.npcs.keys → IsPrintable k) : m.Keyed := by
  constructor
  case chunk =>
    intro c hc
    have direction := fun k hk => direction_key (consistent.directions c hc k hk)
    exact ⟨fun k hk => (direction k hk).1, fun merge => (direction _ merge).2 rfl⟩
  case warps => exact fun k hk => (keys k (.inl hk)).key_text
  case npcs => exact fun k hk => (keys k (.inr hk)).key_text

theorem printable_part (h : ∀ s ∈ m.texts, IsPrintable s) {s : Bytes}
    (part : s ∈ entriesTexts m.fields ∨ s ∈ m.warps.keys ∨ s ∈ m.npcs.keys) : IsPrintable s := by
  by_cases empty : s = []
  · rw [empty]
    decide
  · exact h s ((m.mem_texts_iff empty).mpr part)

theorem keyed_printable (consistent : m.Consistent) (h : ∀ s ∈ m.texts, IsPrintable s) :
    m.Keyed :=
  keyed_of_printable consistent fun _ hk => printable_part h (.inr hk)

theorem scans_printable (h : ∀ s ∈ m.texts, IsPrintable s) :
    ∀ s ∈ entriesTexts m.fields, TextScans s :=
  fun _ hs => (printable_part h (.inl hs)).scans

theorem load_iff {s : Bytes} : load s = .ok m ↔
    Document.decode documentOutline documentDecoder default s = some m ∧ m.Consistent := by
  unfold load
  cases Document.decode documentOutline documentDecoder default s with
  | none => simp [fail]
  | some m' =>
    rw [check_bind_eq_ok, in_step_eq_ok, validate_iff, Option.some.injEq]
    constructor
    · rintro ⟨consistent, same⟩
      cases same
      exact ⟨rfl, consistent⟩
    · rintro ⟨rfl, consistent⟩
      exact ⟨consistent, rfl⟩

/-- A map whose texts stay as they are stays as it is. -/
theorem map_texts_self {f : Bytes → Bytes} (h : ∀ s ∈ m.texts, f s = s) : m.mapTexts f = m := by
  have location : ∀ l : Location, (∀ s ∈ l.texts, f s = s) → l.mapTexts f = l := by
    intro l same
    rw [Location.mapTexts, same l.scope (by simp [Location.texts]),
      same l.index (by simp [Location.texts])]
  have chunk : m.chunk.map (Chunk.mapTexts f) = m.chunk := by
    cases present : m.chunk with
    | none => rfl
    | some c =>
      apply congrArg some
      apply Dict.map_eq_self
      intro e he
      rw [Connection.mapTexts, location e.2.location]
      intro s hs
      apply h
      simp only [texts, List.mem_append, List.mem_flatMap, Option.mem_toList]
      exact .inl (.inl (.inr ⟨c, present, e, he, hs⟩))
  have warps : m.warps.map (Warp.mapTexts f) = m.warps := by
    apply Dict.map_eq_self
    intro e he
    have same : ∀ s ∈ Warp.texts e, f s = s := by
      intro s hs
      apply h
      simp only [texts, List.mem_append, List.mem_flatMap]
      exact .inl (.inr ⟨e, he, hs⟩)
    rw [Warp.mapTexts, location e.2.location fun s hs => same s (by simp [Warp.texts, hs]),
      Position.mapTexts, same e.2.position.facing (by simp [Warp.texts])]
  have npcs : m.npcs.map (Npc.mapTexts f) = m.npcs := by
    apply Dict.map_eq_self
    intro e he
    have same : ∀ s ∈ Npc.texts e, f s = s := by
      intro s hs
      apply h
      simp only [texts, List.mem_append, List.mem_flatMap]
      exact .inr ⟨e, he, hs⟩
    rw [Npc.mapTexts, Position.mapTexts, same e.2.name (by simp [Npc.texts]),
      same e.2.typeId (by simp [Npc.texts]), same e.2.stance (by simp [Npc.texts]),
      same e.2.position.facing (by simp [Npc.texts])]
  rw [mapTexts, location m.id fun s hs => h s (by simp [texts, hs]), chunk, warps, npcs,
    h m.name (by simp [texts]), h m.music (by simp [texts])]

theorem unmerged_of_load (keyed : m.Keyed) (scans : ∀ s ∈ entriesTexts m.fields, TextScans s)
    (loaded : load m.render = .ok m) : mergeKey ∉ m.warps.keys ∧ mergeKey ∉ m.npcs.keys := by
  have decoded := (load_iff.mp loaded).1
  rw [document_decode keyed scans] at decoded
  obtain ⟨warps, warpsRead, decoded⟩ := Option.bind_eq_some_iff.mp decoded
  obtain ⟨npcs, npcsRead, same⟩ := Option.bind_eq_some_iff.mp decoded
  have fields := Option.some.inj same
  have warpsSame : warps = m.warps := congrArg WorldMap.warps fields
  have npcsSame : npcs = m.npcs := congrArg WorldMap.npcs fields
  rw [← warpsSame, ← npcsSame]
  exact ⟨dict_unmerged (warps_shaped keyed 0) warpsRead,
    dict_unmerged (npcs_shaped keyed 0) npcsRead⟩

/-- A valid map of printable texts is read back from its document exactly if neither a warp nor a
character stands under the merge key. -/
theorem load_render_iff (m : WorldMap) (valid : m.validate = .ok ())
    (printable : ∀ s ∈ m.texts, IsPrintable s) :
    load m.render = .ok m ↔ utf8 "<<" ∉ m.warps.keys ∧ utf8 "<<" ∉ m.npcs.keys := by
  have consistent := (validate_iff m).mp valid
  have keyed := keyed_printable consistent printable
  have scans := scans_printable printable
  constructor
  · exact unmerged_of_load keyed scans
  · rintro ⟨warps, npcs⟩
    have decoded := document_gives keyed scans warps npcs
    rw [map_texts_self fun s hs => (printable s hs).read_back] at decoded
    exact load_iff.mpr ⟨decoded, consistent⟩

/-- A map with one neighbour, one warp and one character, who stands under a key. Its texts look
like other values. -/
def crossing (key : Bytes) : WorldMap where
  id := ⟨utf8 "null", utf8 "- 1:30"⟩
  name := utf8 "<<"
  chunk := some (Dict.empty.insert (utf8 "up") ⟨⟨[], utf8 "true"⟩, -2147483648⟩)
  warps := Dict.empty.insert (utf8 "2001-01-01")
    ⟨⟨⟨-32768, 32767⟩, ⟨0, 0⟩⟩, ⟨utf8 "~", utf8 "0x10"⟩, ⟨⟨-1, 1⟩, utf8 "y"⟩, ⟨true, false, true⟩⟩
  npcs := Dict.empty.insert key ⟨[], utf8 "'", utf8 " #", ⟨⟨2, 3⟩, []⟩⟩
  width := 1
  height := 2
  palettes := ⟨0, 255⟩
  music := utf8 "1e3"
  tiles := [0, 65535]
  movements := [255, 0]
  border := ⟨1, 2, 3, 65535⟩

theorem crossing_read_back :
    (crossing (utf8 "*a: \x22b")).validate = .ok () ∧
      (∀ s ∈ (crossing (utf8 "*a: \x22b")).texts, IsPrintable s) ∧
      load (crossing (utf8 "*a: \x22b")).render = .ok (crossing (utf8 "*a: \x22b")) :=
  ⟨rfl, by decide, (load_render_iff _ rfl (by decide)).mpr (by decide)⟩

/-- Under the merge key the character is lost, and with it the map. -/
theorem merge_key_not_read_back :
    (crossing (utf8 "<<")).validate = .ok () ∧
      (∀ s ∈ (crossing (utf8 "<<")).texts, IsPrintable s) ∧
      load (crossing (utf8 "<<")).render ≠ .ok (crossing (utf8 "<<")) := by
  have valid : (crossing (utf8 "<<")).validate = .ok () := rfl
  have printable : ∀ s ∈ (crossing (utf8 "<<")).texts, IsPrintable s := by decide
  have keyed := keyed_printable ((validate_iff _).mp valid) printable
  have unmerged := unmerged_of_load keyed (scans_printable printable)
  refine ⟨valid, printable, fun loaded => (unmerged loaded).2 ?_⟩
  decide

end WorldMap

end Overworld
