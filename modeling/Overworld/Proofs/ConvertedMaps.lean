import Overworld.Proofs.Conversion
import Overworld.Proofs.MapRoundTrip
import Overworld.Proofs.Yaml.TabbedBlocks
import Overworld.World.Output

/-!
# Converted maps are written and read again

Before a map is written its document is read back and checked. A converted map is valid, but a
text may be read back changed: an index that is a single line feed comes back empty, and that is
the only thing for which the check refuses what was read. A text that is written as a block and
begins with a tab keeps the document from being read at all.
-/

set_option autoImplicit false

namespace Overworld

open Yaml

/-! ## What reading back does to a valid map -/

/-- The locations that a map names: its own, its neighbours and where its warps lead. -/
def WorldMap.locations (m : WorldMap) : List Location :=
  m.id :: (m.chunk.toList.flatMap fun c => (Dict.entries c).map fun e => e.2.location) ++
    m.warps.entries.map fun e => e.2.location

theorem Location.read_back_named {l : Location} (h : l.Named) :
    (l.mapTexts readBack).Named ↔ l.index ≠ utf8 "\n" := by
  have index := read_back_length l.index
  have scope := read_back_length l.scope
  constructor
  · intro named feed
    exact named.index ((read_back_eq_nil l.index).mpr (.inr feed))
  · intro noFeed
    constructor
    · intro empty
      rcases (read_back_eq_nil l.index).mp empty with none | feed
      · exact h.index none
      · exact noFeed feed
    · exact Nat.le_trans index h.indexWidth
    · exact Nat.le_trans scope h.scopeWidth

namespace WorldMap

variable {m : WorldMap}

theorem consistent_named (h : m.Consistent) : ∀ l ∈ m.locations, l.Named := by
  intro l hl
  simp only [locations, List.mem_append, List.mem_cons, List.mem_flatMap, Option.mem_toList,
    List.mem_map] at hl
  rcases hl with (rfl | ⟨c, hc, e, he, rfl⟩) | ⟨e, he, rfl⟩
  · exact h.id
  · exact h.neighbours c hc e he
  · exact h.warps e he

theorem map_texts_locations (f : Bytes → Bytes) (m : WorldMap) :
    (m.mapTexts f).locations = m.locations.map (Location.mapTexts f) := by
  have warps : (m.warps.map (Warp.mapTexts f)).entries =
      m.warps.entries.map fun e => (e.1, e.2.mapTexts f) := rfl
  have chunk : ∀ c, Dict.entries (Chunk.mapTexts f c) =
      (Dict.entries c).map fun e => (e.1, e.2.mapTexts f) := fun c => rfl
  unfold locations
  cases present : m.chunk with
  | none => simp [mapTexts, present, warps, Warp.mapTexts]
  | some c =>
    simp [mapTexts, present, warps, chunk, Warp.mapTexts, Connection.mapTexts, Function.comp_def]

/-- With its texts changed a consistent map is still consistent if its locations are named. -/
theorem map_texts_consistent (h : m.Consistent) (f : Bytes → Bytes) :
    (m.mapTexts f).Consistent ↔ ∀ l ∈ m.locations, (l.mapTexts f).Named := by
  constructor
  · intro back l hl
    apply consistent_named back
    rw [map_texts_locations]
    exact List.mem_map_of_mem hl
  · intro named
    have chunk : ∀ c' ∈ (m.mapTexts f).chunk, ∃ c ∈ m.chunk, c' = Chunk.mapTexts f c := by
      intro c' hc
      obtain ⟨c, present, rfl⟩ := Option.map_eq_some_iff.mp hc
      exact ⟨c, present, rfl⟩
    constructor
    case id => exact named m.id (by simp [locations])
    case tiles => exact h.tiles
    case movements => exact h.movements
    case connected =>
      intro c' hc
      obtain ⟨c, present, rfl⟩ := chunk c' hc
      exact fun none => h.connected c present (List.map_eq_nil_iff.mp none)
    case directions =>
      intro c' hc k hk
      obtain ⟨c, present, rfl⟩ := chunk c' hc
      obtain ⟨e', he', rfl⟩ := List.mem_map.mp hk
      obtain ⟨e, he, rfl⟩ := List.mem_map.mp he'
      exact h.directions c present e.1 (List.mem_map_of_mem he)
    case neighbours =>
      intro c' hc e' he'
      obtain ⟨c, present, rfl⟩ := chunk c' hc
      obtain ⟨e, he, rfl⟩ := List.mem_map.mp he'
      apply named
      simp only [locations, List.mem_append, List.mem_cons, List.mem_flatMap, Option.mem_toList]
      exact .inl (.inr ⟨c, present, List.mem_map_of_mem he⟩)
    case warps =>
      intro e' he'
      obtain ⟨e, he, rfl⟩ := List.mem_map.mp he'
      apply named
      simp only [locations, List.mem_append]
      exact .inr (List.mem_map_of_mem he)

theorem read_back_consistent (h : m.Consistent) :
    (m.mapTexts readBack).Consistent ↔ ∀ l ∈ m.locations, l.index ≠ utf8 "\n" := by
  rw [map_texts_consistent h]
  constructor
  · exact fun named l hl => (Location.read_back_named (consistent_named h l hl)).mp (named l hl)
  · exact fun noFeed l hl => (Location.read_back_named (consistent_named h l hl)).mpr (noFeed l hl)

/-! ## The check of what is read back -/

/-- What is read is refused by the check exactly if it is not consistent. -/
theorem load_refuses_iff {s : Bytes} :
    (∃ f : Failure, load s = .error (f.within "validating map")) ↔
      ∃ m, Document.decode documentOutline documentDecoder default s = some m ∧
        ¬ m.Consistent := by
  unfold load
  cases Document.decode documentOutline documentDecoder default s with
  | none => simp [fail, Failure.within_ne]
  | some m =>
    simp only [Option.some.injEq, exists_eq_left', ← validate_iff]
    cases m.validate with
    | ok u => simp
    | error f => simp

theorem document_unread (h : m.Keyed) (tab : ∃ s ∈ entriesTexts m.fields, BeginsWithTab s) :
    Document.decode documentOutline documentDecoder default m.render = none := by
  have texts : ∃ s ∈ entriesTexts [field "map" (.fields m.fields)], BeginsWithTab s := by
    simpa [entriesTexts, entryTexts, treeTexts, field] using tab
  have unread : Document.read m.render = none :=
    read_tabbed (document_shaped h) (by decide) texts
  rw [Document.decode, unread]
  rfl

end WorldMap

namespace Graph

/-- The step in which a map is read back before it is written. -/
def checkStep (m : WorldMap) : String := "map " ++ m.id.shown ++ " failed validation"

/-- Writing a map fails in that step exactly if its document is not loaded. -/
theorem write_map_refused_iff (dir : Bytes) (m : WorldMap) (fs : FileSystem) (f : Failure) :
    (writeMap dir m fs).outcome = .error (f.within (checkStep m)) ↔
      WorldMap.load m.render = .error f := by
  have other : "writing map " ++ m.id.shown ≠ checkStep m := by
    intro same
    have chars := congrArg String.toList same
    simp [checkStep, String.toList_append] at chars
  cases loaded : WorldMap.load m.render with
  | error g =>
    have outcome : (writeMap dir m fs).outcome = .error (g.within (checkStep m)) := by
      simp only [writeMap, writeMapWith, loaded]
      rfl
    rw [outcome, Except.error.injEq, Except.error.injEq, Failure.within_inj]
  | ok m' =>
    have outcome : (writeMap dir m fs).outcome =
        (inStep ("writing map " ++ m.id.shown)
          (fs.writeFile (Path.join [dir, m.id.fileName]) m.render).outcome).map
            fun _ => ⟨m.id.key, m.name, m.id.fileName⟩ := by
      simp only [writeMap, writeMapWith, loaded, bind, Action.andThen, Action.within,
        Action.ofExcept, Action.change, in_step_ok]
      cases (fs.writeFile (Path.join [dir, m.id.fileName]) m.render).outcome <;> rfl
    rw [outcome]
    cases (fs.writeFile (Path.join [dir, m.id.fileName]) m.render).outcome with
    | ok u => simp [Except.map]
    | error g =>
      simp only [in_step_error, Except.map, Except.error.injEq, reduceCtorEq, iff_false]
      exact Failure.within_ne other

end Graph

/-! ## Converted maps -/

namespace Resolver

variable {record : Raw.Record} {m : WorldMap}

theorem numbered_printable {kind : String} (h : IsPrintable (utf8 kind)) (i : Nat) :
    IsPrintable (numbered kind i) := by
  have digit : ∀ b : UInt8, Bytes.isDigit b = true → Visible b := by
    intro b digit
    simp only [Bytes.isDigit, Bool.and_eq_true, decide_eq_true_eq, UInt8.le_iff_toNat_le] at digit
    exact ⟨Nat.le_trans (by decide) digit.1, Nat.le_trans digit.2 (by decide)⟩
  intro b hb
  simp only [numbered, List.mem_append, List.mem_cons] at hb
  rcases hb with hb | rfl | hb
  · exact h b hb
  · decide
  · exact digit b (of_nat_digit hb)

theorem numbered_ne_merge {kind : String} {b : UInt8} (first : (utf8 kind).head? = some b)
    (other : b ≠ 0x3C) (i : Nat) : numbered kind i ≠ mergeKey := by
  intro same
  have head : (numbered kind i).head? = some b := by
    rw [numbered, List.head?_append, first]
    rfl
  rw [same] at head
  exact other (Option.some.inj head).symm

theorem converted_keys (h : IsConverted record m) {k : Bytes}
    (hk : k ∈ m.warps.keys ∨ k ∈ m.npcs.keys) : IsPrintable k ∧ k ≠ mergeKey := by
  rcases hk with hk | hk
  · obtain ⟨e, he, rfl⟩ := List.mem_map.mp hk
    obtain ⟨⟨i, key⟩, _⟩ := h.warps e he
    rw [key]
    exact ⟨numbered_printable (by decide) i, @numbered_ne_merge "warp" 0x77 rfl (by decide) i⟩
  · obtain ⟨e, he, rfl⟩ := List.mem_map.mp hk
    obtain ⟨i, o, typeId, rfl, _⟩ := h.npcs e he
    exact ⟨numbered_printable (by decide) i, @numbered_ne_merge "npc" 0x6E rfl (by decide) i⟩

theorem converted_keyed (h : IsConverted record m) : m.Keyed :=
  WorldMap.keyed_of_printable h.consistent fun _ hk => (converted_keys h hk).1

/-- The keys of a converted map begin with no tab, so its document holds all texts that do. -/
theorem converted_tab_iff (h : IsConverted record m) :
    (∃ s ∈ m.texts, BeginsWithTab s) ↔ ∃ s ∈ entriesTexts m.fields, BeginsWithTab s := by
  have nonempty : ∀ s, BeginsWithTab s → s ≠ [] := by
    rintro s tab rfl
    exact absurd tab.2 (by decide)
  constructor
  · rintro ⟨s, hs, tab⟩
    refine ⟨s, ((m.mem_texts_iff (nonempty s tab)).mp hs).resolve_right ?_, tab⟩
    exact fun key => key_inline (converted_keys h key).1.key_text tab.1
  · rintro ⟨s, hs, tab⟩
    exact ⟨s, (m.mem_texts_iff (nonempty s tab)).mpr (.inl hs), tab⟩

theorem converted_decode (h : IsConverted record m) (noTab : ¬ ∃ s ∈ m.texts, BeginsWithTab s) :
    Document.decode WorldMap.documentOutline WorldMap.documentDecoder default m.render =
      some (m.mapTexts readBack) := by
  rw [converted_tab_iff h] at noTab
  have scans : ∀ s ∈ entriesTexts m.fields, TextScans s := fun s hs =>
    text_scans fun tab => noTab ⟨s, hs, tab⟩
  exact WorldMap.document_gives (converted_keyed h) scans
    (fun merge => (converted_keys h (.inl merge)).2 rfl)
    (fun merge => (converted_keys h (.inr merge)).2 rfl)

theorem converted_refused_iff (h : IsConverted record m) :
    (∃ f : Failure, WorldMap.load m.render = .error (f.within "validating map")) ↔
      (∃ l ∈ m.locations, l.index = utf8 "\n") ∧ ¬ ∃ s ∈ m.texts, BeginsWithTab s := by
  rw [WorldMap.load_refuses_iff]
  by_cases tab : ∃ s ∈ m.texts, BeginsWithTab s
  · rw [WorldMap.document_unread (converted_keyed h) ((converted_tab_iff h).mp tab)]
    simp [tab]
  · rw [converted_decode h tab]
    simp only [Option.some.injEq, exists_eq_left', tab, not_false_eq_true, and_true,
      WorldMap.read_back_consistent h.consistent]
    simp

/-- Everything that is converted is well formed. When it is written, the check of what is read back
refuses it exactly if an index is a single line feed and no text begins with a tab. -/
theorem convert_well_formed (r : Resolver) (blob : Bytes → Except Failure Bytes)
    (record : Raw.Record) (m : WorldMap)
    (given : r.mappings = Mappings.empty ∨ ∃ s, Mappings.parse s = .ok r.mappings)
    (converted : (r.convert blob record).outcome = .ok (some m)) :
    m.validate = .ok () ∧
      ((∀ t ∈ m.tiles, t < 1024) ∧ (∀ t ∈ m.border.toList, t < 1024) ∧
        ∀ p ∈ m.movements, p < 64) ∧
      (m.tiles.length = record.layout.width.toNat * record.layout.height.toNat ∧
        m.movements.length = record.layout.width.toNat * record.layout.height.toNat) ∧
      (1 ≤ m.music.length ∧ m.music.length ≤ 16) ∧
      (∀ e ∈ m.npcs.entries, 1 ≤ e.2.typeId.length ∧ e.2.typeId.length ≤ 16) ∧
      (m.chunk = none ↔ record.data.connectionList = []) ∧
      ∀ (dir : Bytes) (fs : FileSystem),
        (∃ f : Failure, (Graph.writeMap dir m fs).outcome =
          .error ((f.within "validating map").within (Graph.checkStep m))) ↔
        (∃ l ∈ m.locations, l.index = utf8 "\n") ∧ ¬ ∃ s ∈ m.texts, BeginsWithTab s := by
  have checked : r.mappings.Checked := by
    rcases given with empty | ⟨s, parsed⟩
    · rw [empty]
      exact Mappings.empty_checked
    · exact Mappings.parse_checked parsed
  have h := convert_converted checked converted
  refine ⟨(WorldMap.validate_iff m).mpr h.consistent,
    ⟨h.decoded.tiles, h.decoded.border, h.decoded.movements⟩,
    ⟨h.decoded.tileCount, h.decoded.movementCount⟩, (Mappings.is_short_iff _).mp h.music, ?_,
    h.chunk, ?_⟩
  · intro e he
    obtain ⟨i, o, typeId, rfl, short⟩ := h.npcs e he
    exact (Mappings.is_short_iff _).mp short
  · intro dir fs
    simp only [Graph.write_map_refused_iff]
    exact converted_refused_iff h

/-- A map of one tile with itself as its neighbour, one warp and one character. -/
def islet : Raw.Record where
  data := ⟨utf8 "MAP_ISLET", utf8 "Islet", utf8 "LAYOUT", utf8 "MUS",
    some [⟨utf8 "up", utf8 "MAP_ISLET", -3⟩], some [⟨0, 0, 0, utf8 "MAP_ISLET", 0⟩],
    some [⟨utf8 "OBJ", 0, 0, utf8 "STAY"⟩]⟩
  layout := ⟨utf8 "LAYOUT", utf8 "islet", 1, 1, utf8 "first", utf8 "second", utf8 "border.bin",
    utf8 "map.bin"⟩

/-- The tiles of that map and its border. -/
def isletBlob (p : Bytes) : Except Failure Bytes :=
  .ok (if p = utf8 "map.bin" then [1, 4] else [1, 0, 2, 0, 3, 0, 4, 0])

/-- A document of dictionaries that gives that map an index, which is written with escapes. -/
def isletNames (index : String) : Bytes :=
  utf8 ("map: \x7bid: \x7bMAP_ISLET: \x7bindex: \"" ++ index ++
    "\"\x7d\x7d\x7d\nmusic: \x7bMUS: tune\x7d\nnpcs: \x7bOBJ: actor\x7d\n")

/-- The resolver with those dictionaries. -/
def isletResolver (index : Bytes) : Resolver where
  table := ⟨Dict.empty.insert (utf8 "MAP_ISLET") islet, by decide⟩
  mappings := { Mappings.empty with
    locations := Dict.empty.insert (utf8 "MAP_ISLET") ⟨[], index⟩
    music := Dict.empty.insert (utf8 "MUS") (utf8 "tune")
    npcs := Dict.empty.insert (utf8 "OBJ") (utf8 "actor") }

/-- What the map is converted to. -/
def isletMap (index : Bytes) : WorldMap where
  id := ⟨[], index⟩
  name := utf8 "Islet"
  chunk := some (Dict.empty.insert (utf8 "up") ⟨⟨[], index⟩, -3⟩)
  warps := Dict.empty.insert (utf8 "warp_0")
    ⟨⟨⟨0, 0⟩, ⟨0, 0⟩⟩, ⟨[], index⟩, ⟨⟨0, 0⟩, []⟩, ⟨false, true, true⟩⟩
  npcs := Dict.empty.insert (utf8 "npc_0")
    ⟨utf8 "NPC 0-0", utf8 "actor", utf8 "neutral", ⟨⟨0, 0⟩, []⟩⟩
  width := 1
  height := 1
  palettes := ⟨0, 13⟩
  music := utf8 "tune"
  tiles := [1]
  movements := [1]
  border := ⟨1, 2, 3, 4⟩

/-- An index of two line feeds comes back as one of them, and is not refused. -/
theorem two_feeds_not_refused :
    Mappings.parse (isletNames "\\n\\n") = .ok (isletResolver (utf8 "\n\n")).mappings ∧
      ((isletResolver (utf8 "\n\n")).convert isletBlob islet).outcome =
        .ok (some (isletMap (utf8 "\n\n"))) ∧
      (isletMap (utf8 "\n\n")).validate = .ok () ∧
      ∀ (dir : Bytes) (fs : FileSystem), ¬ ∃ f : Failure,
        (Graph.writeMap dir (isletMap (utf8 "\n\n")) fs).outcome =
          .error ((f.within "validating map").within
            (Graph.checkStep (isletMap (utf8 "\n\n")))) := by
  have parsed : Mappings.parse (isletNames "\\n\\n") =
      .ok (isletResolver (utf8 "\n\n")).mappings := by decide +kernel
  have converted : ((isletResolver (utf8 "\n\n")).convert isletBlob islet).outcome =
      .ok (some (isletMap (utf8 "\n\n"))) := by decide +kernel
  obtain ⟨valid, _, _, _, _, _, refused⟩ :=
    convert_well_formed _ isletBlob islet _ (.inr ⟨_, parsed⟩) converted
  refine ⟨parsed, converted, valid, fun dir fs h => ?_⟩
  exact absurd ((refused dir fs).mp h) (by decide +kernel)

/-- An index of one line feed comes back empty: the map is valid, and what is read back is not. -/
theorem one_feed_refused :
    Mappings.parse (isletNames "\\n") = .ok (isletResolver (utf8 "\n")).mappings ∧
      ((isletResolver (utf8 "\n")).convert isletBlob islet).outcome =
        .ok (some (isletMap (utf8 "\n"))) ∧
      (isletMap (utf8 "\n")).validate = .ok () ∧
      ∀ (dir : Bytes) (fs : FileSystem),
        (Graph.writeMap dir (isletMap (utf8 "\n")) fs).outcome =
          .error (Failure.within (Graph.checkStep (isletMap (utf8 "\n")))
            ⟨["validating map", "map \"Islet\""], .emptyIndex⟩) := by
  have refused : WorldMap.load (isletMap (utf8 "\n")).render =
      .error ⟨["validating map", "map \"Islet\""], .emptyIndex⟩ := by decide +kernel
  refine ⟨by decide +kernel, by decide +kernel, by decide +kernel, fun dir fs => ?_⟩
  exact (Graph.write_map_refused_iff dir _ fs _).mpr refused

end Resolver

end Overworld
