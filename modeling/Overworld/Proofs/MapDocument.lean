import Overworld.Proofs.Yaml.Mappings
import Overworld.Proofs.Yaml.TextForms

/-!
# Map documents are read back

The document of a map is legible where its keys and its texts are, and each part of a map is
decoded from its own tree. A text that was written as a block may come back changed, and then the
map comes back with that change in every text.
-/

set_option autoImplicit false

namespace Overworld

open Yaml

/-! ## Texts -/

theorem text_reads_back (s : Bytes) : Decoder.text.Gives (treeNode (.text s)) (readBack s) := by
  rw [treeNode]
  exact text_gives_back s

/-- A field that is left out where its text is empty. -/
theorem optional_text_names (name : String) (s : Bytes) :
    ((optionalText name s).map (·.1)).Sublist [utf8 name] := by
  unfold optionalText
  split
  · exact List.nil_sublist _
  · exact List.Sublist.refl _

theorem optional_text_shaped {name : String} {s : Bytes} {room : Nat} :
    ∀ e ∈ optionalText name s, Shaped room e.2 := by
  intro e he
  unfold optionalText at he
  split at he
  · cases he
  · rw [List.mem_singleton.mp he]
    simp [field, Legible]

theorem mem_optional_text {name : String} {t s : Bytes} (h : s ≠ []) :
    (∃ e ∈ optionalText name t, s ∈ treeTexts e.2) ↔ s = t := by
  unfold optionalText
  split
  · rename_i none
    simp [List.isEmpty_iff.mp none, h]
  · simp [field, treeTexts]

/-- A text that was left out comes back empty. -/
theorem Yaml.RecordEntries.optional_text {names : List Bytes} {es : List (Bytes × Tree)}
    {t : Bytes} (h : RecordEntries names es) (name : String)
    (written : ∀ e ∈ optionalText name t, e ∈ es) (absent : t = [] → utf8 name ∉ es.map (·.1))
    (s : Scope) : Entry.field (es.map (entryOf s)) name Decoder.text [] = some (readBack t) := by
  by_cases none : t = []
  · rw [field_absent (absent none), (read_back_eq_nil t).mpr (.inl none)]
  · refine h.field name [] (written _ ?_) (text_reads_back t) s
    simp [optionalText, none]

/-! ## Locations -/

namespace Location

/-- The parts of a location. -/
def texts (l : Location) : List Bytes := [l.scope, l.index]

/-- The location with its texts changed. -/
def mapTexts (f : Bytes → Bytes) (l : Location) : Location := ⟨f l.scope, f l.index⟩

theorem entries (l : Location) : RecordEntries [utf8 "map", utf8 "index"]
    (optionalText "map" l.scope ++ [field "index" (.text l.index)]) where
  valid := by decide
  part := by
    rw [List.map_append]
    exact (optional_text_names "map" l.scope).append (List.Sublist.refl _)

theorem tree_shaped (l : Location) (room : Nat) : Shaped (room + 1) l.tree := by
  apply l.entries.legible
  intro e he
  rcases List.mem_append.mp he with he | he
  · exact optional_text_shaped e he
  · rw [List.mem_singleton.mp he]
    simp [field, Legible]

theorem mem_tree_texts (l : Location) {s : Bytes} (h : s ≠ []) :
    s ∈ treeTexts l.tree ↔ s ∈ l.texts := by
  rw [tree, mem_fields_texts]
  simp only [List.mem_append, or_and_right, exists_or, mem_optional_text h]
  simp [field, treeTexts, texts]

theorem decoder_gives (l : Location) : decoder.Gives (treeNode l.tree) (l.mapTexts readBack) := by
  intro s
  have index := l.entries.field "index" [] (by simp) (text_reads_back l.index) s
  have absent : l.scope = [] →
      utf8 "map" ∉ (optionalText "map" l.scope ++ [field "index" (.text l.index)]).map (·.1) := by
    intro none
    rw [none]
    show utf8 "map" ∉ [utf8 "index"]
    decide
  have scope := l.entries.optional_text "map" (fun e he => List.mem_append_left _ he) absent s
  rw [decoder, tree, l.entries.found]
  simp only [Option.bind_eq_bind, Option.bind_some, scope, index]
  rfl

end Location

/-! ## Places -/

namespace Coordinate

theorem entries (c : Coordinate) : RecordEntries [utf8 "x", utf8 "y"]
    [field "x" (.int c.x.toInt), field "y" (.int c.y.toInt)] :=
  ⟨by decide, List.Sublist.refl _⟩

theorem axis_gives (n : Int16) : axis.Gives (treeNode (.int n.toInt)) n := by
  have low := Int16.le_toInt n
  have high := Int16.toInt_lt n
  have value : (Decoder.integer (-32768) 32767).Gives (intNode n.toInt) n.toInt :=
    integer_gives ⟨by omega, by omega⟩ low (by omega)
  have word := Decoder.map_gives value Int16.ofInt
  rwa [Int16.ofInt_toInt] at word

theorem tree_shaped (c : Coordinate) (room : Nat) : Shaped (room + 1) c.tree := by
  apply c.entries.legible
  simp [field, Legible]

theorem decoder_gives (c : Coordinate) : decoder.Gives (treeNode c.tree) c := by
  intro s
  have x := c.entries.field "x" 0 (by simp) (axis_gives c.x) s
  have y := c.entries.field "y" 0 (by simp) (axis_gives c.y) s
  rw [decoder, tree, c.entries.found]
  simp only [Option.bind_eq_bind, Option.bind_some, x, y]
  rfl

end Coordinate

namespace Box

theorem entries (b : Box) : RecordEntries [utf8 "min", utf8 "max"]
    [field "min" b.min.tree, field "max" b.max.tree] :=
  ⟨by decide, List.Sublist.refl _⟩

theorem tree_shaped (b : Box) (room : Nat) : Shaped (room + 2) b.tree := by
  apply b.entries.legible
  simp [field, Coordinate.tree_shaped]

theorem decoder_gives (b : Box) : decoder.Gives (treeNode b.tree) b := by
  intro s
  have min := b.entries.field "min" default (by simp) b.min.decoder_gives s
  have max := b.entries.field "max" default (by simp) b.max.decoder_gives s
  rw [decoder, tree, b.entries.found]
  simp only [Option.bind_eq_bind, Option.bind_some, min, max]
  rfl

end Box

namespace Position

/-- The position with its text changed. -/
def mapTexts (f : Bytes → Bytes) (p : Position) : Position := ⟨p.coords, f p.facing⟩

theorem entries (p : Position) : RecordEntries [utf8 "coords", utf8 "facing"]
    (field "coords" p.coords.tree :: optionalText "facing" p.facing) :=
  ⟨by decide, (optional_text_names "facing" p.facing).cons_cons _⟩

theorem tree_shaped (p : Position) (room : Nat) : Shaped (room + 2) p.tree := by
  apply p.entries.legible
  intro e he
  rcases List.mem_cons.mp he with rfl | he
  · exact p.coords.tree_shaped room
  · exact optional_text_shaped e he

theorem mem_tree_texts (p : Position) {s : Bytes} (h : s ≠ []) :
    s ∈ treeTexts p.tree ↔ s = p.facing := by
  have coords : treeTexts p.coords.tree = [] := rfl
  rw [tree, mem_fields_texts]
  simp only [List.mem_cons, or_and_right, exists_or, exists_eq_left, mem_optional_text h]
  simp [field, coords]

theorem decoder_gives (p : Position) : decoder.Gives (treeNode p.tree) (p.mapTexts readBack) := by
  intro s
  have coords := p.entries.field "coords" default (by simp) p.coords.decoder_gives s
  have absent : p.facing = [] → utf8 "facing" ∉
      (field "coords" p.coords.tree :: optionalText "facing" p.facing).map (·.1) := by
    intro none
    rw [none]
    show utf8 "facing" ∉ [utf8 "coords"]
    decide
  have facing := p.entries.optional_text "facing" (fun e he => List.mem_cons_of_mem _ he) absent s
  rw [decoder, tree, p.entries.found]
  simp only [Option.bind_eq_bind, Option.bind_some, coords, facing]
  rfl

end Position

/-! ## Connections -/

namespace Connection

/-- The connection with its texts changed. -/
def mapTexts (f : Bytes → Bytes) (c : Connection) : Connection := ⟨c.location.mapTexts f, c.offset⟩

theorem entries (c : Connection) : RecordEntries [utf8 "location", utf8 "offset"]
    [field "location" c.location.tree, field "offset" (.int c.offset.toInt)] :=
  ⟨by decide, List.Sublist.refl _⟩

theorem offset_gives (n : Int32) :
    ((Decoder.integer (-2147483648) 2147483647).map Int32.ofInt).Gives
      (treeNode (.int n.toInt)) n := by
  have low := Int32.le_toInt n
  have high := Int32.toInt_lt n
  have value : (Decoder.integer (-2147483648) 2147483647).Gives (intNode n.toInt) n.toInt :=
    integer_gives ⟨by omega, by omega⟩ low (by omega)
  have word := Decoder.map_gives value Int32.ofInt
  rwa [Int32.ofInt_toInt] at word

theorem tree_shaped (c : Connection) (room : Nat) : Shaped (room + 2) c.tree := by
  apply c.entries.legible
  simp [field, Legible, Location.tree_shaped]

theorem mem_tree_texts (c : Connection) {s : Bytes} (h : s ≠ []) :
    s ∈ treeTexts c.tree ↔ s ∈ c.location.texts := by
  rw [tree, mem_fields_texts]
  simp [field, treeTexts, Location.mem_tree_texts _ h]

theorem decoder_gives (c : Connection) :
    decoder.Gives (treeNode c.tree) (c.mapTexts readBack) := by
  intro s
  have location := c.entries.field "location" default (by simp) c.location.decoder_gives s
  have offset := c.entries.field "offset" 0 (by simp) (offset_gives c.offset) s
  rw [decoder, tree, c.entries.found]
  simp only [Option.bind_eq_bind, Option.bind_some, location, offset]
  rfl

end Connection

namespace Chunk

/-- The chunk with its texts changed; its keys stay. -/
def mapTexts (f : Bytes → Bytes) (c : Chunk) : Chunk := Dict.map (Connection.mapTexts f) c

/-- The keys of a chunk are read back. -/
structure Keyed (c : Chunk) : Prop where
  keys : ∀ k ∈ Dict.keys c, KeyText k
  noMerge : mergeKey ∉ Dict.keys c

variable {c : Chunk}

theorem entries (c : Chunk) : RecordEntries [utf8 "connections"]
    [field "connections" (dictTree Connection.tree c)] :=
  ⟨by decide, List.Sublist.refl _⟩

theorem tree_shaped (h : Chunk.Keyed c) (room : Nat) : Shaped (room + 4) (Chunk.tree c) := by
  apply (Chunk.entries c).legible
  simp only [List.mem_singleton, forall_eq, field]
  exact dict_legible (fun e _ => e.2.tree_shaped room) h.keys fun x => ⟨_, _, rfl⟩

theorem mem_tree_texts (c : Chunk) {s : Bytes} (h : s ≠ []) :
    s ∈ treeTexts (Chunk.tree c) ↔ ∃ e ∈ Dict.entries c, s ∈ e.2.location.texts := by
  rw [tree, mem_fields_texts]
  simp [field, mem_dict_texts, Connection.mem_tree_texts _ h]

theorem decoder_gives (h : Chunk.Keyed c) :
    decoder.Gives (treeNode (Chunk.tree c)) (Chunk.mapTexts readBack c) := by
  intro s
  have values : ∀ e ∈ Dict.entries c,
      Connection.decoder.Gives (treeNode (Connection.tree e.2)) (e.2.mapTexts readBack) :=
    fun e _ => e.2.decoder_gives
  have connections := (Chunk.entries c).field "connections" Dict.empty (by simp)
    (dict_gives false default values h.keys h.noMerge) s
  rw [decoder, Chunk.tree, (Chunk.entries c).found]
  simp only [Option.bind_eq_bind, Option.bind_some, connections]
  rfl

end Chunk

/-! ## Warps and characters -/

namespace Transition

theorem entries (t : Transition) :
    RecordEntries [utf8 "move_on_exit", utf8 "warp_on_tile", utf8 "change_music"]
      [field "move_on_exit" (.flag t.moveOnExit), field "warp_on_tile" (.flag t.warpOnTile),
        field "change_music" (.flag t.changeMusic)] :=
  ⟨by decide, List.Sublist.refl _⟩

theorem tree_shaped (t : Transition) (room : Nat) : Shaped (room + 1) t.tree := by
  apply t.entries.legible
  simp [field, Legible]

theorem decoder_gives (t : Transition) : decoder.Gives (treeNode t.tree) t := by
  intro s
  have move := t.entries.field "move_on_exit" false (by simp) (flag_gives t.moveOnExit) s
  have warp := t.entries.field "warp_on_tile" false (by simp) (flag_gives t.warpOnTile) s
  have music := t.entries.field "change_music" false (by simp) (flag_gives t.changeMusic) s
  rw [decoder, tree, t.entries.found]
  simp only [Option.bind_eq_bind, Option.bind_some, move, warp, music]
  rfl

end Transition

namespace Warp

/-- The texts of a warp, with its key. -/
def texts (e : Bytes × Warp) : List Bytes := e.1 :: e.2.position.facing :: e.2.location.texts

/-- The warp with its texts changed. -/
def mapTexts (f : Bytes → Bytes) (w : Warp) : Warp :=
  ⟨w.area, w.location.mapTexts f, w.position.mapTexts f, w.transition⟩

/-- The written form of where a warp leads. -/
def destinationFields (w : Warp) : List (Bytes × Tree) :=
  [field "location" w.location.tree, field "position" w.position.tree,
    field "transition" w.transition.tree]

theorem destination_entries (w : Warp) :
    RecordEntries [utf8 "location", utf8 "position", utf8 "transition"] w.destinationFields :=
  ⟨by decide, List.Sublist.refl _⟩

theorem entries (w : Warp) : RecordEntries [utf8 "area", utf8 "destination"]
    [field "area" w.area.tree, field "destination" (.fields w.destinationFields)] :=
  ⟨by decide, List.Sublist.refl _⟩

theorem destination_shaped (w : Warp) (room : Nat) :
    Shaped (room + 3) (.fields w.destinationFields) := by
  apply w.destination_entries.legible
  simp [destinationFields, field, Location.tree_shaped, Position.tree_shaped,
    Transition.tree_shaped]

theorem tree_shaped (w : Warp) (room : Nat) : Shaped (room + 4) w.tree := by
  apply w.entries.legible
  simp [field, Box.tree_shaped, destination_shaped]

theorem mem_tree_texts (w : Warp) {s : Bytes} (h : s ≠ []) :
    s ∈ treeTexts w.tree ↔ s = w.position.facing ∨ s ∈ w.location.texts := by
  have area : treeTexts w.area.tree = [] := rfl
  have transition : treeTexts w.transition.tree = [] := rfl
  rw [tree, mem_fields_texts]
  simp [field, mem_fields_texts, area, transition, Location.mem_tree_texts _ h,
    Position.mem_tree_texts _ h, or_comm]

theorem destination_gives (w : Warp) :
    destination.Gives (treeNode (.fields w.destinationFields))
      (w.location.mapTexts readBack, w.position.mapTexts readBack, w.transition) := by
  intro s
  have location := w.destination_entries.field "location" default (by simp [destinationFields])
    w.location.decoder_gives s
  have position := w.destination_entries.field "position" default (by simp [destinationFields])
    w.position.decoder_gives s
  have transition := w.destination_entries.field "transition" default
    (by simp [destinationFields]) w.transition.decoder_gives s
  rw [destination, w.destination_entries.found]
  simp only [Option.bind_eq_bind, Option.bind_some, location, position, transition]
  rfl

theorem decoder_gives (w : Warp) : decoder.Gives (treeNode w.tree) (w.mapTexts readBack) := by
  intro s
  have area := w.entries.field "area" default (by simp) w.area.decoder_gives s
  have target := w.entries.field "destination" default (by simp) w.destination_gives s
  have tree : w.tree = .fields
      [field "area" w.area.tree, field "destination" (.fields w.destinationFields)] := rfl
  rw [decoder, tree, w.entries.found]
  simp only [Option.bind_eq_bind, Option.bind_some, area, target]
  rfl

end Warp

namespace Npc

/-- The texts of a character, with its key. -/
def texts (e : Bytes × Npc) : List Bytes :=
  [e.1, e.2.name, e.2.typeId, e.2.stance, e.2.position.facing]

/-- The character with its texts changed. -/
def mapTexts (f : Bytes → Bytes) (n : Npc) : Npc :=
  ⟨f n.name, f n.typeId, f n.stance, n.position.mapTexts f⟩

theorem entries (n : Npc) :
    RecordEntries [utf8 "name", utf8 "type_id", utf8 "movement", utf8 "position"]
      [field "name" (.text n.name), field "type_id" (.text n.typeId),
        field "movement" (.text n.stance), field "position" n.position.tree] :=
  ⟨by decide, List.Sublist.refl _⟩

theorem tree_shaped (n : Npc) (room : Nat) : Shaped (room + 3) n.tree := by
  apply n.entries.legible
  simp [field, Legible, Position.tree_shaped]

theorem mem_tree_texts (n : Npc) {s : Bytes} (h : s ≠ []) :
    s ∈ treeTexts n.tree ↔ s ∈ [n.name, n.typeId, n.stance, n.position.facing] := by
  rw [tree, mem_fields_texts]
  simp [field, treeTexts, Position.mem_tree_texts _ h]

theorem decoder_gives (n : Npc) : decoder.Gives (treeNode n.tree) (n.mapTexts readBack) := by
  intro s
  have name := n.entries.field "name" [] (by simp) (text_reads_back n.name) s
  have typeId := n.entries.field "type_id" [] (by simp) (text_reads_back n.typeId) s
  have stance := n.entries.field "movement" [] (by simp) (text_reads_back n.stance) s
  have position := n.entries.field "position" default (by simp) n.position.decoder_gives s
  rw [decoder, tree, n.entries.found]
  simp only [Option.bind_eq_bind, Option.bind_some, name, typeId, stance, position]
  rfl

end Npc

/-! ## Maps -/

namespace WorldMap

/-- The texts of a map. The keys of its chunk are names of directions. -/
def texts (m : WorldMap) : List Bytes :=
  m.name :: m.music :: m.id.texts ++
    (m.chunk.toList.flatMap fun c => (Dict.entries c).flatMap fun e => e.2.location.texts) ++
    m.warps.entries.flatMap Warp.texts ++ m.npcs.entries.flatMap Npc.texts

/-- The map with its texts changed; its keys stay. -/
def mapTexts (f : Bytes → Bytes) (m : WorldMap) : WorldMap :=
  { m with
    id := m.id.mapTexts f
    name := f m.name
    chunk := m.chunk.map (Chunk.mapTexts f)
    warps := m.warps.map (Warp.mapTexts f)
    npcs := m.npcs.map (Npc.mapTexts f)
    music := f m.music }

/-- The keys of a map are read back, but for those that ask for another mapping. -/
structure Keyed (m : WorldMap) : Prop where
  chunk : ∀ c ∈ m.chunk, Chunk.Keyed c
  warps : ∀ k ∈ m.warps.keys, KeyText k
  npcs : ∀ k ∈ m.npcs.keys, KeyText k

variable {m : WorldMap}

theorem entries (m : WorldMap) : RecordEntries fieldNames m.fields where
  valid := by decide
  part := by
    unfold fields
    cases m.chunk with
    | none => exact ((List.Sublist.refl _).cons _).cons_cons _ |>.cons_cons _
    | some c => exact List.Sublist.refl _

theorem warps_shaped (h : m.Keyed) (room : Nat) :
    Shaped (room + 5) (dictTree Warp.tree m.warps) :=
  dict_legible (fun e _ => e.2.tree_shaped room) h.warps fun _ => ⟨_, _, rfl⟩

theorem npcs_shaped (h : m.Keyed) (room : Nat) :
    Shaped (room + 4) (dictTree Npc.tree m.npcs) :=
  dict_legible (fun e _ => e.2.tree_shaped room) h.npcs fun _ => ⟨_, _, rfl⟩

theorem fields_shaped (h : m.Keyed) (room : Nat) : Shaped (room + 6) (.fields m.fields) := by
  apply m.entries.legible
  intro e he
  simp only [fields, List.mem_append, List.mem_cons, List.not_mem_nil, or_false,
    Option.mem_toList, Option.map_eq_some_iff] at he
  rcases he with ((rfl | rfl) | ⟨c, hc, rfl⟩) | rfl | rfl | rfl | rfl | rfl | rfl | rfl | rfl | rfl
  · exact m.id.tree_shaped (room + 4)
  · simp [field, Legible]
  · exact Chunk.tree_shaped (h.chunk c hc) (room + 1)
  · exact warps_shaped h room
  · exact npcs_shaped h (room + 1)
  all_goals simp [field, Legible]

/-- The texts of a map, but for empty ones, are those in its document and the keys of its warps and
characters. -/
theorem mem_texts_iff (m : WorldMap) {s : Bytes} (h : s ≠ []) :
    s ∈ m.texts ↔ s ∈ entriesTexts m.fields ∨ s ∈ m.warps.keys ∨ s ∈ m.npcs.keys := by
  have chunk : (∃ e ∈ (m.chunk.map fun c => field "chunk" (Chunk.tree c)).toList,
      s ∈ treeTexts e.2) ↔
      ∃ c, m.chunk = some c ∧ ∃ e ∈ Dict.entries c, s ∈ e.2.location.texts := by
    cases m.chunk <;> simp [field, Chunk.mem_tree_texts _ h]
  have warps : (∃ e ∈ m.warps.entries, s ∈ Warp.texts e) ↔
      s ∈ treeTexts (dictTree Warp.tree m.warps) ∨ s ∈ m.warps.keys := by
    simp only [mem_dict_texts, Warp.mem_tree_texts _ h, Warp.texts, Dict.keys, List.mem_map,
      List.mem_cons]
    grind
  have npcs : (∃ e ∈ m.npcs.entries, s ∈ Npc.texts e) ↔
      s ∈ treeTexts (dictTree Npc.tree m.npcs) ∨ s ∈ m.npcs.keys := by
    simp only [mem_dict_texts, Npc.mem_tree_texts _ h, Npc.texts, Dict.keys, List.mem_map,
      List.mem_cons]
    grind
  have document : s ∈ entriesTexts m.fields ↔ s ∈ m.id.texts ∨ s = m.name ∨
      (∃ c, m.chunk = some c ∧ ∃ e ∈ Dict.entries c, s ∈ e.2.location.texts) ∨
      s ∈ treeTexts (dictTree Warp.tree m.warps) ∨ s ∈ treeTexts (dictTree Npc.tree m.npcs) ∨
      s = m.music := by
    have members := @mem_fields_texts m.fields s
    rw [treeTexts] at members
    rw [members, fields]
    simp only [List.mem_append, or_and_right, exists_or, chunk]
    simp [field, treeTexts, Location.mem_tree_texts _ h, or_assoc]
  rw [document]
  simp only [texts, List.mem_append, List.mem_cons, List.mem_flatMap, Option.mem_toList, warps,
    npcs]
  grind

theorem word_gives (n : UInt16) : word.Gives (intNode n.toNat) n := by
  have bound : n.toNat < 65536 := n.toNat_lt
  have value : (Decoder.integer 0 65535).Gives (intNode n.toNat) n.toNat :=
    integer_gives ⟨by omega, by omega⟩ (by omega) (by omega)
  have image := Decoder.map_gives value fun n => UInt16.ofNat n.toNat
  rwa [Int.toNat_natCast, UInt16.ofNat_toNat] at image

theorem octet_gives (n : UInt8) : octet.Gives (intNode n.toNat) n := by
  have bound : n.toNat < 256 := n.toNat_lt
  have value : (Decoder.integer 0 255).Gives (intNode n.toNat) n.toNat :=
    integer_gives ⟨by omega, by omega⟩ (by omega) (by omega)
  have image := Decoder.map_gives value fun n => UInt8.ofNat n.toNat
  rwa [Int.toNat_natCast, UInt8.ofNat_toNat] at image

theorem palettes_gives (p : Palettes) : ((Decoder.fixed 2 0 octet).map palettesOf).Gives
    (treeNode (.row [p.primary.toNat, p.secondary.toNat])) p := by
  have values : (Decoder.fixed 2 0 octet).Gives
      (treeNode (.row [p.primary.toNat, p.secondary.toNat])) [p.primary, p.secondary] :=
    @fixed_gives UInt8 octet 0 (fun n => n.toNat) [p.primary, p.secondary]
      fun n _ => octet_gives n
  exact Decoder.map_gives values palettesOf

theorem border_gives (b : Border) : ((Decoder.fixed 4 0 word).map borderOf).Gives
    (treeNode (.row (b.toList.map fun t => t.toNat))) b := by
  have values : (Decoder.fixed 4 0 word).Gives
      (treeNode (.row (b.toList.map fun t => t.toNat))) b.toList :=
    fixed_gives fun n _ => word_gives n
  exact Decoder.map_gives values borderOf

theorem chunk_read (h : m.Keyed) (s : Scope) :
    Entry.field (m.fields.map (entryOf s)) "chunk" (Chunk.decoder.map some) none =
      some (m.chunk.map (Chunk.mapTexts readBack)) := by
  cases present : m.chunk with
  | none =>
    apply field_absent
    simp only [fields, present]
    show utf8 "chunk" ∉ fieldNames.eraseIdx 2
    decide
  | some c =>
    exact m.entries.field "chunk" none (by simp [fields, present])
      (Decoder.map_gives (Chunk.decoder_gives (h.chunk c present)) some) s

theorem tiles_gives (ts : List UInt16) :
    word.list.Gives (treeNode (.row (ts.map fun t => t.toNat))) ts :=
  list_gives fun n _ => word_gives n

theorem movements_gives (ts : List UInt8) :
    octet.list.Gives (treeNode (.row (ts.map fun t => t.toNat))) ts :=
  list_gives fun n _ => octet_gives n

/-- What is read of a map is the map with its texts changed, once its warps and characters are
read. -/
theorem decoder_fields (h : m.Keyed) (s : Scope) :
    decoder s (treeNode (.fields m.fields)) = (do
      let warps ← (Decoder.dict true default Warp.decoder).orDefault Dict.empty s
        (treeNode (dictTree Warp.tree m.warps))
      let npcs ← (Decoder.dict true default Npc.decoder).orDefault Dict.empty s
        (treeNode (dictTree Npc.tree m.npcs))
      return some { m.mapTexts readBack with warps := warps, npcs := npcs }) := by
  have id := m.entries.field "id" default (by simp [fields]) m.id.decoder_gives s
  have name := m.entries.field "name" [] (by simp [fields]) (text_reads_back m.name) s
  have chunk := chunk_read h s
  have warps := m.entries.field_read "warps" (Decoder.dict true default Warp.decoder) Dict.empty
    (t := dictTree Warp.tree m.warps) (by simp [fields]) s
  have npcs := m.entries.field_read "npcs" (Decoder.dict true default Npc.decoder) Dict.empty
    (t := dictTree Npc.tree m.npcs) (by simp [fields]) s
  have width := m.entries.field "width" 0 (t := .int m.width.toNat) (by simp [fields])
    (word_gives m.width) s
  have height := m.entries.field "height" 0 (t := .int m.height.toNat) (by simp [fields])
    (word_gives m.height) s
  have palettes := m.entries.field "palettes" default (by simp [fields])
    (palettes_gives m.palettes) s
  have music := m.entries.field "music" [] (by simp [fields]) (text_reads_back m.music) s
  have tiles := m.entries.field "tiles" [] (by simp [fields]) (tiles_gives m.tiles) s
  have movements := m.entries.field "movements" [] (by simp [fields])
    (movements_gives m.movements) s
  have border := m.entries.field "border" default (by simp [fields]) (border_gives m.border) s
  rw [decoder, m.entries.found]
  simp only [Option.bind_eq_bind, Option.bind_some, id, name, chunk, warps, npcs, width, height,
    palettes, music, tiles, movements, border]
  rfl

/-! ## Documents -/

theorem document_entries (m : WorldMap) :
    RecordEntries [utf8 "map"] [field "map" (.fields m.fields)] :=
  ⟨by decide, List.Sublist.refl _⟩

theorem document_shaped (h : m.Keyed) :
    LegibleEntries (fun _ => True) 6 [field "map" (.fields m.fields)] := by
  apply m.document_entries.legible_entries
  intro e he
  rw [List.mem_singleton.mp he]
  exact fields_shaped h 0

theorem document_read (h : m.Keyed) (scans : ∀ s ∈ entriesTexts m.fields, TextScans s) :
    Document.read m.render =
      some ⟨some (treeNode (.fields [field "map" (.fields m.fields)])), []⟩ := by
  have texts : ∀ s ∈ entriesTexts [field "map" (.fields m.fields)], TextScans s := by
    simpa [entriesTexts, entryTexts, treeTexts, field] using scans
  exact read_document (legible_entries_of_shaped _ (document_shaped h) texts) (by decide)

/-- Reading the document of a map comes down to reading its warps and its characters. -/
theorem document_decode (h : m.Keyed) (scans : ∀ s ∈ entriesTexts m.fields, TextScans s) :
    Document.decode documentOutline documentDecoder default m.render = (do
      let warps ← (Decoder.dict true default Warp.decoder).orDefault Dict.empty ⟨[], []⟩
        (treeNode (dictTree Warp.tree m.warps))
      let npcs ← (Decoder.dict true default Npc.decoder).orDefault Dict.empty ⟨[], []⟩
        (treeNode (dictTree Npc.tree m.npcs))
      return { m.mapTexts readBack with warps := warps, npcs := npcs }) := by
  have value := m.document_entries.field_read "map" decoder default
    (t := .fields m.fields) (by simp) ⟨[], []⟩
  have fields := decoder_fields h ⟨[], []⟩
  rw [Document.decode, document_read h scans]
  simp only [Option.bind_eq_bind, Option.bind_some, documentDecoder, Decoder.orDefault,
    m.document_entries.found, value, fields, List.isEmpty_nil, Bool.true_or, guard_true]
  generalize Decoder.dict true default Warp.decoder _ _ = warps
  generalize Decoder.dict true default Npc.decoder _ _ = npcs
  cases warps with
  | none => rfl
  | some w =>
    cases npcs with
    | none => rfl
    | some n => rfl

/-- Without merge keys, the document of a map is read back with the texts changed. -/
theorem document_gives (h : m.Keyed) (scans : ∀ s ∈ entriesTexts m.fields, TextScans s)
    (warps : mergeKey ∉ m.warps.keys) (npcs : mergeKey ∉ m.npcs.keys) :
    Document.decode documentOutline documentDecoder default m.render =
      some (m.mapTexts readBack) := by
  have warpValues : ∀ e ∈ m.warps.entries,
      Warp.decoder.Gives (treeNode (Warp.tree e.2)) (e.2.mapTexts readBack) :=
    fun e _ => e.2.decoder_gives
  have npcValues : ∀ e ∈ m.npcs.entries,
      Npc.decoder.Gives (treeNode (Npc.tree e.2)) (e.2.mapTexts readBack) :=
    fun e _ => e.2.decoder_gives
  have warpsRead := dict_gives true default warpValues h.warps warps ⟨[], []⟩
  have npcsRead := dict_gives true default npcValues h.npcs npcs ⟨[], []⟩
  rw [document_decode h scans, Decoder.orDefault, warpsRead, Decoder.orDefault, npcsRead]
  rfl

end WorldMap

end Overworld
