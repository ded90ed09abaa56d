import Overworld.Proofs.MapDocument
import Overworld.Proofs.Yaml.Sequences
import Overworld.World.Output

/-!
# Manifests are read back

A manifest whose texts are printable and take one line each is read back from its own document: the
run, the number of maps, the digest and the entries, one after the other.
-/

set_option autoImplicit false

namespace Overworld

open Yaml

theorem Yaml.KeyText.gives {t : Bytes} (h : KeyText t) :
    Decoder.text.Gives (treeNode (.text t)) t := by
  have back := text_reads_back t
  rwa [h.read_back] at back

namespace ManifestEntry

def texts (e : ManifestEntry) : List Bytes := [e.location, e.name, e.file]

def decoder : Decoder ManifestEntry := fun s n => do
  match ← Decoder.record [utf8 "location", utf8 "name", utf8 "file"] s n with
  | none => return none
  | some es =>
    return some ⟨← Entry.field es "location" Decoder.text [],
      ← Entry.field es "name" Decoder.text [], ← Entry.field es "file" Decoder.text []⟩

/-- The names and the texts of an entry. -/
def lines (e : ManifestEntry) : List (Bytes × Bytes) :=
  [(utf8 "location", e.location), (utf8 "name", e.name), (utf8 "file", e.file)]

theorem entries (e : ManifestEntry) :
    RecordEntries [utf8 "location", utf8 "name", utf8 "file"] (textEntries e.lines) :=
  ⟨by decide, List.Sublist.refl _⟩

theorem lines_of_texts {e : ManifestEntry} (h : ∀ s ∈ e.texts, KeyText s) : Lines e.lines := by
  refine ⟨by simp [lines], ?_⟩
  intro x mem
  obtain ⟨name, simple, _⟩ := e.entries.valid.each x.1 (by
    have held : x.1 ∈ e.lines.map (·.1) := List.mem_map_of_mem mem
    simpa [lines] using held)
  refine ⟨name, simple, h x.2 ?_⟩
  have held : x.2 ∈ e.lines.map (·.2) := List.mem_map_of_mem mem
  simpa [lines, texts] using held

theorem decoder_gives {e : ManifestEntry} (h : ∀ s ∈ e.texts, KeyText s) :
    decoder.Gives (treeNode (Manifest.entryTree e)) e := by
  have text : ∀ t ∈ e.texts, Decoder.text.Gives (treeNode (.text t)) t :=
    fun t mem => (h t mem).gives
  intro s
  have location := e.entries.field "location" [] (t := .text e.location)
    (by simp [lines, textEntries, field]) (text _ (by simp [texts])) s
  have name := e.entries.field "name" [] (t := .text e.name)
    (by simp [lines, textEntries, field]) (text _ (by simp [texts])) s
  have file := e.entries.field "file" [] (t := .text e.file)
    (by simp [lines, textEntries, field]) (text _ (by simp [texts])) s
  show decoder s (treeNode (.fields (textEntries e.lines))) = _
  rw [decoder, e.entries.found]
  simp only [Option.bind_eq_bind, Option.bind_some, location, name, file]
  rfl

end ManifestEntry

namespace Manifest

variable {m : Manifest}

def texts (m : Manifest) : List Bytes := m.runId :: m.digest :: m.maps.flatMap ManifestEntry.texts

theorem entry_texts {e : ManifestEntry} (held : e ∈ m.maps) : ∀ s ∈ e.texts, s ∈ m.texts := by
  intro s part
  rw [texts, List.mem_cons, List.mem_cons, List.mem_flatMap]
  exact .inr (.inr ⟨e, held, part⟩)

def fieldNames : List Bytes := [utf8 "run_id", utf8 "count", utf8 "digest", utf8 "maps"]

def decoder : Decoder Manifest := fun s n => do
  match ← Decoder.record fieldNames s n with
  | none => return none
  | some es =>
    let count : Decoder Nat := (Decoder.integer 0 0x7FFFFFFFFFFFFFFF).map Int.toNat
    return some ⟨← Entry.field es "run_id" Decoder.text [], ← Entry.field es "count" count 0,
      ← Entry.field es "digest" Decoder.text [],
      ← Entry.field es "maps" (Decoder.list ManifestEntry.decoder) []⟩

def outline : Outline :=
  .ofFields [("run_id", .scalar), ("count", .scalar), ("digest", .scalar),
    ("maps", .list (.ofScalars ["location", "name", "file"]))]

/-- Reads a manifest. -/
def read (s : Bytes) : Option Manifest := Document.decode outline decoder ⟨[], 0, [], []⟩ s

/-- The fields of a manifest before its entries. -/
def head (m : Manifest) : List (Bytes × Tree) :=
  [field "run_id" (.text m.runId), field "count" (.int m.count), field "digest" (.text m.digest)]

def fields (m : Manifest) : List (Bytes × Tree) :=
  m.head ++ [field "maps" (.items (m.maps.map entryTree))]

theorem entries (m : Manifest) : RecordEntries fieldNames m.fields :=
  ⟨by decide, List.Sublist.refl _⟩

theorem head_legible (h : ∀ s ∈ m.texts, KeyText s) : LegibleEntries TextScans 0 m.head := by
  have part : RecordEntries fieldNames m.head :=
    ⟨by decide, (List.sublist_append_left m.head [field "maps" (.items [])]).map (·.1)⟩
  apply part.legible_entries
  intro e mem
  simp only [head, List.mem_cons, List.not_mem_nil, or_false] at mem
  rcases mem with rfl | rfl | rfl
  · exact (h m.runId (by simp [texts])).scans
  · trivial
  · exact (h m.digest (by simp [texts])).scans

theorem decoder_gives (h : ∀ s ∈ m.texts, KeyText s) (small : m.count < 0x8000000000000000) :
    decoder.Gives (treeNode (.fields m.fields)) m := by
  have text : ∀ t ∈ m.texts, Decoder.text.Gives (treeNode (.text t)) t :=
    fun t mem => (h t mem).gives
  have number : ((Decoder.integer 0 0x7FFFFFFFFFFFFFFF).map Int.toNat).Gives
      (treeNode (.int m.count)) m.count := by
    have fits : Fits (m.count : Int) := ⟨by omega, by omega⟩
    have value : (Decoder.integer 0 0x7FFFFFFFFFFFFFFF).Gives (intNode m.count) (m.count : Int) :=
      integer_gives fits (by omega) (by omega)
    exact Decoder.map_gives value Int.toNat
  have listed : (Decoder.list ManifestEntry.decoder).Gives
      (treeNode (.items (m.maps.map entryTree))) m.maps := by
    apply items_give
    exact fun e held => ManifestEntry.decoder_gives fun t part => h t (entry_texts held t part)
  intro s
  have runId :=
    m.entries.field "run_id" [] (by simp [fields, head]) (text m.runId (by simp [texts])) s
  have count := m.entries.field "count" 0 (by simp [fields, head]) number s
  have digest := m.entries.field "digest" [] (by simp [fields, head])
    (text m.digest (by simp [texts])) s
  have maps := m.entries.field "maps" [] (by simp [fields]) listed s
  rw [decoder, m.entries.found]
  simp only [Option.bind_eq_bind, Option.bind_some, runId, count, digest, maps]
  rfl

/-- A manifest of printable texts is read back as it was written. -/
theorem read_render (h : ∀ s ∈ m.texts, KeyText s) (small : m.count < 0x8000000000000000) :
    read m.render = some m := by
  have lines : ∀ es ∈ m.maps.map ManifestEntry.lines, Lines es := by
    intro es mem
    obtain ⟨e, held, rfl⟩ := List.mem_map.mp mem
    exact ManifestEntry.lines_of_texts fun t part => h t (entry_texts held t part)
  have items : (m.maps.map ManifestEntry.lines).map recordTree = m.maps.map entryTree := by
    rw [List.map_map]
    rfl
  have document : Document.read m.render = some ⟨some (treeNode (.fields m.fields)), []⟩ := by
    have whole := read_sequence (head_legible h) (by decide) (k := utf8 "maps") (by decide)
      (by decide) lines
    rw [items] at whole
    exact whole
  rw [read, Document.decode, document]
  simp only [Option.bind_eq_bind, Option.bind_some, Decoder.orDefault, decoder_gives h small _,
    List.isEmpty_nil, Bool.true_or, guard_true]
  rfl

end Manifest

end Overworld
