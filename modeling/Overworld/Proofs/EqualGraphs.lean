import Overworld.Proofs.WriteEffects

/-!
# Graphs with the same maps

A graph does not depend on the order in which its maps were inserted, and a document does not depend
on the order in which the connections, warps and characters of its map are met. So graphs with the
same maps have the same digest.
-/

set_option autoImplicit false

namespace Overworld

open Yaml

/-! ## Orders of insertion -/

namespace Graph

variable {ms ms' : List WorldMap}

theorem foldl_offer_entries {g : Graph}
    (distinct : (g.keys ++ ms.map fun m => m.id.key).Nodup) :
    (ms.foldl offer g).maps.entries.Perm (g.maps.entries ++ ms.map fun m => (m.id.key, m)) := by
  induction ms generalizing g with
  | nil => simp
  | cons m ms ih =>
    have free : g.maps.find? m.id.key = none := by
      rw [Dict.find_eq_none_iff]
      intro taken
      exact (List.nodup_append.mp distinct).2.2 _ taken _ (by simp) rfl
    have offered : g.offer m = ⟨g.maps.insert m.id.key m⟩ := by
      simp only [offer, insertIfAbsent, free]
    have placed := Dict.insert_perm free m
    have keys : ((g.offer m).keys ++ ms.map fun m => m.id.key).Nodup := by
      rw [offered]
      refine (List.Perm.nodup_iff ?_).mpr distinct
      exact ((placed.map Prod.fst).append_right _).trans List.perm_middle.symm
    rw [List.foldl_cons, List.map_cons]
    apply (ih keys).trans
    rw [offered]
    exact (placed.append_right _).trans List.perm_middle.symm

theorem offered_entries (distinct : (ms.map fun m => m.id.key).Nodup) :
    (offered ms).maps.entries.Perm (ms.map fun m => (m.id.key, m)) :=
  foldl_offer_entries distinct

theorem offered_maps (distinct : (ms.map fun m => m.id.key).Nodup) :
    (offered ms).toList.Perm ms := by
  have values := (offered_entries distinct).map Prod.snd
  rw [List.map_map, show (Prod.snd ∘ fun m : WorldMap => (m.id.key, m)) = id from rfl,
    List.map_id] at values
  exact values

/-- Maps with distinct keys make up one graph, in whatever order they are inserted. -/
theorem offered_of_perm (distinct : (ms.map fun m => m.id.key).Nodup) (same : ms.Perm ms') :
    offered ms = offered ms' := by
  have distinct' := (same.map fun m => m.id.key).nodup_iff.mp distinct
  have entries := (offered_entries distinct).trans
    ((same.map fun m => (m.id.key, m)).trans (offered_entries distinct').symm)
  have maps : (offered ms).maps = (offered ms').maps := Dict.ext_perm entries
  cases h : offered ms
  cases h' : offered ms'
  rw [h, h'] at maps
  cases maps
  rfl

end Graph

namespace Graph

/-- The digest of a graph whose documents have the orders of these listings. -/
def digestBy (order : WorldMap → Listing) (g : Graph) : Bytes :=
  g.digestWith fun m => (order m).render m

/-- Graphs made up of the same maps list the same keys and maps. However the connections, warps and
characters of a map are met, sorting them arranges them, in the ascending order of their numbers,
and there is one document and one digest that such an arrangement can give. -/
theorem equal_graphs_equal_digests {ms ms' : List WorldMap}
    (distinct : (ms.map fun m => m.id.key).Nodup) (same : ms.Perm ms')
    (synthesized : ∀ m ∈ ms, m.Synthesized) :
    (offered ms).toList.Perm ms ∧
    (offered ms).keys = (offered ms').keys ∧ (offered ms).toList = (offered ms').toList ∧
    (offered ms).digest = (offered ms').digest ∧
    (∀ m ∈ ms, ∀ l : Listing, l.Lists m → l.sorted.Lists m ∧ l.sorted.Arranged) ∧
    (∀ m ∈ ms, ∀ l : Listing, l.Lists m → l.Arranged → l.render m = m.render ∧
      KeyOrder.Ascending "warp" l.warps ∧ KeyOrder.Ascending "npc" l.npcs) ∧
    ∀ order order' : WorldMap → Listing,
      (∀ m ∈ ms, (order m).Lists m ∧ (order m).Arranged) →
      (∀ m ∈ ms, (order' m).Lists m ∧ (order' m).Arranged) →
      digestBy order (offered ms) = (offered ms).digest ∧
        digestBy order (offered ms) = digestBy order' (offered ms') := by
  have one : ∀ m ∈ ms, ∀ l : Listing, l.Lists m → l.Arranged → l.render m = m.render := by
    intro m given l lists arranged
    rw [Listing.eq_of_map (synthesized m given).ordered lists arranged, Listing.of_map_render]
  have digests : ∀ order : WorldMap → Listing,
      (∀ m ∈ ms, (order m).Lists m ∧ (order m).Arranged) →
      digestBy order (offered ms) = (offered ms).digest := by
    intro order arranges
    apply digest_with_congr
    intro m held
    have given := (offered_maps distinct).mem_iff.mp held
    exact one m given _ (arranges m given).1 (arranges m given).2
  have equal := offered_of_perm distinct same
  refine ⟨offered_maps distinct, by rw [equal], by rw [equal], by rw [equal], ?_, ?_, ?_⟩
  · intro m given l lists
    exact ⟨Listing.sorted_lists lists, Listing.sorted_arranged (synthesized m given).ordered lists⟩
  · intro m given l lists arranged
    refine ⟨one m given l lists arranged, ?_, ?_⟩
    · exact Listing.ascending_of_perm (synthesized m given).warps lists.warps arranged.warps
    · exact Listing.ascending_of_perm (synthesized m given).npcs lists.npcs arranged.npcs
  · intro order order' arranges arranges'
    rw [← equal, digests order arranges, digests order' arranges']
    exact ⟨rfl, rfl⟩

/-- A map with neighbours above and below, and as many doors as there are numbers, with a guard at
each. -/
def station (numbers : List Nat) : WorldMap :=
  { signpost "" "station" "1" with
    chunk := some ((Dict.empty.insert (utf8 "up") default).insert (utf8 "down") default)
    warps := numbers.foldl (fun d i => d.insert (Resolver.numbered "warp" i) default) .empty
    npcs := numbers.foldl (fun d i => d.insert (Resolver.numbered "npc" i) default) .empty }

/-- The entries of a map in the order of the bytes of their keys. -/
def byBytes (m : WorldMap) : Listing := ⟨m.chunk.map Dict.entries, m.warps.entries, m.npcs.entries⟩

theorem station_digest_same :
    let m := station [2, 10]
    let ms := [m, signpost "a" "c" "2"]
    (∀ m ∈ ms, m.Synthesized) ∧ (byBytes m).Lists m ∧ ¬ (byBytes m).Arranged ∧
      (byBytes m).sorted.render m = m.render ∧
      (byBytes m).sorted.warps.map Prod.fst = [utf8 "warp_2", utf8 "warp_10"] ∧
      (offered ms).digest = (offered ms.reverse).digest := by
  intro m ms
  have warps : ∀ m ∈ ms, ∀ x ∈ m.warps.entries,
      ∃ i ∈ [2, 10], x.1 = Resolver.numbered "warp" i := by decide
  have npcs : ∀ m ∈ ms, ∀ x ∈ m.npcs.entries,
      ∃ i ∈ [2, 10], x.1 = Resolver.numbered "npc" i := by decide
  have chunks : ∀ m ∈ ms, ∀ c ∈ m.chunk, ∀ x ∈ Dict.entries c,
      ∃ d ∈ Direction.all, x.1 = d.name := by decide
  have small : ∀ i ∈ [2, 10], i < 9223372036854775808 := by decide
  have synthesized : ∀ m ∈ ms, m.Synthesized := by
    intro m given
    refine ⟨?_, ?_, ?_⟩
    · intro c held x hx
      obtain ⟨d, _, key⟩ := chunks m given c held x hx
      exact ⟨d, key⟩
    · intro x hx
      obtain ⟨i, used, key⟩ := warps m given x hx
      exact ⟨i, small i used, key⟩
    · intro x hx
      obtain ⟨i, used, key⟩ := npcs m given x hx
      exact ⟨i, small i used, key⟩
  have lists : (byBytes m).Lists m := ⟨.some (.refl _), .refl _, .refl _⟩
  have disarranged : ¬ (byBytes m).Arranged := by
    intro arranged
    have last : KeyOrder.lt (utf8 "warp_2") (utf8 "warp_10") = false :=
      (List.isChain_cons_cons.mp arranged.warps).1
    exact absurd last (by decide)
  obtain ⟨_, _, _, digest, sorts, documents, _⟩ :=
    equal_graphs_equal_digests (by decide) ms.reverse_perm.symm synthesized
  obtain ⟨lists', arranged⟩ := sorts m (by simp [ms]) _ lists
  have sorted : (byBytes m).sorted.warps = _ := KeyOrder.sort_pair _ _
  refine ⟨synthesized, lists, disarranged, (documents m (by simp [ms]) _ lists' arranged).1, ?_,
    digest⟩
  rw [sorted]
  decide +kernel

/-- A number that does not fit sorts before smaller ones, and the order of such keys has a cycle: a
map with three of them has two documents whose entries are arranged. -/
theorem wide_number_sorts_first :
    (Listing.ofMap (station [1, 9223372036854775808])).warps.map Prod.fst =
        [utf8 "warp_9223372036854775808", utf8 "warp_1"] ∧
      let m := station [1, 9223372036854775807, 9223372036854775808]
      let turned := { byBytes m with warps := m.warps.entries.rotate 1 }
      (byBytes m).Lists m ∧ (byBytes m).Arranged ∧ turned.Lists m ∧ turned.Arranged ∧
        (byBytes m).render m ≠ turned.render m := by
  have sorted : (Listing.ofMap (station [1, 9223372036854775808])).warps = _ :=
    KeyOrder.sort_pair _ _
  refine ⟨by rw [sorted]; decide +kernel, ?_⟩
  intro m turned
  have arranged : (byBytes m).Arranged := by
    refine ⟨?_, ?_, ?_⟩
    · decide +kernel
    · decide +kernel
    · decide +kernel
  refine ⟨⟨.some (.refl _), .refl _, .refl _⟩, arranged,
    ⟨.some (.refl _), List.rotate_perm _ _, .refl _⟩, ⟨arranged.chunk, ?_, arranged.npcs⟩, ?_⟩
  · decide +kernel
  · decide +kernel

end Graph

end Overworld
