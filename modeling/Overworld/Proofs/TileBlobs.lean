import Overworld.Proofs.Conversion
import Mathlib.Data.List.Basic

/-!
# Tile blobs and layouts

A blob that can be split is put together again byte for byte. Of a border the six upper bits of
each word are lost, and of a layout whatever does not fit its bits.
-/

set_option autoImplicit false

namespace Overworld.Tiles

/-! ## Words -/

theorem tile_of_to_nat (w : UInt16) : (tileOf w).toNat = w.toNat % 1024 := by
  rw [tileOf, UInt16.toNat_and]
  exact Nat.and_two_pow_sub_one_eq_mod w.toNat 10

theorem movement_of_to_nat (w : UInt16) : (movementOf w).toNat = w.toNat / 1024 := by
  have bound := w.toNat_lt
  rw [movementOf, UInt16.toNat_toUInt8, UInt16.toNat_shiftRight]
  show w.toNat >>> 10 % 2 ^ 8 = w.toNat / 1024
  rw [Nat.shiftRight_eq_div_pow]
  omega

/-- The movement is shifted within sixteen bits, so that its two upper bits fall out. -/
theorem pack_to_nat (t : UInt16) (p : UInt8) :
    (pack t p).toNat = 1024 * (p.toNat % 64) + t.toNat % 1024 := by
  have tile : (t &&& tileMask).toNat = t.toNat % 1024 := tile_of_to_nat t
  have movement : (p.toUInt16 <<< movementShift).toNat = 1024 * (p.toNat % 64) := by
    have bound := p.toNat_lt
    rw [UInt16.toNat_shiftLeft, UInt8.toNat_toUInt16]
    show p.toNat <<< 10 % 2 ^ 16 = _
    rw [Nat.shiftLeft_eq]
    omega
  have small : t.toNat % 1024 < 1024 := Nat.mod_lt _ (by decide)
  rw [pack, UInt16.toNat_or, tile, movement, Nat.or_comm]
  exact (Nat.two_pow_add_eq_or_of_lt (i := 10) small _).symm

theorem pack_parts (w : UInt16) : pack (tileOf w) (movementOf w) = w := by
  apply UInt16.toNat_inj.mp
  have bound := w.toNat_lt
  rw [pack_to_nat, tile_of_to_nat, movement_of_to_nat]
  omega

theorem tile_of_pack (t : UInt16) (p : UInt8) : tileOf (pack t p) = t % 1024 := by
  apply UInt16.toNat_inj.mp
  rw [tile_of_to_nat, pack_to_nat, UInt16.toNat_mod]
  show _ = t.toNat % 1024
  omega

theorem movement_of_pack (t : UInt16) (p : UInt8) : movementOf (pack t p) = p % 64 := by
  apply UInt8.toNat_inj.mp
  rw [movement_of_to_nat, pack_to_nat, UInt8.toNat_mod]
  show _ = p.toNat % 64
  omega

theorem tile_of_eq_mod (w : UInt16) : tileOf w = w % 1024 := by
  apply UInt16.toNat_inj.mp
  rw [tile_of_to_nat, UInt16.toNat_mod]
  rfl

theorem tile_of_tile_of (w : UInt16) : tileOf (tileOf w) = tileOf w := by
  apply UInt16.toNat_inj.mp
  simp only [tile_of_to_nat, Nat.mod_mod]

/-! ## Blobs -/

theorem word_to_nat (low high : UInt8) : (word low high).toNat = low.toNat + 256 * high.toNat := by
  have small := low.toNat_lt
  have small' := high.toNat_lt
  rw [word, UInt16.toNat_ofNat_of_lt']
  show _ < 65536
  omega

theorem word_bytes_word (low high : UInt8) : wordBytes (word low high) = [low, high] := by
  have small := low.toNat_lt
  have split : (low.toNat + 256 * high.toNat) % 256 = low.toNat ∧
      (low.toNat + 256 * high.toNat) / 256 = high.toNat := by omega
  simp [wordBytes, word_to_nat, split]

theorem words_word_bytes (w : UInt16) (rest : Bytes) :
    words (wordBytes w ++ rest) = w :: words rest := by
  have bound := w.toNat_lt
  have same : word (UInt8.ofNat (w.toNat % 256)) (UInt8.ofNat (w.toNat / 256)) = w := by
    apply UInt16.toNat_inj.mp
    rw [word_to_nat, UInt8.toNat_ofNat', UInt8.toNat_ofNat']
    omega
  show word _ _ :: words rest = _
  rw [same]

theorem words_flat_map (ws : List UInt16) : words (ws.flatMap wordBytes) = ws := by
  induction ws with
  | nil => rfl
  | cons w ws ih => rw [List.flatMap_cons, words_word_bytes, ih]

theorem flat_map_length (ws : List UInt16) : (ws.flatMap wordBytes).length = 2 * ws.length := by
  induction ws with
  | nil => rfl
  | cons w ws ih =>
    rw [List.flatMap_cons, List.length_append, ih, List.length_cons]
    simp only [wordBytes, List.length_cons, List.length_nil]
    omega

theorem eq_nil_of_short {s : Bytes} (even : s.length % 2 = 0)
    (short : ∀ low high rest, s = low :: high :: rest → False) : s = [] := by
  cases s with
  | nil => rfl
  | cons low s =>
    cases s with
    | nil => simp at even
    | cons high rest => exact absurd rfl (short low high rest)

theorem flat_map_words (s : Bytes) (even : s.length % 2 = 0) :
    (words s).flatMap wordBytes = s := by
  induction s using words.induct with
  | case1 low high rest ih =>
    simp only [List.length_cons] at even
    rw [words, List.flatMap_cons, word_bytes_word, ih (by omega)]
    rfl
  | case2 s short =>
    rw [eq_nil_of_short even short]
    rfl

theorem words_take (s : Bytes) (n : Nat) : words (s.take (2 * n)) = (words s).take n := by
  induction n generalizing s with
  | zero => rfl
  | succ n ih =>
    cases s with
    | nil => rfl
    | cons low s =>
      cases s with
      | nil => simp [words, show 2 * (n + 1) = 2 * n + 1 + 1 from rfl]
      | cons high rest =>
        rw [show 2 * (n + 1) = 2 * n + 1 + 1 from rfl, List.take_succ_cons, List.take_succ_cons]
        simp only [words, List.take_succ_cons, ih]

theorem pack_all_parts (ws : List UInt16) :
    packAll (ws.map tileOf) (ws.map movementOf) = some ws := by
  induction ws with
  | nil => rfl
  | cons w ws ih => simp only [List.map_cons, packAll, ih, pack_parts, Option.map_some]

theorem pack_all_enough {ts : List UInt16} {ps : List UInt8} (enough : ts.length ≤ ps.length) :
    packAll ts ps = some (List.zipWith pack ts ps) := by
  induction ts generalizing ps with
  | nil => rfl
  | cons t ts ih =>
    cases ps with
    | nil => simp at enough
    | cons p ps =>
      simp only [List.length_cons, Nat.add_le_add_iff_right] at enough
      simp only [packAll, ih enough, Option.map_some, List.zipWith_cons_cons]

theorem parts_zip {ts : List UInt16} {ps : List UInt8} (enough : ts.length ≤ ps.length) :
    (List.zipWith pack ts ps).map tileOf = ts.map (· % 1024) ∧
      (List.zipWith pack ts ps).map movementOf = (ps.take ts.length).map (· % 64) := by
  induction ts generalizing ps with
  | nil => exact ⟨rfl, rfl⟩
  | cons t ts ih =>
    cases ps with
    | nil => simp at enough
    | cons p ps =>
      simp only [List.length_cons, Nat.add_le_add_iff_right] at enough
      obtain ⟨tiles, movements⟩ := ih enough
      simp only [List.zipWith_cons_cons, List.map_cons, tiles, movements, tile_of_pack,
        movement_of_pack, List.length_cons, List.take_succ_cons, and_self]

/-! ## Borders -/

/-- A blob with the six upper bits of each of its words cleared. -/
def cleared : Bytes → Bytes
  | low :: high :: rest => low :: high % 4 :: cleared rest
  | s => s

theorem word_bytes_tile_of (low high : UInt8) :
    wordBytes (tileOf (word low high)) = [low, high % 4] := by
  have small := low.toNat_lt
  have small' := high.toNat_lt
  have same : tileOf (word low high) = word low (high % 4) := by
    apply UInt16.toNat_inj.mp
    rw [tile_of_to_nat, word_to_nat, word_to_nat, UInt8.toNat_mod]
    show _ = low.toNat + 256 * (high.toNat % 4)
    omega
  rw [same, word_bytes_word]

theorem flat_map_tiles (s : Bytes) (even : s.length % 2 = 0) :
    (words s).flatMap (fun w => wordBytes (tileOf w)) = cleared s := by
  induction s using words.induct with
  | case1 low high rest ih =>
    simp only [List.length_cons] at even
    rw [words, List.flatMap_cons, word_bytes_tile_of, ih (by omega)]
    rfl
  | case2 s short =>
    rw [eq_nil_of_short even short]
    rfl

theorem border_of_to_list {ws : List UInt16} (enough : 4 ≤ ws.length) :
    (borderOf ws).toList = (ws.take 4).map tileOf := by
  have four : (ws.take 4).length = 4 := by rw [List.length_take, Nat.min_eq_left enough]
  obtain ⟨a, b, c, d, first⟩ := List.length_eq_four.mp four
  rw [← List.take_append_drop 4 ws, first]
  rfl

theorem border_of_tiles (b : Border) (rest : List UInt16) :
    borderOf (b.toList.map tileOf ++ rest) =
      ⟨b.topLeft % 1024, b.topRight % 1024, b.bottomLeft % 1024, b.bottomRight % 1024⟩ := by
  simp only [Border.toList, List.map_cons, List.map_nil, List.cons_append, borderOf,
    tile_of_tile_of]
  simp only [tile_of_eq_mod]

/-! ## Both directions -/

/-- The length of a blob is a number of 64 bits with a sign. -/
def maxBlob : Nat := 0x7FFFFFFFFFFFFFFF

/-- Twice a count is taken in 64 bits. Where it overflows it is negative, and no length. -/
theorem length_eq_twice {count : Int64} (h : 0 ≤ count.toInt) (n : Nat) :
    (n : Int) = (count * 2).toInt ↔ (n : Int) = 2 * count.toInt ∧ n ≤ maxBlob := by
  have bound := count.toInt_lt
  rw [Int64.toInt_mul]
  show (n : Int) = (count.toInt * 2).bmod 18446744073709551616 ↔ _
  rw [Int.bmod_def, Int.emod_eq_of_lt (by omega) (by omega), maxBlob]
  split <;> omega

theorem decode_eq_some_iff {tiles border : Bytes} {count : Int64} {l : Layout} :
    decode tiles border count = some l ↔
      (0 ≤ count.toInt ∧ (tiles.length : Int) = 2 * count.toInt ∧ tiles.length ≤ maxBlob ∧
        borderBytes ≤ border.length) ∧
      ⟨(words tiles).map tileOf, (words tiles).map movementOf, borderOf (words border)⟩ = l := by
  have sign : count < 0 ↔ ¬ 0 ≤ count.toInt := by
    rw [Int64.lt_iff_toInt_lt, Int.not_le]
    rfl
  have refuses : (count < 0 || (tiles.length : Int) != (count * 2).toInt ||
      border.length < borderBytes) = true ↔ ¬ (0 ≤ count.toInt ∧
        (tiles.length : Int) = 2 * count.toInt ∧ tiles.length ≤ maxBlob ∧
        borderBytes ≤ border.length) := by
    rw [Bool.or_eq_true, Bool.or_eq_true, decide_eq_true_eq, bne_iff_ne, decide_eq_true_eq, sign]
    by_cases negative : 0 ≤ count.toInt
    · rw [ne_eq, length_eq_twice negative]
      omega
    · simp [negative]
  unfold decode
  by_cases fits : 0 ≤ count.toInt ∧ (tiles.length : Int) = 2 * count.toInt ∧
      tiles.length ≤ maxBlob ∧ borderBytes ≤ border.length
  · rw [if_neg fun refused => refuses.mp refused fits, Option.some_inj]
    exact ⟨fun same => ⟨fits, same⟩, And.right⟩
  · rw [if_pos (refuses.mpr fits)]
    exact ⟨nofun, fun both => absurd both.1 fits⟩

theorem encode_decoded {tiles border : Bytes} {count : Int64} {l : Layout}
    (h : decode tiles border count = some l) :
    encode l = some (tiles, cleared (border.take borderBytes)) := by
  obtain ⟨⟨_, twice, _, enough⟩, rfl⟩ := decode_eq_some_iff.mp h
  have even : tiles.length % 2 = 0 := by omega
  have four : 4 ≤ (words border).length := by
    rw [words_length]
    simp only [borderBytes] at enough
    omega
  have even' : (border.take borderBytes).length % 2 = 0 := by
    rw [List.length_take, Nat.min_eq_left enough]
    rfl
  have cut : words (border.take borderBytes) = (words border).take 4 := words_take border 4
  simp only [encode, pack_all_parts, Option.map_some, flat_map_words _ even,
    border_of_to_list four, ← flat_map_tiles _ even', cut, List.flatMap_map, tile_of_tile_of]

/-- A layout as its bits can hold it. -/
def Layout.reduced (l : Layout) : Layout where
  tiles := l.tiles.map (· % 1024)
  movements := (l.movements.take l.tiles.length).map (· % 64)
  border := ⟨l.border.topLeft % 1024, l.border.topRight % 1024, l.border.bottomLeft % 1024,
    l.border.bottomRight % 1024⟩

theorem map_mod_self {ts : List UInt16} (small : ∀ t ∈ ts, t < 1024) :
    ts.map (· % 1024) = ts := by
  apply (List.map_congr_left _).trans (List.map_id _)
  exact fun t mem => UInt16.mod_eq_of_lt (small t mem)

theorem reduced_decoded {l : Layout} (h : Decoded l.tiles.length l) : l.reduced = l := by
  obtain ⟨_, count, tiles, movements, border⟩ := h
  have moved : (l.movements.take l.tiles.length).map (· % 64) = l.movements := by
    rw [← count, List.take_length]
    apply (List.map_congr_left _).trans (List.map_id _)
    exact fun p mem => UInt8.mod_eq_of_lt (movements p mem)
  have framed := map_mod_self border
  obtain ⟨ts, ps, a, b, c, d⟩ := l
  simp only [Border.toList, List.map_cons, List.map_nil, List.cons.injEq, and_true] at framed
  simp only [Layout.reduced, map_mod_self tiles, moved, framed]

theorem decode_encoded {l : Layout} (enough : l.tiles.length ≤ l.movements.length) :
    ∃ tiles border, encode l = some (tiles, border) ∧ tiles.length = 2 * l.tiles.length ∧
      border.length = borderBytes ∧
      decode tiles border (.ofNat l.tiles.length) =
        if tiles.length ≤ maxBlob then some l.reduced else none := by
  refine ⟨_, _, by rw [encode, pack_all_enough enough, Option.map_some], ?_⟩
  have zipped : (List.zipWith pack l.tiles l.movements).length = l.tiles.length := by
    rw [List.length_zipWith, Nat.min_eq_left enough]
  have long := flat_map_length (List.zipWith pack l.tiles l.movements)
  rw [zipped] at long
  have framed : (l.border.toList.flatMap fun w => wordBytes (tileOf w)) =
      (l.border.toList.map tileOf).flatMap wordBytes := by rw [List.flatMap_map]
  have eight : (l.border.toList.flatMap fun w => wordBytes (tileOf w)).length = borderBytes := rfl
  refine ⟨long, eight, ?_⟩
  have parts := parts_zip enough
  have edge := border_of_tiles l.border []
  rw [List.append_nil] at edge
  have read : (⟨(words ((List.zipWith pack l.tiles l.movements).flatMap wordBytes)).map tileOf,
      (words ((List.zipWith pack l.tiles l.movements).flatMap wordBytes)).map movementOf,
      borderOf (words (l.border.toList.flatMap fun w => wordBytes (tileOf w)))⟩ : Layout) =
        l.reduced := by
    rw [framed, words_flat_map, words_flat_map, parts.1, parts.2, edge]
    rfl
  by_cases fits : 2 * l.tiles.length ≤ maxBlob
  · rw [long, if_pos fits, decode_eq_some_iff]
    have count : (Int64.ofNat l.tiles.length).toInt = l.tiles.length := by
      apply Int64.toInt_ofNat_of_lt
      simp only [maxBlob] at fits
      show _ < 9223372036854775808
      omega
    rw [count, long, eight]
    exact ⟨⟨by omega, by omega, fits, Nat.le_refl _⟩, read⟩
  · rw [long, if_neg fits, Option.eq_none_iff_forall_ne_some]
    intro x decoded
    obtain ⟨⟨_, _, short, _⟩, _⟩ := decode_eq_some_iff.mp decoded
    exact fits (long ▸ short)

/-- Splitting succeeds exactly for a count that is not negative, a tile blob of twice as many bytes
and a border of at least eight, and putting the layout together again gives the tile blob and the
cleared border. A layout with a movement for each tile can be put together. Splitting that gives the
layout as its bits can hold it, unless no blob can be so long; it is the layout itself if that is
well formed. -/
theorem blobs_and_layouts_round_trip :
    (∀ (tiles border : Bytes) (count : Int64),
      ((decode tiles border count).isSome ↔ 0 ≤ count.toInt ∧
        (tiles.length : Int) = 2 * count.toInt ∧ tiles.length ≤ maxBlob ∧ 8 ≤ border.length) ∧
      ∀ l, decode tiles border count = some l →
        encode l = some (tiles, cleared (border.take 8))) ∧
    ∀ l : Layout, l.tiles.length ≤ l.movements.length →
      ∃ tiles border, encode l = some (tiles, border) ∧ tiles.length = 2 * l.tiles.length ∧
        decode tiles border (.ofNat l.tiles.length) =
          (if tiles.length ≤ maxBlob then some l.reduced else none) ∧
        (Decoded l.tiles.length l → l.reduced = l) := by
  constructor
  · intro tiles border count
    refine ⟨?_, fun l => encode_decoded⟩
    rw [Option.isSome_iff_exists]
    constructor
    · rintro ⟨l, decoded⟩
      exact (decode_eq_some_iff.mp decoded).1
    · intro fits
      exact ⟨_, decode_eq_some_iff.mpr ⟨fits, rfl⟩⟩
  · intro l enough
    obtain ⟨tiles, border, encoded, long, _, decoded⟩ := decode_encoded enough
    exact ⟨tiles, border, encoded, long, decoded, reduced_decoded⟩

/-- Words with all bits set, a border of nine bytes, a layout whose numbers are too large and that
has a movement too many, and a count whose double is zero in 64 bits. -/
theorem full_words_round_trip :
    let border : Bytes := List.replicate 9 0xFF
    let l : Layout := ⟨[1025], [255, 7], ⟨1024, 1, 2, 65535⟩⟩
    (∃ x, decode [0xFF, 0xFF] border 1 = some x ∧
      encode x = some ([0xFF, 0xFF], [0xFF, 3, 0xFF, 3, 0xFF, 3, 0xFF, 3])) ∧
    ¬ (decode [] border Int64.minValue).isSome ∧
    ∃ tiles border, encode l = some (tiles, border) ∧
      decode tiles border 1 = some ⟨[1], [63], ⟨0, 1, 2, 1023⟩⟩ := by
  intro border l
  obtain ⟨blobs, layouts⟩ := blobs_and_layouts_round_trip
  obtain ⟨succeeds, restored⟩ := blobs [0xFF, 0xFF] border 1
  refine ⟨?_, ?_, ?_⟩
  · obtain ⟨x, decoded⟩ := Option.isSome_iff_exists.mp (succeeds.mpr (by decide))
    exact ⟨x, decoded, restored x decoded⟩
  · rw [(blobs [] border Int64.minValue).1]
    decide
  · obtain ⟨tiles, border, encoded, long, decoded, _⟩ := layouts l (by decide)
    refine ⟨tiles, border, encoded, ?_⟩
    have reduced : l.reduced = ⟨[1], [63], ⟨0, 1, 2, 1023⟩⟩ := by decide
    rw [long, if_pos (by decide), reduced] at decoded
    exact decoded

end Overworld.Tiles
