import Overworld.Text.Bytes
import Mathlib.Data.List.TakeWhile

/-!
# Pieces of byte strings

Splitting a text at a byte and joining pieces undo each other where the pieces are free of the
byte. What begins with a text is that text and a rest.
-/

set_option autoImplicit false

namespace Overworld

namespace Bytes

variable {sep : UInt8}

theorem split_on_ne_nil (s : Bytes) : splitOn sep s ≠ [] := by
  cases s with
  | nil => simp [splitOn]
  | cons b s =>
    unfold splitOn
    split
    · simp
    · split <;> simp

theorem split_on_append (s rest : Bytes) :
    splitOn sep (s ++ sep :: rest) = splitOn sep s ++ splitOn sep rest := by
  induction s with
  | nil => simp [splitOn]
  | cons b s ih =>
    by_cases here : b = sep
    · simp [splitOn, here, ih]
    · rw [List.cons_append, splitOn, if_neg here, ih, splitOn, if_neg here]
      cases pieces : splitOn sep s with
      | nil => exact absurd pieces (split_on_ne_nil s)
      | cons p ps => rfl

theorem split_on_append_replicate (s : Bytes) (n : Nat) :
    splitOn sep (s ++ List.replicate n sep) = splitOn sep s ++ List.replicate n [] := by
  induction n with
  | zero => simp
  | succ n ih =>
    rw [List.replicate_succ', List.replicate_succ', ← List.append_assoc, split_on_append, ih,
      List.append_assoc]
    rfl

theorem trim_right_append (s : Bytes) : ∃ n, s = trimRight sep s ++ List.replicate n sep := by
  have split := congrArg List.reverse (@List.takeWhile_append_dropWhile _ (· == sep) s.reverse)
  rw [List.reverse_append, List.reverse_reverse] at split
  have alike : ∀ b ∈ (s.reverse.takeWhile (· == sep)).reverse, b = sep := by
    intro b mem
    simpa using List.mem_takeWhile_imp (List.mem_reverse.mp mem)
  exact ⟨_, split.symm.trans (congrArg (trimRight sep s ++ ·) (List.eq_replicate_of_mem alike))⟩

theorem split_on_solid {s : Bytes} (h : sep ∉ s) : splitOn sep s = [s] := by
  induction s with
  | nil => rfl
  | cons b s ih =>
    simp only [List.mem_cons, not_or] at h
    rw [splitOn, if_neg (Ne.symm h.1), ih h.2]

theorem not_mem_split_on {s p : Bytes} (h : p ∈ splitOn sep s) : sep ∉ p := by
  induction s generalizing p with
  | nil => simp_all [splitOn]
  | cons b s ih =>
    by_cases here : b = sep
    · simp only [splitOn, here, if_true, List.mem_cons] at h
      rcases h with rfl | h
      · simp
      · exact ih h
    · rw [splitOn, if_neg here] at h
      cases pieces : splitOn sep s with
      | nil => exact absurd pieces (split_on_ne_nil s)
      | cons q qs =>
        rw [pieces] at h ih
        rcases List.mem_cons.mp h with rfl | h
        · simp [Ne.symm here, ih]
        · exact ih (by simp [h])

theorem join_cons {s p : Bytes} {ps : List Bytes} (h : ps ≠ []) :
    join s (p :: ps) = p ++ s ++ join s ps := by
  cases ps with
  | nil => exact absurd rfl h
  | cons q ps => rfl

theorem join_snoc {s : Bytes} {ps : List Bytes} (h : ps ≠ []) (p : Bytes) :
    join s (ps ++ [p]) = join s ps ++ s ++ p := by
  induction ps with
  | nil => exact absurd rfl h
  | cons q ps ih =>
    by_cases last : ps = []
    · subst last
      rfl
    · rw [List.cons_append, join_cons (by simp), ih last, join_cons last]
      simp

theorem split_on_join {ps : List Bytes} (some : ps ≠ []) (h : ∀ p ∈ ps, sep ∉ p) :
    splitOn sep (join [sep] ps) = ps := by
  induction ps with
  | nil => exact absurd rfl some
  | cons p ps ih =>
    have solid := split_on_solid (h p (by simp))
    by_cases last : ps = []
    · subst last
      exact solid
    · rw [join_cons last, List.append_assoc, List.singleton_append, split_on_append, solid,
        ih last fun q hq => h q (by simp [hq])]
      rfl

theorem mem_of_mem_split_on {s q : Bytes} {b : UInt8} (h : q ∈ splitOn sep s)
    (hb : b ∈ q) : b ∈ s := by
  induction s generalizing q with
  | nil =>
    rw [splitOn, List.mem_singleton] at h
    rwa [h] at hb
  | cons x s ih =>
    by_cases here : x = sep
    · rw [splitOn, if_pos here] at h
      rcases List.mem_cons.mp h with rfl | h
      · cases hb
      · exact List.mem_cons_of_mem _ (ih h hb)
    · rw [splitOn, if_neg here] at h
      cases pieces : splitOn sep s with
      | nil => exact absurd pieces (split_on_ne_nil s)
      | cons p ps =>
        rw [pieces] at h ih
        rcases List.mem_cons.mp h with rfl | h
        · rcases List.mem_cons.mp hb with rfl | hb
          · exact List.mem_cons_self
          · exact List.mem_cons_of_mem _ (ih List.mem_cons_self hb)
        · exact List.mem_cons_of_mem _ (ih (List.mem_cons_of_mem _ h) hb)

theorem mem_split_on {b : UInt8} {s : Bytes} (h : b ∈ s) (other : b ≠ sep) :
    ∃ c ∈ splitOn sep s, b ∈ c := by
  induction s with
  | nil => cases h
  | cons x s ih =>
    by_cases here : x = sep
    · have later : b ∈ s := (List.mem_cons.mp h).resolve_left fun same => other (same.trans here)
      obtain ⟨c, hc, mem⟩ := ih later
      rw [splitOn, if_pos here]
      exact ⟨c, List.mem_cons_of_mem _ hc, mem⟩
    · rw [splitOn, if_neg here]
      cases pieces : splitOn sep s with
      | nil => exact absurd pieces (split_on_ne_nil s)
      | cons p ps =>
        rw [pieces] at ih
        rcases List.mem_cons.mp h with rfl | later
        · exact ⟨b :: p, by simp, by simp⟩
        · obtain ⟨c, hc, mem⟩ := ih later
          rcases List.mem_cons.mp hc with rfl | hc
          · exact ⟨x :: c, by simp, by simp [mem]⟩
          · exact ⟨c, by simp [hc], mem⟩

theorem append_of_begins {s start : Bytes} (h : beginsWith s start = true) :
    ∃ rest, s = start ++ rest := by
  induction start generalizing s with
  | nil => exact ⟨s, rfl⟩
  | cons b start ih =>
    cases s with
    | nil => cases h
    | cons x s =>
      unfold beginsWith dropBeginning? at h
      split at h
      · rename_i same
        obtain ⟨rest, rfl⟩ := ih h
        exact ⟨rest, by rw [same]; rfl⟩
      · cases h

theorem digit_code {n : Nat} {c : Char} (h : c ∈ Nat.toDigits 10 n) :
    48 ≤ c.toNat ∧ c.toNat ≤ 57 := by
  have digit : c.isDigit = true := Nat.isDigit_of_mem_toDigits (by decide) (by decide) h
  simp only [Char.isDigit, Bool.and_eq_true, decide_eq_true_eq] at digit
  exact ⟨UInt32.le_iff_toNat_le.mp digit.1, UInt32.le_iff_toNat_le.mp digit.2⟩

theorem is_digit_of_mem_of_nat {n : Nat} {b : UInt8} (h : b ∈ ofNat n) : isDigit b = true := by
  obtain ⟨c, mem, rfl⟩ := List.mem_map.mp h
  obtain ⟨low, high⟩ := digit_code mem
  have code : (UInt8.ofNat c.toNat).toNat = c.toNat :=
    UInt8.toNat_ofNat_of_lt' (show c.toNat < 256 by omega)
  simp only [isDigit, Bool.and_eq_true, decide_eq_true_eq, UInt8.le_iff_toNat_le, code]
  exact ⟨low, high⟩

theorem of_nat_injective {i j : Nat} (h : ofNat i = ofNat j) : i = j := by
  have digits : ∀ n, (ofNat n).map (fun b => Char.ofNat b.toNat) = Nat.toDigits 10 n := by
    intro n
    rw [ofNat, List.map_map]
    refine (List.map_congr_left fun c hc => ?_).trans (List.map_id _)
    obtain ⟨_, high⟩ := digit_code hc
    rw [Function.comp_apply, UInt8.toNat_ofNat_of_lt' (show c.toNat < 256 by omega),
      Char.ofNat_toNat, id]
  have same := congrArg (List.map fun b => Char.ofNat b.toNat) h
  rw [digits, digits] at same
  rw [← Nat.ofDigitChars_ten_toDigits (n := i), same, Nat.ofDigitChars_ten_toDigits]

end Bytes

theorem infix_intercalate {separator x : String} {xs : List String} (h : x ∈ xs) :
    x.toList <:+: (separator.intercalate xs).toList := by
  induction xs with
  | nil => cases h
  | cons y ys ih =>
    cases ys with
    | nil =>
      obtain rfl := List.mem_singleton.mp h
      simp only [String.intercalate_singleton, List.infix_rfl]
    | cons z zs =>
      rw [String.intercalate_cons_cons, String.toList_append, String.toList_append]
      rcases List.mem_cons.mp h with rfl | later
      · exact ((List.prefix_append _ _).trans (List.prefix_append _ _)).isInfix
      · exact (ih later).trans (List.suffix_append _ _).isInfix

end Overworld
