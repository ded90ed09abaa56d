import Overworld.Text.Bytes

/-!
# Order of byte strings

The order of texts is strict, transitive and total. These facts are what sorted
dictionaries stand on.
-/

set_option autoImplicit false

namespace Overworld.Bytes

theorem lt_irrefl (a : Bytes) : lt a a = false := by
  induction a with
  | nil => rfl
  | cons x a ih => simp [lt, UInt8.lt_irrefl, ih]

theorem lt_trans {a b c : Bytes} (h : lt a b = true) (k : lt b c = true) : lt a c = true := by
  induction a generalizing b c with
  | nil =>
    cases c with
    | nil => cases b <;> simp [lt] at k
    | cons z c => rfl
  | cons x a ih =>
    cases b with
    | nil => simp [lt] at h
    | cons y b =>
      cases c with
      | nil => simp [lt] at k
      | cons z c =>
        simp only [lt] at h k ⊢
        have order (p q : UInt8) : p < q ∨ p = q ∨ q < p := by
          rcases Nat.lt_trichotomy p.toNat q.toNat with g | g | g
          · exact Or.inl g
          · exact Or.inr (Or.inl (UInt8.toNat_inj.mp g))
          · exact Or.inr (Or.inr g)
        have asymm {p q : UInt8} (g : p < q) : ¬ q < p := UInt8.lt_asymm g
        rcases order x y with g | g | g
        · rcases order y z with g' | g' | g'
          · simp [UInt8.lt_trans g g']
          · subst g'; simp [g]
          · simp [g', asymm g'] at k
        · subst g
          rcases order x z with g' | g' | g'
          · simp [g']
          · subst g'
            simp only [UInt8.lt_irrefl, if_false] at h k ⊢
            exact ih h k
          · simp [g', asymm g'] at k
        · simp [g, asymm g] at h

theorem eq_of_not_lt {a b : Bytes} (h : lt a b = false) (k : lt b a = false) : a = b := by
  induction a generalizing b with
  | nil =>
    cases b with
    | nil => rfl
    | cons y b => simp [lt] at h
  | cons x a ih =>
    cases b with
    | nil => simp [lt] at k
    | cons y b =>
      simp only [lt] at h k
      by_cases g : x < y
      · simp [g] at h
      · by_cases g' : y < x
        · simp [g'] at k
        · have e : x = y := by
            apply UInt8.toNat_inj.mp
            have := UInt8.not_lt.mp g
            have := UInt8.not_lt.mp g'
            exact Nat.le_antisymm (UInt8.le_iff_toNat_le.mp ‹x ≤ y›)
              (UInt8.le_iff_toNat_le.mp ‹y ≤ x›)
          subst e
          simp only [UInt8.lt_irrefl, if_false] at h k
          rw [ih h k]

theorem lt_of_ne {a b : Bytes} (h : lt a b = false) (ne : a ≠ b) : lt b a = true := by
  cases k : lt b a with
  | true => rfl
  | false => exact absurd (eq_of_not_lt h k) ne

theorem ne_of_lt {a b : Bytes} (h : lt a b = true) : a ≠ b := by
  intro e
  subst e
  rw [lt_irrefl] at h
  exact Bool.noConfusion h

end Overworld.Bytes
