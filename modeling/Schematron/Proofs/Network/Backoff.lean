import Mathlib.Algebra.Group.Nat.Defs
import Schematron.Network.Download

/-!
# Waiting between requests

The wait doubles with each retry up to its cap. It is computed with numbers of 64 bits that stop at
the greatest one, twice over: for the power of two and for its product with the first wait. No cap
is greater than that number, so the result is the one without any bound (`delay_exact`).
-/
namespace Schematron.Network.Backoff

theorem greatest_eq : greatest = 2 ^ 64 - 1 := rfl

theorem toNat_le_greatest (a : UInt64) : a.toNat ≤ greatest := by
  have h := a.toNat_lt
  rw [greatest_eq]
  omega

theorem toNat_ofNat_of_le {n : Nat} (h : n ≤ greatest) : (UInt64.ofNat n).toNat = n := by
  apply UInt64.toNat_ofNat_of_lt'
  rw [greatest_eq] at h
  rw [UInt64.size]
  omega

theorem toNat_min (a b : UInt64) : (min a b).toNat = min a.toNat b.toNat := by
  have hmin : min a b = if a ≤ b then a else b := rfl
  rw [hmin]
  split
  · rename_i h
    rw [Nat.min_eq_left (UInt64.le_iff_toNat_le.1 h)]
  · rename_i h
    rw [UInt64.le_iff_toNat_le] at h
    rw [Nat.min_eq_right (by omega)]

theorem toNat_saturatingMul (a b : UInt64) :
    (saturatingMul a b).toNat = min (a.toNat * b.toNat) greatest :=
  toNat_ofNat_of_le (Nat.min_le_right _ _)

theorem toNat_saturatingPow (n : UInt32) :
    (saturatingPow n).toNat = min (2 ^ n.toNat) greatest := by
  rw [saturatingPow]
  split
  · rename_i h
    have hle : 2 ^ n.toNat ≤ 2 ^ 63 := by
      apply Nat.pow_le_pow_right (by decide)
      have hlt : n.toNat < 64 := h
      omega
    have hfits : 2 ^ n.toNat ≤ greatest := by
      rw [greatest_eq]
      omega
    rw [Nat.min_eq_left hfits]
    exact toNat_ofNat_of_le hfits
  · rename_i h
    have hle : 2 ^ 64 ≤ 2 ^ n.toNat := by
      apply Nat.pow_le_pow_right (by decide)
      have hge : ¬ n.toNat < 64 := h
      omega
    have hsaturates : greatest ≤ 2 ^ n.toNat := by
      rw [greatest_eq]
      omega
    rw [Nat.min_eq_right hsaturates]
    exact toNat_ofNat_of_le (Nat.le_refl greatest)

/-- Below a cap it does not show that a factor and a product stop at a greater bound. -/
theorem min_min_mul_min {a p bound cap : Nat} (hcap : cap ≤ bound) :
    min (min (a * min p bound) bound) cap = min (a * p) cap := by
  rcases Nat.le_total p bound with hp | hp
  · rw [Nat.min_eq_left hp, Nat.min_assoc, Nat.min_eq_right hcap]
  · rw [Nat.min_eq_right hp]
    cases a with
    | zero => simp
    | succ a =>
      have hbound : bound ≤ (a + 1) * bound := Nat.le_mul_of_pos_left bound (Nat.succ_pos a)
      have hproduct : (a + 1) * bound ≤ (a + 1) * p := Nat.mul_le_mul_left (a + 1) hp
      rw [Nat.min_eq_right hbound, Nat.min_eq_right hcap, Nat.min_eq_right (by omega)]

theorem toNat_delay (b : Backoff) (n : UInt32) :
    (b.delay n).toNat = min (b.first.toNat * 2 ^ n.toNat) b.cap.toNat := by
  rw [delay, toNat_min, toNat_saturatingMul, toNat_saturatingPow]
  exact min_min_mul_min (toNat_le_greatest b.cap)

/-- A wait is the first one, doubled with each retry, or the cap where that is less: as numbers
without a bound have it. So the waits grow, and none is longer than the cap. -/
theorem delay_exact (b : Backoff) :
    (∀ n, (b.delay n).toNat = min b.cap.toNat (b.first.toNat * 2 ^ n.toNat)) ∧
    (∀ m n, m ≤ n → b.delay m ≤ b.delay n) ∧ ∀ n, b.delay n ≤ b.cap := by
  refine ⟨fun n => ?_, fun m n h => ?_, fun n => ?_⟩
  · rw [toNat_delay, Nat.min_comm]
  · have hpow : 2 ^ m.toNat ≤ 2 ^ n.toNat :=
      Nat.pow_le_pow_right (by decide) (UInt32.le_iff_toNat_le.1 h)
    have hproduct := Nat.mul_le_mul_left b.first.toNat hpow
    rw [UInt64.le_iff_toNat_le, toNat_delay, toNat_delay]
    omega
  · rw [UInt64.le_iff_toNat_le, toNat_delay]
    exact Nat.min_le_right _ _

/-- The power stops at the greatest number, and so does the product, but the cap is one less. -/
theorem delay_exact_saturated :
    (2 : UInt32) ≤ 64 ∧ delay ⟨3, 18446744073709551614⟩ 2 ≤ delay ⟨3, 18446744073709551614⟩ 64 ∧
    (delay ⟨3, 18446744073709551614⟩ 64).toNat = min (2 ^ 64 - 2) (3 * 2 ^ 64) := by
  have hle : (2 : UInt32) ≤ 64 := by decide
  obtain ⟨hexact, hmono, _⟩ := delay_exact ⟨3, 18446744073709551614⟩
  exact ⟨hle, hmono 2 64 hle, hexact 64⟩

/-- A download waits as long before each retry as the number of the retry says. -/
theorem map_toNat_waits (s : Settings) {requests : Nat} (h : requests ≤ 2 ^ 32) :
    (s.waits requests).map UInt64.toNat = (List.range (requests - 1)).map fun n =>
      min (s.backoff.first.toNat * 2 ^ n) s.backoff.cap.toNat := by
  rw [Settings.waits, List.map_map]
  refine List.map_congr_left fun n hn => ?_
  rw [List.mem_range] at hn
  have hfits : (UInt32.ofNat n).toNat = n := by
    apply UInt32.toNat_ofNat_of_lt'
    rw [UInt32.size]
    omega
  rw [Function.comp, toNat_delay, hfits]

end Schematron.Network.Backoff
