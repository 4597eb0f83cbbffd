import Mathlib.Algebra.Ring.Int.Defs
import Mathlib.Algebra.Ring.Nat

/-!
# Fixed-width integer arithmetic

Machine integers are represented by their values. An operation is carried out on unbounded integers
and its result reduced to the width of its type by the functions below.
-/

namespace MachineInt

variable (z : ℤ)

/-- Reduce to an unsigned 16-bit value. -/
def u16 : ℕ := (z % 2 ^ 16).toNat

/-- Reduce to an unsigned 32-bit value. -/
def u32 : ℕ := (z % 2 ^ 32).toNat

/-- Reduce to an unsigned 64-bit value. -/
def u64 : ℕ := (z % 2 ^ 64).toNat

/-- Reduce to a signed 32-bit value in two's complement. -/
def s32 : ℤ := (z + 2 ^ 31) % 2 ^ 32 - 2 ^ 31

theorem u64_eq {z : ℤ} (hlo : 0 ≤ z) (hhi : z < 2 ^ 64) : u64 z = z.toNat := by
  unfold u64
  omega

theorem s32_eq {z : ℤ} (hlo : -2 ^ 31 ≤ z) (hhi : z < 2 ^ 31) : s32 z = z := by
  unfold s32
  omega

theorem u32_natCast {n : ℕ} (h : n < 2 ^ 32) : u32 n = n := by
  unfold u32
  omega

theorem u32_add_le (a b : ℕ) : u32 (a + b) ≤ a + b := by
  unfold u32
  omega

theorem u32_add {a b : ℕ} (h : a + b < 2 ^ 32) : u32 (a + b) = a + b := by
  unfold u32
  omega

theorem u32_lt : u32 z < 2 ^ 32 := by
  unfold u32
  omega

theorem natCast_u32 : (u32 z : ℤ) = z % 2 ^ 32 := by
  unfold u32
  omega

@[simp]
theorem u32_u32 : u32 (u32 z) = u32 z := u32_natCast (u32_lt z)

@[simp]
theorem u32_s32 : u32 (s32 z) = u32 z := by
  unfold u32 s32
  omega

theorem u32_le {z : ℤ} (h : 0 ≤ z) : (u32 z : ℤ) ≤ z := by
  rw [natCast_u32]
  omega

theorem u32_add_u32 (a b : ℤ) : u32 (a + u32 b) = u32 (a + b) := by
  have hmod : (a + u32 b) % 2 ^ 32 = (a + b) % 2 ^ 32 := by rw [natCast_u32, Int.add_emod_emod]
  unfold u32 at hmod ⊢
  rw [hmod]

theorem u32_u32_mul (a b : ℤ) : u32 (u32 a * b) = u32 (a * b) := by
  have hmod : u32 a * b % 2 ^ 32 = a * b % 2 ^ 32 := by
    rw [natCast_u32, Int.mul_emod, Int.emod_emod, ← Int.mul_emod]
  unfold u32 at hmod ⊢
  rw [hmod]

theorem u32_add_mul (c : ℤ) : u32 (z + 2 ^ 32 * c) = u32 z := by
  rw [u32, Int.add_mul_emod_self_left, u32]

theorem s32_u32 : ∃ c, s32 (u32 z) = z + 2 ^ 32 * c := by
  refine ⟨-(z / 2 ^ 32) - (z % 2 ^ 32 + 2 ^ 31) / 2 ^ 32, ?_⟩
  rw [natCast_u32, s32]
  omega

theorem u32_s32_shift {z : ℤ} (hz : z % 8 = 0) : u32 (s32 (u32 z) / 2 ^ 3 * 2 ^ 3) = u32 z := by
  obtain ⟨c, hc⟩ := s32_u32 z
  have hunit : (z + 2 ^ 32 * c) / 2 ^ 3 * 2 ^ 3 = z + 2 ^ 32 * c := by omega
  rw [hc, hunit, u32_add_mul]

end MachineInt
