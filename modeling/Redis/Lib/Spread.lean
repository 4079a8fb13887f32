import Mathlib.Algebra.Order.Ring.Nat
import Mathlib.Data.Nat.Bitwise
import Mathlib.Tactic.Ring

/-!
# Bits spread over a word

A word of `w` bits holds the bits of `f` in blocks of `b` if every other block
of `b` bits, from the lowest on, is one of `f` and those between are zero. Or
with a shift by half a block and a mask halves the blocks, or with a shift the
other way doubles them.
-/

namespace Redis.Lib

structure Spread (w b : Nat) (f : Nat → Bool) (y : Nat) : Prop where
  lt : y < 2 ^ w
  bits : ∀ q r, r < 2 * b → 2 * b * q + r < w → y.testBit (2 * b * q + r) = (decide (r < b) && f (b * q + r))

def Blocks (w b m : Nat) : Prop := m < 2 ^ w ∧ ∀ k < w, m.testBit k = decide (k % (2 * b) < b)

instance (w b m : Nat) : Decidable (Blocks w b m) := inferInstanceAs (Decidable (_ ∧ _))

section
variable {w b m x y : Nat} {f : Nat → Bool}

theorem Blocks.testBit (h : Blocks w b m) {q r : Nat} (hr : r < 2 * b) (hk : 2 * b * q + r < w) :
    m.testBit (2 * b * q + r) = decide (r < b) := by
  rw [h.2 _ hk, Nat.mul_add_mod, Nat.mod_eq_of_lt hr]

theorem testBit_shl_mod {k : Nat} (hk : k < w) :
    ((y <<< b) % 2 ^ w).testBit k = (decide (b ≤ k) && y.testBit (k - b)) := by
  rw [Nat.testBit_mod_two_pow, Nat.testBit_shiftLeft]
  simp [hk]

theorem Spread.halve (h : Spread w (2 * b) f y) (hm : Blocks w b m) :
    Spread w b f ((y ||| (y <<< b) % 2 ^ w) &&& m) := by
  refine ⟨Nat.and_lt_two_pow _ hm.1, ?_⟩
  intro q r hr hk
  rw [Nat.testBit_and, hm.testBit hr hk, Nat.testBit_or, testBit_shl_mod hk]
  by_cases hrb : r < b
  · simp only [hrb, decide_true, Bool.and_true, Bool.true_and]
    -- an even block is where it was, an odd one comes from below
    obtain ⟨c, hc⟩ := Nat.even_or_odd' q
    rcases hc with rfl | rfl
    · have hpos : 2 * b * (2 * c) + r = 2 * (2 * b) * c + r := by ring
      have hsrc : b * (2 * c) + r = 2 * b * c + r := by ring
      rw [hpos] at hk ⊢
      rw [hsrc, h.bits c r (by omega) hk]
      have hbelow : (decide (b ≤ 2 * (2 * b) * c + r) && y.testBit (2 * (2 * b) * c + r - b)) = false := by
        by_cases hc0 : c = 0
        · subst hc0
          simp [hrb]
        · obtain ⟨c, rfl⟩ : ∃ c', c = c' + 1 := ⟨c - 1, by omega⟩
          have hexp : 2 * (2 * b) * (c + 1) = 2 * (2 * b) * c + 4 * b := by ring
          have hprev : 2 * (2 * b) * (c + 1) + r - b = 2 * (2 * b) * c + (3 * b + r) := by omega
          rw [hprev, h.bits c (3 * b + r) (by omega) (by omega)]
          simp [show ¬ 3 * b + r < 2 * b by omega]
      rw [hbelow]
      simp [show r < 2 * b by omega]
    · have hpos : 2 * b * (2 * c + 1) + r = 2 * (2 * b) * c + (2 * b + r) := by ring
      have hsrc : b * (2 * c + 1) + r = 2 * b * c + (b + r) := by ring
      rw [hpos] at hk ⊢
      have hprev : 2 * (2 * b) * c + (2 * b + r) - b = 2 * (2 * b) * c + (b + r) := by omega
      rw [hsrc, hprev, h.bits c (2 * b + r) (by omega) hk, h.bits c (b + r) (by omega) (by omega)]
      simp [show ¬ 2 * b + r < 2 * b by omega, show b + r < 2 * b by omega,
        show b ≤ 2 * (2 * b) * c + (2 * b + r) by omega]
  · simp [hrb]

theorem Spread.double (h : Spread w b f y) (hw : 4 * b ∣ w) (hm : Blocks w (2 * b) m) :
    Spread w (2 * b) f ((y ||| y >>> b) &&& m) := by
  refine ⟨Nat.and_lt_two_pow _ hm.1, ?_⟩
  intro q r hr hk
  rw [Nat.testBit_and, hm.testBit hr hk, Nat.testBit_or, Nat.testBit_shiftRight]
  by_cases hrb : r < 2 * b
  · simp only [hrb, decide_true, Bool.and_true, Bool.true_and]
    have hroom : 2 * (2 * b) * q + 4 * b ≤ w := by
      obtain ⟨n, rfl⟩ := hw
      have hlt : 4 * b * q < 4 * b * n := by
        have : 4 * b * q = 2 * (2 * b) * q := by ring
        omega
      have hle : 4 * b * (q + 1) ≤ 4 * b * n := Nat.mul_le_mul_left (4 * b) (Nat.lt_of_mul_lt_mul_left hlt)
      have : 4 * b * (q + 1) = 2 * (2 * b) * q + 4 * b := by ring
      omega
    by_cases hlow : r < b
    · have hpos : 2 * (2 * b) * q + r = 2 * b * (2 * q) + r := by ring
      have hnext : b + (2 * (2 * b) * q + r) = 2 * b * (2 * q) + (b + r) := by ring
      have hsrc : 2 * b * q + r = b * (2 * q) + r := by ring
      rw [hnext, hpos, hsrc, h.bits (2 * q) r hrb (by omega), h.bits (2 * q) (b + r) (by omega) (by omega)]
      simp [hlow]
    · obtain ⟨s, rfl⟩ := Nat.exists_eq_add_of_le (Nat.le_of_not_lt hlow)
      have hpos : 2 * (2 * b) * q + (b + s) = 2 * b * (2 * q) + (b + s) := by ring
      have hnext : b + (2 * (2 * b) * q + (b + s)) = 2 * b * (2 * q + 1) + s := by ring
      have hsrc : 2 * b * q + (b + s) = b * (2 * q + 1) + s := by ring
      rw [hnext, hpos, hsrc, h.bits (2 * q) (b + s) hrb (by omega), h.bits (2 * q + 1) s (by omega) (by omega)]
      simp [show s < b by omega]
  · simp [hrb]

theorem spread_of_lt (hx : x < 2 ^ b) : Spread (2 * b) b x.testBit x := by
  refine ⟨Nat.lt_of_lt_of_le hx (Nat.pow_le_pow_right (by decide) (by omega)), ?_⟩
  intro q r hr hk
  have hq : q = 0 := by
    by_contra hq
    have := Nat.le_mul_of_pos_right (2 * b) (Nat.pos_of_ne_zero hq)
    omega
  subst hq
  simp only [Nat.mul_zero, Nat.zero_add]
  by_cases hrb : r < b
  · simp [hrb]
  · have hzero : x.testBit r = false :=
      Nat.testBit_lt_two_pow (Nat.lt_of_lt_of_le hx (Nat.pow_le_pow_right (by decide) (Nat.le_of_not_lt hrb)))
    simp [hrb, hzero]

theorem spread_even (hm : Blocks w 1 m) (x : Nat) : Spread w 1 (fun i => x.testBit (2 * i)) (x &&& m) := by
  refine ⟨Nat.and_lt_two_pow _ hm.1, ?_⟩
  intro q r hr hk
  rw [Nat.testBit_and, hm.testBit hr hk]
  by_cases hr0 : r < 1
  · obtain rfl : r = 0 := by omega
    simp
  · simp [hr0]

/-! ## The two ends -/

theorem Spread.testBit_even (h : Spread w 1 f y) {i : Nat} (hi : 2 * i < w) : y.testBit (2 * i) = f i := by
  have := h.bits i 0 (by omega) (by omega)
  simpa using this

theorem Spread.testBit_odd (h : Spread w 1 f y) {i : Nat} : y.testBit (2 * i + 1) = false := by
  by_cases hi : 2 * i + 1 < w
  · have := h.bits i 1 (by omega) (by omega)
    simpa using this
  · exact Nat.testBit_lt_two_pow (Nat.lt_of_lt_of_le h.lt (Nat.pow_le_pow_right (by decide) (Nat.le_of_not_lt hi)))

theorem Spread.testBit_block (h : Spread (2 * b) b f y) {i : Nat} (hi : i < b) : y.testBit i = f i := by
  have := h.bits 0 i (by omega) (by omega)
  simpa [hi] using this

theorem Spread.block_lt (h : Spread (2 * b) b f y) : y < 2 ^ b := by
  apply Nat.lt_pow_two_of_testBit
  intro i hi
  by_cases hib : i < 2 * b
  · have := h.bits 0 i hib (by omega)
    simpa [Nat.not_lt.mpr hi] using this
  · exact Nat.testBit_lt_two_pow (Nat.lt_of_lt_of_le h.lt (Nat.pow_le_pow_right (by decide) (Nat.le_of_not_lt hib)))

theorem eq_of_testBit_lt {n : Nat} (hx : x < 2 ^ n) (hy : y < 2 ^ n) (h : ∀ i < n, x.testBit i = y.testBit i) :
    x = y := by
  apply Nat.eq_of_testBit_eq
  intro i
  by_cases hi : i < n
  · exact h i hi
  · have hle : 2 ^ n ≤ 2 ^ i := Nat.pow_le_pow_right (by decide) (Nat.le_of_not_lt hi)
    rw [Nat.testBit_lt_two_pow (Nat.lt_of_lt_of_le hx hle), Nat.testBit_lt_two_pow (Nat.lt_of_lt_of_le hy hle)]

end

end Redis.Lib
