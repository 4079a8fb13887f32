import Mathlib.Algebra.Order.Floor.Semiring
import Mathlib.Algebra.Order.Field.Basic
import Mathlib.Algebra.Ring.CharZero
import Mathlib.Tactic.FieldSimp
import Mathlib.Tactic.Linarith
import Mathlib.Tactic.Ring

/-!
# Cells of an interval

The interval from `start` of length `range` is cut into `n` cells. A point has
the cell it is in, and a cell has its centre. The end of the interval is in no
cell, so that its index is `n`.
-/

namespace Redis.Lib

section
variable {F : Type} [Field F] [LinearOrder F] [FloorSemiring F] (start range : F) (n : Nat)

def cellOf (x : F) : Nat := ⌊(x - start) / range * n⌋₊

def centreOf (i : Nat) : F := ((i : F) / n * range + start + (((i + 1 : Nat) : F) / n * range + start)) / 2

variable {start range n}

theorem centreOf_eq (i : Nat) : centreOf start range n i = start + range * i / n + range / n / 2 := by
  have htwo : (2 : F) ≠ 0 := two_ne_zero
  unfold centreOf
  push_cast
  field_simp
  ring

variable [IsStrictOrderedRing F] (hr : 0 < range) (hn : 0 < n)

include hr hn in
theorem scaled_lt_iff {x y : F} : (x - start) / range * n < y ↔ x < start + range * y / n := by
  have hn' : (0 : F) < n := Nat.cast_pos.mpr hn
  rw [← lt_div_iff₀ hn', div_lt_iff₀ hr, sub_lt_iff_lt_add']
  rw [show y / n * range = range * y / n by ring]

include hr hn in
theorem le_scaled_iff {x y : F} : y ≤ (x - start) / range * n ↔ start + range * y / n ≤ x := by
  rw [← not_lt, ← not_lt, scaled_lt_iff hr hn]

include hr hn in
theorem cellOf_eq_iff {x : F} {i : Nat} (hx : start ≤ x) :
    cellOf start range n x = i ↔ start + range * i / n ≤ x ∧ x < start + range * (i + 1) / n := by
  unfold cellOf
  have hnonneg : 0 ≤ (x - start) / range * n :=
    mul_nonneg (div_nonneg (sub_nonneg.mpr hx) (le_of_lt hr)) (Nat.cast_nonneg n)
  rw [Nat.floor_eq_iff hnonneg, le_scaled_iff hr hn, scaled_lt_iff hr hn]

include hr hn in
theorem cellOf_lt_iff {x : F} (hx : start ≤ x) : cellOf start range n x < n ↔ x < start + range := by
  unfold cellOf
  have hn' : (n : F) ≠ 0 := Nat.cast_ne_zero.mpr (by omega)
  have hnonneg : 0 ≤ (x - start) / range * n :=
    mul_nonneg (div_nonneg (sub_nonneg.mpr hx) (le_of_lt hr)) (Nat.cast_nonneg n)
  rw [Nat.floor_lt hnonneg, scaled_lt_iff hr hn, mul_div_cancel_right₀ range hn']

include hr in
theorem cellOf_le {x : F} (hx : x ≤ start + range) : cellOf start range n x ≤ n := by
  apply Nat.floor_le_of_le
  exact mul_le_of_le_one_left (Nat.cast_nonneg n) ((div_le_one hr).mpr (by linarith))

include hr hn in
theorem start_le_centreOf (i : Nat) : start ≤ centreOf start range n i := by
  rw [centreOf_eq]
  have hn' : (0 : F) < n := Nat.cast_pos.mpr hn
  have hedge : 0 ≤ range * i / n := div_nonneg (mul_nonneg (le_of_lt hr) (Nat.cast_nonneg i)) (le_of_lt hn')
  have hhalf := div_pos hr hn'
  linarith

include hr hn in
theorem cellOf_centreOf (i : Nat) : cellOf start range n (centreOf start range n i) = i := by
  rw [cellOf_eq_iff hr hn (start_le_centreOf hr hn i), centreOf_eq, mul_add, add_div, mul_one]
  have hhalf := div_pos hr (Nat.cast_pos.mpr hn : (0 : F) < n)
  constructor <;> linarith

include hr hn in
theorem centreOf_lt_iff (i : Nat) : centreOf start range n i < start + range ↔ i < n := by
  rw [← cellOf_lt_iff hr hn (start_le_centreOf hr hn i), cellOf_centreOf hr hn]

include hr hn in
theorem end_lt_centreOf : start + range < centreOf start range n n := by
  have hn' : (0 : F) < n := Nat.cast_pos.mpr hn
  rw [centreOf_eq, mul_div_cancel_right₀ range (ne_of_gt hn')]
  have hhalf := div_pos hr hn'
  linarith

include hr hn in
/-- A point is no further than half a cell from the centre of its cell. -/
theorem abs_centreOf_sub_le {x : F} (hx : start ≤ x) :
    |centreOf start range n (cellOf start range n x) - x| ≤ range / n / 2 := by
  obtain ⟨hlow, hhigh⟩ := (cellOf_eq_iff hr hn hx).mp rfl
  rw [mul_add, add_div, mul_one] at hhigh
  rw [centreOf_eq, abs_le]
  constructor <;> linarith

end

end Redis.Lib
