import Mathlib.Algebra.Order.Ring.Nat
import Mathlib.Order.Compare

/-!
# IEEE 754 binary64 values and their order

A value is its 64 bits. Comparison needs no arithmetic: the magnitude bits,
negated when the sign bit is set, are ordered as the numbers are, both zeros
get the key 0, and a NaN is unordered.
-/

namespace Redis.Lib

structure F64 where
  bits : UInt64
  deriving Repr, DecidableEq

namespace F64

def magnitude (x : F64) : Nat := x.bits.toNat % 2 ^ 63

def isNegative (x : F64) : Bool := decide (2 ^ 63 ≤ x.bits.toNat)

def isNan (x : F64) : Bool := decide (0x7FF0000000000000 < x.magnitude)

/-- The order key of a value that is not NaN. -/
def key (x : F64) : Int := if x.isNegative then -(x.magnitude : Int) else x.magnitude

def partialCmp (x y : F64) : Option Ordering :=
  if x.isNan || y.isNan then none else some (compare x.key y.key)

def le (x y : F64) : Bool := (partialCmp x y).any (· != .gt)

def lt (x y : F64) : Bool := partialCmp x y == some .lt

theorem partialCmp_of_not_nan {x y : F64} (hx : x.isNan = false) (hy : y.isNan = false) :
    partialCmp x y = some (compare x.key y.key) := by
  simp [partialCmp, hx, hy]

theorem partialCmp_eq_none {x y : F64} : partialCmp x y = none ↔ x.isNan = true ∨ y.isNan = true := by
  unfold partialCmp
  by_cases hx : x.isNan = true
  · simp [hx]
  · by_cases hy : y.isNan = true
    · simp [hy]
    · simp [hx, hy]

/-! ## Integers -/

/-- `n / 2 ^ k`, to the nearest integer, or to the even one of two. -/
def roundShift (n k : Nat) : Nat :=
  if 2 * (n % 2 ^ k) < 2 ^ k ∨ 2 * (n % 2 ^ k) = 2 ^ k ∧ n / 2 ^ k % 2 = 0 then n / 2 ^ k else n / 2 ^ k + 1

/-- `as f64` of a `u64`. A rounding that carries goes into the exponent. -/
def ofU64 (n : Nat) : F64 :=
  if n = 0 then ⟨0⟩
  else if n.log2 ≤ 52 then ⟨UInt64.ofNat ((n.log2 + 1022) * 2 ^ 52 + n * 2 ^ (52 - n.log2))⟩
  else ⟨UInt64.ofNat ((n.log2 + 1022) * 2 ^ 52 + roundShift n (n.log2 - 52))⟩

/-- `as u64`, which truncates and saturates; a NaN gives zero. -/
def toU64 (x : F64) : Nat :=
  let exponent := x.magnitude / 2 ^ 52
  let significand := 2 ^ 52 + x.magnitude % 2 ^ 52
  if x.isNan || x.isNegative || exponent < 1023 then 0
  else if exponent < 1075 then significand / 2 ^ (1075 - exponent)
  else min (significand * 2 ^ (exponent - 1075)) (2 ^ 64 - 1)

theorem toU64_ofU64 {n : Nat} (h : n < 2 ^ 53) : (ofU64 n).toU64 = n := by
  by_cases hn : n = 0
  · subst hn
    rfl
  · have hlow := Nat.log2_self_le hn
    have hhigh := @Nat.lt_log2_self n
    have hlog : n.log2 ≤ 52 := by
      by_contra hlog
      have := Nat.pow_le_pow_right (show 2 > 0 by decide) (show 53 ≤ n.log2 by omega)
      omega
    unfold ofU64
    rw [if_neg hn, if_pos hlog]
    generalize n.log2 = e at *
    -- the leading one is the 53rd bit of the significand
    have hsplit : 2 ^ e * 2 ^ (52 - e) = 2 ^ 52 := by rw [← Nat.pow_add, Nat.add_sub_of_le hlog]
    have hge : 2 ^ 52 ≤ n * 2 ^ (52 - e) := by
      rw [← hsplit]
      exact Nat.mul_le_mul_right _ hlow
    have hlt : n * 2 ^ (52 - e) < 2 * 2 ^ 52 := by
      rw [← hsplit, ← Nat.mul_assoc, ← Nat.pow_succ']
      exact Nat.mul_lt_mul_of_pos_right hhigh (Nat.two_pow_pos _)
    have hback : n * 2 ^ (52 - e) / 2 ^ (52 - e) = n := Nat.mul_div_cancel _ (Nat.two_pow_pos _)
    generalize hm : n * 2 ^ (52 - e) = m at *
    have hbits : (UInt64.ofNat ((e + 1022) * 2 ^ 52 + m)).toNat = (e + 1022) * 2 ^ 52 + m := by
      rw [UInt64.toNat_ofNat']
      exact Nat.mod_eq_of_lt (by omega)
    have hmagnitude : magnitude ⟨UInt64.ofNat ((e + 1022) * 2 ^ 52 + m)⟩ = (e + 1022) * 2 ^ 52 + m := by
      unfold magnitude
      rw [hbits]
      exact Nat.mod_eq_of_lt (by omega)
    have hnan : isNan ⟨UInt64.ofNat ((e + 1022) * 2 ^ 52 + m)⟩ = false := by
      unfold isNan
      rw [hmagnitude, decide_eq_false_iff_not]
      omega
    have hsign : isNegative ⟨UInt64.ofNat ((e + 1022) * 2 ^ 52 + m)⟩ = false := by
      unfold isNegative
      rw [hbits, decide_eq_false_iff_not]
      omega
    have hexponent : ((e + 1022) * 2 ^ 52 + m) / 2 ^ 52 = e + 1023 := by omega
    have hsignificand : 2 ^ 52 + ((e + 1022) * 2 ^ 52 + m) % 2 ^ 52 = m := by omega
    unfold toU64
    simp only [hmagnitude, hnan, hsign, hexponent, hsignificand, Bool.false_or]
    rw [if_neg (by simp)]
    by_cases hfull : e = 52
    · subst hfull
      rw [if_neg (by omega)]
      simp only [Nat.sub_self, Nat.pow_zero, Nat.mul_one] at hm ⊢
      rw [hm, Nat.min_eq_left (by omega)]
    · rw [if_pos (by omega), show 1075 - (e + 1023) = 52 - e by omega]
      exact hback

end F64

end Redis.Lib
