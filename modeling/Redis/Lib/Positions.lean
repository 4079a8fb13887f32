import Mathlib.Data.Int.Order.Basic
import Mathlib.Data.List.Perm.Basic
import Mathlib.Order.Lattice

/-!
# Positions in a list

The part of a list between two positions, which may lie before its start or
behind its end, and the position of an element of an ordered list, which is the
number of elements below it.
-/

namespace Redis.Lib

universe u v

variable {α : Type u}

/-! ## Windows -/

/-- The elements at the positions from `low` to `high`. -/
def window (low high : Int) (l : List α) : List α :=
  (l.zipIdx.filter fun e => low ≤ (e.2 : Int) ∧ (e.2 : Int) ≤ high).map Prod.fst

theorem window_from (low high : Int) (l : List α) (k : Nat) :
    ((l.zipIdx k).filter fun e => low ≤ (e.2 : Int) ∧ (e.2 : Int) ≤ high).map Prod.fst =
      (l.take ((high + 1).toNat - k)).drop (low.toNat - k) := by
  induction l generalizing k with
  | nil => simp
  | cons a l ih =>
    have ih := ih (k + 1)
    rw [List.zipIdx_cons, List.filter_cons]
    by_cases hlow : low ≤ (k : Int)
    · have hdrop : low.toNat - k = 0 := by omega
      have hdrop' : low.toNat - (k + 1) = 0 := by omega
      rw [hdrop', List.drop_zero] at ih
      rw [hdrop, List.drop_zero]
      by_cases hhigh : (k : Int) ≤ high
      · have htake : (high + 1).toNat - k = (high + 1).toNat - (k + 1) + 1 := by omega
        rw [htake, List.take_succ_cons, ← ih]
        simp [hlow, hhigh]
      · have htake : (high + 1).toNat - k = 0 := by omega
        have htake' : (high + 1).toNat - (k + 1) = 0 := by omega
        rw [htake', List.take_zero] at ih
        rw [htake, List.take_zero, ← ih]
        simp [hhigh]
    · have hdrop : low.toNat - k = low.toNat - (k + 1) + 1 := by omega
      by_cases hhigh : (k : Int) ≤ high
      · have htake : (high + 1).toNat - k = (high + 1).toNat - (k + 1) + 1 := by omega
        rw [htake, hdrop, List.take_succ_cons, List.drop_succ_cons, ← ih]
        simp [hlow]
      · have htake : (high + 1).toNat - k = 0 := by omega
        have htake' : (high + 1).toNat - (k + 1) = 0 := by omega
        rw [htake', List.take_zero, List.drop_nil] at ih
        rw [htake, List.take_zero, List.drop_nil, ← ih]
        simp [hlow]

theorem window_eq (low high : Int) (l : List α) : window low high l = (l.take (high + 1).toNat).drop low.toNat :=
  window_from low high l 0

/-- As it is read off the list: some elements are skipped, and then some taken. -/
theorem window_eq_take_drop {low high : Int} (l : List α) (hlow : 0 ≤ low) :
    window low high l = (l.drop low.toNat).take (high - low + 1).toNat := by
  rw [window_eq, List.drop_take]
  congr 1
  omega

theorem window_nil (low high : Int) : window low high ([] : List α) = [] := rfl

theorem window_of_lt {low high : Int} (l : List α) (h : high < low) : window low high l = [] := by
  rw [window_eq, List.drop_eq_nil_iff, List.length_take]
  omega

theorem window_of_neg {low high : Int} (l : List α) (h : high < 0) : window low high l = [] := by
  have hzero : (high + 1).toNat = 0 := by omega
  rw [window_eq, hzero, List.take_zero, List.drop_nil]

theorem window_of_length_le {low high : Int} {l : List α} (h : (l.length : Int) ≤ low) : window low high l = [] := by
  rw [window_eq, List.drop_eq_nil_iff, List.length_take]
  omega

/-- Only the part of the bounds within the list matters. -/
theorem window_clamp (low high : Int) (l : List α) :
    window (max low 0) (min high (l.length - 1)) l = window low high l := by
  have hlow : (max low 0).toNat = low.toNat := by omega
  rw [window_eq, window_eq, hlow]
  congr 1
  by_cases h : high ≤ l.length - 1
  · rw [min_eq_left h]
  · rw [min_eq_right (by omega), List.take_of_length_le (by omega), List.take_of_length_le (by omega)]

theorem length_window (low high : Int) (l : List α) :
    (window low high l).length = min (high + 1).toNat l.length - low.toNat := by
  rw [window_eq, List.length_drop, List.length_take]

/-! ## Ordered lists -/

section
variable {β : Type v} [LinearOrder β] {f : α → β} {l l' : List α} {a : α} {i : Nat}

theorem countP_lt_eq (h : l.Pairwise fun a b => f a < f b) (hi : l[i]? = some a) :
    (l.countP fun b => f b < f a) = i := by
  induction l generalizing i with
  | nil => cases hi
  | cons c l ih =>
    obtain ⟨hc, hl⟩ := List.pairwise_cons.mp h
    cases i with
    | zero =>
      rw [List.getElem?_cons_zero, Option.some.injEq] at hi
      subst hi
      rw [List.countP_eq_zero]
      rintro b (_ | ⟨_, hb⟩)
      · simp
      · simp [le_of_lt (hc b hb)]
    | succ i =>
      rw [List.getElem?_cons_succ] at hi
      have hca : f c < f a := hc a (List.mem_of_getElem? hi)
      rw [List.countP_cons, ih hl hi]
      simp [hca]

theorem getElem?_countP_lt (h : l.Pairwise fun a b => f a < f b) (ha : a ∈ l) :
    l[l.countP fun b => f b < f a]? = some a := by
  obtain ⟨i, hi⟩ := List.mem_iff_getElem?.mp ha
  rw [countP_lt_eq h hi, hi]

theorem countP_gain (h : l.Nodup) (h' : l'.Nodup) (ha : a ∉ l) (hm : ∀ b, b ∈ l' ↔ b ∈ l ∨ b = a) (p : α → Bool) :
    l'.countP p = l.countP p + if p a = true then 1 else 0 := by
  have hperm : l'.Perm (a :: l) := by
    rw [List.perm_ext_iff_of_nodup h' (List.nodup_cons.mpr ⟨ha, h⟩)]
    intro b
    rw [hm, List.mem_cons, or_comm]
  rw [hperm.countP_eq p, List.countP_cons]

end

end Redis.Lib
