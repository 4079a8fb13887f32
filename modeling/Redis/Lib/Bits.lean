import Mathlib.Data.Nat.Bitwise
import Redis.Lib.Decimal

/-!
# Byte strings as strings of bits

Bit 0 is the most significant one of the first byte. Past the end of the bytes
all bits are zero, so bytes of one length are determined by their bits, and
zero bytes at the end change no bit.
-/

namespace Redis.Lib

def byteAt (map : Bytes) (i : Nat) : UInt8 := map.getD i 0

def bitAt (map : Bytes) (p : Nat) : Bool := (byteAt map (p / 8)).toNat.testBit (7 - p % 8)

def bitMask (p : Nat) : UInt8 := UInt8.ofNat (2 ^ (7 - p % 8))

theorem toNat_bitMask (p : Nat) : (bitMask p).toNat = 2 ^ (7 - p % 8) := by
  unfold bitMask
  rw [UInt8.toNat_ofNat']
  apply Nat.mod_eq_of_lt
  exact Nat.pow_lt_pow_right (by omega) (by omega)

theorem byteAt_of_getElem? {map : Bytes} {i : Nat} {b : UInt8} (h : map[i]? = some b) : byteAt map i = b := by
  simp [byteAt, List.getD, h]

theorem byteAt_of_le {map : Bytes} {i : Nat} (h : map.length ≤ i) : byteAt map i = 0 := by simp [byteAt, h]

theorem byteAt_set {map : Bytes} {i : Nat} (h : i < map.length) (b : UInt8) (j : Nat) :
    byteAt (map.set i b) j = if j = i then b else byteAt map j := by
  unfold byteAt
  by_cases hj : j = i
  · subst hj
    simp [h]
  · simp [hj, Ne.symm hj]

theorem byteAt_append_zeros (map : Bytes) (n i : Nat) : byteAt (map ++ List.replicate n 0) i = byteAt map i := by
  unfold byteAt
  by_cases hi : i < map.length
  · simp [List.getElem?_append, hi]
  · have hzero : ∀ k : Nat, (List.replicate n (0 : UInt8))[k]?.getD 0 = 0 := by
      intro k
      by_cases hk : k < n <;> simp [hk]
    simp [List.getElem?_append, hi, hzero]

/-! ## Single bits -/

theorem bitAt_of_le {map : Bytes} {p : Nat} (h : map.length ≤ p / 8) : bitAt map p = false := by
  simp [bitAt, byteAt_of_le h]

theorem bitAt_append_zeros (map : Bytes) (n p : Nat) : bitAt (map ++ List.replicate n 0) p = bitAt map p := by
  unfold bitAt
  rw [byteAt_append_zeros]

theorem bitAt_replicate (n p : Nat) : bitAt (List.replicate n 0) p = false := by
  have h := bitAt_append_zeros [] n p
  rw [List.nil_append] at h
  rw [h]
  exact bitAt_of_le (Nat.zero_le _)

theorem bitAt_cons (b : UInt8) (map : Bytes) (p : Nat) :
    bitAt (b :: map) p = if p < 8 then b.toNat.testBit (7 - p) else bitAt map (p - 8) := by
  unfold bitAt byteAt
  by_cases hp : p < 8
  · simp [hp, Nat.div_eq_of_lt hp, Nat.mod_eq_of_lt hp]
  · have hdiv : p / 8 = (p - 8) / 8 + 1 := by omega
    have hmod : p % 8 = (p - 8) % 8 := by omega
    rw [if_neg hp, hdiv, hmod, List.getD_cons_succ]

theorem bitAt_drop (map : Bytes) (n p : Nat) : bitAt (map.drop n) p = bitAt map (8 * n + p) := by
  unfold bitAt byteAt
  rw [show (8 * n + p) / 8 = n + p / 8 by omega, show (8 * n + p) % 8 = p % 8 by omega]
  simp [List.getD]

theorem bitAt_take {map : Bytes} {n p : Nat} (h : p < 8 * n) : bitAt (map.take n) p = bitAt map p := by
  unfold bitAt byteAt
  have hp : p / 8 < n := by omega
  simp [List.getD, hp]

theorem eq_of_bit {o p : Nat} (hbyte : p / 8 = o / 8) (hbit : 7 - p % 8 = 7 - o % 8) : p = o := by omega

theorem bitAt_mask (b : UInt8) (p : Nat) : (b &&& bitMask p ≠ 0) ↔ b.toNat.testBit (7 - p % 8) = true := by
  have hand : (b &&& bitMask p).toNat = (b.toNat.testBit (7 - p % 8)).toNat * 2 ^ (7 - p % 8) := by
    rw [UInt8.toNat_and, toNat_bitMask, Nat.and_two_pow]
  have hzero : b &&& bitMask p = 0 ↔ (b &&& bitMask p).toNat = 0 := UInt8.toNat_inj.symm
  rw [Ne, hzero, hand]
  cases b.toNat.testBit (7 - p % 8) <;> simp

theorem bitAt_set_or {map : Bytes} {o : Nat} {b : UInt8} (h : map[o / 8]? = some b) (p : Nat) :
    bitAt (map.set (o / 8) (b ||| bitMask o)) p = if p = o then true else bitAt map p := by
  have hlt : o / 8 < map.length := (List.getElem?_eq_some_iff.mp h).1
  unfold bitAt
  rw [byteAt_set hlt]
  by_cases hbyte : p / 8 = o / 8
  · rw [if_pos hbyte, hbyte, byteAt_of_getElem? h, UInt8.toNat_or, Nat.testBit_or, toNat_bitMask, Nat.testBit_two_pow]
    by_cases hp : p = o
    · simp [hp]
    · have hne : ¬ 7 - o % 8 = 7 - p % 8 := fun hbit => hp (eq_of_bit hbyte hbit.symm)
      simp [hp, hne]
  · have hp : p ≠ o := fun hp => hbyte (by rw [hp])
    rw [if_neg hbyte, if_neg hp]

theorem bitAt_set_and {map : Bytes} {o : Nat} {b : UInt8} (h : map[o / 8]? = some b) (p : Nat) :
    bitAt (map.set (o / 8) (b &&& (bitMask o ^^^ 255))) p = if p = o then false else bitAt map p := by
  have hlt : o / 8 < map.length := (List.getElem?_eq_some_iff.mp h).1
  unfold bitAt
  rw [byteAt_set hlt]
  by_cases hbyte : p / 8 = o / 8
  · have hfull : (255 : UInt8).toNat = 2 ^ 8 - 1 := rfl
    rw [if_pos hbyte, hbyte, byteAt_of_getElem? h, UInt8.toNat_and, UInt8.toNat_xor, Nat.testBit_and, Nat.testBit_xor,
      toNat_bitMask, hfull, Nat.testBit_two_pow, Nat.testBit_two_pow_sub_one]
    have hin : 7 - p % 8 < 8 := by omega
    by_cases hp : p = o
    · subst hp
      simp [hin]
    · have hne : ¬ 7 - o % 8 = 7 - p % 8 := fun hbit => hp (eq_of_bit hbyte hbit.symm)
      simp [hp, hne, hin]
  · have hp : p ≠ o := fun hp => hbyte (by rw [hp])
    rw [if_neg hbyte, if_neg hp]

/-! ## All bits -/

theorem byte_eq_of_testBit {a b : UInt8} (h : ∀ k < 8, a.toNat.testBit k = b.toNat.testBit k) : a = b := by
  apply UInt8.toNat_inj.mp
  apply Nat.eq_of_testBit_eq
  intro k
  by_cases hk : k < 8
  · exact h k hk
  · have hsmall : ∀ c : UInt8, c.toNat.testBit k = false := by
      intro c
      apply Nat.testBit_lt_two_pow
      exact lt_of_lt_of_le c.toNat_lt (Nat.pow_le_pow_right (by decide) (Nat.le_of_not_lt hk))
    rw [hsmall, hsmall]

theorem eq_of_bitAt {map map' : Bytes} (hlen : map.length = map'.length) (h : ∀ p, bitAt map p = bitAt map' p) :
    map = map' := by
  apply List.ext_getElem hlen
  intro i hi hi'
  have hbyte : byteAt map i = byteAt map' i := by
    apply byte_eq_of_testBit
    intro k hk
    have hbit := h (8 * i + (7 - k))
    unfold bitAt at hbit
    rw [show (8 * i + (7 - k)) / 8 = i by omega, show 7 - (8 * i + (7 - k)) % 8 = k by omega] at hbit
    exact hbit
  simpa [byteAt, hi, hi'] using hbyte

end Redis.Lib
