import Mathlib.Data.Rat.Floor
import Mathlib.Tactic.NormNum
import Redis.Geohash
import Redis.Lib.Grid
import Redis.Lib.Spread

/-!
# Scores and positions

Interleaving is a bijection between pairs of 32 bits and 64 bits. Where no
coordinate is rounded, the score of a position is that of its cell, and the
centre of the cell is what the score is decoded to. The upper edges of the
rectangle are in no cell.
-/

namespace Redis

open Lib

namespace Geohash

/-! ## Interleaving -/

section
variable {long lat : Nat}

theorem blocks_masks : Blocks 64 32 0x00000000FFFFFFFF ∧ Blocks 64 16 0x0000FFFF0000FFFF ∧
    Blocks 64 8 0x00FF00FF00FF00FF ∧
    Blocks 64 4 0x0F0F0F0F0F0F0F0F ∧ Blocks 64 2 0x3333333333333333 ∧ Blocks 64 1 0x5555555555555555 := by
  decide

theorem spreadU32ToU64_spread {x : Nat} (hx : x < 2 ^ 32) : Spread 64 1 x.testBit (spreadU32ToU64 x) := by
  obtain ⟨_, h16, h8, h4, h2, h1⟩ := blocks_masks
  have hs : Spread 64 32 x.testBit x := spread_of_lt hx
  exact ((((hs.halve h16).halve h8).halve h4).halve h2).halve h1

theorem compactU64ToU32_spread (x : Nat) : Spread 64 32 (fun i => x.testBit (2 * i)) (compactU64ToU32 x) := by
  obtain ⟨h32, h16, h8, h4, h2, h1⟩ := blocks_masks
  have hs := spread_even h1 x
  exact ((((hs.double (by decide) h2).double (by decide) h4).double (by decide) h8).double (by decide) h16).double
    (by decide) h32

theorem compactU64ToU32_lt (x : Nat) : compactU64ToU32 x < 2 ^ 32 := (compactU64ToU32_spread x).block_lt

theorem testBit_compactU64ToU32 (x : Nat) {i : Nat} (hi : i < 32) : (compactU64ToU32 x).testBit i = x.testBit (2 * i) :=
  (compactU64ToU32_spread x).testBit_block hi

theorem interleave_lt (hlat : lat < 2 ^ 32) : interleave long lat < 2 ^ 64 := by
  apply Nat.or_lt_two_pow
  · exact (spreadU32ToU64_spread hlat).lt
  · exact Nat.mod_lt _ (by decide)

theorem testBit_interleave_even (hlong : long < 2 ^ 32) (hlat : lat < 2 ^ 32) {i : Nat} (hi : i < 32) :
    (interleave long lat).testBit (2 * i) = lat.testBit i := by
  unfold interleave shl
  rw [Nat.testBit_or, (spreadU32ToU64_spread hlat).testBit_even (by omega), testBit_shl_mod (by omega)]
  by_cases hi0 : i = 0
  · simp [hi0]
  · obtain ⟨i, rfl⟩ : ∃ j, i = j + 1 := ⟨i - 1, by omega⟩
    rw [show 2 * (i + 1) - 1 = 2 * i + 1 by omega, (spreadU32ToU64_spread hlong).testBit_odd]
    simp

theorem testBit_interleave_odd (hlong : long < 2 ^ 32) (hlat : lat < 2 ^ 32) {i : Nat} (hi : i < 32) :
    (interleave long lat).testBit (2 * i + 1) = long.testBit i := by
  unfold interleave shl
  rw [Nat.testBit_or, (spreadU32ToU64_spread hlat).testBit_odd, testBit_shl_mod (by omega),
    show 2 * i + 1 - 1 = 2 * i by omega, (spreadU32ToU64_spread hlong).testBit_even (by omega)]
  simp

theorem interleave_lt_pow {n : Nat} (hn : n ≤ 32) (hlong : long < 2 ^ n) (hlat : lat < 2 ^ n) :
    interleave long lat < 2 ^ (2 * n) := by
  have hword : 2 ^ n ≤ 2 ^ 32 := Nat.pow_le_pow_right (by decide) hn
  have hhigh : ∀ {x i : Nat}, x < 2 ^ n → n ≤ i → x.testBit i = false := fun hx hi =>
    Nat.testBit_lt_two_pow (Nat.lt_of_lt_of_le hx (Nat.pow_le_pow_right (by decide) hi))
  apply Nat.lt_pow_two_of_testBit
  intro k hk
  by_cases hin : k < 64
  · obtain ⟨i, rfl | rfl⟩ := Nat.even_or_odd' k
    · rw [testBit_interleave_even (by omega) (by omega) (by omega), hhigh hlat (by omega)]
    · rw [testBit_interleave_odd (by omega) (by omega) (by omega), hhigh hlong (by omega)]
  · have hlt : interleave long lat < 2 ^ 64 := interleave_lt (by omega)
    exact Nat.testBit_lt_two_pow (Nat.lt_of_lt_of_le hlt (Nat.pow_le_pow_right (by decide) (Nat.le_of_not_lt hin)))

theorem deinterleave_interleave (hlong : long < 2 ^ 32) (hlat : lat < 2 ^ 32) :
    deinterleave (interleave long lat) = (long, lat) := by
  unfold deinterleave
  rw [Prod.mk.injEq]
  constructor
  · apply eq_of_testBit_lt (compactU64ToU32_lt _) hlong
    intro i hi
    rw [testBit_compactU64ToU32 _ hi, Nat.testBit_shiftRight, Nat.add_comm 1, testBit_interleave_odd hlong hlat hi]
  · apply eq_of_testBit_lt (compactU64ToU32_lt _) hlat
    intro i hi
    rw [testBit_compactU64ToU32 _ hi, testBit_interleave_even hlong hlat hi]

theorem deinterleave_lt (score : Nat) : (deinterleave score).1 < 2 ^ 32 ∧ (deinterleave score).2 < 2 ^ 32 :=
  ⟨compactU64ToU32_lt _, compactU64ToU32_lt _⟩

theorem interleave_deinterleave {score : Nat} (hs : score < 2 ^ 64) :
    interleave (deinterleave score).1 (deinterleave score).2 = score := by
  obtain ⟨hlong, hlat⟩ := deinterleave_lt score
  apply eq_of_testBit_lt (interleave_lt hlat) hs
  intro k hk
  obtain ⟨i, rfl | rfl⟩ := Nat.even_or_odd' k
  · rw [testBit_interleave_even hlong hlat (by omega)]
    exact testBit_compactU64ToU32 _ (by omega)
  · rw [testBit_interleave_odd hlong hlat (by omega)]
    have hodd := testBit_compactU64ToU32 (score >>> 1) (i := i) (by omega)
    rw [Nat.testBit_shiftRight, Nat.add_comm 1] at hodd
    exact hodd

/-- Interleaving puts `lat` on the even bits and `long` on the odd ones, and
deinterleaving is its inverse, from either side. -/
theorem interleave_bijective :
    (∀ long lat : Nat, long < 2 ^ 32 → lat < 2 ^ 32 →
      interleave long lat < 2 ^ 64 ∧
      (∀ i < 32, (interleave long lat).testBit (2 * i) = lat.testBit i ∧
        (interleave long lat).testBit (2 * i + 1) = long.testBit i) ∧
      deinterleave (interleave long lat) = (long, lat)) ∧
    ∀ score < 2 ^ 64, (deinterleave score).1 < 2 ^ 32 ∧ (deinterleave score).2 < 2 ^ 32 ∧
      interleave (deinterleave score).1 (deinterleave score).2 = score := by
  constructor
  · intro long lat hlong hlat
    refine ⟨interleave_lt hlat, fun i hi => ?_, deinterleave_interleave hlong hlat⟩
    exact ⟨testBit_interleave_even hlong hlat hi, testBit_interleave_odd hlong hlat hi⟩
  · intro score hs
    exact ⟨(deinterleave_lt score).1, (deinterleave_lt score).2, interleave_deinterleave hs⟩

theorem interleave_bijective_cell : deinterleave (interleave 52293687 38968045) = (52293687, 38968045) ∧
    interleave (deinterleave 3962257306574459).1 (deinterleave 3962257306574459).2 = 3962257306574459 :=
  ⟨(interleave_bijective.1 _ _ (by decide) (by decide)).2.2, (interleave_bijective.2 _ (by decide)).2.2⟩

end

/-! ## Exact coordinates -/

/-- Arithmetic without rounding, as far as positions need it. -/
structure Exact (ops : FloatOps ℚ) : Prop where
  add : ∀ x y, ops.add x y = x + y
  sub : ∀ x y, ops.sub x y = x - y
  mul : ∀ x y, ops.mul x y = x * y
  div : ∀ x y, ops.div x y = x / y
  le : ∀ x y, ops.le x y = decide (x ≤ y)
  lit : ∀ m e, ops.lit m e = m / 10 ^ e
  toU32 : ∀ x, ops.toU32 x = min ⌊x⌋₊ (2 ^ 32 - 1)

/-- The score of a position is decoded to the same position, but for half a cell. -/
structure RoundTrip (ops : FloatOps ℚ) (long lat : ℚ) (score : Nat) : Prop where
  small : score < 2 ^ 53
  stored : (F64.ofU64 score).toU64 = score
  accepted : ∃ score', encode ops (decode ops score).1 (decode ops score).2 = .ok score'
  nearLong : |(decode ops score).1 - long| ≤ longRange ops / cells ops / 2
  nearLat : |(decode ops score).2 - lat| ≤ latRange ops / cells ops / 2
  same : encode ops (decode ops score).1 (decode ops score).2 = .ok score

section
variable {ops : FloatOps ℚ} {long lat : ℚ} {score : Nat}

theorem Exact.consts (h : Exact ops) : longMin ops = -180 ∧ longMax ops = 180 ∧ longRange ops = 360 ∧
    latMin ops = -85.05112878 ∧ latMax ops = 85.05112878 ∧ latRange ops = 170.10225756 ∧
    cells ops = (2 ^ step : Nat) := by
  unfold longRange latRange longMin longMax latMin latMax cells step
  simp only [h.lit, h.sub]
  norm_num

def Inside (long lat : ℚ) : Prop := (-180 ≤ long ∧ long ≤ 180) ∧ -85.05112878 ≤ lat ∧ lat ≤ 85.05112878

instance (long lat : ℚ) : Decidable (Inside long lat) := inferInstanceAs (Decidable ((_ ∧ _) ∧ _ ∧ _))

def longCell (long : ℚ) : Nat := cellOf (-180) 360 (2 ^ step) long

def latCell (lat : ℚ) : Nat := cellOf (-85.05112878) 170.10225756 (2 ^ step) lat

theorem cells_lt (hin : Inside long lat) : longCell long ≤ 2 ^ step ∧ latCell lat ≤ 2 ^ step := by
  obtain ⟨⟨_, hlong⟩, _, hlat⟩ := hin
  constructor
  · apply cellOf_le (by norm_num)
    linarith
  · apply cellOf_le (by norm_num)
    linarith

theorem Exact.encode_ok (h : Exact ops) :
    encode ops long lat = .ok score ↔ Inside long lat ∧ interleave (longCell long) (latCell lat) = score := by
  obtain ⟨hlongMin, hlongMax, hlongRange, hlatMin, hlatMax, hlatRange, hcells⟩ := h.consts
  have hguard : (!(decide (-85.05112878 ≤ lat) && decide (lat ≤ 85.05112878)) ||
      !(decide (-180 ≤ long) && decide (long ≤ 180))) = decide (¬ Inside long lat) := by
    unfold Inside
    rw [← Bool.not_and, ← Bool.decide_and, ← Bool.decide_and, ← Bool.decide_and, ← decide_not,
      decide_eq_decide, and_comm]
  unfold encode
  simp only [hlongMin, hlongMax, hlongRange, hlatMin, hlatMax, hlatRange, hcells, h.le, h.sub, h.div, h.mul,
    h.toU32, hguard]
  by_cases hin : Inside long lat
  · obtain ⟨hlong, hlat⟩ := cells_lt hin
    have hcast : ∀ k ≤ 2 ^ step, min k (2 ^ 32 - 1) = k := fun k hk => Nat.min_eq_left (le_trans hk (by decide))
    have hlongCast := hcast _ hlong
    have hlatCast := hcast _ hlat
    unfold longCell cellOf at hlongCast
    unfold latCell cellOf at hlatCast
    simp only [hin, not_true, decide_false, Bool.false_eq_true, if_false, hlongCast, hlatCast,
      Except.ok.injEq, true_and]
    rfl
  · simp [hin]

theorem Exact.decode_eq (h : Exact ops) (score : Nat) : decode ops score =
    (centreOf (-180) 360 (2 ^ step) (deinterleave score).1,
      centreOf (-85.05112878) 170.10225756 (2 ^ step) (deinterleave score).2) := by
  obtain ⟨hlongMin, _, hlongRange, hlatMin, _, hlatRange, hcells⟩ := h.consts
  unfold decode edge centreOf
  simp only [hlongMin, hlongRange, hlatMin, hlatRange, hcells, h.add, h.mul, h.div, h.lit]
  norm_num

theorem longCell_lt_iff (hin : Inside long lat) : longCell long < 2 ^ step ↔ long < 180 := by
  unfold longCell
  rw [cellOf_lt_iff (by norm_num) (by decide) hin.1.1, show (-180 : ℚ) + 360 = 180 by norm_num]

theorem latCell_lt_iff (hin : Inside long lat) : latCell lat < 2 ^ step ↔ lat < 85.05112878 := by
  unfold latCell
  rw [cellOf_lt_iff (by norm_num) (by decide) hin.2.1, show (-85.05112878 : ℚ) + 170.10225756 = 85.05112878 by norm_num]

theorem Exact.decode_encode (h : Exact ops) (hin : Inside long lat) :
    decode ops (interleave (longCell long) (latCell lat)) =
      (centreOf (-180) 360 (2 ^ step) (longCell long),
        centreOf (-85.05112878) 170.10225756 (2 ^ step) (latCell lat)) := by
  obtain ⟨hlong, hlat⟩ := cells_lt hin
  have hword : 2 ^ step < 2 ^ 32 := by decide
  rw [h.decode_eq, deinterleave_interleave (by omega) (by omega)]

/-- The centre of a cell is a position of the cell. -/
theorem Exact.encode_centre (h : Exact ops) {i j : Nat} (hi : i < 2 ^ step) (hj : j < 2 ^ step) :
    encode ops (centreOf (-180) 360 (2 ^ step) i) (centreOf (-85.05112878) 170.10225756 (2 ^ step) j) =
      .ok (interleave i j) := by
  have hlong : (0 : ℚ) < 360 := by norm_num
  have hlat : (0 : ℚ) < 170.10225756 := by norm_num
  have hn : 0 < 2 ^ step := by decide
  rw [h.encode_ok]
  refine ⟨⟨⟨start_le_centreOf hlong hn i, ?_⟩, start_le_centreOf hlat hn j, ?_⟩, ?_⟩
  · have hbelow : centreOf (-180 : ℚ) 360 (2 ^ step) i < -180 + 360 := (centreOf_lt_iff hlong hn i).mpr hi
    linarith
  · have hbelow : centreOf (-85.05112878 : ℚ) 170.10225756 (2 ^ step) j < -85.05112878 + 170.10225756 :=
      (centreOf_lt_iff hlat hn j).mpr hj
    linarith
  · unfold longCell latCell
    rw [cellOf_centreOf hlong hn, cellOf_centreOf hlat hn]

theorem Exact.roundTrip (h : Exact ops) (hin : Inside long lat) (hlong : long < 180) (hlat : lat < 85.05112878) :
    RoundTrip ops long lat (interleave (longCell long) (latCell lat)) := by
  obtain ⟨_, _, hlongRange, _, _, hlatRange, hcells⟩ := h.consts
  have hi := (longCell_lt_iff hin).mpr hlong
  have hj := (latCell_lt_iff hin).mpr hlat
  have hsmall : interleave (longCell long) (latCell lat) < 2 ^ 53 :=
    lt_trans (interleave_lt_pow (by decide) hi hj) (by decide)
  have hsame := h.encode_centre hi hj
  constructor
  case small => exact hsmall
  case stored => exact F64.toU64_ofU64 hsmall
  case accepted =>
    rw [h.decode_encode hin]
    exact ⟨_, hsame⟩
  case nearLong =>
    rw [h.decode_encode hin, hlongRange, hcells]
    exact abs_centreOf_sub_le (by norm_num) (by decide) hin.1.1
  case nearLat =>
    rw [h.decode_encode hin, hlatRange, hcells]
    exact abs_centreOf_sub_le (by norm_num) (by decide) hin.2.1
  case same =>
    rw [h.decode_encode hin]
    exact hsame

/-- On the eastern edge, bit 26 of the longitude is bit 53 of the score. -/
theorem RoundTrip.long_lt (hin : Inside long lat)
    (hr : RoundTrip ops long lat (interleave (longCell long) (latCell lat))) :
    long < 180 := by
  by_contra hedge
  obtain ⟨hlong, hlat⟩ := cells_lt hin
  have hword : 2 ^ step < 2 ^ 32 := by decide
  have hcell : longCell long = 2 ^ step := by
    have := (longCell_lt_iff hin).not.mpr hedge
    omega
  have hbit : (interleave (longCell long) (latCell lat)).testBit (2 * step + 1) = true := by
    rw [testBit_interleave_odd (by omega) (by omega) (by decide), hcell, Nat.testBit_two_pow_self]
  have hnone : (interleave (longCell long) (latCell lat)).testBit (2 * step + 1) = false :=
    Nat.testBit_lt_two_pow hr.small
  rw [hbit] at hnone
  cases hnone

theorem RoundTrip.lat_lt (h : Exact ops) (hin : Inside long lat)
    (hr : RoundTrip ops long lat (interleave (longCell long) (latCell lat))) : lat < 85.05112878 := by
  by_contra hedge
  have hcell : latCell lat = 2 ^ step := by
    have := (latCell_lt_iff hin).not.mpr hedge
    have := (cells_lt hin).2
    omega
  obtain ⟨score', haccepted⟩ := hr.accepted
  rw [h.decode_encode hin, hcell] at haccepted
  have hinside := (h.encode_ok.mp haccepted).1.2.2
  have hout : (-85.05112878 : ℚ) + 170.10225756 < centreOf (-85.05112878) 170.10225756 (2 ^ step) (2 ^ step) :=
    end_lt_centreOf (by norm_num) (by decide)
  linarith

/-- A position that is accepted makes the round trip if it is not on the upper edge of
a coordinate. -/
theorem encode_roundTrip_iff (h : Exact ops) (he : encode ops long lat = .ok score) :
    RoundTrip ops long lat score ↔ long < longMax ops ∧ lat < latMax ops := by
  obtain ⟨_, hlongMax, _, _, hlatMax, _, _⟩ := h.consts
  obtain ⟨hin, rfl⟩ := h.encode_ok.mp he
  rw [hlongMax, hlatMax]
  constructor
  · intro hr
    exact ⟨hr.long_lt hin, hr.lat_lt h hin⟩
  · intro hbelow
    exact h.roundTrip hin hbelow.1 hbelow.2

def exactOps : FloatOps ℚ where
  add := (· + ·)
  sub := (· - ·)
  mul := (· * ·)
  div := (· / ·)
  abs := abs
  sqrt := id
  sin := id
  cos := id
  asin := id
  toRadians := id
  le x y := decide (x ≤ y)
  eq x y := decide (x = y)
  lit m e := m / 10 ^ e
  toU64 x := min ⌊x⌋₊ (2 ^ 64 - 1)
  toU32 x := min ⌊x⌋₊ (2 ^ 32 - 1)
  fixed6 _ := ""

theorem exact_exactOps : Exact exactOps :=
  ⟨fun _ _ => rfl, fun _ _ => rfl, fun _ _ => rfl, fun _ _ => rfl, fun _ _ => rfl, fun _ _ => rfl, fun _ => rfl⟩

theorem encode_roundTrip_iff_test : encode exactOps 100.5252 13.722 = .ok 3962257306574459 ∧
    RoundTrip exactOps 100.5252 13.722 3962257306574459 := by
  have hlong : longCell 100.5252 = 52293687 := by
    unfold longCell step
    rw [cellOf_eq_iff (by norm_num) (by norm_num) (by norm_num)]
    norm_num
  have hlat : latCell 13.722 = 38968045 := by
    unfold latCell step
    rw [cellOf_eq_iff (by norm_num) (by norm_num) (by norm_num)]
    norm_num
  have hin : Inside 100.5252 13.722 := by
    unfold Inside
    norm_num
  have he : encode exactOps 100.5252 13.722 = .ok 3962257306574459 := by
    rw [exact_exactOps.encode_ok, hlong, hlat]
    exact ⟨hin, by decide⟩
  refine ⟨he, (encode_roundTrip_iff exact_exactOps he).mpr ?_⟩
  obtain ⟨_, hlongMax, _, _, hlatMax, _, _⟩ := exact_exactOps.consts
  rw [hlongMax, hlatMax]
  norm_num

/-- The eastern edge on the equator is accepted. -/
theorem edge_not_roundTrip : ∃ score, encode exactOps 180 0 = .ok score ∧ ¬ RoundTrip exactOps 180 0 score := by
  have hin : Inside 180 0 := by
    unfold Inside
    norm_num
  refine ⟨_, exact_exactOps.encode_ok.mpr ⟨hin, rfl⟩, fun hr => ?_⟩
  have := hr.long_lt hin
  norm_num at this

end

end Geohash

end Redis
