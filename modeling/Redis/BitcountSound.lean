import Redis.BitmapSound
import Redis.Parser

/-!
# BITCOUNT counts what GETBIT shows

The bits of a range are counted byte by byte or one by one, depending on the unit
of the range. Either way the count is that of the positions in the range at
which a bit is set.
-/

namespace Redis

open Lib

namespace BitOps

/-! ## Checked arithmetic -/

def checkedI64 (x : Int) : Option Int := if -2 ^ 63 ≤ x ∧ x < 2 ^ 63 then some x else none

def absIndexChecked (len index : Int) : Option Int :=
  if index < 0 then (checkedI64 (len + index)).map (max · 0) else some index

/-- `map.len() as i64`, and eight times that for bits -/
def lenChecked (map : Bytes) : BitUnit → Option Int
  | .byte => checkedI64 map.length
  | .bit => (checkedI64 map.length).bind fun len => checkedI64 (len * 8)

/-- `bit_count` without a result if an operation overflows, a slice is out of range or
a position is looked up that is past the end. -/
def bitCountChecked (map : Bytes) : Option BitRange → Option Nat
  | none => some (map.map countOnes).sum
  | some range => do
    let len ← lenChecked map range.unit
    let start ← absIndexChecked len range.start
    let stop ← absIndexChecked len range.stop
    let last ← checkedI64 (len - 1)
    let stop := min stop last
    if len = 0 ∨ stop < start then some 0
    else match range.unit with
      | .byte => (slice map start.toNat (stop.toNat + 1)).map fun bytes => (bytes.map countOnes).sum
      | .bit =>
        ((List.range' start.toNat (stop.toNat + 1 - start.toNat)).mapM fun i => (get map i).toOption).map
          (List.countP fun bit => decide (0 < bit))

/-! ## What is to be counted -/

def setPositions (map : Bytes) : List Nat := (List.range (8 * map.length)).filter fun i => get map i = .ok 1

def boundsOf (map : Bytes) (range : BitRange) : Int × Int :=
  let len : Int := match range.unit with
    | .byte => map.length
    | .bit => 8 * map.length
  (absIndex len range.start, min (absIndex len range.stop) (len - 1))

def positionsOf (map : Bytes) (range : BitRange) : Int × Int :=
  let bounds := boundsOf map range
  match range.unit with
  | .byte => (8 * bounds.1, 8 * bounds.2 + 7)
  | .bit => bounds

def countOf (map : Bytes) : Option BitRange → Nat
  | none => (setPositions map).length
  | some range =>
    let bounds := boundsOf map range
    let positions := positionsOf map range
    if map.length = 0 ∨ bounds.2 < bounds.1 then 0
    else ((setPositions map).filter fun i : Nat => positions.1 ≤ (i : Int) ∧ (i : Int) ≤ positions.2).length

/-! ## Counting -/

section
variable {map : Bytes} {i : Nat}

theorem get_eq (h : i / 8 < map.length) : get map i = .ok (bitAt map i).toNat := by
  have hbit := CmdHandler.bitOf_eq map i
  unfold CmdHandler.bitOf at hbit
  cases hget : get map i with
  | ok bit =>
    rw [hget] at hbit
    rw [← hbit]
  | error e =>
    unfold get at hget
    rw [List.getElem?_eq_getElem h] at hget
    cases hget

theorem get_eq_one_iff : get map i = .ok 1 ↔ bitAt map i = true := by
  by_cases h : i / 8 < map.length
  · rw [get_eq h]
    cases bitAt map i <;> simp
  · have hnone : get map i = .error .outOfIndex := by
      unfold get
      rw [List.getElem?_eq_none (Nat.le_of_not_lt h)]
    rw [hnone, bitAt_of_le (Nat.le_of_not_lt h)]
    simp

theorem countOnes_eq (b : UInt8) : countOnes b = (List.range 8).countP fun i => b.toNat.testBit (7 - i) := by
  have hrev : (List.range 8).map (7 - ·) = (List.range 8).reverse := by decide
  have hcount := congrArg (List.countP fun i => b.toNat.testBit i) hrev
  rw [List.countP_map, List.countP_reverse] at hcount
  exact hcount.symm

theorem sum_countOnes (map : Bytes) : (map.map countOnes).sum = (List.range (8 * map.length)).countP (bitAt map) := by
  induction map with
  | nil => rfl
  | cons b map ih =>
    have hsplit : List.range (8 * (b :: map).length) = List.range 8 ++ (List.range (8 * map.length)).map (8 + ·) := by
      rw [List.length_cons, Nat.mul_succ, Nat.add_comm, List.range_add]
    have hfirst : (List.range 8).countP (bitAt (b :: map)) = countOnes b := by
      rw [countOnes_eq]
      apply List.countP_congr
      intro i hi
      rw [bitAt_cons, if_pos (List.mem_range.mp hi)]
    have hothers : ((List.range (8 * map.length)).map (8 + ·)).countP (bitAt (b :: map)) =
        (List.range (8 * map.length)).countP (bitAt map) := by
      rw [List.countP_map]
      apply List.countP_congr
      intro i _
      simp [bitAt_cons]
    rw [List.map_cons, List.sum_cons, ih, hsplit, List.countP_append, hfirst, hothers]

theorem countP_between (f : Nat → Bool) {a b n : Nat} (hab : a ≤ b) (hbn : b ≤ n) :
    ((List.range n).countP fun i => decide (a ≤ i ∧ i < b) && f i) = (List.range' a (b - a)).countP f := by
  have hsplit : List.range n = List.range' 0 a ++ (List.range' a (b - a) ++ List.range' b (n - b)) := by
    have hright := List.range'_append_1 (s := a) (m := b - a) (n := n - b)
    have hleft := List.range'_append_1 (s := 0) (m := a) (n := b - a + (n - b))
    rw [show a + (b - a) = b by omega] at hright
    rw [Nat.zero_add, ← hright] at hleft
    rw [List.range_eq_range', hleft]
    congr 1
    omega
  have hbelow : ((List.range' 0 a).countP fun i => decide (a ≤ i ∧ i < b) && f i) = 0 := by
    apply List.countP_eq_zero.mpr
    intro i hi
    have := List.mem_range'_1.mp hi
    simp [show ¬ a ≤ i by omega]
  have habove : ((List.range' b (n - b)).countP fun i => decide (a ≤ i ∧ i < b) && f i) = 0 := by
    apply List.countP_eq_zero.mpr
    intro i hi
    have := List.mem_range'_1.mp hi
    simp [show ¬ i < b by omega]
  have hin : ((List.range' a (b - a)).countP fun i => decide (a ≤ i ∧ i < b) && f i) =
      (List.range' a (b - a)).countP f := by
    apply List.countP_congr
    intro i hi
    have := List.mem_range'_1.mp hi
    simp [show a ≤ i ∧ i < b by omega]
  rw [hsplit, List.countP_append, List.countP_append, hbelow, habove, hin, Nat.zero_add, Nat.add_zero]

theorem sum_window {a b : Nat} (hab : a ≤ b) (hb : b ≤ map.length) :
    (((map.take b).drop a).map countOnes).sum = (List.range' (8 * a) (8 * b - 8 * a)).countP (bitAt map) := by
  have hlen : ((map.take b).drop a).length = b - a := by
    rw [List.length_drop, List.length_take, Nat.min_eq_left hb]
  rw [sum_countOnes, hlen, ← Nat.mul_sub, List.range'_eq_map_range, List.countP_map]
  apply List.countP_congr
  intro i hi
  have hi := List.mem_range.mp hi
  rw [bitAt_drop, bitAt_take (by omega)]
  rfl

theorem length_setPositions (map : Bytes) :
    (setPositions map).length = (List.range (8 * map.length)).countP (bitAt map) := by
  unfold setPositions
  rw [← List.countP_eq_length_filter]
  apply List.countP_congr
  intro i _
  rw [decide_eq_true_eq, get_eq_one_iff]

theorem length_filter_setPositions (map : Bytes) (p : Nat → Prop) [DecidablePred p] :
    ((setPositions map).filter fun i => p i).length =
      (List.range (8 * map.length)).countP fun i => decide (p i) && bitAt map i := by
  unfold setPositions
  rw [← List.countP_eq_length_filter, List.countP_filter]
  apply List.countP_congr
  intro i _
  rw [Bool.and_eq_true, Bool.and_eq_true, decide_eq_true_eq, decide_eq_true_eq, get_eq_one_iff]

theorem sum_bytes {start stop : Int} (hs : 0 ≤ start) (hse : start ≤ stop) (he : stop ≤ map.length - 1) :
    (((map.take (stop.toNat + 1)).drop start.toNat).map countOnes).sum =
      (List.range (8 * map.length)).countP fun i : Nat =>
        decide (8 * start ≤ i ∧ (i : Int) ≤ 8 * stop + 7) && bitAt map i := by
  have hbetween := countP_between (bitAt map) (a := 8 * start.toNat) (b := 8 * (stop.toNat + 1)) (n := 8 * map.length)
    (by omega) (by omega)
  rw [sum_window (by omega) (by omega), ← hbetween]
  apply List.countP_congr
  intro i _
  have hiff : (8 * start.toNat ≤ i ∧ i < 8 * (stop.toNat + 1)) ↔ (8 * start ≤ i ∧ (i : Int) ≤ 8 * stop + 7) := by omega
  rw [decide_eq_decide.mpr hiff]

theorem countP_bits {start stop : Int} (hs : 0 ≤ start) (hse : start ≤ stop) (he : stop ≤ 8 * map.length - 1) :
    (List.range' start.toNat (stop.toNat + 1 - start.toNat)).countP (bitAt map) =
      (List.range (8 * map.length)).countP fun i : Nat => decide (start ≤ i ∧ (i : Int) ≤ stop) && bitAt map i := by
  have hbetween := countP_between (bitAt map) (a := start.toNat) (b := stop.toNat + 1) (n := 8 * map.length)
    (by omega) (by omega)
  rw [← hbetween]
  apply List.countP_congr
  intro i _
  have hiff : (start.toNat ≤ i ∧ i < stop.toNat + 1) ↔ (start ≤ i ∧ (i : Int) ≤ stop) := by omega
  rw [decide_eq_decide.mpr hiff]

theorem countP_get (l : List Nat) : (l.countP fun i =>
    match get map i with
    | .ok bit => decide (0 < bit)
    | .error _ => false) = l.countP (bitAt map) := by
  apply List.countP_congr
  intro i _
  by_cases h : i / 8 < map.length
  · rw [get_eq h]
    cases bitAt map i <;> simp
  · have hnone : get map i = .error .outOfIndex := by
      unfold get
      rw [List.getElem?_eq_none (Nat.le_of_not_lt h)]
    rw [hnone, bitAt_of_le (Nat.le_of_not_lt h)]

theorem countOf_eq (map : Bytes) (range : BitRange) : countOf map (some range) =
    if map.length = 0 ∨ (boundsOf map range).2 < (boundsOf map range).1 then 0
    else (List.range (8 * map.length)).countP fun i : Nat =>
      decide ((positionsOf map range).1 ≤ i ∧ (i : Int) ≤ (positionsOf map range).2) && bitAt map i := by
  unfold countOf
  simp only
  rw [length_filter_setPositions map fun i => (positionsOf map range).1 ≤ i ∧ (i : Int) ≤ (positionsOf map range).2]

theorem bitCount_bytes (map : Bytes) (start stop : Int) :
    bitCount map (some ⟨start, stop, .byte⟩) = countOf map (some ⟨start, stop, .byte⟩) := by
  rw [countOf_eq]
  unfold bitCount positionsOf boundsOf
  simp only
  have hs := absIndex_nonneg map.length start
  by_cases hempty : (map.length : Int) = 0 ∨
      min (absIndex map.length stop) (map.length - 1) < absIndex map.length start
  · rw [if_pos hempty, if_pos (by omega)]
  · rw [if_neg hempty, if_neg (by omega)]
    apply sum_bytes hs
    · omega
    · exact Int.min_le_right _ _

theorem bitCount_bits (map : Bytes) (start stop : Int) :
    bitCount map (some ⟨start, stop, .bit⟩) = countOf map (some ⟨start, stop, .bit⟩) := by
  rw [countOf_eq]
  unfold bitCount positionsOf boundsOf
  simp only
  rw [Int.mul_comm]
  have hs := absIndex_nonneg (8 * map.length) start
  by_cases hempty : (8 * map.length : Int) = 0 ∨
      min (absIndex (8 * map.length) stop) (8 * map.length - 1) < absIndex (8 * map.length) start
  · rw [if_pos hempty, if_pos (by omega)]
  · rw [if_neg hempty, if_neg (by omega)]
    apply (countP_get _).trans
    apply countP_bits hs
    · omega
    · exact Int.min_le_right _ _

theorem bitCount_eq (map : Bytes) (range : Option BitRange) : bitCount map range = countOf map range := by
  cases range with
  | none =>
    unfold bitCount countOf
    rw [sum_countOnes, length_setPositions]
  | some range =>
    obtain ⟨start, stop, unit⟩ := range
    cases unit with
    | byte => exact bitCount_bytes map start stop
    | bit => exact bitCount_bits map start stop

/-! ## No overflow -/

theorem checkedI64_eq {x : Int} (h : -2 ^ 63 ≤ x ∧ x < 2 ^ 63) : checkedI64 x = some x := if_pos h

theorem absIndexChecked_eq {len index : Int} (hlen : 0 ≤ len ∧ len < 2 ^ 63) (hi : -2 ^ 63 ≤ index ∧ index < 2 ^ 63) :
    absIndexChecked len index = some (absIndex len index) := by
  unfold absIndexChecked absIndex
  by_cases hneg : index < 0
  · rw [if_pos hneg, if_pos hneg, checkedI64_eq (by omega)]
    rfl
  · rw [if_neg hneg, if_neg hneg]

theorem slice_eq {start stop : Nat} (hs : start ≤ stop) (he : stop ≤ map.length) :
    slice map start stop = some ((map.take stop).drop start) := by
  unfold slice
  rw [if_pos ⟨hs, he⟩, List.drop_take]

theorem mapM_get {l : List Nat} (h : ∀ i ∈ l, i / 8 < map.length) :
    (l.mapM fun i => (get map i).toOption) = some (l.map fun i => (bitAt map i).toNat) := by
  induction l with
  | nil => rfl
  | cons i l ih =>
    have hi : get map i = .ok (bitAt map i).toNat := get_eq (h i (List.mem_cons_self ..))
    have ih := ih fun j hj => h j (List.mem_cons_of_mem i hj)
    rw [List.mapM_cons, ih, hi]
    rfl

theorem mapM_get_count {l : List Nat} (h : ∀ i ∈ l, i / 8 < map.length) :
    (l.mapM fun i => (get map i).toOption).map (List.countP fun bit => decide (0 < bit)) =
      some (l.countP (bitAt map)) := by
  rw [mapM_get h, Option.map_some, List.countP_map]
  congr 1
  apply List.countP_congr
  intro i _
  cases hbit : bitAt map i <;> simp [hbit]

theorem lenChecked_byte (hlen : 8 * map.length < 2 ^ 63) : lenChecked map .byte = some (map.length : Int) :=
  checkedI64_eq (by omega)

theorem lenChecked_bit (hlen : 8 * map.length < 2 ^ 63) : lenChecked map .bit = some (map.length * 8 : Int) := by
  have hlength : checkedI64 (map.length : Int) = some (map.length : Int) := checkedI64_eq (by omega)
  unfold lenChecked
  rw [hlength, Option.bind_some]
  apply checkedI64_eq
  omega

/-- Nothing overflows up to the clamped bounds. -/
theorem bitCountChecked_bounds (range : BitRange) {len : Int} (hunit : lenChecked map range.unit = some len)
    (hlen : 0 ≤ len ∧ len < 2 ^ 63) (hstart : -2 ^ 63 ≤ range.start ∧ range.start < 2 ^ 63)
    (hstop : -2 ^ 63 ≤ range.stop ∧ range.stop < 2 ^ 63) :
    bitCountChecked map (some range) =
      let start := absIndex len range.start
      let stop := min (absIndex len range.stop) (len - 1)
      if len = 0 ∨ stop < start then some 0
      else match range.unit with
        | .byte => (slice map start.toNat (stop.toNat + 1)).map fun bytes => (bytes.map countOnes).sum
        | .bit =>
          ((List.range' start.toNat (stop.toNat + 1 - start.toNat)).mapM fun i => (get map i).toOption).map
            (List.countP fun bit => decide (0 < bit)) := by
  have hlast : checkedI64 (len - 1) = some (len - 1) := checkedI64_eq (by omega)
  unfold bitCountChecked
  simp only [hunit, absIndexChecked_eq hlen hstart, absIndexChecked_eq hlen hstop, hlast, Option.bind_eq_bind,
    Option.bind_some]

theorem bitCountChecked_bytes {start stop : Int} (hlen : 8 * map.length < 2 ^ 63)
    (hstart : -2 ^ 63 ≤ start ∧ start < 2 ^ 63) (hstop : -2 ^ 63 ≤ stop ∧ stop < 2 ^ 63) :
    bitCountChecked map (some ⟨start, stop, .byte⟩) = some (bitCount map (some ⟨start, stop, .byte⟩)) := by
  rw [bitCountChecked_bounds ⟨start, stop, .byte⟩ (lenChecked_byte hlen) (by omega) hstart hstop]
  have hs := absIndex_nonneg map.length start
  unfold bitCount
  simp only
  by_cases hempty : (map.length : Int) = 0 ∨ min (absIndex map.length stop) (map.length - 1) < absIndex map.length start
  · rw [if_pos hempty, if_pos hempty]
  · rw [if_neg hempty, if_neg hempty, slice_eq (by omega) (by omega), Option.map_some]

theorem bitCountChecked_bits {start stop : Int} (hlen : 8 * map.length < 2 ^ 63)
    (hstart : -2 ^ 63 ≤ start ∧ start < 2 ^ 63) (hstop : -2 ^ 63 ≤ stop ∧ stop < 2 ^ 63) :
    bitCountChecked map (some ⟨start, stop, .bit⟩) = some (bitCount map (some ⟨start, stop, .bit⟩)) := by
  rw [bitCountChecked_bounds ⟨start, stop, .bit⟩ (lenChecked_bit hlen) (by omega) hstart hstop]
  have hs := absIndex_nonneg (map.length * 8) start
  unfold bitCount
  simp only
  by_cases hempty : (map.length * 8 : Int) = 0 ∨
      min (absIndex (map.length * 8) stop) (map.length * 8 - 1) < absIndex (map.length * 8) start
  · rw [if_pos hempty, if_pos hempty]
  · rw [if_neg hempty, if_neg hempty]
    apply (mapM_get_count ?_).trans (congrArg some (countP_get _).symm)
    intro i hi
    have := List.mem_range'_1.mp hi
    omega

theorem bitCountChecked_eq {range : Option BitRange} (hlen : 8 * map.length < 2 ^ 63)
    (hrange : ∀ r, range = some r → (-2 ^ 63 ≤ r.start ∧ r.start < 2 ^ 63) ∧ -2 ^ 63 ≤ r.stop ∧ r.stop < 2 ^ 63) :
    bitCountChecked map range = some (bitCount map range) := by
  cases range with
  | none => rfl
  | some range =>
    obtain ⟨hstart, hstop⟩ := hrange range rfl
    obtain ⟨start, stop, unit⟩ := range
    cases unit with
    | byte => exact bitCountChecked_bytes hlen hstart hstop
    | bit => exact bitCountChecked_bits hlen hstart hstop

theorem countOf_nil (range : Option BitRange) : countOf [] range = 0 := by
  cases range <;> rfl

theorem cmdBitcount_eq {data : Data} {key : String} (range : Option BitRange)
    (h : CmdHandler.bitopSource data key = .ok map) :
    CmdHandler.cmdBitcount data key range = CmdHandler.reply (.integer (some (bitCount map range))) := by
  unfold CmdHandler.bitopSource at h
  unfold CmdHandler.cmdBitcount
  cases hl : data.lookup key with
  | none =>
    rw [hl] at h
    cases h
    rw [bitCount_eq, countOf_nil]
    rfl
  | some item =>
    rw [hl] at h
    simp only at h ⊢
    split at h
    · rename_i map' hmap'
      cases h
      simp only
    · cases h

/-- For all indexes of `i64` and all maps whose bits can be counted in it, the bits that
are counted are those that a lookup shows, nothing is out of range, and BITCOUNT
answers with the count. -/
theorem bitCount_counts {range : Option BitRange} (hlen : 8 * map.length < 2 ^ 63)
    (hrange : ∀ r, range = some r → (-2 ^ 63 ≤ r.start ∧ r.start < 2 ^ 63) ∧ -2 ^ 63 ≤ r.stop ∧ r.stop < 2 ^ 63) :
    bitCountChecked map range = some (countOf map range) ∧ bitCount map range = countOf map range ∧
      ∀ (data : Data) (key : String), CmdHandler.bitopSource data key = .ok map →
        CmdHandler.cmdBitcount data key range = CmdHandler.reply (.integer (some (countOf map range))) := by
  refine ⟨?_, bitCount_eq map range, ?_⟩
  · rw [bitCountChecked_eq hlen hrange, bitCount_eq]
  · intro data key hsource
    rw [cmdBitcount_eq range hsource, bitCount_eq]

theorem bitCount_counts_ends : bitCountChecked [128, 1] (some ⟨-2 ^ 63, 2 ^ 63 - 1, .bit⟩) = some 2 ∧
    bitCountChecked [128, 1] (some ⟨-1, 2 ^ 63 - 1, .byte⟩) = some 1 :=
  ⟨(bitCount_counts (by decide) (by intro r hr; cases hr; decide)).1,
    (bitCount_counts (by decide) (by intro r hr; cases hr; decide)).1⟩

end

end BitOps

end Redis
