import Redis.Effects
import Redis.Lib.Bits

/-!
# Bits of a key

SETBIT changes one bit of the bits a key has. How long it leaves the bitmap
depends on more: a bitmap is made long enough for the offset whatever the bit,
but is made longer only for a bit that is set.
-/

namespace Redis

open Lib

/-! ## Bits of a map -/

namespace BitOps

section
variable {map map' : Bytes} {o p : Nat} {v : BitValue}

theorem set_ok_iff : (∃ map', set map o v = .ok map') ↔ o / 8 < map.length := by
  unfold set
  by_cases h : o / 8 < map.length
  · rw [List.getElem?_eq_getElem h]
    cases v <;> simp [h]
  · rw [List.getElem?_eq_none_iff.mpr (Nat.le_of_not_lt h)]
    simp [h]

theorem set_length (h : set map o v = .ok map') : map'.length = map.length := by
  unfold set at h
  split at h
  · cases h
  · split at h <;> cases h <;> exact List.length_set

theorem set_bits (h : set map o v = .ok map') (p : Nat) :
    bitAt map' p = if p = o then decide (v = .one) else bitAt map p := by
  unfold set at h
  split at h
  · cases h
  · rename_i b hb
    split at h
    · cases h
      exact bitAt_set_or hb p
    · cases h
      exact bitAt_set_and hb p

end

end BitOps

namespace CmdHandler

section
variable {map map' : Bytes} {o p bit : Nat}

theorem bitOf_eq (map : Bytes) (p : Nat) : bitOf map p = (bitAt map p).toNat := by
  unfold bitOf BitOps.get
  cases h : map[p / 8]? with
  | none => simp [bitAt_of_le (List.getElem?_eq_none_iff.mp h)]
  | some b =>
    have hbit : bitAt map p = b.toNat.testBit (7 - p % 8) := by
      unfold bitAt
      rw [byteAt_of_getElem? h]
    rw [hbit]
    by_cases hm : b &&& BitOps.mask p ≠ 0
    · simp only [if_pos hm, (bitAt_mask b p).mp hm]
      rfl
    · have hzero : b.toNat.testBit (7 - p % 8) = false := Bool.eq_false_iff.mpr fun ht => hm ((bitAt_mask b p).mpr ht)
      simp only [if_neg hm, hzero]
      rfl

def bytesFor (o : Nat) : Nat := divCeil ((1 + o) % 2 ^ 64) 8

/-- No bytes are made for the last offset. -/
theorem bytesFor_eq (h : o < 2 ^ 64) : bytesFor o = if 1 + o = 2 ^ 64 then 0 else o / 8 + 1 := by
  unfold bytesFor divCeil
  by_cases hlast : 1 + o = 2 ^ 64
  · rw [if_pos hlast, hlast, Nat.mod_self]
  · rw [if_neg hlast, Nat.mod_eq_of_lt (by omega)]
    omega

theorem bytesFor_le (h : o < 2 ^ 64) : bytesFor o ≤ o / 8 + 1 := by
  rw [bytesFor_eq h]
  split
  · exact Nat.zero_le _
  · exact le_refl _

theorem length_new (o : Nat) : (Bitmap.new ((1 + o) % 2 ^ 64)).length = bytesFor o := List.length_replicate

theorem bitAt_new (n p : Nat) : bitAt (Bitmap.new n) p = false := bitAt_replicate _ p

theorem length_extend (map : Bytes) (o : Nat) : (Bitmap.extend map o).length = max map.length (bytesFor o) := by
  unfold Bitmap.extend bytesFor
  rw [List.length_append, List.length_replicate]
  omega

theorem bitAt_extend (map : Bytes) (o p : Nat) : bitAt (Bitmap.extend map o) p = bitAt map p :=
  bitAt_append_zeros map _ p

/-! ## One SETBIT -/

def putBit (map : Bytes) (o bit : Nat) : Bytes :=
  if bitOf map o ≠ bit then
    match setBit map o bit with
    | .ok map => map
    | .error _ => map
  else map

theorem tryFrom_bit (b : Bool) : BitValue.tryFrom b.toNat = .ok (if b then .one else .zero) := by cases b <;> rfl

theorem setBit_cases (map : Bytes) (o : Nat) (b : Bool) :
    o / 8 < max map.length (bytesFor o) ∧ (∃ map', setBit map o b.toNat = .ok map' ∧
        (map'.length = if o / 8 < map.length then map.length else max map.length (bytesFor o)) ∧
        ∀ p, bitAt map' p = if p = o then b else bitAt map p) ∨
      max map.length (bytesFor o) ≤ o / 8 ∧ ∃ e, setBit map o b.toNat = .error e := by
  have hone : ∀ v : BitValue, v = (if b then .one else .zero) → decide (v = .one) = b := by
    rintro v rfl
    cases b <;> rfl
  unfold setBit
  rw [tryFrom_bit]
  simp only [bind, Except.bind]
  by_cases hin : o / 8 < map.length
  · obtain ⟨map', hset⟩ := (BitOps.set_ok_iff (v := if b then .one else .zero)).mpr hin
    refine .inl ⟨lt_of_lt_of_le hin (le_max_left _ _), map', ?_, ?_, fun p => ?_⟩
    · rw [hset]
      rfl
    · rw [if_pos hin, BitOps.set_length hset]
    · rw [BitOps.set_bits hset, hone _ rfl]
  · have hfail : ∃ e, BitOps.set map o (if b then .one else .zero) = .error e := by
      cases hset : BitOps.set map o (if b then .one else .zero) with
      | error e => exact ⟨e, rfl⟩
      | ok map' => exact absurd (BitOps.set_ok_iff.mp ⟨map', hset⟩) hin
    obtain ⟨e, he⟩ := hfail
    rw [he]
    simp only
    by_cases hroom : o / 8 < max map.length (bytesFor o)
    · obtain ⟨map', hset⟩ := (BitOps.set_ok_iff (v := if b then .one else .zero)).mpr
        (show o / 8 < (Bitmap.extend map o).length by rw [length_extend]; exact hroom)
      refine .inl ⟨hroom, map', hset, ?_, fun p => ?_⟩
      · rw [if_neg hin, BitOps.set_length hset, length_extend]
      · rw [BitOps.set_bits hset, hone _ rfl, bitAt_extend]
    · refine .inr ⟨Nat.le_of_not_lt hroom, ?_⟩
      cases hset : BitOps.set (Bitmap.extend map o) o (if b then .one else .zero) with
      | error e => exact ⟨e, rfl⟩
      | ok map' =>
        have hlt := BitOps.set_ok_iff.mp ⟨map', hset⟩
        rw [length_extend] at hlt
        exact absurd hlt hroom

theorem length_putBit (map : Bytes) (ho : o < 2 ^ 64) (b : Bool) :
    (putBit map o b.toNat).length = if b then max map.length (bytesFor o) else map.length := by
  have hle : bytesFor o ≤ o / 8 + 1 := bytesFor_le ho
  unfold putBit
  by_cases hsame : bitOf map o ≠ b.toNat
  · rw [if_pos hsame]
    rw [bitOf_eq] at hsame
    rcases setBit_cases map o b with ⟨_, map', hmap', hlen, _⟩ | ⟨hno, e, he⟩
    · simp only [hmap', hlen]
      by_cases hin : o / 8 < map.length
      · rw [if_pos hin, max_eq_left (le_trans hle hin), ite_self]
      · -- the bit past the end is not set, so it is now
        rw [bitAt_of_le (Nat.le_of_not_lt hin)] at hsame
        have hb : b = true := by
          cases b
          · exact absurd rfl hsame
          · rfl
        rw [if_neg hin, if_pos hb]
    · simp only [he]
      have hnone : bytesFor o = 0 := by
        rw [bytesFor_eq ho] at hno ⊢
        split at hno
        · rw [if_pos ‹_›]
        · omega
      rw [hnone, max_eq_left (Nat.zero_le _), ite_self]
  · rw [if_neg hsame]
    rw [bitOf_eq, not_not] at hsame
    by_cases hb : b = true
    · rw [if_pos hb]
      -- the bit is set, so the map reaches as far
      have hin : o / 8 < map.length := by
        by_contra hno
        rw [bitAt_of_le (Nat.le_of_not_lt hno), hb] at hsame
        cases hsame
      rw [max_eq_left (le_trans hle hin)]
    · rw [if_neg hb]

/-- The bit is as it was asked for, unless it is to be set where no room is made. -/
theorem bitAt_putBit (map : Bytes) (o p : Nat) (b : Bool) : bitAt (putBit map o b.toNat) p =
    if p = o ∧ (b = true → o / 8 < max map.length (bytesFor o)) then b else bitAt map p := by
  unfold putBit
  by_cases hsame : bitOf map o ≠ b.toNat
  · rw [if_pos hsame]
    rw [bitOf_eq] at hsame
    rcases setBit_cases map o b with ⟨hroom, map', hmap', _, hbits⟩ | ⟨hno, e, he⟩
    · simp only [hmap', hbits p, hroom, implies_true, and_true]
    · simp only [he]
      by_cases hp : p = o
      · subst hp
        have hout : bitAt map p = false := bitAt_of_le (le_trans (le_max_left _ _) hno)
        have hb : b = true := by
          rw [hout] at hsame
          cases b
          · exact absurd rfl hsame
          · rfl
        have hnot : ¬ (p = p ∧ (b = true → p / 8 < max map.length (bytesFor p))) :=
          fun h => absurd (h.2 hb) (Nat.not_lt_of_le hno)
        rw [if_neg hnot]
      · simp [hp]
  · rw [if_neg hsame]
    rw [bitOf_eq, not_not] at hsame
    have hbit : bitAt map o = b := by
      cases hb : bitAt map o <;> cases b <;> simp_all
    by_cases hp : p = o
    · subst hp
      rw [hbit, ite_self]
    · simp [hp]

/-- The bitmap of a key: there may be no key. -/
inductive Bitmapped (data : Data) (key : String) : Bytes → Prop
  | absent : key ∉ data → Bitmapped data key []
  | stored {map x} : data.lookup key = some ⟨.bitmap map, x⟩ → Bitmapped data key map

variable {data data' : Data} {key : String} {r : CmdResult}

theorem cmdGetbit_eq (h : Bitmapped data key map) (p : Nat) :
    cmdGetbit data key p = reply (.integer (some (bitAt map p).toNat)) := by
  unfold cmdGetbit
  cases h with
  | absent hk =>
    rw [AList.lookup_eq_none.mpr hk, bitAt_of_le (Nat.zero_le _)]
    rfl
  | stored hl =>
    rw [hl]
    simp only [bytesOf, bitOf_eq]

theorem cmdSetbit_stored {x : Option Nat} (hl : (HashMap.orInsert key
      { value := .bitmap (Bitmap.new ((1 + o) % 2 ^ 64)), expiredAt := none } data).lookup key =
        some ⟨.bitmap map, x⟩) :
    (cmdSetbit data key o bit).1.lookup key = some ⟨.bitmap (putBit map o bit), x⟩ ∧
      ∀ k, k ≠ key → (cmdSetbit data key o bit).1.lookup k = data.lookup k := by
  unfold cmdSetbit putBit
  simp only [hl]
  by_cases hbit : bitOf map o ≠ bit
  · simp only [if_pos hbit]
    cases setBit map o bit with
    | ok map' =>
      refine ⟨by simp only [HashMap.lookup_modify, hl, Option.map_some], fun k hk => ?_⟩
      simp only [lookup_modify_other hk, lookup_orInsert_other hk]
    | error e => exact ⟨hl, fun k hk => lookup_orInsert_other hk _⟩
  · simp only [if_neg hbit]
    exact ⟨hl, fun k hk => lookup_orInsert_other hk _⟩

def startOf (data : Data) (key : String) (map : Bytes) (o : Nat) : Bytes :=
  if key ∈ data then map else Bitmap.new ((1 + o) % 2 ^ 64)

theorem bitAt_startOf (h : Bitmapped data key map) (o p : Nat) : bitAt (startOf data key map o) p = bitAt map p := by
  unfold startOf
  cases h with
  | absent hk => rw [if_neg hk, bitAt_new, bitAt_of_le (Nat.zero_le _)]
  | stored hl => rw [if_pos (HashMap.mem_of_lookup hl)]

theorem cmdSetbit_lookup (h : Bitmapped data key map) (o bit : Nat) :
    ∃ x, (∀ x', data.lookup key = some ⟨.bitmap map, x'⟩ → x = x') ∧ (key ∉ data → x = none) ∧
      (cmdSetbit data key o bit).1.lookup key = some ⟨.bitmap (putBit (startOf data key map o) o bit), x⟩ ∧
      ∀ k, k ≠ key → (cmdSetbit data key o bit).1.lookup k = data.lookup k := by
  unfold startOf
  cases h with
  | absent hk =>
    rw [if_neg hk]
    have hnone : data.lookup key = none := AList.lookup_eq_none.mpr hk
    exact ⟨none, fun x' hx => by (rw [hnone] at hx; cases hx), fun _ => rfl,
      cmdSetbit_stored (lookup_orInsert_absent hk _)⟩
  | @stored map x hl =>
    have hk : key ∈ data := HashMap.mem_of_lookup hl
    rw [if_pos hk]
    refine ⟨x, fun x' hx => ?_, fun hno => absurd hk hno, cmdSetbit_stored (by rw [orInsert_known hk]; exact hl)⟩
    rw [hl] at hx
    cases hx
    rfl

theorem Bitmapped.setbit (h : Bitmapped data key map) (o bit : Nat) :
    Bitmapped (cmdSetbit data key o bit).1 key (putBit (startOf data key map o) o bit) := by
  obtain ⟨x, _, _, hl, _⟩ := cmdSetbit_lookup h o bit
  exact .stored hl

theorem cmdSetbit_reply (h : Bitmapped data key map) (ho : 1 + o < 2 ^ 64) (b : Bool) :
    (cmdSetbit data key o b.toNat).2 = reply (.integer (some (bitAt map o).toNat)) := by
  have hstart : ∃ x, (HashMap.orInsert key { value := .bitmap (Bitmap.new ((1 + o) % 2 ^ 64)), expiredAt := none }
      data).lookup key = some ⟨.bitmap (startOf data key map o), x⟩ := by
    unfold startOf
    cases h with
    | absent hk =>
      rw [if_neg hk]
      exact ⟨none, lookup_orInsert_absent hk _⟩
    | @stored map x hl =>
      have hk : key ∈ data := HashMap.mem_of_lookup hl
      rw [if_pos hk, orInsert_known hk]
      exact ⟨x, hl⟩
  obtain ⟨x, hl⟩ := hstart
  unfold cmdSetbit
  simp only [hl]
  by_cases hbit : bitOf (startOf data key map o) o ≠ b.toNat
  · rw [if_pos hbit]
    rcases setBit_cases (startOf data key map o) o b with ⟨_, map', hmap', _⟩ | ⟨hno, _⟩
    · rw [hmap', bitOf_eq, bitAt_startOf h]
    · -- room is made for any offset but the last
      have hroom := le_trans (le_max_right _ _) hno
      rw [bytesFor_eq (by omega), if_neg (by omega)] at hroom
      omega
  · rw [if_neg hbit, bitOf_eq, bitAt_startOf h]

/-- SETBIT answers with the bit there was, and then reads find the new bit there and
what there was everywhere else. -/
theorem setbit_getbit (h : Bitmapped data key map) (ho : o < 2 ^ 64 - 1) (hbit : bit = 0 ∨ bit = 1) :
    (cmdSetbit data key o bit).2 = cmdGetbit data key o ∧
      cmdGetbit (cmdSetbit data key o bit).1 key o = reply (.integer (some bit)) ∧
      (∀ p, p ≠ o → cmdGetbit (cmdSetbit data key o bit).1 key p = cmdGetbit data key p) ∧
      ∀ k, k ≠ key → (cmdSetbit data key o bit).1.lookup k = data.lookup k := by
  obtain ⟨b, rfl⟩ : ∃ b : Bool, bit = b.toNat := by
    rcases hbit with rfl | rfl
    · exact ⟨false, rfl⟩
    · exact ⟨true, rfl⟩
  have hroom : o / 8 < max (startOf data key map o).length (bytesFor o) := by
    rw [bytesFor_eq (by omega), if_neg (by omega)]
    exact lt_of_lt_of_le (Nat.lt_succ_self _) (le_max_right _ _)
  obtain ⟨_, _, _, _, hother⟩ := cmdSetbit_lookup h o b.toNat
  refine ⟨?_, ?_, fun p hp => ?_, hother⟩
  · rw [cmdSetbit_reply h (by omega), cmdGetbit_eq h]
  · rw [cmdGetbit_eq (h.setbit o b.toNat), bitAt_putBit, if_pos ⟨rfl, fun _ => hroom⟩]
  · rw [cmdGetbit_eq (h.setbit o b.toNat), cmdGetbit_eq h, bitAt_putBit, if_neg fun hpo => hp hpo.1, bitAt_startOf h]

def oneByte : Data := AList.insert "k" ⟨.bitmap [1], none⟩ ∅

theorem oneByte_bitmapped : Bitmapped oneByte "k" [1] := .stored (AList.lookup_insert _)

theorem setbit_getbit_beyond : (cmdSetbit oneByte "k" 1000 1).2 = cmdGetbit oneByte "k" 1000 ∧
    cmdGetbit (cmdSetbit oneByte "k" 1000 1).1 "k" 1000 = reply (.integer (some 1)) ∧
    (∀ p, p ≠ 1000 → cmdGetbit (cmdSetbit oneByte "k" 1000 1).1 "k" p = cmdGetbit oneByte "k" p) ∧
    ∀ k, k ≠ "k" → (cmdSetbit oneByte "k" 1000 1).1.lookup k = oneByte.lookup k :=
  setbit_getbit oneByte_bitmapped (by decide) (.inr rfl)

/-! ## Two SETBITs -/

structure SameBitmap (data data' : Data) (key : String) : Prop where
  stored : data.lookup key = data'.lookup key
  strlen : cmdStrlen data key = cmdStrlen data' key
  get : ∀ now, cmdGet data key now = cmdGet data' key now

theorem sameBitmap_iff : SameBitmap data data' key ↔ data.lookup key = data'.lookup key := by
  refine ⟨SameBitmap.stored, fun h => ⟨h, ?_, fun now => ?_⟩⟩
  · unfold cmdStrlen
    rw [h]
  · unfold cmdGet
    rw [h]

/-- The two orders come to the same: the bitmap is there already, or neither offset
whose bit is zero needs more bytes than the other; and the last offset is not set
in a byte that only the other one makes. -/
structure Commute (data : Data) (key : String) (map : Bytes) (o₁ o₂ : Nat) (b₁ b₂ : Nat) : Prop where
  lengths : key ∈ data ∨ (b₁ = 0 → bytesFor o₁ ≤ bytesFor o₂) ∧ (b₂ = 0 → bytesFor o₂ ≤ bytesFor o₁)
  last : ¬ (b₁ = 1 ∧ b₂ = 1 ∧ o₁ / 8 = o₂ / 8 ∧ map.length ≤ o₁ / 8 ∧ (1 + o₁ = 2 ^ 64 ∨ 1 + o₂ = 2 ^ 64))

section
variable {o₁ o₂ : Nat} {b₁ b₂ : Bool}

theorem length_startOf (o : Nat) :
    (startOf data key map o).length = if key ∈ data then map.length else bytesFor o := by
  unfold startOf
  split
  · rfl
  · exact length_new o

theorem Bitmapped.length_absent (h : Bitmapped data key map) (hk : key ∉ data) : map.length = 0 := by
  cases h with
  | absent => rfl
  | stored hl => exact absurd (HashMap.mem_of_lookup hl) hk

def putTwo (data : Data) (key : String) (map : Bytes) (o₁ : Nat) (b₁ : Bool) (o₂ : Nat) (b₂ : Bool) : Bytes :=
  putBit (putBit (startOf data key map o₁) o₁ b₁.toNat) o₂ b₂.toNat

theorem cmdSetbit_twice (h : Bitmapped data key map) (o₁ o₂ : Nat) (b₁ b₂ : Bool) :
    ∃ x, (∀ x', data.lookup key = some ⟨.bitmap map, x'⟩ → x = x') ∧ (key ∉ data → x = none) ∧
      (cmdSetbit (cmdSetbit data key o₁ b₁.toNat).1 key o₂ b₂.toNat).1.lookup key =
        some ⟨.bitmap (putTwo data key map o₁ b₁ o₂ b₂), x⟩ := by
  obtain ⟨x, hx, hnone, hl, _⟩ := cmdSetbit_lookup h o₁ b₁.toNat
  obtain ⟨x', hx', _, hl', _⟩ := cmdSetbit_lookup (h.setbit o₁ b₁.toNat) o₂ b₂.toNat
  have hin : key ∈ (cmdSetbit data key o₁ b₁.toNat).1 := HashMap.mem_of_lookup hl
  have hstart : startOf (cmdSetbit data key o₁ b₁.toNat).1 key (putBit (startOf data key map o₁) o₁ b₁.toNat) o₂ =
      putBit (startOf data key map o₁) o₁ b₁.toNat := if_pos hin
  rw [hstart, hx' x hl] at hl'
  exact ⟨x, hx, hnone, hl'⟩

def lengthBefore (data : Data) (key : String) (map : Bytes) (o : Nat) (b : Bool) : Nat :=
  if key ∈ data then max map.length (if b then bytesFor o else 0) else bytesFor o

theorem length_first (ho : o₁ < 2 ^ 64) :
    (putBit (startOf data key map o₁) o₁ b₁.toNat).length = lengthBefore data key map o₁ b₁ := by
  unfold lengthBefore
  rw [length_putBit _ ho, length_startOf]
  by_cases hk : key ∈ data <;> cases b₁ <;> simp [hk]

theorem length_putTwo (ho₁ : o₁ < 2 ^ 64) (ho₂ : o₂ < 2 ^ 64) :
    (putTwo data key map o₁ b₁ o₂ b₂).length =
      max (lengthBefore data key map o₁ b₁) (if b₂ then bytesFor o₂ else 0) := by
  unfold putTwo
  rw [length_putBit _ ho₂, length_first ho₁]
  cases b₂ <;> simp

theorem bitAt_putTwo (h : Bitmapped data key map) (ho₁ : o₁ < 2 ^ 64) (p : Nat) :
    bitAt (putTwo data key map o₁ b₁ o₂ b₂) p =
      if p = o₂ ∧ (b₂ = true → o₂ / 8 < max (lengthBefore data key map o₁ b₁) (bytesFor o₂)) then b₂
      else if p = o₁ ∧ (b₁ = true → o₁ / 8 < max map.length (bytesFor o₁)) then b₁ else bitAt map p := by
  have hstart : max (startOf data key map o₁).length (bytesFor o₁) = max map.length (bytesFor o₁) := by
    rw [length_startOf]
    by_cases hk : key ∈ data
    · rw [if_pos hk]
    · rw [if_neg hk, h.length_absent hk, max_self, max_eq_right (Nat.zero_le _)]
  unfold putTwo
  rw [bitAt_putBit, bitAt_putBit, length_first ho₁, hstart, bitAt_startOf h]

theorem put_same {b m : Bool} {r r' : Prop} [Decidable r] [Decidable r'] (hr : ¬ r → m = false)
    (hr' : ¬ r' → m = false) :
    ((if b = true → r then b else m) = if b = true → r' then b else m) ↔ (b = true → (r ↔ r')) := by
  cases b with
  | false => simp
  | true =>
    by_cases h : r <;> by_cases h' : r' <;> simp [h, h']
    · exact hr' h'
    · exact hr h

theorem lengthBefore_ge (h : Bitmapped data key map) (o : Nat) (b : Bool) :
    map.length ≤ lengthBefore data key map o b := by
  unfold lengthBefore
  by_cases hk : key ∈ data
  · rw [if_pos hk]
    exact le_max_left _ _
  · rw [h.length_absent hk]
    exact Nat.zero_le _

theorem bits_swapped (h : Bitmapped data key map) (ho₁ : o₁ < 2 ^ 64) (ho₂ : o₂ < 2 ^ 64) (hne : o₁ ≠ o₂) :
    (∀ p, bitAt (putTwo data key map o₁ b₁ o₂ b₂) p = bitAt (putTwo data key map o₂ b₂ o₁ b₁) p) ↔
      (b₁ = true → (o₁ / 8 < max map.length (bytesFor o₁) ↔
        o₁ / 8 < max (lengthBefore data key map o₂ b₂) (bytesFor o₁))) ∧
      (b₂ = true → (o₂ / 8 < max (lengthBefore data key map o₁ b₁) (bytesFor o₂) ↔
        o₂ / 8 < max map.length (bytesFor o₂))) := by
  have hout : ∀ (o n : Nat) {len : Nat}, map.length ≤ len → ¬ o / 8 < max len n → bitAt map o = false :=
      fun _ _ _ hle hno =>
    bitAt_of_le (le_trans hle (le_trans (le_max_left _ _) (Nat.le_of_not_lt hno)))
  have hfirst := put_same (b := b₁) (hout o₁ (bytesFor o₁) (le_refl _))
    (hout o₁ (bytesFor o₁) (lengthBefore_ge h o₂ b₂))
  have hsecond := put_same (b := b₂) (hout o₂ (bytesFor o₂) (lengthBefore_ge h o₁ b₁))
    (hout o₂ (bytesFor o₂) (le_refl _))
  rw [← hfirst, ← hsecond]
  simp only [bitAt_putTwo h ho₁, bitAt_putTwo h ho₂]
  constructor
  · intro hall
    have h₁ := hall o₁
    have h₂ := hall o₂
    simp only [hne, hne.symm, false_and, true_and, if_false] at h₁ h₂
    exact ⟨h₁, h₂⟩
  · rintro ⟨h₁, h₂⟩ p
    by_cases hp₁ : p = o₁
    · subst hp₁
      simp only [hne, false_and, true_and, if_false]
      exact h₁
    · by_cases hp₂ : p = o₂
      · subst hp₂
        simp only [hp₁, false_and, true_and, if_false]
        exact h₂
      · simp only [hp₁, hp₂, false_and, if_false]

theorem putTwo_swapped (h : Bitmapped data key map) (ho₁ : o₁ < 2 ^ 64) (ho₂ : o₂ < 2 ^ 64) (hne : o₁ ≠ o₂) :
    putTwo data key map o₁ b₁ o₂ b₂ = putTwo data key map o₂ b₂ o₁ b₁ ↔
    Commute data key map o₁ o₂ b₁.toNat b₂.toNat := by
  have hparts : putTwo data key map o₁ b₁ o₂ b₂ = putTwo data key map o₂ b₂ o₁ b₁ ↔
      (putTwo data key map o₁ b₁ o₂ b₂).length = (putTwo data key map o₂ b₂ o₁ b₁).length ∧
        ∀ p, bitAt (putTwo data key map o₁ b₁ o₂ b₂) p = bitAt (putTwo data key map o₂ b₂ o₁ b₁) p := by
    constructor
    · intro heq
      rw [heq]
      exact ⟨rfl, fun _ => rfl⟩
    · exact fun hboth => eq_of_bitAt hboth.1 hboth.2
  have hcommute : Commute data key map o₁ o₂ b₁.toNat b₂.toNat ↔
      (key ∈ data ∨ (b₁.toNat = 0 → bytesFor o₁ ≤ bytesFor o₂) ∧ (b₂.toNat = 0 → bytesFor o₂ ≤ bytesFor o₁)) ∧
        ¬ (b₁.toNat = 1 ∧ b₂.toNat = 1 ∧ o₁ / 8 = o₂ / 8 ∧ map.length ≤ o₁ / 8 ∧ (1 + o₁ = 2 ^ 64 ∨ 1 + o₂ = 2 ^ 64)) :=
    ⟨fun h => ⟨h.lengths, h.last⟩, fun h => ⟨h.1, h.2⟩⟩
  have h₁ := bytesFor_eq ho₁
  have h₂ := bytesFor_eq ho₂
  have habsent := h.length_absent
  rw [hparts, hcommute, bits_swapped h ho₁ ho₂ hne, length_putTwo ho₁ ho₂, length_putTwo ho₂ ho₁]
  unfold lengthBefore
  generalize map.length = len at *
  generalize bytesFor o₁ = n₁ at *
  generalize bytesFor o₂ = n₂ at *
  by_cases hk : key ∈ data
  · simp only [hk, true_or, true_and, if_true]
    clear hparts hcommute
    cases b₁ <;> cases b₂ <;> simp
    all_goals split at h₁ <;> split at h₂ <;> omega
  · have hlen : len = 0 := habsent hk
    simp only [hk, false_or, if_false, hlen]
    clear hparts hcommute
    cases b₁ <;> cases b₂ <;> simp
    all_goals split at h₁ <;> split at h₂ <;> omega

theorem twice_eq_iff (h : Bitmapped data key map) :
    (cmdSetbit (cmdSetbit data key o₁ b₁.toNat).1 key o₂ b₂.toNat).1.lookup key =
        (cmdSetbit (cmdSetbit data key o₂ b₂.toNat).1 key o₁ b₁.toNat).1.lookup key ↔
      putTwo data key map o₁ b₁ o₂ b₂ = putTwo data key map o₂ b₂ o₁ b₁ := by
  obtain ⟨x, hx, hnone, hl⟩ := cmdSetbit_twice h o₁ o₂ b₁ b₂
  obtain ⟨x', hx', hnone', hl'⟩ := cmdSetbit_twice h o₂ o₁ b₂ b₁
  have hsame : x = x' := by
    cases h with
    | absent hk => rw [hnone hk, hnone' hk]
    | @stored _ d hd => rw [hx d hd, hx' d hd]
  rw [hl, hl', hsame]
  simp

/-- Two SETBITs on different offsets come to the same in both orders exactly under
`Commute`. -/
theorem setbit_commute_iff {c₁ c₂ : Nat} (h : Bitmapped data key map) (ho₁ : o₁ < 2 ^ 64) (ho₂ : o₂ < 2 ^ 64)
    (hne : o₁ ≠ o₂) (hc₁ : c₁ = 0 ∨ c₁ = 1) (hc₂ : c₂ = 0 ∨ c₂ = 1) :
    SameBitmap (cmdSetbit (cmdSetbit data key o₁ c₁).1 key o₂ c₂).1 (cmdSetbit (cmdSetbit data key o₂ c₂).1 key o₁ c₁).1
      key ↔ Commute data key map o₁ o₂ c₁ c₂ := by
  have hbool : ∀ {c : Nat}, c = 0 ∨ c = 1 → ∃ b : Bool, c = b.toNat := by
    rintro c (rfl | rfl)
    · exact ⟨false, rfl⟩
    · exact ⟨true, rfl⟩
  obtain ⟨b₁, rfl⟩ := hbool hc₁
  obtain ⟨b₂, rfl⟩ := hbool hc₂
  rw [sameBitmap_iff, twice_eq_iff h, putTwo_swapped h ho₁ ho₂ hne]

end

/-- A bit set to zero past the end does not make the bitmap longer, nor does it before. -/
theorem setbit_commute_stored : SameBitmap (cmdSetbit (cmdSetbit oneByte "k" 3 1).1 "k" 1000 0).1
    (cmdSetbit (cmdSetbit oneByte "k" 1000 0).1 "k" 3 1).1 "k" :=
  (setbit_commute_iff oneByte_bitmapped (by decide) (by decide) (by decide) (.inr rfl) (.inl rfl)).mpr
    ⟨.inl (AList.mem_insert _ |>.mpr (.inl rfl)), by decide⟩

/-- Without a key, the zero makes the bitmap longer if it comes first. -/
theorem setbit_orders_differ : ¬ SameBitmap (cmdSetbit (cmdSetbit ∅ "k" 100 0).1 "k" 0 1).1
    (cmdSetbit (cmdSetbit ∅ "k" 0 1).1 "k" 100 0).1 "k" := by
  intro h
  have hlong : cmdStrlen (cmdSetbit (cmdSetbit ∅ "k" 100 0).1 "k" 0 1).1 "k" = reply (.integer (some 13)) := rfl
  have hshort : cmdStrlen (cmdSetbit (cmdSetbit ∅ "k" 0 1).1 "k" 100 0).1 "k" = reply (.integer (some 1)) := rfl
  have hstrlen := h.strlen
  rw [hlong, hshort] at hstrlen
  cases hstrlen

/-! ## BITOP -/

def byteOp (and : Bool) (a b : UInt8) : UInt8 := if and then a &&& b else a ||| b

def bitOp (and : Bool) (a b : Bool) : Bool := if and then a && b else a || b

def bitopArg (and : Bool) (dest key1 key2 : String) : CmdArg := if and then .and dest key1 key2 else .or dest key1 key2

theorem testBit_byteOp (and : Bool) (a b : UInt8) (k : Nat) :
    (byteOp and a b).toNat.testBit k = bitOp and (a.toNat.testBit k) (b.toNat.testBit k) := by
  cases and <;> simp [byteOp, bitOp]

theorem byteAt_combine (and : Bool) (map1 map2 : Bytes) (i : Nat) :
    byteAt (BitOps.combine (byteOp and) map1 map2) i = byteOp and (byteAt map1 i) (byteAt map2 i) := by
  have hlen := BitOps.length_combine (byteOp and) map1 map2
  by_cases hi : i < max map1.length map2.length
  · apply byteAt_of_getElem?
    simp [BitOps.combine, byteAt, hi]
  · have hzero : byteOp and 0 0 = 0 := by cases and <;> rfl
    have h1 : byteAt map1 i = 0 := byteAt_of_le (by omega)
    have h2 : byteAt map2 i = 0 := byteAt_of_le (by omega)
    rw [h1, h2, hzero]
    exact byteAt_of_le (by omega)

theorem bitAt_combine (and : Bool) (map1 map2 : Bytes) (p : Nat) :
    bitAt (BitOps.combine (byteOp and) map1 map2) p = bitOp and (bitAt map1 p) (bitAt map2 p) := by
  unfold bitAt
  rw [byteAt_combine, testBit_byteOp]

theorem cmdBitop_eq (and : Bool) (data : Data) (dest key1 key2 : String) :
    cmdBitop data (bitopArg and dest key1 key2) = bitop (BitOps.combine (byteOp and)) data dest key1 key2 := by
  cases and <;> rfl

theorem getbit_source (h : bitopSource data key = .ok map) (p : Nat) :
    cmdGetbit data key p = reply (.integer (some (bitAt map p).toNat)) := by
  unfold bitopSource at h
  unfold cmdGetbit
  cases hl : data.lookup key with
  | none =>
    rw [hl] at h
    cases h
    rw [show bitAt [] p = false from bitAt_of_le (Nat.zero_le _)]
    rfl
  | some item =>
    rw [hl] at h
    simp only at h ⊢
    split at h
    · rename_i map' hmap'
      cases h
      simp only [bitOf_eq]
    · cases h

/-- Each bit of the destination is that of the sources, and nothing else changes. -/
structure Pointwise (and : Bool) (data data' : Data) (dest key1 key2 : String) (resp : Option RespType) : Prop where
  bits : ∀ i, ∃ a b : Bool, cmdGetbit data key1 i = reply (.integer (some a.toNat)) ∧
    cmdGetbit data key2 i = reply (.integer (some b.toNat)) ∧
    cmdGetbit data' dest i = reply (.integer (some (bitOp and a b).toNat))
  length : ∃ map1 map2, bitopSource data key1 = .ok map1 ∧ bitopSource data key2 = .ok map2 ∧
    resp = some (.integer (some (max map1.length map2.length : Nat))) ∧
    (dest ∈ data' ↔ 0 < max map1.length map2.length)
  others : ∀ k, k ≠ dest → data'.lookup k = data.lookup k

/-- BITOP combines the sources bit by bit, or fails and changes nothing. -/
theorem bitop_pointwise (and : Bool) (data : Data) (dest key1 key2 : String) :
    match cmdBitop data (bitopArg and dest key1 key2) with
    | (data', .ok resp) => Pointwise and data data' dest key1 key2 resp
    | (data', .error _) => data' = data := by
  rw [cmdBitop_eq]
  unfold bitop
  cases h1 : bitopSource data key1 with
  | error e => rfl
  | ok map1 =>
    cases h2 : bitopSource data key2 with
    | error e => rfl
    | ok map2 =>
      have hlen := BitOps.length_combine (byteOp and) map1 map2
      have hbits := bitAt_combine and map1 map2
      simp only
      generalize BitOps.combine (byteOp and) map1 map2 = output at *
      by_cases hempty : output.isEmpty = true
      · rw [if_pos hempty]
        have hzero : output.length = 0 := List.length_eq_zero_iff.mpr (List.isEmpty_iff.mp hempty)
        refine ⟨fun i => ⟨_, _, getbit_source h1 i, getbit_source h2 i, ?_⟩,
          ⟨map1, map2, h1, h2, by rw [hlen], ?_⟩, fun k hk => AList.lookup_erase_ne hk⟩
        · have hout : bitAt output i = false := bitAt_of_le (by omega)
          rw [← hbits, hout, cmdGetbit_eq (.absent fun hin => (AList.mem_erase.mp hin).1 rfl),
            bitAt_of_le (Nat.zero_le _)]
        · exact iff_of_false (fun hin => (AList.mem_erase.mp hin).1 rfl) (by omega)
      · rw [if_neg hempty]
        have hpos : output.length ≠ 0 := fun hz => hempty (List.isEmpty_iff.mpr (List.length_eq_zero_iff.mp hz))
        refine ⟨fun i => ⟨_, _, getbit_source h1 i, getbit_source h2 i, ?_⟩,
          ⟨map1, map2, h1, h2, by rw [hlen], ?_⟩, fun k hk => AList.lookup_insert_ne hk⟩
        · rw [← hbits, cmdGetbit_eq (.stored (AList.lookup_insert _))]
        · exact iff_of_true ((AList.mem_insert _).mpr (.inl rfl)) (by omega)

end

end CmdHandler

end Redis
