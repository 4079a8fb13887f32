import Mathlib.Data.List.Induction
import Redis.RdbFormat

/-!
# What is read of the database file

Each reader takes the bytes of what it reads and no others, so that a file comes
to the records that are in it. Of a string that is true if it has one of the
encodings that `parse_string` knows.
-/

namespace Redis

open Lib Lib.Reader

/-! ## Integers -/

theorem length_toLeBytes (k n : Nat) : (toLeBytes k n).length = k := by
  induction k generalizing n with
  | zero => rfl
  | succ k ih => simp [toLeBytes, ih]

theorem fromLeBytes_toLeBytes (k n : Nat) : fromLeBytes (toLeBytes k n) = n % 2 ^ (8 * k) := by
  induction k generalizing n with
  | zero => simp [toLeBytes, fromLeBytes, Nat.mod_one]
  | succ k ih =>
    have hbyte : (UInt8.ofNat (n % 256)).toNat = n % 256 := UInt8.toNat_ofNat_of_lt' (Nat.mod_lt _ (by decide))
    have hpow : 2 ^ (8 * (k + 1)) = 256 * 2 ^ (8 * k) := by
      rw [Nat.mul_add, Nat.pow_add, Nat.mul_comm]
    simp only [toLeBytes, fromLeBytes, ih, hbyte]
    rw [hpow, Nat.mod_mul]

theorem fromBeBytes_toBeBytes (k n : Nat) : fromBeBytes (toBeBytes k n) = n % 2 ^ (8 * k) := by
  unfold fromBeBytes toBeBytes
  rw [List.reverse_reverse, fromLeBytes_toLeBytes]

theorem length_signedLeBytes (k : Nat) (i : Int) : (signedLeBytes k i).length = k := length_toLeBytes k _

theorem fromLeBytes_signed (k : Nat) (i : Int) : (fromLeBytes (signedLeBytes k i) : Int) = i % (2 ^ (8 * k) : Nat) := by
  have hpos : (0 : Int) < (2 ^ (8 * k) : Nat) := Int.natCast_pos.mpr (Nat.two_pow_pos _)
  have hnonneg := Int.emod_nonneg i (ne_of_gt hpos)
  have hlt := Int.emod_lt_of_pos i hpos
  unfold signedLeBytes
  rw [fromLeBytes_toLeBytes, Nat.mod_eq_of_lt (by omega), Int.toNat_of_nonneg hnonneg]

theorem bmod_signed {k : Nat} {i : Int} (hlow : -2 ^ (8 * k + 7) ≤ i) (hhigh : i < 2 ^ (8 * k + 7)) :
    (fromLeBytes (signedLeBytes (k + 1) i) : Int).bmod (2 ^ (8 * (k + 1))) = i := by
  have hpow : (2 : Int) ^ (8 * (k + 1)) = 2 * 2 ^ (8 * k + 7) := by
    rw [← pow_succ']
    rfl
  rw [fromLeBytes_signed, Int.emod_bmod]
  apply Int.bmod_eq_of_le
  · push_cast
    rw [hpow]
    omega
  · push_cast
    rw [hpow]
    omega

namespace Rdb

/-! ## What a reader takes -/

section
variable {α : Type}

theorem takes_readExact {n : Nat} {bytes : Bytes} (h : bytes.length = n) : Takes (readExact n) bytes bytes := by
  intro rest
  unfold readExact
  rw [if_pos (by simp [h]), ← h, List.take_left, List.drop_left]

theorem takes_expectExact {n : Nat} {bytes : Bytes} (h : bytes.length = n) : Takes (expectExact n) bytes bytes := by
  intro rest
  unfold expectExact
  rw [if_pos (by simp [h]), ← h, List.take_left, List.drop_left]

theorem takes_readByte (b : UInt8) : Takes readByte [b] b := by
  have hone : Takes (readExact 1) [b] [b] := takes_readExact rfl
  exact hone.map (takes_pure b)

theorem takes_text (s : String) : Takes (text (utf8 s)) [] s := by
  intro rest
  unfold text
  rw [fromUtf8_utf8]
  rfl

/-! ## Lengths -/

theorem takes_parseLength (l : Length) : Takes parseLength l.bytes l.value := by
  cases l with
  | short n =>
    have hbits : ∀ n : Fin (2 ^ 6), UInt8.ofNat n &&& 0b11000000 = 0b00000000 := by decide
    have hvalue : (UInt8.ofNat n).toNat = n := UInt8.toNat_ofNat_of_lt' (show (n : Nat) < 256 by omega)
    refine (takes_readByte _).map ?_
    simp only [hbits n, hvalue]
    exact takes_pure _
  | medium n =>
    have hbits : ∀ h : Fin (2 ^ 6), UInt8.ofNat (0b01000000 + h) &&& 0b11000000 = 0b01000000 := by decide
    have hhigh : ∀ h : Fin (2 ^ 6), (UInt8.ofNat (0b01000000 + h) &&& 0b00111111).toNat = h := by decide
    have hlow : (UInt8.ofNat (n % 256)).toNat = n % 256 := UInt8.toNat_ofNat_of_lt' (Nat.mod_lt _ (by decide))
    have hupper : (n : Nat) / 256 < 2 ^ 6 := by omega
    have hbits := hbits ⟨_, hupper⟩
    have hhigh := hhigh ⟨_, hupper⟩
    refine (takes_readByte _).cons ?_
    simp only at hbits hhigh
    simp only [hbits]
    refine (takes_readByte _).map ?_
    rw [hhigh, hlow, Nat.mul_comm, Nat.div_add_mod]
    exact takes_pure _
  | long pad n =>
    have hbits : ∀ pad : Fin (2 ^ 6), UInt8.ofNat (0b10000000 + pad) &&& 0b11000000 = 0b10000000 := by decide
    have hfour : Takes (readExact 4) (toBeBytes 4 n) (toBeBytes 4 n) :=
      takes_readExact (by rw [toBeBytes, List.length_reverse, length_toLeBytes])
    have hvalue : fromBeBytes (toBeBytes 4 n) = n := by
      rw [fromBeBytes_toBeBytes]
      exact Nat.mod_eq_of_lt n.isLt
    refine (takes_readByte _).cons ?_
    simp only [hbits pad]
    refine hfour.map ?_
    rw [hvalue]
    exact takes_pure _

/-! ## Strings -/

theorem takes_parseString_raw {s : String} (h : (utf8 s).length < 2 ^ 6) :
    Takes parseString (UInt8.ofNat (utf8 s).length :: utf8 s) s := by
  have hbits : ∀ n : Fin (2 ^ 6), UInt8.ofNat n &&& 0b11000000 = 0b00000000 ∧
      (UInt8.ofNat n &&& 0b00111111).toNat = n := by
    decide
  obtain ⟨hupper, hlower⟩ := hbits ⟨_, h⟩
  refine (takes_readByte _).cons ?_
  rw [if_pos hupper, hlower]
  exact (takes_readExact rfl).map (takes_text s)

theorem takes_parseString_int8 (i : Int) :
    Takes parseString (0xC0 :: signedLeBytes 1 i) (toString (i % 256).toNat) := by
  have hlt : (i % 256).toNat < 256 := by omega
  have hbyte : signedLeBytes 1 i = [UInt8.ofNat (i % 256).toNat] := by
    unfold signedLeBytes toLeBytes toLeBytes
    simp only [Nat.mul_one, Nat.reducePow, Nat.cast_ofNat, Nat.mod_eq_of_lt hlt]
  have hvalue : (UInt8.ofNat (i % 256).toNat).toNat = (i % 256).toNat := UInt8.toNat_ofNat_of_lt' hlt
  rw [hbyte]
  refine (takes_readByte _).bind ((takes_readByte _).map ?_)
  rw [hvalue]
  exact takes_pure _

theorem takes_parseString_int16 {i : Int} (h : -2 ^ 15 ≤ i ∧ i < 2 ^ 15) :
    Takes parseString (0xC1 :: signedLeBytes 2 i) (toString i) := by
  have hvalue : (fromLeBytes (signedLeBytes 2 i) : Int).bmod (2 ^ 16) = i := bmod_signed (k := 1) h.1 h.2
  have htwo : Takes (readExact 2) (signedLeBytes 2 i) (signedLeBytes 2 i) := takes_readExact (length_signedLeBytes 2 i)
  refine (takes_readByte _).bind (htwo.map ?_)
  rw [hvalue]
  exact takes_pure _

theorem takes_parseString_int32 {i : Int} (h : -2 ^ 31 ≤ i ∧ i < 2 ^ 31) :
    Takes parseString (0xC2 :: signedLeBytes 4 i) (toString i) := by
  have hvalue : (fromLeBytes (signedLeBytes 4 i) : Int).bmod (2 ^ 32) = i := bmod_signed (k := 3) h.1 h.2
  have hfour : Takes (readExact 4) (signedLeBytes 4 i) (signedLeBytes 4 i) := takes_readExact (length_signedLeBytes 4 i)
  refine (takes_readByte _).bind (hfour.map ?_)
  rw [hvalue]
  exact takes_pure _

theorem Text.Known.takes {t : Text} (h : t.Known) : Takes parseString t.bytes t.string := by
  cases t with
  | raw length s hlen =>
    cases length with
    | short n =>
      have hn : (n : Nat) = (utf8 s).length := hlen.symm
      have htake := takes_parseString_raw (s := s) (by omega)
      rw [← hn] at htake
      exact htake
    | medium | long => cases h
  | int8 i hi =>
    have hnonneg : 0 ≤ i := h
    have hvalue : toString (i % 256).toNat = toString i := by
      rw [Int.emod_eq_of_lt hnonneg (by omega)]
      obtain ⟨n, rfl⟩ := Int.eq_ofNat_of_zero_le hnonneg
      rfl
    have htake := takes_parseString_int8 i
    rw [hvalue] at htake
    exact htake
  | int16 i hi => exact takes_parseString_int16 hi
  | int32 i hi => exact takes_parseString_int32 hi

theorem parseString_other {b : UInt8} (hupper : b &&& 0b11000000 ≠ 0b00000000) (hint : b ≠ 0xC0 ∧ b ≠ 0xC1 ∧ b ≠ 0xC2)
    (buf : Bytes) : parseString (b :: buf) = some (.error .rdbParsingError) := by
  have hbyte : readByte (b :: buf) = some (.ok (b, buf)) := takes_readByte b buf
  unfold parseString
  rw [bind_apply, hbyte]
  simp only [if_neg hupper]
  split
  · exact absurd rfl hint.1
  · exact absurd rfl hint.2.1
  · exact absurd rfl hint.2.2
  · rfl

theorem toString_neg_ne {i : Int} (h : i < 0) (n : Nat) : toString n ≠ toString i := by
  intro heq
  cases i with
  | ofNat m => exact absurd h (by simp)
  | negSucc m =>
    have hs : toString (Int.negSucc m) = "-" ++ toString (m + 1) := rfl
    have hminus : '-' ∈ (toString n).toList := by
      rw [heq, hs, String.toList_append]
      simp
    exact not_mem_toString (by decide) n hminus

theorem Text.parseString_unknown {t : Text} (h : ¬ t.Known) (rest : Bytes) :
    parseString (t.bytes ++ rest) ≠ some (.ok (t.string, rest)) := by
  intro hok
  cases t with
  | raw length s hlen =>
    cases length with
    | short => exact h trivial
    | medium n =>
      have hbits : ∀ m : Fin (2 ^ 6), UInt8.ofNat (0b01000000 + m) &&& 0b11000000 ≠ 0b00000000 ∧
          UInt8.ofNat (0b01000000 + m) ≠ 0xC0 ∧ UInt8.ofNat (0b01000000 + m) ≠ 0xC1 ∧
              UInt8.ofNat (0b01000000 + m) ≠ 0xC2 := by
        decide
      obtain ⟨hupper, hint⟩ := hbits ⟨n / 256, by omega⟩
      have herror := parseString_other hupper hint (UInt8.ofNat (n % 256) :: (utf8 s ++ rest))
      cases herror.symm.trans hok
    | long pad n =>
      have hbits : ∀ pad : Fin (2 ^ 6), UInt8.ofNat (0b10000000 + pad) &&& 0b11000000 ≠ 0b00000000 ∧
          UInt8.ofNat (0b10000000 + pad) ≠ 0xC0 ∧ UInt8.ofNat (0b10000000 + pad) ≠ 0xC1 ∧
          UInt8.ofNat (0b10000000 + pad) ≠ 0xC2 := by decide
      obtain ⟨hupper, hint⟩ := hbits pad
      have herror := parseString_other hupper hint (toBeBytes 4 n ++ utf8 s ++ rest)
      cases herror.symm.trans hok
  | int8 i hi =>
    have hneg : i < 0 := Int.not_le.mp h
    rw [show (Text.int8 i hi).bytes = 0xC0 :: signedLeBytes 1 i from rfl, takes_parseString_int8 i rest] at hok
    have hpair := Except.ok.inj (Option.some.inj hok)
    exact toString_neg_ne hneg _ (Prod.mk.inj hpair).1
  | int16 => exact h trivial
  | int32 => exact h trivial

/-- A string is read, and its bytes are consumed, if it has one of the encodings that
are known. -/
theorem parseString_iff (t : Text) (rest : Bytes) :
    parseString (t.bytes ++ rest) = some (.ok (t.string, rest)) ↔ t.Known := by
  constructor
  · intro hok
    by_contra hno
    exact t.parseString_unknown hno rest hok
  · intro h
    exact h.takes rest

/-- The byte of -1 is read as 255. -/
theorem minus_one_misread : ¬ ∀ (t : Text)
    (rest : Bytes), parseString (t.bytes ++ rest) = some (.ok (t.string, rest)) := by
  intro hall
  have hread := hall (.int8 (-1) (by decide)) []
  have hactual : parseString [0xC0, 0xFF] = some (.ok ("255", [])) := rfl
  have hpair := Except.ok.inj (Option.some.inj (hactual.symm.trans hread))
  exact absurd (Prod.mk.inj hpair).1 (by decide)

/-! ## Files -/

theorem ShortText.takes (t : ShortText) : Takes parseString t.text.bytes t.string :=
  Text.Known.takes (t := t.text) trivial

theorem takes_parseTypeString (key value : ShortText) :
    Takes parseTypeString (0x00 :: (key.text.bytes ++ value.text.bytes)) (key.string, value.string) := by
  refine (takes_readByte 0x00).bind (key.takes.bind ?_)
  exact value.takes.map (takes_pure _)

theorem takes_parseExpMs (ms : Fin (2 ^ 64)) : Takes parseExpMs (toLeBytes 8 ms) ms := by
  have height : Takes (readExact 8) (toLeBytes 8 ms) (toLeBytes 8 ms) := takes_readExact (length_toLeBytes 8 _)
  refine height.map ?_
  rw [fromLeBytes_toLeBytes, Nat.mod_eq_of_lt ms.isLt]
  exact takes_pure _

def Section.turn (s : Section) : Turn :=
  match s.record with
  | some r => .record r
  | none => .skipped

theorem takes_turn {opcode : UInt8} {bytes : Bytes} {t : Turn} (h : Takes (turnOf opcode) bytes t) :
    Takes turn (opcode :: bytes) t := by
  have hone : Takes (expectExact 1) [opcode] [opcode] := takes_expectExact rfl
  exact hone.bind h

theorem Section.takes (s : Section) : Takes Rdb.turn s.bytes s.turn := by
  cases s with
  | aux key value h =>
    apply takes_turn
    exact key.takes.bind (h.takes.map (takes_pure _))
  | select db =>
    apply takes_turn
    exact (takes_parseLength db).map (takes_pure _)
  | resize size expires =>
    apply takes_turn
    exact (takes_parseLength size).bind ((takes_parseLength expires).map (takes_pure _))
  | plain key value =>
    apply takes_turn
    exact key.takes.bind (value.takes.map (takes_pure _))
  | expiring ms key value =>
    apply takes_turn
    exact (takes_parseExpMs ms).bind ((takes_parseTypeString key value).map (takes_pure _))

theorem takes_eof : Takes Rdb.turn [0xFF] .eof := takes_turn (takes_pure _)

theorem records_sections (trailer : Bytes) : ∀ (sections : List Section) {fuel : Nat}, sections.length < fuel →
    records fuel (sections.flatMap Section.bytes ++ 0xFF :: trailer) =
      some (.ok (sections.filterMap Section.record, trailer))
  | [], fuel + 1, _ => by
    rw [records, bind_eq_ok]
    exact ⟨.eof, trailer, takes_eof trailer, rfl⟩
  | s :: sections, fuel + 1, h => by
    have ih := records_sections trailer sections (Nat.lt_of_succ_lt_succ h)
    rw [List.flatMap_cons, List.append_assoc, records, bind_eq_ok]
    refine ⟨s.turn, _, s.takes _, ?_⟩
    unfold Section.turn
    cases hr : s.record with
    | none =>
      rw [List.filterMap_cons_none hr]
      exact ih
    | some r =>
      rw [List.filterMap_cons_some hr]
      exact bind_eq_ok.mpr ⟨_, _, ih, rfl⟩

theorem Section.bytes_pos (s : Section) : 0 < s.bytes.length := by cases s <;> exact Nat.succ_pos _

theorem length_sections_le (sections : List Section) : sections.length ≤ (sections.flatMap Section.bytes).length := by
  induction sections with
  | nil => exact Nat.zero_le _
  | cons s sections ih =>
    have := s.bytes_pos
    simp only [List.flatMap_cons, List.length_cons, List.length_append]
    omega

theorem takes_header {magic version : Bytes} (hm : magic.length = 5) (hv : version.length = 4) :
    Takes header (magic ++ version) () :=
  (takes_expectExact hm).bind ((takes_expectExact hv).map (takes_pure _))

theorem File.holds (f : File) : Holds f.bytes f.records := by
  have hfuel : f.sections.length < f.bytes.length + 1 := by
    have := length_sections_le f.sections
    simp only [File.bytes, List.length_append]
    omega
  refine ⟨f.trailer, bind_eq_ok.mpr ⟨(), _, ?_, records_sections f.trailer f.sections hfuel⟩⟩
  unfold File.bytes
  rw [← List.append_assoc]
  exact takes_header f.magicLength f.versionLength _

theorem lastRecord_snoc (rs : List Record) (r : Record) (key : String) :
    lastRecord (rs ++ [r]) key = if r.key = key then some r else lastRecord rs key := by
  unfold lastRecord
  rw [List.filter_append]
  by_cases h : r.key = key
  · simp [h]
  · simp [h]

theorem lookup_records (rs : List Record) (key : String) :
    (rs.foldl insertRecord ∅).lookup key = (lastRecord rs key).map Record.item := by
  induction rs using List.reverseRecOn with
  | nil => exact AList.lookup_empty key
  | append_singleton rs r ih =>
    rw [List.foldl_append, lastRecord_snoc, List.foldl_cons, List.foldl_nil, insertRecord]
    by_cases h : r.key = key
    · rw [if_pos h, ← h, AList.lookup_insert, Option.map_some]
    · rw [if_neg h, AList.lookup_insert_ne (Ne.symm h), ih]

/-- A file comes to the map in which each key has the value and the expiry of its last
record. -/
theorem read_file (f : File) :
    ∃ data, read f.bytes = some (.ok data) ∧ ∀ key, data.lookup key = (lastRecord f.records key).map Record.item :=
  ⟨_, f.holds.read, lookup_records f.records⟩

end

end Rdb

end Redis
