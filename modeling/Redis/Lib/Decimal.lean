import Mathlib.Algebra.Order.Ring.Nat
import Mathlib.Data.List.Basic

/-!
# Bytes, UTF-8 text and decimal integers

Byte strings are lists of `UInt8`, text is `String`. `utf8` and `fromUtf8` are
the two directions of the UTF-8 encoding, `parseUint` and `parseInt` read the
decimal integers of a fixed-width type: an optional sign, then ASCII digits,
then a bound.
-/

namespace Redis.Lib

abbrev Bytes := List UInt8

def utf8 (s : String) : Bytes := s.toByteArray.data.toList

def fromUtf8 (b : Bytes) : Option String := String.fromUTF8? ⟨⟨b⟩⟩

@[simp] theorem fromUtf8_utf8 (s : String) : fromUtf8 (utf8 s) = some s := by
  have h : ByteArray.IsValidUTF8 ⟨⟨s.toByteArray.data.toList⟩⟩ := s.isValidUTF8
  unfold fromUtf8 utf8 String.fromUTF8?
  rw [dif_pos h]
  rfl

theorem utf8_of_fromUtf8 {b : Bytes} {s : String} (h : fromUtf8 b = some s) : utf8 s = b := by
  unfold fromUtf8 String.fromUTF8? at h
  split at h
  · cases h
    rfl
  · cases h

theorem length_utf8 (s : String) : (utf8 s).length = s.utf8ByteSize := rfl

theorem utf8_inj {s t : String} (h : utf8 s = utf8 t) : s = t := by
  have := congrArg fromUtf8 h
  simpa using this

theorem utf8_toList (s : String) : utf8 s = s.toList.flatMap String.utf8EncodeChar := by
  unfold utf8
  rw [← String.utf8Encode_toList]
  simp [List.utf8Encode]

/-! ## Fixed-width decimal integers -/

inductive IntError where
  | empty
  | invalidDigit
  | posOverflow
  | negOverflow
  deriving Repr, DecidableEq

def IntError.message : IntError → String
  | .empty => "cannot parse integer from empty string"
  | .invalidDigit => "invalid digit found in string"
  | .posOverflow => "number too large to fit in target type"
  | .negOverflow => "number too small to fit in target type"

/-- Reads digits left to right onto `acc`; the first bad character or the first
value above `max` stops it. -/
def parseDigits (max : Nat) (tooLarge : IntError) : List Char → Nat → Except IntError Nat
  | [], acc => .ok acc
  | c :: cs, acc =>
    if c.isDigit then
      let v := 10 * acc + (c.toNat - '0'.toNat)
      if v ≤ max then parseDigits max tooLarge cs v else .error tooLarge
    else .error .invalidDigit

/-- An unsigned integer up to `max`. A leading `+` is accepted, a `-` is not. -/
def parseUint (max : Nat) (s : String) : Except IntError Nat :=
  match s.toList with
  | [] => .error .empty
  | ['+'] => .error .invalidDigit
  | '+' :: cs => parseDigits max .posOverflow cs 0
  | cs => parseDigits max .posOverflow cs 0

/-- A signed integer in `[-bound, bound)`. -/
def parseInt (bound : Nat) (s : String) : Except IntError Int :=
  match s.toList with
  | [] => .error .empty
  | ['+'] | ['-'] => .error .invalidDigit
  | '+' :: cs => (parseDigits (bound - 1) .posOverflow cs 0).map Int.ofNat
  | '-' :: cs => (parseDigits bound .negOverflow cs 0).map fun n => -(Int.ofNat n)
  | cs => (parseDigits (bound - 1) .posOverflow cs 0).map Int.ofNat

theorem ofDigitChars_ge (l : List Char) : ∀ acc, acc ≤ Nat.ofDigitChars 10 l acc := by
  induction l with
  | nil => intro acc; simp
  | cons c cs ih =>
    intro acc
    rw [Nat.ofDigitChars_cons]
    have := ih (10 * acc + (c.toNat - '0'.toNat))
    omega

theorem parseDigits_ok (max : Nat) (tooLarge : IntError) (l : List Char) (hd : ∀ c ∈ l, c.isDigit = true) :
    ∀ acc, Nat.ofDigitChars 10 l acc ≤ max → parseDigits max tooLarge l acc = .ok (Nat.ofDigitChars 10 l acc) := by
  induction l with
  | nil => intro acc _; simp [parseDigits]
  | cons c cs ih =>
    intro acc h
    rw [Nat.ofDigitChars_cons] at h ⊢
    have hle := ofDigitChars_ge cs (10 * acc + (c.toNat - '0'.toNat))
    have hc : c.isDigit = true := hd c (by simp)
    unfold parseDigits
    simp only [hc, ite_true]
    rw [if_pos (by omega)]
    exact ih (fun c hc => hd c (by simp [hc])) _ h

theorem parseDigits_le {max : Nat} {tooLarge : IntError} (l : List Char) :
    ∀ {acc n : Nat}, acc ≤ max → parseDigits max tooLarge l acc = .ok n → n ≤ max := by
  induction l with
  | nil =>
    intro acc n hacc h
    cases h
    exact hacc
  | cons c cs ih =>
    intro acc n hacc h
    unfold parseDigits at h
    split at h
    · simp only at h
      split at h
      · rename_i hle
        exact ih hle h
      · cases h
    · cases h

theorem parseUint_le {max n : Nat} {s : String} (h : parseUint max s = .ok n) : n ≤ max := by
  unfold parseUint at h
  split at h
  · cases h
  · cases h
  · exact parseDigits_le _ (Nat.zero_le _) h
  · exact parseDigits_le _ (Nat.zero_le _) h

theorem isDigit_toString {n : Nat} {c : Char} (h : c ∈ (toString n).toList) : c.isDigit = true := by
  rw [show (toString n).toList = Nat.toDigits 10 n from Nat.toList_repr] at h
  exact Nat.isDigit_of_mem_toDigits (by decide) (by decide) h

theorem not_mem_toString {c : Char} (hc : c.isDigit = false) (n : Nat) : c ∉ (toString n).toList := by
  intro h
  rw [isDigit_toString h] at hc
  cases hc

theorem parseUint_toString {n max : Nat} (h : n ≤ max) : parseUint max (toString n) = .ok n := by
  have hl : (toString n).toList = Nat.toDigits 10 n := Nat.toList_repr
  have hv : Nat.ofDigitChars 10 (Nat.toDigits 10 n) 0 = n := Nat.ofDigitChars_ten_toDigits
  have hd : ∀ c ∈ Nat.toDigits 10 n, c.isDigit = true := fun c hc => isDigit_toString (hl ▸ hc)
  have hp := parseDigits_ok max .posOverflow _ hd 0 (by rw [hv]; exact h)
  rw [hv] at hp
  unfold parseUint
  rw [hl]
  cases hc : Nat.toDigits 10 n with
  | nil => exact absurd hc Nat.toDigits_ne_nil
  | cons c cs =>
    have hplus : c ≠ '+' := by
      rintro rfl
      exact absurd (hd '+' (by simp [hc])) (by decide)
    rw [hc] at hp
    split <;> simp_all

theorem parseDigits_toString {n max : Nat} (tooLarge : IntError) (h : n ≤ max) :
    parseDigits max tooLarge (toString n).toList 0 = .ok n := by
  have hl : (toString n).toList = Nat.toDigits 10 n := Nat.toList_repr
  have hv : Nat.ofDigitChars 10 (Nat.toDigits 10 n) 0 = n := Nat.ofDigitChars_ten_toDigits
  have hd : ∀ c ∈ Nat.toDigits 10 n, c.isDigit = true := fun c hc => isDigit_toString (hl ▸ hc)
  have hp := parseDigits_ok max tooLarge _ hd 0 (by rw [hv]; exact h)
  rw [hl, hp, hv]

theorem exists_toString (n : Nat) : ∃ c cs, (toString n).toList = c :: cs ∧ c.isDigit = true := by
  have hl : (toString n).toList = Nat.toDigits 10 n := Nat.toList_repr
  cases hc : Nat.toDigits 10 n with
  | nil => exact absurd hc Nat.toDigits_ne_nil
  | cons c cs =>
    refine ⟨c, cs, hl.trans hc, isDigit_toString (n := n) ?_⟩
    rw [hl, hc]
    exact List.mem_cons_self ..

theorem parseInt_toString {i : Int} {bound : Nat} (hlow : -(bound : Int) ≤ i) (hhigh : i < bound) :
    parseInt bound (toString i) = .ok i := by
  cases i with
  | ofNat n =>
    have hn : n ≤ bound - 1 := by
      have : (n : Int) < bound := hhigh
      omega
    have hs : toString (Int.ofNat n) = toString n := rfl
    obtain ⟨c, cs, hl, hc⟩ := exists_toString n
    have hp := parseDigits_toString .posOverflow hn
    have hplus : c ≠ '+' := by
      rintro rfl
      cases hc
    have hminus : c ≠ '-' := by
      rintro rfl
      cases hc
    unfold parseInt
    rw [hs, hl]
    rw [hl] at hp
    split <;> simp_all [Except.map]
  | negSucc n =>
    have hn : n + 1 ≤ bound := by
      have : -(bound : Int) ≤ Int.negSucc n := hlow
      omega
    have hs : (toString (Int.negSucc n)).toList = '-' :: (toString (n + 1)).toList := by
      change ("-" ++ toString (n + 1)).toList = _
      rw [String.toList_append]
      rfl
    obtain ⟨c, cs, hl, hc⟩ := exists_toString (n + 1)
    have hp := parseDigits_toString .negOverflow hn
    unfold parseInt
    rw [hs, hl]
    rw [hl] at hp
    simp only [hp, Except.map]
    rfl

theorem parseInt_bounds {i : Int} {bound : Nat} {s : String} (h0 : 0 < bound) (h : parseInt bound s = .ok i) :
    -(bound : Int) ≤ i ∧ i < bound := by
  have hpos : ∀ cs, (parseDigits (bound - 1) .posOverflow cs 0).map Int.ofNat = .ok i → 0 ≤ i ∧ i < bound := by
    intro cs hp
    cases hd : parseDigits (bound - 1) .posOverflow cs 0 with
    | error e =>
      rw [hd] at hp
      cases hp
    | ok n =>
      rw [hd] at hp
      cases hp
      have := parseDigits_le cs (Nat.zero_le _) hd
      constructor
      · exact Int.natCast_nonneg n
      · change (n : Int) < bound
        omega
  unfold parseInt at h
  split at h
  · cases h
  · cases h
  · cases h
  · have := hpos _ h
    omega
  · rename_i cs _ _
    cases hd : parseDigits bound .negOverflow cs 0 with
    | error e =>
      rw [hd] at h
      cases h
    | ok n =>
      rw [hd] at h
      cases h
      have := parseDigits_le cs (Nat.zero_le _) hd
      constructor
      · change -(bound : Int) ≤ -(n : Int)
        omega
      · change -(n : Int) < bound
        omega
  · have := hpos _ h
    omega
theorem utf8_digit {c : Char} (h : c.isDigit = true) : String.utf8EncodeChar c = [c.toUInt8] := by
  simp only [Char.isDigit, Bool.and_eq_true, decide_eq_true_eq] at h
  have hs : c.utf8Size = 1 := by
    rw [Char.utf8Size_eq_one_iff]
    exact UInt32.le_trans h.2 (by decide)
  rw [String.utf8EncodeChar_eq_singleton hs]
  rfl

theorem digit_of_mem_utf8_toString {n : Nat} {b : UInt8} (h : b ∈ utf8 (toString n)) : 48 ≤ b ∧ b ≤ 57 := by
  rw [utf8_toList, List.mem_flatMap] at h
  obtain ⟨c, hc, hb⟩ := h
  have hd := isDigit_toString hc
  rw [utf8_digit hd, List.mem_singleton] at hb
  subst hb
  simp only [Char.isDigit, Bool.and_eq_true, decide_eq_true_eq] at hd
  have h1 : 48 ≤ c.toNat := hd.1
  have h2 : c.toNat ≤ 57 := hd.2
  have hv : c.toUInt8.toNat = c.toNat := by
    show c.toNat % 256 = c.toNat
    exact Nat.mod_eq_of_lt (by omega)
  exact ⟨UInt8.le_iff_toNat_le.mpr (by rw [hv]; exact h1), UInt8.le_iff_toNat_le.mpr (by rw [hv]; exact h2)⟩

theorem length_flatMap_digits {l : List Char} (h : ∀ c ∈ l, c.isDigit = true) :
    (l.flatMap String.utf8EncodeChar).length = l.length := by
  induction l with
  | nil => rfl
  | cons c l ih =>
    rw [List.flatMap_cons, utf8_digit (h c (List.mem_cons_self ..)), List.length_append,
      ih fun d hd => h d (List.mem_cons_of_mem _ hd), List.length_singleton, List.length_cons, Nat.add_comm]

theorem utf8ByteSize_toString {n k : Nat} (hk : 0 < k) (h : n < 10 ^ k) : (toString n).utf8ByteSize ≤ k := by
  have hl : (toString n).toList = Nat.toDigits 10 n := Nat.toList_repr
  rw [← length_utf8, utf8_toList, length_flatMap_digits fun c hc => isDigit_toString hc, hl]
  exact (Nat.length_toDigits_le_iff (by decide) hk).mpr h

end Redis.Lib
