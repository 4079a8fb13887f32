import Redis.Lib.Decimal

/-!
# Splitting texts

What the parts of a text that is split at a character are, and which ASCII
characters its UTF-8 encoding shows.
-/

namespace Redis.Lib

theorem mem_splitOn {α : Type} [BEq α] [LawfulBEq α] {a : α} {xs t : List α} (h : t ∈ xs.splitOn a) :
    a ∉ t ∧ ∀ x ∈ t, x ∈ xs := by
  induction xs generalizing t with
  | nil =>
    rw [List.splitOn_nil, List.mem_singleton] at h
    subst h
    simp
  | cons x xs ih =>
    rw [List.splitOn_cons_eq_if_modifyHead] at h
    split at h
    · cases h with
      | head => simp
      | tail _ h =>
        obtain ⟨hnot, hsub⟩ := ih h
        exact ⟨hnot, fun y hy => List.mem_cons_of_mem _ (hsub y hy)⟩
    · next hx =>
      obtain ⟨t', ts, hsplit⟩ := List.exists_cons_of_ne_nil (List.splitOn_ne_nil a xs)
      rw [hsplit, List.modifyHead_cons] at h
      cases h with
      | head =>
        obtain ⟨hnot, hsub⟩ := ih (t := t') (by rw [hsplit]; exact List.mem_cons_self ..)
        refine ⟨?_, ?_⟩
        · rw [List.mem_cons]
          rintro (rfl | hin)
          · simp at hx
          · exact hnot hin
        · intro y hy
          rw [List.mem_cons] at hy ⊢
          exact hy.imp_right (hsub y)
      | tail _ h =>
        obtain ⟨hnot, hsub⟩ := ih (t := t) (by rw [hsplit]; exact List.mem_cons_of_mem _ h)
        exact ⟨hnot, fun y hy => List.mem_cons_of_mem _ (hsub y hy)⟩

theorem ascii_of_mem_utf8EncodeChar {c : Char} {b : UInt8} (h : b ∈ String.utf8EncodeChar c) (hb : b.toNat < 128) :
    c.toNat = b.toNat := by
  -- the other bytes are `x + 128` and more
  have hhigh : ∀ n : Nat, b = UInt8.ofNat n → n < 256 → n < 128 := by
    rintro n rfl hn
    rw [UInt8.toNat_ofNat_of_lt' hn] at hb
    exact hb
  have hv : c.toNat = c.val.toNat := rfl
  unfold String.utf8EncodeChar at h
  simp only at h
  split at h
  · rw [List.mem_singleton] at h
    subst h
    rw [UInt8.toNat_ofNat_of_lt' (show c.val.toNat < 256 by omega)]
    exact hv
  · exfalso
    split at h
    · rw [List.mem_pair] at h
      obtain h | h := h
      · have := hhigh _ h (by omega)
        omega
      · have := hhigh _ h (by omega)
        omega
    · split at h
      · simp only [List.mem_cons, List.not_mem_nil, or_false] at h
        obtain h | h | h := h
        · have := hhigh _ h (by omega)
          omega
        · have := hhigh _ h (by omega)
          omega
        · have := hhigh _ h (by omega)
          omega
      · simp only [List.mem_cons, List.not_mem_nil, or_false] at h
        obtain h | h | h | h := h
        · have := hhigh _ h (by omega)
          omega
        · have := hhigh _ h (by omega)
          omega
        · have := hhigh _ h (by omega)
          omega
        · have := hhigh _ h (by omega)
          omega

theorem ascii_mem_utf8 {s : String} {c : Char} {b : UInt8} (hc : c.toNat = b.toNat) (hb : b.toNat < 128) :
    b ∈ utf8 s ↔ c ∈ s.toList := by
  rw [utf8_toList, List.mem_flatMap]
  constructor
  · rintro ⟨d, hd, hin⟩
    have hdc : d.toNat = c.toNat := (ascii_of_mem_utf8EncodeChar hin hb).trans hc.symm
    obtain rfl : d = c := Char.toNat_inj.mp hdc
    exact hd
  · intro h
    refine ⟨c, h, ?_⟩
    have hs : c.utf8Size = 1 := by
      rw [Char.utf8Size_eq_one_iff, UInt32.le_iff_toNat_le]
      have : c.val.toNat = c.toNat := rfl
      simp only [UInt32.toNat_ofNat] at *
      omega
    rw [String.utf8EncodeChar_eq_singleton hs, List.mem_singleton]
    apply UInt8.toNat_inj.mp
    rw [UInt32.toNat_toUInt8]
    have : c.val.toNat = c.toNat := rfl
    omega

/-- An encoded character is told from what follows it. -/
theorem utf8EncodeChar_inj {c d : Char} {r r' : List UInt8}
    (h : String.utf8EncodeChar c ++ r = String.utf8EncodeChar d ++ r') :
    c = d ∧ r = r' := by
  have hdecode : ∀ (c : Char)
      (r : List UInt8), (String.utf8EncodeChar c ++ r).toByteArray.utf8DecodeChar? 0 = some c := by
    intro c r
    rw [List.toByteArray_append]
    exact ByteArray.utf8DecodeChar?_utf8EncodeChar_append
  have hc := hdecode c r
  rw [h, hdecode d r'] at hc
  cases hc
  exact ⟨rfl, List.append_cancel_left h⟩

theorem flatMap_encode_prefix {cs ds : List Char} {r : List UInt8}
    (h : cs.flatMap String.utf8EncodeChar ++ r = ds.flatMap String.utf8EncodeChar) : ∃ es, ds = cs ++ es := by
  induction cs generalizing ds with
  | nil => exact ⟨ds, rfl⟩
  | cons c cs ih =>
    cases ds with
    | nil =>
      have hlength := congrArg List.length h
      have hpos := c.utf8Size_pos
      simp only [List.flatMap_cons, List.flatMap_nil, List.length_append, List.length_nil,
        String.length_utf8EncodeChar] at hlength
      omega
    | cons d ds =>
      rw [List.flatMap_cons, List.flatMap_cons, List.append_assoc] at h
      obtain ⟨rfl, hrest⟩ := utf8EncodeChar_inj h
      obtain ⟨es, rfl⟩ := ih hrest
      exact ⟨es, rfl⟩

theorem exists_append_of_utf8 {s a : String} {r : Bytes} (h : utf8 a ++ r = utf8 s) : ∃ b, s = a ++ b := by
  rw [utf8_toList, utf8_toList] at h
  obtain ⟨es, hes⟩ := flatMap_encode_prefix h
  refine ⟨String.ofList es, String.toList_inj.mp ?_⟩
  rw [String.toList_append, String.toList_ofList, hes]

end Redis.Lib
