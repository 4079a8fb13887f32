import Redis.Lib.Decimal
import Mathlib.Data.List.Infix

/-!
# Frames

The grammar of a length-prefixed reply format: a line that ends at the first
CRLF, an integer, a bulk of announced length, an array of announced size. A
stream of frames is read in one way only (`Frame.unique`): two frames that
begin the same stream are equal.
-/

namespace Redis.Lib

def crlf : Bytes := [13, 10]

inductive Frame : Bytes → Prop
  | simple {s : Bytes} : ¬ crlf <:+: s → Frame (43 :: (s ++ crlf))
  | error {s : Bytes} : ¬ crlf <:+: s → Frame (45 :: (s ++ crlf))
  | integer (i : Int) : Frame (58 :: (utf8 (toString i) ++ crlf))
  | bulk (v : Bytes) : Frame (36 :: (utf8 (toString v.length) ++ (crlf ++ (v ++ crlf))))
  | nullBulk : Frame (36 :: (utf8 "-1" ++ crlf))
  | array {items : List Bytes} : (∀ b ∈ items, Frame b) →
      Frame (42 :: (utf8 (toString items.length) ++ (crlf ++ items.flatten)))
  | nullArray : Frame (42 :: (utf8 "-1" ++ crlf))

theorem Frame.ne_nil {b : Bytes} (h : Frame b) : b ≠ [] := by
  cases h <;> simp

/-! ## Lines -/

theorem cons_append_inj {c d : UInt8} {s t x y : Bytes} (h : c :: s ++ x = d :: t ++ y) : c = d ∧ s ++ x = t ++ y :=
  List.cons.inj h

theorem line_unique : ∀ {s t x y : Bytes}, ¬ crlf <:+: s → ¬ crlf <:+: t → s ++ (crlf ++ x) = t ++ (crlf ++ y) →
    s = t ∧ x = y
  | [], [], x, y, _, _, h => by simpa [crlf] using h
  | [], [c], x, y, _, _, h => by
    have h' : 13 :: 10 :: x = c :: 13 :: 10 :: y := h
    cases (List.cons.inj (List.cons.inj h').2).1
  | [], c :: d :: t, x, y, _, ht, h => by
    have h' : 13 :: 10 :: x = c :: d :: (t ++ (crlf ++ y)) := h
    obtain ⟨rfl, hd⟩ := List.cons.inj h'
    obtain ⟨rfl, -⟩ := List.cons.inj hd
    exact absurd (List.prefix_append [13, 10] t).isInfix ht
  | [c], [], x, y, _, _, h => by
    have h' : c :: 13 :: 10 :: x = 13 :: 10 :: y := h
    cases (List.cons.inj (List.cons.inj h').2).1
  | c :: d :: s, [], x, y, hs, _, h => by
    have h' : c :: d :: (s ++ (crlf ++ x)) = 13 :: 10 :: y := h
    obtain ⟨rfl, hd⟩ := List.cons.inj h'
    obtain ⟨rfl, -⟩ := List.cons.inj hd
    exact absurd (List.prefix_append [13, 10] s).isInfix hs
  | c :: s, d :: t, x, y, hs, ht, h => by
    obtain ⟨rfl, hst⟩ := cons_append_inj h
    have hs' : ¬ crlf <:+: s := fun hi => hs (hi.trans (List.suffix_cons c s).isInfix)
    have ht' : ¬ crlf <:+: t := fun hi => ht (hi.trans (List.suffix_cons c t).isInfix)
    obtain ⟨rfl, rfl⟩ := line_unique hs' ht' hst
    exact ⟨rfl, rfl⟩

theorem all_ne_cr {l : Bytes} (h : (13 : UInt8) ∉ l) : l.all (· != 13) = true := by
  apply List.all_eq_true.mpr
  intro b hb
  simp only [bne_iff_ne, ne_eq]
  rintro rfl
  exact h hb

theorem crlf_not_infix_of_all {l : Bytes} (h : l.all (· != 13) = true) : ¬ crlf <:+: l := by
  intro hi
  have h13 := List.all_eq_true.mp h _ (hi.subset (show (13 : UInt8) ∈ crlf by simp [crlf]))
  exact absurd h13 (by decide)

theorem crlf_infix_append : ∀ {l s : Bytes}, l.all (· != 13) = true → crlf <:+: l ++ s → crlf <:+: s
  | [], _, _, h => h
  | b :: l, s, hl, h => by
    simp only [List.all_cons, Bool.and_eq_true, bne_iff_ne, ne_eq] at hl
    obtain hpre | hi := List.infix_cons_iff.mp h
    · exact absurd (List.cons_prefix_cons.mp hpre).1.symm hl.1
    · exact crlf_infix_append hl.2 hi

theorem crlf_not_infix_nat (n : Nat) : ¬ crlf <:+: utf8 (toString n) := by
  intro h
  have := (digit_of_mem_utf8_toString (h.subset (show (13 : UInt8) ∈ crlf by simp [crlf]))).1
  exact absurd this (by decide)

theorem utf8_append (s t : String) : utf8 (s ++ t) = utf8 s ++ utf8 t := by
  rw [utf8_toList, utf8_toList, utf8_toList, String.toList_append, List.flatMap_append]

theorem crlf_not_infix_int (i : Int) : ¬ crlf <:+: utf8 (toString i) := by
  cases i with
  | ofNat n => exact crlf_not_infix_nat n
  | negSucc n =>
    have hs : toString (Int.negSucc n) = "-" ++ toString (n + 1) := rfl
    intro h
    rw [hs, utf8_append] at h
    have h13 := h.subset (show (13 : UInt8) ∈ crlf by simp [crlf])
    obtain h13 | h13 := List.mem_append.mp h13
    · exact absurd h13 (by decide)
    · exact absurd (digit_of_mem_utf8_toString h13).1 (by decide)

theorem toString_nat_inj {n m : Nat} (h : utf8 (toString n) = utf8 (toString m)) : n = m := by
  have hn := parseUint_toString (Nat.le_max_left n m)
  have hm := parseUint_toString (Nat.le_max_right n m)
  rw [utf8_inj h, hm] at hn
  exact (Except.ok.inj hn).symm

theorem minus_one_ne_nat (n : Nat) : utf8 "-1" ≠ utf8 (toString n) := by
  intro h
  have : (45 : UInt8) ∈ utf8 (toString n) := by
    rw [← h]
    decide
  exact absurd (digit_of_mem_utf8_toString this).1 (by decide)

/-! ## Reading a stream -/

theorem crlf_not_infix_minus_one : ¬ crlf <:+: utf8 "-1" := by decide

theorem header_unique {n m : Nat} {x y : Bytes}
    (h : utf8 (toString n) ++ (crlf ++ x) = utf8 (toString m) ++ (crlf ++ y)) : n = m ∧ x = y := by
  obtain ⟨hn, rfl⟩ := line_unique (crlf_not_infix_nat n) (crlf_not_infix_nat m) h
  exact ⟨toString_nat_inj hn, rfl⟩

theorem flatten_unique : ∀ {as bs : List Bytes} {x y : Bytes},
    (∀ a ∈ as, ∀ b, Frame b → ∀ x y, a ++ x = b ++ y → a = b) → (∀ b ∈ bs, Frame b) → as.length = bs.length →
      as.flatten ++ x = bs.flatten ++ y → as = bs
  | [], [], _, _, _, _, _, _ => rfl
  | a :: as, b :: bs, x, y, ha, hb, hl, h => by
    simp only [List.flatten_cons, List.append_assoc] at h
    obtain rfl := ha a (List.mem_cons_self ..) b (hb b (List.mem_cons_self ..)) _ _ h
    have := flatten_unique (fun c hc => ha c (List.mem_cons_of_mem _ hc)) (fun c hc => hb c (List.mem_cons_of_mem _ hc))
      (Nat.succ.inj hl) (List.append_cancel_left h)
    rw [this]

theorem Frame.unique {a : Bytes} (ha : Frame a) : ∀ {b : Bytes}, Frame b → ∀ {x y : Bytes},
    a ++ x = b ++ y → a = b := by
  induction ha with
  | simple hs =>
    intro b hb x y h
    cases hb with
    | simple ht =>
      have hline := (cons_append_inj h).2
      rw [List.append_assoc, List.append_assoc] at hline
      rw [(line_unique hs ht hline).1]
    | _ => cases (List.cons.inj h).1
  | error hs =>
    intro b hb x y h
    cases hb with
    | error ht =>
      have hline := (cons_append_inj h).2
      rw [List.append_assoc, List.append_assoc] at hline
      rw [(line_unique hs ht hline).1]
    | _ => cases (List.cons.inj h).1
  | integer i =>
    intro b hb x y h
    cases hb with
    | integer j =>
      have hline := (cons_append_inj h).2
      rw [List.append_assoc, List.append_assoc] at hline
      rw [(line_unique (crlf_not_infix_int i) (crlf_not_infix_int j) hline).1]
    | _ => cases (List.cons.inj h).1
  | bulk v =>
    intro b hb x y h
    cases hb with
    | bulk w =>
      have hline := (cons_append_inj h).2
      simp only [List.append_assoc] at hline
      obtain ⟨hl, hvw⟩ := header_unique hline
      rw [List.append_inj_left hvw hl]
    | nullBulk =>
      have hline := (cons_append_inj h).2
      simp only [List.append_assoc] at hline
      exact absurd (line_unique (crlf_not_infix_nat _) crlf_not_infix_minus_one hline).1.symm (minus_one_ne_nat _)
    | _ => cases (List.cons.inj h).1
  | nullBulk =>
    intro b hb x y h
    cases hb with
    | nullBulk => rfl
    | bulk w =>
      have hline := (cons_append_inj h).2
      simp only [List.append_assoc] at hline
      exact absurd (line_unique crlf_not_infix_minus_one (crlf_not_infix_nat _) hline).1 (minus_one_ne_nat _)
    | _ => cases (List.cons.inj h).1
  | array _ ih =>
    intro b hb x y h
    cases hb with
    | array hbs =>
      have hline := (cons_append_inj h).2
      simp only [List.append_assoc] at hline
      obtain ⟨hl, hitems⟩ := header_unique hline
      rw [flatten_unique (fun a ha b hb x y => ih a ha hb) hbs hl hitems]
    | nullArray =>
      have hline := (cons_append_inj h).2
      simp only [List.append_assoc] at hline
      exact absurd (line_unique (crlf_not_infix_nat _) crlf_not_infix_minus_one hline).1.symm (minus_one_ne_nat _)
    | _ => cases (List.cons.inj h).1
  | nullArray =>
    intro b hb x y h
    cases hb with
    | nullArray => rfl
    | array hbs =>
      have hline := (cons_append_inj h).2
      simp only [List.append_assoc] at hline
      exact absurd (line_unique crlf_not_infix_minus_one (crlf_not_infix_nat _) hline).1 (minus_one_ne_nat _)
    | _ => cases (List.cons.inj h).1

theorem Frame.of_error {s : Bytes} (h : Frame (45 :: (s ++ crlf))) : ¬ crlf <:+: s := by
  generalize hb : (45 :: (s ++ crlf) : Bytes) = b at h
  cases h with
  | error ht =>
    obtain rfl := List.append_cancel_right (List.cons.inj hb).2
    exact ht
  | _ => cases (List.cons.inj hb).1

theorem not_frame_empty {n : Nat} (hn : 0 < n) : ¬ Frame (42 :: (utf8 (toString n) ++ crlf)) := by
  intro h
  generalize hb : (42 :: (utf8 (toString n) ++ crlf) : Bytes) = b at h
  cases h with
  | @array items hitems =>
    have hline := (List.cons.inj hb).2
    rw [← List.append_nil crlf, List.append_assoc] at hline
    obtain ⟨hl, hnil⟩ := header_unique hline
    cases items with
    | nil =>
      rw [List.length_nil] at hl
      omega
    | cons b items =>
      have := hitems b (List.mem_cons_self ..)
      rw [List.nil_append, List.flatten_cons] at hnil
      exact this.ne_nil (List.append_eq_nil_iff.mp hnil.symm).1
  | nullArray =>
    have hline := (List.cons.inj hb).2
    exact absurd (List.append_cancel_right hline).symm (minus_one_ne_nat n)
  | _ => cases (List.cons.inj hb).1

end Redis.Lib
