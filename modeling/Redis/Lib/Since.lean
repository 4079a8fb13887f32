import Mathlib.Data.List.Basic

/-!
# Since

`Since p q l`: somewhere in `l` stands an element with `p`, and all that follow
it have `q`; the operator of past temporal logic, at the end of `l`. `Then p q r l`
has an element with `r` among those that follow.
-/

namespace Redis.Lib

universe u

section
variable {α : Type u} {p q r : α → Prop} {l : List α} {a : α}

def Since (p q : α → Prop) (l : List α) : Prop :=
  ∃ pre b post, l = pre ++ b :: post ∧ p b ∧ ∀ c ∈ post, q c

def SinceSeen (p q r : α → Prop) (l : List α) : Prop :=
  ∃ pre b post, l = pre ++ b :: post ∧ p b ∧ (∀ c ∈ post, q c) ∧ ∃ c ∈ post, r c

theorem not_since_nil : ¬ Since p q ([] : List α) := by
  rintro ⟨pre, b, post, h, _⟩
  cases pre <;> cases h

theorem not_sinceSeen_nil : ¬ SinceSeen p q r ([] : List α) := by
  rintro ⟨pre, b, post, h, _⟩
  cases pre <;> cases h

theorem snoc_split {pre post : List α} {b : α} (h : l ++ [a] = pre ++ b :: post) :
    post = [] ∧ l = pre ∧ a = b ∨ ∃ post', post = post' ++ [a] ∧ l = pre ++ b :: post' := by
  rcases List.eq_nil_or_concat post with rfl | ⟨post', c, rfl⟩
  · obtain ⟨hl, ha⟩ := List.append_inj' h rfl
    cases ha
    exact .inl ⟨rfl, hl, rfl⟩
  · rw [List.concat_eq_append, ← List.cons_append, ← List.append_assoc] at h
    obtain ⟨hl, ha⟩ := List.append_inj' h rfl
    cases ha
    exact .inr ⟨post', List.concat_eq_append, hl⟩

theorem since_snoc : Since p q (l ++ [a]) ↔ p a ∨ Since p q l ∧ q a := by
  constructor
  · rintro ⟨pre, b, post, h, hb, hq⟩
    rcases snoc_split h with ⟨_, _, rfl⟩ | ⟨post', rfl, rfl⟩
    · exact .inl hb
    · refine .inr ⟨⟨pre, b, post', rfl, hb, fun c hc => ?_⟩, ?_⟩
      · exact hq c (List.mem_append_left _ hc)
      · exact hq a (List.mem_append_right _ (List.mem_singleton_self a))
  · rintro (ha | ⟨⟨pre, b, post, rfl, hb, hq⟩, ha⟩)
    · exact ⟨l, a, [], rfl, ha, fun c hc => absurd hc List.not_mem_nil⟩
    · refine ⟨pre, b, post ++ [a], by rw [List.append_assoc, List.cons_append], hb, fun c hc => ?_⟩
      rcases List.mem_append.mp hc with hc | hc
      · exact hq c hc
      · rw [List.mem_singleton.mp hc]
        exact ha

theorem sinceSeen_snoc : SinceSeen p q r (l ++ [a]) ↔ q a ∧ (SinceSeen p q r l ∨ Since p q l ∧ r a) := by
  constructor
  · rintro ⟨pre, b, post, h, hb, hq, c, hc, hr⟩
    rcases snoc_split h with ⟨rfl, _, _⟩ | ⟨post', rfl, rfl⟩
    · cases hc
    · refine ⟨hq a (List.mem_append_right _ (List.mem_singleton_self a)), ?_⟩
      have hq' : ∀ c ∈ post', q c := fun c hc => hq c (List.mem_append_left _ hc)
      rcases List.mem_append.mp hc with hc | hc
      · exact .inl ⟨pre, b, post', rfl, hb, hq', c, hc, hr⟩
      · rw [List.mem_singleton.mp hc] at hr
        exact .inr ⟨⟨pre, b, post', rfl, hb, hq'⟩, hr⟩
  · rintro ⟨ha, ⟨pre, b, post, rfl, hb, hq, c, hc, hr⟩ | ⟨⟨pre, b, post, rfl, hb, hq⟩, hr⟩⟩
    · refine ⟨pre, b, post ++ [a], by rw [List.append_assoc, List.cons_append], hb, fun d hd => ?_,
        c, List.mem_append_left _ hc, hr⟩
      rcases List.mem_append.mp hd with hd | hd
      · exact hq d hd
      · rw [List.mem_singleton.mp hd]
        exact ha
    · refine ⟨pre, b, post ++ [a], by rw [List.append_assoc, List.cons_append], hb, fun d hd => ?_,
        a, List.mem_append_right _ (List.mem_singleton_self a), hr⟩
      rcases List.mem_append.mp hd with hd | hd
      · exact hq d hd
      · rw [List.mem_singleton.mp hd]
        exact ha

end

end Redis.Lib
