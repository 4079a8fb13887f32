import Mathlib.Order.Lattice
import Mathlib.Data.List.Pairwise

/-!
# Ordered maps

A map with ordered keys is its list of entries in strictly increasing order.
-/

namespace Redis.Lib

universe u v

structure OrdMap (K : Type u) (V : Type v) [LinearOrder K] where
  entries : List (K × V)
  sorted : entries.Pairwise fun a b => a.1 < b.1

namespace OrdMap

variable {K : Type u} {V : Type v} [LinearOrder K]

def empty : OrdMap K V := ⟨[], .nil⟩

def insertEntry (k : K) (v : V) : List (K × V) → List (K × V)
  | [] => [(k, v)]
  | e :: es =>
    if k < e.1 then (k, v) :: e :: es
    else if k = e.1 then (k, v) :: es
    else e :: insertEntry k v es

theorem mem_insertEntry {k : K} {v : V} {es : List (K × V)} (hs : es.Pairwise fun a b => a.1 < b.1) {e : K × V} :
    e ∈ insertEntry k v es ↔ e = (k, v) ∨ (e.1 ≠ k ∧ e ∈ es) := by
  induction es with
  | nil => simp [insertEntry]
  | cons a es ih =>
    obtain ⟨ha, hes⟩ := List.pairwise_cons.mp hs
    unfold insertEntry
    split
    · rename_i hlt
      -- the new key is below all others
      have hne : ∀ x ∈ a :: es, x.1 ≠ k := by
        rintro x (_ | ⟨_, hx⟩)
        · exact ne_of_gt hlt
        · exact ne_of_gt (lt_trans hlt (ha x hx))
      rw [List.mem_cons]
      constructor
      · rintro (h | h)
        · exact Or.inl h
        · exact Or.inr ⟨hne e h, h⟩
      · rintro (h | ⟨_, h⟩)
        · exact Or.inl h
        · exact Or.inr h
    · split
      · rename_i heq
        subst heq
        have hne : ∀ x ∈ es, x.1 ≠ a.1 := fun x hx => ne_of_gt (ha x hx)
        simp only [List.mem_cons]
        constructor
        · rintro (h | h)
          · exact Or.inl h
          · exact Or.inr ⟨hne e h, Or.inr h⟩
        · rintro (h | ⟨hk, rfl | h⟩)
          · exact Or.inl h
          · exact absurd rfl hk
          · exact Or.inr h
      · rename_i hne
        simp only [List.mem_cons, ih hes]
        constructor
        · rintro (rfl | h | ⟨hk, h⟩)
          · exact Or.inr ⟨Ne.symm hne, Or.inl rfl⟩
          · exact Or.inl h
          · exact Or.inr ⟨hk, Or.inr h⟩
        · rintro (h | ⟨hk, rfl | h⟩)
          · exact Or.inr (Or.inl h)
          · exact Or.inl rfl
          · exact Or.inr (Or.inr ⟨hk, h⟩)

theorem insertEntry_sorted (k : K) (v : V) {es : List (K × V)} (hs : es.Pairwise fun a b => a.1 < b.1) :
    (insertEntry k v es).Pairwise fun a b => a.1 < b.1 := by
  induction es with
  | nil => simp [insertEntry]
  | cons a es ih =>
    obtain ⟨ha, hes⟩ := List.pairwise_cons.mp hs
    unfold insertEntry
    split
    · rename_i hlt
      refine List.pairwise_cons.mpr ⟨?_, hs⟩
      rintro x (_ | ⟨_, hx⟩)
      · exact hlt
      · exact lt_trans hlt (ha x hx)
    · split
      · rename_i heq
        subst heq
        exact List.pairwise_cons.mpr ⟨ha, hes⟩
      · rename_i hnlt hne
        refine List.pairwise_cons.mpr ⟨fun x hx => ?_, ih hes⟩
        rcases (mem_insertEntry hes).mp hx with rfl | ⟨_, hx⟩
        · exact lt_of_le_of_ne (le_of_not_gt hnlt) (Ne.symm hne)
        · exact ha x hx

def insert (k : K) (v : V) (m : OrdMap K V) : OrdMap K V := ⟨insertEntry k v m.entries, insertEntry_sorted k v m.sorted⟩

def erase (k : K) (m : OrdMap K V) : OrdMap K V := ⟨m.entries.filter (·.1 ≠ k), m.sorted.filter _⟩

def lookup (k : K) (m : OrdMap K V) : Option V := (m.entries.find? (·.1 = k)).map Prod.snd

def contains (k : K) (m : OrdMap K V) : Bool := (m.lookup k).isSome

def first? (m : OrdMap K V) : Option (K × V) := m.entries.head?

def last? (m : OrdMap K V) : Option (K × V) := m.entries.getLast?

theorem eq_of_mem {m : OrdMap K V} {k : K} {v v' : V} (h : (k, v) ∈ m.entries) (h' : (k, v') ∈ m.entries) :
    v = v' := by
  have hall := List.Pairwise.forall_of_forall_of_flip (R := fun a b : K × V => a.1 = b.1 → a = b) (l := m.entries)
    (fun _ _ _ => rfl) (m.sorted.imp fun hlt heq => absurd heq (ne_of_lt hlt))
    (m.sorted.imp fun hlt heq => absurd heq (ne_of_gt hlt))
  exact (Prod.mk.inj (hall h h' rfl)).2

theorem lookup_eq_some {m : OrdMap K V} {k : K} {v : V} : m.lookup k = some v ↔ (k, v) ∈ m.entries := by
  unfold lookup
  rw [Option.map_eq_some_iff]
  constructor
  · rintro ⟨⟨k', x⟩, hf, rfl⟩
    have hk := List.find?_some hf
    simp only [decide_eq_true_eq] at hk
    subst hk
    exact List.mem_of_find?_eq_some hf
  · intro h
    obtain ⟨⟨k', x⟩, hf⟩ := Option.isSome_iff_exists.mp
      (List.find?_isSome.mpr ⟨(k, v), h, by simp⟩ : (m.entries.find? (·.1 = k)).isSome)
    have hk := List.find?_some hf
    simp only [decide_eq_true_eq] at hk
    subst hk
    exact ⟨(k', x), hf, eq_of_mem (List.mem_of_find?_eq_some hf) h⟩

theorem lookup_eq_none {m : OrdMap K V} {k : K} : m.lookup k = none ↔ ∀ v, (k, v) ∉ m.entries := by
  constructor
  · intro h v hv
    rw [lookup_eq_some.mpr hv] at h
    cases h
  · intro h
    cases hl : m.lookup k with
    | none => rfl
    | some v => exact absurd (lookup_eq_some.mp hl) (h v)

@[simp] theorem lookup_empty (k : K) : (empty : OrdMap K V).lookup k = none := rfl

@[simp] theorem lookup_insert (k : K) (v : V) (m : OrdMap K V) : (m.insert k v).lookup k = some v :=
  lookup_eq_some.mpr ((mem_insertEntry m.sorted).mpr (Or.inl rfl))

theorem lookup_insert_ne {k k' : K} (h : k' ≠ k) (v : V) (m : OrdMap K V) : (m.insert k v).lookup k' = m.lookup k' := by
  refine Option.ext fun x => ?_
  rw [lookup_eq_some, lookup_eq_some, insert, mem_insertEntry m.sorted]
  simp [h]

@[simp] theorem lookup_erase (k : K) (m : OrdMap K V) : (m.erase k).lookup k = none :=
  lookup_eq_none.mpr fun v hv => by simp [erase] at hv

theorem lookup_erase_ne {k k' : K} (h : k' ≠ k) (m : OrdMap K V) : (m.erase k).lookup k' = m.lookup k' := by
  refine Option.ext fun x => ?_
  rw [lookup_eq_some, lookup_eq_some, erase]
  simp [h]

theorem first?_eq_none {m : OrdMap K V} : m.first? = none ↔ m.entries = [] := List.head?_eq_none_iff

theorem first?_lookup {m : OrdMap K V} {k : K} {v : V} (h : m.first? = some (k, v)) : m.lookup k = some v :=
  lookup_eq_some.mpr (List.mem_of_mem_head? h)

theorem exists_first? {m : OrdMap K V} {k : K} {v : V} (h : m.lookup k = some v) : ∃ e, m.first? = some e := by
  cases hf : m.first? with
  | some e => exact ⟨e, rfl⟩
  | none =>
    have := lookup_eq_some.mp h
    rw [first?_eq_none.mp hf] at this
    cases this

theorem last?_eq_none {m : OrdMap K V} : m.last? = none ↔ m.entries = [] := List.getLast?_eq_none_iff

theorem last?_mem {m : OrdMap K V} {e : K × V} (h : m.last? = some e) : e ∈ m.entries := List.mem_of_getLast? h

theorem le_last? {m : OrdMap K V} {e e' : K × V} (h : m.last? = some e) (he : e' ∈ m.entries) : e'.1 ≤ e.1 := by
  obtain ⟨es, hs⟩ := m
  obtain ⟨init, rfl⟩ := List.getLast?_eq_some_iff.mp h
  rcases List.mem_append.mp he with he | he
  · exact le_of_lt ((List.pairwise_append.mp hs).2.2 _ he _ (List.mem_singleton_self e))
  · rw [List.mem_singleton.mp he]

theorem insert_above {m : OrdMap K V} {k : K} (h : ∀ e ∈ m.entries, e.1 < k) (v : V) :
    (m.insert k v).entries = m.entries ++ [(k, v)] := by
  suffices hgen : ∀ es : List (K × V), (∀ e ∈ es, e.1 < k) → insertEntry k v es = es ++ [(k, v)] from hgen _ h
  intro es
  induction es with
  | nil => exact fun _ => rfl
  | cons e es ih =>
    intro hall
    have he := hall e (List.mem_cons_self ..)
    unfold insertEntry
    rw [if_neg (not_lt_of_gt he), if_neg (ne_of_gt he), ih fun x hx => hall x (List.mem_cons_of_mem e hx)]
    rfl

def range (low high : K) (m : OrdMap K V) : List (K × V) := m.entries.filter fun e => low ≤ e.1 ∧ e.1 ≤ high

theorem mem_range {m : OrdMap K V} {low high k : K} {v : V} :
    (k, v) ∈ m.range low high ↔ m.lookup k = some v ∧ low ≤ k ∧ k ≤ high := by
  simp [range, lookup_eq_some]

theorem range_sorted (low high : K) (m : OrdMap K V) : (m.range low high).Pairwise fun a b => a.1 < b.1 :=
  m.sorted.filter _

theorem range_of_lt {m : OrdMap K V} {low high : K} (h : high < low) : m.range low high = [] := by
  refine List.filter_eq_nil_iff.mpr fun e _ => ?_
  rw [decide_eq_true_eq]
  exact fun hboth => absurd (le_trans hboth.1 hboth.2) (not_le_of_gt h)

theorem filter_above {m : OrdMap K V} {pre post : List (K × V)} {e : K × V} (h : m.entries = pre ++ e :: post) :
    (m.entries.filter fun x => e.1 < x.1) = post := by
  have hs := m.sorted
  rw [h] at hs ⊢
  obtain ⟨_, hpost, hpre⟩ := List.pairwise_append.mp hs
  have hnone : (pre.filter fun x => e.1 < x.1) = [] := by
    refine List.filter_eq_nil_iff.mpr fun x hx => ?_
    have := hpre x hx e (List.mem_cons_self ..)
    simpa using le_of_lt this
  have hall : (post.filter fun x => e.1 < x.1) = post := by
    refine List.filter_eq_self.mpr fun x hx => ?_
    simpa using (List.pairwise_cons.mp hpost).1 x hx
  rw [List.filter_append, List.filter_cons_of_neg (by simp), hnone, hall, List.nil_append]

end OrdMap

end Redis.Lib
