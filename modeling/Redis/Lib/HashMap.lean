import Mathlib.Data.List.AList

/-!
# Hash maps

A hash map is an association list without duplicate keys. Its iteration order
is not the order of the list: who iterates asks for an order.
-/

namespace Redis.Lib

universe u v w

abbrev HashMap (K : Type u) (V : Type v) := AList fun _ : K => V

abbrev HashSet (K : Type u) := HashMap K Unit

namespace HashMap

variable {K : Type u} {V : Type v} {W : Type w}

def toPairs (m : HashMap K V) : List (K × V) := m.entries.map fun e => (e.1, e.2)

def values (m : HashMap K V) : List V := m.entries.map fun e => e.2

def mapValues (f : K → V → W) (m : HashMap K V) : HashMap K W where
  entries := m.entries.map fun e => ⟨e.1, f e.1 e.2⟩
  nodupKeys := by
    have h : (m.entries.map fun e => (⟨e.1, f e.1 e.2⟩ : Sigma fun _ : K => W)).keys = m.entries.keys := by
      simp [List.keys, Function.comp_def]
    rw [List.NodupKeys, h]
    exact m.nodupKeys

theorem nodup_toPairs (m : HashMap K V) : (m.toPairs.map Prod.fst).Nodup := by
  have h : m.toPairs.map Prod.fst = m.keys := by simp [toPairs, AList.keys, List.keys, Function.comp_def]
  rw [h]
  exact m.keys_nodup

variable [DecidableEq K]

theorem mem_of_lookup {m : HashMap K V} {k : K} {v : V} (h : m.lookup k = some v) : k ∈ m :=
  AList.lookup_isSome.mp (Option.isSome_iff_exists.mpr ⟨v, h⟩)

theorem exists_lookup {m : HashMap K V} {k : K} (h : k ∈ m) : ∃ v, m.lookup k = some v :=
  Option.isSome_iff_exists.mp (AList.lookup_isSome.mpr h)

theorem lookup_both {m m' : HashMap K V} {k : K} (h : k ∈ m ↔ k ∈ m') :
    m.lookup k = none ∧ m'.lookup k = none ∨ ∃ v v', m.lookup k = some v ∧ m'.lookup k = some v' := by
  by_cases hk : k ∈ m
  · obtain ⟨v, hv⟩ := exists_lookup hk
    obtain ⟨v', hv'⟩ := exists_lookup (h.mp hk)
    exact .inr ⟨v, v', hv, hv'⟩
  · exact .inl ⟨AList.lookup_eq_none.mpr hk, AList.lookup_eq_none.mpr fun hin => hk (h.mpr hin)⟩

/-- Writes through a mutable reference to the value, if there is one. -/
def modify (k : K) (f : V → V) (m : HashMap K V) : HashMap K V :=
  m.mapValues fun k' v => if k' = k then f v else v

/-- `insert`; a key that is there keeps its place. -/
def put (k : K) (v : V) (m : HashMap K V) : HashMap K V :=
  if k ∈ m then m.modify k fun _ => v else m.insert k v

/-- `entry(k).or_insert(v)` -/
def orInsert (k : K) (v : V) (m : HashMap K V) : HashMap K V :=
  if k ∈ m then m else m.insert k v

/-- `entry(k).or_default().push(x)` -/
def pushBack {α : Type v} (k : K) (x : α) (m : HashMap K (List α)) : HashMap K (List α) :=
  (m.orInsert k []).modify k (· ++ [x])

def queueOf {α : Type v} (m : HashMap K (List α)) (k : K) : List α := (m.lookup k).getD []

/-- `retain` on the list of a key, which goes when it is empty. -/
def retain {α : Type v} (k : K) (keep : α → Bool) (m : HashMap K (List α)) : HashMap K (List α) :=
  match m.lookup k with
  | none => m
  | some xs => if (xs.filter keep).isEmpty then m.erase k else m.modify k (List.filter keep)

@[simp] theorem lookup_mapValues (f : K → V → W) (m : HashMap K V) (k : K) :
    (m.mapValues f).lookup k = (m.lookup k).map (f k) := by
  obtain ⟨l, hl⟩ := m
  simp only [AList.lookup, mapValues]
  clear hl
  induction l with
  | nil => rfl
  | cons e l ih =>
    obtain ⟨a, v⟩ := e
    by_cases h : a = k
    · subst h; simp
    · simp [List.dlookup_cons_ne, Ne.symm h, ih]

theorem lookup_modify (k : K) (f : V → V) (m : HashMap K V) : (m.modify k f).lookup k = (m.lookup k).map f := by
  simp [modify]

theorem lookup_modify_ne {k k' : K} (h : k' ≠ k) (f : V → V) (m : HashMap K V) :
    (m.modify k f).lookup k' = m.lookup k' := by
  simp [modify, h]

theorem exists_modify {p : V → Prop} {f : V → V} {k : K} {m : HashMap K V}
    (hf : ∀ v, m.lookup k = some v → (p (f v) ↔ p v)) (k' : K) :
    (∃ v, (m.modify k f).lookup k' = some v ∧ p v) ↔ ∃ v, m.lookup k' = some v ∧ p v := by
  by_cases hk : k' = k
  · subst hk
    rw [lookup_modify]
    cases hl : m.lookup k' with
    | none => simp
    | some v => simpa using hf v hl
  · rw [lookup_modify_ne hk]

@[simp] theorem lookup_put (k : K) (v : V) (m : HashMap K V) : (m.put k v).lookup k = some v := by
  unfold put
  split
  · rename_i h
    obtain ⟨x, hx⟩ := exists_lookup h
    rw [lookup_modify, hx, Option.map_some]
  · rw [AList.lookup_insert]

theorem lookup_put_ne {k k' : K} (h : k' ≠ k) (v : V) (m : HashMap K V) : (m.put k v).lookup k' = m.lookup k' := by
  unfold put
  split
  · rw [lookup_modify_ne h]
  · rw [AList.lookup_insert_ne h]

theorem lookup_orInsert (k : K) (v : V) (m : HashMap K V) :
    (m.orInsert k v).lookup k = some ((m.lookup k).getD v) := by
  unfold orInsert
  by_cases h : k ∈ m
  · obtain ⟨x, hx⟩ := exists_lookup h
    simp [h, hx]
  · simp [h, AList.lookup_eq_none.mpr h]

theorem lookup_orInsert_ne {k k' : K} (h : k' ≠ k) (v : V) (m : HashMap K V) :
    (m.orInsert k v).lookup k' = m.lookup k' := by
  unfold orInsert
  split
  · rfl
  · rw [AList.lookup_insert_ne h]

theorem mem_put {k k' : K} {v : V} {m : HashMap K V} : k' ∈ m.put k v ↔ k' = k ∨ k' ∈ m := by
  rw [← AList.lookup_isSome, ← AList.lookup_isSome]
  by_cases h : k' = k
  · subst h
    simp
  · simp [lookup_put_ne h, h]

theorem mem_orInsert {k k' : K} {v : V} {m : HashMap K V} : k' ∈ m.orInsert k v ↔ k' = k ∨ k' ∈ m := by
  rw [← AList.lookup_isSome, ← AList.lookup_isSome]
  by_cases h : k' = k
  · subst h
    simp [lookup_orInsert]
  · simp [lookup_orInsert_ne h, h]

theorem lookup_pushBack {α : Type v} (k : K) (x : α) (m : HashMap K (List α)) :
    (m.pushBack k x).lookup k = some ((m.lookup k).getD [] ++ [x]) := by
  rw [pushBack, lookup_modify, lookup_orInsert, Option.map_some]

theorem lookup_pushBack_ne {α : Type v} {k k' : K} (h : k' ≠ k) (x : α) (m : HashMap K (List α)) :
    (m.pushBack k x).lookup k' = m.lookup k' := by
  rw [pushBack, lookup_modify_ne h, lookup_orInsert_ne h]

theorem lookup_retain {α : Type v} (k : K) (keep : α → Bool) (m : HashMap K (List α)) :
    (m.retain k keep).lookup k = ((m.lookup k).map (List.filter keep)).filter fun xs => !xs.isEmpty := by
  unfold retain
  cases h : m.lookup k with
  | none => simp [h]
  | some xs =>
    by_cases he : (xs.filter keep).isEmpty = true
    · simp [he, AList.lookup_erase, Option.filter_some]
    · simp [he, lookup_modify, h, Option.filter_some]

theorem lookup_retain_ne {α : Type v} {k k' : K} (h : k' ≠ k) (keep : α → Bool) (m : HashMap K (List α)) :
    (m.retain k keep).lookup k' = m.lookup k' := by
  unfold retain
  split
  · rfl
  · split
    · rw [AList.lookup_erase_ne h]
    · rw [lookup_modify_ne h]

theorem queueOf_of_lookup {α : Type v} {m : HashMap K (List α)} {k : K} {xs : List α} (h : m.lookup k = some xs) :
    m.queueOf k = xs := by
  rw [queueOf, h, Option.getD_some]

theorem queueOf_pushBack {α : Type v} (k k' : K) (x : α) (m : HashMap K (List α)) :
    (m.pushBack k x).queueOf k' = if k' = k then m.queueOf k' ++ [x] else m.queueOf k' := by
  unfold queueOf
  split
  · rename_i h
    rw [h, lookup_pushBack, Option.getD_some]
  · rename_i h
    rw [lookup_pushBack_ne h]

theorem queueOf_retain {α : Type v} (k k' : K) (keep : α → Bool) (m : HashMap K (List α)) :
    (m.retain k keep).queueOf k' = if k' = k then (m.queueOf k').filter keep else m.queueOf k' := by
  unfold queueOf
  split
  · rename_i h
    rw [h, lookup_retain]
    cases hl : m.lookup k with
    | none => rfl
    | some xs =>
      by_cases he : xs.filter keep = []
      · simp [he, Option.filter_some]
      · simp [he, Option.filter_some]
  · rename_i h
    rw [lookup_retain_ne h]

def Used {α : Type v} (m : HashMap K (List α)) : Prop := ∀ k xs, m.lookup k = some xs → xs ≠ []

theorem used_empty {α : Type v} : Used (∅ : HashMap K (List α)) := by
  intro k xs h
  cases h

theorem Used.pushBack {α : Type v} {m : HashMap K (List α)} (h : m.Used) (k : K) (x : α) : (m.pushBack k x).Used := by
  intro k' xs hl
  by_cases hk : k' = k
  · rw [hk, lookup_pushBack] at hl
    cases hl
    simp
  · rw [lookup_pushBack_ne hk] at hl
    exact h k' xs hl

theorem Used.retain {α : Type v} {m : HashMap K (List α)} (h : m.Used) (k : K) (keep : α → Bool) :
    (m.retain k keep).Used := by
  intro k' xs hl
  by_cases hk : k' = k
  · rw [hk, lookup_retain] at hl
    have hne := (Option.filter_eq_some_iff.mp hl).2
    simpa using hne
  · rw [lookup_retain_ne hk] at hl
    exact h k' xs hl

theorem mem_values {m : HashMap K V} {v : V} : v ∈ m.values ↔ ∃ k, m.lookup k = some v := by
  simp only [values, List.mem_map]
  constructor
  · rintro ⟨⟨k, x⟩, he, rfl⟩
    exact ⟨k, AList.mem_lookup_iff.mpr he⟩
  · rintro ⟨k, hk⟩
    exact ⟨⟨k, v⟩, AList.mem_lookup_iff.mp hk, rfl⟩

theorem mem_toPairs {m : HashMap K V} {k : K} {v : V} : (k, v) ∈ m.toPairs ↔ m.lookup k = some v := by
  simp only [toPairs, List.mem_map, Prod.mk.injEq]
  constructor
  · rintro ⟨⟨k', x⟩, he, rfl, rfl⟩
    exact AList.mem_lookup_iff.mpr he
  · intro h
    exact ⟨⟨k, v⟩, AList.mem_lookup_iff.mp h, rfl, rfl⟩

omit [DecidableEq K] in
theorem filter_flatMap_key {α : Type w} (key : K) {pairs : List (K × V)} (hn : (pairs.map Prod.fst).Nodup)
    {f : K × V → List α} {p : α → Bool} (hother : ∀ e ∈ pairs, e.1 ≠ key → ∀ x ∈ f e, p x = false) {v : V}
    (hin : (key, v) ∈ pairs) (hkey : ∀ x ∈ f (key, v), p x = true) : (pairs.flatMap f).filter p = f (key, v) := by
  have hnil : ∀ pairs : List (K × V), (∀ e ∈ pairs, ∀ x ∈ f e, p x = false) → (pairs.flatMap f).filter p = [] := by
    intro pairs hno
    rw [List.filter_eq_nil_iff]
    intro x hx
    obtain ⟨e, he, hx⟩ := List.mem_flatMap.mp hx
    simp [hno e he x hx]
  obtain ⟨pre, post, rfl⟩ := List.append_of_mem hin
  have hne : ∀ e, e ∈ pre ∨ e ∈ post → e.1 ≠ key := by
    rintro e he rfl
    rw [List.map_append, List.map_cons, List.nodup_append, List.nodup_cons] at hn
    rcases he with he | he
    · exact hn.2.2 e.1 (List.mem_map_of_mem he) e.1 (List.mem_cons_self ..) rfl
    · exact hn.2.1.1 (List.mem_map.mpr ⟨e, he, rfl⟩)
  have hpre := hnil pre fun e he => hother e (List.mem_append_left _ he) (hne e (.inl he))
  have hpost := hnil post fun e he =>
    hother e (List.mem_append_right _ (List.mem_cons_of_mem _ he)) (hne e (.inr he))
  rw [List.flatMap_append, List.flatMap_cons, List.filter_append, List.filter_append, hpre, hpost,
    List.filter_eq_self.mpr hkey]
  simp

omit [DecidableEq K] in
theorem mapValues_mapValues {X : Type*} (f : K → V → W) (g : K → W → X) (m : HashMap K V) :
    (m.mapValues f).mapValues g = m.mapValues fun k v => g k (f k v) := by
  apply AList.ext
  simp [mapValues, Function.comp_def]

theorem erase_mapValues (f : K → V → W) (k : K) (m : HashMap K V) :
    (m.mapValues f).erase k = mapValues f (m.erase k) := by
  apply AList.ext
  obtain ⟨l, hl⟩ := m
  let g : (Sigma fun _ : K => V) → (Sigma fun _ : K => W) := fun e => ⟨e.1, f e.1 e.2⟩
  change (l.map g).kerase k = (l.kerase k).map g
  clear hl
  induction l with
  | nil => rfl
  | cons e l ih =>
    obtain ⟨a, v⟩ := e
    by_cases h : k = a
    · have hfirst : k = (g ⟨a, v⟩).1 := h
      rw [List.map_cons, List.kerase_cons_eq hfirst, List.kerase_cons_eq h]
    · have hfirst : k ≠ (g ⟨a, v⟩).1 := h
      rw [List.map_cons, List.kerase_cons_ne hfirst, List.kerase_cons_ne h, ih, List.map_cons]

theorem erase_modify_self (k : K) (f : V → V) (m : HashMap K V) : (m.modify k f).erase k = m.erase k := by
  unfold modify
  rw [erase_mapValues]
  apply AList.ext
  have hout : ∀ e ∈ (m.erase k).entries, e.1 ≠ k := by
    rintro e he rfl
    exact (AList.mem_erase.mp (List.mem_keys_of_mem he : e.1 ∈ m.erase e.1)).1 rfl
  refine (List.map_congr_left fun e he => ?_).trans (List.map_id _)
  simp [hout e he]

end HashMap

end Redis.Lib
