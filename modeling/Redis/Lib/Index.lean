import Redis.Lib.HashMap

/-!
# Indexes of a store

A store keeps entries under their identities, and beside it live indexes: `R`
is the index of what `p` says of the entries if it relates `k` to exactly the
identities of the entries that have `p` at `k`. The lemmas say what becomes of
an index when an entry comes, goes or changes.
-/

namespace Redis.Lib

universe u v w

variable {T : Type u} {E : Type v} {K : Type w} [DecidableEq T]

def Indexed (store : HashMap T E) (p : E → K → Prop) (R : K → T → Prop) : Prop :=
  ∀ k t, R k t ↔ ∃ e, store.lookup t = some e ∧ p e k

namespace Indexed

variable {store : HashMap T E} {p : E → K → Prop} {R : K → T → Prop} {t : T} {e : E}

theorem empty (hR : ∀ k t, ¬ R k t) : Indexed (∅ : HashMap T E) p R := by
  intro k t
  simp [hR k t]

theorem congr (h : Indexed store p R) {R' : K → T → Prop} (hR : ∀ k t, R' k t ↔ R k t) : Indexed store p R' :=
  fun k t => (hR k t).trans (h k t)

theorem entry (h : Indexed store p R) (ht : store.lookup t = some e) {k : K} : R k t ↔ p e k := by
  rw [h k t, ht]
  simp

/-- An entry comes in the place of one the index does not know, or of none. -/
theorem put (h : Indexed store p R) (hno : ∀ k, ¬ R k t) {R' : K → T → Prop}
    (hR : ∀ k t', R' k t' ↔ R k t' ∨ t' = t ∧ p e k) : Indexed (store.insert t e) p R' := by
  intro k t'
  rw [hR]
  by_cases heq : t' = t
  · subst heq
    simp [hno k, AList.lookup_insert]
  · simp [heq, AList.lookup_insert_ne heq, h k t']

theorem absent (h : Indexed store p R) (ht : store.lookup t = none) (k : K) : ¬ R k t := by
  rw [h k t, ht]
  simp

theorem insert (h : Indexed store p R) (ht : store.lookup t = none) {R' : K → T → Prop}
    (hR : ∀ k t', R' k t' ↔ R k t' ∨ t' = t ∧ p e k) : Indexed (store.insert t e) p R' := h.put (h.absent ht) hR

theorem insert_other (h : Indexed store p R) (ht : store.lookup t = none) (hp : ∀ k, ¬ p e k) :
    Indexed (store.insert t e) p R := h.insert ht fun k t' => by simp [hp k]

theorem erase (h : Indexed store p R) {R' : K → T → Prop} (hR : ∀ k t', R' k t' ↔ R k t' ∧ t' ≠ t) :
    Indexed (store.erase t) p R' := by
  intro k t'
  rw [hR]
  by_cases heq : t' = t
  · subst heq
    simp [AList.lookup_erase]
  · simp [heq, AList.lookup_erase_ne heq, h k t']

theorem erase_other (h : Indexed store p R) (ht : store.lookup t = some e) (hp : ∀ k, ¬ p e k) :
    Indexed (store.erase t) p R := by
  refine h.erase fun k t' => ⟨fun hR => ⟨hR, ?_⟩, And.left⟩
  rintro rfl
  exact hp k ((h.entry ht).mp hR)

theorem erase_key {M : K → Option T} (h : Indexed store p fun k t => M k = some t)
    (ht : store.lookup t = some e) {key : K}
    (hp : ∀ k, p e k → k = key) (hkey : ∀ t', M key = some t' → p e key) {M' : K → Option T} (hgone : M' key = none)
    (hkept : ∀ k, k ≠ key → M' k = M k) : Indexed (store.erase t) p fun k t' => M' k = some t' := by
  refine h.erase fun k t' => ?_
  by_cases hk : k = key
  · subst hk
    rw [hgone]
    refine ⟨nofun, ?_⟩
    rintro ⟨ht', hne⟩
    have hown : M k = some t := (h.entry ht).mpr (hkey t' ht')
    exact absurd (Option.some.inj (ht'.symm.trans hown)) hne
  · rw [hkept k hk]
    refine ⟨fun ht' => ⟨ht', ?_⟩, And.left⟩
    rintro rfl
    exact hk (hp k ((h.entry ht).mp ht'))

theorem modify (h : Indexed store p R) {f : E → E} (hf : ∀ e, store.lookup t = some e → ∀ k, p (f e) k ↔ p e k) :
    Indexed (store.modify t f) p R := fun k t' =>
  (h k t').trans (HashMap.exists_modify (fun e he => hf e he k) t').symm

end Indexed

end Redis.Lib
