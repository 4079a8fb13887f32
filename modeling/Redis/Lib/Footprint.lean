import Mathlib.Data.Set.Basic
import Redis.Lib.HashMap
import Redis.Lib.Runs

/-!
# Footprints

An operation on a map has the footprint `F` if what it does to the keys of `F`,
and what it answers, depends on what they hold, and the other keys stay.
`Moves` is what two executions of it keep, step by step. `slice` is the rule for
runs: if each operation has its footprint inside `F` or outside, the ones inside
do the same without the others.
-/

namespace Redis.Lib

universe u v w

namespace HashMap

variable {K : Type u} {V : Type v} {A : Type w} [DecidableEq K]

def Agree (F : Set K) (m n : HashMap K V) : Prop := ∀ k ∈ F, m.lookup k = n.lookup k

namespace Agree

variable {F G : Set K} {m n l : HashMap K V}

theorem refl (m : HashMap K V) : Agree F m m := fun _ _ => rfl

theorem symm (h : Agree F m n) : Agree F n m := fun k hk => (h k hk).symm

theorem trans (h : Agree F m n) (h' : Agree F n l) : Agree F m l := fun k hk => (h k hk).trans (h' k hk)

theorem mono (h : Agree F m n) (hG : G ⊆ F) : Agree G m n := fun k hk => h k (hG hk)

end Agree

/-- From `m` and `n` on, the two executions have come to `m'` and `n'`: what holds
the same inside the footprint, and has not changed outside. -/
structure Moves (F : Set K) (m n m' n' : HashMap K V) : Prop where
  inside : Agree F m' n'
  left : Agree Fᶜ m m'
  right : Agree Fᶜ n n'

namespace Moves

variable {F : Set K} {m n m' n' : HashMap K V} {key : K}

theorem refl (h : Agree F m n) : Moves F m n m n := ⟨h, .refl _, .refl _⟩

theorem lookup (h : Moves F m n m' n') (hk : key ∈ F) : n'.lookup key = m'.lookup key := (h.inside key hk).symm

theorem update (h : Moves F m n m' n') (hk : key ∈ F) {u : HashMap K V → HashMap K V}
    (hat : ∀ s t : HashMap K V, s.lookup key = t.lookup key → (u s).lookup key = (u t).lookup key)
    (hframe : ∀ (s : HashMap K V) k, k ≠ key → (u s).lookup k = s.lookup k) : Moves F m n (u m') (u n') := by
  have houtside : ∀ k, k ∈ Fᶜ → k ≠ key := by
    intro k hout heq
    rw [heq] at hout
    exact hout hk
  refine ⟨fun k hin => ?_, fun k hout => ?_, fun k hout => ?_⟩
  · by_cases heq : k = key
    · subst heq
      exact hat _ _ (h.inside k hin)
    · rw [hframe _ k heq, hframe _ k heq]
      exact h.inside k hin
  · rw [hframe _ k (houtside k hout)]
    exact h.left k hout
  · rw [hframe _ k (houtside k hout)]
    exact h.right k hout

theorem insert (h : Moves F m n m' n') (hk : key ∈ F) (v : V) : Moves F m n (m'.insert key v) (n'.insert key v) := by
  apply h.update hk (u := fun s => s.insert key v)
  · intro s t _
    simp
  · intro s k hne
    exact AList.lookup_insert_ne hne

theorem orInsert (h : Moves F m n m' n') (hk : key ∈ F) (v : V) :
    Moves F m n (HashMap.orInsert key v m') (HashMap.orInsert key v n') := by
  apply h.update hk (u := HashMap.orInsert key v)
  · intro s t hst
    rw [lookup_orInsert, lookup_orInsert, hst]
  · intro s k hne
    exact lookup_orInsert_ne hne v s

theorem modify (h : Moves F m n m' n') (hk : key ∈ F) (f : V → V) :
    Moves F m n (HashMap.modify key f m') (HashMap.modify key f n') := by
  apply h.update hk (u := HashMap.modify key f)
  · intro s t hst
    rw [lookup_modify, lookup_modify, hst]
  · intro s k hne
    exact lookup_modify_ne hne f s

theorem erase (h : Moves F m n m' n') (hk : key ∈ F) : Moves F m n (m'.erase key) (n'.erase key) := by
  apply h.update hk (u := fun s => s.erase key)
  · intro s t _
    simp
  · intro s k hne
    exact AList.lookup_erase_ne hne

end Moves

inductive Matched (F : Set K) (m n : HashMap K V) : Option (HashMap K V × A) → Option (HashMap K V × A) → Prop
  | none : Matched F m n none none
  | some {m' n' : HashMap K V} (a : A) : Moves F m n m' n' → Matched F m n (some (m', a)) (some (n', a))

/-- What the operation does depends on these keys, and changes no others. -/
def Local (F : Set K) (f : HashMap K V → Option (HashMap K V × A)) : Prop :=
  ∀ m n, Agree F m n → Matched F m n (f m) (f n)

namespace Local

variable {F G : Set K} {f : HashMap K V → Option (HashMap K V × A)} {m n m' : HashMap K V} {key : K} {a : A}

theorem read {g : HashMap K V → Option A} (hk : key ∈ F)
    (hg : ∀ m n : HashMap K V, n.lookup key = m.lookup key → g n = g m) :
    Local F fun m => (g m).map fun a => (m, a) := by
  intro m n h
  have hsame : g n = g m := hg m n (h key hk).symm
  simp only [hsame]
  cases g m with
  | none => exact .none
  | some a => exact .some a (.refl h)

theorem answer (a : A) : Local F fun m : HashMap K V => some (m, a) := fun _ _ h => .some a (.refl h)

/-- An operation with a footprint does the same where its keys hold the same. -/
theorem again (hf : Local F f) (h : Agree F m n) (hm : f m = some (m', a)) : ∃ n', f n = some (n', a) ∧
    Moves F m n m' n' := by
  have hmatched := hf m n h
  rw [hm] at hmatched
  cases hfn : f n with
  | none =>
    rw [hfn] at hmatched
    cases hmatched
  | some x =>
    rw [hfn] at hmatched
    cases hmatched with
    | some _ hmoves => exact ⟨_, rfl, hmoves⟩

/-- It leaves the keys that are not its own. -/
theorem frame (hf : Local F f) (hm : f m = some (m', a)) : Agree Fᶜ m m' := by
  obtain ⟨_, _, hmoves⟩ := hf.again (.refl m) hm
  exact hmoves.left

theorem mono (hf : Local F f) (hG : F ⊆ G) : Local G f := by
  intro m n h
  have hmatched := hf m n (h.mono hG)
  generalize f m = x, f n = y at hmatched
  cases hmatched with
  | none => exact .none
  | some a hmoves =>
    refine .some a ⟨fun k hin => ?_, fun k hout => ?_, fun k hout => ?_⟩
    · by_cases hk : k ∈ F
      · exact hmoves.inside k hk
      · rw [← hmoves.left k hk, ← hmoves.right k hk]
        exact h k hin
    · exact hmoves.left k fun hk => hout (hG hk)
    · exact hmoves.right k fun hk => hout (hG hk)

end Local

/-! ## Runs -/

section
variable {ι : Type w} {B : Type w} {op : ι → HashMap K V → Option (HashMap K V × B)} {answer : ι → B}

def Does (op : ι → HashMap K V → Option (HashMap K V × B)) (answer : ι → B) (m : HashMap K V) (i : ι)
    (m' : HashMap K V) : Prop :=
  op i m = some (m', answer i)

def Leaves (op : ι → HashMap K V → Option (HashMap K V × B)) (answer : ι → B) (m : HashMap K V) (i : ι)
    (m' : HashMap K V) : Prop :=
  ∃ n, Does op answer m i n ∧ Agree Set.univ n m'

/-- The operations inside the footprint do the same without the others. -/
theorem slice {F : Set K} {p : ι → Bool} {m m' n : HashMap K V} {is : List ι} (hr : Run (Leaves op answer) m is m')
    (hin : ∀ i ∈ is, p i = true → Local F (op i)) (hout : ∀ i ∈ is, p i = false → Local Fᶜ (op i))
    (h : Agree F m n) : ∃ n', Run (Does op answer) n (is.filter p) n' ∧ Agree F m' n' := by
  induction hr generalizing n with
  | nil => exact ⟨n, .nil, h⟩
  | @cons m i l is m' hstep _ ih =>
    obtain ⟨l', hop, hsame⟩ := hstep
    have hinRest := fun j hj => hin j (List.mem_cons_of_mem _ hj)
    have houtRest := fun j hj => hout j (List.mem_cons_of_mem _ hj)
    by_cases hmine : p i = true
    · obtain ⟨n', hn, hmoves⟩ := (hin i (List.mem_cons_self ..) hmine).again h hop
      have hnext : Agree F l n' := (hsame.mono (Set.subset_univ _)).symm.trans hmoves.inside
      obtain ⟨n'', hrun, hagree⟩ := ih hinRest houtRest hnext
      refine ⟨n'', ?_, hagree⟩
      rw [List.filter_cons_of_pos hmine]
      exact .cons hn hrun
    · have hlocal := hout i (List.mem_cons_self ..) (by simpa using hmine)
      have hleft : Agree F m l' := (hlocal.frame hop).mono fun k hk hnot => hnot hk
      have hnext : Agree F l n := (hsame.mono (Set.subset_univ _)).symm.trans (hleft.symm.trans h)
      obtain ⟨n'', hrun, hagree⟩ := ih hinRest houtRest hnext
      refine ⟨n'', ?_, hagree⟩
      rw [List.filter_cons_of_neg hmine]
      exact hrun

end

end HashMap

end Redis.Lib
