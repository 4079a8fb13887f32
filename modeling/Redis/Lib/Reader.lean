import Mathlib.Data.List.Forall2

/-!
# Readers

A reader takes what it needs off its input. It can fail with an error, and it
can panic, which is `none`. `Yields` speaks of the value it comes to, `Shrinks`
of what it leaves of the input, and `Takes` of both where the input is a list.
`Reads` is `Takes` for a reader that may look for more, when there is no more.
-/

namespace Redis.Lib

universe u

abbrev Reader (σ ε : Type) (α : Type) := StateT σ (ExceptT ε Option) α

namespace Reader

section
variable {σ ε α β : Type} {s : σ}

theorem bind_apply (b : Reader σ ε α) (f : α → Reader σ ε β) (s : σ) :
    (b >>= f) s = match b s with
      | none => none
      | some (.error e) => some (.error e)
      | some (.ok (a, t)) => f a t := by
  have hbind : (b >>= f) s = ExceptT.bind (b s) fun r => f r.1 r.2 := rfl
  rw [hbind]
  unfold ExceptT.bind ExceptT.mk ExceptT.bindCont
  cases b s with
  | none => rfl
  | some r => cases r <;> rfl

theorem bind_eq_ok {b : Reader σ ε α} {f : α → Reader σ ε β} {r : β × σ} :
    (b >>= f) s = some (.ok r) ↔ ∃ a t, b s = some (.ok (a, t)) ∧ f a t = some (.ok r) := by
  rw [bind_apply]
  constructor
  · intro h
    cases hb : b s with
    | none =>
      rw [hb] at h
      cases h
    | some x =>
      rw [hb] at h
      cases x with
      | error e => cases h
      | ok y => exact ⟨y.1, y.2, rfl, h⟩
  · rintro ⟨a, t, hb, hf⟩
    rw [hb]
    exact hf

/-! ## What is read -/

/-- What the reader comes to, if it comes to anything. -/
def Yields (b : Reader σ ε α) (p : α → Prop) : Prop := ∀ s a t, b s = some (.ok (a, t)) → p a

variable {p : α → Prop} {q : β → Prop}

theorem yields_pure {a : α} (h : p a) : Yields (pure a : Reader σ ε α) p := by
  intro s a' t hs
  cases hs
  exact h

theorem Yields.bind {b : Reader σ ε β} {f : β → Reader σ ε α} (hb : Yields b q) (hf : ∀ x, q x → Yields (f x) p) :
    Yields (b >>= f) p := by
  intro s a t hs
  obtain ⟨x, u, hx, hu⟩ := bind_eq_ok.mp hs
  exact hf x (hb s x u hx) u a t hu

/-- Of what is read before, nothing is needed. -/
theorem yields_bind {b : Reader σ ε β} {f : β → Reader σ ε α} (hf : ∀ x, Yields (f x) p) : Yields (b >>= f) p := by
  have hb : Yields b fun _ => True := fun _ _ _ _ => trivial
  exact hb.bind fun x _ => hf x

theorem yields_ite {c : Prop} [Decidable c] {b b' : Reader σ ε α} (hb : Yields b p) (hb' : Yields b' p) :
    Yields (if c then b else b') p := by
  by_cases hc : c
  · rw [if_pos hc]
    exact hb
  · rw [if_neg hc]
    exact hb'

/-! ## What is left -/

variable {size : σ → Nat}

def Shrinks (size : σ → Nat) (b : Reader σ ε α) : Prop := ∀ s a t, b s = some (.ok (a, t)) → size t ≤ size s

theorem shrinks_pure (a : α) : Shrinks size (pure a : Reader σ ε α) := by
  intro s a' t hs
  cases hs
  exact Nat.le_refl _

theorem Shrinks.bind {b : Reader σ ε β} {f : β → Reader σ ε α} (hb : Shrinks size b) (hf : ∀ x, Shrinks size (f x)) :
    Shrinks size (b >>= f) := by
  intro s a t hs
  obtain ⟨x, u, hx, hu⟩ := bind_eq_ok.mp hs
  exact Nat.le_trans (hf x u a t hu) (hb s x u hx)

theorem shrinks_ite {c : Prop} [Decidable c] {b b' : Reader σ ε α} (hb : Shrinks size b) (hb' : Shrinks size b') :
    Shrinks size (if c then b else b') := by
  by_cases hc : c
  · rw [if_pos hc]
    exact hb
  · rw [if_neg hc]
    exact hb'

end

/-! ## What is taken -/

section
variable {τ ε α β : Type} {input more : List τ} {a : α} {b : β}

/-- Whatever comes behind the input, the reader takes the input and comes to the value. -/
def Takes (r : Reader (List τ) ε α) (input : List τ) (a : α) : Prop := ∀ rest, r (input ++ rest) = some (.ok (a, rest))

theorem takes_pure (a : α) : Takes (pure a : Reader (List τ) ε α) [] a := fun _ => rfl

theorem Takes.bind {r : Reader (List τ) ε α} {f : α → Reader (List τ) ε β} (hr : Takes r input a)
    (hf : Takes (f a) more b) : Takes (r >>= f) (input ++ more) b := by
  intro rest
  rw [List.append_assoc, bind_eq_ok]
  exact ⟨a, more ++ rest, hr _, hf rest⟩

theorem Takes.cons {t : τ} {r : Reader (List τ) ε α} {f : α → Reader (List τ) ε β} (hr : Takes r [t] a)
    (hf : Takes (f a) more b) : Takes (r >>= f) (t :: more) b := hr.bind hf

theorem Takes.map {r : Reader (List τ) ε α} {f : α → Reader (List τ) ε β} (hr : Takes r input a)
    (hf : Takes (f a) [] b) : Takes (r >>= f) input b := by
  have h := hr.bind hf
  rwa [List.append_nil] at h

/-! ## What is all there is -/

def Reads (r : Reader (List τ) ε α) (input : List τ) (a : α) : Prop := r input = some (.ok (a, []))

theorem reads_pure (a : α) : Reads (pure a : Reader (List τ) ε α) [] a := rfl

theorem Reads.bind {r : Reader (List τ) ε α} {f : α → Reader (List τ) ε β} (hr : Reads r input a)
    (hf : Reads (f a) [] b) : Reads (r >>= f) input b := bind_eq_ok.mpr ⟨a, [], hr, hf⟩

theorem Reads.append {r : Reader (List τ) ε α} {f : α → Reader (List τ) ε β} (hr : Takes r input a)
    (hf : Reads (f a) more b) : Reads (r >>= f) (input ++ more) b := bind_eq_ok.mpr ⟨a, more, hr more, hf⟩

theorem Reads.cons {t : τ} {r : Reader (List τ) ε α} {f : α → Reader (List τ) ε β} (hr : Takes r [t] a)
    (hf : Reads (f a) more b) : Reads (r >>= f) (t :: more) b := .append hr hf

theorem Reads.skip {r : Reader (List τ) ε α} {f : α → Reader (List τ) ε β} (hr : Takes r [] a)
    (hf : Reads (f a) input b) : Reads (r >>= f) input b := .append hr hf

theorem takes_mapM {γ : Type} {f : γ → Reader (List τ) ε β} {l : List γ} {bs : List β}
    (h : List.Forall₂ (fun c b => Takes (f c) [] b) l bs) : Takes (l.mapM f) [] bs := by
  induction h with
  | nil => exact takes_pure []
  | cons hf _ ih =>
    rw [List.mapM_cons]
    exact hf.map (ih.map (takes_pure _))

end

end Reader

end Redis.Lib
