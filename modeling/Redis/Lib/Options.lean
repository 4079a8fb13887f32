import Mathlib.Data.List.Basic

/-!
# Options in pairs

A command line that is read two words at a time, an option and the word behind
it, which is missing at an odd end. What is done for an option can fail. If
each option sets what it is for and leaves the rest, the last one counts.
-/

namespace Redis.Lib

universe u v w

namespace Options

section
variable {W : Type u} {S : Type v} {A : Type w}

def takePairs (f : S → W → Option W → Option S) : S → List W → Option S
  | s, [] => some s
  | s, [word] => f s word none
  | s, word :: value :: rest => (f s word (some value)).bind fun s => takePairs f s rest

def pairs : List W → List (W × W)
  | word :: value :: rest => (word, value) :: pairs rest
  | _ => []

def alone : List W → Option W
  | [] => none
  | [word] => some word
  | _ :: _ :: rest => alone rest

def given (p : W → Bool) (words : List W) : Option W := (((pairs words).filter fun x => p x.1).getLast?).map Prod.snd

theorem given_cons {p : W → Bool} {word value : W} {rest : List W} :
    given p (word :: value :: rest) = (given p rest).or (if p word then some value else none) := by
  unfold given
  rw [pairs, List.filter_cons]
  by_cases hp : p word
  · cases hl : ((pairs rest).filter fun x => p x.1).getLast? <;> simp [hp, hl, List.getLast?_cons]
  · simp [hp]

theorem takePairs_isSome {f : S → W → Option W → Option S} {ok : W → Option W → Prop}
    (hf : ∀ s word value, (f s word value).isSome = true ↔ ok word value) (s : S) (words : List W) :
    (takePairs f s words).isSome = true ↔
      (∀ x ∈ pairs words, ok x.1 (some x.2)) ∧ ∀ word ∈ alone words, ok word none := by
  induction s, words using takePairs.induct with
  | case1 s => simp [takePairs, pairs, alone]
  | case2 s word => simp [takePairs, pairs, alone, hf]
  | case3 s word value rest ih =>
    simp only [takePairs, pairs, alone, List.forall_mem_cons]
    cases hs : f s word (some value) with
    | none =>
      have hno : ¬ ok word (some value) := by
        rw [← hf s, hs]
        simp
      simp [hno]
    | some t =>
      have hok : ok word (some value) := by
        rw [← hf s, hs]
        rfl
      simp only [Option.bind_some, ih t, hok, true_and]

/-- The option that was given last is what counts. -/
theorem takePairs_given {f : S → W → Option W → Option S} (get : S → A) (p : W → Bool) (read : W → A)
    {s s' : S} {words : List W} (hset : ∀ t word value t', f t word (some value) = some t' →
      get t' = if p word then read value else get t)
    (halone : ∀ t word t', f t word none = some t' → get t' = get t) (h : takePairs f s words = some s') :
    get s' = ((given p words).map read).getD (get s) := by
  induction s, words using takePairs.induct with
  | case1 s =>
    cases h
    rfl
  | case2 s word => exact halone _ _ _ h
  | case3 s word value rest ih =>
    obtain ⟨t, ht, hrest⟩ := Option.bind_eq_some_iff.mp h
    rw [ih t hrest, hset _ _ _ _ ht, given_cons]
    cases given p rest with
    | some _ => rfl
    | none => by_cases hp : p word <;> simp [hp]

end

end Options

end Redis.Lib
