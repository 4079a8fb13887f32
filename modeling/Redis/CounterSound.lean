import Redis.KindSound

/-!
# Counting with INCR

Whoever sends them, on its own or in a transaction, and whatever else happens in
between: the INCRs of a key that nothing else writes are answered with one
number after the other, up to the largest there is.
-/

namespace Redis

open Lib

namespace CmdHandler

/-- The number under a key, 0 if there is no such key. -/
def counterOf (data : Data) (key : String) : Option Int :=
  match data.lookup key with
  | none => some 0
  | some { value := .str s, .. } =>
    match parseInt (2 ^ 63) s with
    | .ok i => some i
    | .error _ => none
  | some _ => none

def largest : Int := 2 ^ 63 - 1

def incrResult (v : Int) : CmdResult :=
  if v < largest then reply (.integer (some (v + 1))) else .error (.unprocessableError "Integer overflow")

def incrResults (key : String) (cs : List Call) : List CmdResult :=
  (cs.filter fun c => c.cmd = .incr key).map Call.result

section
variable {P : Platform} {o : IterOrder} {data data' : Data} {key : String} {v : Int} {r : CmdResult}

theorem counterOf_congr (h : data'.lookup key = data.lookup key) : counterOf data' key = counterOf data key := by
  unfold counterOf
  rw [h]

theorem counterOf_le (h : counterOf data key = some v) : v ≤ largest := by
  unfold counterOf at h
  split at h
  · cases h
    decide
  · split at h
    · rename_i i hi
      cases h
      have := (parseInt_bounds (by decide) hi).2
      unfold largest
      omega
    · cases h
  · cases h

theorem counterOf_orInsert (h : counterOf data key = some v) :
    ∃ s x, (HashMap.orInsert key { value := .str "0", expiredAt := none } data).lookup key = some ⟨.str s, x⟩ ∧
      parseInt (2 ^ 63) s = .ok v := by
  unfold counterOf at h
  rw [HashMap.lookup_orInsert]
  cases hl : data.lookup key with
  | none =>
    rw [hl] at h
    cases h
    exact ⟨"0", none, rfl, by decide⟩
  | some item =>
    rw [hl] at h
    obtain ⟨value, x⟩ := item
    cases value with
    | str s =>
      simp only at h
      split at h
      · rename_i i hi
        cases h
        exact ⟨s, x, rfl, hi⟩
      · cases h
    | _ => cases h

/-- INCR answers with the next number and stores it, and fails on the last. -/
theorem cmdIncr_counts (h : counterOf data key = some v) (hi : cmdIncr data key = (data', r)) :
    r = incrResult v ∧ counterOf data' key = some (min (v + 1) largest) := by
  have hle := counterOf_le h
  obtain ⟨s, x, hl, hs⟩ := counterOf_orInsert h
  unfold cmdIncr at hi
  simp only [hl, hs] at hi
  by_cases hlt : v < 2 ^ 63 - 1
  · rw [if_pos hlt] at hi
    cases hi
    have hlow := (parseInt_bounds (by decide) hs).1
    have hread : parseInt (2 ^ 63) (toString (v + 1)) = .ok (v + 1) := parseInt_toString (by omega) (by omega)
    refine ⟨(if_pos hlt).symm, ?_⟩
    have hmin : min (v + 1) largest = v + 1 := min_eq_left (by unfold largest; omega)
    unfold counterOf
    rw [HashMap.lookup_modify, hl, hmin]
    simp only [Option.map_some, hread]
  · rw [if_neg hlt] at hi
    cases hi
    refine ⟨(if_neg hlt).symm, ?_⟩
    have hmin : min (v + 1) largest = v := by
      unfold largest at hle ⊢
      omega
    unfold counterOf
    rw [hl, hmin]
    simp only [hs]

/-! ## Runs -/

theorem step_counter {h h' : CmdHandler} {e : Event} (hs : Steps P h (o, e) h')
    (hh : ∀ cmd buf clientId epollFd, e ≠ .handle cmd buf clientId epollFd) (hc : counterOf h.data key = some v) :
    counterOf h'.data key = some v := by
  have hitems : listItems h.data key = [] := by
    unfold counterOf at hc
    unfold listItems
    split
    · rename_i items x hl
      rw [hl] at hc
      cases hc
    · rfl
  have hsame : h.data.lookup key = h'.data.lookup key := not_not.mp (step_data hs hh fun _ _ _ => hitems)
  rw [counterOf_congr hsame.symm]
  exact hc

theorem incrResults_append (cs cs' : List Call) :
    incrResults key (cs ++ cs') = incrResults key cs ++ incrResults key cs' := by
  simp [incrResults]

structure Counts (key : String) (v : Int) (g : CmdHandler) (cs : List Call) : Prop where
  number : counterOf g.data key = some (min (v + (incrResults key cs).length) largest)
  results : incrResults key cs = (List.range (incrResults key cs).length).map fun i : Nat => incrResult (v + i)

theorem incrResult_min {i : Nat} : incrResult (min (v + i) largest) = incrResult (v + i) := by
  by_cases hlt : v + i < largest
  · rw [min_eq_left (le_of_lt hlt)]
  · rw [min_eq_right (not_lt.mp hlt), incrResult, incrResult, if_neg (lt_irrefl _), if_neg hlt]

theorem Counts.call {c : Call} {cs : List Call} (hm : Call.Made P o c)
    (honly : c.cmd.target = some key → c.cmd = .incr key) (hg : Counts key v c.before cs) :
    Counts key v c.after (cs ++ [c]) := by
  by_cases hcmd : c.cmd = .incr key
  · obtain ⟨_, _, exec, s, d, fd, ser, out, _, _, _, hd, hc⟩ := hm
    rw [hcmd] at hd
    cases hi : cmdIncr c.before.data key with
    | mk data r =>
      have hprepared : cmdIncr (c.before.prepared (.incr key) s).data key = (data, r) := hi
      simp only [dispatch, hprepared, withData, Option.some.injEq, Prod.mk.injEq] at hd
      obtain ⟨rfl, hresult⟩ := hd
      obtain ⟨rfl, hnumber⟩ := cmdIncr_counts hg.number hi
      have hone : incrResults key [c] = [c.result] := by simp [incrResults, hcmd]
      rw [incrResult_min] at hresult
      constructor
      · rw [conclude_data hc, incrResults_append, hone, List.length_append, List.length_singleton]
        refine hnumber.trans (congrArg some ?_)
        push_cast
        omega
      · rw [incrResults_append, hone, List.length_append, List.length_singleton, List.range_succ, List.map_append,
          ← hg.results, ← hresult]
        rfl
  · have hsame : c.after.data.lookup key = c.before.data.lookup key := hm.elsewhere fun ht => hcmd (honly ht)
    have hnone : incrResults key (cs ++ [c]) = incrResults key cs := by
      rw [incrResults_append]
      simp [incrResults, hcmd]
    constructor
    · rw [counterOf_congr hsame, hnone]
      exact hg.number
    · rw [hnone]
      exact hg.results

/-- No increment is lost and none is counted twice. -/
theorem run_counts {h g : CmdHandler} {labels : List (IterOrder × Event)} (hr : Run (Steps P) h labels g)
    (hv : counterOf h.data key = some v)
    (honly : ∀ c ∈ runCalls P h labels, c.cmd.target = some key → c.cmd = .incr key) :
    incrResults key (runCalls P h labels) =
      (List.range (incrResults key (runCalls P h labels)).length).map (fun i : Nat => incrResult (v + i)) ∧
    counterOf g.data key = some (min (v + (incrResults key (runCalls P h labels)).length) largest) := by
  have hle := counterOf_le hv
  suffices hgen : ∀ made, Counts key v h made → Counts key v g (made ++ runCalls P h labels) by
    have hstart : Counts key v h [] := ⟨by simpa [incrResults, hle] using hv, rfl⟩
    have hend := hgen [] hstart
    exact ⟨hend.results, hend.number⟩
  clear hv
  induction hr with
  | nil =>
    intro made hmade
    have hnil : ∀ h : CmdHandler, runCalls P h [] = [] := fun _ => rfl
    rw [hnil, List.append_nil]
    exact hmade
  | @cons h label h' labels g hs _ ih =>
    intro made hmade
    rw [runCalls_cons hs] at honly ⊢
    rw [← List.append_assoc]
    refine ih (fun c hc => honly c (List.mem_append_right _ hc)) _ ?_
    refine step_calls (I := Counts key v) hs (fun g t cs hg => ⟨hg.number, hg.results⟩)
      (fun _ _ _ _ _ _ _ g cs hg => ⟨hg.number, hg.results⟩) (fun c cs hc hm hg => ?_) (fun hhandle hg => ?_) hmade
    · exact hg.call hm (honly c (List.mem_append_left _ hc))
    · exact ⟨step_counter hs hhandle hg.number, hg.results⟩

end

def counting : List (IterOrder × Event) :=
  [ask 1 (.incr "k"), ask 2 .multi, ask 2 (.incr "k"), ask 1 (.incr "k"), ask 2 .exec]

theorem run_counts_three :
    incrResults "k" (runCalls .blank startup counting) = [incrResult 0, incrResult 1, incrResult 2] ∧
      counterOf (play startup counting).data "k" = some 3 := by
  have hr : Run (Steps .blank) startup counting (play startup counting) :=
    .cons rfl (.cons rfl (.cons rfl (.cons rfl (.cons rfl .nil))))
  have hcmds : (runCalls .blank startup counting).map Call.cmd = [.incr "k", .multi, .incr "k", .incr "k"] := by
    decide +kernel
  have honly : ∀ c ∈ runCalls .blank startup counting, c.cmd.target = some "k" → c.cmd = .incr "k" := by
    intro c hc ht
    have hin : c.cmd ∈ (runCalls .blank startup counting).map Call.cmd := List.mem_map_of_mem hc
    rw [hcmds] at hin
    simp only [List.mem_cons, List.not_mem_nil, or_false] at hin
    rcases hin with h | h | h | h
    · exact h
    · rw [h] at ht
      cases ht
    · exact h
    · exact h
  have hzero : counterOf startup.data "k" = some 0 := rfl
  have hlen : (incrResults "k" (runCalls .blank startup counting)).length = 3 := by decide +kernel
  obtain ⟨hresults, hnumber⟩ := run_counts hr hzero honly
  rw [hlen] at hresults hnumber
  exact ⟨hresults, hnumber⟩

end CmdHandler

end Redis
