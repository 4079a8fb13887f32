import Mathlib.Data.List.Find
import Redis.Locality
import Redis.StreamSound
import Redis.Unblocked

/-!
# Slices of the key space

Clients that work on some of the keys are answered as if those that work on the
others were not there: what their commands do from the content of their keys on
is what they do in any run, one after the other, at the times they come.
-/

namespace Redis

open Lib

namespace Cmd

def within (K : String → Bool) (cmd : Cmd) : Bool := !cmd.footprint.isEmpty && cmd.footprint.all K

def apart (K : String → Bool) (cmd : Cmd) : Bool := cmd.footprint.all fun key => !K key

/-- What it answers goes by the order of a container. -/
def searches : Cmd → Bool
  | .geosearch .. => true
  | _ => false

end Cmd

namespace CmdHandler

/-- The command of the call answers what it answered, on another handler, whatever
its client and its transactions are there. GEOSEARCH does so in one order of the
members. -/
def Call.Again (P : Platform) (g : CmdHandler) (c : Call) (g' : CmdHandler) : Prop :=
  ∃ o, ∀ o' exec isSubscriber epollFd, (c.cmd.searches = true → o' = o) →
    dispatch P o' exec g c.before.registry.timer.now isSubscriber c.clientId epollFd c.cmd = some (g', c.result)

def Call.operation (P : Platform) (o : IterOrder) (c : Call) : Data → Option (Data × CmdResult) :=
  match c.cmd with
  | .xread count blockMs stream => fun data =>
    some (data, (cmdXread data c.before.registry count blockMs stream c.clientId c.before.registry.timer.now).2)
  | cmd => (operate P o c.before.registry.timer.now cmd).getD fun data => some (data, c.result)

section
variable {P : Platform} {o : IterOrder} {K : String → Bool} {F : Set String} {c : Call} {h h' g : CmdHandler}

/-! ## Streams -/

section
variable {data data' : Data} {count blockMs : Option Nat} {stream : List (String × Nat × Nat)}

theorem extractStreamEntries_congr {key : String} (h : data'.lookup key = data.lookup key) (count : Nat)
    (id : Nat × Nat) :
    extractStreamEntries data' key count id = extractStreamEntries data key count id := by
  unfold extractStreamEntries entriesAfter
  rw [h]

theorem readStreams_congr (h : ∀ s ∈ stream, data'.lookup s.1 = data.lookup s.1) :
    readStreams data' count stream = readStreams data count stream := by
  have hfound : (stream.filterMap fun s =>
      (extractStreamEntries data' s.1 (count.getD (2 ^ 64 - 1)) s.2).map fun entries => (s.1, entries)) =
      stream.filterMap fun s =>
        (extractStreamEntries data s.1 (count.getD (2 ^ 64 - 1)) s.2).map fun entries => (s.1, entries) := by
    refine List.filterMap_congr fun s hs => ?_
    rw [extractStreamEntries_congr (h s hs)]
  exact congrArg (fun found : List (String × RespType) => if found.isEmpty then none
    else some (RespType.arrayOf (found.map fun s => .arrayOf [.bulk s.1, s.2]))) hfound

/-- What XREAD answers goes by what its streams hold. -/
theorem cmdXread_congr (h : ∀ s ∈ stream, data'.lookup s.1 = data.lookup s.1) (r r' : RequestRegistry)
    (clientId clientId' now now' : Nat) :
    (cmdXread data' r' count blockMs stream clientId' now').2 =
      (cmdXread data r count blockMs stream clientId now).2 := by
  have hnot : (stream.find? fun s => notStream data' s.1) = stream.find? fun s => notStream data s.1 := by
    refine List.find?_congr fun s hs => ?_
    unfold notStream
    rw [h s hs]
  have hids : stream.map (resolveId data') = stream.map (resolveId data) := by
    refine List.map_congr_left fun ⟨key, ts, seq⟩ hs => ?_
    simp only [resolveId, h (key, ts, seq) hs]
  have hread : readStreams data' count (stream.map (resolveId data)) =
      readStreams data count (stream.map (resolveId data)) := by
    refine readStreams_congr fun s hs => ?_
    obtain ⟨s', hs', rfl⟩ := List.mem_map.mp hs
    rw [resolveId_fst]
    exact h s' hs'
  unfold cmdXread
  rw [hnot, hids]
  simp only [hread]
  split
  · rfl
  · cases readStreams data count (stream.map (resolveId data)) with
    | some resp => rfl
    | none => cases blockMs <;> rfl

end

/-! ## One call -/

theorem target_none {cmd : Cmd} {now : Nat} (hnone : operate P o now cmd = none)
    (hblocks : ∀ key timeoutMs, cmd ≠ .blpop key timeoutMs) : cmd.target = none := by
  cases cmd
  case blpop key timeoutMs => exact absurd rfl (hblocks key timeoutMs)
  all_goals first | rfl | cases hnone

theorem Call.operation_eq (hread : ∀ count blockMs stream, c.cmd ≠ .xread count blockMs stream) :
    c.operation P o = (operate P o c.before.registry.timer.now c.cmd).getD fun data => some (data, c.result) := by
  unfold operation
  split
  · rename_i count blockMs stream hcmd
    exact absurd hcmd (hread count blockMs stream)
  · rfl

theorem operation_local (hF : ∀ key ∈ c.cmd.footprint, key ∈ F) : HashMap.Local F (c.operation P o) := by
  by_cases hread : ∃ count blockMs stream, c.cmd = .xread count blockMs stream
  · obtain ⟨count, blockMs, stream, hcmd⟩ := hread
    intro m n h
    have hsame : ∀ s ∈ stream, n.lookup s.1 = m.lookup s.1 := by
      intro s hs
      refine (h s.1 (hF s.1 ?_)).symm
      rw [hcmd]
      exact List.mem_map_of_mem hs
    unfold Call.operation
    rw [hcmd]
    simp only
    rw [cmdXread_congr hsame]
    exact .some _ (.refl h)
  · rw [Call.operation_eq fun count blockMs stream hcmd => hread ⟨count, blockMs, stream, hcmd⟩]
    cases hf : operate P o c.before.registry.timer.now c.cmd with
    | none => exact HashMap.Local.answer _
    | some f => exact operate_local hf hF

theorem within_local (hwithin : c.cmd.within K = true) : HashMap.Local {key | K key = true} (c.operation P o) := by
  apply operation_local
  intro key hkey
  simp only [Cmd.within, Bool.and_eq_true, List.all_eq_true] at hwithin
  exact hwithin.2 key hkey

theorem apart_local (hapart : c.cmd.apart K = true) : HashMap.Local {key | K key = true}ᶜ (c.operation P o) := by
  apply operation_local
  intro key hkey hin
  have hnot : (!K key) = true := List.all_eq_true.mp hapart key hkey
  have hyes : K key = true := hin
  rw [hyes] at hnot
  cases hnot

/-- A command with keys is an operation on them, or it leaves something for its client. -/
theorem within_cases {cmd : Cmd} (hwithin : cmd.within K = true) (hblocks : ∀ key timeoutMs, cmd ≠ .blpop key timeoutMs)
    (o : IterOrder) (now : Nat) : (∃ f, operate P o now cmd = some f) ∨
      (∃ count blockMs stream, cmd = .xread count blockMs stream) ∨ ∃ keys, cmd = .watch keys := by
  cases cmd
  case xread count blockMs stream => exact .inr (.inl ⟨count, blockMs, stream, rfl⟩)
  case watch keys => exact .inr (.inr ⟨keys, rfl⟩)
  case blpop key timeoutMs => exact absurd rfl (hblocks key timeoutMs)
  all_goals first | exact .inl ⟨_, rfl⟩ | simp [Cmd.within, Cmd.footprint] at hwithin

theorem operate_searches {cmd : Cmd} {o' : IterOrder} {now : Nat} (horder : cmd.searches = true → o' = o) :
    operate P o' now cmd = operate P o now cmd := by
  cases cmd
  case geosearch => rw [horder rfl]
  all_goals rfl

theorem Call.Made.xread (hm : Call.Made P o c) {count blockMs : Option Nat} {stream : List (String × Nat × Nat)}
    (hcmd : c.cmd = .xread count blockMs stream) : c.operation P o c.before.data = some (c.before.data, c.result) := by
  obtain ⟨_, _, exec, s, d, fd, ser, out, _, _, _, hd, _⟩ := hm
  rw [hcmd] at hd
  have hanswer : (cmdXread c.before.data
    (c.before.prepared (.xread count blockMs stream) s).registry count blockMs stream
      c.clientId c.before.registry.timer.now).2 = c.result := congrArg Prod.snd (Option.some.inj hd)
  have hresult : (cmdXread c.before.data c.before.registry count blockMs stream c.clientId
      c.before.registry.timer.now).2 = c.result := (cmdXread_congr (fun _ _ => rfl) ..).trans hanswer
  unfold Call.operation
  rw [hcmd]
  simp only [hresult]

theorem Call.Made.leaves (hm : Call.Made P o c) (hblocks : ∀ key timeoutMs, c.cmd ≠ .blpop key timeoutMs) :
    ∃ data, c.operation P o c.before.data = some (data, c.result) ∧ HashMap.Agree Set.univ data c.after.data := by
  have hkept : c.cmd.target = none → HashMap.Agree Set.univ c.before.data c.after.data := fun htarget key _ =>
    (hm.elsewhere (by rw [htarget]; simp)).symm
  by_cases hread : ∃ count blockMs stream, c.cmd = .xread count blockMs stream
  · obtain ⟨count, blockMs, stream, hcmd⟩ := hread
    exact ⟨c.before.data, hm.xread hcmd, hkept (by rw [hcmd]; rfl)⟩
  · rw [Call.operation_eq fun count blockMs stream hcmd => hread ⟨count, blockMs, stream, hcmd⟩]
    cases hf : operate P o c.before.registry.timer.now c.cmd with
    | none => exact ⟨c.before.data, rfl, hkept (target_none hf hblocks)⟩
    | some f =>
      obtain ⟨_, _, exec, s, d, fd, ser, out, _, _, _, hd, hc⟩ := hm
      rw [dispatch_operate hf] at hd
      obtain ⟨⟨data, r⟩, hdata, hx⟩ := Option.map_eq_some_iff.mp hd
      have hr : r = c.result := congrArg Prod.snd hx
      have hafter : c.after.data = data := by
        rw [conclude_data hc]
        exact (congrArg (fun x => x.1.data) hx).symm
      subst hr
      exact ⟨data, hdata, fun key _ => by rw [hafter]⟩

/-- The command does again what its operation does. -/
theorem Call.Made.again_on (hm : Call.Made P o c) (hwithin : c.cmd.within K = true)
    (hblocks : ∀ key timeoutMs, c.cmd ≠ .blpop key timeoutMs) {data : Data}
    (hd : c.operation P o g.data = some (data, c.result)) : ∃ g', c.Again P g g' ∧ g'.data = data := by
  rcases within_cases (P := P) hwithin hblocks o c.before.registry.timer.now with
    ⟨f, hf⟩ | ⟨count, blockMs, stream, hcmd⟩ | ⟨keys, hcmd⟩
  · have hno : ∀ count blockMs stream, c.cmd ≠ .xread count blockMs stream := by
      intro count blockMs stream hcmd
      rw [hcmd] at hf
      cases hf
    rw [Call.operation_eq hno, hf, Option.getD_some] at hd
    refine ⟨{ g with data }, ⟨o, fun o' exec isSubscriber epollFd horder => ?_⟩, rfl⟩
    rw [dispatch_operate ((operate_searches horder).trans hf), hd]
    rfl
  · unfold Call.operation at hd
    rw [hcmd] at hd
    obtain ⟨hdata, hresult⟩ := Prod.mk.inj (Option.some.inj hd)
    have hanswer : (cmdXread g.data g.registry count blockMs stream c.clientId c.before.registry.timer.now).2 =
        c.result :=
      (cmdXread_congr (fun _ _ => rfl) ..).trans hresult
    refine ⟨{ g with registry :=
      (cmdXread g.data g.registry count blockMs stream c.clientId c.before.registry.timer.now).1 },
      ⟨o, fun o' exec isSubscriber epollFd _ => ?_⟩, hdata⟩
    rw [hcmd, ← hanswer]
    rfl
  · obtain ⟨_, _, exec, s, d, fd, ser, out, _, _, _, hmade, _⟩ := hm
    rw [hcmd] at hmade
    have hresult : responseOk = c.result := congrArg Prod.snd (Option.some.inj hmade)
    unfold Call.operation at hd
    rw [hcmd] at hd
    have hdata : g.data = data := congrArg Prod.fst (Option.some.inj hd)
    refine ⟨{ g with registry := g.registry.watch keys c.clientId }, ⟨o, fun o' exec isSubscriber epollFd _ => ?_⟩,
      hdata⟩
    rw [hcmd, ← hresult]
    rfl

/-! ## Runs -/

theorem run_again {order : Call → IterOrder} {cs : List Call} {data : Data}
    (hmade : ∀ c ∈ cs, Call.Made P (order c) c ∧ c.cmd.within K = true)
    (hblocks : ∀ c ∈ cs, ∀ key timeoutMs, c.cmd ≠ .blpop key timeoutMs)
    (hr : Run (HashMap.Does (fun c => c.operation P (order c)) Call.result) g.data cs data) :
    ∃ g', Run (Call.Again P) g cs g' ∧ g'.data = data := by
  generalize hstart : g.data = start at hr
  induction hr generalizing g with
  | nil => exact ⟨g, .nil, hstart⟩
  | @cons _ c data _ _ hs _ ih =>
    subst hstart
    obtain ⟨hm, hwithin⟩ := hmade c (List.mem_cons_self ..)
    obtain ⟨g₁, hfirst, hdata₁⟩ := hm.again_on hwithin (hblocks c (List.mem_cons_self ..)) hs
    obtain ⟨g₂, hrest, hdata₂⟩ := ih (fun d hd => hmade d (List.mem_cons_of_mem _ hd))
      (fun d hd => hblocks d (List.mem_cons_of_mem _ hd)) hdata₁
    exact ⟨g₂, .cons hfirst hrest, hdata₂⟩

/-- The commands on the keys `K` are answered as without those on other keys. -/
theorem run_slices {labels : List (IterOrder × Event)} (hr : Run (Steps P) h labels h')
    (hno : h.registry.backlogList = ∅)
    (hblocks : ∀ c ∈ runCalls P h labels, ∀ key timeoutMs, c.cmd ≠ .blpop key timeoutMs)
    (hapart : ∀ c ∈ runCalls P h labels, c.cmd.within K = true ∨ c.cmd.apart K = true)
    (hsame : ∀ key, K key = true → h.data.lookup key = g.data.lookup key) :
    ∃ g', Run (Call.Again P) g ((runCalls P h labels).filter (·.cmd.within K)) g' ∧
      ∀ key, K key = true → h'.data.lookup key = g'.data.lookup key := by
  have hmade : ∀ c, ∃ o, c ∈ runCalls P h labels → Call.Made P o c := by
    intro c
    by_cases hc : c ∈ runCalls P h labels
    · obtain ⟨o, hm⟩ := (Visits.done hr).made c hc
      exact ⟨o, fun _ => hm⟩
    · exact ⟨.asIs, fun hin => absurd hin hc⟩
  choose order hmade using hmade
  have hchain : Run (HashMap.Leaves (fun c => c.operation P (order c)) Call.result) h.data
      (runCalls P h labels) h'.data :=
    run_chain hr hblocks (fun _ c hc _ => (hmade c hc).leaves (hblocks c hc)) hno
  have hin : ∀ c ∈ runCalls P h labels, c.cmd.within K = true →
      HashMap.Local {key | K key = true} (c.operation P (order c)) := fun c _ hwithin => within_local hwithin
  have hout : ∀ c ∈ runCalls P h labels, c.cmd.within K = false →
      HashMap.Local {key | K key = true}ᶜ (c.operation P (order c)) := by
    intro c hc hwithin
    rcases hapart c hc with hmine | hother
    · rw [hmine] at hwithin
      cases hwithin
    · exact apart_local hother
  obtain ⟨data, hdoes, hagree⟩ := HashMap.slice (p := fun c => c.cmd.within K) hchain hin hout hsame
  have hkept : ∀ c ∈ (runCalls P h labels).filter (·.cmd.within K), c ∈ runCalls P h labels ∧ c.cmd.within K = true :=
    fun c hc => List.mem_filter.mp hc
  obtain ⟨g', hagain, hdata⟩ := run_again (K := K) (fun c hc => ⟨hmade c (hkept c hc).1, (hkept c hc).2⟩)
    (fun c hc => hblocks c (hkept c hc).1) hdoes
  refine ⟨g', hagain, ?_⟩
  rw [hdata]
  exact hagree

end

/-- Two clients work on a list and a stream, and a third one on a number. -/
def slicedLabels : List (IterOrder × Event) :=
  [ask 1 (.rpush "k" ["a"]), ask 2 (.incr "n"), ask 1 (.xadd "s" (some 1, some 1) ["f", "v"]),
    ask 3 (.xread (some 1) none [("s", 0, 0)]), ask 1 (.rpush "k" ["b"])]

theorem run_slices_push : ∃ h' g, Run (Steps .blank) startup slicedLabels h' ∧
    Run (Call.Again .blank) startup
      ((runCalls .blank startup slicedLabels).filter (·.cmd.within (["k", "s"].contains ·))) g ∧
    ∀ key, ["k", "s"].contains key = true → h'.data.lookup key = g.data.lookup key := by
  have hsome : (slicedLabels.foldlM (step .blank) startup).isSome = true := by decide +kernel
  obtain ⟨h', hfold⟩ := Option.isSome_iff_exists.mp hsome
  have hr : Run (Steps .blank) startup slicedLabels h' := .of_foldlM hfold
  have hcmds : (runCalls .blank startup slicedLabels).map (·.cmd) = [.rpush "k" ["a"], .incr "n",
      .xadd "s" (some 1, some 1) ["f", "v"], .xread (some 1) none [("s", 0, 0)], .rpush "k" ["b"]] := by decide +kernel
  have hcall : ∀ c ∈ runCalls .blank startup slicedLabels, (∀ key timeoutMs, c.cmd ≠ .blpop key timeoutMs) ∧
      (c.cmd.within (["k", "s"].contains ·) = true ∨ c.cmd.apart (["k", "s"].contains ·) = true) := by
    intro c hc
    have hmem : c.cmd ∈ (runCalls .blank startup slicedLabels).map (·.cmd) := List.mem_map_of_mem hc
    rw [hcmds] at hmem
    simp only [List.mem_cons, List.not_mem_nil, or_false] at hmem
    rcases hmem with heq | heq | heq | heq | heq <;> rw [heq]
    · exact ⟨by simp, .inl (by decide)⟩
    · exact ⟨by simp, .inr (by decide)⟩
    · exact ⟨by simp, .inl (by decide)⟩
    · exact ⟨by simp, .inl (by decide)⟩
    · exact ⟨by simp, .inl (by decide)⟩
  obtain ⟨g, hagain, hsame⟩ :=
    run_slices (g := startup) hr rfl (fun c hc => (hcall c hc).1) (fun c hc => (hcall c hc).2)
    fun _ _ => rfl
  exact ⟨h', g, hr, hagain, hsame⟩

end CmdHandler

end Redis
