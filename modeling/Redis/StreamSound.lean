import Redis.Handoff
import Redis.Replies

/-!
# Blocked and immediate XREAD

A request for streams is answered when there is something to read, with what
XREAD would answer at that time. The three pieces of code for it agree: that
there is an entry, the entries themselves, and the reply that is made of them.
-/

namespace Redis

open Lib RequestRegistry

namespace CmdHandler

/-- XREAD without BLOCK, for ids that are resolved. -/
def xreadNow (data : Data) (count : Option Nat) (stream : List (String × Nat × Nat)) : CmdResult :=
  match stream.find? fun s => notStream data s.1 with
  | some (key, _) => .error (unsupported key)
  | none => reply ((readStreams data count stream).getD .emptyArray)

def WaitsForStream (h : CmdHandler) (timestamp : Nat) (entry : RequestEntry) (keyTs : List (String × Nat × Nat))
    (count : Option Nat) : Prop :=
  timestamp ∈ h.registry.backlogStream ∧ h.registry.store.lookup timestamp = some entry ∧
    entry.kind = .stream keyTs count

def Reads (data : Data) (count : Option Nat) (keyTs : List (String × Nat × Nat)) (resp : RespType) : Prop :=
  xreadNow data count keyTs = reply resp ∧ resp ≠ .emptyArray

/-- The requests `ts` are served with `replies`: those that XREAD would answer now,
each once and with that answer. They leave the registry, and the others stay. -/
structure ServedStreams (h h' : CmdHandler) (ts : List Nat) (replies : List (Nat × Bytes)) : Prop where
  once : ts.Nodup
  exactly : ∀ t, t ∈ ts ↔ ∃ e keyTs count resp, WaitsForStream h t e keyTs count ∧ Reads h.data count keyTs resp
  answers : List.Forall₂ (fun t m => ∃ e keyTs count resp, WaitsForStream h t e keyTs count ∧
    Reads h.data count keyTs resp ∧ m.1 = e.clientId ∧ resp.serialize = some m.2) ts replies
  frame : ∃ store backlogStream deadline timer history, h' = { h with
    responseQueue := h.responseQueue ++ replies, flagBacklogStream := false
    registry := { h.registry with store, backlogStream, deadline, timer, history } }
  store : ∀ t, h'.registry.store.lookup t = if t ∈ ts then none else h.registry.store.lookup t
  waiting : ∀ t, t ∈ h'.registry.backlogStream ↔ t ∈ h.registry.backlogStream ∧ t ∉ ts
  deadlines : ∀ d t', h'.registry.deadline.lookup d = some t' ↔ h.registry.deadline.lookup d = some t' ∧
    ∀ t ∈ ts, ∀ e, h.registry.store.lookup t = some e → e.deadline ≠ d
  slots : h.registry.Coherent → ∀ t e, t ∉ ts → h.registry.store.lookup t = some e →
    h'.registry.deadline.lookup e.deadline = h.registry.deadline.lookup e.deadline

section
variable {data : Data} {count : Option Nat} {keyTs : List (String × Nat × Nat)}

/-! ## The immediate path -/

theorem resolveId_fst (s : String × Nat × Nat) : (resolveId data s).1 = s.1 := by
  obtain ⟨key, ts, seq⟩ := s
  unfold resolveId
  simp only
  split
  · split <;> rfl
  · rfl

theorem cmdXread_now (registry : RequestRegistry) (stream : List (String × Nat × Nat)) (clientId now : Nat) :
    cmdXread data registry count none stream clientId now =
      (registry, xreadNow data count (stream.map (resolveId data))) := by
  have hfind : ((stream.map (resolveId data)).find? fun s => notStream data s.1).map Prod.fst =
      (stream.find? fun s => notStream data s.1).map Prod.fst := by
    have hcomp : ((fun s : String × Nat × Nat => notStream data s.1) ∘ resolveId data) = fun s => notStream data s.1 :=
      funext fun s => congrArg (notStream data) (resolveId_fst s)
    rw [List.find?_map, hcomp, Option.map_map]
    exact congrArg (fun f => Option.map f _) (funext resolveId_fst)
  unfold cmdXread xreadNow
  cases hs : stream.find? fun s => notStream data s.1 with
  | some s =>
    rw [hs] at hfind
    obtain ⟨s', hs', heq⟩ := Option.map_eq_some_iff.mp hfind
    rw [hs']
    obtain ⟨key, id⟩ := s
    obtain ⟨key', id'⟩ := s'
    cases heq
    rfl
  | none =>
    rw [hs, Option.map_none] at hfind
    rw [Option.map_eq_none_iff.mp hfind]
    simp only
    cases readStreams data count (stream.map (resolveId data)) <;> rfl

/-! ## There is something to read -/

theorem extractStreamEntries_isSome {key : String} {n : Nat} {id : Nat × Nat} (hn : n ≠ 0) :
    (extractStreamEntries data key n id).isSome = isStreamAvail data key id := by
  unfold extractStreamEntries isStreamAvail
  cases entriesAfter data key id with
  | nil => simp
  | cons e es =>
    obtain ⟨m, rfl⟩ := Nat.exists_eq_succ_of_ne_zero hn
    simp

theorem readStreams_isSome (hcount : count ≠ some 0) :
    (readStreams data count keyTs).isSome = keyTs.any fun s => isStreamAvail data s.1 s.2 := by
  have hn : count.getD (2 ^ 64 - 1) ≠ 0 := by
    cases count with
    | none => decide
    | some n => simpa using hcount
  have hfound : (keyTs.filterMap fun s => (extractStreamEntries data s.1 (count.getD (2 ^ 64 - 1)) s.2).map
      fun entries => (s.1, entries)).isEmpty = !(keyTs.any fun s => isStreamAvail data s.1 s.2) := by
    induction keyTs with
    | nil => rfl
    | cons s keyTs ih =>
      have hs : (extractStreamEntries data s.1 (count.getD (2 ^ 64 - 1)) s.2).isSome = isStreamAvail data s.1 s.2 :=
        extractStreamEntries_isSome hn
      rw [List.filterMap_cons, List.any_cons, ← hs]
      cases extractStreamEntries data s.1 (count.getD (2 ^ 64 - 1)) s.2 with
      | none => simpa using ih
      | some entries => simp
  unfold readStreams
  simp only [hfound]
  cases keyTs.any fun s => isStreamAvail data s.1 s.2 <;> simp

theorem readStreams_ne_empty {resp : RespType} (hr : readStreams data count keyTs = some resp) :
    resp ≠ .emptyArray := by
  unfold readStreams at hr
  simp only at hr
  split at hr
  · cases hr
  · rename_i hfound
    cases hr
    intro heq
    rw [RespType.arrayOf, RespType.emptyArray] at heq
    injection heq with hlen hitems
    rw [List.length_map] at hlen
    exact hfound (by rw [List.isEmpty_iff, List.length_eq_zero_iff.mp hlen])

/-- XREAD reads something if and only if there are entries to extract. -/
theorem reads_iff (hkeys : ∀ s ∈ keyTs, notStream data s.1 = false) {resp : RespType} :
    Reads data count keyTs resp ↔ readStreams data count keyTs = some resp := by
  have hnow : xreadNow data count keyTs = reply ((readStreams data count keyTs).getD .emptyArray) := by
    unfold xreadNow
    rw [List.find?_eq_none.mpr fun s hs => by simp [hkeys s hs]]
  unfold Reads reply at *
  rw [hnow]
  constructor
  · rintro ⟨heq, hne⟩
    cases hr : readStreams data count keyTs with
    | none =>
      rw [hr] at heq
      exact absurd (Option.some.inj (Except.ok.inj heq)).symm hne
    | some t =>
      rw [hr] at heq
      exact congrArg some (Option.some.inj (Except.ok.inj heq))
  · intro hr
    rw [hr]
    exact ⟨rfl, readStreams_ne_empty hr⟩

end

section
variable {o : IterOrder} {h : CmdHandler}

theorem mem_streamTimestamps {t : Nat} : t ∈ h.streamTimestamps o ↔
    ∃ e keyTs count, WaitsForStream h t e keyTs count ∧
      (keyTs.any fun s => isStreamAvail h.data s.1 s.2) = true := by
  have hin : t ∈ o.order h.registry.backlogStream.keys ↔ t ∈ h.registry.backlogStream := (o.perm _).mem_iff
  unfold streamTimestamps
  rw [List.mem_filter, hin]
  unfold hasItems WaitsForStream
  constructor
  · rintro ⟨ht, hitems⟩
    split at hitems
    · rename_i keyTs count clientId timestamp deadline serial hl
      exact ⟨_, keyTs, count, ⟨ht, hl, rfl⟩, hitems⟩
    · cases hitems
  · rintro ⟨e, keyTs, count, ⟨ht, hl, hk⟩, hitems⟩
    obtain ⟨kind, clientId, timestamp, deadline, serial⟩ := e
    cases hk
    rw [hl]
    exact ⟨ht, hitems⟩

theorem streamTimestamps_nodup : (h.streamTimestamps o).Nodup :=
  ((o.perm _).nodup_iff.mpr h.registry.backlogStream.keys_nodup).filter _

/-! ## The requests leave -/

theorem foldl_remove_deadline (r : RequestRegistry) (ts : List Nat) (d t' : Nat) :
    (ts.foldl (fun r t => (r.remove t).1) r).deadline.lookup d = some t' ↔
      r.deadline.lookup d = some t' ∧ ∀ t ∈ ts, ∀ e, r.store.lookup t = some e → e.deadline ≠ d := by
  induction ts generalizing r with
  | nil => simp
  | cons t ts ih =>
    rw [List.foldl_cons, ih]
    cases he : r.store.lookup t with
    | none =>
      rw [remove_none he]
      simp [he]
    | some e =>
      obtain ⟨hstore, _, _, _, _, hdeadline⟩ := remove_queues he
      rw [hstore, hdeadline]
      by_cases hd : e.deadline = d
      · subst hd
        rw [OrdMap.lookup_erase]
        exact iff_of_false (fun h => by cases h.1) fun h => h.2 t (List.mem_cons_self ..) e he rfl
      · rw [OrdMap.lookup_erase_ne (Ne.symm hd)]
        refine and_congr_right fun _ => ⟨fun hrest t'' ht'' e'' he'' => ?_, fun hrest t'' ht'' e'' he'' => ?_⟩
        · by_cases ht : t'' = t
          · subst ht
            rw [he] at he''
            cases he''
            exact hd
          · refine hrest t'' ((List.mem_cons.mp ht'').resolve_left ht) e'' ?_
            rwa [AList.lookup_erase_ne ht]
        · by_cases ht : t'' = t
          · rw [ht, AList.lookup_erase] at he''
            cases he''
          · rw [AList.lookup_erase_ne ht] at he''
            exact hrest t'' (List.mem_cons_of_mem _ ht'') e'' he''

theorem remove_stream {r : RequestRegistry} {t : Nat} {e : RequestEntry} (he : r.store.lookup t = some e)
    (hk : e.kind.isStream = true) :
    ∃ timer, (r.remove t).1 = { r with
      store := r.store.erase t, backlogStream := r.backlogStream.erase t,
      deadline := r.deadline.erase e.deadline, timer } := by
  obtain ⟨kind, clientId, timestamp, deadline, serial⟩ := e
  cases kind with
  | list | wait => cases hk
  | stream =>
    unfold remove
    rw [he]
    exact ⟨_, rfl⟩

theorem foldl_remove_streams {r : RequestRegistry} {ts : List Nat} (hn : ts.Nodup)
    (hs : ∀ t ∈ ts, ∃ e, r.store.lookup t = some e ∧ e.kind.isStream = true) :
    ∃ store backlogStream deadline timer, ts.foldl (fun r t => (r.remove t).1) r =
      { r with store, backlogStream, deadline, timer } ∧
      ∀ t, t ∈ backlogStream ↔ t ∈ r.backlogStream ∧ t ∉ ts := by
  induction ts generalizing r with
  | nil => exact ⟨r.store, r.backlogStream, r.deadline, r.timer, rfl, by simp⟩
  | cons t ts ih =>
    obtain ⟨ht, hn⟩ := List.nodup_cons.mp hn
    obtain ⟨e, he, hk⟩ := hs t (List.mem_cons_self ..)
    obtain ⟨timer, hr⟩ := remove_stream he hk
    obtain ⟨store, backlogStream, deadline, timer', hfold, hmem⟩ := ih (r := (r.remove t).1) hn fun t' ht' => by
      obtain ⟨e', he', hk'⟩ := hs t' (List.mem_cons_of_mem _ ht')
      refine ⟨e', ?_, hk'⟩
      rw [hr]
      exact (AList.lookup_erase_ne fun heq : t' = t => ht (heq ▸ ht')).trans he'
    refine ⟨store, backlogStream, deadline, timer', by rw [List.foldl_cons, hfold, hr], fun t' => ?_⟩
    rw [hmem t', hr]
    simp only [AList.mem_erase, List.mem_cons, not_or]
    tauto

/-! ## The requests are answered -/

def streamReply (data : Data) (entry : RequestEntry) : RespType :=
  match entry.kind with
  | .stream keyTs count => (readStreams data count keyTs).getD .nullArray
  | _ => .nullArray

theorem streamTasks {es : List RequestEntry} {g : CmdHandler}
    (hs : ∀ e ∈ es, g.registry.store.lookup e.timestamp = none ∧
      ∃ keyTs count resp, e.kind = .stream keyTs count ∧ readStreams g.data count keyTs = some resp) :
    ∃ history, es.foldl backlogTask g =
      { g with
        responseQueue := g.responseQueue ++ es.map fun e => (e.clientId, (streamReply g.data e).frame)
        registry := { g.registry with history } } := by
  induction es generalizing g with
  | nil => exact ⟨g.registry.history, by simp⟩
  | cons e es ih =>
    obtain ⟨hgone, keyTs, count, resp, hk, hr⟩ := hs e (List.mem_cons_self ..)
    have htask : g.backlogTask e = { g with
        responseQueue := g.responseQueue ++ [(e.clientId, (streamReply g.data e).frame)]
        registry := { g.registry with history := g.registry.history.answer e.serial } } := by
      have hrem := remove_none (r := { g.registry with history := g.registry.history.answer e.serial }) hgone
      unfold backlogTask streamReply
      simp only [hk, hr, Option.getD_some]
      unfold answer pushResponse
      simp only
      rw [hrem]
    obtain ⟨history, hrest⟩ := ih (g := g.backlogTask e) (by
      rw [htask]
      exact fun e' he' => hs e' (List.mem_cons_of_mem _ he'))
    refine ⟨history, ?_⟩
    rw [List.foldl_cons, hrest, htask, List.map_cons, List.append_assoc]
    rfl

theorem forall₂_filterMap {α β γ : Type} {f : α → Option β} {g : β → γ} {R : α → γ → Prop} {ts : List α}
    (hR : ∀ t ∈ ts, ∃ e, f t = some e ∧ R t (g e)) : List.Forall₂ R ts ((ts.filterMap f).map g) := by
  induction ts with
  | nil => exact .nil
  | cons t ts ih =>
    obtain ⟨e, he, hr⟩ := hR t (List.mem_cons_self ..)
    rw [List.filterMap_cons, he]
    exact .cons hr (ih fun t' ht' => hR t' (List.mem_cons_of_mem _ ht'))

/-- In a coherent registry a deadline is taken by one request. -/
theorem coherent_slots {r : RequestRegistry} (hc : r.Coherent) {ts : List Nat} {t : Nat} {e : RequestEntry}
    (ht : t ∉ ts) (he : r.store.lookup t = some e) :
    (ts.foldl (fun r t => (r.remove t).1) r).deadline.lookup e.deadline = r.deadline.lookup e.deadline := by
  refine Option.ext fun t' => ?_
  rw [foldl_remove_deadline]
  refine and_iff_left_of_imp fun hl t₁ ht₁ e₁ he₁ hd => ?_
  obtain ⟨_, _, _, hne⟩ := (hc.tree e.deadline t').mp hl
  have hown : r.deadline.lookup e.deadline = some t := (hc.tree.entry he).mpr ⟨rfl, hne⟩
  have hother : r.deadline.lookup e.deadline = some t₁ := (hc.tree.entry he₁).mpr ⟨hd, hne⟩
  rw [hown] at hother
  cases hother
  exact ht ht₁

/-- Blocked and immediate XREAD agree, in whatever order the set is read. -/
theorem serveBacklogStream_xread (o : IterOrder) (hflag : h.flagBacklogStream = true)
    (hstamp : ∀ t e keyTs count, WaitsForStream h t e keyTs count → e.timestamp = t)
    (hkeys : ∀ t e keyTs count, WaitsForStream h t e keyTs count →
      (∀ s ∈ keyTs, notStream h.data s.1 = false) ∧ count ≠ some 0) :
    (∀ registry count stream clientId now, cmdXread h.data registry count none stream clientId now =
      (registry, xreadNow h.data count (stream.map (resolveId h.data)))) ∧
    ∃ ts replies, ServedStreams h (h.serveBacklogStream o) ts replies := by
  refine ⟨fun _ _ _ _ _ => cmdXread_now .., ?_⟩
  have hready : ∀ t e keyTs count, WaitsForStream h t e keyTs count →
      ((keyTs.any fun s => isStreamAvail h.data s.1 s.2) = true ↔ ∃ resp, Reads h.data count keyTs resp) := by
    intro t e keyTs count hw
    obtain ⟨hk, hc⟩ := hkeys t e keyTs count hw
    rw [← readStreams_isSome hc, Option.isSome_iff_exists]
    exact exists_congr fun resp => (reads_iff hk).symm
  have hmem : ∀ t, t ∈ h.streamTimestamps o ↔
      ∃ e keyTs count resp, WaitsForStream h t e keyTs count ∧ Reads h.data count keyTs resp := by
    intro t
    rw [mem_streamTimestamps]
    constructor
    · rintro ⟨e, keyTs, count, hw, hany⟩
      obtain ⟨resp, hr⟩ := (hready t e keyTs count hw).mp hany
      exact ⟨e, keyTs, count, resp, hw, hr⟩
    · rintro ⟨e, keyTs, count, resp, hw, hr⟩
      exact ⟨e, keyTs, count, hw, (hready t e keyTs count hw).mpr ⟨resp, hr⟩⟩
  have hn : (h.streamTimestamps o).Nodup := streamTimestamps_nodup
  generalize hts : h.streamTimestamps o = ts at hmem hn
  have hread : ∀ t ∈ ts, ∃ e keyTs count resp, WaitsForStream h t e keyTs count ∧ Reads h.data count keyTs resp ∧
      readStreams h.data count keyTs = some resp := by
    intro t ht
    obtain ⟨e, keyTs, count, resp, hw, hr⟩ := (hmem t).mp ht
    exact ⟨e, keyTs, count, resp, hw, hr, (reads_iff (hkeys t e keyTs count hw).1).mp hr⟩
  have hstored : ∀ t ∈ ts, ∃ e, h.registry.store.lookup t = some e ∧ e.kind.isStream = true := by
    intro t ht
    obtain ⟨e, keyTs, count, _, ⟨_, hl, hk⟩, _⟩ := hread t ht
    exact ⟨e, hl, by rw [hk]; rfl⟩
  obtain ⟨store, backlogStream, deadline, timer, hfold, hstream⟩ := foldl_remove_streams hn hstored
  have hlookup := foldl_remove_lookup h.registry ts
  have hdeadline := foldl_remove_deadline h.registry ts
  have hslots : h.registry.Coherent → ∀ t e, t ∉ ts → h.registry.store.lookup t = some e →
      (ts.foldl (fun r t => (r.remove t).1) h.registry).deadline.lookup e.deadline =
        h.registry.deadline.lookup e.deadline := fun hc t e => coherent_slots hc
  have hentries := takeOut_entries RequestKind.isStream h.registry hn
  have htaken := takeOut_registry RequestKind.isStream h.registry ts
  rw [hfold] at hlookup hdeadline hslots htaken
  have hes : ∀ e ∈ (takeOut RequestKind.isStream h.registry ts).2,
      (takeOut RequestKind.isStream h.registry ts).1.store.lookup e.timestamp = none ∧
      ∃ keyTs count resp, e.kind = .stream keyTs count ∧ readStreams h.data count keyTs = some resp := by
    intro e he
    rw [hentries] at he
    obtain ⟨t, ht, hfilter⟩ := List.mem_filterMap.mp he
    obtain ⟨e', keyTs, count, resp, hw, _, hread'⟩ := hread t ht
    rw [hw.2.1] at hfilter
    obtain ⟨heq, _⟩ := Option.filter_eq_some_iff.mp hfilter
    cases heq
    refine ⟨?_, keyTs, count, resp, hw.2.2, hread'⟩
    rw [htaken, hlookup, hstamp t e keyTs count hw, if_pos ht]
  obtain ⟨history, htasks⟩ := streamTasks
    (g := { h with registry := (takeOut RequestKind.isStream h.registry ts).1 }) hes
  have hafter : h.serveBacklogStream o = { h with
      responseQueue := h.responseQueue ++ (takeOut RequestKind.isStream h.registry ts).2.map fun e =>
        (e.clientId, (streamReply h.data e).frame)
      flagBacklogStream := false
      registry := { h.registry with store, backlogStream, deadline, timer, history } } := by
    unfold serveBacklogStream
    rw [if_pos hflag, hts, serve, htasks, htaken]
  refine ⟨ts, (takeOut RequestKind.isStream h.registry ts).2.map fun e => (e.clientId, (streamReply h.data e).frame),
    hn, hmem, ?_, ⟨_, _, _, _, _, hafter⟩, ?_, ?_, ?_, ?_⟩
  · rw [hentries]
    refine forall₂_filterMap fun t ht => ?_
    obtain ⟨e, keyTs, count, resp, hw, hr, hread'⟩ := hread t ht
    obtain ⟨b, hb, _⟩ := (framed_readStreams hread').serialize
    refine ⟨e, ?_, e, keyTs, count, resp, hw, hr, rfl, ?_⟩
    · rw [hw.2.1, Option.filter_some, if_pos (by rw [hw.2.2]; rfl)]
    · simp only [streamReply, hw.2.2, hread', Option.getD_some]
      rw [RespType.frame, hb, Option.getD_some]
  · rw [hafter]
    exact hlookup
  · rw [hafter]
    exact hstream
  · rw [hafter]
    exact hdeadline
  · rw [hafter]
    exact hslots

end

/-- Three clients wait for streams, one of them for later entries than those that
client 2 adds. -/
def xreadsThenAdd : List (IterOrder × Event) :=
  [ask 1 (.xread (some 1) (some 0) [("s", 0, 0)]), ask 3 (.xread (some 2) (some 0) [("s", 9, 0)]),
    ask 4 (.xread (some 2) (some 0) [("t", 0, 0), ("s", 5, 1)]),
    ask 2 (.xadd "s" (some 5, some 1) ["a", "b"]), ask 2 (.xadd "s" (some 5, some 2) ["c", "d"])]

theorem serveBacklogStream_xread_three : ∃ h ts replies, Run (Steps .blank) ticking xreadsThenAdd h ∧
    ServedStreams h (h.serveBacklogStream .asIs) ts replies := by
  have hafter : (xreadsThenAdd.foldlM (step .blank) ticking).map (fun h => (h.flagBacklogStream,
      h.registry.store.entries.map fun e => (e.1, e.2.timestamp, e.2.kind), notStream h.data "s",
        notStream h.data "t")) =
      some (true, [(2, 2, .stream [("t", 0, 0), ("s", 5, 1)] (some 2)), (1, 1, .stream [("s", 9, 0)] (some 2)),
        (0, 0, .stream [("s", 0, 0)] (some 1))], false, false) := by decide +kernel
  obtain ⟨h, hfold, hv⟩ := Option.map_eq_some_iff.mp hafter
  rw [Prod.mk.injEq, Prod.mk.injEq, Prod.mk.injEq] at hv
  obtain ⟨hflag, hstore, hs, ht⟩ := hv
  have hone : ∀ t e keyTs count, WaitsForStream h t e keyTs count →
      e.timestamp = t ∧ (∀ s ∈ keyTs, s.1 = "s" ∨ s.1 = "t") ∧ count ≠ some 0 := by
    rintro t e keyTs count ⟨_, hl, hkind⟩
    have hmem : (t, e.timestamp, e.kind) ∈ h.registry.store.entries.map fun e => (e.1, e.2.timestamp, e.2.kind) :=
      List.mem_map_of_mem (f := fun e : (_ : Nat) × RequestEntry => (e.1, e.2.timestamp, e.2.kind))
        (AList.mem_lookup_iff.mp hl)
    rw [hstore, hkind] at hmem
    simp only [List.mem_cons, List.not_mem_nil, or_false, Prod.mk.injEq, RequestKind.stream.injEq] at hmem
    rcases hmem with ⟨rfl, hstamp, rfl, rfl⟩ | ⟨rfl, hstamp, rfl, rfl⟩ | ⟨rfl, hstamp, rfl, rfl⟩
    · exact ⟨hstamp, by decide, by decide⟩
    · exact ⟨hstamp, by decide, by decide⟩
    · exact ⟨hstamp, by decide, by decide⟩
  have hserved : ∃ ts replies, ServedStreams h (h.serveBacklogStream .asIs) ts replies := by
    refine (serveBacklogStream_xread .asIs hflag (fun t e keyTs count hw => (hone t e keyTs count hw).1)
      fun t e keyTs count hw => ⟨fun s hin => ?_, (hone t e keyTs count hw).2.2⟩).2
    rcases (hone t e keyTs count hw).2.1 s hin with heq | heq
    · rw [heq]
      exact hs
    · rw [heq]
      exact ht
  obtain ⟨ts, replies, hserved⟩ := hserved
  exact ⟨h, ts, replies, .of_foldlM hfold, hserved⟩

end CmdHandler

end Redis
