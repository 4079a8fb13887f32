import Redis.HandoffSound
import Redis.OffsetSound
import Redis.Lib.Since

/-!
# Who is woken at the end of a cycle

Two flags tell whether the backlogs are served at the end of a cycle. A command
that returns a value sets both, so they tell of the last such command only. If
that one was a push, nobody who waits for a list that has items is left waiting;
if it was not, a push of the same cycle wakes nobody.
-/

namespace Redis

open Lib

namespace RequestRegistry

/-- The queues of the lists and the set of stream requests are indexes of the store. -/
structure Backlogged (r : RequestRegistry) : Prop where
  lists : r.Lists
  streams : r.Streams

theorem backlogged_inert : Inert Backlogged where
  session _ _ _ h := ⟨⟨h.lists.stamp, h.lists.list, h.lists.queue⟩, h.streams⟩
  ticked _ h := ⟨⟨h.lists.stamp, h.lists.list, h.lists.queue⟩, h.streams⟩
  disarmed _ h := ⟨⟨h.lists.stamp, h.lists.list, h.lists.queue⟩, h.streams⟩
  answered _ _ h := ⟨⟨h.lists.stamp, h.lists.list, h.lists.queue⟩, h.streams⟩
  removed _ timestamp h := ⟨h.lists.remove timestamp, h.streams.remove timestamp⟩
  counted _ t n h := ⟨h.lists.setCount t n, h.streams.setCount t n⟩
  acked _ _ _ h := ⟨⟨h.lists.stamp, h.lists.list, h.lists.queue⟩, h.streams⟩

end RequestRegistry

namespace CmdHandler

open RequestRegistry

/-- No request is stored under the clock reading of a request that the step stores. -/
def OwnStamps (P : Platform) (h : CmdHandler) (label : IterOrder × Event) : Prop :=
  ∀ x, Executes P h label x → x.before.refuses x.clientId x.cmd = false → ∀ epollFd kind timeoutMs,
    requestOf label.1 x.before epollFd x.cmd = some (kind, timeoutMs) →
      x.before.registry.timer.now ∉ x.before.registry.store

def Pushed (calls : List Call) (key : String) : Prop :=
  ∃ c ∈ calls, (∃ items, c.cmd = .rpush key items ∨ c.cmd = .lpush key items) ∧ Valued c.result

def Added (calls : List Call) (key : String) : Prop :=
  ∃ c ∈ calls, (∃ id value, c.cmd = .xadd key id value) ∧ Valued c.result

def PopWaits (h : CmdHandler) (key : String) : Prop := listItems h.data key ≠ [] ∧ Waits h key

def ReadWaits (h : CmdHandler) (key : String) : Prop :=
  ∃ t e keyTs count id, h.registry.store.lookup t = some e ∧ e.kind = .stream keyTs count ∧ (key, id) ∈ keyTs ∧
    entriesAfter h.data key id ≠ []

/-- Nobody waits for what was pushed or added in the cycle. -/
structure NoLostWakeup (calls : List Call) (h : CmdHandler) : Prop where
  list : ∀ key, Pushed calls key → ¬ PopWaits h key
  stream : ∀ key, Added calls key → ¬ ReadWaits h key

def LastSets (flag : Cmd → Bool) (calls : List Call) : Prop :=
  Since (fun c : Call => Valued c.result ∧ flag c.cmd = true) (fun c => ¬ Valued c.result) calls

section
variable {P : Platform} {o o' : IterOrder} {h h' : CmdHandler} {key : String}

theorem step_backlogged {label : IterOrder × Event} (hs : Steps P h label h') (hown : OwnStamps P h label)
    (hb : h.registry.Backlogged) : h'.registry.Backlogged := by
  refine step_kept backlogged_inert (fun x hx hno epollFd kind timeoutMs hreq s hprep => ?_) hs hb
  have hnone : (x.before.prepared x.cmd s).registry.store.lookup x.before.registry.timer.now = none :=
    AList.lookup_eq_none.mpr (hown x hx hno epollFd kind timeoutMs hreq)
  exact ⟨hprep.lists.insert hnone, hprep.streams.insert hnone⟩

/-! ## The flags -/

theorem Effect.flags {now clientId : Nat} {epollFd : Option Int} {cmd : Cmd} {r : CmdResult}
    (he : Effect P o h now clientId epollFd cmd h' r) :
    h'.flagBacklogList = h.flagBacklogList ∧ h'.flagBacklogStream = h.flagBacklogStream := by
  cases he with
  | ack _ ha =>
    obtain ⟨_, _, rfl, _⟩ := cmdAck_frame ha
    exact ⟨rfl, rfl⟩
  | _ => exact ⟨rfl, rfl⟩

theorem Call.Made.flags {c : Call} (hm : Call.Made P o c) :
    (Valued c.result →
      c.after.flagBacklogList = c.cmd.isFlagList ∧ c.after.flagBacklogStream = c.cmd.isFlagStream) ∧
    (¬ Valued c.result →
      c.after.flagBacklogList = c.before.flagBacklogList ∧ c.after.flagBacklogStream = c.before.flagBacklogStream) := by
  obtain ⟨_, _, exec, s, d, fd, ser, out, _, _, hexec, hd, hc⟩ := hm
  have hflags := (dispatch_effect hexec hd).flags
  constructor
  · rintro ⟨resp, hr⟩
    rw [hr] at hc
    obtain ⟨s', hafter⟩ := conclude_some hc
    obtain ⟨ids, a, _, hp⟩ := propagate_frame (o := o)
      { d with flagBacklogList := c.cmd.isFlagList, flagBacklogStream := c.cmd.isFlagStream } c.cmd c.buf
    rw [hafter, hp]
    exact ⟨rfl, rfl⟩
  · intro hno
    cases hr : c.result with
    | error e =>
      rw [hr] at hc
      obtain ⟨s', hs'⟩ := countFromMaster_frame d c.buf (c.before.clientTable.isMaster c.clientId)
      simp only [conclude, Option.some.injEq, Prod.mk.injEq] at hc
      rw [← hc.1, hs']
      exact hflags
    | ok resp =>
      cases resp with
      | none =>
        rw [hr] at hc
        simp only [conclude, Option.some.injEq, Prod.mk.injEq] at hc
        rw [← hc.1]
        exact hflags
      | some resp => exact absurd ⟨resp, hr⟩ hno

/-- After a call that returned a value, the flags tell what the last such call was. -/
structure Flagged (h : CmdHandler) (calls : List Call) : Prop where
  list : (∃ c ∈ calls, Valued c.result) → (h.flagBacklogList = true ↔ LastSets Cmd.isFlagList calls)
  stream : (∃ c ∈ calls, Valued c.result) → (h.flagBacklogStream = true ↔ LastSets Cmd.isFlagStream calls)

theorem Pushed.valued {calls : List Call} (h : Pushed calls key) : ∃ c ∈ calls, Valued c.result := by
  obtain ⟨c, hc, _, hv⟩ := h
  exact ⟨c, hc, hv⟩

theorem Added.valued {calls : List Call} (h : Added calls key) : ∃ c ∈ calls, Valued c.result := by
  obtain ⟨c, hc, _, hv⟩ := h
  exact ⟨c, hc, hv⟩

theorem lastSets_snoc {flag : Cmd → Bool} {calls : List Call} {c : Call} : LastSets flag (calls ++ [c]) ↔
    (Valued c.result ∧ flag c.cmd = true) ∨ LastSets flag calls ∧ ¬ Valued c.result := since_snoc

theorem Flagged.call {c : Call} {calls : List Call} (hm : Call.Made P o c) (hf : Flagged c.before calls) :
    Flagged c.after (calls ++ [c]) := by
  by_cases hv : Valued c.result
  · obtain ⟨hlist, hstream⟩ := hm.flags.1 hv
    refine ⟨fun _ => ?_, fun _ => ?_⟩
    · rw [hlist, lastSets_snoc]
      simp [hv]
    · rw [hstream, lastSets_snoc]
      simp [hv]
  · obtain ⟨hlist, hstream⟩ := hm.flags.2 hv
    have hold : (∃ d ∈ calls ++ [c], Valued d.result) → ∃ d ∈ calls, Valued d.result := by
      rintro ⟨d, hd, hdv⟩
      rcases List.mem_append.mp hd with hd | hd
      · exact ⟨d, hd, hdv⟩
      · rw [List.mem_singleton.mp hd] at hdv
        exact absurd hdv hv
    refine ⟨fun hsome => ?_, fun hsome => ?_⟩
    · rw [hlist, hf.list (hold hsome), lastSets_snoc]
      simp [hv]
    · rw [hstream, hf.stream (hold hsome), lastSets_snoc]
      simp [hv]

/-! ## The lists are served -/

theorem backlogTask_entriesAfter (h : CmdHandler) (e : RequestEntry) (key : String) (id : Nat × Nat) :
    entriesAfter (h.backlogTask e).data key id = entriesAfter h.data key id := by
  unfold backlogTask
  split
  · rename_i k hk
    split
    · rename_i item items x hl
      unfold entriesAfter
      by_cases hkey : key = k
      · subst hkey
        have hset : (setList h.data key items).lookup key = some ⟨.list items, x⟩ := by
          unfold setList
          rw [HashMap.lookup_modify, hl]
          rfl
        have hafter : ∀ registry q, ({ h with data := setList h.data key items, registry, responseQueue := q } :
          CmdHandler).data.lookup key = some ⟨.list items, x⟩ := fun _ _ => hset
        simp only [answer, pushResponse, hset, hl]
      · simp only [answer, pushResponse, setList, HashMap.lookup_modify_ne hkey]
    · rfl
  · split <;> rfl
  · rfl

theorem serve_entriesAfter (served : RequestKind → Bool) (h : CmdHandler) (ts : List Nat) (key : String)
    (id : Nat × Nat) : entriesAfter (h.serve served ts).data key id = entriesAfter h.data key id :=
  serve_inv (I := fun g => entriesAfter g.data key id = entriesAfter h.data key id) rfl
    fun g _ e _ _ hg => (backlogTask_entriesAfter g e key id).trans hg

/-- Each task for the list takes its first item. -/
theorem tasks_items (es : List RequestEntry) (h : CmdHandler) : listItems (es.foldl backlogTask h).data key =
    (listItems h.data key).drop (es.countP fun e => e.kind = .list key) := by
  induction es generalizing h with
  | nil => rfl
  | cons e es ih =>
    rw [List.foldl_cons, ih, backlogTask_items, List.countP_cons]
    by_cases hk : e.kind = .list key
    · simp [hk, ← List.drop_one, Nat.add_comm]
    · simp [hk]

theorem serveList_lookup (hc : h.registry.Lists) (t : Nat) :
    (h.serve RequestKind.isList (h.listTimestamps o)).registry.store.lookup t =
      if t ∈ h.listTimestamps o then none else h.registry.store.lookup t := by
  obtain ⟨_, history, hreg⟩ := serveList_registry (o := o) hc
  rw [hreg]
  exact foldl_remove_lookup _ _ t

theorem serveList_items (hc : h.registry.Lists) : listItems (h.serve RequestKind.isList (h.listTimestamps o)).data key =
    (listItems h.data key).drop ((h.registry.backlogList.queueOf key).take (listItems h.data key).length).length := by
  have hfirst := congrArg List.length (listTimestamps_filter (o := o) hc key)
  rw [← List.countP_eq_length_filter] at hfirst
  unfold serve
  simp only
  rw [tasks_items, serveList_count hc, hfirst]

/-- After the service the list is empty, or nobody waits for it. -/
theorem serveBacklogList_done (hc : h.registry.Lists) (hf : h.flagBacklogList = true) :
    ¬ PopWaits (h.serveBacklogList o) key := by
  unfold serveBacklogList
  rw [if_pos hf]
  rintro ⟨hitems, t, e, he, hk⟩
  rw [serveList_lookup hc] at he
  rw [serveList_items hc] at hitems
  split at he
  · cases he
  · rename_i hout
    have hqueued : t ∈ h.registry.backlogList.queueOf key := (hc.list.entry he).mpr hk
    -- the request was too far behind to be served
    have hshort : (listItems h.data key).length < (h.registry.backlogList.queueOf key).length := by
      by_contra hle
      have hall := List.take_of_length_le (l := h.registry.backlogList.queueOf key) (not_lt.mp hle)
      rw [← listTimestamps_filter (o := o) hc key] at hall
      rw [← hall] at hqueued
      exact hout (List.mem_filter.mp hqueued).1
    rw [List.length_take, Nat.min_eq_left (le_of_lt hshort), List.drop_length] at hitems
    exact hitems rfl

theorem serveBacklogList_readWaits (hc : h.registry.Lists) :
    ReadWaits (h.serveBacklogList o) key ↔ ReadWaits h key := by
  unfold serveBacklogList
  split
  · have hlookup := serveList_lookup (o := o) hc
    have hdata := serve_entriesAfter RequestKind.isList h (h.listTimestamps o) key
    constructor
    · rintro ⟨t, e, keyTs, count, id, he, hk, hin, hentries⟩
      simp only at he hentries
      rw [hlookup] at he
      rw [hdata] at hentries
      split at he
      · cases he
      · exact ⟨t, e, keyTs, count, id, he, hk, hin, hentries⟩
    · rintro ⟨t, e, keyTs, count, id, he, hk, hin, hentries⟩
      have hout : t ∉ h.listTimestamps o := by
        intro hts
        obtain ⟨k, e', he', hk', _⟩ := listTimestamps_entry hc hts
        rw [he, Option.some.injEq] at he'
        rw [← he', hk] at hk'
        cases hk'
      refine ⟨t, e, keyTs, count, id, ?_, hk, hin, ?_⟩
      · simp only
        rw [hlookup, if_neg hout]
        exact he
      · simp only
        rw [hdata]
        exact hentries
  · exact Iff.rfl

/-! ## The streams are served -/

theorem serveStream_lookup (hc : h.registry.Lists) (t : Nat) :
    (h.serve RequestKind.isStream (h.streamTimestamps o)).registry.store.lookup t =
      if t ∈ h.streamTimestamps o then none else h.registry.store.lookup t := by
  obtain ⟨_, history, hreg⟩ := serveStream_registry (o := o) hc
  rw [hreg]
  exact foldl_remove_lookup _ _ t

/-- After the service no request has something to read. -/
theorem serveBacklogStream_done (hb : h.registry.Backlogged) (hf : h.flagBacklogStream = true) :
    ¬ ReadWaits (h.serveBacklogStream o) key := by
  unfold serveBacklogStream
  rw [if_pos hf]
  rintro ⟨t, e, keyTs, count, id, he, hk, hin, hentries⟩
  simp only at he hentries
  rw [serveStream_lookup hb.lists] at he
  rw [serve_entriesAfter] at hentries
  split at he
  · cases he
  · rename_i hout
    have hqueued : t ∈ h.registry.backlogStream :=
      (Indexed.entry hb.streams he (k := ())).mpr (by rw [hk]; rfl)
    refine hout (List.mem_filter.mpr ⟨(o.perm _).mem_iff.mpr hqueued, ?_⟩)
    unfold hasItems
    rw [he]
    obtain ⟨kind, clientId, timestamp, deadline, serial⟩ := e
    cases hk
    refine List.any_eq_true.mpr ⟨(key, id), hin, ?_⟩
    simp only [isStreamAvail]
    simpa using hentries

theorem serveBacklogStream_popWaits (hc : h.registry.Lists) :
    PopWaits (h.serveBacklogStream o) key ↔ PopWaits h key := by
  unfold PopWaits
  rw [serveBacklogStream_data]
  refine and_congr_right fun _ => ?_
  unfold serveBacklogStream
  split
  · have hlookup := serveStream_lookup (o := o) hc
    constructor
    · rintro ⟨t, e, he, hk⟩
      simp only at he
      rw [hlookup] at he
      split at he
      · cases he
      · exact ⟨t, e, he, hk⟩
    · rintro ⟨t, e, he, hk⟩
      refine ⟨t, e, ?_, hk⟩
      simp only
      rw [hlookup, if_neg fun hts => ?_]
      · exact he
      · have hstream := streamTimestamps_entry hts he
        rw [hk] at hstream
        cases hstream
  · exact Iff.rfl

/-- What the two services leave waiting for a list goes by the flag of the pushes. -/
theorem woken_list_iff (hb : h.registry.Backlogged) :
    ¬ PopWaits ((h.serveBacklogList o).serveBacklogStream o') key ↔ (PopWaits h key → h.flagBacklogList = true) := by
  have hserved := backlogged_inert.takes (serveBacklogList_takes o h) hb
  rw [serveBacklogStream_popWaits hserved.lists]
  by_cases hon : h.flagBacklogList = true
  · exact iff_of_true (serveBacklogList_done hb.lists hon) fun _ => hon
  · unfold serveBacklogList
    rw [if_neg hon]
    exact ⟨fun hno hwaits => absurd hwaits hno, fun himp hwaits => hon (himp hwaits)⟩

theorem woken_stream_iff (hb : h.registry.Backlogged) :
    ¬ ReadWaits ((h.serveBacklogList o).serveBacklogStream o') key ↔
      (ReadWaits h key → h.flagBacklogStream = true) := by
  have hserved := backlogged_inert.takes (serveBacklogList_takes o h) hb
  have hsame : (h.serveBacklogList o).flagBacklogStream = h.flagBacklogStream := by
    unfold serveBacklogList
    split
    · obtain ⟨q, d, r, hserve⟩ := serve_frame RequestKind.isList h (h.listTimestamps o)
      rw [hserve]
    · rfl
  rw [← hsame, ← serveBacklogList_readWaits (o := o) hb.lists]
  by_cases hon : (h.serveBacklogList o).flagBacklogStream = true
  · exact iff_of_true (serveBacklogStream_done hserved hon) fun _ => hon
  · unfold serveBacklogStream
    rw [if_neg hon]
    exact ⟨fun hno hwaits => absurd hwaits hno, fun himp hwaits => hon (himp hwaits)⟩

/-! ## Cycles -/

def OfCommand (label : IterOrder × Event) : Prop :=
  ∃ cmd buf clientId epollFd, label.2 = .handle cmd buf clientId epollFd

theorem cycle_flagged {labels : List (IterOrder × Event)}
    (hr : Run (guarded (fun h label => OwnStamps P h label ∧ OfCommand label) (Steps P)) h labels h') :
    Flagged h' (runCalls P h labels) := by
  have hno : ¬ ∃ c ∈ ([] : List Call), Valued c.result := by simp
  have hnone : Flagged h [] := ⟨fun h => absurd h hno, fun h => absurd h hno⟩
  refine collect_inv hr (fun g label g' calls hg hs hf => ?_) hnone
  obtain ⟨_, cmd, buf, clientId, epollFd, hlabel⟩ := hg
  exact step_calls hs (fun _ _ _ hf => ⟨hf.list, hf.stream⟩) (fun _ _ _ _ _ _ _ _ _ hf => ⟨hf.list, hf.stream⟩)
    (fun _ _ _ hm hf => hf.call hm) (fun hno => absurd hlabel (hno cmd buf clientId epollFd)) hf

/-- A cycle of a run: nobody waits at its end for what was pushed in it if and only
if the flag of the pushes is set last, as far as somebody waits before the service. -/
theorem cycle_wakes_iff {timer : Timer} {appStates : AppStates} {past cycle : List (IterOrder × Event)}
    {start g : CmdHandler} (hb : Begun P (OwnStamps P) timer appStates start)
    (hpast : Run (guarded (OwnStamps P) (Steps P)) start past h)
    (hcycle : Run (guarded (fun h label => OwnStamps P h label ∧ OfCommand label) (Steps P)) h cycle g) :
    NoLostWakeup (runCalls P h cycle) ((g.serveBacklogList o).serveBacklogStream o') ↔
      (∀ key, Pushed (runCalls P h cycle) key → PopWaits g key → LastSets Cmd.isFlagList (runCalls P h cycle)) ∧
      ∀ key, Added (runCalls P h cycle) key → ReadWaits g key → LastSets Cmd.isFlagStream (runCalls P h cycle) := by
  have hstart : start.registry.Backlogged :=
    hb.registry (I := Backlogged) ⟨(coherent_new timer).lists, (coherent_new timer).stream⟩ fun _ _ _ _ hs hg =>
      step_backlogged hs.2 hs.1 hg
  have hh : h.registry.Backlogged :=
    hpast.inv (I := fun h => h.registry.Backlogged) (fun _ _ _ _ hb hs => step_backlogged hs.2 hs.1 hb) hstart
  have hg : g.registry.Backlogged :=
    hcycle.inv (I := fun h => h.registry.Backlogged) (fun _ _ _ _ hb hs => step_backlogged hs.2 hs.1.1 hb) hh
  have hf := cycle_flagged hcycle
  constructor
  · rintro ⟨hlist, hstream⟩
    refine ⟨fun key hpushed hwaits => ?_, fun key hadded hwaits => ?_⟩
    · exact (hf.list hpushed.valued).mp ((woken_list_iff hg).mp (hlist key hpushed) hwaits)
    · exact (hf.stream hadded.valued).mp ((woken_stream_iff hg).mp (hstream key hadded) hwaits)
  · rintro ⟨hlist, hstream⟩
    refine ⟨fun key hpushed => (woken_list_iff hg).mpr fun hwaits => ?_,
      fun key hadded => (woken_stream_iff hg).mpr fun hwaits => ?_⟩
    · exact (hf.list hpushed.valued).mpr (hlist key hpushed hwaits)
    · exact (hf.stream hadded.valued).mpr (hstream key hadded hwaits)

end

/-! ### Concrete cycles -/

def waiting : CmdHandler := play startup [ask 1 (.blpop "k" none)]

theorem waiting_run : Run (guarded (OwnStamps .blank) (Steps .blank)) startup [ask 1 (.blpop "k" none)] waiting := by
  refine .cons ⟨?_, rfl⟩ .nil
  intro x hx _ epollFd kind timeoutMs hr
  cases hx
  exact AList.notMem_empty 0

def pingThenPush : List (IterOrder × Event) := [ask 2 .ping, ask 2 (.rpush "k" ["a"])]

theorem cycle_wakes_iff_pushed :
    NoLostWakeup (runCalls .blank waiting pingThenPush)
      (((play waiting pingThenPush).serveBacklogList .asIs).serveBacklogStream .asIs) := by
  have hping : Steps .blank waiting (ask 2 .ping) (play waiting (pingThenPush.take 1)) := rfl
  have hpush : Steps .blank (play waiting (pingThenPush.take 1)) (ask 2 (.rpush "k" ["a"]))
    (play waiting pingThenPush) := rfl
  have hcycle : Run (guarded (fun h label => OwnStamps .blank h label ∧ OfCommand label) (Steps .blank)) waiting
      pingThenPush (play waiting pingThenPush) := by
    refine .cons ⟨⟨?_, _, _, _, _, rfl⟩, hping⟩ (.cons ⟨⟨?_, _, _, _, _, rfl⟩, hpush⟩ .nil) <;>
    · intro x hx _ epollFd kind timeoutMs hr
      cases hx
      cases hr
  have hcmds : (runCalls .blank waiting pingThenPush).map (·.cmd) = [.ping, .rpush "k" ["a"]] := rfl
  have hb : Begun .blank (OwnStamps .blank) startup.registry.timer startup.appStates startup := .new {}
  refine (cycle_wakes_iff hb waiting_run hcycle).mpr ⟨fun key _ _ => ?_, fun key hadded _ => ?_⟩
  · exact ⟨_, _, [], rfl, ⟨⟨_, rfl⟩, rfl⟩, fun c hc => absurd hc List.not_mem_nil⟩
  · obtain ⟨c, hc, ⟨id, value, hxadd⟩, _⟩ := hadded
    have hin := List.mem_map_of_mem (f := (·.cmd)) hc
    rw [hcmds, hxadd] at hin
    simp at hin

/-- A PING after the push puts the flag down. -/
def pushThenPing : List (IterOrder × Event) := [ask 2 (.rpush "k" ["a"]), ask 2 .ping]

theorem ping_unwakes : ∃ g, Run (Steps .blank) startup [ask 1 (.blpop "k" none)] waiting ∧
    Run (Steps .blank) waiting pushThenPing g ∧ (∀ label ∈ pushThenPing, OfCommand label) ∧
    ¬ NoLostWakeup (runCalls .blank waiting pushThenPing) ((g.serveBacklogList .asIs).serveBacklogStream .asIs) := by
  refine ⟨_, .cons rfl .nil, .cons rfl (.cons rfl .nil), ?_, fun hno => ?_⟩
  · intro label hl
    rcases List.mem_cons.mp hl with rfl | hl
    · exact ⟨_, _, _, _, rfl⟩
    · rw [List.mem_singleton.mp hl]
      exact ⟨_, _, _, _, rfl⟩
  · have hpushed : Pushed (runCalls .blank waiting pushThenPing) "k" :=
      ⟨_, List.mem_cons_self .., ⟨["a"], .inl rfl⟩, _, rfl⟩
    refine hno.list "k" hpushed ⟨?_, 0, ⟨.list "k", 1, 0, 0, 0⟩, rfl, rfl⟩
    exact List.cons_ne_nil "a" []

end CmdHandler

end Redis
