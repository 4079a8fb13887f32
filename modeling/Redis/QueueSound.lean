import Redis.AnswerSound
import Redis.ReplicaSound

/-!
# The queue of a transaction

EXEC runs its queue without the fd of epoll and collects values only. So whether
it returns depends on what each command meets at its turn, and so does whether
its reply has an element for each command: a command that is refused, that falls
through or that has to wait is left out.
-/

namespace Redis

open Lib

namespace CmdHandler

/-! ## An acknowledgement without an fd -/

def Enough (store : HashMap Nat RequestEntry) (offset : Int) (n timestamp : Nat) : Prop :=
  ∃ entry required actual snapshot slaves epollFd, store.lookup timestamp = some entry ∧
    entry.kind = .wait required actual snapshot slaves epollFd ∧ required ≤ actual + if snapshot ≤ offset then n else 0

def waiters (wait : HashMap Nat Nat) (ids : List Nat) (timestamp : Nat) : Nat :=
  ids.countP fun id => wait.lookup id = some timestamp

def Reached (wait : HashMap Nat Nat) (store : HashMap Nat RequestEntry) (offset : Int) (ids : List Nat) : Prop :=
  ∃ timestamp, 0 < waiters wait ids timestamp ∧ Enough store offset (waiters wait ids timestamp) timestamp

theorem Enough.mono {store : HashMap Nat RequestEntry} {offset : Int} {n m timestamp : Nat}
    (he : Enough store offset n timestamp) (hle : n ≤ m) : Enough store offset m timestamp := by
  obtain ⟨entry, required, actual, snapshot, slaves, epollFd, hstored, hkind, hreq⟩ := he
  refine ⟨entry, required, actual, snapshot, slaves, epollFd, hstored, hkind, ?_⟩
  split at hreq
  · rename_i hs
    rw [if_pos hs]
    omega
  · rename_i hs
    rwa [if_neg hs]

theorem waiters_cons {wait : HashMap Nat Nat} {id t : Nat} (hid : wait.lookup id = some t) (ids : List Nat)
    (timestamp : Nat) :
    waiters wait (id :: ids) timestamp = if timestamp =
      t then waiters wait ids timestamp + 1 else waiters wait ids timestamp := by
  unfold waiters
  rw [List.countP_cons, hid]
  by_cases ht : timestamp = t
  · simp [ht]
  · have hne : ¬ t = timestamp := fun heq => ht heq.symm
    simp [ht, hne]

theorem enough_modify {store : HashMap Nat RequestEntry} {offset snapshot : Int} {t required actual : Nat}
    {slaves : List Nat} {epollFd : Option Int} {entry : RequestEntry} (hstored : store.lookup t = some entry)
    (hkind : entry.kind = .wait required actual snapshot slaves epollFd) (n timestamp : Nat) :
    Enough (store.modify t (·.setCount (countAck offset snapshot actual))) offset n timestamp ↔
      Enough store offset (if timestamp = t then n + 1 else n) timestamp := by
  by_cases ht : timestamp = t
  · subst ht
    have hlookup : (store.modify timestamp (·.setCount (countAck offset snapshot actual))).lookup timestamp =
        some (entry.setCount (countAck offset snapshot actual)) := by
      rw [HashMap.lookup_modify, hstored, Option.map_some]
    have hcounted : (entry.setCount (countAck offset snapshot actual)).kind =
        .wait required (countAck offset snapshot actual) snapshot slaves epollFd := by
      rw [RequestEntry.setCount, hkind]
    rw [if_pos rfl]
    constructor
    · rintro ⟨entry', _, _, _, _, _, hl, hk, hle⟩
      cases hlookup.symm.trans hl
      cases hcounted.symm.trans hk
      refine ⟨entry, required, actual, snapshot, slaves, epollFd, hstored, hkind, ?_⟩
      unfold countAck at hle
      split at hle <;> rename_i hs <;> simp only [hs, if_true, if_false] at hle ⊢ <;> omega
    · rintro ⟨entry', _, _, _, _, _, hl, hk, hle⟩
      cases hstored.symm.trans hl
      cases hkind.symm.trans hk
      refine ⟨_, _, _, _, _, _, hlookup, hcounted, ?_⟩
      unfold countAck
      split at hle <;> rename_i hs <;> simp only [hs, if_true, if_false] at hle ⊢ <;> omega
  · unfold Enough
    rw [HashMap.lookup_modify_ne ht, if_neg ht]

theorem enough_one {store : HashMap Nat RequestEntry} {offset snapshot : Int} {t required actual : Nat}
    {slaves : List Nat} {epollFd : Option Int} {entry : RequestEntry} (hstored : store.lookup t = some entry)
    (hkind : entry.kind = .wait required actual snapshot slaves epollFd) :
    Enough store offset 1 t ↔ required ≤ countAck offset snapshot actual := by
  unfold countAck
  constructor
  · rintro ⟨entry', _, _, _, _, _, hl, hk, hle⟩
    cases hstored.symm.trans hl
    cases hkind.symm.trans hk
    split at hle <;> rename_i hs <;> simp only [hs, if_true, if_false] <;> omega
  · intro hle
    refine ⟨entry, required, actual, snapshot, slaves, epollFd, hstored, hkind, ?_⟩
    split at hle <;> rename_i hs <;> simp only [hs, if_true, if_false] <;> omega

theorem ackClient_enough {offset : Int} {a : AckState} {id t : Nat}
    (hid : a.handler.registry.backlogWait.lookup id = some t) :
    ∃ a', ackClient offset a id = some a' ∧ a'.handler.registry.backlogWait = a.handler.registry.backlogWait ∧
      (∀ k ∈ a'.done, k ∈ a.done ∨ k = id) ∧
      (a'.done = [] ↔ a.done = [] ∧ ¬ Enough a.handler.registry.store offset 1 t) ∧
      ∀ n timestamp, Enough a'.handler.registry.store offset n timestamp ↔
        Enough a.handler.registry.store offset (if timestamp = t then n + 1 else n) timestamp := by
  by_cases hwait : ∃ entry required actual snapshot slaves epollFd, a.handler.registry.store.lookup t = some entry ∧
      entry.kind = .wait required actual snapshot slaves epollFd
  · obtain ⟨entry, required, actual, snapshot, slaves, epollFd, hstored, hkind⟩ := hwait
    have hone : Enough a.handler.registry.store offset 1 t ↔ required ≤ countAck offset snapshot actual :=
      enough_one hstored hkind
    have hstore := @enough_modify _ offset _ _ _ _ _ _ _ hstored hkind
    simp only [ackClient, hid, hstored, hkind]
    split
    · rename_i hle
      exact ⟨_, rfl, rfl, by simp, by simp [hone.mpr hle], hstore⟩
    · rename_i hno
      exact ⟨_, rfl, rfl, fun k hk => .inl hk, ⟨fun h => ⟨h, fun he => hno (hone.mp he)⟩, fun h => h.1⟩, hstore⟩
  · -- there is nothing to count, so nothing is enough
    have hnever : ∀ n, ¬ Enough a.handler.registry.store offset n t := by
      rintro n ⟨entry, required, actual, snapshot, slaves, epollFd, hstored, hkind, _⟩
      exact hwait ⟨entry, required, actual, snapshot, slaves, epollFd, hstored, hkind⟩
    have hsame : ackClient offset a id = some a := by
      simp only [ackClient, hid]
      split
      · rename_i entry hstored
        split
        · rename_i required actual snapshot slaves epollFd hkind
          exact absurd ⟨entry, required, actual, snapshot, slaves, epollFd, hstored, hkind⟩ hwait
        · rfl
      · rfl
    refine ⟨a, hsame, rfl, fun k hk => .inl hk, by simp [hnever 1], fun n timestamp => ?_⟩
    by_cases ht : timestamp = t
    · subst ht
      exact iff_of_false (hnever n) (hnever _)
    · rw [if_neg ht]

theorem reached_cons {wait : HashMap Nat Nat} {store store' : HashMap Nat RequestEntry} {offset : Int} {id t : Nat}
    {ids : List Nat} (hid : wait.lookup id = some t)
    (hstore : ∀ n timestamp, Enough store' offset n timestamp ↔
      Enough store offset (if timestamp = t then n + 1 else n) timestamp) :
    Reached wait store offset (id :: ids) ↔ Enough store offset 1 t ∨ Reached wait store' offset ids := by
  unfold Reached
  constructor
  · rintro ⟨timestamp, hpos, he⟩
    rw [waiters_cons hid] at hpos he
    by_cases hzero : waiters wait ids timestamp = 0
    · by_cases ht : timestamp = t
      · subst ht
        rw [if_pos rfl, hzero] at he
        exact .inl he
      · rw [if_neg ht, hzero] at hpos
        cases hpos
    · exact .inr ⟨timestamp, Nat.pos_of_ne_zero hzero, (hstore _ timestamp).mpr he⟩
  · rintro (he | ⟨timestamp, hpos, he⟩)
    · refine ⟨t, ?_, ?_⟩ <;> rw [waiters_cons hid, if_pos rfl]
      · omega
      · exact he.mono (by omega)
    · refine ⟨timestamp, ?_, ?_⟩ <;> rw [waiters_cons hid]
      · split <;> omega
      · exact (hstore _ timestamp).mp he

theorem ackClients_enough {offset : Int} {ids : List Nat} {a : AckState}
    (hall : ∀ id ∈ ids, a.handler.registry.backlogWait.lookup id ≠ none) :
    ∃ a', ids.foldlM (ackClient offset) a = some a' ∧ a'.handler.registry.backlogWait = a.handler.registry.backlogWait ∧
      (∀ k ∈ a'.done, k ∈ a.done ∨ k ∈ ids) ∧
      (a'.done = [] ↔ a.done = [] ∧ ¬ Reached a.handler.registry.backlogWait a.handler.registry.store offset ids) := by
  induction ids generalizing a with
  | nil => exact ⟨a, rfl, rfl, fun k hk => .inl hk, by simp [Reached, waiters]⟩
  | cons id ids ih =>
    obtain ⟨t, hid⟩ := Option.ne_none_iff_exists'.mp (hall id (List.mem_cons_self ..))
    obtain ⟨b, hb, hwait, hdone, hnil, hstore⟩ := @ackClient_enough offset _ _ _ hid
    have hrest : ∀ k ∈ ids, b.handler.registry.backlogWait.lookup k ≠ none := by
      intro k hk
      rw [hwait]
      exact hall k (List.mem_cons_of_mem _ hk)
    obtain ⟨a', ha', hwait', hdone', hnil'⟩ := ih hrest
    refine ⟨a', by rw [List.foldlM_cons, hb]; exact ha', hwait'.trans hwait, fun k hk => ?_, ?_⟩
    · rcases hdone' k hk with hk | hk
      · rcases hdone k hk with hk | rfl
        · exact .inl hk
        · exact .inr (List.mem_cons_self ..)
      · exact .inr (List.mem_cons_of_mem _ hk)
    · rw [hnil', hnil, reached_cons hid hstore, hwait]
      tauto

theorem ackClients_known {offset : Int} {ids : List Nat} {a a' : AckState}
    (hrun : ids.foldlM (ackClient offset) a = some a') :
    ∀ id ∈ ids, a.handler.registry.backlogWait.lookup id ≠ none := by
  induction ids generalizing a with
  | nil => exact fun id hid => absurd hid List.not_mem_nil
  | cons id ids ih =>
    rw [List.foldlM_cons, Option.bind_eq_bind, Option.bind_eq_some_iff] at hrun
    obtain ⟨b, hb, hrun⟩ := hrun
    have hwait : b.handler.registry.backlogWait = a.handler.registry.backlogWait := by
      obtain ⟨_, _, _, _, hframe⟩ := ackClient_frame hb
      rw [hframe]
    intro k hk
    rcases List.mem_cons.mp hk with rfl | hk
    · intro hnone
      simp only [ackClient, hnone] at hb
      cases hb
    · rw [← hwait]
      exact ih hrun k hk

theorem exists_mapM {α β : Type} {f : α → Option β} {xs : List α} (hall : ∀ x ∈ xs, f x ≠ none) :
    ∃ ys, xs.mapM f = some ys := by
  induction xs with
  | nil => exact ⟨[], rfl⟩
  | cons x xs ih =>
    obtain ⟨y, hy⟩ := Option.ne_none_iff_exists'.mp (hall x (List.mem_cons_self ..))
    obtain ⟨ys, hys⟩ := ih fun x hx => hall x (List.mem_cons_of_mem _ hx)
    exact ⟨y :: ys, by rw [List.mapM_cons, hy, hys]; rfl⟩

def awaiting (h : CmdHandler) (slaveId : Nat) : List Nat := (h.registry.backlogAck.lookup slaveId).getD []

/-- REPLCONF ACK in a transaction panics if one of the clients does not wait, or
a WAIT is ended. -/
theorem cmdAck_eq_none {h : CmdHandler} {slaveId : Nat} {offset : Int} : cmdAck h slaveId offset none = none ↔
    (∃ id ∈ h.awaiting slaveId, h.registry.backlogWait.lookup id = none) ∨
      Reached h.registry.backlogWait h.registry.store offset (h.awaiting slaveId) := by
  have hunfold : cmdAck h slaveId offset none =
      ((h.awaiting slaveId).foldlM (ackClient offset) { handler := h }).bind fun a =>
        (a.done.mapM fun id => a.handler.registry.backlogWait.lookup id).bind fun timestamps =>
          if a.done.isEmpty then
            some ({ a.handler with
              registry := timestamps.foldl (fun r t => (r.remove t).1) { a.handler.registry with
                backlogAck := a.handler.registry.backlogAck.retain slaveId (· ∉ a.acked) } }, .ok none)
          else none := by
    unfold cmdAck awaiting
    simp only [Option.isSome_none, Bool.or_false]
    rfl
  rw [hunfold]
  by_cases hall : ∀ id ∈ h.awaiting slaveId, h.registry.backlogWait.lookup id ≠ none
  · obtain ⟨a, ha, hwait, hdone, hnil⟩ := @ackClients_enough offset (h.awaiting slaveId) { handler := h } hall
    obtain ⟨timestamps, hts⟩ :
        ∃ timestamps, (a.done.mapM fun id => a.handler.registry.backlogWait.lookup id) = some timestamps := by
      refine exists_mapM fun id hid => ?_
      rw [hwait]
      exact hall id ((hdone id hid).resolve_left List.not_mem_nil)
    have hno : ¬ ∃ id ∈ h.awaiting slaveId, h.registry.backlogWait.lookup id = none := by
      rintro ⟨id, hid, hnone⟩
      exact hall id hid hnone
    rw [ha, Option.bind_some, hts, Option.bind_some]
    by_cases hempty : a.done = []
    · simp only [hempty, List.isEmpty_nil, if_true]
      exact iff_of_false (by simp) fun hor => hor.elim hno (hnil.mp hempty).2
    · rw [if_neg (by simpa using hempty)]
      refine iff_of_true rfl (.inr ?_)
      by_contra hnot
      exact hempty (hnil.mpr ⟨rfl, hnot⟩)
  · cases hrun : (h.awaiting slaveId).foldlM (ackClient offset) { handler := h } with
    | some a => exact absurd (ackClients_known hrun) hall
    | none =>
      refine iff_of_true rfl (.inl ?_)
      by_contra hnot
      exact hall fun id hid hnone => hnot ⟨id, hid, hnone⟩

/-! ## The turns of the commands -/

def EveryTurn (P : Platform) (o : IterOrder) (clientId : Nat) (h : CmdHandler) (queue : List Queued)
    (C : CmdHandler → Queued → Prop) : Prop :=
  ∀ pre q post before resps, queue = pre ++ q :: post → runQueue P o clientId h pre = some (before, resps) → C before q

section
variable {P : Platform} {o : IterOrder} {h h' : CmdHandler} {clientId : Nat}

theorem everyTurn_nil (C : CmdHandler → Queued → Prop) : EveryTurn P o clientId h [] C := by
  intro pre q post before resps hq
  exact absurd hq (by simp)

theorem everyTurn_cons {q : Queued} {qs : List Queued} {C : CmdHandler → Queued → Prop} :
    EveryTurn P o clientId h (q :: qs) C ↔
      C h q ∧ ∀ h' out, h.executeQueued P o clientId q = some (h', out) → EveryTurn P o clientId h' qs C := by
  constructor
  · intro hall
    refine ⟨hall [] q qs h [] rfl rfl, fun h' out he pre q' post before resps hqs hpre => ?_⟩
    have hone : runQueue P o clientId h [q] = some (h', (outputOf out).extractResp.toList) := by simp [runQueue, he]
    exact hall (q :: pre) q' post before _ (by rw [hqs]; rfl) (runQueue_append hone hpre)
  · rintro ⟨hfirst, hrest⟩ pre q' post before resps hq hpre
    cases pre with
    | nil =>
      cases hq
      cases hpre
      exact hfirst
    | cons q₀ pre =>
      cases hq
      simp only [runQueue, Option.bind_eq_bind, Option.bind_eq_some_iff] at hpre
      obtain ⟨⟨h', out⟩, he, ⟨g, resps'⟩, hpre, hlast⟩ := hpre
      cases hlast
      exact hrest h' out he pre q' post g resps' rfl hpre

/-! ## Panics -/

/-- The handler panics without an fd: WAIT blocks, or an acknowledgement ends a WAIT. -/
def PanicsQueued (P : Platform) (h : CmdHandler) (clientId : Nat) : Cmd → Prop
  | .wait count _ => count ≠ 0 ∧ ∃ stats, h.appStates.hostStats = some stats ∧ stats.offset ≠ 0
  | .replconf (.ack offset) =>
    (∃ id ∈ h.awaiting clientId, h.registry.backlogWait.lookup id = none) ∨
      Reached h.registry.backlogWait h.registry.store offset (h.awaiting clientId)
  | cmd => Panics P h clientId none cmd

def CrashesQueued (P : Platform) (h : CmdHandler) (clientId : Nat) (cmd : Cmd) : Prop :=
  h.refuses clientId cmd = false ∧
    (cmd.toBeBroadcast = true ∧ h.clientTable.isMaster clientId = false ∧ h.appStates.hostStats = none ∨
      PanicsQueued P h clientId cmd)

theorem crashes_queued {cmd : Cmd} : Crashes P h clientId none cmd ↔ CrashesQueued P h clientId cmd := by
  have hpanics : Panics P h.clocked clientId none cmd ↔ PanicsQueued P h clientId cmd := by
    cases cmd with
    | wait count timeoutMs => simp [Panics, PanicsQueued, clocked]
    | replconf arg =>
      cases arg with
      | ack offset => exact cmdAck_eq_none
      | _ => exact Iff.rfl
    | _ => exact Iff.rfl
  rw [Crashes, CrashesQueued, hpanics]

theorem runQueue_returns_iff {queue : List Queued} : runQueue P o clientId h queue ≠ none ↔
    EveryTurn P o clientId h queue (fun g q => ¬ CrashesQueued P g clientId q.cmd) := by
  rw [Ne, runQueue_eq_none, QueueCrashes, EveryTurn]
  constructor
  · intro hno pre q post before resps hq hpre hcrash
    exact hno ⟨pre, q, post, before, resps, hq, hpre, crashes_queued.mpr hcrash⟩
  · rintro hall ⟨pre, q, post, before, resps, hq, hpre, hcrash⟩
    exact hall pre q post before resps hq hpre (crashes_queued.mp hcrash)

/-- EXEC returns if and only if it is aborted or no command of the queue panics at its turn. -/
theorem cmdExec_returns_iff (P : Platform) (o : IterOrder) (h : CmdHandler) (clientId : Nat) :
    cmdExec P o h clientId ≠ none ↔
      ∀ queue, h.registry.backlogTxn.lookup clientId = some queue → h.registry.isAnyDirty clientId = false →
        EveryTurn P o clientId (h.drainTxn clientId) queue (fun g q => ¬ CrashesQueued P g clientId q.cmd) := by
  unfold cmdExec
  cases hqueue : h.registry.backlogTxn.lookup clientId with
  | none => simp
  | some queue =>
    cases hdirty : h.registry.isAnyDirty clientId with
    | true => simp
    | false =>
      simp only [Bool.false_eq_true, if_false]
      constructor
      · rintro hreturns queue' hq -
        cases hq
        apply runQueue_returns_iff.mp
        intro hnone
        rw [hnone] at hreturns
        exact hreturns rfl
      · intro hall
        obtain ⟨r, hr⟩ := Option.ne_none_iff_exists'.mp (runQueue_returns_iff.mpr (hall queue rfl trivial))
        rw [hr]
        exact Option.some_ne_none _

/-- A WAIT in a transaction, after a write. -/
theorem exec_wait_panics : ∃ h, Run (Steps .blank) startup
      [ask 1 (.set "k" "v" none), ask 1 .multi, ask 1 (.wait 1 (some 100))] h ∧
    cmdExec .blank .asIs h 1 = none ∧ h.handle .blank .asIs (.ok .exec) [42] 1 0 = none :=
  ⟨_, .cons rfl (.cons rfl (.cons rfl .nil)), rfl, rfl⟩

/-! ## Replies -/

def answerOf : CmdResult → Option RespType
  | .ok resp => resp
  | .error e => some e.intoResp

def replyAt (P : Platform) (o : IterOrder) (clientId : Nat) (h : CmdHandler) (q : Queued) : Option RespType :=
  if h.refuses clientId q.cmd then some (subscriberError q.cmd).intoResp
  else do
    let prepared ← h.prepare q.cmd q.buf (h.clientTable.isMaster clientId)
    let (_, r) ← dispatch P o (fun _ _ => none) prepared h.registry.timer.now
      (h.isSubscriber clientId) clientId none q.cmd
    answerOf r

def turnReplies (P : Platform) (o : IterOrder) (clientId : Nat) : CmdHandler → List Queued → List (Option RespType)
  | _, [] => []
  | h, q :: qs =>
    replyAt P o clientId h q ::
      match h.executeQueued P o clientId q with
      | some (h, _) => turnReplies P o clientId h qs
      | none => []

def Fails (P : Platform) (o : IterOrder) (clientId : Nat) (h : CmdHandler) (cmd : Cmd) : Prop :=
  ∃ d e, dispatch P o (fun _ _ => none) (h.prepared cmd h.appStates) h.registry.timer.now
    (h.isSubscriber clientId) clientId
    none cmd = some (d, .error e)

/-- The command is answered at once, and its answer is not held back. The master
is told of errors only. -/
def Collected (P : Platform) (o : IterOrder) (clientId : Nat) (h : CmdHandler) (q : Queued) : Prop :=
  h.refuses clientId q.cmd = false ∧ ¬ FallsThrough h clientId q.cmd ∧
    (h.clientTable.isMaster clientId = true → q.cmd.alwaysResponse = true ∨ Fails P o clientId h q.cmd)

theorem executeQueued_collected {q : Queued} {out : Except CmdOutput CmdOutput}
    (he : h.executeQueued P o clientId q = some (h', out)) :
    (Collected P o clientId h q ∧ ∃ t, (outputOf out).extractResp = some t ∧ replyAt P o clientId h q = some t) ∨
      (¬ Collected P o clientId h q ∧ (outputOf out).extractResp = none) := by
  unfold executeQueued executeCmd at he
  cases hrefused : h.refuses clientId q.cmd with
  | true =>
    rw [if_pos hrefused] at he
    cases he
    exact .inr ⟨fun hc => absurd hc.1 (by simp [hrefused]), rfl⟩
  | false =>
    rw [if_neg (by simp [hrefused])] at he
    simp only [Option.bind_eq_bind, Option.bind_eq_some_iff] at he
    obtain ⟨prepared, hp, ⟨d, r⟩, hd, hc⟩ := he
    obtain ⟨s, hs, hframe⟩ := prepare_frame hp
    obtain rfl : prepared = h.prepared q.cmd s := hframe
    have hfalls : r = .ok none ↔ FallsThrough h clientId q.cmd :=
      (dispatch_falls (fun _ _ hg => by cases hg) hd).trans (fallsThrough_prepared hs)
    have hreply : replyAt P o clientId h q = answerOf r := by
      simp only [replyAt, hrefused, Bool.false_eq_true, if_false, Option.bind_eq_bind, hp, Option.bind_some, hd]
    -- nothing is counted for the master before the dispatch
    have hlink : h.clientTable.isMaster clientId = true → s = h.appStates := fun hmaster => by
      have hprep : h.prepare q.cmd q.buf true = some (h.prepared q.cmd h.appStates) := by
        simp [prepare, countWrite, prepared]
      rw [hmaster] at hp
      cases hprep.symm.trans hp
      rfl
    cases r with
    | error e =>
      cases hc
      refine .inl ⟨⟨hrefused, fun hf => ?_, fun hmaster => .inr ⟨d, e, ?_⟩⟩, e.intoResp, rfl, hreply⟩
      · cases hfalls.mpr hf
      · rw [← hlink hmaster]
        exact hd
    | ok resp =>
      cases resp with
      | none =>
        cases hc
        exact .inr ⟨fun hcollected => hcollected.2.1 (hfalls.mp rfl), rfl⟩
      | some t =>
        have hanswers : ¬ FallsThrough h clientId q.cmd := fun hf => by cases hfalls.mpr hf
        simp only [conclude, Bool.false_eq_true, if_false] at hc
        split at hc
        · rename_i hsent
          cases hc
          refine .inl ⟨⟨hrefused, hanswers, fun hmaster => .inl ?_⟩, t, rfl, hreply⟩
          simpa [hmaster] using hsent
        · rename_i hheld
          cases hc
          simp only [Bool.or_eq_true, Bool.not_eq_true', not_or, Bool.not_eq_false] at hheld
          obtain ⟨hmaster, hquiet⟩ := hheld
          refine .inr ⟨fun hcollected => ?_, rfl⟩
          rcases hcollected.2.2 hmaster with halways | ⟨d', e, hd'⟩
          · exact hquiet halways
          · rw [← hlink hmaster] at hd'
            cases hd.symm.trans hd'

theorem runQueue_length {queue : List Queued} {g : CmdHandler} {ts : List RespType}
    (hrun : runQueue P o clientId h queue = some (g, ts)) :
    ts.length ≤ queue.length ∧ (turnReplies P o clientId h queue).length = queue.length := by
  induction queue generalizing h ts with
  | nil =>
    cases hrun
    exact ⟨Nat.le_refl 0, rfl⟩
  | cons q qs ih =>
    simp only [runQueue, Option.bind_eq_bind, Option.bind_eq_some_iff] at hrun
    obtain ⟨⟨h', out⟩, he, ⟨_, ts'⟩, hrest, hlast⟩ := hrun
    cases hlast
    obtain ⟨hle, heq⟩ := ih hrest
    have hone : (outputOf out).extractResp.toList.length ≤ 1 := by
      cases (outputOf out).extractResp <;> simp
    constructor
    · have hsum : ((outputOf out).extractResp.toList ++ ts').length ≤ qs.length + 1 := by
        rw [List.length_append]
        omega
      exact hsum
    · rw [turnReplies, he, List.length_cons, heq, List.length_cons]

theorem runQueue_collects_iff {queue : List Queued} :
    (∃ g ts, runQueue P o clientId h queue = some (g, ts) ∧ ts.map some = turnReplies P o clientId h queue) ↔
      EveryTurn P o clientId h queue (fun g q => ¬ CrashesQueued P g clientId q.cmd ∧ Collected P o clientId g q) := by
  induction queue generalizing h with
  | nil => exact iff_of_true ⟨h, [], rfl, rfl⟩ (everyTurn_nil _)
  | cons q qs ih =>
    rw [everyTurn_cons]
    cases he : h.executeQueued P o clientId q with
    | none =>
      refine iff_of_false ?_ fun hall => hall.1.1 (crashes_queued.mp (executeQueued_eq_none.mp he))
      rintro ⟨g, ts, hrun, _⟩
      simp [runQueue, he] at hrun
    | some x =>
      obtain ⟨h', out⟩ := x
      have hno : ¬ CrashesQueued P h clientId q.cmd := by
        rw [← crashes_queued, ← executeQueued_eq_none (o := o), he]
        simp
      have hturns : turnReplies P o clientId h (q :: qs) =
          replyAt P o clientId h q :: turnReplies P o clientId h' qs := by
        rw [turnReplies, he]
      rw [hturns]
      rcases executeQueued_collected he with ⟨hc, t, ht, hreply⟩ | ⟨hc, hnone⟩
      · rw [hreply]
        constructor
        · rintro ⟨g, ts, hrun, hts⟩
          simp only [runQueue, he, ht, Option.bind_eq_bind, Option.bind_some, Option.bind_eq_some_iff] at hrun
          obtain ⟨⟨g', ts'⟩, hrest, hlast⟩ := hrun
          cases hlast
          refine ⟨⟨hno, hc⟩, fun h'' out' he' => ?_⟩
          cases he'
          exact ih.mp ⟨g', ts', hrest, by simpa using hts⟩
        · rintro ⟨_, hrest⟩
          obtain ⟨g, ts, hrun, hts⟩ := ih.mpr (hrest h' out rfl)
          exact ⟨g, t :: ts, by simp [runQueue, he, ht, hrun], by simp [hts]⟩
      · refine iff_of_false ?_ fun hall => hc hall.1.2
        rintro ⟨g, ts, hrun, hts⟩
        simp only [runQueue, he, hnone, Option.bind_eq_bind, Option.bind_some, Option.bind_eq_some_iff] at hrun
        obtain ⟨⟨g', ts'⟩, hrest, hlast⟩ := hrun
        cases hlast
        -- a reply is missing
        have hlength := congrArg List.length hts
        obtain ⟨hle, heq⟩ := runQueue_length hrest
        simp only [Option.toList_none, List.nil_append, List.length_map, List.length_cons, heq] at hlength
        omega

theorem execReply_eq (resps : List RespType) :
    (if resps.isEmpty then RespType.emptyArray else .arrayOf resps) = .array resps.length (some resps) := by
  cases resps with
  | nil => rfl
  | cons t ts => simp [RespType.arrayOf]

/-- EXEC answers with the reply of each command of its queue if and only if each
command at its turn does not panic, is not refused, and is answered at once. -/
theorem cmdExec_collects_iff {queue : List Queued} (hqueue : h.registry.backlogTxn.lookup clientId = some queue)
    (hclean : h.registry.isAnyDirty clientId = false) :
    (∃ g ts, cmdExec P o h clientId = some (g, reply (.array queue.length (some ts))) ∧
        ts.map some = turnReplies P o clientId (h.drainTxn clientId) queue) ↔
      EveryTurn P o clientId (h.drainTxn clientId) queue
        (fun g q => ¬ CrashesQueued P g clientId q.cmd ∧ Collected P o clientId g q) := by
  rw [← runQueue_collects_iff]
  unfold cmdExec
  simp only [hqueue, hclean, Bool.false_eq_true, if_false, execReply_eq, Option.bind_eq_bind, Option.bind_eq_some_iff]
  constructor
  · rintro ⟨g, ts, ⟨⟨g', resps⟩, hrun, hlast⟩, hts⟩
    simp only [Option.some.injEq, Prod.mk.injEq, reply, Except.ok.injEq, RespType.array.injEq] at hlast
    obtain ⟨_, _, rfl⟩ := hlast
    exact ⟨g', resps, hrun, hts⟩
  · rintro ⟨g, ts, hrun, hts⟩
    have hlength : ts.length = queue.length := by
      rw [← List.length_map (f := some), hts, (runQueue_length hrun).2]
    exact ⟨g.closeTxn clientId, ts, ⟨(g, ts), hrun, by rw [← hlength]⟩, hts⟩

theorem cmdExec_collects_ping : ∃ h queue, h = play startup [ask 1 .multi, ask 1 .ping, ask 1 (.incr "k")] ∧
    h.registry.backlogTxn.lookup 1 = some queue ∧ h.registry.isAnyDirty 1 = false ∧
    ((∃ g ts, cmdExec .blank .asIs h 1 = some (g, reply (.array queue.length (some ts))) ∧
        ts.map some = turnReplies .blank .asIs 1 (h.drainTxn 1) queue) ↔
      EveryTurn .blank .asIs 1 (h.drainTxn 1) queue
        (fun g q => ¬ CrashesQueued .blank g 1 q.cmd ∧ Collected .blank .asIs 1 g q)) :=
  ⟨_, _, rfl, rfl, rfl, cmdExec_collects_iff rfl rfl⟩

/-- A command that is refused, for the one before it subscribed. -/
theorem exec_drops_refused : ∃ h queue g t, Run (Steps .blank) startup
      [ask 1 .multi, ask 1 (.subscribe ["ch"]), ask 1 (.get "k")] h ∧
    h.registry.backlogTxn.lookup 1 = some queue ∧ queue.length = 2 ∧ h.registry.isAnyDirty 1 = false ∧
    cmdExec .blank .asIs h 1 = some (g, reply (.array 1 (some [t]))) :=
  ⟨_, _, _, _, .cons rfl (.cons rfl (.cons rfl .nil)), rfl, rfl, rfl, rfl⟩

end

end CmdHandler

end Redis
