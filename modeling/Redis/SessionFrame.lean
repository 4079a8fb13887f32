import Redis.Executions

/-!
# What commands leave to the sessions

Transactions, watches, subscriptions and the responses that are queued already
belong to the sessions of clients. Most commands do not look at them: they do the
same, whatever the sessions are, and leave them as they are. So do the services
of the backlogs and the callback of the timer.
-/

namespace Redis

open Lib RequestRegistry

def Cmd.ofSession : Cmd → Bool
  | .multi | .exec | .discard | .watch _ | .unwatch | .subscribe _ | .unsubscribe _ | .publish .. => true
  | _ => false

structure SessionState where
  backlogTxn : HashMap Nat (List Queued) := ∅
  watchlist : HashMap String (HashMap Nat Bool) := ∅
  subscribers : HashSet Nat := ∅
  channels : HashMap String (HashSet Nat) := ∅
  queue : List (Nat × Bytes) := []

namespace RequestRegistry

def inSession (X : SessionState) (r : RequestRegistry) : RequestRegistry :=
  { r with backlogTxn := X.backlogTxn, watchlist := X.watchlist }

section
variable {X : SessionState}

theorem insert_inSession (r : RequestRegistry) (timestamp deadline id : Nat) (kind : RequestKind) :
    (r.inSession X).insert timestamp deadline id kind = (r.insert timestamp deadline id kind).inSession X := by
  unfold RequestRegistry.insert schedule inSession
  by_cases hd : 0 < deadline
  · rw [if_pos hd, if_pos hd]
    cases kind <;> rfl
  · rw [if_neg hd, if_neg hd]
    cases kind <;> rfl

theorem remove_inSession (r : RequestRegistry) (timestamp : Nat) :
    (r.inSession X).remove timestamp = ((r.remove timestamp).1.inSession X, (r.remove timestamp).2) := by
  unfold remove inSession
  cases r.store.lookup timestamp with
  | none => rfl
  | some entry =>
    obtain ⟨kind, _, _, _, _⟩ := entry
    cases kind <;> rfl

theorem foldl_remove_inSession (ts : List Nat) (r : RequestRegistry) :
    ts.foldl (fun r t => (r.remove t).1) (r.inSession X) = (ts.foldl (fun r t => (r.remove t).1) r).inSession X := by
  induction ts generalizing r with
  | nil => rfl
  | cons timestamp ts ih => rw [List.foldl_cons, List.foldl_cons, remove_inSession, ih]

end

end RequestRegistry

namespace CmdHandler

/-- The handler with these sessions; what it has queued comes after what was queued before. -/
def inSession (X : SessionState) (h : CmdHandler) : CmdHandler :=
  { h with
    registry := h.registry.inSession X
    subscribers := X.subscribers
    channels := X.channels
    responseQueue := X.queue ++ h.responseQueue }

def sessions (h : CmdHandler) : SessionState where
  backlogTxn := h.registry.backlogTxn
  watchlist := h.registry.watchlist
  subscribers := h.subscribers
  channels := h.channels

section
variable {P : Platform} {o : IterOrder} {X : SessionState} {clientId : Nat}

/-! ## Commands -/

theorem pushResponse_inSession (h : CmdHandler) (id : Nat) (message : Bytes) :
    (h.inSession X).pushResponse id message = (h.pushResponse id message).inSession X := by
  simp only [pushResponse, inSession, List.append_assoc]

theorem pushAll_inSession (h : CmdHandler) (ids : List Nat) (message : Bytes) :
    (h.inSession X).pushAll ids message = (h.pushAll ids message).inSession X := by
  simp only [pushAll, inSession, List.append_assoc]

theorem answer_inSession (h : CmdHandler) (entry : RequestEntry) (t : RespType) :
    (h.inSession X).answer entry t = (h.answer entry t).inSession X := by
  unfold answer
  rw [pushResponse_inSession]
  rfl

def AckState.inSession (X : SessionState) (a : AckState) : AckState := { a with handler := a.handler.inSession X }

theorem ackClient_inSession (offset : Int) (a : AckState) (id : Nat) :
    ackClient offset (a.inSession X) id = (ackClient offset a id).map (AckState.inSession X) := by
  unfold ackClient
  have hwait : (a.inSession X).handler.registry.backlogWait = a.handler.registry.backlogWait := rfl
  have hstore : (a.inSession X).handler.registry.store = a.handler.registry.store := rfl
  rw [hwait, hstore]
  cases a.handler.registry.backlogWait.lookup id with
  | none => rfl
  | some timestamp =>
    simp only
    cases a.handler.registry.store.lookup timestamp with
    | none => rfl
    | some entry =>
      obtain ⟨kind, _, _, _, _⟩ := entry
      cases kind with
      | list | stream => rfl
      | wait requiredCount actualCount offsetSnapshot =>
        by_cases hc : requiredCount ≤ countAck offset offsetSnapshot actualCount
        · simp only [hc, if_true, Option.map_some, AckState.inSession, ← answer_inSession]
          rfl
        · simp only [hc, if_false]
          rfl

theorem foldlM_ackClient_inSession (offset : Int) (ids : List Nat) (a : AckState) :
    ids.foldlM (ackClient offset) (a.inSession X) = (ids.foldlM (ackClient offset) a).map (AckState.inSession X) := by
  induction ids generalizing a with
  | nil => rfl
  | cons id ids ih =>
    rw [List.foldlM_cons, List.foldlM_cons, ackClient_inSession]
    cases ackClient offset a id with
    | none => rfl
    | some a' => exact ih a'

theorem cmdAck_inSession (h : CmdHandler) (slaveId : Nat) (offset : Int) (epollFd : Option Int) :
    cmdAck (h.inSession X) slaveId offset epollFd = (cmdAck h slaveId offset epollFd).map
      (Prod.map (inSession X) id) := by
  have hloop := foldlM_ackClient_inSession (X := X) offset ((h.registry.backlogAck.lookup slaveId).getD [])
    { handler := h }
  have hack : (h.inSession X).registry.backlogAck = h.registry.backlogAck := rfl
  unfold cmdAck
  simp only
  rw [hack, show ({ handler := h.inSession X } : AckState) = AckState.inSession X { handler := h } from rfl, hloop]
  cases ((h.registry.backlogAck.lookup slaveId).getD []).foldlM (ackClient offset) { handler := h } with
  | none => rfl
  | some a =>
    simp only [Option.map_some, Option.bind_eq_bind, Option.bind_some]
    have hdone : (a.inSession X).done = a.done := rfl
    have hwait : (a.inSession X).handler.registry.backlogWait = a.handler.registry.backlogWait := rfl
    rw [hdone, hwait]
    cases a.done.mapM fun id => a.handler.registry.backlogWait.lookup id with
    | none => rfl
    | some timestamps =>
      simp only [Option.bind_some]
      by_cases hc : (a.done.isEmpty || epollFd.isSome) = true
      · rw [if_pos hc, if_pos hc, Option.map_some]
        have hremove := foldl_remove_inSession (X := X) timestamps { a.handler.registry with
          backlogAck := a.handler.registry.backlogAck.retain slaveId (· ∉ a.acked) }
        exact congrArg (fun r => some ({ a.handler.inSession X with registry := r }, Except.ok none)) hremove
      · rw [if_neg hc, if_neg hc]
        rfl

theorem cmdBlpop_inSession (data : Data) (r : RequestRegistry) (key : String) (timeoutMs : Option Nat) (id now : Nat) :
    cmdBlpop data (r.inSession X) key timeoutMs id now =
      (((cmdBlpop data r key timeoutMs id now).1.1, (cmdBlpop data r key timeoutMs id now).1.2.inSession X),
        (cmdBlpop data r key timeoutMs id now).2) := by
  have hempty : (r.inSession X).isBacklogListEmpty key = r.isBacklogListEmpty key := rfl
  unfold cmdBlpop
  simp only [hempty, insert_inSession]
  cases data.lookup key with
  | none => rfl
  | some item =>
    obtain ⟨value, _⟩ := item
    cases value with
    | list items => cases items <;> cases r.isBacklogListEmpty key <;> rfl
    | _ => rfl

theorem cmdXread_inSession (data : Data) (r : RequestRegistry) (count block : Option Nat)
    (stream : List (String × Nat × Nat)) (id now : Nat) :
    cmdXread data (r.inSession X) count block stream id now =
      ((cmdXread data r count block stream id now).1.inSession X, (cmdXread data r count block stream id now).2) := by
  unfold cmdXread
  simp only [insert_inSession]
  split
  · rfl
  · split
    · rfl
    · cases block <;> rfl

theorem cmdWait_inSession (h : CmdHandler) (count : Nat) (timeoutMs : Option Nat) (id now : Nat)
    (epollFd : Option Int) :
    cmdWait o (h.inSession X) count timeoutMs id now epollFd =
      (cmdWait o h count timeoutMs id now epollFd).map (Prod.map (inSession X) fun r => r) := by
  have hstats : (h.inSession X).appStates = h.appStates := rfl
  unfold cmdWait
  rw [hstats]
  by_cases hc : count = 0
  · rw [if_pos hc, if_pos hc]
    rfl
  · rw [if_neg hc, if_neg hc]
    cases h.appStates.hostStats with
    | none => rfl
    | some stats =>
      simp only
      by_cases hz : stats.offset = 0
      · rw [if_pos hz, if_pos hz]
        rfl
      · rw [if_neg hz, if_neg hz]
        by_cases hfd : epollFd.isSome = true
        · rw [if_pos hfd, if_pos hfd, pushAll_inSession]
          have hins := insert_inSession (X := X) h.registry (getDeadline timeoutMs now).1
            (getDeadline timeoutMs now).2 id
            (.wait count 0 stats.offset (o.order h.clientTable.listSlave) epollFd)
          exact congrArg (fun r => some ({ (h.pushAll (o.order h.clientTable.listSlave) getAck.frame).inSession X with
            registry := r }, Except.ok none)) hins
        · rw [if_neg hfd, if_neg hfd]
          rfl

theorem cmdReplconf_inSession (h : CmdHandler) (arg : CmdArg) (clientId : Nat) (epollFd : Option Int) :
    cmdReplconf (h.inSession X) arg clientId epollFd =
      (cmdReplconf h arg clientId epollFd).map (Prod.map (inSession X) id) := by
  cases arg with
  | ack offset => exact cmdAck_inSession h clientId offset epollFd
  | getAck s =>
    have hstats : (h.inSession X).appStates = h.appStates := rfl
    unfold cmdReplconf
    simp only [hstats]
    by_cases hs : s = "*"
    · rw [if_pos hs, if_pos hs]
      cases h.appStates.hostStats <;> rfl
    · rw [if_neg hs, if_neg hs]
      rfl
  | _ => rfl

theorem cmdPsync_inSession (h : CmdHandler) (id : String) (offset : Int) (clientId : Nat) :
    cmdPsync (h.inSession X) id offset clientId =
      ((cmdPsync h id offset clientId).1.inSession X, (cmdPsync h id offset clientId).2) := by
  have hstats : (h.inSession X).appStates = h.appStates := rfl
  unfold cmdPsync
  rw [hstats]
  split
  · cases h.appStates.hostStats <;> rfl
  · rfl

/-- Other commands do not look at the sessions. -/
theorem dispatch_inSession {exec exec' : CmdHandler → Nat → Option (CmdHandler × CmdResult)}
    {h : CmdHandler} {now : Nat}
    {isSubscriber : Bool} {epollFd : Option Int} {cmd : Cmd} (hc : cmd.ofSession = false) :
    dispatch P o exec (h.inSession X) now isSubscriber clientId epollFd cmd =
      (dispatch P o exec' h now isSubscriber clientId epollFd cmd).map (Prod.map (inSession X) id) := by
  cases cmd <;> simp only [dispatch]
  case multi | exec | discard | watch | unwatch | subscribe | unsubscribe | publish => cases hc
  case blpop key timeoutMs =>
    have hsame := cmdBlpop_inSession (X := X) h.data h.registry key timeoutMs clientId now
    exact congrArg (fun x => some ({ h.inSession X with data := x.1.1, registry := x.1.2 }, x.2)) hsame
  case xread count block stream =>
    have hsame := cmdXread_inSession (X := X) h.data h.registry count block stream clientId now
    exact congrArg (fun x => some ((h.inSession X).withRegistry x)) hsame
  case wait => exact cmdWait_inSession ..
  case replconf arg => exact cmdReplconf_inSession ..
  case psync id offset => exact congrArg some (cmdPsync_inSession ..)
  case set | xrange | zadd | zrank | zrange | zcard | zscore | zrem | geoadd | geopos | geodist =>
    rw [Option.map_map]
    rfl
  all_goals rfl

theorem propagate_inSession (h : CmdHandler) (cmd : Cmd) (buf : Bytes) :
    (h.inSession X).propagate o cmd buf = (h.propagate o cmd buf).inSession X := by
  unfold propagate
  split
  · exact pushAll_inSession { h with aof := h.aof.map fun aof => Aof.write aof buf } _ _
  · rfl

theorem countFromMaster_inSession (h : CmdHandler) (buf : Bytes) (isMaster : Bool) :
    (h.inSession X).countFromMaster buf isMaster = (h.countFromMaster buf isMaster).inSession X := by
  cases isMaster <;> rfl

theorem conclude_inSession (h : CmdHandler) (cmd : Cmd) (buf : Bytes) (isMaster serialized : Bool) (r : CmdResult) :
    (h.inSession X).conclude o cmd buf isMaster serialized r =
      (h.conclude o cmd buf isMaster serialized r).map (Prod.map (inSession X) id) := by
  cases r with
  | error e =>
    simp only [conclude, countFromMaster_inSession]
    rfl
  | ok resp =>
    cases resp with
    | none => rfl
    | some resp =>
      have hfinish : (propagate o { h.inSession X with
            flagBacklogList := cmd.isFlagList
            flagBacklogStream := cmd.isFlagStream } cmd buf).countFromMaster buf isMaster =
          ((propagate o { h with flagBacklogList := cmd.isFlagList, flagBacklogStream := cmd.isFlagStream } cmd
            buf).countFromMaster buf isMaster).inSession X := by
        rw [← countFromMaster_inSession, ← propagate_inSession]
        rfl
      unfold conclude
      simp only [hfinish]
      split
      · split
        · cases resp.serialize <;> rfl
        · rfl
      · rfl

/-! ## The backlogs and the timer -/

theorem backlogTask_inSession (h : CmdHandler) (entry : RequestEntry) :
    (h.inSession X).backlogTask entry = (h.backlogTask entry).inSession X := by
  have hdata : (h.inSession X).data = h.data := rfl
  have hanswered : ∀ (g : CmdHandler) t, { (g.inSession X).answer entry t with
      registry := (((g.inSession X).answer entry t).registry.remove entry.timestamp).1 } =
        { g.answer entry t with registry := ((g.answer entry t).registry.remove entry.timestamp).1 }.inSession X := by
    intro g t
    rw [answer_inSession]
    have hremove := congrArg Prod.fst (remove_inSession (X := X) (g.answer entry t).registry entry.timestamp)
    exact congrArg (fun r => { (g.answer entry t).inSession X with registry := r }) hremove
  unfold backlogTask
  rw [hdata]
  cases entry.kind with
  | list key =>
    simp only
    split
    · exact hanswered { h with data := setList h.data key _ } _
    · rfl
  | stream keyTs count =>
    simp only
    cases readStreams h.data count keyTs with
    | none => exact answer_inSession h entry .nullArray
    | some resp => exact hanswered h resp
  | wait => rfl

theorem takeOut_inSession (served : RequestKind → Bool) (r : RequestRegistry) (ts : List Nat) :
    takeOut served (r.inSession X) ts = ((takeOut served r ts).1.inSession X, (takeOut served r ts).2) := by
  induction ts generalizing r with
  | nil => rfl
  | cons t ts ih =>
    unfold takeOut
    simp only [remove_inSession, ih]

theorem serve_inSession (served : RequestKind → Bool) (h : CmdHandler) (ts : List Nat) :
    (h.inSession X).serve served ts = (h.serve served ts).inSession X := by
  have htasks : ∀ (entries : List RequestEntry) (g : CmdHandler),
      entries.foldl backlogTask (g.inSession X) = (entries.foldl backlogTask g).inSession X := by
    intro entries
    induction entries with
    | nil => exact fun _ => rfl
    | cons entry entries ih =>
      intro g
      rw [List.foldl_cons, List.foldl_cons, backlogTask_inSession, ih]
  have htaken : takeOut served (h.inSession X).registry ts =
      ((takeOut served h.registry ts).1.inSession X, (takeOut served h.registry ts).2) := takeOut_inSession ..
  unfold serve
  rw [htaken]
  exact htasks _ { h with registry := (takeOut served h.registry ts).1 }

theorem serveBacklogList_inSession (h : CmdHandler) :
    (h.inSession X).serveBacklogList o = (h.serveBacklogList o).inSession X := by
  have hts : (h.inSession X).listTimestamps o = h.listTimestamps o := rfl
  have hflag : (h.inSession X).flagBacklogList = h.flagBacklogList := rfl
  unfold serveBacklogList
  rw [hts, hflag, serve_inSession]
  split <;> rfl

theorem serveBacklogStream_inSession (h : CmdHandler) :
    (h.inSession X).serveBacklogStream o = (h.serveBacklogStream o).inSession X := by
  have hts : (h.inSession X).streamTimestamps o = h.streamTimestamps o := rfl
  have hflag : (h.inSession X).flagBacklogStream = h.flagBacklogStream := rfl
  unfold serveBacklogStream
  rw [hts, hflag, serve_inSession]
  split <;> rfl

theorem deadlineTask_inSession (h : CmdHandler) (entry : RequestEntry) :
    (h.inSession X).deadlineTask entry = (h.deadlineTask entry).map (inSession X) := by
  have hanswered : ∀ t, { (h.inSession X).answer entry t with
      registry := (((h.inSession X).answer entry t).registry.remove entry.timestamp).1 } =
        { h.answer entry t with registry := ((h.answer entry t).registry.remove entry.timestamp).1 }.inSession X := by
    intro t
    rw [answer_inSession]
    have hremove := congrArg Prod.fst (remove_inSession (X := X) (h.answer entry t).registry entry.timestamp)
    exact congrArg (fun r => { (h.answer entry t).inSession X with registry := r }) hremove
  unfold deadlineTask
  cases entry.kind with
  | list | stream => exact congrArg some (hanswered _)
  | wait _ actualCount _ _ epollFd =>
    cases epollFd with
    | none => rfl
    | some _ => exact congrArg some (hanswered _)

theorem callbackDeadlineExpire_inSession (h : CmdHandler) :
    (h.inSession X).callbackDeadlineExpire = h.callbackDeadlineExpire.map (inSession X) := by
  have hnearest : (h.inSession X).registry.getNearestDeadline = h.registry.getNearestDeadline := rfl
  unfold callbackDeadlineExpire
  rw [hnearest]
  cases h.registry.getNearestDeadline with
  | none => rfl
  | some d =>
    obtain ⟨_, timestamp⟩ := d
    have hremove : (h.inSession X).registry.remove timestamp =
        ((h.registry.remove timestamp).1.inSession X, (h.registry.remove timestamp).2) := remove_inSession ..
    simp only [hremove]
    cases hr : h.registry.remove timestamp with
    | mk registry entry =>
      cases entry with
      | none => rfl
      | some entry => exact deadlineTask_inSession { h with registry } entry

end

end CmdHandler

end Redis
