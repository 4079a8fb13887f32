import Redis.AnswerSound
import Redis.TxnSound

/-!
# EXEC and its commands on their own

A client that discards its transaction and then sends the commands of the queue
one after the other leaves the handler that EXEC would have left, and is
answered what EXEC would have put into its array. Only MULTI, and what comes
after a SUBSCRIBE, means something else outside a transaction.
-/

namespace Redis

open Lib RequestRegistry

/-- What a transaction can hold and means the same outside of one. -/
def Cmd.ordinary : Cmd → Bool
  | .multi | .subscribe _ => false
  | cmd => cmd.queueable

namespace CmdHandler

section
variable {P : Platform} {o : IterOrder} {clientId : Nat} {h h' g : CmdHandler}

/-! ## The session of the client -/

def closedSessions (h : CmdHandler) (clientId : Nat) : SessionState where
  backlogTxn := h.registry.backlogTxn.erase clientId
  watchlist := h.registry.watchlist.mapValues fun _ clients => clients.erase clientId
  subscribers := h.subscribers
  channels := h.channels

theorem closeTxn_inSession (h : CmdHandler) : h.closeTxn clientId = h.inSession (h.closedSessions clientId) := rfl

theorem inSession_sessions_closeTxn (h g : CmdHandler) :
    (g.inSession h.sessions).closeTxn clientId = g.inSession (h.closedSessions clientId) := rfl

theorem map_closeTxn {α : Type} {f : CmdHandler → Option (CmdHandler × α)}
    (hf : ∀ X, f (h.inSession X) = (f h).map (Prod.map (inSession X) id)) :
    f (h.closeTxn clientId) = (f h).map (Prod.map (closeTxn · clientId) id) := by
  have hself : f h = (f h).map (Prod.map (inSession h.sessions) id) := hf h.sessions
  calc f (h.closeTxn clientId) = (f h).map (Prod.map (inSession (h.closedSessions clientId)) id) :=
        hf (h.closedSessions clientId)
    _ = ((f h).map (Prod.map (inSession h.sessions) id)).map (Prod.map (closeTxn · clientId) id) := by
      rw [Option.map_map]
      apply Option.map_congr
      intro x _
      exact Prod.ext (inSession_sessions_closeTxn h x.1).symm rfl
    _ = (f h).map (Prod.map (closeTxn · clientId) id) := by rw [← hself]

theorem unwatchAll_setDirty (r : RequestRegistry) (cmd : Cmd) :
    (r.unwatchAll clientId).setDirty cmd = (r.setDirty cmd).unwatchAll clientId := by
  unfold RequestRegistry.setDirty RequestRegistry.unwatchAll
  cases cmd.dirtyKey with
  | none => rfl
  | some key =>
    simp only [HashMap.modify, HashMap.mapValues_mapValues]
    congr 1
    apply congrArg (HashMap.mapValues · r.watchlist)
    funext k clients
    by_cases hk : k = key
    · rw [if_pos hk, if_pos hk, HashMap.erase_mapValues]
    · rw [if_neg hk, if_neg hk]

/-! ## One command -/

theorem Cmd.queueable_of_ordinary {cmd : Cmd} (ho : cmd.ordinary = true) : cmd.queueable = true := by
  cases cmd <;> first | rfl | cases ho

theorem dispatch_exec {exec : CmdHandler → Nat → Option (CmdHandler × CmdResult)}
    (exec' : CmdHandler → Nat → Option (CmdHandler × CmdResult)) {cmd : Cmd} {now : Nat} {isSubscriber : Bool}
    {epollFd : Option Int} (hq : cmd.queueable = true) :
    dispatch P o exec h now isSubscriber clientId epollFd cmd =
      dispatch P o exec' h now isSubscriber clientId epollFd cmd := by
  cases cmd <;> first | rfl | cases hq

/-- A command that means the same outside of a transaction does not look whether
one is open. -/
theorem dispatch_closeTxn {exec : CmdHandler → Nat → Option (CmdHandler × CmdResult)}
    (exec' : CmdHandler → Nat → Option (CmdHandler × CmdResult)) {cmd : Cmd} {now : Nat} {isSubscriber : Bool}
    {epollFd : Option Int} (ho : cmd.ordinary = true) :
    dispatch P o exec (h.closeTxn clientId) now isSubscriber clientId epollFd cmd =
      (dispatch P o exec' h now isSubscriber clientId epollFd cmd).map (Prod.map (closeTxn · clientId) id) := by
  rw [dispatch_exec exec' (Cmd.queueable_of_ordinary ho)]
  cases hc : cmd.ofSession with
  | false =>
    exact map_closeTxn (f := fun g => dispatch P o exec' g now isSubscriber clientId epollFd cmd)
      fun X => dispatch_inSession hc
  | true =>
    cases cmd <;> simp only [Cmd.ofSession, Bool.false_eq_true] at hc <;> simp only [dispatch]
    case multi | exec | discard | watch | subscribe => cases ho
    case unwatch => rfl
    case unsubscribe key =>
      have hsub : (h.closeTxn clientId).isSubscriber clientId = h.isSubscriber clientId := rfl
      unfold cmdUnsubscribe
      rw [hsub]
      split <;> rfl
    case publish key message =>
      have hchannels : (h.closeTxn clientId).channels = h.channels := rfl
      unfold cmdPublish
      rw [hchannels]
      cases h.channels.lookup key <;> rfl

theorem dispatch_epollFd {exec : CmdHandler → Nat → Option (CmdHandler × CmdResult)} {cmd : Cmd} {now : Nat}
    {isSubscriber : Bool} {x : CmdHandler × CmdResult} (fd : Int)
    (hd : dispatch P o exec h now isSubscriber clientId none cmd = some x) :
    dispatch P o exec h now isSubscriber clientId (some fd) cmd = some x := by
  cases cmd with
  | replconf arg =>
    cases arg with
    | ack offset =>
      simp only [dispatch, cmdReplconf, cmdAck, Option.bind_eq_bind, Option.bind_eq_some_iff] at hd ⊢
      obtain ⟨a, ha, ts, hts, hlast⟩ := hd
      refine ⟨a, ha, ts, hts, ?_⟩
      split at hlast
      · rename_i hdone
        rw [if_pos (by simp)]
        exact hlast
      · cases hlast
    | _ => exact hd
  | wait count timeoutMs =>
    simp only [dispatch, cmdWait] at hd ⊢
    by_cases hzero : count = 0
    · rw [if_pos hzero] at hd ⊢
      exact hd
    · rw [if_neg hzero] at hd ⊢
      cases hstats : h.appStates.hostStats with
      | none =>
        simp only [hstats] at hd ⊢
        exact hd
      | some stats =>
        simp only [hstats] at hd ⊢
        by_cases hoffset : stats.offset = 0
        · rw [if_pos hoffset] at hd ⊢
          exact hd
        · rw [if_neg hoffset] at hd
          cases hd
  | _ => exact hd

theorem prepare_closeTxn {cmd : Cmd} {buf : Bytes} {isMaster : Bool} :
    (h.closeTxn clientId).prepare cmd buf isMaster = (h.prepare cmd buf isMaster).map (closeTxn · clientId) := by
  have hdirty : (h.closeTxn clientId).registry.setDirty cmd =
      ((h.registry.setDirty cmd).unwatchAll clientId).dropTxn clientId := by
    rw [← unwatchAll_setDirty]
    rfl
  unfold prepare countWrite
  rw [hdirty]
  split
  · have hstats : (h.closeTxn clientId).appStates = h.appStates := rfl
    simp only [hstats]
    cases h.appStates.hostStats <;> rfl
  · rfl

/-- A value, as it is sent on its own. -/
def Sent (output : Except CmdOutput CmdOutput) (bytes : Bytes) : Prop :=
  ((outputOf output).extractResp = none ∧ bytes = []) ∨
    ∃ t, (outputOf output).extractResp = some t ∧ t.serialize = some bytes ∧ bytes ≠ []

/-- What a command of a transaction answers is what it is answered on its own. -/
theorem conclude_sent {d : CmdHandler} {cmd : Cmd} {buf : Bytes} {isMaster : Bool} {r : CmdResult}
    {out : Except CmdOutput CmdOutput} (hvalue : ∀ t, r = .ok (some t) → ∃ b, t.serialize = some b ∧ b ≠ [])
    (hc : d.conclude o cmd buf isMaster false r = some (h', out)) :
    ∃ out', d.conclude o cmd buf isMaster true r = some (h', out') ∧
      Sent out ((outputOf out').extractBytes.getD []) := by
  cases r with
  | error e =>
    cases hc
    obtain ⟨b, hb⟩ := e.serialize_intoResp
    refine ⟨_, rfl, .inr ⟨e.intoResp, rfl, ?_, intoErrorBytes_ne_nil e⟩⟩
    simp [outputOf, CmdOutput.extractBytes, CustomError.intoErrorBytes, hb]
  | ok r =>
    cases r with
    | none =>
      cases hc
      exact ⟨_, rfl, .inl ⟨rfl, rfl⟩⟩
    | some t =>
      obtain ⟨b, hb, hne⟩ := hvalue t rfl
      simp only [conclude, hb] at hc ⊢
      split at hc
      · rename_i hsends
        cases hc
        rw [if_pos hsends]
        exact ⟨_, rfl, .inr ⟨t, rfl, hb, hne⟩⟩
      · rename_i hsends
        cases hc
        rw [if_neg hsends]
        exact ⟨_, rfl, .inl ⟨rfl, rfl⟩⟩

theorem dispatch_value {exec : CmdHandler → Nat → Option (CmdHandler × CmdResult)} {cmd : Cmd} {now : Nat}
    {isSubscriber : Bool} {epollFd : Option Int} {t : RespType} (ho : cmd.ordinary = true)
    (hd : dispatch P o exec h now isSubscriber clientId epollFd cmd = some (h', .ok (some t))) :
    ∃ b, t.serialize = some b ∧ b ≠ [] := by
  rw [dispatch_exec (fun _ _ => none) (Cmd.queueable_of_ordinary ho)] at hd
  have hr : Replies P h clientId cmd (.ok (some t)) := dispatch_replies (fun _ _ hg => by cases hg) hd
  cases hr with
  | frame ht =>
    obtain ⟨b, hb, hf⟩ := ht.serialize
    exact ⟨b, hb, hf.ne_nil⟩
  | short => exact ⟨_, rfl, by simp [delimiter]⟩
  | stream hs hb =>
    cases cmd with
    | subscribe => cases ho
    | psync id offset =>
      refine ⟨_, rfl, fun hnil => ?_⟩
      have hsilent := hb.mp hnil
      simp only [dispatch, cmdPsync, if_neg hsilent] at hd
      cases hd
    | _ => exact hs.elim

/-- A command that runs inside a transaction runs the same after the transaction
was discarded. -/
theorem executeQueued_closeTxn {q : Queued} {out : Except CmdOutput CmdOutput} (fd : Int)
    (ho : q.cmd.ordinary = true) (hallowed : h.isSubscriber clientId = false)
    (he : h.executeQueued P o clientId q = some (h', out)) :
    ∃ out', (h.closeTxn clientId).execute P o q.cmd q.buf clientId fd = some (h'.closeTxn clientId, out') ∧
      Sent out ((outputOf out').extractBytes.getD []) := by
  have hno : h.refuses clientId q.cmd = false := by
    rw [refuses, hallowed]
    rfl
  have hno' : (h.closeTxn clientId).refuses clientId q.cmd = false := hno
  unfold executeQueued executeCmd at he
  rw [if_neg (by rw [hno]; exact Bool.false_ne_true)] at he
  simp only [Option.bind_eq_bind, Option.bind_eq_some_iff] at he
  obtain ⟨prepared, hp, ⟨d, r⟩, hd, hc⟩ := he
  have hd' := dispatch_epollFd fd hd
  have hvalue : ∀ t, r = .ok (some t) → ∃ b, t.serialize = some b ∧ b ≠ [] := by
    intro t ht
    rw [ht] at hd'
    exact dispatch_value ho hd'
  obtain ⟨out', hc', hsent⟩ := conclude_sent hvalue hc
  refine ⟨out', ?_, hsent⟩
  unfold execute executeCmd
  rw [if_neg (by rw [hno']; exact Bool.false_ne_true)]
  simp only [prepare_closeTxn]
  have hmaster : (h.closeTxn clientId).clientTable.isMaster clientId = h.clientTable.isMaster clientId := rfl
  have hsub : (h.closeTxn clientId).isSubscriber clientId = h.isSubscriber clientId := rfl
  have hnow : (h.closeTxn clientId).registry.timer.now = h.registry.timer.now := rfl
  rw [hmaster, hsub, hnow, hp]
  simp only [Option.map_some, Option.bind_eq_bind, Option.bind_some]
  rw [dispatch_closeTxn (fun _ _ => none) ho, hd']
  simp only [Option.map_some, Option.bind_some, Prod.map_apply, id]
  rw [map_closeTxn (f := fun g => g.conclude o q.cmd q.buf (h.clientTable.isMaster clientId) true r)
    fun X => conclude_inSession .., hc']
  rfl

/-- Only SUBSCRIBE makes a subscriber of the client. -/
theorem dispatch_unsubscribed {exec : CmdHandler → Nat → Option (CmdHandler × CmdResult)} {cmd : Cmd} {now : Nat}
    {isSubscriber : Bool} {epollFd : Option Int} {r : CmdResult} (ho : cmd.ordinary = true)
    (hallowed : h.isSubscriber clientId = false)
    (hd : dispatch P o exec h now isSubscriber clientId epollFd cmd = some (h', r)) :
    h'.isSubscriber clientId = false := by
  cases hc : cmd.ofSession with
  | false =>
    have hself : dispatch P o exec h now isSubscriber clientId epollFd cmd =
        (dispatch P o exec h now isSubscriber clientId epollFd cmd).map (Prod.map (inSession h.sessions) id) :=
      dispatch_inSession (X := h.sessions) hc
    rw [hd] at hself
    have hsame : h' = h'.inSession h.sessions := congrArg Prod.fst (Option.some.inj hself)
    rw [hsame]
    exact hallowed
  | true =>
    cases cmd <;> simp only [Cmd.ofSession, Bool.false_eq_true] at hc <;> simp only [dispatch, Option.some.injEq] at hd
    case multi | exec | discard | watch | subscribe => cases ho
    case unwatch =>
      cases hd
      exact hallowed
    case unsubscribe key =>
      unfold cmdUnsubscribe at hd
      rw [if_neg (by rw [hallowed]; exact Bool.false_ne_true)] at hd
      cases hd
      exact hallowed
    case publish key message =>
      unfold cmdPublish at hd
      split at hd <;> cases hd <;> exact hallowed

theorem executeQueued_unsubscribed {q : Queued} {out : Except CmdOutput CmdOutput} (ho : q.cmd.ordinary = true)
    (hallowed : h.isSubscriber clientId = false) (he : h.executeQueued P o clientId q = some (h', out)) :
    h'.isSubscriber clientId = false := by
  rcases executeCmd_cases he with ⟨rfl, _, _⟩ | ⟨_, prepared, d, r, hp, hd, hc⟩
  · exact hallowed
  · have hprepared : prepared.isSubscriber clientId = false := by
      obtain ⟨_, _, rfl⟩ := prepare_frame hp
      exact hallowed
    have hd' := dispatch_unsubscribed ho hprepared hd
    obtain ⟨_, _, _, _, _, _, rfl⟩ := conclude_frame hc
    exact hd'

/-! ## The queue -/

def asSent (o : IterOrder) (queue : List Queued) : List Piped := queue.map fun q => ⟨o, q.cmd, q.buf⟩

def arrayBytes (replies : List Bytes) : Bytes := utf8 "*" ++ utf8 (toString replies.length) ++ delimiter ++
    replies.flatten

theorem pipeline_cons {fd : Int} {q : Queued} {queue : List Queued} {out : Except CmdOutput CmdOutput}
    {replies : List Bytes} (hclosed : h.registry.isTransaction clientId = false)
    (he : h.execute P o q.cmd q.buf clientId fd = some (h', out))
    (hrest : pipeline P clientId fd h' (asSent o queue) = some (g, replies)) :
    pipeline P clientId fd h (asSent o (q :: queue)) =
      some (g, (outputOf out).extractBytes.getD [] :: replies) := by
  have hhandle : ∃ b, h.handle P o (.ok q.cmd) q.buf clientId fd = some (h', b) ∧
      returned b = (outputOf out).extractBytes.getD [] := by
    unfold handle
    simp only [hclosed, Bool.not_false, if_true, he, Option.map_some]
    cases out <;> exact ⟨_, rfl, rfl⟩
  obtain ⟨b, hb, hreturned⟩ := hhandle
  unfold asSent at hrest ⊢
  rw [List.map_cons, pipeline]
  simp only [hb, hrest, Option.bind_eq_bind, Option.bind_some, hreturned]

theorem serializeAll_cons {t : RespType} {ts : List RespType} {b bs : Bytes} (hb : t.serialize = some b)
    (hbs : RespType.serializeAll ts = some bs) : RespType.serializeAll (t :: ts) = some (b ++ bs) := by
  rw [RespType.serializeAll, hb, hbs]
  rfl

/-- The queue inside the transaction, and its commands sent after the
transaction was discarded. -/
theorem runQueue_pipeline {queue : List Queued} {resps : List RespType} (fd : Int)
    (hordinary : ∀ q ∈ queue, q.cmd.ordinary = true) (hallowed : h.isSubscriber clientId = false)
    (hr : runQueue P o clientId h queue = some (g, resps)) :
    ∃ replies, pipeline P clientId fd (h.closeTxn clientId) (asSent o queue) = some (g.closeTxn clientId, replies) ∧
      RespType.serializeAll resps = some (replies.filter (· ≠ [])).flatten ∧
      resps.length = (replies.filter (· ≠ [])).length := by
  induction queue generalizing h resps with
  | nil =>
    cases hr
    exact ⟨[], rfl, rfl, rfl⟩
  | cons q queue ih =>
    simp only [runQueue, Option.bind_eq_bind, Option.bind_eq_some_iff] at hr
    obtain ⟨⟨h₁, out⟩, he, ⟨g', rest⟩, hqs, hlast⟩ := hr
    cases hlast
    have ho := hordinary q (List.mem_cons_self ..)
    obtain ⟨out', he', hsent⟩ := executeQueued_closeTxn fd ho hallowed he
    obtain ⟨replies, hp, hser, hlen⟩ := ih (fun q' hq' => hordinary q' (List.mem_cons_of_mem _ hq'))
      (executeQueued_unsubscribed ho hallowed he) hqs
    have hclosed : (h.closeTxn clientId).registry.isTransaction clientId = false := by
      unfold isTransaction
      exact decide_eq_false (AList.lookup_eq_none.mp (closeTxn_self h))
    refine ⟨_, pipeline_cons hclosed he' hp, ?_⟩
    rcases hsent with ⟨hnone, hnil⟩ | ⟨t, hsome, hb, hne⟩
    · rw [hnone, hnil, List.filter_cons_of_neg (by simp)]
      exact ⟨hser, hlen⟩
    · rw [hsome, List.filter_cons_of_pos (by simpa using hne)]
      exact ⟨serializeAll_cons hb hser, by simp [hlen]⟩

theorem drainTxn_closeTxn (h : CmdHandler) : (h.drainTxn clientId).closeTxn clientId = h.closeTxn clientId := by
  have herase : (h.drainTxn clientId).registry.backlogTxn.erase clientId = h.registry.backlogTxn.erase clientId :=
    HashMap.erase_modify_self clientId (fun _ => []) h.registry.backlogTxn
  rw [closeTxn_inSession, closeTxn_inSession]
  unfold closedSessions
  rw [herase]
  rfl

theorem handle_discard {buf : Bytes} {fd : Int} (hopen : h.registry.isTransaction clientId = true) :
    h.handle P o (.ok .discard) buf clientId fd =
      some (h.closeTxn clientId, .ok (RespType.simpleStr (some "OK")).frame) := by
  unfold handle
  simp only [hopen]
  simp [Cmd.queueable, cmdDiscard, hopen, withRegistry, responseOk, reply, orEmpty, RespType.frame, RespType.serialize]
  rfl

theorem serialize_execReply {resps : List RespType} {frames : List Bytes}
    (hser : RespType.serializeAll resps = some frames.flatten) (hlen : resps.length = frames.length) :
    (if resps.isEmpty then RespType.emptyArray else .arrayOf resps).serialize = some (arrayBytes frames) := by
  cases resps with
  | nil =>
    obtain rfl : frames = [] := List.length_eq_zero_iff.mp hlen.symm
    rfl
  | cons t ts =>
    rw [if_neg (by simp), RespType.arrayOf, if_neg (by simp), RespType.serialize, hser, hlen]
    rfl

/-- EXEC does what DISCARD and then the commands of the queue would have done, and
its array holds what they would have been answered. -/
theorem exec_sequential {queue : List Queued} {buf buf' : Bytes} {fd fd' : Int} {out : Except Bytes Bytes}
    (hqueue : h.registry.backlogTxn.lookup clientId = some queue) (hclean : h.registry.isAnyDirty clientId = false)
    (hallowed : h.isSubscriber clientId = false) (hordinary : ∀ q ∈ queue, q.cmd.ordinary = true)
    (hexec : h.handle P o (.ok .exec) buf clientId fd = some (h', out)) :
    ∃ d ok replies, h.handle P o (.ok .discard) buf' clientId fd' = some (d, ok) ∧
      pipeline P clientId fd' d (asSent o queue) = some (h', replies) ∧
      out = .ok (arrayBytes (replies.filter (· ≠ []))) := by
  have hopen : h.registry.isTransaction clientId = true := isTransaction_iff.mpr ⟨queue, hqueue⟩
  rw [handle_exec_open hopen, cmdExec, hqueue] at hexec
  simp only [hclean, Bool.false_eq_true, if_false, Option.bind_eq_bind, Option.bind_eq_some_iff] at hexec
  obtain ⟨⟨_, _⟩, ⟨⟨g, resps⟩, hrun, hlast⟩, hout⟩ := hexec
  cases hlast
  have hdrained : (h.drainTxn clientId).isSubscriber clientId = false := hallowed
  obtain ⟨replies, hp, hser, hlen⟩ := runQueue_pipeline fd' hordinary hdrained hrun
  rw [drainTxn_closeTxn] at hp
  unfold orEmpty reply at hout
  simp only [serialize_execReply hser hlen, Option.map_some] at hout
  cases hout
  exact ⟨_, _, replies, handle_discard hopen, hp, rfl⟩

end

/-! ### A concrete transaction -/

def opened : CmdHandler := play startup [ask 1 .multi, ask 1 (.incr "k"), ask 1 (.get "k")]

def openedQueue : List Queued := [⟨.incr "k", [42], rfl⟩, ⟨.get "k", [42], rfl⟩]

theorem exec_sequential_incr : ∃ h' d ok replies,
    opened.handle .blank .asIs (.ok .discard) [42] 1 0 = some (d, ok) ∧
      pipeline .blank 1 0 d (asSent .asIs openedQueue) = some (h', replies) ∧
      opened.handle .blank .asIs (.ok .exec) [42] 1 0 =
        some (h', .ok (arrayBytes (replies.filter (· ≠ [])))) := by
  have hruns : (opened.handle .blank .asIs (.ok .exec) [42] 1 0).isSome = true := by decide +kernel
  obtain ⟨⟨h', out⟩, hexec⟩ := Option.isSome_iff_exists.mp hruns
  have hqueue : opened.registry.backlogTxn.lookup 1 = some openedQueue := rfl
  obtain ⟨d, ok, replies, hd, hp, hout⟩ := @exec_sequential .blank .asIs 1 opened h' openedQueue [42] [42] 0 0 out
    hqueue rfl rfl (by decide) hexec
  exact ⟨h', d, ok, replies, hd, hp, by rw [hexec, hout]⟩

end CmdHandler

end Redis
