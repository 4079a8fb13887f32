import Redis.SessionFrame

/-!
# Other transactions

A command that a transaction can hold looks at the transactions only to see
whether the one of its client is open. So it runs the same with the transactions
replaced, and so EXEC may as well have left its queue where it was.
-/

namespace Redis

open Lib RequestRegistry

namespace CmdHandler

def withTxns (t : HashMap Nat (List Queued)) (h : CmdHandler) : CmdHandler := h.withSession t h.registry.watchlist

section
variable {P : Platform} {o : IterOrder} {clientId : Nat} {t : HashMap Nat (List Queued)}

theorem map_withTxns {α : Type} {f : CmdHandler → Option (CmdHandler × α)} {h : CmdHandler}
    (hf : ∀ X, f (h.inSession X) = (f h).map (Prod.map (inSession X) id)) :
    f (h.withTxns t) = (f h).map (Prod.map (withTxns t) id) := by
  have hself : f h = (f h).map (Prod.map (inSession h.sessions) id) := hf h.sessions
  calc f (h.withTxns t) = (f h).map (Prod.map (inSession { h.sessions with backlogTxn := t }) id) :=
        hf { h.sessions with backlogTxn := t }
    _ = ((f h).map (Prod.map (inSession h.sessions) id)).map (Prod.map (withTxns t) id) := by
      rw [Option.map_map]
      rfl
    _ = (f h).map (Prod.map (withTxns t) id) := by rw [← hself]

/-- A command of an open transaction does not look at the transactions. -/
theorem dispatch_withTxns {exec : CmdHandler → Nat → Option (CmdHandler × CmdResult)} {h : CmdHandler} {now : Nat}
    {isSubscriber : Bool} {epollFd : Option Int} {cmd : Cmd} (hopen : h.registry.isTransaction clientId = true)
    (ht : clientId ∈ t) (hq : cmd.queueable = true) :
    dispatch P o exec (h.withTxns t) now isSubscriber clientId epollFd cmd =
      (dispatch P o exec h now isSubscriber clientId epollFd cmd).map (Prod.map (withTxns t) id) := by
  cases hc : cmd.ofSession with
  | false =>
    exact map_withTxns (f := fun g => dispatch P o exec g now isSubscriber clientId epollFd cmd)
      fun X => dispatch_inSession hc
  | true =>
    cases cmd <;> simp only [Cmd.ofSession, Bool.false_eq_true] at hc <;> simp only [dispatch]
    case exec | discard | watch => cases hq
    case multi =>
      have hin : (h.withTxns t).registry.isTransaction clientId = true := decide_eq_true ht
      rw [cmdMulti, cmdMulti, if_pos hopen, if_pos hin]
      rfl
    case unwatch | subscribe => rfl
    case unsubscribe key =>
      have hsub : (h.withTxns t).isSubscriber clientId = h.isSubscriber clientId := rfl
      unfold cmdUnsubscribe
      rw [hsub]
      split <;> rfl
    case publish key message =>
      have hchannels : (h.withTxns t).channels = h.channels := rfl
      unfold cmdPublish
      rw [hchannels]
      cases h.channels.lookup key <;> rfl

theorem prepare_withTxns (h : CmdHandler) (cmd : Cmd) (buf : Bytes) (isMaster : Bool) :
    (h.withTxns t).prepare cmd buf isMaster = (h.prepare cmd buf isMaster).map (withTxns t) := by
  unfold prepare countWrite
  split
  · have hstats : (h.withTxns t).appStates = h.appStates := rfl
    simp only [hstats]
    cases h.appStates.hostStats <;> rfl
  · rfl

/-- A command that can be queued runs the same whatever the transactions, as long
as the one of its client is open; and whether EXEC could run or not. -/
theorem executeCmd_withTxns {exec exec' : CmdHandler → Nat → Option (CmdHandler × CmdResult)} {h : CmdHandler}
    {cmd : Cmd} {buf : Bytes} {epollFd : Option Int} {serialized : Bool}
    (hopen : h.registry.isTransaction clientId = true) (ht : clientId ∈ t) (hq : cmd.queueable = true) :
    (h.withTxns t).executeCmd P o exec cmd buf clientId epollFd serialized =
      (h.executeCmd P o exec' cmd buf clientId epollFd serialized).map (Prod.map (withTxns t) id) := by
  have hrefuses : (h.withTxns t).refuses clientId cmd = h.refuses clientId cmd := rfl
  have hexec : ∀ g now isSubscriber, dispatch P o exec g now isSubscriber clientId epollFd cmd =
      dispatch P o exec' g now isSubscriber clientId epollFd cmd := by
    intro g now isSubscriber
    cases cmd <;> first | rfl | cases hq
  unfold executeCmd
  rw [hrefuses]
  split
  · rfl
  · simp only [prepare_withTxns, hexec]
    cases hp : h.prepare cmd buf (h.clientTable.isMaster clientId) with
    | none =>
      have hnone : h.prepare cmd buf ((h.withTxns t).clientTable.isMaster clientId) = none := hp
      rw [hnone]
      rfl
    | some g =>
      have hsome : h.prepare cmd buf ((h.withTxns t).clientTable.isMaster clientId) = some g := hp
      obtain ⟨_, _, hg⟩ := prepare_frame hp
      have hstill : g.registry.isTransaction clientId = true := by
        rw [hg]
        exact hopen
      have hdispatch : dispatch P o exec' (g.withTxns t) h.registry.timer.now (h.isSubscriber clientId) clientId epollFd
          cmd = (dispatch P o exec' g h.registry.timer.now (h.isSubscriber clientId) clientId epollFd cmd).map
            (Prod.map (withTxns t) id) := dispatch_withTxns hstill ht hq
      rw [hsome]
      simp only [Option.map_some, Option.bind_eq_bind, Option.bind_some]
      refine (congrArg (Option.bind · _) hdispatch).trans ?_
      cases dispatch P o exec' g h.registry.timer.now (h.isSubscriber clientId) clientId epollFd cmd with
      | none => rfl
      | some x =>
        exact map_withTxns (f := fun g => g.conclude o cmd buf (h.clientTable.isMaster clientId) serialized x.2)
          fun X => conclude_inSession ..

end

end CmdHandler

end Redis
