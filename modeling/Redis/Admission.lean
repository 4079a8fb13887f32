import Redis.AuthSound
import Redis.Shipping
import Redis.TxnSound

/-!
# Clients that may send commands

A client is admitted if it has a credential, no transaction open and no
subscription. What other clients do leaves it admitted, whatever that is.
-/

namespace Redis

open Lib RequestRegistry

namespace CmdHandler

/-- A command of the client is executed at once. -/
structure Admitted (id : Nat) (h : CmdHandler) : Prop where
  auth : id ∈ h.auth.clients
  idle : h.registry.backlogTxn.lookup id = none
  allowed : id ∉ h.subscribers

section
variable {P : Platform} {o : IterOrder} {id clientId now : Nat} {epollFd : Option Int} {h h' : CmdHandler}

theorem cmdAuth_keeps {auth : Auth} {username password : String} (hin : id ∈ auth.clients) :
    id ∈ (cmdAuth P auth username password clientId).1.clients := by
  have hsame : (cmdAuth P auth username password clientId).1 =
      (auth.authenticate P clientId (some username) (some password)).1 := by
    unfold cmdAuth
    split <;> rename_i heq <;> rw [heq]
  rw [hsame]
  simp only [Auth.authenticate]
  split
  · split
    · exact (AList.mem_insert _).mpr (.inr hin)
    · exact hin
  · exact hin

theorem authAfter_keeps {auth : Auth} {cmd : Cmd} (hin : id ∈ auth.clients) :
    id ∈ (authAfter P o auth clientId cmd).clients := by
  cases cmd with
  | acl opt =>
    rw [authAfter, cmdAcl_clients]
    exact hin
  | auth username password => exact cmdAuth_keeps hin
  | _ => exact hin

theorem dispatch_subscribers {exec : CmdHandler → Nat → Option (CmdHandler × CmdResult)}
    {isSubscriber : Bool} {cmd : Cmd}
    {r : CmdResult} (hexec : NotNested exec h clientId) (hne : id ≠ clientId) (hno : id ∉ h.subscribers)
    (hd : dispatch P o exec h now isSubscriber clientId epollFd cmd = some (h', r)) : id ∉ h'.subscribers := by
  cases cmd <;> simp only [dispatch, Option.some.injEq] at hd
  case set | xrange | zadd | zrank | zrange | zcard | zscore | zrem | geoadd | geopos | geodist =>
    obtain ⟨_, _, heq⟩ := Option.map_eq_some_iff.mp hd
    cases heq
    exact hno
  case exec =>
    rw [hexec h' r hd]
    exact hno
  case replconf arg =>
    rcases cmdReplconf_cases hd with rfl | ⟨_, rfl, hack⟩
    · exact hno
    · obtain ⟨_, _, rfl, _⟩ := cmdAck_frame hack
      exact hno
  case wait =>
    rcases cmdWait_cases hd with rfl | ⟨_, _, rfl, _⟩ <;> exact hno
  case psync psyncId offset =>
    obtain rfl : (cmdPsync h psyncId offset clientId).1 = h' := congrArg Prod.fst hd
    rcases cmdPsync_cases h psyncId offset clientId with heq | heq <;> rw [heq] <;> exact hno
  case publish key message =>
    obtain rfl : (cmdPublish o h key message).1 = h' := congrArg Prod.fst hd
    obtain ⟨_, _, heq⟩ := cmdPublish_frame o h key message
    rw [heq]
    exact hno
  case subscribe keys =>
    obtain rfl : (cmdSubscribe h keys clientId).1 = h' := congrArg Prod.fst hd
    exact fun hin => (HashMap.mem_put.mp hin).elim hne hno
  case unsubscribe key =>
    obtain rfl : (cmdUnsubscribe h key clientId).1 = h' := congrArg Prod.fst hd
    unfold cmdUnsubscribe
    split
    · simp only
      split
      · exact fun hin => hno (AList.mem_erase.mp hin).2
      · exact hno
    · exact hno
  all_goals
    cases hd
    exact hno

theorem Call.Made.admits {c : Call} (hm : Call.Made P o c) (hin : id ∈ c.before.auth.clients) :
    id ∈ c.after.auth.clients := by
  obtain ⟨_, _, exec, s, d, fd, ser, out, _, _, hexec, hd, hc⟩ := hm
  have hauth := dispatch_auth hexec hd
  obtain ⟨_, _, _, _, _, _, hafter⟩ := conclude_frame hc
  rw [hafter]
  simp only [pushAll, hauth]
  exact authAfter_keeps hin

theorem Call.Made.allows {c : Call} (hm : Call.Made P o c) (hne : id ≠ c.clientId) (hno : id ∉ c.before.subscribers) :
    id ∉ c.after.subscribers := by
  obtain ⟨_, _, exec, s, d, fd, ser, out, _, _, hexec, hd, hc⟩ := hm
  have hsubscribers := dispatch_subscribers hexec hne hno hd
  obtain ⟨_, _, _, _, _, _, hafter⟩ := conclude_frame hc
  rw [hafter]
  exact hsubscribers

theorem calls_handle {label : IterOrder × Event} {c : Call} (hc : c ∈ h.calls P label) :
    ∃ cmd buf fd, label.2 = .handle cmd buf c.clientId fd := by
  obtain ⟨o, e⟩ := label
  cases e with
  | handle cmd buf id fd =>
    cases cmd with
    | ok cmd =>
      rw [calls_client hc]
      exact ⟨_, _, _, rfl⟩
    | error e => cases hc
  | _ => cases hc

theorem step_closed {label : IterOrder × Event} (hs : Steps P h label h')
    (hothers : ∀ cmd buf other fd, label.2 = .handle cmd buf other fd → other ≠ id)
    (hno : h.registry.backlogTxn.lookup id = none) : h'.registry.backlogTxn.lookup id = none := by
  obtain ⟨o, e⟩ := label
  by_cases hhandle : ∃ cmd buf other fd, e = .handle cmd buf other fd
  · obtain ⟨cmd, buf, other, fd, rfl⟩ := hhandle
    obtain ⟨⟨g, out⟩, hh, rfl⟩ := Option.map_eq_some_iff.mp hs
    rw [handle_txn_other (Ne.symm (hothers _ _ _ _ rfl)) hh]
    exact hno
  · have htakes := step_takes hs fun cmd buf other fd heq => hhandle ⟨cmd, buf, other, fd, heq⟩
    have hkeeps : ∀ {r r' : RequestRegistry}, Takes r r' → r.backlogTxn.lookup id = none →
        r'.backlogTxn.lookup id = none := by
      intro r r' ht hr
      refine ht.inv (I := fun r => r.backlogTxn.lookup id = none) (fun _ _ h => h) (fun r timestamp h => ?_) hr
      rw [(remove_session r timestamp).1]
      exact h
    rcases htakes with htakes | ⟨_, htakes⟩
    · exact hkeeps htakes hno
    · exact hkeeps htakes hno

theorem step_allowed {label : IterOrder × Event} (hs : Steps P h label h')
    (hothers : ∀ cmd buf other fd, label.2 = .handle cmd buf other fd → other ≠ id) (hno : id ∉ h.subscribers) :
    id ∉ h'.subscribers := by
  refine step_calls_only (I := fun g _ => id ∉ g.subscribers) hs (fun _ _ _ hg => hg) (fun _ _ _ hg => hg)
    (fun c cs hc hm hg => ?_) (fun hhandle hg => ?_) hno
  · obtain ⟨cmd, buf, fd, hlabel⟩ := calls_handle hc
    exact hm.allows (hothers _ _ _ _ hlabel).symm hg
  · obtain ⟨o, e⟩ := label
    by_cases hprocess : ∃ clientTable appStates auth, e = .process clientTable appStates auth
    · obtain ⟨clientTable, appStates, auth, rfl⟩ := hprocess
      cases hs
      exact hg
    · obtain ⟨_, _, _, _, _, rfl⟩ := step_frame hs hhandle fun ct as au heq => hprocess ⟨ct, as, au, heq⟩
      exact hg

theorem Admitted.step {label : IterOrder × Event} (hs : Steps P h label h')
    (hothers : ∀ cmd buf other fd, label.2 = .handle cmd buf other fd → other ≠ id)
    (hstays : ∀ clientTable appStates auth, label.2 = .process clientTable appStates auth → id ∈ auth.clients)
    (ha : Admitted id h) : Admitted id h' := by
  refine ⟨?_, step_closed hs hothers ha.idle, step_allowed hs hothers ha.allowed⟩
  refine step_calls_only (I := fun g _ => id ∈ g.auth.clients) hs (fun _ _ _ hg => hg) (fun _ _ _ hg => hg)
    (fun c cs hc hm hg => hm.admits hg) (fun hhandle hg => ?_) ha.auth
  obtain ⟨o, e⟩ := label
  by_cases hprocess : ∃ clientTable appStates auth, e = .process clientTable appStates auth
  · obtain ⟨clientTable, appStates, auth, rfl⟩ := hprocess
    cases hs
    exact hstays _ _ _ rfl
  · obtain ⟨_, _, _, _, _, rfl⟩ := step_frame hs hhandle fun ct as au heq => hprocess ⟨ct, as, au, heq⟩
    exact hg

/-! ## What an admitted client sends -/

theorem Admitted.execute_eq (ha : Admitted id h) {cmd : Cmd} {buf : Bytes} {fd : Int}
    (hcount : (cmd.toBeBroadcast && !h.clientTable.isMaster id) = false) :
    h.execute P o cmd buf id fd =
      (dispatch P o (cmdExec P o) (h.prepared cmd h.appStates) h.registry.timer.now false id
        (some fd) cmd).bind fun x =>
        x.1.conclude o cmd buf (h.clientTable.isMaster id) true x.2 := by
  have hsubscriber : h.isSubscriber id = false := decide_eq_false ha.allowed
  have hallowed : h.refuses id cmd = false := by
    rw [CmdHandler.refuses, hsubscriber]
    rfl
  have hprepare : h.prepare cmd buf (h.clientTable.isMaster id) = some (h.prepared cmd h.appStates) := by
    unfold prepare countWrite
    rw [hcount, if_neg Bool.false_ne_true]
    rfl
  unfold execute executeCmd
  rw [if_neg (by rw [hallowed]; exact Bool.false_ne_true), hsubscriber]
  simp only [Option.bind_eq_bind, hprepare, Option.bind_some]

theorem Admitted.handle_returned (ha : Admitted id h) {cmd : Cmd} {buf : Bytes} {fd : Int} :
    (h.handle P o (.ok cmd) buf id fd).map (fun x => (x.1, returned x.2)) =
      (h.execute P o cmd buf id fd).map fun x => (x.1, (outputOf x.2).extractBytes.getD []) := by
  have hclosed : h.registry.isTransaction id = false := decide_eq_false (AList.lookup_eq_none.mp ha.idle)
  unfold handle
  simp only [hclosed, Bool.not_false, if_true, Option.map_map]
  refine Option.map_congr fun x _ => ?_
  obtain ⟨h, out⟩ := x
  cases out <;> rfl

end

end CmdHandler

end Redis
