import Redis.AlikeSound

/-!
# The commands of a session

A client opens a transaction and queues commands, watches keys, subscribes. Such
a command changes the session of its client at most, and lets the clock go on.
-/

namespace Redis

open Lib RequestRegistry

def Cmd.ownSession : Cmd → Bool
  | .multi | .exec | .discard | .watch _ | .unwatch | .subscribe _ | .unsubscribe _ => true
  | _ => false

def Cmd.makes : Cmd → List String
  | .subscribe channels => channels
  | _ => []

namespace CmdHandler

/-- The clock goes on, and nobody looks. -/
def lapse (clock : Nat → Nat) (h : CmdHandler) : CmdHandler :=
  { h with registry := { h.registry with timer := { h.registry.timer with clock } } }

/-- The command changes the session of its client at most: it is queued, or ends a
transaction that runs nothing; or it is a command of the session, makes no
channel, and comes when nobody is about to be served. -/
def ownCmd (h : CmdHandler) (clientId : Nat) (cmd : Cmd) : Bool :=
  if h.registry.isTransaction clientId then
    cmd ≠ .exec || h.registry.isAnyDirty clientId || (h.registry.backlogTxn.lookup clientId).any List.isEmpty
  else
    h.refuses clientId cmd ||
      (cmd.ownSession && cmd.makes.all
        (fun key => decide (key ∈ h.channels)) && !h.flagBacklogList && !h.flagBacklogStream &&
        !h.clientTable.isMaster clientId)

section
variable {F : Nat → Prop} {P : Platform} {o : IterOrder} {a b g h h' : CmdHandler} {clientId : Nat}

theorem Alike.lapse (hab : a.Alike F b) (clock : Nat → Nat) : (a.lapse clock).Alike F (b.lapse clock) := by
  obtain ⟨g, X, Y, hs, rfl, rfl⟩ := hab
  exact ⟨g.lapse clock, X, Y, hs, rfl, rfl⟩

theorem alike_sessions {X : SessionState} (hX : X.Alike F g.sessions) : (g.inSession X).Alike F g :=
  ⟨g, X, g.sessions, hX, rfl, rfl⟩

theorem setTxn_alike {t : HashMap Nat (List Queued)}
    (ht : ∀ id, id ≠ clientId → t.lookup id = g.registry.backlogTxn.lookup id) :
    (g.withSession t g.registry.watchlist).Alike (· = clientId) g :=
  alike_sessions (X := { g.sessions with backlogTxn := t }) { SessionState.Alike.refl g.sessions with backlogTxn := ht }

theorem setWatchlist_alike {w : HashMap String (HashMap Nat Bool)}
    (hw : ∀ key id, id ≠ clientId → watchFlag w key id = watchFlag g.registry.watchlist key id) :
    (g.withSession g.registry.backlogTxn w).Alike (· = clientId) g :=
  alike_sessions (X := { g.sessions with watchlist := w }) { SessionState.Alike.refl g.sessions with watched := hw }

theorem closeTxn_own (g : CmdHandler) (clientId : Nat) : (g.closeTxn clientId).Alike (· = clientId) g := by
  have hwatch :
      (g.withSession g.registry.backlogTxn (g.registry.unwatchAll clientId).watchlist).Alike (· = clientId) g :=
    setWatchlist_alike fun _ _ hid => watchFlag_unwatchAll hid
  have htxn : ∀ g : CmdHandler,
      (g.withSession (g.registry.backlogTxn.erase clientId) g.registry.watchlist).Alike (· = clientId) g :=
    fun g => setTxn_alike fun _ hid => AList.lookup_erase_ne hid
  exact (htxn _).trans hwatch

theorem cmdSubscribe_own {keys : List String} (hkeys : ∀ key ∈ keys, key ∈ g.channels) :
    (cmdSubscribe g keys clientId).1.Alike (· = clientId) g := by
  rw [cmdSubscribe_eq]
  obtain ⟨subs, hm⟩ := exists_members g.channels
  have hmembers : Members (joinAll (g.isSubscriber clientId) clientId g.channels [] keys).1 _ :=
    joinAll_members hm (g.isSubscriber clientId) [] keys
  refine alike_sessions (X := { g.sessions with
    subscribers := HashMap.put clientId () g.subscribers
    channels := (joinAll (g.isSubscriber clientId) clientId g.channels [] keys).1 })
    { SessionState.Alike.refl g.sessions with subscribers := ?_, channels := ?_, joined := ?_ }
  · intro id hid
    exact HashMap.mem_put.trans (or_iff_right hid)
  · intro key
    refine (joinAll_lookup _ _ _ key).trans (or_iff_right_of_imp fun hin => hkeys key hin)
  · intro id key hid
    refine (hmembers id key).symm.trans (Subscriptions.mem_subscribe.trans ?_)
    rw [hm id key]
    exact or_iff_right fun hin => hid hin.1

theorem cmdUnsubscribe_own (key : String) : (cmdUnsubscribe g key clientId).1.Alike (· = clientId) g := by
  unfold cmdUnsubscribe
  split
  · refine alike_sessions (X := { g.sessions with
      subscribers := if key ∈ g.channels ∧
        channelCount (g.channels.modify key fun set => set.erase clientId) clientId = 0
        then g.subscribers.erase clientId else g.subscribers
      channels := g.channels.modify key fun set => set.erase clientId })
      { SessionState.Alike.refl g.sessions with subscribers := ?_, channels := ?_, joined := ?_ }
    · intro id hid
      simp only
      split
      · exact AList.mem_erase.trans (and_iff_right hid)
      · rfl
    · exact fun k => mem_leave_iff
    · intro id k hid
      exact joined_leave.trans (and_iff_right fun h => hid h.1)
  · exact .refl _ _

theorem dispatch_own {exec : CmdHandler → Nat → Option (CmdHandler × CmdResult)} {now : Nat} {isSubscriber : Bool}
    {epollFd : Option Int} {cmd : Cmd} {r : CmdResult} (hexec : NotNested exec g clientId)
    (hclosed : g.registry.isTransaction clientId = false) (hown : cmd.ownSession = true)
    (hmakes : ∀ key ∈ cmd.makes, key ∈ g.channels)
    (hd : dispatch P o exec g now isSubscriber clientId epollFd cmd = some (h', r)) : h'.Alike (· = clientId) g := by
  have hno : ¬ g.registry.isTransaction clientId = true := by rw [hclosed]; exact Bool.false_ne_true
  cases cmd <;> simp only [Cmd.ownSession, Bool.false_eq_true] at hown <;> simp only [dispatch, Option.some.injEq] at hd
  case multi =>
    rw [cmdMulti, if_neg hno] at hd
    cases hd
    exact setTxn_alike fun _ hid => AList.lookup_insert_ne hid
  case exec =>
    rw [hexec h' r hd]
    exact .refl _ _
  case discard =>
    rw [cmdDiscard, if_neg hno] at hd
    cases hd
    exact .refl _ _
  case watch keys =>
    cases hd
    refine setWatchlist_alike (w := (g.registry.watch keys clientId).watchlist) fun key id hid => ?_
    rw [watchFlag_watch, if_neg fun h => hid h.1]
  case unwatch =>
    cases hd
    exact setWatchlist_alike fun _ _ hid => watchFlag_unwatchAll hid
  case subscribe keys =>
    have hsub : (cmdSubscribe g keys clientId).1.Alike (· = clientId) g := cmdSubscribe_own hmakes
    rw [hd] at hsub
    exact hsub
  case unsubscribe key =>
    have hsub : (cmdUnsubscribe g key clientId).1.Alike (· = clientId) g := cmdUnsubscribe_own key
    rw [hd] at hsub
    exact hsub

theorem ownSession_plain {cmd : Cmd} (h : cmd.ownSession = true) : cmd.toBeBroadcast = false ∧ cmd.dirtyKey = none ∧
    cmd.isFlagList = false ∧ cmd.isFlagStream = false := by
  cases cmd <;> simp only [Cmd.ownSession, Bool.false_eq_true] at h <;> exact ⟨rfl, rfl, rfl, rfl⟩

theorem lowerFlags (hlist : g.flagBacklogList = false) (hstream : g.flagBacklogStream = false) :
    { g with flagBacklogList := false, flagBacklogStream := false } = g := by
  cases g
  cases hlist
  cases hstream
  rfl

theorem handle_own {cmd : Cmd} {buf : Bytes} {epollFd : Int} {out : Except Bytes Bytes}
    (hown : h.ownCmd clientId cmd = true)
    (hh : h.handle P o (.ok cmd) buf clientId epollFd = some (h', out)) :
    ∃ clock, h'.Alike (· = clientId) (h.lapse clock) := by
  have hstill : ∀ {g : CmdHandler}, g.Alike (· = clientId) h → ∃ clock, g.Alike (· = clientId) (h.lapse clock) :=
    fun hg => ⟨h.registry.timer.clock, hg⟩
  unfold ownCmd at hown
  cases handle_cases hh with
  | direct hclosed he =>
    rw [hclosed, if_neg Bool.false_ne_true] at hown
    rcases executeCmd_cases he with ⟨rfl, _⟩ | ⟨hallowed, prepared, dispatched, r, hp, hd, hc⟩
    · exact hstill (.refl _ _)
    · rw [hallowed, Bool.false_or] at hown
      simp only [Bool.and_eq_true, Bool.not_eq_true', List.all_eq_true, decide_eq_true_eq] at hown
      obtain ⟨⟨⟨⟨hsession, hmakes⟩, hlist⟩, hstream⟩, hmaster⟩ := hown
      obtain ⟨hquiet, hclean, hflagList, hflagStream⟩ := ownSession_plain hsession
      obtain ⟨s, hs, hprep⟩ := prepare_frame hp
      have hticked : prepared = h.lapse h.registry.timer.tick.clock := by
        rw [hprep, hs hquiet]
        unfold RequestRegistry.setDirty
        rw [hclean]
        rfl
      have hexec : NotNested (cmdExec P o) prepared clientId := by
        refine cmdExec_notNested ?_
        rw [hticked]
        exact AList.lookup_eq_none.mpr (of_decide_eq_false hclosed)
      have hdispatched : dispatched.Alike (· = clientId) prepared :=
        dispatch_own hexec (by rw [hticked]; exact hclosed) hsession (by rw [hticked]; exact hmakes) hd
      refine ⟨h.registry.timer.tick.clock, ?_⟩
      rw [← hticked]
      have hdone : h' = dispatched := by
        rw [hmaster] at hc
        cases r with
        | error e =>
          simp only [conclude, countFromMaster, Option.some.injEq, Prod.mk.injEq] at hc
          exact hc.1.symm
        | ok v =>
          cases v with
          | none =>
            simp only [conclude, Option.some.injEq, Prod.mk.injEq] at hc
            exact hc.1.symm
          | some v =>
            have hflags : dispatched.flagBacklogList = false ∧ dispatched.flagBacklogStream = false := by
              rw [hdispatched.flags.1, hdispatched.flags.2, hticked]
              exact ⟨hlist, hstream⟩
            rw [conclude_state hc, hflagList, hflagStream]
            unfold propagate countFromMaster
            rw [hquiet]
            simp only [Bool.false_eq_true, if_false]
            exact lowerFlags hflags.1 hflags.2
      rw [hdone]
      exact hdispatched
  | queued hq hopen =>
    exact hstill (setTxn_alike fun id hid => HashMap.lookup_pushBack_ne hid _ _)
  | aborted => exact hstill (closeTxn_own h clientId)
  | @ran queue g resps hqueue hclean hrun =>
    rw [isTransaction_iff.mpr ⟨_, hqueue⟩, if_pos rfl, hclean, hqueue] at hown
    have hempty : queue = [] := by simpa using hown
    subst hempty
    cases hrun
    have hdrained : (h.drainTxn clientId).Alike (· = clientId) h :=
      setTxn_alike fun _ hid => HashMap.lookup_modify_ne hid _ _
    exact hstill ((closeTxn_own _ clientId).trans hdrained)
  | discarded => exact hstill (closeTxn_own h clientId)
  | refused => exact hstill (.refl _ _)

end

end CmdHandler

end Redis
