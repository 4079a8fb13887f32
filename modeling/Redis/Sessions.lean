import Redis.Backlogs
import Redis.Calls
import Redis.Lib.Since

/-!
# Sessions

The transactions and the watches are the session of a client. A call changes
them as its command says, exactly: `Call.Made.session`. A trace of the calls
and of the transactions that end is therefore all there is to know about them.
-/

namespace Redis

open Lib RequestRegistry

namespace CmdHandler

def watchesAfter (r : RequestRegistry) (clientId : Nat) : Cmd → HashMap String (HashMap Nat Bool)
  | .watch keys => (r.watch keys clientId).watchlist
  | .unwatch => (r.unwatchAll clientId).watchlist
  | _ => r.watchlist

def txnsAfter (r : RequestRegistry) (clientId : Nat) : Cmd → HashMap Nat (List Queued)
  | .multi => if r.isTransaction clientId then r.backlogTxn else r.backlogTxn.insert clientId []
  | _ => r.backlogTxn

inductive SessionEvent where
  | call (c : Call)
  | closed (clientId : Nat)

def sessionEvents (P : Platform) (h : CmdHandler) (label : IterOrder × Event) : List SessionEvent :=
  (h.calls P label).map .call ++ (h.closedBy label.2).toList.map .closed

def sessionTrace (P : Platform) (h : CmdHandler) (labels : List (IterOrder × Event)) : List SessionEvent :=
  collect P (sessionEvents P) h labels

section
variable {P : Platform} {o : IterOrder}

/-! ## One command -/

section
variable {h : CmdHandler} {now clientId : Nat} {epollFd : Option Int}

theorem cmdBlpop_session {key : String} {timeoutMs : Option Nat} {data : Data} {registry : RequestRegistry}
    {r : CmdResult} (hb : cmdBlpop h.data h.registry key timeoutMs clientId now = ((data, registry), r)) :
    registry.backlogTxn = h.registry.backlogTxn ∧ registry.watchlist = h.registry.watchlist := by
  rcases cmdBlpop_cases hb with ⟨_, _, _, _, _, _, rfl, _⟩ | ⟨_, rfl, _⟩ | ⟨_, _, rfl, _⟩
  · exact ⟨rfl, rfl⟩
  · exact ⟨rfl, rfl⟩
  · exact insert_session ..

theorem cmdXread_session {count block : Option Nat} {stream : List (String × Nat × Nat)} {registry : RequestRegistry}
    {r : CmdResult} (hx : cmdXread h.data h.registry count block stream clientId now = (registry, r)) :
    registry.backlogTxn = h.registry.backlogTxn ∧ registry.watchlist = h.registry.watchlist := by
  rcases @cmdXread_cases .asIs h now clientId none _ _ _ _ _ hx with rfl | ⟨_, _, _, rfl, _⟩
  · exact ⟨rfl, rfl⟩
  · exact insert_session ..

theorem cmdWait_session {count : Nat} {timeoutMs : Option Nat} {h' : CmdHandler} {r : CmdResult}
    (hw : cmdWait o h count timeoutMs clientId now epollFd = some (h', r)) :
    h'.registry.backlogTxn = h.registry.backlogTxn ∧ h'.registry.watchlist = h.registry.watchlist := by
  rcases cmdWait_cases hw with rfl | ⟨_, _, rfl, _⟩
  · exact ⟨rfl, rfl⟩
  · exact insert_session ..

theorem cmdReplconf_session {arg : CmdArg} {h' : CmdHandler} {r : CmdResult}
    (hr : cmdReplconf h arg clientId epollFd = some (h', r)) :
    h'.registry.backlogTxn = h.registry.backlogTxn ∧ h'.registry.watchlist = h.registry.watchlist := by
  rcases cmdReplconf_cases hr with rfl | ⟨_, rfl, ha⟩
  · exact ⟨rfl, rfl⟩
  · obtain ⟨_, _, rfl, htxn, hwatch, _⟩ := cmdAck_frame ha
    exact ⟨htxn, hwatch⟩

theorem dispatch_session {exec : CmdHandler → Nat → Option (CmdHandler × CmdResult)} {isSubscriber : Bool} {cmd : Cmd}
    {h' : CmdHandler} {r : CmdResult} (hexec : NotNested exec h clientId)
    (hclosed : cmd = .discard → h.registry.isTransaction clientId = false)
    (hd : dispatch P o exec h now isSubscriber clientId epollFd cmd = some (h', r)) :
    h'.registry.backlogTxn = txnsAfter h.registry clientId cmd ∧
      h'.registry.watchlist = watchesAfter h.registry clientId cmd := by
  cases cmd <;> simp only [dispatch, Option.some.injEq] at hd
  case blpop => cases hd; exact cmdBlpop_session rfl
  case xread => cases hd; exact cmdXread_session rfl
  case wait => exact cmdWait_session hd
  case replconf => exact cmdReplconf_session hd
  case exec => rw [hexec h' r hd]; exact ⟨rfl, rfl⟩
  case discard =>
    rw [cmdDiscard, hclosed rfl] at hd
    cases hd
    exact ⟨rfl, rfl⟩
  case multi =>
    cases hd
    simp only [cmdMulti, txnsAfter]
    split <;> exact ⟨rfl, rfl⟩
  case psync id offset =>
    obtain rfl : (cmdPsync h id offset clientId).1 = h' := congrArg Prod.fst hd
    rcases cmdPsync_cases h id offset clientId with heq | heq <;> rw [heq] <;> exact ⟨rfl, rfl⟩
  case publish key message =>
    obtain rfl : (cmdPublish o h key message).1 = h' := congrArg Prod.fst hd
    obtain ⟨_, _, heq⟩ := cmdPublish_frame o h key message
    rw [heq]
    exact ⟨rfl, rfl⟩
  case unsubscribe key =>
    obtain rfl : (cmdUnsubscribe h key clientId).1 = h' := congrArg Prod.fst hd
    obtain ⟨_, _, heq⟩ := cmdUnsubscribe_frame h key clientId
    rw [heq]
    exact ⟨rfl, rfl⟩
  case subscribe keys =>
    obtain rfl : (cmdSubscribe h keys clientId).1 = h' := congrArg Prod.fst hd
    exact ⟨rfl, rfl⟩
  case set | xrange | zadd | zrank | zrange | zcard | zscore | zrem | geoadd | geopos | geodist =>
    obtain ⟨_, _, he⟩ := Option.map_eq_some_iff.mp hd
    cases he
    exact ⟨rfl, rfl⟩
  all_goals
    cases hd
    exact ⟨rfl, rfl⟩

end

/-! ## Calls -/

theorem Call.Made.session {c : Call} (hm : Call.Made P o c) :
    c.after.registry.backlogTxn = txnsAfter c.before.registry c.clientId c.cmd ∧
      c.after.registry.watchlist = watchesAfter (c.before.registry.setDirty c.cmd) c.clientId c.cmd := by
  obtain ⟨_, hclosed, exec, s, d, fd, ser, out, _, _, hexec, hd, hc⟩ := hm
  obtain ⟨_, _, _, _, _, _, hafter⟩ := conclude_frame hc
  obtain ⟨htxn, hwatch⟩ := dispatch_session hexec hclosed hd
  rw [hafter]
  refine ⟨htxn.trans ?_, hwatch.trans ?_⟩ <;> cases c.cmd <;> rfl

/-! ## What serves requests leaves sessions alone -/

theorem takes_session {r r' : RequestRegistry} (h : Takes r r') :
    r'.backlogTxn = r.backlogTxn ∧ r'.watchlist = r.watchlist :=
  h.inv (I := fun g => g.backlogTxn = r.backlogTxn ∧ g.watchlist = r.watchlist) (fun _ _ hg => hg)
    (fun g timestamp hg => ⟨(remove_session g timestamp).1.trans hg.1, (remove_session g timestamp).2.trans hg.2⟩)
      ⟨rfl, rfl⟩

theorem step_session {h h' : CmdHandler} {o : IterOrder} {e : Event} (hs : Steps P h (o, e) h')
    (hh : ∀ cmd buf clientId epollFd, e ≠ .handle cmd buf clientId epollFd) :
    h'.registry.backlogTxn = h.registry.backlogTxn ∧ h'.registry.watchlist = h.registry.watchlist := by
  rcases step_takes hs hh with htakes | ⟨_, htakes⟩
  · exact takes_session htakes
  · have hsame := takes_session htakes
    exact hsame

/-! ## A step, event by event -/

theorem step_events {I : CmdHandler → List SessionEvent → Prop} {h h' : CmdHandler} {label : IterOrder × Event}
    {trace : List SessionEvent} (hs : Steps P h label h')
    (htxn : ∀ g t es, I g es → I (g.withSession t g.registry.watchlist) es)
    (hcall : ∀ c es, c ∈ h.calls P label → Call.Made P label.1 c → I c.before es → I c.after (es ++ [.call c]))
    (hclose : ∀ g es id, h.closedBy label.2 = some id → I g es → I (g.closeTxn id) (es ++ [.closed id]))
    (hother : (∀ cmd buf clientId epollFd, label.2 ≠ .handle cmd buf clientId epollFd) → I h trace → I h' trace)
    (hI : I h trace) : I h' (trace ++ h.sessionEvents P label) := by
  obtain ⟨o, e⟩ := label
  cases e with
  | handle cmd buf clientId epollFd =>
    obtain ⟨⟨g, out⟩, hh, rfl⟩ := Option.map_eq_some_iff.mp hs
    obtain ⟨g', hg', hend⟩ := handle_calls_close (I := fun g cs => I g (trace ++ cs.map .call))
      (fun g t cs hg => htxn g t _ hg) (fun c cs hc hm _ hI => by
        rw [List.map_append, ← List.append_assoc]
        exact hcall c _ hc hm hI) hh (by rwa [List.map_nil, List.append_nil])
    rw [sessionEvents, ← List.append_assoc]
    simp only
    rw [hend]
    cases hclosed : h.closedBy (.handle cmd buf clientId epollFd) with
    | none =>
      rw [Option.toList_none, List.map_nil, List.append_nil]
      exact hg'
    | some id => exact hclose g' _ id hclosed hg'
  | serveBacklogList | serveBacklogStream | expire | process =>
    rw [show h.sessionEvents P _ = [] from rfl, List.append_nil]
    exact hother (fun _ _ _ _ h => by cases h) hI

end

end CmdHandler

end Redis
