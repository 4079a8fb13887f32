import Redis.RecipientSound
import Redis.SnapshotSound

/-!
# What is shipped to a replica

A client that is a slave and uses its connection for nothing else is sent the
frames of the write commands, in the order of the calls, and GETACK for each
WAIT; each of them once, and nothing beside.
-/

namespace Redis

open Lib RequestRegistry

def Cmd.ofSlave : Cmd → Bool
  | .ping | .replconf _ | .psync .. => true
  | _ => false

namespace CmdHandler

def messagesTo (h : CmdHandler) (s : Nat) : List Bytes := (h.responseQueue.filter fun m => m.1 = s).map Prod.snd

def asked (cmd : Cmd) : CmdResult → List Bytes
  | .ok none =>
    match cmd with
    | .wait .. => [getAck.frame]
    | _ => []
  | _ => []

def propagated (cmd : Cmd) (buf : Bytes) : CmdResult → List Bytes
  | .ok (some _) => if cmd.toBeBroadcast then [buf] else []
  | _ => []

def Call.sent (c : Call) : List Bytes := asked c.cmd c.result ++ c.frames

/-- The client is a slave, and waits for nothing and listens to nothing. -/
structure Apart (s : Nat) (h : CmdHandler) : Prop where
  registry : h.registry.Clients (· ≠ s)
  channels : ∀ key set, h.channels.lookup key = some set → s ∉ set
  slave : s ∈ h.clientTable.listSlave

section
variable {P : Platform} {o : IterOrder} {h h' : CmdHandler} {s clientId now : Nat} {epollFd : Option Int}

/-! ## Queues of messages -/

theorem messagesTo_congr (hq : h'.responseQueue = h.responseQueue) : h'.messagesTo s = h.messagesTo s := by
  unfold messagesTo
  rw [hq]

theorem messagesTo_append {new : List (Nat × Bytes)} (hq : h'.responseQueue = h.responseQueue ++ new) :
    h'.messagesTo s = h.messagesTo s ++ (new.filter fun m => m.1 = s).map Prod.snd := by
  unfold messagesTo
  rw [hq, List.filter_append, List.map_append]

theorem messagesTo_others {new : List (Nat × Bytes)} (hq : h'.responseQueue = h.responseQueue ++ new)
    (hnew : ∀ m ∈ new, m.1 ≠ s) : h'.messagesTo s = h.messagesTo s := by
  have hnil : new.filter (fun m => m.1 = s) = [] := by
    rw [List.filter_eq_nil_iff]
    intro m hm
    simpa using hnew m hm
  rw [messagesTo_append hq, hnil, List.map_nil, List.append_nil]

theorem nodup_listSlave (t : ClientTable) : t.listSlave.Nodup := by
  unfold ClientTable.listSlave
  cases t.slaves with
  | none => exact List.nodup_nil
  | some set => exact set.keys_nodup

theorem messagesTo_slaves {message : Bytes}
    (hq : h'.responseQueue = h.responseQueue ++ (o.order h.clientTable.listSlave).map fun id => (id, message))
    (hs : s ∈ h.clientTable.listSlave) : h'.messagesTo s = h.messagesTo s ++ [message] := by
  have hnodup : (o.order h.clientTable.listSlave).Nodup := (o.perm _).nodup_iff.mpr (nodup_listSlave _)
  have hin : s ∈ o.order h.clientTable.listSlave := (o.perm _).mem_iff.mpr hs
  have hone : (o.order h.clientTable.listSlave).filter (fun id => id = s) = [s] := by
    rw [List.filter_eq, List.count_eq_one_of_mem hnodup hin, List.replicate_one]
  rw [messagesTo_append hq, List.filter_map]
  have hcomp : ((fun m : Nat × Bytes => decide (m.1 = s)) ∘ fun id => (id, message)) = fun id => decide (id = s) := rfl
  rw [hcomp, hone]
  rfl

/-! ## One command -/

theorem Apart.congr (ha : Apart s h) (hr : h'.registry = h.registry) (hc : h'.channels = h.channels)
    (ht : h'.clientTable = h.clientTable) : Apart s h' := by
  refine ⟨?_, ?_, ?_⟩
  · rw [hr]
    exact ha.registry
  · rw [hc]
    exact ha.channels
  · rw [ht]
    exact ha.slave

/-- What a replica sends leaves nothing behind that is answered later. -/
theorem Apart.ofSlave {exec : CmdHandler → Nat → Option (CmdHandler × CmdResult)} {cmd : Cmd} {isSubscriber : Bool}
    {r : CmdResult} (ha : Apart s h) (hc : cmd.ofSlave = true)
    (hd : dispatch P o exec h now isSubscriber clientId epollFd cmd = some (h', r)) : Apart s h' := by
  cases cmd <;> simp only [Cmd.ofSlave, Bool.false_eq_true] at hc <;> simp only [dispatch, Option.some.injEq] at hd
  case ping =>
    cases hd
    exact ha
  case replconf arg =>
    rcases cmdReplconf_cases hd with rfl | ⟨offset, _, hack⟩
    · exact ha
    · have hregistry := cmdAck_kept (clients_inert (· ≠ s)) hack ha.registry
      obtain ⟨_, _, rfl, _⟩ := cmdAck_frame hack
      exact ⟨hregistry, ha.channels, ha.slave⟩
  case psync id offset =>
    have hfst : (cmdPsync h id offset clientId).1 = h' := congrArg Prod.fst hd
    rcases cmdPsync_cases h id offset clientId with hsame | hslave
    · rw [← hfst, hsame]
      exact ha
    · rw [← hfst, hslave]
      exact ⟨ha.registry, ha.channels, mem_listSlave_setSlave ha.slave⟩

theorem Apart.dispatched {exec : CmdHandler → Nat → Option (CmdHandler × CmdResult)} {cmd : Cmd} {isSubscriber : Bool}
    {r : CmdResult} (ha : Apart s h) (hexec : NotNested exec h clientId) (hown : clientId = s → cmd.ofSlave = true)
    (hd : dispatch P o exec h now isSubscriber clientId epollFd cmd = some (h', r)) : Apart s h' := by
  by_cases hs : clientId = s
  · exact ha.ofSlave (hown hs) hd
  · have he := dispatch_effect hexec hd
    have hregistry := he.kept (clients_inert (· ≠ s)) (fun _ _ _ => ha.registry.insert hs) ha.registry
    have hslave := he.grows.slaves s ha.slave
    refine ⟨hregistry, ?_, hslave⟩
    cases he with
    | channels hjoined =>
      intro key set hl hin
      rcases hjoined key set s hl hin with heq | ⟨set', hl', hin'⟩
      · exact hs heq.symm
      · exact ha.channels key set' hl' hin'
    | ack _ hack =>
      obtain ⟨_, _, rfl, _⟩ := cmdAck_frame hack
      exact ha.channels
    | _ => exact ha.channels

theorem cmdWait_messages {count : Nat} {timeoutMs : Option Nat} {r : CmdResult} (hs : s ∈ h.clientTable.listSlave)
    (hw : cmdWait o h count timeoutMs clientId now epollFd = some (h', r)) :
    h'.messagesTo s = h.messagesTo s ++ asked (.wait count timeoutMs) r := by
  have hsame : ∀ {x : CmdResult}, asked (.wait count timeoutMs) x = [] → some (h, x) = some (h', r) →
      h'.messagesTo s = h.messagesTo s ++ asked (.wait count timeoutMs) r := by
    intro x hx heq
    cases heq
    rw [hx, List.append_nil]
  unfold cmdWait at hw
  split at hw
  · exact hsame rfl hw
  · split at hw
    · exact hsame rfl hw
    · split at hw
      · exact hsame rfl hw
      · simp only at hw
        split at hw
        · cases hw
          exact messagesTo_slaves rfl hs
        · cases hw

theorem asked_other {cmd : Cmd} (hno : ∀ count timeoutMs, cmd ≠ .wait count timeoutMs) (r : CmdResult) :
    asked cmd r = [] := by
  unfold asked
  split
  · split
    · exact absurd rfl (hno _ _)
    · rfl
  · rfl

theorem Apart.messages {exec : CmdHandler → Nat → Option (CmdHandler × CmdResult)} {cmd : Cmd} {isSubscriber : Bool}
    {r : CmdResult} (ha : Apart s h) (hexec : NotNested exec h clientId)
    (hd : dispatch P o exec h now isSubscriber clientId epollFd cmd = some (h', r)) :
    h'.messagesTo s = h.messagesTo s ++ asked cmd r := by
  by_cases hwait : ∃ count timeoutMs, cmd = .wait count timeoutMs
  · obtain ⟨count, timeoutMs, rfl⟩ := hwait
    exact cmdWait_messages ha.slave hd
  · rw [asked_other (fun count timeoutMs heq => hwait ⟨count, timeoutMs, heq⟩), List.append_nil]
    have hmap : ∀ {w : Option (Data × CmdResult)}, w.map h.withData = some (h', r) →
        h'.messagesTo s = h.messagesTo s := by
      intro w hw
      obtain ⟨_, _, heq⟩ := Option.map_eq_some_iff.mp hw
      cases heq
      rfl
    have hread : ∀ {w : Option CmdResult}, w.map (Prod.mk h) = some (h', r) → h'.messagesTo s = h.messagesTo s := by
      intro w hw
      obtain ⟨_, _, heq⟩ := Option.map_eq_some_iff.mp hw
      cases heq
      rfl
    cases cmd <;> simp only [dispatch, Option.some.injEq] at hd
    case wait count timeoutMs => exact absurd ⟨count, timeoutMs, rfl⟩ hwait
    case set | zadd | zrem | geoadd => exact hmap hd
    case xrange | zrank | zrange | zcard | zscore | geopos | geodist => exact hread hd
    case exec => rw [hexec _ _ hd]
    case replconf arg =>
      rcases cmdReplconf_cases hd with rfl | ⟨offset, _, hack⟩
      · rfl
      · obtain ⟨new, _, rfl, _, _, hnew⟩ := cmdAck_frame hack
        refine messagesTo_others rfl fun m hm => ?_
        obtain ⟨ids, hl, hin⟩ := hnew m hm
        exact ha.registry.ack clientId m.1 (by rw [HashMap.queueOf_of_lookup hl]; exact hin)
    case psync id offset =>
      have hfst : (cmdPsync h id offset clientId).1 = h' := congrArg Prod.fst hd
      rcases cmdPsync_cases h id offset clientId with hsame | hslave
      · rw [← hfst, hsame]
      · rw [← hfst, hslave]
        rfl
    case publish key message =>
      unfold cmdPublish at hd
      split at hd
      · rename_i set hl
        cases hd
        refine messagesTo_others rfl fun m hm => ?_
        obtain ⟨id, hid, rfl⟩ := List.mem_map.mp hm
        rintro rfl
        exact ha.channels key set hl (AList.mem_keys.mpr ((o.perm _).mem_iff.mp hid))
      · cases hd
        rfl
    case unsubscribe key =>
      unfold cmdUnsubscribe at hd
      split at hd <;> cases hd <;> rfl
    all_goals
      cases hd
      rfl

/-! ## Calls -/

theorem conclude_messages {cmd : Cmd} {buf : Bytes} {isMaster serialized : Bool} {r : CmdResult}
    {out : Except CmdOutput CmdOutput} (hs : s ∈ h.clientTable.listSlave)
    (hc : h.conclude o cmd buf isMaster serialized r = some (h', out)) :
    h'.messagesTo s = h.messagesTo s ++ propagated cmd buf r := by
  cases r with
  | error e =>
    simp only [conclude, Option.some.injEq, Prod.mk.injEq] at hc
    obtain ⟨_, hstats⟩ := countFromMaster_frame h buf isMaster
    rw [← hc.1, hstats]
    exact (List.append_nil _).symm
  | ok r =>
    cases r with
    | none =>
      cases hc
      exact (List.append_nil _).symm
    | some resp =>
      obtain ⟨_, rfl⟩ := conclude_some hc
      unfold propagate propagated
      split
      · exact messagesTo_slaves rfl hs
      · exact (List.append_nil _).symm

theorem Call.Made.apart {c : Call} (hm : Call.Made P o c) (hown : c.clientId = s → c.cmd.ofSlave = true)
    (ha : Apart s c.before) : Apart s c.after ∧ c.after.messagesTo s = c.before.messagesTo s ++ c.sent := by
  obtain ⟨_, _, exec, appStates, d, fd, ser, out, _, _, hexec, hd, hc⟩ := hm
  have hprepared : Apart s (c.before.prepared c.cmd appStates) :=
    ⟨prepared_kept (clients_inert (· ≠ s)) c.cmd appStates ha.registry, ha.channels, ha.slave⟩
  have hdispatched := hprepared.dispatched hexec hown hd
  have hmessages := hprepared.messages hexec hd
  constructor
  · obtain ⟨_, _, _, _, _, _, hafter⟩ := conclude_frame hc
    rw [hafter]
    exact hdispatched.congr rfl rfl rfl
  · have hconcluded := conclude_messages hdispatched.slave hc
    rw [hconcluded, hmessages, List.append_assoc]
    rfl

/-! ## Other steps -/

structure Quiet (s : Nat) (h h' : CmdHandler) : Prop where
  apart : Apart s h'
  messages : h'.messagesTo s = h.messagesTo s

theorem Quiet.trans {h₁ h₂ h₃ : CmdHandler} (h : Quiet s h₁ h₂) (h' : Quiet s h₂ h₃) : Quiet s h₁ h₃ :=
  ⟨h'.apart, h'.messages.trans h.messages⟩

theorem backlogTask_quiet {entry : RequestEntry} (hc : entry.clientId ≠ s) (ha : Apart s h) :
    Quiet s h (h.backlogTask entry) := by
  have hregistry := (clients_inert (· ≠ s)).takes (backlogTask_takes h entry) ha.registry
  obtain ⟨_, _, _, hframe⟩ := backlogTask_frame h entry
  refine ⟨⟨hregistry, ?_, ?_⟩, messagesTo_others (backlogTask_queue h entry) fun m hm => ?_⟩
  · rw [hframe]
    exact ha.channels
  · rw [hframe]
    exact ha.slave
  · obtain ⟨_, _, rfl⟩ := List.mem_map.mp hm
    exact hc

theorem serve_quiet (served : RequestKind → Bool) (ts : List Nat) (ha : Apart s h) : Quiet s h (h.serve served ts) := by
  refine serve_inv (I := Quiet s h) ⟨⟨?_, ha.channels, ha.slave⟩, rfl⟩ fun g t entry _ he hg =>
    hg.trans (backlogTask_quiet (ha.registry.entry t entry he) hg.apart)
  simp only
  rw [takeOut_registry]
  exact (clients_inert _).takes (.foldl_remove ts _) ha.registry

theorem callbackDeadlineExpire_quiet (hx : h.callbackDeadlineExpire = some h') (ha : Apart s h) : Quiet s h h' := by
  obtain ⟨_, t, _, ⟨entry, he, hd⟩ | ⟨_, rfl⟩⟩ := callbackDeadlineExpire_cases hx
  · have hclient : entry.clientId ≠ s := ha.registry.entry t entry he
    have hregistry := (clients_inert (· ≠ s)).takes (deadlineTask_takes hd)
      ((clients_inert (· ≠ s)).removed _ t ha.registry)
    obtain ⟨_, rfl⟩ := deadlineTask_cases hd
    refine ⟨⟨hregistry, ha.channels, ha.slave⟩, messagesTo_others rfl fun m hm => ?_⟩
    rw [List.mem_singleton.mp hm]
    exact hclient
  · exact ⟨ha, rfl⟩

theorem step_quiet {e : Event} (hs : Steps P h (o, e) h')
    (hh : ∀ cmd buf clientId epollFd, e ≠ .handle cmd buf clientId epollFd)
    (hstays : ∀ clientTable appStates auth, e = .process clientTable appStates auth → s ∈ clientTable.listSlave)
    (ha : Apart s h) : Quiet s h h' := by
  cases e with
  | handle cmd buf clientId epollFd => exact absurd rfl (hh cmd buf clientId epollFd)
  | serveBacklogList =>
    cases hs
    unfold serveBacklogList
    split
    · have hserved := serve_quiet RequestKind.isList (h.listTimestamps o) ha
      exact ⟨hserved.apart.congr rfl rfl rfl, hserved.messages⟩
    · exact ⟨ha, rfl⟩
  | serveBacklogStream =>
    cases hs
    unfold serveBacklogStream
    split
    · have hserved := serve_quiet RequestKind.isStream (h.streamTimestamps o) ha
      exact ⟨hserved.apart.congr rfl rfl rfl, hserved.messages⟩
    · exact ⟨ha, rfl⟩
  | expire =>
    have hdisarmed : Apart s h.disarm := ⟨(clients_inert _).disarmed _ ha.registry, ha.channels, ha.slave⟩
    have hquiet := callbackDeadlineExpire_quiet (step_expire hs).2 hdisarmed
    exact ⟨hquiet.apart, hquiet.messages⟩
  | process clientTable appStates auth =>
    cases hs
    exact ⟨⟨ha.registry, ha.channels, hstays _ _ _ rfl⟩, rfl⟩

/-! ## Steps -/

theorem callOf_asked {exec : CmdHandler → Nat → Option (CmdHandler × CmdResult)} {cmd : Cmd} {buf : Bytes} {id : Nat}
    {serialized : Bool} {c : Call} (hc : h.callOf P o exec cmd buf id epollFd serialized = some c) :
    c.cmd = cmd ∧ c.buf = buf ∧ c.clientId = id := by
  unfold callOf at hc
  split at hc
  · cases hc
  · simp only [Option.bind_eq_bind, Option.bind_eq_some_iff] at hc
    obtain ⟨_, _, _, _, _, _, hlast⟩ := hc
    cases hlast
    exact ⟨rfl, rfl, rfl⟩

/-- The calls of a transaction are of what its client has queued. -/
theorem queueCalls_asked {queue : List Queued} {g : CmdHandler} {c : Call} (hc : c ∈ queueCalls P o clientId g queue) :
    c.clientId = clientId ∧ (c.cmd, c.buf) ∈ queue.map fun q => (q.cmd, q.buf) := by
  induction queue generalizing g with
  | nil => cases hc
  | cons q queue ih =>
    rw [List.map_cons]
    unfold queueCalls at hc
    split at hc
    · rcases List.mem_append.mp hc with hc | hc
      · obtain ⟨hcmd, hbuf, hid⟩ := callOf_asked (Option.mem_toList.mp hc)
        rw [hcmd, hbuf]
        exact ⟨hid, List.mem_cons_self ..⟩
      · obtain ⟨hid, hqueued⟩ := ih hc
        exact ⟨hid, List.mem_cons_of_mem _ hqueued⟩
    · cases hc

theorem calls_client {cmd : Cmd} {buf : Bytes} {id : Nat} {fd : Int} {c : Call}
    (hc : c ∈ h.calls P (o, .handle (.ok cmd) buf id fd)) : c.clientId = id := by
  simp only [calls] at hc
  split at hc
  · exact (callOf_asked (Option.mem_toList.mp hc)).2.2
  · split at hc
    · exact (queueCalls_asked hc).1
    · cases hc

structure Serves (P : Platform) (s : Nat) (h : CmdHandler) (label : IterOrder × Event) : Prop where
  own : ∀ c ∈ h.calls P label, c.clientId = s → c.cmd.ofSlave = true
  stays : ∀ clientTable appStates auth, label.2 = .process clientTable appStates auth → s ∈ clientTable.listSlave

/-- A step ships what its calls send, in their order. -/
theorem step_ships {label : IterOrder × Event} (hs : Steps P h label h') (hserves : Serves P s h label)
    (ha : Apart s h) : Apart s h' ∧ h'.messagesTo s = h.messagesTo s ++ (h.calls P label).flatMap Call.sent := by
  have hstart : Apart s h ∧ h.messagesTo s = h.messagesTo s ++ ([] : List Call).flatMap Call.sent :=
    ⟨ha, (List.append_nil _).symm⟩
  refine step_calls_only (I := fun g cs => Apart s g ∧ g.messagesTo s = h.messagesTo s ++ cs.flatMap Call.sent)
    hs ?_ ?_ ?_ ?_ hstart
  · exact fun g t cs hg => ⟨⟨(clients_inert _).session _ t _ hg.1.registry, hg.1.channels, hg.1.slave⟩, hg.2⟩
  · intro g clientId cs hg
    exact ⟨⟨⟨hg.1.registry.entry, hg.1.registry.ack⟩, hg.1.channels, hg.1.slave⟩, hg.2⟩
  · intro c cs hc hm hg
    obtain ⟨hafter, hmessages⟩ := hm.apart (hserves.own c hc) hg.1
    refine ⟨hafter, ?_⟩
    rw [hmessages, hg.2, List.flatMap_append, List.append_assoc, List.flatMap_singleton]
  · intro hhandle hg
    obtain ⟨o, e⟩ := label
    have hquiet := step_quiet hs hhandle hserves.stays hg.1
    exact ⟨hquiet.apart, hquiet.messages.trans hg.2⟩

/-- What is queued to a slave in a run is what the calls send it: each write that
answers with a value once, in the order of the calls. -/
theorem run_ships {labels : List (IterOrder × Event)} (hr : Run (guarded (Serves P s) (Steps P)) h labels h')
    (ha : Apart s h) :
    Apart s h' ∧ h'.messagesTo s = h.messagesTo s ++ (runCalls P h labels).flatMap Call.sent := by
  have hstart : Apart s h ∧ h.messagesTo s = h.messagesTo s ++ ([] : List Call).flatMap Call.sent :=
    ⟨ha, (List.append_nil _).symm⟩
  have hstep : ∀ g label g' cs, Serves P s g label → Steps P g label g' →
      Apart s g ∧ g.messagesTo s = h.messagesTo s ++ cs.flatMap Call.sent →
      Apart s g' ∧ g'.messagesTo s = h.messagesTo s ++ (cs ++ g.calls P label).flatMap Call.sent := by
    intro g label g' cs hg hs hI
    obtain ⟨hafter, hmessages⟩ := step_ships hs hg hI.1
    refine ⟨hafter, ?_⟩
    rw [hmessages, hI.2, List.flatMap_append, List.append_assoc]
  exact collect_inv (I := fun g cs => Apart s g ∧ g.messagesTo s = h.messagesTo s ++
    cs.flatMap Call.sent) hr hstep hstart

theorem step_log {label : IterOrder × Event} (hs : Steps P h label h') :
    h'.log = h.log.map (· ++ (h.calls P label).flatMap Call.frames) := by
  have hstart : h.log = h.log.map (· ++ ([] : List Call).flatMap Call.frames) := by simp
  refine step_calls_only (I := fun g cs => g.log = h.log.map (· ++ cs.flatMap Call.frames)) hs (fun _ _ _ hg => hg)
    (fun _ _ _ hg => hg) (fun c cs hc hm hg => ?_) (fun hhandle hg => ?_) hstart
  · rw [hm.log, hg, Option.map_map, List.flatMap_append, List.flatMap_singleton]
    congr 1
    funext lines
    exact List.append_assoc ..
  · obtain ⟨o, e⟩ := label
    by_cases hp : ∃ clientTable appStates auth, e = .process clientTable appStates auth
    · obtain ⟨_, _, _, rfl⟩ := hp
      cases hs
      exact hg
    · obtain ⟨_, _, _, _, _, rfl⟩ := step_frame hs hhandle fun ct as au heq => hp ⟨ct, as, au, heq⟩
      exact hg

/-- All slaves are sent the same, and the log file gets the writes of it. -/
theorem run_replicates {s' : Nat} {labels : List (IterOrder × Event)} {lines : List Bytes}
    (hr : Run (guarded (fun g label => Serves P s g label ∧ Serves P s' g label) (Steps P)) h labels h')
    (ha : Apart s h) (ha' : Apart s' h) (hlog : h.log = some lines) :
    h'.messagesTo s = h.messagesTo s ++ (runCalls P h labels).flatMap Call.sent ∧
    h'.messagesTo s' = h.messagesTo s' ++ (runCalls P h labels).flatMap Call.sent ∧
    h'.log = some (lines ++ (runCalls P h labels).flatMap Call.frames) := by
  have hfirst : Run (guarded (Serves P s) (Steps P)) h labels h' := hr.mono fun _ _ _ hs => ⟨hs.1.1, hs.2⟩
  have hsecond : Run (guarded (Serves P s') (Steps P)) h labels h' := hr.mono fun _ _ _ hs => ⟨hs.1.2, hs.2⟩
  refine ⟨(run_ships hfirst ha).2, (run_ships hsecond ha').2, ?_⟩
  have hstart : h.log = some (lines ++ ([] : List Call).flatMap Call.frames) := by simpa using hlog
  refine collect_inv (I := fun g cs => g.log = some (lines ++ cs.flatMap Call.frames)) hfirst
    (fun g label g' cs _ hs hI => ?_) hstart
  rw [step_log hs, hI, Option.map_some, List.flatMap_append, List.append_assoc]

end

/-! ### A concrete run -/

def shipping : CmdHandler :=
  { startup with aof := some ⟨some []⟩, clientTable := { slaves := some ((AList.singleton 7 ()).insert 8 ()) } }

theorem shipping_apart {s : Nat} (hs : s ∈ shipping.clientTable.listSlave) : Apart s shipping where
  registry := ⟨fun _ _ he => (by cases he), fun _ _ hid => (by cases hid)⟩
  channels := fun _ _ hl => by cases hl
  slave := hs

theorem run_replicates_push : let labels := [ask 1 (.rpush "k" ["a"]), ask 1 (.wait 1 none)]
    (play shipping labels).messagesTo 7 = (play shipping labels).messagesTo 8 ∧
      (play shipping labels).log = some ((runCalls .blank shipping labels).flatMap Call.frames) := by
  have hserves : ∀ s ∈ shipping.clientTable.listSlave, ∀ h cmd, Serves .blank s h (ask 1 cmd) := by
    intro s hs h cmd
    refine ⟨fun c hc hown => ?_, fun _ _ _ heq => by cases heq⟩
    rw [calls_client hc] at hown
    rw [← hown] at hs
    exact absurd hs (by decide)
  have hr : Run (guarded (fun g label => Serves .blank 7 g label ∧ Serves .blank 8 g label) (Steps .blank)) shipping
      [ask 1 (.rpush "k" ["a"]), ask 1 (.wait 1 none)]
      (play shipping [ask 1 (.rpush "k" ["a"]), ask 1 (.wait 1 none)]) :=
    .cons ⟨⟨hserves 7 (by decide) _ _, hserves 8 (by decide) _ _⟩, rfl⟩
      (.cons ⟨⟨hserves 7 (by decide) _ _, hserves 8 (by decide) _ _⟩, rfl⟩ .nil)
  obtain ⟨hfirst, hsecond, hlog⟩ := run_replicates hr (shipping_apart (by decide)) (shipping_apart (by decide)) rfl
  refine ⟨?_, hlog⟩
  rw [hfirst, hsecond]
  rfl

end CmdHandler

end Redis
