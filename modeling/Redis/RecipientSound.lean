import Redis.Handoff
import Redis.Requests
import Redis.TimerSound

/-!
# Who the responses are for

The ids of clients are kept in stored requests, on the lists of the slaves, in
the channels, in the table of slaves and in the queue of responses. A step only
puts the client there whose command it handles, or one that is there already.
Of these places a disconnect purges the table of slaves only.
-/

namespace Redis

open Lib

namespace RequestRegistry

/-- Whoever has a request stored, or waits for a slave, is among these. -/
structure Clients (S : Nat → Prop) (r : RequestRegistry) : Prop where
  entry : ∀ t e, r.store.lookup t = some e → S e.clientId
  ack : ∀ slaveId id, id ∈ r.backlogAck.queueOf slaveId → S id

section
variable {S : Nat → Prop} {r r' : RequestRegistry}

theorem Clients.shrink (h : r.Clients S) (hs : Shrinks r r') : r'.Clients S :=
  ⟨fun t e he => h.entry t e (hs.store t e he), fun slaveId id hid => h.ack slaveId id ((hs.acks slaveId).mem hid)⟩

theorem Clients.setCount (h : r.Clients S) (t n : Nat) :
    ({ r with store := r.store.modify t (·.setCount n) } : RequestRegistry).Clients S := by
  refine ⟨fun t' e he => ?_, h.ack⟩
  obtain ⟨e₀, he₀, _, hc, _⟩ := lookup_setCount true he
  rw [← hc]
  exact h.entry t' e₀ he₀

theorem clients_inert (S : Nat → Prop) : Inert (Clients S) where
  session _ _ _ h := ⟨h.entry, h.ack⟩
  ticked _ h := ⟨h.entry, h.ack⟩
  disarmed _ h := ⟨h.entry, h.ack⟩
  answered _ _ h := ⟨h.entry, h.ack⟩
  removed r timestamp h := h.shrink (shrinks_remove r timestamp)
  counted _ t n h := h.setCount t n
  acked r slaveId keep h := h.shrink (shrinks_retain r slaveId keep)

theorem Clients.insert (h : r.Clients S) {timestamp deadline clientId : Nat} {kind : RequestKind} (hc : S clientId) :
    (r.insert timestamp deadline clientId kind).Clients S := by
  refine ⟨fun t e he => ?_, fun slaveId id hid => ?_⟩
  · rcases insert_lookup he with ⟨_, _, hclient, _⟩ | ⟨_, he⟩
    · rw [hclient]
      exact hc
    · exact h.entry t e he
  · obtain ⟨_, _, _, hacks⟩ := insert_queues r timestamp deadline clientId kind
    rw [hacks] at hid
    cases kind with
    | wait _ _ _ slaveIds _ =>
      have hjoined : id ∈ (slaveIds.foldl
        (fun acks j => HashMap.pushBack j clientId acks) r.backlogAck).queueOf slaveId := hid
      rcases mem_joinAcks.mp hjoined with hold | ⟨_, rfl⟩
      · exact h.ack slaveId id hold
      · exact hc
    | list | stream => exact h.ack slaveId id hid

end

end RequestRegistry

namespace CmdHandler

open RequestRegistry

inductive Mentioned (h : CmdHandler) (id : Nat) : Prop
  | stored {t e} : h.registry.store.lookup t = some e → e.clientId = id → Mentioned h id
  | owed {slaveId} : id ∈ h.registry.backlogAck.queueOf slaveId → Mentioned h id
  | subscribed {key set} : h.channels.lookup key = some set → id ∈ set → Mentioned h id
  | queued {m} : m ∈ h.responseQueue → m.1 = id → Mentioned h id

structure Addresses (h : CmdHandler) (S : Nat → Prop) : Prop where
  registry : h.registry.Clients S
  channels : ∀ key set id, h.channels.lookup key = some set → id ∈ set → S id
  queue : ∀ m ∈ h.responseQueue, S m.1
  slaves : ∀ id ∈ h.clientTable.listSlave, S id

section
variable {P : Platform} {o : IterOrder} {S : Nat → Prop} {h h' : CmdHandler} {clientId : Nat}

theorem Addresses.mentioned (ha : h.Addresses S) {id : Nat} (hm : h.Mentioned id) : S id := by
  cases hm with
  | stored he hc => exact hc ▸ ha.registry.entry _ _ he
  | owed hid => exact ha.registry.ack _ _ hid
  | subscribed hl hid => exact ha.channels _ _ _ hl hid
  | queued hm hid => exact hid ▸ ha.queue _ hm

theorem Addresses.mono {S' : Nat → Prop} (ha : h.Addresses S) (hS : ∀ id, S id → S' id) : h.Addresses S' :=
  ⟨⟨fun t e he => hS _ (ha.registry.entry t e he), fun i id hid => hS id (ha.registry.ack i id hid)⟩,
    fun key set id hl hid => hS id (ha.channels key set id hl hid), fun m hm => hS m.1 (ha.queue m hm),
    fun id hid => hS id (ha.slaves id hid)⟩

theorem queue_append {q new : List (Nat × Bytes)} (hq : ∀ m ∈ q, S m.1) (hnew : ∀ m ∈ new, S m.1) :
    ∀ m ∈ q ++ new, S m.1 := fun m hm => (List.mem_append.mp hm).elim (hq m) (hnew m)

theorem Addresses.pushAll (ha : h.Addresses S) {ids : List Nat} (hids : ∀ id ∈ ids, S id) (message : Bytes) :
    (h.pushAll ids message).Addresses S := by
  refine ⟨ha.registry, ha.channels, queue_append ha.queue fun m hm => ?_, ha.slaves⟩
  obtain ⟨id, hid, rfl⟩ := List.mem_map.mp hm
  exact hids id hid

/-! ## Commands -/

theorem mem_setSlave {t : ClientTable} {id : Nat} (hid : id ∈ (t.setSlave clientId).listSlave) :
    id = clientId ∨ id ∈ t.listSlave := by
  have hin : id ∈ AList.insert clientId () (t.slaves.getD ∅) := AList.mem_keys.mpr hid
  refine ((AList.mem_insert _).mp hin).imp_right fun hold => ?_
  unfold ClientTable.listSlave
  cases hs : t.slaves with
  | none =>
    rw [hs] at hold
    exact absurd hold (AList.notMem_empty id)
  | some set =>
    rw [hs] at hold
    exact AList.mem_keys.mp hold

theorem Effect.addresses {now : Nat} {epollFd : Option Int} {cmd : Cmd} {r : CmdResult}
    (he : Effect P o h now clientId epollFd cmd h' r) (hc : S clientId) (ha : h.Addresses S) : h'.Addresses S := by
  have hregistry : h'.registry.Clients S := he.kept (clients_inert S) (fun _ _ _ => ha.registry.insert hc) ha.registry
  cases he with
  | value | users => exact ⟨hregistry, ha.channels, ha.queue, ha.slaves⟩
  | session => exact ⟨hregistry, ha.channels, ha.queue, ha.slaves⟩
  | request _ hids =>
    exact ⟨hregistry, ha.channels, (ha.pushAll (fun id hid => ha.slaves id (hids id hid)) _).queue, ha.slaves⟩
  | slave =>
    refine ⟨hregistry, ha.channels, ha.queue, fun id hid => ?_⟩
    rcases mem_setSlave hid with rfl | hold
    · exact hc
    · exact ha.slaves id hold
  | ack _ hack =>
    obtain ⟨new, registry, rfl, _, _, hnew⟩ := cmdAck_frame hack
    refine ⟨hregistry, ha.channels, queue_append ha.queue fun m hm => ?_, ha.slaves⟩
    obtain ⟨ids, hl, hid⟩ := hnew m hm
    refine ha.registry.ack clientId m.1 ?_
    unfold HashMap.queueOf
    rw [hl]
    exact hid
  | channels hchannels =>
    refine ⟨hregistry, fun key set id hl hid => ?_, ha.queue, ha.slaves⟩
    rcases hchannels key set id hl hid with rfl | ⟨set', hl', hid'⟩
    · exact hc
    · exact ha.channels key set' id hl' hid'
  | publish hl hids =>
    exact ha.pushAll (fun id hid => ha.channels _ _ id hl (hids id hid)) _

theorem handle_addresses {cmd : Except CustomError Cmd} {buf : Bytes} {epollFd : Int} {out : Except Bytes Bytes}
    (hh : h.handle P o cmd buf clientId epollFd = some (h', out)) (hc : S clientId) (ha : h.Addresses S) :
    h'.Addresses S := by
  refine handle_inv (I := fun g => g.Addresses S) (fun g t w hg => ?_) (fun x hx hg => ?_) hh ha
  · exact ⟨(clients_inert S).session _ t w hg.registry, hg.channels, hg.queue, hg.slaves⟩
  · have hclient : S x.clientId := by
      rw [hx.client]
      exact hc
    rcases hx.effect with hsame | ⟨s, dispatched, r, fd, m, ser, heff, hcon, _, _⟩
    · rw [hsame]
      exact hg
    · have hprep : (x.before.prepared x.cmd s).Addresses S :=
        ⟨prepared_kept (clients_inert S) x.cmd s hg.registry, hg.channels, hg.queue, hg.slaves⟩
      have hdispatched := heff.addresses hclient hprep
      obtain ⟨ids, _, _, _, _, hids, hafter⟩ := conclude_frame hcon
      have hpushed := hdispatched.pushAll (fun id hid => hdispatched.slaves id (hids id hid)) x.buf
      rw [hafter]
      exact ⟨hpushed.registry, hpushed.channels, hpushed.queue, hpushed.slaves⟩

/-! ## The backlogs and the timer -/

theorem backlogTask_addresses {entry : RequestEntry} (hc : S entry.clientId) (ha : h.Addresses S) :
    (h.backlogTask entry).Addresses S := by
  have hregistry := (clients_inert S).takes (backlogTask_takes h entry) ha.registry
  have hqueue : ∀ m ∈ (h.backlogTask entry).responseQueue, S m.1 := by
    rw [backlogTask_queue]
    refine queue_append ha.queue fun m hm => ?_
    obtain ⟨_, _, rfl⟩ := List.mem_map.mp hm
    exact hc
  obtain ⟨_, _, _, hframe⟩ := backlogTask_frame h entry
  exact ⟨hregistry, by rw [hframe]; exact ha.channels, hqueue, by rw [hframe]; exact ha.slaves⟩

theorem serve_addresses (served : RequestKind → Bool) (ts : List Nat) (ha : h.Addresses S) :
    (h.serve served ts).Addresses S := by
  refine serve_inv (I := fun g => g.Addresses S) ?_ fun g t entry _ he hg =>
    backlogTask_addresses (ha.registry.entry t entry he) hg
  refine ⟨?_, ha.channels, ha.queue, ha.slaves⟩
  simp only
  rw [takeOut_registry]
  exact (clients_inert S).takes (.foldl_remove ts _) ha.registry

theorem serveBacklogList_addresses (o : IterOrder) (ha : h.Addresses S) : (h.serveBacklogList o).Addresses S := by
  unfold serveBacklogList
  split
  · have hserved := serve_addresses RequestKind.isList (h.listTimestamps o) ha
    exact ⟨hserved.registry, hserved.channels, hserved.queue, hserved.slaves⟩
  · exact ha

theorem serveBacklogStream_addresses (o : IterOrder) (ha : h.Addresses S) : (h.serveBacklogStream o).Addresses S := by
  unfold serveBacklogStream
  split
  · have hserved := serve_addresses RequestKind.isStream (h.streamTimestamps o) ha
    exact ⟨hserved.registry, hserved.channels, hserved.queue, hserved.slaves⟩
  · exact ha

theorem deadlineTask_addresses {entry : RequestEntry} (hd : h.deadlineTask entry = some h') (hc : S entry.clientId)
    (ha : h.Addresses S) : h'.Addresses S := by
  have hregistry := (clients_inert S).takes (deadlineTask_takes hd) ha.registry
  have hone : ∀ message : Bytes, ∀ m ∈ [(entry.clientId, message)], S m.1 := fun message m hm => by
    rw [List.mem_singleton.mp hm]
    exact hc
  obtain ⟨_, rfl⟩ := deadlineTask_cases hd
  exact ⟨hregistry, ha.channels, queue_append ha.queue (hone _), ha.slaves⟩

theorem callbackDeadlineExpire_addresses (hc : h.callbackDeadlineExpire = some h') (ha : h.Addresses S) :
    h'.Addresses S := by
  obtain ⟨_, t, _, ⟨entry, he, hd⟩ | ⟨_, rfl⟩⟩ := callbackDeadlineExpire_cases hc
  · have hremoved : { h with registry := (h.registry.remove t).1 }.Addresses S :=
      ⟨(clients_inert S).removed _ t ha.registry, ha.channels, ha.queue, ha.slaves⟩
    exact deadlineTask_addresses hd (ha.registry.entry t entry he) hremoved
  · exact ha

end

end CmdHandler

namespace Server

open CmdHandler RequestRegistry

/-- The client that disconnects is mentioned nowhere. -/
def LeavesNothing (P : Platform) (s : Server) (e : Event) : Prop :=
  ∀ s', Steps P s e s' → ∀ fd ∈ s.clients, fd ∉ s'.clients → ¬ s'.handler.Mentioned fd

/-- Each response that a service of the backlogs leaves in the queue is for a client that is there. -/
def Delivers (s : Server) : Prop :=
  ∀ o o', ∀ m ∈ ((s.handler.serveBacklogList o).serveBacklogStream o').responseQueue, m.1 ∈ s.clients

def Live (s : Server) : Prop := s.handler.Addresses (· ∈ s.clients)

section
variable {P : Platform} {s s' : Server} {fd : Nat}

theorem Live.delivers (h : s.Live) : s.Delivers := fun o o' =>
  (serveBacklogStream_addresses o' (serveBacklogList_addresses o h)).queue

theorem mem_insert_clients {id : Nat} (client : TcpClient) (hid : id ∈ s.clients) : id ∈ s.clients.insert fd client :=
  (AList.mem_insert _).mpr (.inr hid)

theorem Live.insert (h : s.Live) (client : TcpClient) : s.handler.Addresses (· ∈ s.clients.insert fd client) :=
  h.mono fun _ => mem_insert_clients client

theorem mem_removeClient {t : ClientTable} {id : Nat} (hid : id ∈ (t.removeClient fd).listSlave) :
    id ≠ fd ∧ id ∈ t.listSlave := by
  unfold ClientTable.removeClient ClientTable.listSlave at hid
  unfold ClientTable.listSlave
  cases hs : t.slaves with
  | none =>
    rw [hs] at hid
    cases hid
  | some set =>
    rw [hs] at hid
    exact AList.mem_erase.mp hid

theorem mentioned_disconnect {id : Nat} (hm : s.handler.Mentioned id) : (s.disconnect fd).handler.Mentioned id := by
  cases hm with
  | stored he hc => exact .stored he hc
  | owed hid => exact .owed hid
  | subscribed hl hid => exact .subscribed hl hid
  | queued hm hid => exact .queued hm hid

theorem Live.disconnect (h : s.Live) (hfd : ¬ s.handler.Mentioned fd) : (s.disconnect fd).Live := by
  have hstays : ∀ id, s.handler.Mentioned id → id ∈ (s.disconnect fd).clients := fun id hm =>
    AList.mem_erase.mpr ⟨fun heq => hfd (heq ▸ hm), h.mentioned hm⟩
  refine ⟨⟨fun t e he => hstays _ (.stored he rfl), fun i id hid => hstays _ (.owed hid)⟩,
    fun key set id hl hid => hstays _ (.subscribed hl hid), fun m hm => hstays _ (.queued hm rfl), fun id hid => ?_⟩
  obtain ⟨hne, hold⟩ := mem_removeClient hid
  exact AList.mem_erase.mpr ⟨hne, h.slaves id hold⟩

theorem Live.leave {e : Event} {u : Server} (hu : u.Live) (hleaves : LeavesNothing P s e)
    (hs : Steps P s e (u.disconnect fd)) (hfd : fd ∈ u.clients → fd ∈ s.clients) : (u.disconnect fd).Live := by
  refine hu.disconnect fun hm => ?_
  have hgone : fd ∉ (u.disconnect fd).clients := fun hin => (AList.mem_erase.mp hin).1 rfl
  exact hleaves _ hs fd (hfd (hu.mentioned hm)) hgone (mentioned_disconnect hm)

theorem respond_addresses {S : Nat → Prop} {o : IterOrder} {client client' : TcpClient} {h h' : CmdHandler}
    {epollFd : Int}
    {t : RespType} {reply : Bytes} (hr : client.respond P o h fd epollFd t = some (client', h', reply)) (hfd : S fd)
    (ha : h.Addresses S) : h'.Addresses S := by
  rcases TcpClient.respond_cases hr with ⟨clientTable, _, hslaves, rfl⟩ | ⟨_, _, _, _, hh⟩
  · refine ⟨ha.registry, ha.channels, ha.queue, fun id hid => ha.slaves id ?_⟩
    unfold ClientTable.listSlave at hid ⊢
    rwa [← hslaves]
  · exact handle_addresses hh hfd ha

theorem step_live {e : Event} (hs : Steps P s e s') (hleaves : LeavesNothing P s e) (h : s.Live) : s'.Live := by
  cases step_happens hs with
  | @accepted fd =>
    have hmore : s.handler.Addresses (· ∈ s.clients.insert fd {}) := h.insert {}
    exact ⟨hmore.registry, hmore.channels, hmore.queue, hmore.slaves⟩
  | nobody | gone => exact h
  | read | waits => exact h.insert _
  | failed => exact h.leave hleaves hs id
  | hungUp => exact h.leave hleaves hs id
  | @turned _ _ _ fd _ _ _ client' handler reply hreading hclient _ _ hr =>
    have hfd : fd ∈ s.clients := HashMap.mem_of_lookup hclient
    have hhandled : Live { s with clients := s.clients.insert fd client', handler } :=
      respond_addresses hr ((AList.mem_insert _).mpr (.inl rfl)) (h.insert client')
    rcases writeReply_cases { s with clients := s.clients.insert fd client', handler } fd reply _ with
      hends | ⟨_, hwritten⟩
    · rw [hends] at hs ⊢
      exact hhandled.leave hleaves hs fun _ => hfd
    · rw [hwritten]
      exact hhandled
  | expired _ _ _ hc =>
    have hdisarmed : s.handler.disarm.Addresses (· ∈ s.clients) :=
      ⟨(clients_inert _).disarmed _ h.registry, h.channels, h.queue, h.slaves⟩
    exact callbackDeadlineExpire_addresses hc hdisarmed
  | @ended o o' _ _ hhandler =>
    have hserved := serveBacklogStream_addresses o' (serveBacklogList_addresses o h)
    rw [← hhandler] at hserved
    exact ⟨hserved.registry, hserved.channels, fun m hm => absurd hm List.not_mem_nil, hserved.slaves⟩

theorem live_new {timer : Timer} {appStates : AppStates} (hnew : s.handler = .new timer appStates) : s.Live := by
  unfold Live
  rw [hnew]
  refine ⟨⟨fun t e he => ?_, fun i id hid => ?_⟩, fun key set id hl => ?_, fun m hm => ?_, fun id hid => ?_⟩
  · cases he
  · cases hid
  · cases hl
  · cases hm
  · cases hid

/-- As long as every client that disconnects is mentioned nowhere, each response
that is in the queue when it is written out is for a client that is there. -/
theorem run_recipients {start : Server} {timer : Timer} {appStates : AppStates}
    (hnew : start.handler = .new timer appStates)
    {es : List Event} (hr : Run (guarded (LeavesNothing P) (Steps P)) start es s) : s.Delivers := by
  have hlive : s.Live := hr.inv (fun _ _ _ _ h hs => step_live hs.2 hs.1 h) (live_new hnew)
  exact hlive.delivers

theorem LeavesNothing.of_kept {e : Event} (hs : Steps P s e s') (hkept : ∀ fd, fd ∈ s.clients → fd ∈ s'.clients) :
    LeavesNothing P s e := by
  intro u hu fd hin hout
  rw [Steps, hs] at hu
  cases hu
  exact absurd (hkept fd hin) hout

end

/-! ### Concrete runs -/

def leavesNothing (s : Server) : Event → Bool
  | .hangup fd =>
    (s.handler.registry.store.values.all fun e => e.clientId ≠ fd) &&
      (s.handler.registry.backlogAck.values.all fun ids => fd ∉ ids) &&
      (s.handler.channels.values.all fun set => fd ∉ set) && s.handler.responseQueue.all fun m => m.1 ≠ fd
  | e => (s.step .blank e).all fun s' => s.clients.keys.all fun fd => fd ∈ s'.clients

theorem LeavesNothing.of_check {s s' : Server} {e : Event} (hs : Steps .blank s e s') (hc : leavesNothing s e = true) :
    LeavesNothing .blank s e := by
  have hkept : ((s.step .blank e).all fun s' => s.clients.keys.all fun fd => fd ∈ s'.clients) = true →
      LeavesNothing .blank s e := by
    intro hall
    rw [show s.step .blank e = some s' from hs, Option.all_some, List.all_eq_true] at hall
    exact .of_kept hs fun fd hin => of_decide_eq_true (hall fd (AList.mem_keys.mp hin))
  cases e with
  | hangup fd =>
    simp only [leavesNothing, Bool.and_eq_true, List.all_eq_true, decide_eq_true_eq] at hc
    obtain ⟨⟨⟨hstored, howed⟩, hchannels⟩, hqueue⟩ := hc
    intro u hu fd' hin hout hm
    have hu' : s.hangup fd = u := by
      have hstep : (if s.reading = none then some (s.hangup fd) else none) = some u := hu
      split at hstep
      · exact Option.some.inj hstep
      · cases hstep
    unfold hangup at hu'
    split at hu'
    · rw [← hu'] at hout
      exact hout hin
    · rw [← hu'] at hout hm
      have hsame : fd' = fd := by
        by_contra hne
        exact hout (AList.mem_erase.mpr ⟨hne, hin⟩)
      rw [hsame] at hm
      cases hm with
      | stored he heq => exact hstored _ (HashMap.mem_values.mpr ⟨_, he⟩) heq
      | @owed slaveId hid =>
        have howed' : fd ∈ (s.handler.registry.backlogAck.lookup slaveId).getD [] := hid
        cases hl : s.handler.registry.backlogAck.lookup slaveId with
        | none =>
          rw [hl] at howed'
          cases howed'
        | some ids =>
          rw [hl] at howed'
          exact howed _ (HashMap.mem_values.mpr ⟨_, hl⟩) howed'
      | subscribed hl hid => exact hchannels _ (HashMap.mem_values.mpr ⟨_, hl⟩) hid
      | queued hm heq => exact hqueue _ hm heq
  | _ => exact hkept hc

/-- A message waits in the queue for the client 6, and the client 5 that sent it leaves. -/
def publisherLeaves : List Event :=
  [.accept 5, .accept 6, .read 6 (utf8 "*2\r\n$9\r\nSUBSCRIBE\r\n$2\r\nch\r\n"), .turn .asIs 40 true,
    .turn .asIs 40 true, .endOfCycle .asIs .asIs,
    .read 5 (utf8 "*3\r\n$7\r\nPUBLISH\r\n$2\r\nch\r\n$1\r\nm\r\n"), .turn .asIs 40 true, .turn .asIs 40 true,
    .hangup 5]

theorem run_recipients_publish : ∃ s s' message,
    Run (guarded (LeavesNothing .blank) (Steps .blank)) fresh publisherLeaves s ∧
    5 ∉ s.clients ∧ s.handler.responseQueue = [(6, message)] ∧ s.Delivers ∧
    Steps .blank s (.endOfCycle .asIs .asIs) s' ∧ s'.handler.responseQueue = [] ∧ (6, message) ∈ s'.sent := by
  have hafter : (publisherLeaves.foldlM (fun s e => if leavesNothing s e then s.step .blank e else none) fresh).map
      (fun s => (decide (5 ∈ s.clients), s.handler.responseQueue.map Prod.fst,
        (s.step .blank (.endOfCycle .asIs .asIs)).map fun s' =>
          (s'.handler.responseQueue.length, decide (∀ m ∈ s.handler.responseQueue, m ∈ s'.sent)))) =
      some (false, [6], some (0, true)) := by decide +kernel
  obtain ⟨s, hs, hv⟩ := Option.map_eq_some_iff.mp hafter
  simp only [Prod.mk.injEq, Option.map_eq_some_iff] at hv
  obtain ⟨hgone, hqueue, s', hend, hempty, hsent⟩ := hv
  obtain ⟨⟨id, message⟩, hone, hid⟩ := List.map_eq_singleton_iff.mp hqueue
  obtain rfl : id = 6 := hid
  have hrun : Run (guarded (LeavesNothing .blank) (Steps .blank)) fresh publisherLeaves s :=
    .of_checked (fun _ _ _ => .of_check) hs
  have hwritten : (6, message) ∈ s'.sent :=
    of_decide_eq_true hsent (6, message) (by rw [hone]; exact List.mem_singleton_self _)
  exact ⟨s, s', message, hrun, of_decide_eq_false hgone, hone, run_recipients rfl hrun, hend,
    List.length_eq_zero_iff.mp hempty, hwritten⟩

def subscriberGone : List Event :=
  [.accept 5, .accept 6, .read 5 (utf8 "*2\r\n$9\r\nSUBSCRIBE\r\n$2\r\nch\r\n"), .turn .asIs 40 true,
    .turn .asIs 40 true, .endOfCycle .asIs .asIs, .hangup 5, .endOfCycle .asIs .asIs,
    .read 6 (utf8 "*3\r\n$7\r\nPUBLISH\r\n$2\r\nch\r\n$1\r\nm\r\n"), .turn .asIs 40 true, .turn .asIs 40 true]

/-- Its message stops the server. -/
theorem publish_undeliverable : ∃ s, Run (Steps .blank) fresh subscriberGone s ∧ s.reading = none ∧ ¬ s.Delivers ∧
    s.step .blank (.endOfCycle .asIs .asIs) = none := by
  have hafter : (subscriberGone.foldlM (step .blank) fresh).map (fun s =>
      (s.reading, ((s.handler.serveBacklogList .asIs).serveBacklogStream .asIs).responseQueue.map Prod.fst,
        decide (5 ∈ s.clients), (s.step .blank (.endOfCycle .asIs .asIs)).isSome)) =
            some (none, [5], false, false) := by
    decide +kernel
  obtain ⟨s, hs, hv⟩ := Option.map_eq_some_iff.mp hafter
  rw [Prod.mk.injEq, Prod.mk.injEq, Prod.mk.injEq] at hv
  obtain ⟨hreading, hqueue, hgone, hstep⟩ := hv
  refine ⟨s, .of_foldlM hs, hreading, fun hd => ?_,
    Option.not_isSome_iff_eq_none.mp (by rw [hstep]; exact Bool.false_ne_true)⟩
  obtain ⟨m, hm, hid⟩ := List.mem_map.mp (hqueue ▸ List.mem_singleton_self 5)
  have hin := hd .asIs .asIs m hm
  rw [hid] at hin
  exact of_decide_eq_false hgone hin

end Server

end Redis
