import Redis.FollowSound
import Redis.Handshake
import Redis.RecipientSound

/-!
# A replica connects to its master

The bytes each way come in order. Whatever else the two do in between, the
handshake is over when nine values have been read: before, one of them can go
on, and after, the master has the replica as a slave and the replica has its
master.
-/

namespace Redis

open Lib

def AppStates.Counted (s s' : AppStates) : Prop := s' = s ∨ ∃ count : Nat, s' = s.hostAddBytesCount count

theorem AppStates.Counted.stats {I : Option ReplStats → Prop}
    (hadd : ∀ x (count : Nat), I x → I (x.map (·.addBytesCount count))) {s s' : AppStates} (hc : s.Counted s')
    (hI : I s.hostStats) : I s'.hostStats := by
  rcases hc with rfl | ⟨count, rfl⟩
  · exact hI
  · exact hadd _ _ hI

namespace CmdHandler

/-- Somebody else acts, and the connection of the client stays. -/
structure Others (id : Nat) (h : CmdHandler) (label : IterOrder × Event) : Prop where
  others : ∀ cmd buf other fd, label.2 = .handle cmd buf other fd → other ≠ id
  master : ∀ clientTable appStates auth, label.2 = .process clientTable appStates auth →
    (clientTable.master = some id ↔ h.clientTable.master = some id)
  slave : ∀ clientTable appStates auth, label.2 = .process clientTable appStates auth →
    (id ∈ clientTable.listSlave ↔ id ∈ h.clientTable.listSlave)
  states : ∀ clientTable appStates auth, label.2 = .process clientTable appStates auth → appStates = h.appStates
  auth : ∀ clientTable appStates auth, label.2 = .process clientTable appStates auth → id ∈ auth.clients

section
variable {P : Platform} {o : IterOrder} {id clientId : Nat} {h h' : CmdHandler} {label : IterOrder × Event}

/-! ## The counter -/

theorem prepare_counted {cmd : Cmd} {buf : Bytes} {isMaster : Bool} (hp : h.prepare cmd buf isMaster = some h') :
    h.appStates.Counted h'.appStates := by
  unfold prepare countWrite at hp
  split at hp
  · obtain ⟨_, _, rfl⟩ := Option.map_eq_some_iff.mp hp
    exact .inr ⟨_, rfl⟩
  · cases hp
    exact .inl rfl

theorem conclude_counted {cmd : Cmd} {buf : Bytes} {isMaster serialized : Bool} {r : CmdResult}
    {out : Except CmdOutput CmdOutput} (hc : h.conclude o cmd buf isMaster serialized r = some (h', out)) :
    h.appStates.Counted h'.appStates := by
  have hcount : ∀ g : CmdHandler, g.appStates.Counted (g.countFromMaster buf isMaster).appStates := by
    intro g
    unfold countFromMaster
    split
    · exact .inr ⟨_, rfl⟩
    · exact .inl rfl
  cases r with
  | error e =>
    cases hc
    exact hcount h
  | ok resp =>
    cases resp with
    | none =>
      cases hc
      exact .inl rfl
    | some resp =>
      have hprop : ∀ g : CmdHandler, (g.propagate o cmd buf).appStates = g.appStates := by
        intro g
        obtain ⟨_, _, _, hf⟩ := propagate_frame (o := o) g cmd buf
        rw [hf]
        rfl
      have hafter := hcount
        ({ h with flagBacklogList := cmd.isFlagList, flagBacklogStream := cmd.isFlagStream }.propagate o cmd buf)
      rw [hprop] at hafter
      simp only [conclude] at hc
      split at hc
      · split at hc
        · obtain ⟨_, _, heq⟩ := Option.map_eq_some_iff.mp hc
          rw [← (Prod.mk.inj heq).1]
          exact hafter
        · cases hc
          exact hafter
      · cases hc
        exact hafter

theorem step_stats {I : Option ReplStats → Prop} (hadd : ∀ x (count : Nat), I x → I (x.map (·.addBytesCount count)))
    (hs : Steps P h label h') (hothers : Others id h label) (hI : I h.appStates.hostStats) :
    I h'.appStates.hostStats := by
  refine step_calls_only (I := fun g _ => I g.appStates.hostStats) hs (fun _ _ _ hg => hg) (fun _ _ _ hg => hg)
    (fun c cs hc hm hg => ?_) (fun hhandle hg => ?_) hI
  · obtain ⟨_, _, exec, s, d, fd, ser, out, hp, _, hexec, hd, hc⟩ := hm
    have hprepared := (prepare_counted hp).stats hadd hg
    rw [← (dispatch_effect hexec hd).statics.1] at hprepared
    exact (conclude_counted hc).stats hadd hprepared
  · obtain ⟨o, e⟩ := label
    by_cases hprocess : ∃ clientTable appStates auth, e = .process clientTable appStates auth
    · obtain ⟨clientTable, appStates, auth, rfl⟩ := hprocess
      have hsame := hothers.states _ _ _ rfl
      cases hs
      rw [hsame]
      exact hg
    · obtain ⟨_, _, _, _, _, rfl⟩ := step_frame hs hhandle fun ct as au heq => hprocess ⟨ct, as, au, heq⟩
      exact hg

/-! ## Who is the master, and who is a slave -/

theorem step_table (hs : Steps P h label h') (hothers : Others id h label) :
    (h'.clientTable.master = some id ↔ h.clientTable.master = some id) ∧
    (id ∈ h.clientTable.listSlave → id ∈ h'.clientTable.listSlave) := by
  have hstart : (h.clientTable.master = some id ↔ h.clientTable.master = some id) ∧
      (id ∈ h.clientTable.listSlave → id ∈ h.clientTable.listSlave) := ⟨Iff.rfl, fun hin => hin⟩
  refine step_calls_only (I := fun g _ => (g.clientTable.master = some id ↔ h.clientTable.master = some id) ∧
    (id ∈ h.clientTable.listSlave → id ∈ g.clientTable.listSlave)) hs (fun _ _ _ hg => hg) (fun _ _ _ hg => hg)
    (fun c cs hc hm hg => ?_) (fun hhandle hg => ?_) hstart
  · have hgrows := hm.grows
    obtain ⟨_, _, exec, s, d, fd, ser, out, _, _, hexec, hd, hc⟩ := hm
    have hmaster : d.clientTable.master = c.before.clientTable.master := (dispatch_effect hexec hd).master
    obtain ⟨_, _, _, _, _, _, hafter⟩ := conclude_frame hc
    have hafterMaster : c.after.clientTable.master = c.before.clientTable.master := by
      rw [hafter]
      exact hmaster
    rw [hafterMaster]
    exact ⟨hg.1, fun hin => hgrows.slaves _ (hg.2 hin)⟩
  · obtain ⟨o, e⟩ := label
    by_cases hprocess : ∃ clientTable appStates auth, e = .process clientTable appStates auth
    · obtain ⟨clientTable, appStates, auth, rfl⟩ := hprocess
      have hmaster := hothers.master _ _ _ rfl
      have hslave := hothers.slave _ _ _ rfl
      cases hs
      exact ⟨hmaster, hslave.mpr⟩
    · obtain ⟨_, _, _, _, _, rfl⟩ := step_frame hs hhandle fun ct as au heq => hprocess ⟨ct, as, au, heq⟩
      exact hg

theorem step_addresses (hs : Steps P h label h') (hothers : Others id h label) (ha : h.Addresses (· ≠ id)) :
    h'.Addresses (· ≠ id) := by
  obtain ⟨o, e⟩ := label
  cases e with
  | handle cmd buf other fd =>
    obtain ⟨⟨g, out⟩, hh, rfl⟩ := Option.map_eq_some_iff.mp hs
    exact handle_addresses hh (hothers.others _ _ _ _ rfl) ha
  | serveBacklogList =>
    cases hs
    exact serveBacklogList_addresses o ha
  | serveBacklogStream =>
    cases hs
    exact serveBacklogStream_addresses o ha
  | expire =>
    have hdisarmed : h.disarm.Addresses (· ≠ id) :=
      ⟨(RequestRegistry.clients_inert _).disarmed _ ha.registry, ha.channels, ha.queue, ha.slaves⟩
    exact callbackDeadlineExpire_addresses (step_expire hs).2 hdisarmed
  | process clientTable appStates auth =>
    have hslave := hothers.slave _ _ _ rfl
    cases hs
    refine ⟨ha.registry, ha.channels, ha.queue, ?_⟩
    intro other hin heq
    rw [heq] at hin
    exact ha.slaves id (hslave.mp hin) rfl

theorem step_apart (hs : Steps P h label h') (hothers : Others id h label) (ha : Apart id h) : Apart id h' := by
  have hserves : Serves P id h label := by
    refine ⟨fun c hc hown => ?_, fun clientTable appStates auth hlabel => ?_⟩
    · obtain ⟨cmd, buf, fd, hlabel⟩ := calls_handle hc
      exact absurd hown (hothers.others _ _ _ _ hlabel)
    · exact (hothers.slave _ _ _ hlabel).mpr ha.slave
  exact (step_ships hs hserves ha).1

end

end CmdHandler

/-- A master, its end of the connection, a replica, and the bytes under way between
them. -/
structure Dial where
  master : CmdHandler
  client : TcpClient
  replica : Replica
  /-- to the master -/
  up : Bytes
  /-- to the replica -/
  down : Bytes

namespace Dial

open CmdHandler

inductive Event where
  /-- The master reads a value. -/
  | request (o : IterOrder)
  /-- The replica reads a value. -/
  | reply (o : IterOrder)
  /-- The master writes out what is queued. -/
  | flush
  | master (label : IterOrder × CmdHandler.Event)
  | replica (label : IterOrder × CmdHandler.Event)

def Event.reads : Event → Bool
  | .request _ | .reply _ => true
  | _ => false

inductive Steps (P : Platform) (s m : Nat) (fd fd' : Int) (d : Dial) : Event → Dial → Prop
  | request {o t rest client master b} : Yields d.client.parseRdb d.up t rest →
    d.client.respond P o d.master s fd t = some (client, master, b) →
    Steps P s m fd fd' d (.request o) { d with client, master, up := rest, down := d.down ++ b }
  | reply {o t rest replica b} : Yields d.replica.link.parseRdb d.down t rest →
    d.replica.step P m fd' (.frame o t) = some (replica, b) →
    Steps P s m fd fd' d (.reply o) { d with replica, up := d.up ++ b, down := rest }
  | flush : Steps P s m fd fd' d .flush
    { d with master := { d.master with responseQueue := d.master.responseQueue.filter fun x => x.1 ≠ s },
             down := d.down ++ (d.master.messagesTo s).flatten }
  | master {label h'} : d.master.Steps P label h' → Steps P s m fd fd' d (.master label) { d with master := h' }
  | replica {label r'} : d.replica.Steps P m fd' (.other label) r' →
    Steps P s m fd fd' d (.replica label) { d with replica := r' }

def Counts (h : CmdHandler) : Prop := ∀ stats, h.appStates.hostStats = some stats → stats.offset < 2 ^ 63

structure Kept (s m : Nat) (d : Dial) (e : Event) : Prop where
  counts : Counts d.master
  master : ∀ label, e = .master label → Others s d.master label
  replica : ∀ label, e = .replica label → Others m d.replica.handler label

structure Ready (s m : Nat) (d : Dial) : Prop where
  served : Admitted s d.master
  table : d.master.clientTable.master ≠ some s
  stats : ∃ stats, d.master.appStates.hostStats = some stats
  client : d.client.replState.status = none ∧ d.client.parseRdb = false
  admitted : Admitted m d.replica.handler
  link : d.replica.link.replState = { status := some .master }
  port : ∃ stats port, d.replica.handler.appStates.hostStats = some stats ∧ stats.port = some port ∧ port < 2 ^ 16

/-- How far the handshake is: with the values that have to be read. -/
inductive Phase (s m : Nat) (d : Dial) : Nat → Prop
  | asked (q : Request) : q.Fits → d.replica.link.handshakeState = q.state → d.replica.link.parseRdb = false →
    d.master.Addresses (· ≠ s) → d.up = q.value.frame → d.down = [] → Phase s m d (q.left + 1)
  | answered (q : Request) (offset : Int) : q ≠ .psync → d.replica.link.handshakeState = q.state →
    d.replica.link.parseRdb = false → d.master.Addresses (· ≠ s) → d.up = [] → d.down = (q.answer offset).frame →
    Phase s m d q.left
  | resync (offset : Int) (rest : Bytes) : offset < 2 ^ 63 → d.replica.link.handshakeState = .psync →
    d.replica.link.parseRdb = false → Apart s d.master → d.up = [] →
    d.down = (Request.fullresync offset).frame ++ (Request.snapshot.frame ++ rest) → Phase s m d 2
  | snapshot (rest : Bytes) : d.replica.link.handshakeState = .established → d.replica.link.parseRdb = true →
    Apart s d.master → d.replica.handler.clientTable.master = some m → d.up = [] →
    d.down = Request.snapshot.frame ++ rest → Phase s m d 1
  | done : d.replica.link.handshakeState = .established → s ∈ d.master.clientTable.listSlave →
    d.replica.handler.clientTable.master = some m → Phase s m d 0

section
variable {P : Platform} {o : IterOrder} {s m n : Nat} {fd fd' : Int} {d d' : Dial}

/-! ## The master reads a request -/

theorem served_ready {q : Request} {b : Bytes} (hr : Ready s m d) :
    Ready s m { d with master := q.served d.master s, up := [], down := b } := by
  refine ⟨⟨hr.served.auth, hr.served.idle, hr.served.allowed⟩, ?_, hr.stats, hr.client, hr.admitted, hr.link, hr.port⟩
  cases q <;> exact hr.table

theorem served_addresses {q : Request} (hq : q ≠ .psync) {h : CmdHandler} (ha : h.Addresses (· ≠ s)) :
    (q.served h s).Addresses (· ≠ s) := by
  have hregistry : (q.served h s).registry.Clients (· ≠ s) :=
    prepared_kept (RequestRegistry.clients_inert _) q.cmd h.appStates ha.registry
  refine ⟨hregistry, ha.channels, ha.queue, ?_⟩
  cases q with
  | ping | listeningPort | capa => exact ha.slaves
  | psync => exact absurd rfl hq

theorem mem_setSlave_self (t : ClientTable) : s ∈ (t.setSlave s).listSlave :=
  AList.mem_keys.mpr ((AList.mem_insert _).mpr (.inl rfl))

/-- PSYNC makes a slave of a client that nothing else is for. -/
theorem served_apart {h : CmdHandler} (ha : h.Addresses (· ≠ s)) : Apart s (Request.psync.served h s) where
  registry := prepared_kept (RequestRegistry.clients_inert _) (Cmd.psync "?" (-1)) h.appStates ha.registry
  channels := fun key set hl hin => ha.channels key set s hl hin rfl
  slave := mem_setSlave_self _

theorem Phase.request (hp : Phase s m d n) (hn : 0 < n) (hr : Ready s m d) (hc : Counts d.master)
    (hs : Steps P s m fd fd' d (.request o) d') : Phase s m d' (n - 1) ∧ Ready s m d' := by
  cases hs with
  | @request _ t rest client master b hy hrespond =>
    cases hp with
    | asked q hq hstate hparse haddr hup hdown =>
      rw [hr.client.2, hup] at hy
      have hread : Yields false q.value.frame q.value [] :=
        (Request.wellFormed hq).yieldsAlone (Request.wellFormed hq).serialize
      obtain ⟨rfl, rfl⟩ := hy.unique hread
      obtain ⟨stats, hstats⟩ := hr.stats
      rw [Request.respond_request hr.served hr.table hstats hr.client.1 hq] at hrespond
      cases hrespond
      rw [hdown, List.nil_append]
      refine ⟨?_, served_ready hr⟩
      by_cases hlast : q = .psync
      · subst hlast
        have hanswer : (Request.answer stats.offset .psync).frame =
            (Request.fullresync stats.offset).frame ++ (Request.snapshot.frame ++ []) := by
          rw [List.append_nil]
          rfl
        exact .resync stats.offset [] (hc stats hstats) hstate hparse (served_apart haddr) rfl hanswer
      · exact .answered q stats.offset hlast hstate hparse (served_addresses hlast haddr) rfl rfl
    | answered _ _ _ _ _ _ hup | resync _ _ _ _ _ _ hup | snapshot _ _ _ _ _ hup =>
      rw [hup] at hy
      exact absurd hy not_yields_nil
    | done => cases hn

/-! ## The replica reads an answer -/

theorem wellFormed_answer {q : Request} {offset : Int} (hq : q ≠ .psync) : (q.answer offset).WellFormed := by
  cases q with
  | ping | listeningPort | capa => exact Request.wellFormed_line (by decide)
  | psync => exact absurd rfl hq

theorem left_next {q : Request} {port : Nat} (hq : q ≠ .psync) : q.left - 1 = (q.next port).left + 1 := by
  cases q with
  | ping | listeningPort | capa => rfl
  | psync => exact absurd rfl hq

theorem Phase.reply (hp : Phase s m d n) (hn : 0 < n) (hr : Ready s m d)
    (hs : Steps P s m fd fd' d (.reply o) d') : Phase s m d' (n - 1) ∧ (1 < n → Ready s m d') := by
  have hstatus : d.replica.link.replState.status = some .master := by rw [hr.link]
  obtain ⟨stats, port, hstats, hport, hfits⟩ := hr.port
  cases hs with
  | @reply _ t rest replica b hy hstep =>
    cases hp with
    | asked _ _ _ _ _ _ hdown =>
      rw [hdown] at hy
      exact absurd hy not_yields_nil
    | answered q offset hq hstate hparse haddr hup hdown =>
      rw [hparse, hdown] at hy
      have hread : Yields false (q.answer offset).frame (q.answer offset) [] :=
        (wellFormed_answer hq).yieldsAlone (wellFormed_answer hq).serialize
      obtain ⟨rfl, rfl⟩ := hy.unique hread
      rw [Request.step_answer hr.admitted hr.link hstate hq hstats hport] at hstep
      cases hstep
      rw [hup, List.nil_append, left_next hq]
      have hnext : (q.next port).Fits := by cases q <;> first | exact hfits | trivial
      exact ⟨.asked (q.next port) hnext rfl hparse haddr rfl rfl,
        fun _ => ⟨hr.served, hr.table, hr.stats, hr.client, hr.admitted, hr.link, stats, port, hstats, hport, hfits⟩⟩
    | resync offset rest hfit hstate hparse hslave hup hdown =>
      rw [hparse, hdown] at hy
      have hwell : (Request.fullresync offset).WellFormed := Request.wellFormed_fullresync
      obtain ⟨rfl, rfl⟩ := hy.unique (hwell.yields hwell.serialize)
      rw [Request.step_fullresync hr.admitted hstatus hstate hfit] at hstep
      cases hstep
      rw [hup, List.nil_append]
      refine ⟨.snapshot rest rfl rfl hslave rfl rfl rfl, fun _ => ?_⟩
      exact ⟨hr.served, hr.table, hr.stats, hr.client, ⟨hr.admitted.auth, hr.admitted.idle, hr.admitted.allowed⟩,
        hr.link, stats, port, hstats, hport, hfits⟩
    | snapshot rest hstate hparse hslave hmaster hup hdown =>
      rw [hparse, hdown] at hy
      have hread : Yields true (Request.snapshot.frame ++ rest) Request.snapshot rest :=
        yields_rdb (by decide) (by decide)
      obtain ⟨rfl, rfl⟩ := hy.unique hread
      rw [Request.step_snapshot hr.admitted hstatus hstate hstats] at hstep
      cases hstep
      exact ⟨.done hstate hslave.slave hmaster, fun h => absurd h (Nat.lt_irrefl 1)⟩
    | done => cases hn

/-! ## What else goes on -/

theorem messagesTo_nil {h : CmdHandler} (ha : h.Addresses (· ≠ s)) : h.messagesTo s = [] := by
  have hnil : h.responseQueue.filter (fun x => x.1 = s) = [] := by
    rw [List.filter_eq_nil_iff]
    intro x hx
    simpa using ha.queue x hx
  unfold messagesTo
  rw [hnil, List.map_nil]

theorem Phase.flush (hp : Phase s m d n) (hs : Steps P s m fd fd' d .flush d') : Phase s m d' n := by
  cases hs with
  | flush =>
    have haddresses : d.master.Addresses (· ≠ s) →
        { d.master with responseQueue := d.master.responseQueue.filter fun x => x.1 ≠ s }.Addresses (· ≠ s) :=
      fun ha => ⟨ha.registry, ha.channels, fun x hx => ha.queue x (List.mem_of_mem_filter hx), ha.slaves⟩
    cases hp with
    | asked q hq hstate hparse haddr hup hdown =>
      rw [messagesTo_nil haddr, hdown]
      exact .asked q hq hstate hparse (haddresses haddr) hup rfl
    | answered q offset hq hstate hparse haddr hup hdown =>
      rw [messagesTo_nil haddr, hdown]
      exact .answered q offset hq hstate hparse (haddresses haddr) hup (List.append_nil _)
    | resync offset rest hfit hstate hparse hslave hup hdown =>
      rw [hdown, List.append_assoc, List.append_assoc]
      exact .resync offset _ hfit hstate hparse ⟨hslave.registry, hslave.channels, hslave.slave⟩ hup rfl
    | snapshot rest hstate hparse hslave hmaster hup hdown =>
      rw [hdown, List.append_assoc]
      exact .snapshot _ hstate hparse ⟨hslave.registry, hslave.channels, hslave.slave⟩ hmaster hup rfl
    | done hstate hslave hmaster => exact .done hstate hslave hmaster

theorem Phase.master {label : IterOrder × CmdHandler.Event} {h' : CmdHandler} (hp : Phase s m d n)
    (hs : d.master.Steps P label h') (ho : Others s d.master label) : Phase s m { d with master := h' } n := by
  cases hp with
  | asked q hq hstate hparse haddr hup hdown => exact .asked q hq hstate hparse (step_addresses hs ho haddr) hup hdown
  | answered q offset hq hstate hparse haddr hup hdown =>
    exact .answered q offset hq hstate hparse (step_addresses hs ho haddr) hup hdown
  | resync offset rest hfit hstate hparse hslave hup hdown =>
    exact .resync offset rest hfit hstate hparse (step_apart hs ho hslave) hup hdown
  | snapshot rest hstate hparse hslave hmaster hup hdown =>
    exact .snapshot rest hstate hparse (step_apart hs ho hslave) hmaster hup hdown
  | done hstate hslave hmaster => exact .done hstate ((step_table hs ho).2 hslave) hmaster

theorem Phase.replica {label : IterOrder × CmdHandler.Event} {h' : CmdHandler} (hp : Phase s m d n)
    (hs : d.replica.handler.Steps P label h') (ho : Others m d.replica.handler label) :
    Phase s m { d with replica := { d.replica with handler := h' } } n := by
  have htable := (step_table hs ho).1
  cases hp with
  | asked q hq hstate hparse haddr hup hdown => exact .asked q hq hstate hparse haddr hup hdown
  | answered q offset hq hstate hparse haddr hup hdown => exact .answered q offset hq hstate hparse haddr hup hdown
  | resync offset rest hfit hstate hparse hslave hup hdown =>
      exact .resync offset rest hfit hstate hparse hslave hup hdown
  | snapshot rest hstate hparse hslave hmaster hup hdown =>
    exact .snapshot rest hstate hparse hslave (htable.mpr hmaster) hup hdown
  | done hstate hslave hmaster => exact .done hstate hslave (htable.mpr hmaster)

theorem Ready.master {label : IterOrder × CmdHandler.Event} {h' : CmdHandler} (hr : Ready s m d)
    (hs : d.master.Steps P label h') (ho : Others s d.master label) : Ready s m { d with master := h' } := by
  have hstats : ∃ stats, h'.appStates.hostStats = some stats := by
    refine step_stats (I := fun x => ∃ stats, x = some stats) (fun x count hx => ?_) hs ho hr.stats
    obtain ⟨stats, rfl⟩ := hx
    exact ⟨_, rfl⟩
  refine ⟨hr.served.step hs ho.others ho.auth, ?_, hstats, hr.client, hr.admitted, hr.link, hr.port⟩
  exact fun hmaster => hr.table ((step_table hs ho).1.mp hmaster)

theorem Ready.replica {label : IterOrder × CmdHandler.Event} {h' : CmdHandler} (hr : Ready s m d)
    (hs : d.replica.handler.Steps P label h') (ho : Others m d.replica.handler label) :
    Ready s m { d with replica := { d.replica with handler := h' } } := by
  have hport : ∃ stats port, h'.appStates.hostStats = some stats ∧ stats.port = some port ∧ port < 2 ^ 16 := by
    refine step_stats (I := fun x => ∃ stats port, x = some stats ∧ stats.port = some port ∧ port < 2 ^ 16)
      (fun x count hx => ?_) hs ho hr.port
    obtain ⟨stats, port, rfl, hport, hfits⟩ := hx
    exact ⟨_, port, congrArg some (stats.addBytesCount_eq count), hport, hfits⟩
  exact ⟨hr.served, hr.table, hr.stats, hr.client, hr.admitted.step hs ho.others ho.auth, hr.link, hport⟩

/-! ## After the handshake -/

theorem handle_slaves {h h' : CmdHandler} {cmd : Except CustomError Cmd} {buf : Bytes} {id clientId : Nat}
    {epollFd : Int}
    {out : Except Bytes Bytes} (hh : h.handle P o cmd buf clientId epollFd = some (h', out))
    (hid : id ∈ h.clientTable.listSlave) : id ∈ h'.clientTable.listSlave :=
  handle_calls (I := fun g _ => id ∈ g.clientTable.listSlave) (fun _ _ _ hg => hg) (fun _ _ _ _ hg => hg)
    (fun _ _ _ hm _ hg => hm.grows.slaves _ hg) hh hid

theorem handshakeToMaster_stays {client client' : TcpClient} {h h' : CmdHandler} {cmd : Cmd} {buf : Bytes}
    {out : Except Bytes Bytes} (hstate : client.handshakeState = .established) (hmaster : h.clientTable.master = some m)
    (hs : client.handshakeToMaster P o h cmd buf m fd = some (client', h', out)) :
    client'.handshakeState = .established ∧ h'.clientTable.master = some m := by
  by_cases hrdb : ∃ v, cmd = .rdb v
  · obtain ⟨v, rfl⟩ := hrdb
    unfold TcpClient.handshakeToMaster at hs
    rw [hstate] at hs
    simp only at hs
    split at hs <;> cases hs <;> exact ⟨rfl, hmaster⟩
  · rw [Replica.handshakeToMaster_established hstate fun v heq => hrdb ⟨v, heq⟩] at hs
    obtain ⟨⟨g, r⟩, hh, heq⟩ := Option.map_eq_some_iff.mp hs
    cases heq
    exact ⟨hstate, (handle_master hh).trans hmaster⟩

theorem established_stays {r r' : Replica} {t : RespType} {b : Bytes} (hstate : r.link.handshakeState = .established)
    (hmaster : r.handler.clientTable.master = some m) (hs : r.step P m fd (.frame o t) = some (r', b)) :
    r'.link.handshakeState = .established ∧ r'.handler.clientTable.master = some m := by
  obtain ⟨⟨link, handler, reply⟩, hr, heq⟩ := Option.map_eq_some_iff.mp hs
  cases heq
  unfold TcpClient.respond at hr
  split at hr
  · split at hr
    · cases hr
      exact ⟨hstate, hmaster⟩
    · split at hr
      · obtain ⟨⟨client, g, out⟩, hlink, heq⟩ := Option.map_eq_some_iff.mp hr
        cases heq
        exact handshakeToMaster_stays hstate hmaster hlink
      · obtain ⟨⟨g, out⟩, hh, heq⟩ := Option.map_eq_some_iff.mp hr
        cases heq
        exact ⟨hstate, (handle_master hh).trans hmaster⟩
  · obtain ⟨⟨g, out⟩, hh, heq⟩ := Option.map_eq_some_iff.mp hr
    cases heq
    exact ⟨hstate, (handle_master hh).trans hmaster⟩
  · cases hr

/-- When nothing has to be read any more, both know each other. -/
theorem Phase.connected (hp : Phase s m d n) (hn : n = 0) : d.replica.link.handshakeState = .established ∧
    s ∈ d.master.clientTable.listSlave ∧ d.replica.handler.clientTable.master = some m := by
  cases hp with
  | asked | resync | snapshot => cases hn
  | answered q => cases q <;> cases hn
  | done hstate hslave hmaster => exact ⟨hstate, hslave, hmaster⟩

theorem Phase.stays {e : Event} (hp : Phase s m d 0) (hk : Kept s m d e) (hs : Steps P s m fd fd' d e d') :
    Phase s m d' 0 := by
  obtain ⟨hstate, hslave, hmaster⟩ := hp.connected rfl
  cases hs with
  | request hy hrespond =>
    refine .done hstate ?_ hmaster
    rcases TcpClient.respond_cases hrespond with ⟨clientTable, _, hslaves, rfl⟩ | ⟨_, _, _, _, hh⟩
    · unfold ClientTable.listSlave at hslave ⊢
      rwa [hslaves]
    · exact handle_slaves hh hslave
  | reply hy hstep =>
    obtain ⟨hstate', hmaster'⟩ := established_stays hstate hmaster hstep
    exact .done hstate' hslave hmaster'
  | flush => exact .done hstate hslave hmaster
  | master hstep => exact hp.master hstep (hk.master _ rfl)
  | replica hreplica =>
    obtain ⟨_, hstep⟩ := hreplica
    obtain ⟨h', hh, heq⟩ := Option.map_eq_some_iff.mp hstep
    cases heq
    exact hp.replica hh (hk.replica _ rfl)

/-! ## Runs -/

def reads (es : List Event) : Nat := es.countP Event.reads

/-- Two ends of a new connection, with the first request under way. -/
structure Dialled (s m : Nat) (d : Dial) : Prop where
  ready : Ready s m d
  silent : d.master.Addresses (· ≠ s)
  link : d.replica.link = (TcpClient.initHandshake {}).1
  up : d.up = (TcpClient.initHandshake {}).2
  down : d.down = []

structure Goes (s m : Nat) (es : List Event) (d : Dial) : Prop where
  phase : Phase s m d (9 - reads es)
  ready : reads es < 9 → Ready s m d

theorem Dialled.goes (hd : Dialled s m d) : Goes s m [] d := by
  refine ⟨?_, fun _ => hd.ready⟩
  have hping : d.up = Request.ping.value.frame := hd.up
  refine .asked .ping trivial ?_ ?_ hd.silent hping hd.down
  · rw [hd.link]
    rfl
  · rw [hd.link]
    rfl

theorem reads_snoc (es : List Event) (e : Event) : reads (es ++ [e]) = reads es + if e.reads then 1 else 0 := by
  rw [reads, List.countP_append, List.countP_singleton]
  rfl

theorem Goes.quiet {es : List Event} {e : Event} (hg : Goes s m es d) (he : e.reads = false)
    (hphase : Phase s m d' (9 - reads es)) (hready : Ready s m d → Ready s m d') : Goes s m (es ++ [e]) d' := by
  have hsame : reads (es ++ [e]) = reads es := by
    rw [reads_snoc, he]
    rfl
  refine ⟨?_, fun hn => hready (hg.ready ?_)⟩
  · rw [hsame]
    exact hphase
  · rw [hsame] at hn
    exact hn

theorem Goes.further {es : List Event} {e : Event} (he : e.reads = true) (hphase : Phase s m d' (9 - reads es - 1))
    (hready : 1 < 9 - reads es → Ready s m d') : Goes s m (es ++ [e]) d' := by
  have hmore : reads (es ++ [e]) = reads es + 1 := by
    rw [reads_snoc, he]
    rfl
  refine ⟨?_, fun hn => hready (by omega)⟩
  rw [hmore, ← Nat.sub_sub]
  exact hphase

theorem Goes.step {es : List Event} {e : Event} (hg : Goes s m es d) (hk : Kept s m d e)
    (hs : Steps P s m fd fd' d e d') : Goes s m (es ++ [e]) d' := by
  by_cases hn : reads es < 9
  · have hready := hg.ready hn
    have hpos : 0 < 9 - reads es := by omega
    cases e with
    | request o =>
      obtain ⟨hphase, hr⟩ := hg.phase.request hpos hready hk.counts hs
      exact .further rfl hphase fun _ => hr
    | reply o =>
      obtain ⟨hphase, hr⟩ := hg.phase.reply hpos hready hs
      exact .further rfl hphase hr
    | flush =>
      refine hg.quiet rfl (hg.phase.flush hs) fun hr => ?_
      cases hs
      exact ⟨⟨hr.served.auth, hr.served.idle, hr.served.allowed⟩, hr.table, hr.stats, hr.client, hr.admitted,
        hr.link, hr.port⟩
    | master label =>
      have hothers := hk.master label rfl
      cases hs with
      | master hstep => exact hg.quiet rfl (hg.phase.master hstep hothers) fun hr => hr.master hstep hothers
    | replica label =>
      have hothers := hk.replica label rfl
      cases hs with
      | replica hreplica =>
        obtain ⟨_, hstep⟩ := hreplica
        obtain ⟨h', hh, heq⟩ := Option.map_eq_some_iff.mp hstep
        cases heq
        exact hg.quiet rfl (hg.phase.replica hh hothers) fun hr => hr.replica hh hothers
  · have hover : 9 - reads es = 0 := by omega
    have hphase : Phase s m d 0 := hover ▸ hg.phase
    have hmore : 9 - reads (es ++ [e]) = 0 := by
      rw [reads_snoc]
      omega
    refine ⟨hmore ▸ hphase.stays hk hs, fun h => ?_⟩
    rw [reads_snoc] at h
    omega

theorem run_goes {es : List Event} (hd : Dialled s m d) (hr : Run (guarded (Kept s m) (Steps P s m fd fd')) d es d') :
    Goes s m es d' :=
  hr.history (I := Goes s m) (fun _ _ _ _ _ hI hstep => hI.step hstep.1 hstep.2) hd.goes

/-- The handshake goes through its phases and through nothing else, whatever the two
do in between. When nine values have been read, it is over, and both know each other. -/
theorem run_handshakes {es : List Event} (hd : Dialled s m d)
    (hr : Run (guarded (Kept s m) (Steps P s m fd fd')) d es d') :
    Phase s m d' (9 - reads es) ∧ (9 ≤ reads es → d'.replica.link.handshakeState = .established ∧
      s ∈ d'.master.clientTable.listSlave ∧ d'.replica.handler.clientTable.master = some m) := by
  have hgoes := run_goes hd hr
  exact ⟨hgoes.phase, fun h => hgoes.phase.connected (by omega)⟩

/-! ## The handshake can always be finished -/

/-- Neither has anything new to say or to keep. -/
structure Undisturbed (d d' : Dial) : Prop where
  data : d'.master.data = d.master.data
  queue : d'.master.responseQueue = d.master.responseQueue
  lists : d'.master.registry.backlogList = d.master.registry.backlogList
  states : d'.master.appStates = d.master.appStates
  own : d'.replica.handler.data = d.replica.handler.data
  responses : d'.replica.handler.responseQueue = d.replica.handler.responseQueue
  waiting : d'.replica.handler.registry.backlogList = d.replica.handler.registry.backlogList
  /-- A count that has begun goes on from where it is. -/
  offset : ∀ x, d.replica.handler.hostOffset = some x → x ≠ -1 → d'.replica.handler.hostOffset = some x

theorem Undisturbed.trans {d₁ d₂ d₃ : Dial} (h : Undisturbed d₁ d₂) (h' : Undisturbed d₂ d₃) : Undisturbed d₁ d₃ where
  data := h'.data.trans h.data
  queue := h'.queue.trans h.queue
  lists := h'.lists.trans h.lists
  states := h'.states.trans h.states
  own := h'.own.trans h.own
  responses := h'.responses.trans h.responses
  waiting := h'.waiting.trans h.waiting
  offset := fun x hx hcounts => h'.offset x (h.offset x hx hcounts) hcounts

theorem Phase.enabled (hp : Phase s m d n) (hn : 0 < n) (hr : Ready s m d) (o : IterOrder) :
    ∃ e d', (e = .request o ∨ e = .reply o) ∧ Steps P s m fd fd' d e d' ∧ Undisturbed d d' := by
  have hstatus : d.replica.link.replState.status = some .master := by rw [hr.link]
  obtain ⟨stats, port, hstats, hport, _⟩ := hr.port
  cases hp with
  | asked q hq hstate hparse haddr hup hdown =>
    obtain ⟨stats, hstats⟩ := hr.stats
    have hread : Yields d.client.parseRdb d.up q.value [] := by
      rw [hr.client.2, hup]
      exact (Request.wellFormed hq).yieldsAlone (Request.wellFormed hq).serialize
    exact ⟨_, _, .inl rfl, .request hread (Request.respond_request hr.served hr.table hstats hr.client.1 hq),
      rfl, rfl, rfl, rfl, rfl, rfl, rfl, fun _ hx _ => hx⟩
  | answered q offset hq hstate hparse haddr hup hdown =>
    have hread : Yields d.replica.link.parseRdb d.down (q.answer offset) [] := by
      rw [hparse, hdown]
      exact (wellFormed_answer hq).yieldsAlone (wellFormed_answer hq).serialize
    exact ⟨_, _, .inr rfl, .reply hread (Request.step_answer hr.admitted hr.link hstate hq hstats hport),
      rfl, rfl, rfl, rfl, rfl, rfl, rfl, fun _ hx _ => hx⟩
  | resync offset rest hfit hstate hparse hslave hup hdown =>
    have hwell : (Request.fullresync offset).WellFormed := Request.wellFormed_fullresync
    have hread : Yields d.replica.link.parseRdb d.down (Request.fullresync offset)
        (Request.snapshot.frame ++ rest) := by
      rw [hparse, hdown]
      exact hwell.yields hwell.serialize
    exact ⟨_, _, .inr rfl, .reply hread (Request.step_fullresync hr.admitted hstatus hstate hfit),
      rfl, rfl, rfl, rfl, rfl, rfl, rfl, fun _ hx _ => hx⟩
  | snapshot rest hstate hparse hslave hmaster hup hdown =>
    have hread : Yields d.replica.link.parseRdb d.down Request.snapshot rest := by
      rw [hparse, hdown]
      exact yields_rdb (by decide) (by decide)
    refine ⟨_, _, .inr rfl, .reply hread (Request.step_snapshot hr.admitted hstatus hstate hstats),
      rfl, rfl, rfl, rfl, rfl, rfl, rfl, fun x hx hcounts => ?_⟩
    rw [hostOffset, hstats, Option.map_some, Option.some.injEq] at hx
    rw [hostOffset, Option.map_some, ReplStats.startBytesCount_offset, hx, if_neg hcounts]
  | done => cases hn

structure Connected (s m : Nat) (d : Dial) : Prop where
  apart : Apart s d.master
  status : d.replica.link.replState.status = some .master
  established : d.replica.link.handshakeState = .established
  table : d.replica.handler.clientTable.master = some m
  admitted : Admitted m d.replica.handler

theorem Phase.last (hp : Phase s m d n) (hn : n = 1) (hr : Ready s m d) {e : Event} (he : e = .request o ∨ e = .reply o)
    (hs : Steps P s m fd fd' d e d') : Connected s m d' := by
  have hstatus : d.replica.link.replState.status = some .master := by rw [hr.link]
  obtain ⟨stats, _, hstats, _⟩ := hr.port
  cases hp with
  | snapshot rest hstate hparse hslave hmaster hup hdown =>
    rcases he with rfl | rfl
    · cases hs with
      | request hy hrespond =>
        rw [hup] at hy
        exact absurd hy not_yields_nil
    · cases hs with
      | reply hy hstep =>
        rw [hparse, hdown] at hy
        have hread : Yields true (Request.snapshot.frame ++ rest) Request.snapshot rest :=
          yields_rdb (by decide) (by decide)
        obtain ⟨rfl, rfl⟩ := hy.unique hread
        rw [Request.step_snapshot hr.admitted hstatus hstate hstats] at hstep
        cases hstep
        exact ⟨⟨hslave.registry, hslave.channels, hslave.slave⟩, hstatus, hstate, hmaster, hr.admitted.auth,
          hr.admitted.idle, hr.admitted.allowed⟩
  | asked q => cases q <;> cases hn
  | answered q => cases q <;> cases hn
  | resync => cases hn
  | done => cases hn

theorem kept_of_reads {e : Event} (hc : Counts d.master) (he : e = .request o ∨ e = .reply o) : Kept s m d e := by
  refine ⟨hc, fun label heq => ?_, fun label heq => ?_⟩
  · rcases he with rfl | rfl <;> cases heq
  · rcases he with rfl | rfl <;> cases heq

theorem Phase.connects (hp : Phase s m d (n + 1)) (hr : Ready s m d) (hc : Counts d.master) (o : IterOrder) :
    ∃ es d', (∀ e ∈ es, e = .request o ∨ e = .reply o) ∧ es.length = n + 1 ∧
      Run (guarded (Kept s m) (Steps P s m fd fd')) d es d' ∧ Undisturbed d d' ∧ Connected s m d' := by
  induction n generalizing d with
  | zero =>
    have henabled : ∃ e d', (e = .request o ∨ e = .reply o) ∧ Steps P s m fd fd' d e d' ∧ Undisturbed d d' :=
      hp.enabled (Nat.succ_pos _) hr o
    obtain ⟨e, d', he, hstep, hsame⟩ := henabled
    exact ⟨[e], d', by simpa using he, rfl, .cons ⟨kept_of_reads hc he, hstep⟩ .nil, hsame, hp.last rfl hr he hstep⟩
  | succ n ih =>
    have henabled : ∃ e d', (e = .request o ∨ e = .reply o) ∧ Steps P s m fd fd' d e d' ∧ Undisturbed d d' :=
      hp.enabled (Nat.succ_pos _) hr o
    obtain ⟨e, d', he, hstep, hsame⟩ := henabled
    have hnext : Phase s m d' (n + 1) ∧ Ready s m d' := by
      rcases he with rfl | rfl
      · exact hp.request (Nat.succ_pos _) hr hc hstep
      · obtain ⟨hphase, hready⟩ := hp.reply (Nat.succ_pos _) hr hstep
        exact ⟨hphase, hready (by omega)⟩
    have hcounts : Counts d'.master := by
      unfold Counts
      rw [hsame.states]
      exact hc
    obtain ⟨es, d'', hes, hlength, hrun, hmore, hconnected⟩ := ih hnext.1 hnext.2 hcounts
    refine ⟨e :: es, d'', ?_, by rw [List.length_cons, hlength], .cons ⟨kept_of_reads hc he, hstep⟩ hrun,
      hsame.trans hmore, hconnected⟩
    simpa using ⟨he, hes⟩

theorem Goes.connects {es : List Event} (hg : Goes s m es d) (hleft : reads es < 9) (hc : Counts d.master)
    (o : IterOrder) : ∃ es' d', (∀ e ∈ es', e = .request o ∨ e = .reply o) ∧ es'.length = 9 - reads es ∧
      Run (guarded (Kept s m) (Steps P s m fd fd')) d es' d' ∧ Undisturbed d d' ∧ Connected s m d' := by
  obtain ⟨n, hn⟩ : ∃ n, 9 - reads es = n + 1 := ⟨9 - reads es - 1, by omega⟩
  have hphase : Phase s m d (n + 1) := hn ▸ hg.phase
  rw [hn]
  exact hphase.connects (hg.ready hleft) hc o

/-- At any time the handshake can be finished, and it leaves the rest as it is: no
key is transferred, nothing is queued, and the counts stay. -/
theorem run_connects {es : List Event} (hd : Dialled s m d)
    (hr : Run (guarded (Kept s m) (Steps P s m fd fd')) d es d') (hleft : reads es < 9) (hc : Counts d'.master)
    (o : IterOrder) : ∃ es' d'', (∀ e ∈ es', e = .request o ∨ e = .reply o) ∧ es'.length = 9 - reads es ∧
      Run (Steps P s m fd fd') d' es' d'' ∧ Undisturbed d' d'' ∧ Connected s m d'' := by
  obtain ⟨es', d'', hreads, hlength, hrun, hsame, hconnected⟩ := (run_goes hd hr).connects hleft hc o
  exact ⟨es', d'', hreads, hlength, hrun.mono fun _ _ _ hs => hs.2, hsame, hconnected⟩

/-- The replica follows from here, if it starts with what the master has. -/
theorem Connected.attached (hc : Connected s m d) (hlists : d.master.registry.backlogList = ∅)
    (hwaiting : d.replica.handler.registry.backlogList = ∅) (hqueue : d.master.messagesTo s = [])
    (hsame : Data.Same d.master.data d.replica.handler.data) :
    Feed.Attached s m { master := d.master, replica := d.replica, taken := 0 } where
  apart := hc.apart
  lists := hlists
  following := ⟨hc.status, hc.established, ⟨hc.table, hwaiting⟩, hc.admitted⟩
  same := hsame
  taken := by rw [hqueue, List.length_nil]

end

/-! ### A concrete handshake -/

def dialling : Dial where
  master := { startup with auth := (startup.auth.authenticate .blank 7 none none).1 }
  client := {}
  replica :=
    { link := (TcpClient.initHandshake {}).1
      handler := { startup with
        auth := (startup.auth.authenticate .blank 9 none none).1
        appStates := { hostStats := some { host := some "127.0.0.1", port := some 6380, offset := 0 }
                       masterStats := some { host := some "127.0.0.1", port := some 6379 } } } }
  up := (TcpClient.initHandshake {}).2
  down := []

theorem dialling_dialled : Dialled 7 9 dialling where
  ready :=
    { served := ⟨by decide, rfl, by decide⟩
      table := by decide
      stats := ⟨_, rfl⟩
      client := ⟨rfl, rfl⟩
      admitted := ⟨by decide, rfl, by decide⟩
      link := rfl
      port := ⟨_, 6380, rfl, rfl, by decide⟩ }
  silent := ⟨⟨fun _ _ he => (by cases he), fun _ _ hid => (by cases hid)⟩, fun _ _ _ hl => (by cases hl),
    fun _ hx => (by cases hx), fun _ hid => (by cases hid)⟩
  link := rfl
  up := rfl
  down := rfl

def pinged : Dial :=
  { dialling with
    master := Request.ping.served dialling.master 7
    up := []
    down := (Request.ping.answer 0).frame }

theorem dialling_pinged : guarded (Kept 7 9) (Steps .blank 7 9 0 0) dialling (.request .asIs) pinged := by
  have hcounts : Counts dialling.master := by
    intro stats hstats
    cases hstats
    decide
  have hping : Request.ping.Fits := trivial
  have hread : Yields false dialling.up Request.ping.value [] :=
    (Request.wellFormed hping).yieldsAlone (Request.wellFormed hping).serialize
  have hready := dialling_dialled.ready
  have hrespond : dialling.client.respond .blank .asIs dialling.master 7 0 Request.ping.value =
      some (dialling.client, Request.ping.served dialling.master 7, (Request.ping.answer 0).frame) :=
    Request.respond_request hready.served hready.table rfl hready.client.1 hping
  exact ⟨⟨hcounts, fun _ h => (by cases h), fun _ h => (by cases h)⟩, .request hread hrespond⟩

/-- The master reads PING, a client of it writes, and a client of the replica reads. -/
def amongOthers : List Event :=
  [.request .asIs, .master (ask 1 (.rpush "k" ["a"])), .replica (ask 3 (.get "k"))]

theorem ask_others {id clientId : Nat} (h : CmdHandler) (cmd : Cmd) (hne : clientId ≠ id) :
    Others id h (ask clientId cmd) := by
  refine ⟨fun _ _ _ _ heq => ?_, fun _ _ _ heq => ?_, fun _ _ _ heq => ?_, fun _ _ _ heq => ?_, fun _ _ _ heq => ?_⟩
  · cases heq
    exact hne
  all_goals cases heq

theorem run_handshakes_nine : ∃ es d, reads (amongOthers ++ es) = 9 ∧
    Run (guarded (Kept 7 9) (Steps .blank 7 9 0 0)) dialling (amongOthers ++ es) d ∧ Phase 7 9 d 0 ∧
    d.replica.link.handshakeState = .established ∧ 7 ∈ d.master.clientTable.listSlave ∧
    d.replica.handler.clientTable.master = some 9 := by
  have hpinged : Counts pinged.master := by
    intro stats hstats
    cases hstats
    decide
  have hcounts : Counts (play pinged.master [ask 1 (.rpush "k" ["a"])]) := by
    intro stats hstats
    cases hstats
    decide
  have hmaster : Kept 7 9 pinged (.master (ask 1 (.rpush "k" ["a"]))) :=
    ⟨hpinged, fun _ heq => (by cases heq; exact ask_others _ _ (by decide)), fun _ heq => (by cases heq)⟩
  have hreplica : Kept 7 9 { pinged with master := play pinged.master [ask 1 (.rpush "k" ["a"])] }
      (.replica (ask 3 (.get "k"))) :=
    ⟨hcounts, fun _ heq => (by cases heq), fun _ heq => by cases heq; exact ask_others _ _ (by decide)⟩
  have hr : Run (guarded (Kept 7 9) (Steps .blank 7 9 0 0)) dialling amongOthers
      { pinged with
        master := play pinged.master [ask 1 (.rpush "k" ["a"])]
        replica := { pinged.replica with handler := play pinged.replica.handler [ask 3 (.get "k")] } } :=
    .cons dialling_pinged (.cons ⟨hmaster, .master rfl⟩ (.cons ⟨hreplica, .replica ⟨[], rfl⟩⟩ .nil))
  obtain ⟨es, d, hreads, hlength, hrest, _, _⟩ := (run_goes dialling_dialled hr).connects (by decide) hcounts .asIs
  have hnine : reads (amongOthers ++ es) = 9 := by
    have hall : es.countP Event.reads = es.length := by
      refine List.countP_eq_length.mpr fun e he => ?_
      rcases hreads e he with rfl | rfl <;> rfl
    rw [reads, List.countP_append, hall, hlength]
    rfl
  have hrun := hr.append hrest
  obtain ⟨hphase, hdone⟩ := run_handshakes dialling_dialled hrun
  rw [hnine] at hphase
  exact ⟨es, d, hnine, hrun, hphase, hdone hnine.ge⟩

theorem run_connects_ping : ∃ es d, es.length = 8 ∧ Run (Steps .blank 7 9 0 0) pinged es d ∧
    Feed.Attached 7 9 { master := d.master, replica := d.replica, taken := 0 } ∧ Replica.Synced 9 d.replica := by
  have hr : Run (guarded (Kept 7 9) (Steps .blank 7 9 0 0)) dialling [.request .asIs] pinged :=
    .cons dialling_pinged .nil
  have hcounts : Counts pinged.master := by
    intro stats hstats
    cases hstats
    decide
  obtain ⟨es, d, _, hlength, hrun, hsame, hconnected⟩ := run_connects dialling_dialled hr (by decide) hcounts .asIs
  have hzero : d.replica.handler.hostOffset = some 0 := hsame.offset 0 rfl (by decide)
  refine ⟨es, d, hlength, hrun, hconnected.attached ?_ ?_ ?_ ?_,
    hconnected.status, hconnected.established, hconnected.table, hzero⟩
  · rw [hsame.lists]
    rfl
  · rw [hsame.waiting]
    rfl
  · rw [messagesTo_congr hsame.queue]
    rfl
  · rw [hsame.data, hsame.own]
    exact fun _ => rfl

end Dial

end Redis
