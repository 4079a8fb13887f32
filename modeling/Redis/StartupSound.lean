import Redis.HandshakeSound
import Redis.ServerSound
import Redis.Startup

/-!
# From the command line to the loop

The replay of the log and the commands of clients leave alone what the command
line has set, so that a server answers for as long as it runs what it was
started with. A replica is started with the handshake under way, and from there
it connects.
-/

namespace Redis

open Lib Lib.Options
open CmdHandler (cmdConfig cmdInfo reply)

/-! ## The replay -/

section
variable {σ : Type} {I : σ → Prop} {exec : σ → RespType → Option σ}

theorem RespParser.replayLoop_inv (hexec : ∀ s t s', exec s t = some s' → I s → I s') {fuel : Nat} {p p' : RespParser}
    {s s' : σ} (h : p.replayLoop exec fuel s = some (p', s')) (hI : I s) : I s' := by
  induction fuel generalizing p s with
  | zero => cases h
  | succ fuel ih =>
    rw [replayLoop] at h
    cases hparse : p.parse false fuel with
    | none =>
      rw [hparse] at h
      cases h
    | some x =>
      rw [hparse] at h
      simp only at h
      split at h
      · cases h
        exact hI
      · obtain ⟨t, ht, hrest⟩ := Option.bind_eq_some_iff.mp h
        exact ih hrest (hexec _ _ _ ht hI)

theorem RespParser.replayPieces_inv (hexec : ∀ s t s', exec s t = some s' → I s → I s') {fuel : Nat}
    {pieces : List Bytes}
    {p p' : RespParser} {s s' : σ} (h : p.replayPieces exec fuel s pieces = some (p', s')) (hI : I s) : I s' := by
  induction pieces generalizing p s with
  | nil =>
    cases h
    exact hI
  | cons piece rest ih =>
    obtain ⟨⟨q, t⟩, ht, hrest⟩ := Option.bind_eq_some_iff.mp h
    exact ih hrest (replayLoop_inv hexec ht hI)

end

namespace CmdHandler

section
variable {P : Platform} {orders : Nat → IterOrder} {fuel : Nat} {disk : Disk} {h h' : CmdHandler}
    {I : CmdHandler → Prop}

theorem replayFile_inv (hstep : ∀ g label g', Replayed label → Steps P g label g' → I g → I g') {file : Bytes}
    (hr : replayFile P orders fuel h file = some h') (hI : I h) : I h' := by
  obtain ⟨⟨q, g, n⟩, hpieces, rfl⟩ := Option.map_eq_some_iff.mp hr
  refine RespParser.replayPieces_inv (I := fun s : CmdHandler × Nat => I s.1) (fun s t s' ht hs => ?_) hpieces hI
  obtain ⟨g', hframe, rfl⟩ := Option.map_eq_some_iff.mp ht
  unfold replayFrame at hframe
  split at hframe
  · exact hstep _ (_, .handle _ _ 0 (-1)) _ ⟨_, _, rfl⟩ hframe hs
  · cases hframe

theorem aofReplay_log {appendfilename : String} {dir : AofDir}
    (ha : Aof.aofReplay P orders fuel appendfilename dir h = .ok h') :
    ∃ log, replayFile P orders fuel h log = some h' := by
  unfold Aof.aofReplay at ha
  cases hname : Aof.readManifest appendfilename dir with
  | error e =>
    rw [hname] at ha
    cases ha
  | ok name =>
    rw [hname] at ha
    simp only [Except.bind] at ha
    split at ha
    · cases ha
    · rename_i log hlog
      cases hreplay : replayFile P orders fuel h log with
      | none =>
        rw [hreplay] at ha
        cases ha
      | some g =>
        rw [hreplay] at ha
        cases ha
        exact ⟨log, hreplay⟩

/-- There is a log to replay, or nothing happens to the handler. -/
theorem initSequence_log {configs : Configs} {dir : Option AofDir} {file : Option String}
    (hi : (Aof.initSequence P orders fuel configs dir h).2 = .ok (h', file)) :
    h' = h ∨ ∃ log, replayFile P orders fuel h log = some h' := by
  have hfile : ∀ {r : Except Halt String}
      {g : CmdHandler}, (r.map fun name => (g, some name)) = .ok (h', file) → h' = g := by
    intro r g hr
    cases r with
    | error e => cases hr
    | ok name =>
      cases hr
      rfl
  unfold Aof.initSequence at hi
  split at hi
  · split at hi
    · split at hi
      · cases hi
      · rename_i g hreplay
        rw [hfile hi]
        exact .inr (aofReplay_log hreplay)
    · exact .inl (hfile (r := (Aof.initAofFiles configs.appendfilename ∅).2) hi)
  · cases hi
    exact .inl rfl

theorem initAof_inv (hstep : ∀ g label g', Replayed label → Steps P g label g' → I g → I g')
    (haof : ∀ g aof, I g → I { g with aof }) (hi : h.initAof P orders fuel disk = some h') (hI : I h) : I h' := by
  unfold initAof at hi
  split at hi
  · cases hi
  · simp only at hi
    split at hi
    · cases hi
    · cases hi
      exact haof _ _ hI
    · rename_i g file hsequence
      cases hi
      apply haof
      rcases initSequence_log hsequence with rfl | ⟨log, hreplay⟩
      · exact hI
      · exact replayFile_inv hstep hreplay hI

theorem initRdb_loads (hi : h.initRdb disk = some h') : ∃ file, h.loadRdb file = some h' := by
  unfold initRdb at hi
  split at hi
  · exact ⟨_, hi⟩
  · exact ⟨none, hi⟩

theorem initRdb_none (hfiles : ∀ path, disk.files path = none) : h.initRdb disk = some h := by
  unfold initRdb
  split
  · rw [hfiles]
    rfl
  · rfl

/-! ## What the command line has set -/

def settings (h : CmdHandler) : Configs × Option ReplStats × Option (Option String × Option Nat) :=
  (h.configs, h.appStates.masterStats, h.appStates.hostStats.map fun stats => (stats.host, stats.port))

theorem settings_counted {s : AppStates} (hc : h.appStates.Counted s) :
    { h with appStates := s }.settings = h.settings := by
  rcases hc with rfl | ⟨count, rfl⟩
  · rfl
  · have hadd : ∀ stats : ReplStats, ((stats.addBytesCount count).host, (stats.addBytesCount count).port) =
        (stats.host, stats.port) := by
      intro stats
      unfold ReplStats.addBytesCount
      split <;> rfl
    simp only [settings, AppStates.hostAddBytesCount, Option.map_map]
    congr 2
    apply Option.map_congr
    intro stats _
    exact hadd stats

theorem Effect.configs {o : IterOrder} {now clientId : Nat} {epollFd : Option Int} {cmd : Cmd} {r : CmdResult}
    (he : Effect P o h now clientId epollFd cmd h' r) : h'.configs = h.configs := by
  cases he with
  | ack _ ha =>
    obtain ⟨_, _, rfl, _⟩ := cmdAck_frame ha
    rfl
  | _ => rfl

theorem Call.Made.settings {o : IterOrder} {c : Call} (hm : Call.Made P o c) :
    c.after.settings = c.before.settings := by
  obtain ⟨_, _, exec, s, d, fd, ser, out, hp, _, hexec, hd, hc⟩ := hm
  have heffect := dispatch_effect hexec hd
  have hconfigs : c.after.configs = c.before.configs := by
    obtain ⟨_, _, _, _, _, _, hafter⟩ := conclude_frame hc
    rw [hafter]
    exact heffect.configs
  have hprepared := settings_counted (prepare_counted hp)
  have hconcluded := settings_counted (conclude_counted hc)
  have hdispatched : d.appStates = s := heffect.statics.1
  simp only [CmdHandler.settings, Prod.mk.injEq, true_and] at hprepared hconcluded ⊢
  rw [hdispatched] at hconcluded
  exact ⟨hconfigs, hconcluded.1.trans hprepared.1, hconcluded.2.trans hprepared.2⟩

theorem step_settings {label : IterOrder × Event} (hs : Steps P h label h')
    (hno : ∀ clientTable appStates auth, label.2 ≠ .process clientTable appStates auth) : h'.settings = h.settings := by
  refine step_calls_only (I := fun g _ => g.settings = h.settings) hs (fun _ _ _ hg => hg) (fun _ _ _ hg => hg)
    (fun c cs hc hm hg => hm.settings.trans hg) (fun hhandle hg => ?_) rfl
  obtain ⟨o, e⟩ := label
  obtain ⟨_, _, _, _, _, rfl⟩ := step_frame hs hhandle hno
  exact hg

theorem handle_settings {o : IterOrder} {cmd : Except CustomError Cmd} {buf : Bytes} {clientId : Nat} {epollFd : Int}
    {out : Except Bytes Bytes} (hh : h.handle P o cmd buf clientId epollFd = some (h', out)) :
    h'.settings = h.settings := by
  have hstep : Steps P h (o, .handle cmd buf clientId epollFd) h' := congrArg (Option.map Prod.fst) hh
  exact step_settings hstep fun _ _ _ heq => by cases heq

end

end CmdHandler

section
variable {P : Platform} {o : IterOrder} {client client' : TcpClient} {h h' : CmdHandler} {fd : Nat} {epollFd : Int}

theorem handshakeToMaster_settings {cmd : Cmd} {buf : Bytes} {r : Except Bytes Bytes}
    (hs : client.handshakeToMaster P o h cmd buf fd epollFd = some (client', h', r)) : h'.settings = h.settings := by
  unfold TcpClient.handshakeToMaster at hs
  split at hs
  · cases hs
    rfl
  · cases hs
    rfl
  · cases hs
    rfl
  · cases hs
    rfl
  · split at hs
    · cases hs
      rfl
    · rename_i stats hstats
      cases hs
      have hstart : (stats.startBytesCount.host, stats.startBytesCount.port) = (stats.host, stats.port) := by
        unfold ReplStats.startBytesCount
        split <;> rfl
      simp only [CmdHandler.settings, hstats, Option.map_some, hstart]
  · obtain ⟨⟨g, out⟩, hh, heq⟩ := Option.map_eq_some_iff.mp hs
    cases heq
    exact CmdHandler.handle_settings hh

theorem respond_settings {t : RespType} {reply : Bytes}
    (hr : client.respond P o h fd epollFd t = some (client', h', reply)) : h'.settings = h.settings := by
  unfold TcpClient.respond at hr
  split at hr
  · split at hr
    · cases hr
      rfl
    · split at hr
      · obtain ⟨⟨c, g, r⟩, hs, heq⟩ := Option.map_eq_some_iff.mp hr
        cases heq
        exact handshakeToMaster_settings hs
      · obtain ⟨⟨g, out⟩, hh, heq⟩ := Option.map_eq_some_iff.mp hr
        cases heq
        exact CmdHandler.handle_settings hh
  · obtain ⟨⟨g, out⟩, hh, heq⟩ := Option.map_eq_some_iff.mp hr
    cases heq
    exact CmdHandler.handle_settings hh
  · cases hr

end

namespace Server

section
variable {P : Platform} {s s' : Server} {e : Event}

theorem step_settings (hs : s.step P e = some s') : s'.handler.settings = s.handler.settings := by
  cases step_happens hs with
  | accepted | nobody | read | failed | waits | gone | hungUp => rfl
  | @turned o fuel written fd client₀ client t client' handler reply hreading hclient hcomp htaken hr =>
    have hreply : ∀ server : Server, (server.writeReply fd reply written).handler.settings =
        server.handler.settings := by
      intro server
      rcases writeReply_cases server fd reply written with heq | ⟨sent, heq⟩
      · rw [heq]
        rfl
      · rw [heq]
    rw [hreply]
    exact respond_settings hr
  | @expired handler hreading henabled hfires hc =>
    have hstep : CmdHandler.Steps P s.handler (.asIs, .expire) handler := (if_pos hfires).trans hc
    exact CmdHandler.step_settings hstep fun _ _ _ heq => by cases heq
  | @ended o o' handler hreading hhandler hall =>
    have hlists : CmdHandler.Steps P s.handler (o, .serveBacklogList) (s.handler.serveBacklogList o) := rfl
    have hstreams : CmdHandler.Steps P (s.handler.serveBacklogList o) (o', .serveBacklogStream) handler := by
      rw [hhandler]
      rfl
    have hfirst := CmdHandler.step_settings hlists fun _ _ _ heq => by cases heq
    have hsecond := CmdHandler.step_settings hstreams fun _ _ _ heq => by cases heq
    exact hsecond.trans hfirst

theorem run_settings {es : List Event} (hr : Run (Steps P) s es s') : s'.handler.settings = s.handler.settings :=
  hr.inv (I := fun t => t.handler.settings = s.handler.settings) (fun _ _ _ _ hI hs => (step_settings hs).trans hI) rfl

end

/-! ## What a server is started with -/

section
variable {P : Platform} {orders : Nat → IterOrder} {fuel : Nat} {args : List String} {disk : Disk} {timer : Timer}
  {masterFd : Nat} {epollFd : Int} {s s' : Server}

theorem addMaster_cases (ha : s.addMaster P masterFd = some s') :
    s.handler.appStates.masterStats = none ∧ s' = s ∨
    ∃ auth, s.handler.appStates.masterStats ≠ none ∧ s.handler.auth.authenticate P masterFd none none = (auth, .ok ()) ∧
      s' = { s with
        clients := s.clients.insert masterFd (TcpClient.initHandshake {}).1
        handler := { s.handler with auth }
        sent := s.sent ++ [(masterFd, (TcpClient.initHandshake {}).2)] } := by
  unfold addMaster at ha
  split at ha
  · rename_i hmaster
    cases ha
    exact .inl ⟨hmaster, rfl⟩
  · rename_i stats hmaster
    split at ha
    · rename_i auth _ _ _ hauth
      cases ha
      exact .inr ⟨_, by simp [hmaster], hauth, rfl⟩
    · cases ha

theorem addMaster_isSome {v : Option String} (hauth : s.handler.auth = {})
    (hmaster : ReplStats.parseReplicaof v = some s.handler.appStates.masterStats) :
    (s.addMaster P masterFd).isSome = true := by
  have hdefault : ({} : Auth).authenticate P masterFd none none =
      ({ clients := AList.singleton masterFd "default" }, .ok ()) := rfl
  unfold addMaster
  rw [hauth, hdefault]
  cases v with
  | none =>
    rw [← Option.some.inj hmaster]
    rfl
  | some v =>
    obtain ⟨host, port, _, hstats⟩ := AppStates.parseReplicaof_some.mp hmaster
    rw [hstats]
    rfl

structure Booted (P : Platform) (orders : Nat → IterOrder) (fuel : Nat) (args : List String) (disk : Disk)
    (timer : Timer) (h : CmdHandler) : Prop where
  ran : ∃ appStates configs replayed file, AppStates.init args = some appStates ∧
    Configs.withParseConfig {} args = some configs ∧
    { CmdHandler.new timer appStates with configs }.initAof P orders fuel disk = some replayed ∧
    replayed.loadRdb file = some h

theorem main_booted (hm : main P orders fuel args disk timer masterFd epollFd = some s) :
    ∃ h, Booted P orders fuel args disk timer h ∧ { handler := h, epollFd : Server }.addMaster P masterFd = some s := by
  unfold main at hm
  simp only [Option.bind_eq_bind, Option.bind_eq_some_iff] at hm
  obtain ⟨appStates, hstates, configs, hconfigs, replayed, haof, h, hrdb, hmaster⟩ := hm
  obtain ⟨file, hfile⟩ := CmdHandler.initRdb_loads hrdb
  exact ⟨h, ⟨appStates, configs, replayed, file, hstates, hconfigs, haof, hfile⟩, hmaster⟩

theorem Booted.inv {I : CmdHandler → Prop} {h : CmdHandler} (hb : Booted P orders fuel args disk timer h)
    (hstep : ∀ g label g', CmdHandler.Replayed label → CmdHandler.Steps P g label g' → I g → I g')
    (haof : ∀ g aof, I g → I { g with aof }) (hdata : ∀ g data, I g → I { g with data })
    (hI : ∀ appStates configs, AppStates.init args = some appStates → Configs.withParseConfig {} args = some configs →
      I { CmdHandler.new timer appStates with configs }) : I h := by
  obtain ⟨appStates, configs, replayed, file, hstates, hconfigs, hinit, hfile⟩ := hb.ran
  have hreplayed := CmdHandler.initAof_inv hstep haof hinit (hI appStates configs hstates hconfigs)
  rcases CmdHandler.loadRdb_cases hfile with rfl | ⟨_, data, _, _, rfl⟩
  · exact hreplayed
  · exact hdata _ data hreplayed

/-- What `main` hands to its loop has begun, and the timer is registered. -/
theorem main_begun {Good : CmdHandler → IterOrder × CmdHandler.Event → Prop}
    (hgood : ∀ g label g', CmdHandler.Replayed label → CmdHandler.Steps P g label g' → Good g label)
    (hm : main P orders fuel args disk timer masterFd epollFd = some s) :
    ∃ appStates, CmdHandler.Begun P Good timer appStates s.handler ∧ s.timerEnabled = true := by
  obtain ⟨h, hb, hmaster⟩ := main_booted hm
  obtain ⟨appStates, configs, replayed, file, _, _, hinit, hfile⟩ := hb.ran
  have hreplayed : CmdHandler.Begun P Good timer appStates replayed := by
    refine CmdHandler.initAof_inv (fun g label g' hlabel hs hg => ?_) (fun g aof hg => .opened aof g.auth hg) hinit
      (.new configs)
    exact .replayed hg hlabel ⟨hgood g label g' hlabel hs, hs⟩
  have hloaded : CmdHandler.Begun P Good timer appStates h := .loaded hreplayed hfile
  rcases addMaster_cases hmaster with ⟨_, rfl⟩ | ⟨auth, _, _, rfl⟩
  · exact ⟨appStates, hloaded, rfl⟩
  · exact ⟨appStates, .opened h.aof auth hloaded, rfl⟩

structure SetUp (words : List String) (h : CmdHandler) : Prop where
  configs : ∀ key, h.configs.getAttr key = Configs.told words key
  master : ReplStats.parseReplicaof (given AppStates.isReplicaof words) = some h.appStates.masterStats
  place : h.appStates.hostStats.map (fun stats => (stats.host, stats.port)) =
    some (some ((given AppStates.isHost words).getD "127.0.0.1"),
      some (((given AppStates.isPort words).bind parsePort).getD 6379))

theorem SetUp.of_settings {words : List String} {h h' : CmdHandler} (hs : SetUp words h)
    (heq : h'.settings = h.settings) :
    SetUp words h' := by
  simp only [CmdHandler.settings, Prod.mk.injEq] at heq
  obtain ⟨hconfigs, hmaster, hplace⟩ := heq
  exact ⟨by rw [hconfigs]; exact hs.configs, by rw [hmaster]; exact hs.master, by rw [hplace]; exact hs.place⟩

theorem Booted.setUp {h : CmdHandler} (hb : Booted P orders fuel args disk timer h) : SetUp (args.drop 1) h := by
  refine hb.inv (I := SetUp (args.drop 1)) ?_ ?_ ?_ ?_
  · intro g label g' hlabel hstep hg
    obtain ⟨cmd, raw, heq⟩ := hlabel
    exact hg.of_settings (CmdHandler.step_settings hstep fun _ _ _ h => by rw [heq] at h; cases h)
  · intro g aof hg
    exact hg.of_settings rfl
  · intro g data hg
    exact hg.of_settings rfl
  · intro appStates configs hstates hconfigs
    have htold := AppStates.init_told hstates
    exact ⟨Configs.withParseConfig_getAttr hconfigs, htold.master, by simp [CmdHandler.new, htold.host]⟩

theorem main_setUp (hm : main P orders fuel args disk timer masterFd epollFd = some s) :
    SetUp (args.drop 1) s.handler := by
  obtain ⟨h, hb, hmaster⟩ := main_booted hm
  rcases addMaster_cases hmaster with ⟨_, rfl⟩ | ⟨auth, _, _, rfl⟩
  · exact hb.setUp
  · exact hb.setUp.of_settings rfl

theorem SetUp.config {words : List String} {h : CmdHandler} (hs : SetUp words h) (key : String) :
    cmdConfig h.configs (.get key) =
      (Configs.told words key).bind fun value => reply (.arrayOf [.bulk key, .bulk value]) := by
  rw [← hs.configs key]
  rfl

theorem SetUp.info {words : List String} {h : CmdHandler} (hs : SetUp words h) :
    match given AppStates.isReplicaof words with
    | none => ∃ offset : Int, cmdInfo h.appStates "replication" =
        reply (.bulk ("role:master\r\nmaster_replid:xxx\r\nmaster_repl_offset:" ++ toString (max offset 0)))
    | some v => ∃ host port, AppStates.NamesMaster v host port ∧ cmdInfo h.appStates "replication" =
        reply (.bulk ("role:slave\r\nmaster_host:" ++ host ++ "\r\nmaster_post:" ++ toString port)) := by
  have hupper : String.ofList ("replication".toList.map Char.toUpper) = "REPLICATION" := by decide
  have hmaster := hs.master
  split
  · rename_i hnone
    rw [hnone] at hmaster
    have hself : h.appStates.masterStats = none := (Option.some.inj hmaster).symm
    obtain ⟨stats, hstats, _⟩ := Option.map_eq_some_iff.mp hs.place
    refine ⟨stats.offset, ?_⟩
    simp only [cmdInfo, AppStates.isSlave, hupper, if_true, hself, hstats, Option.isSome_none,
      Bool.false_eq_true, if_false]
  · rename_i v hv
    rw [hv] at hmaster
    obtain ⟨host, port, hnames, heq⟩ := AppStates.parseReplicaof_some.mp hmaster
    refine ⟨host, port, hnames, ?_⟩
    simp only [cmdInfo, AppStates.isSlave, hupper, if_true, heq, Option.isSome_some]

theorem SetUp.port {words : List String} {h : CmdHandler} (hs : SetUp words h) :
    TcpClient.getReplconf1 h.appStates = .ok (bulkArray 3 ["REPLCONF", "listening-port",
      toString (((given AppStates.isPort words).bind parsePort).getD 6379)]).frame := by
  obtain ⟨stats, hstats, heq⟩ := Option.map_eq_some_iff.mp hs.place
  have hport : stats.port = some (((given AppStates.isPort words).bind parsePort).getD 6379) := congrArg Prod.snd heq
  simp only [TcpClient.getReplconf1, hstats, hport]

/-- For as long as it runs, a server answers CONFIG GET with what its command line says
and INFO with the master that its command line names, and announces the port of its
command line. -/
theorem run_configured {es : List Event} (hm : main P orders fuel args disk timer masterFd epollFd = some s)
    (hr : Run (Steps P) s es s') :
    (∀ key, cmdConfig s'.handler.configs (.get key) =
      (Configs.told (args.drop 1) key).bind fun value => reply (.arrayOf [.bulk key, .bulk value])) ∧
    (match given AppStates.isReplicaof (args.drop 1) with
    | none => ∃ offset : Int, cmdInfo s'.handler.appStates "replication" =
        reply (.bulk ("role:master\r\nmaster_replid:xxx\r\nmaster_repl_offset:" ++ toString (max offset 0)))
    | some v => ∃ host port, AppStates.NamesMaster v host port ∧ cmdInfo s'.handler.appStates "replication" =
        reply (.bulk ("role:slave\r\nmaster_host:" ++ host ++ "\r\nmaster_post:" ++ toString port))) ∧
    TcpClient.getReplconf1 s'.handler.appStates = .ok (bulkArray 3 ["REPLCONF", "listening-port",
      toString (((given AppStates.isPort (args.drop 1)).bind parsePort).getD 6379)]).frame := by
  have hset : SetUp (args.drop 1) s'.handler := (main_setUp hm).of_settings (run_settings hr)
  exact ⟨hset.config, hset.info, hset.port⟩

def emptyDisk : Disk where
  dirs := fun _ => none
  files := fun _ => none

def replicaArgs : List String := ["redis", "--dir", "/x", "--port", "6380", "--REPLICAOF", "h 6379"]

def replicaMain : Option Server := main .blank (fun _ => .asIs) 1 replicaArgs emptyDisk { clock := fun _ => 0 } 9 3

theorem run_configured_replica : ∃ s s', replicaMain = some s ∧ Run (Steps .blank) s [.accept 7] s' ∧
    cmdConfig s'.handler.configs (.get "dir") = reply (.arrayOf [.bulk "dir", .bulk "/x"]) ∧
    cmdInfo s'.handler.appStates "replication" = reply (.bulk "role:slave\r\nmaster_host:h\r\nmaster_post:6379") := by
  have hsome : (replicaMain.bind fun s => s.step .blank (.accept 7)).isSome = true := by decide +kernel
  obtain ⟨s', hs'⟩ := Option.isSome_iff_exists.mp hsome
  obtain ⟨s, hs, hstep⟩ := Option.bind_eq_some_iff.mp hs'
  obtain ⟨hconfig, hinfo, _⟩ := run_configured hs (.cons hstep .nil)
  refine ⟨s, s', hs, .cons hstep .nil, hconfig "dir", ?_⟩
  have hv : given AppStates.isReplicaof (replicaArgs.drop 1) = some "h 6379" := by decide
  simp only [hv] at hinfo
  obtain ⟨host, port, ⟨word, rest, hsplit, hport⟩, hreply⟩ := hinfo
  have hwords : splitOnChar ' ' "h 6379" = ["h", "6379"] := by decide
  rw [hwords] at hsplit
  cases hsplit
  have hparse : parsePort "6379" = some 6379 := by decide
  rw [hparse] at hport
  cases hport
  exact hreply

/-! ## Which command lines a server starts with -/

structure Accepted (words : List String) : Prop where
  values : ∀ x ∈ pairs words, Configs.Accepts x.1 (some x.2) ∧ AppStates.Accepts x.1 (some x.2)
  last : ∀ flag ∈ alone words, Configs.Accepts flag none ∧ AppStates.Accepts flag none
  master : ∀ v, given AppStates.isReplicaof words = some v → ∃ host port, AppStates.NamesMaster v host port

theorem accepted_iff {words : List String} : Accepted (words.drop 1) ↔
    (AppStates.init words).isSome = true ∧ (Configs.withParseConfig {} words).isSome = true := by
  rw [AppStates.init_isSome, Configs.withParseConfig, takePairs_isSome Configs.setFlag_isSome]
  constructor
  · intro h
    exact ⟨⟨⟨fun x hx => (h.values x hx).2, fun flag hf => (h.last flag hf).2⟩, h.master⟩,
      fun x hx => (h.values x hx).1, fun flag hf => (h.last flag hf).1⟩
  · intro h
    obtain ⟨⟨⟨hvalues, hlast⟩, hmaster⟩, hvalues', hlast'⟩ := h
    exact ⟨fun x hx => ⟨hvalues' x hx, hvalues x hx⟩, fun flag hf => ⟨hlast' flag hf, hlast flag hf⟩, hmaster⟩

theorem appendonly_of_told {words : List String} {c : Configs}
    (hlog : given (Configs.isFlag "appendonly") words ≠ some "yes")
    (hc : c.getAttr "appendonly" = Configs.told words "appendonly") : c.appendonly = false := by
  have hanswer : c.getAttr "appendonly" = .ok (if c.appendonly then "yes" else "no") := by simp [Configs.getAttr]
  have htold : Configs.told words "appendonly" = .ok ((given (Configs.isFlag "appendonly") words).getD "no") := by
    simp [Configs.told, Configs.defaults, List.lookup_cons]
  rw [hanswer, htold] at hc
  by_cases hon : c.appendonly
  · simp only [hon, if_true, Except.ok.injEq] at hc
    cases hgiven : given (Configs.isFlag "appendonly") words with
    | none =>
      rw [hgiven] at hc
      simp at hc
    | some v =>
      rw [hgiven] at hc
      cases hc
      exact absurd hgiven hlog
  · simpa using hon

/-- Without a log and an RDB file nothing can go wrong but the command line. -/
theorem main_starts_iff (hlog : given (Configs.isFlag "appendonly") (args.drop 1) ≠ some "yes")
    (hfiles : ∀ path, disk.files path = none) :
    (main P orders fuel args disk timer masterFd epollFd).isSome = true ↔ Accepted (args.drop 1) := by
  rw [accepted_iff]
  unfold main
  cases hstates : AppStates.init args with
  | none => simp
  | some appStates =>
    cases hconfigs : Configs.withParseConfig {} args with
    | none => simp
    | some configs =>
      have hoff : configs.appendonly = false :=
        appendonly_of_told hlog (Configs.withParseConfig_getAttr hconfigs "appendonly")
      have haof : ∀ h : CmdHandler, h.configs = configs →
          h.initAof P orders fuel disk = some { h with aof := some {} } := by
        intro h hc
        simp [CmdHandler.initAof, Aof.initSequence, hc, hoff]
      have hrdb : ∀ h : CmdHandler, h.initRdb disk = some h := fun h => CmdHandler.initRdb_none hfiles
      have hmaster : ∀ server : Server, server.handler.appStates = appStates → server.handler.auth = {} →
          (server.addMaster P masterFd).isSome = true := by
        intro server hs hauth
        apply addMaster_isSome hauth
        rw [hs]
        exact (AppStates.init_told hstates).master
      simp [haof, hrdb, hmaster, CmdHandler.new]

theorem main_starts_iff_port :
    (main .blank (fun _ => .asIs) 1 ["redis", "--port", "6380"] emptyDisk { clock := fun _ => 0 } 9 3).isSome =
      true := by
  have haccepted : Accepted (["redis", "--port", "6380"].drop 1) := by
    rw [accepted_iff]
    exact ⟨by decide +kernel, by decide +kernel⟩
  exact (main_starts_iff (by decide) fun _ => rfl).mpr haccepted

/-! ## A replica that has been started -/

/-- The connection of a replica to its master, which has just accepted it. -/
def dial (s : Server) (masterFd : Nat) (master : CmdHandler) : Dial where
  master := master
  client := {}
  replica := { link := (s.clients.lookup masterFd).getD {}, handler := s.handler }
  up := (s.sent.filter fun x => x.1 = masterFd).flatMap Prod.snd
  down := []

/-- Nothing is left here of an earlier client of this descriptor. -/
structure Accepting (id : Nat) (h : CmdHandler) : Prop where
  served : CmdHandler.Admitted id h
  table : h.clientTable.master ≠ some id
  stats : ∃ stats, h.appStates.hostStats = some stats
  silent : h.Addresses (· ≠ id)

theorem replayed_others {id : Nat} {h : CmdHandler} {label : IterOrder × CmdHandler.Event} (hne : id ≠ 0)
    (hr : CmdHandler.Replayed label) : CmdHandler.Others id h label := by
  obtain ⟨cmd, raw, heq⟩ := hr
  refine ⟨fun _ _ _ _ h => ?_, fun _ _ _ h => ?_, fun _ _ _ h => ?_, fun _ _ _ h => ?_, fun _ _ _ h => ?_⟩
  · rw [heq] at h
    cases h
    exact hne.symm
  all_goals
    rw [heq] at h
    cases h

theorem Booted.idle {h : CmdHandler} {id : Nat} (hb : Booted P orders fuel args disk timer h) (hne : id ≠ 0) :
    h.registry.backlogTxn.lookup id = none ∧ id ∉ h.subscribers := by
  refine hb.inv (I := fun h => h.registry.backlogTxn.lookup id = none ∧ id ∉ h.subscribers) ?_ (fun _ _ hg => hg)
    (fun _ _ hg => hg) ?_
  · intro g label g' hlabel hstep hg
    have hothers : CmdHandler.Others id g label := replayed_others hne hlabel
    exact ⟨CmdHandler.step_closed hstep hothers.others hg.1, CmdHandler.step_allowed hstep hothers.others hg.2⟩
  · intro appStates configs _ _
    exact ⟨rfl, by simp [CmdHandler.new]⟩

theorem port_lt {words : List String} : ((given AppStates.isPort words).bind parsePort).getD 6379 < 2 ^ 16 := by
  cases hport : (given AppStates.isPort words).bind parsePort with
  | none => simp
  | some port =>
    obtain ⟨v, _, hv⟩ := Option.bind_eq_some_iff.mp hport
    unfold parsePort at hv
    cases hparse : parseUint (2 ^ 16 - 1) v with
    | error e =>
      rw [hparse] at hv
      cases hv
    | ok n =>
      rw [hparse] at hv
      cases hv
      have hle := parseUint_le hparse
      simp only [Option.getD_some]
      omega

theorem main_dialled {n : Nat} {master : CmdHandler} (hm : main P orders fuel args disk timer masterFd epollFd = some s)
    (hreplica : given AppStates.isReplicaof (args.drop 1) ≠ none) (hfd : masterFd ≠ 0)
    (hauth : masterFd ∈ s.handler.auth.clients) (ha : Accepting n master) :
    Dial.Dialled n masterFd (s.dial masterFd master) := by
  have hset := main_setUp hm
  obtain ⟨h, hb, hmaster⟩ := main_booted hm
  rcases addMaster_cases hmaster with ⟨hnone, rfl⟩ | ⟨auth, _, _, rfl⟩
  · obtain ⟨v, hv⟩ := Option.ne_none_iff_exists'.mp hreplica
    have htold := hset.master
    rw [hv] at htold
    obtain ⟨host, port, _, hstats⟩ := AppStates.parseReplicaof_some.mp htold
    rw [hnone] at hstats
    cases hstats
  · have hidle := hb.idle hfd
    obtain ⟨stats, hstats, hplace⟩ := Option.map_eq_some_iff.mp hset.place
    have hport : stats.port = some (((given AppStates.isPort (args.drop 1)).bind parsePort).getD 6379) :=
      congrArg Prod.snd hplace
    have hlink : ((({ handler := h, epollFd } : Server).clients.insert masterFd (TcpClient.initHandshake {}).1).lookup
        masterFd).getD {} = (TcpClient.initHandshake {}).1 := by
      rw [AList.lookup_insert]
      rfl
    refine ⟨⟨ha.served, ha.table, ha.stats, ⟨rfl, rfl⟩, ⟨hauth, hidle.1, hidle.2⟩, ?_,
      ⟨stats, _, hstats, hport, port_lt⟩⟩,
      ha.silent, hlink, by simp [dial], rfl⟩
    exact congrArg TcpClient.replState hlink

/-- A replica that has been started finishes its handshake with whoever accepts it. -/
theorem main_connects {n : Nat} {master : CmdHandler}
    (hm : main P orders fuel args disk timer masterFd epollFd = some s)
    (hreplica : given AppStates.isReplicaof (args.drop 1) ≠ none) (hfd : masterFd ≠ 0)
    (hauth : masterFd ∈ s.handler.auth.clients) (ha : Accepting n master) {fd fd' : Int}
    {es : List Dial.Event} {d : Dial}
    (hr : Run (guarded (Dial.Kept n masterFd) (Dial.Steps P n masterFd fd fd')) (s.dial masterFd master) es d)
    (hleft : Dial.reads es < 9) (hc : Dial.Counts d.master) (o : IterOrder) :
    ∃ es' d', (∀ e ∈ es', e = .request o ∨ e = .reply o) ∧ es'.length = 9 - Dial.reads es ∧
      Run (Dial.Steps P n masterFd fd fd') d es' d' ∧ Dial.Undisturbed d d' ∧ Dial.Connected n masterFd d' := by
  obtain ⟨es', d', hreads, hlength, hrun, hsame, hconnected⟩ :=
    (Dial.run_goes (main_dialled hm hreplica hfd hauth ha) hr).connects hleft hc o
  exact ⟨es', d', hreads, hlength, hrun.mono fun _ _ _ hs => hs.2, hsame, hconnected⟩

theorem main_connects_replica : ∃ s es d, replicaMain = some s ∧ es.length = 9 ∧
    Run (Dial.Steps .blank 7 9 0 0) (s.dial 9 Dial.dialling.master) es d ∧ Dial.Connected 7 9 d := by
  have hsome : (replicaMain.bind fun s => if 9 ∈ s.handler.auth.clients then some s else none).isSome = true := by
    decide +kernel
  obtain ⟨t, ht⟩ := Option.isSome_iff_exists.mp hsome
  obtain ⟨s, hs, hauth⟩ := Option.bind_eq_some_iff.mp ht
  have hready := Dial.dialling_dialled
  have hcounts : Dial.Counts Dial.dialling.master := by
    intro stats hstats
    cases hstats
    decide
  have hin : 9 ∈ s.handler.auth.clients := by
    by_contra hno
    rw [if_neg hno] at hauth
    cases hauth
  have haccepting : Accepting 7 Dial.dialling.master :=
    ⟨hready.ready.served, hready.ready.table, hready.ready.stats, hready.silent⟩
  have hconnects : ∃ es d, (∀ e ∈ es, e = .request .asIs ∨ e = .reply .asIs) ∧ es.length = 9 ∧
      Run (Dial.Steps .blank 7 9 0 0) (s.dial 9 Dial.dialling.master) es d ∧
      Dial.Undisturbed (s.dial 9 Dial.dialling.master) d ∧ Dial.Connected 7 9 d :=
    main_connects hs (by decide) (by decide) hin haccepting .nil (by decide) hcounts .asIs
  obtain ⟨es, d, _, hlength, hrun, _, hconnected⟩ := hconnects
  exact ⟨s, es, d, hs, hlength, hrun, hconnected⟩

end

end Server

end Redis
