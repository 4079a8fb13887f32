import Redis.FollowSound
import Redis.RecoverySound

/-!
# What the records of a log rebuild

A call is of a command that its client has handed over, now or for a transaction.
So the records that a run appends to the log are requests of clients, and a replay
of them takes a key space from the content at the start of the run to the content
at its end.
-/

namespace Redis

open Lib RequestRegistry

namespace CmdHandler

open Data

def Framed (P : Platform) (cmd : Cmd) (buf : Bytes) : Prop :=
  cmd.toBeBroadcast = true → ∃ x : Command, x.value.serialize = some buf ∧ Cmd.fromResp P x.value = .ok (.ok cmd)

/-- It neither reads the clock nor blocks nor changes a key unnoticed. -/
structure Call.Lasting (P : Platform) (c : Call) : Prop where
  untimed : ¬ Timed c.cmd
  blocks : ∀ key timeoutMs, c.cmd ≠ .blpop key timeoutMs
  escapes : ¬ Escapes P c.before.data c.cmd

structure Open (h : CmdHandler) : Prop where
  txns : h.registry.backlogTxn = ∅
  lists : h.registry.backlogList = ∅
  allowed : 0 ∉ h.subscribers
  stats : h.appStates.hostStats.isSome = true
  auth : h.auth = {}

/-- A replay takes a key space from the one content to the other. -/
def Rebuilds (P : Platform) (log : List Command) (data data' : Data) : Prop :=
  ∀ g, Open g → Same data g.data → ∀ frames : List (IterOrder × RespType),
    frames.map Prod.snd = log.map Command.value →
      ∃ g', replay P 0 (-1) g frames = some g' ∧ Open g' ∧ Same data' g'.data

section
variable {P : Platform} {o : IterOrder} {h h' : CmdHandler} {data data' data'' : Data} {log log' : List Command}

/-! ## What is executed was handed over -/

theorem handed_eq {id : Nat} {label : IterOrder × Event} {cmd : Cmd} {buf : Bytes}
    (hh : handed id label = some (cmd, buf)) : ∃ fd, label.2 = .handle (.ok cmd) buf id fd := by
  obtain ⟨o, e⟩ := label
  unfold handed at hh
  split at hh
  · cases hh
  · rename_i cmd' buf' id' fd _ heq
    split at hh
    · rename_i hid
      cases hh
      exact ⟨fd, by rw [heq, hid]⟩
    · cases hh
  · cases hh

theorem runCalls_snoc {labels : List (IterOrder × Event)} {label : IterOrder × Event} {g : CmdHandler}
    (hr : Run (Steps P) h labels g) (hs : Steps P g label h') :
    runCalls P h (labels ++ [label]) = runCalls P h labels ++ g.calls P label := by
  induction hr with
  | nil =>
    rw [List.nil_append, runCalls_cons hs]
    exact List.append_nil _
  | cons hfirst _ ih => rw [List.cons_append, runCalls_cons hfirst, runCalls_cons hfirst, ih hs, List.append_assoc]

theorem run_handed {labels : List (IterOrder × Event)} (hr : Run (Steps P) h labels h')
    (hno : h.registry.backlogTxn = ∅) :
    ∀ c ∈ runCalls P h labels, ∃ label ∈ labels, ∃ id fd, label.2 = .handle (.ok c.cmd) c.buf id fd := by
  refine hr.history (I := fun labels _ => ∀ c ∈ runCalls P h labels,
    ∃ label ∈ labels, ∃ id fd, label.2 = .handle (.ok c.cmd) c.buf id fd) ?_ (fun c hc => by cases hc)
  intro before g label g' hbefore hI hs c hc
  rw [runCalls_snoc hbefore hs] at hc
  rcases List.mem_append.mp hc with hc | hc
  · obtain ⟨l, hl, hhanded⟩ := hI c hc
    exact ⟨l, List.mem_append_left _ hl, hhanded⟩
  · obtain ⟨o, e⟩ := label
    obtain ⟨cmd, buf, fd, rfl⟩ := calls_handle hc
    cases cmd with
    | error => cases hc
    | ok cmd =>
      simp only [calls] at hc
      split at hc
      · obtain ⟨hcmd, hbuf, _⟩ := callOf_asked (Option.mem_toList.mp hc)
        refine ⟨_, List.mem_append_right _ (List.mem_singleton_self _), c.clientId, fd, ?_⟩
        rw [hcmd, hbuf]
      · split at hc
        · have hqueued := (queueCalls_asked hc).2
          unfold txnQueue at hqueued
          cases hqueue : g.registry.backlogTxn.lookup c.clientId with
          | none =>
            rw [hqueue] at hqueued
            cases hqueued
          | some queue =>
            rw [hqueue, Option.getD_some] at hqueued
            have hclosed : h.registry.isTransaction c.clientId = false := by
              rw [isTransaction, hno]
              rfl
            obtain ⟨pre, o', buf', fd', since, _, _, rfl, _, _, _, _, _, hsince⟩ :=
              run_queuedSince hclosed hbefore queue hqueue
            rw [hsince] at hqueued
            obtain ⟨l, hl, hhanded⟩ := List.mem_filterMap.mp hqueued
            obtain ⟨fd'', heq⟩ := handed_eq hhanded
            exact ⟨l, by simp [hl], _, fd'', heq⟩
        · cases hc

/-! ## One record -/

theorem Open.direct (hg : Open h) (id : Nat) : h.registry.isTransaction id = false := by
  rw [isTransaction, hg.txns]
  rfl

theorem Open.congr (hg : Open h) (htxns : h'.registry.backlogTxn = h.registry.backlogTxn)
    (hlists : h'.registry.backlogList = h.registry.backlogList) (hsubs : h'.subscribers = h.subscribers)
    (hstats : h'.appStates.hostStats.isSome = h.appStates.hostStats.isSome) (hauth : h'.auth = h.auth) : Open h' :=
  ⟨htxns.trans hg.txns, hlists.trans hg.lists, hsubs ▸ hg.allowed, hstats.trans hg.stats, hauth.trans hg.auth⟩

/-- What is taken up again does what the call did. -/
theorem Call.Made.again {c : Call} {x : Command} {resp : RespType} (hm : Call.Made P o c) (hc : c.Lasting P)
    (hkind : c.cmd.toBeBroadcast = true) (hresp : c.result = .ok (some resp)) (hser : x.value.serialize = some c.buf)
    (hcmd : Cmd.fromResp P x.value = .ok (.ok c.cmd)) {g : CmdHandler} (hg : Open g) (hsame : Same c.before.data g.data)
    (o' : IterOrder) : ∃ g', replayFrame P 0 (-1) g (o', x.value) = some g' ∧ Open g' ∧ Same c.after.data g'.data := by
  obtain ⟨_, _, exec, s, d, fd, ser, out, _, _, _, hd, hconclude⟩ := hm
  have hallowed : g.refuses 0 c.cmd = false := by
    rw [refuses, isSubscriber, decide_eq_false hg.allowed]
    rfl
  obtain ⟨prepared, hp⟩ : ∃ prepared, g.prepare c.cmd c.buf (g.clientTable.isMaster 0) = some prepared := by
    apply Option.ne_none_iff_exists'.mp
    intro hnone
    have hstats := hg.stats
    rw [(prepare_eq_none.mp hnone).2.2] at hstats
    cases hstats
  have hprepared : Open prepared ∧ prepared.data = g.data := by
    have hstats := prepare_hostStats hp
    obtain ⟨s', _, rfl⟩ := prepare_frame hp
    exact ⟨hg.congr rfl rfl rfl hstats rfl, rfl⟩
  have hagain : ∃ data', Same d.data data' ∧
    dispatch P o' (cmdExec P o') prepared g.registry.timer.now (g.isSubscriber 0) 0
      (some (-1)) c.cmd = some ({ prepared with data := data' }, c.result) :=
    dispatch_same (h := c.before.prepared c.cmd s) (by rw [hprepared.2]; exact hsame) hkind hc.untimed hc.blocks hd
  obtain ⟨data', hdata, hd'⟩ := hagain
  rw [hresp] at hd'
  have hr : Replies P prepared 0 c.cmd (.ok (some resp)) :=
    dispatch_replies (fun g' r he => cmdExec_replies (hprepared.1.direct 0) he) hd'
  obtain ⟨b, hb⟩ := hr.serialize
  have hvalue : ∃ g' out, conclude o' { prepared with data := data' } c.cmd c.buf (g.clientTable.isMaster 0) true
      (.ok (some resp)) = some (g', .ok out) ∧ SameGround { prepared with data := data' } g' := conclude_value hb
  obtain ⟨g', out', hc', hground⟩ := hvalue
  refine ⟨g', ?_, ?_, ?_⟩
  · simp [replayFrame, hser, hcmd, handle, hg.direct, execute, executeCmd, hallowed, hp, hd', hc']
  · have hstats := hground.hostStats
    obtain ⟨_, _, _, _, _, _, rfl⟩ := conclude_frame hc'
    exact hprepared.1.congr rfl rfl rfl hstats rfl
  · rw [conclude_data hconclude, conclude_data hc']
    exact hdata

/-! ## A log -/

theorem Rebuilds.nil (hsame : Same data data') : Rebuilds P [] data data' := by
  intro g hg hdata frames hframes
  rw [List.map_nil, List.map_eq_nil_iff] at hframes
  rw [hframes]
  exact ⟨g, rfl, hg, hsame.symm.trans hdata⟩

theorem Rebuilds.append (hl : Rebuilds P log data data') (hl' : Rebuilds P log' data' data'') :
    Rebuilds P (log ++ log') data data'' := by
  intro g hg hdata frames hframes
  rw [List.map_append, List.map_eq_append_iff] at hframes
  obtain ⟨first, second, rfl, hfirst, hsecond⟩ := hframes
  obtain ⟨g₁, hreplay, hg₁, hdata₁⟩ := hl g hg hdata first hfirst
  obtain ⟨g₂, hreplay₂, hg₂, hdata₂⟩ := hl' g₁ hg₁ hdata₁ second hsecond
  refine ⟨g₂, ?_, hg₂, hdata₂⟩
  have hboth : replay P 0 (-1) g (first ++ second) = (replay P 0 (-1) g first).bind fun g => replay P 0 (-1) g second :=
    List.foldlM_append
  rw [hboth, hreplay]
  exact hreplay₂

theorem Call.frames_cases (c : Call) :
    c.frames = [] ∨ ∃ resp, c.frames = [c.buf] ∧ c.cmd.toBeBroadcast = true ∧ c.result = .ok (some resp) := by
  rcases c.sent_cases with ⟨_, hnil⟩ | ⟨_, hnil⟩ | ⟨resp, _, hkind, hresp⟩
  · exact .inl hnil
  · exact .inl hnil
  · refine .inr ⟨resp, ?_, hkind, hresp⟩
    simp [frames, hresp, hkind]

/-- The record of a call, if it has one. -/
theorem Call.Made.rebuilds {c : Call} (hm : Call.Made P o c) (hc : c.Lasting P) (hf : Framed P c.cmd c.buf) :
    ∃ log, c.frames.flatten = logText log ∧ Rebuilds P log c.before.data c.after.data := by
  rcases c.frames_cases with hnil | ⟨resp, hone, hkind, hresp⟩
  · refine ⟨[], by rw [hnil]; rfl, Rebuilds.nil (hm.unsent hc.escapes hnil)⟩
  · obtain ⟨x, hser, hcmd⟩ := hf hkind
    refine ⟨[x], ?_, ?_⟩
    · have hframe : x.value.frame = c.buf := by rw [RespType.frame, hser, Option.getD_some]
      simp [hone, logText, hframe]
    · intro g hg hdata frames hframes
      obtain ⟨⟨o', t⟩, rfl, ht⟩ := List.map_eq_singleton_iff.mp hframes
      obtain rfl : t = x.value := ht
      obtain ⟨g', hreplay, hg', hdata'⟩ := hm.again hc hkind hresp hser hcmd hg hdata o'
      refine ⟨g', ?_, hg', hdata'⟩
      rw [replay, List.foldlM_cons, hreplay]
      rfl

theorem calls_rebuild {cs : List Call}
    (hr : Run (fun data c data' => Links data c data' ∧ ∃ o, Call.Made P o c) data cs data')
    (hcs : ∀ c ∈ cs, c.Lasting P ∧ Framed P c.cmd c.buf) :
    ∃ log, (cs.flatMap Call.frames).flatten = logText log ∧ Rebuilds P log data data' := by
  induction hr with
  | nil => exact ⟨[], rfl, Rebuilds.nil (.refl _)⟩
  | @cons _ c _ cs _ hlink _ ih =>
    obtain ⟨⟨rfl, rfl⟩, _, hm⟩ := hlink
    obtain ⟨hc, hf⟩ := hcs c (List.mem_cons_self ..)
    obtain ⟨first, htext, hfirst⟩ := hm.rebuilds hc hf
    obtain ⟨rest, htexts, hrest⟩ := ih fun d hd => hcs d (List.mem_cons_of_mem _ hd)
    refine ⟨first ++ rest, ?_, hfirst.append hrest⟩
    rw [List.flatMap_cons, List.flatten_append, htext, htexts, logText_append]

/-! ## A run -/

theorem run_log {labels : List (IterOrder × Event)} (hr : Run (Steps P) h labels h') :
    h'.log = h.log.map (· ++ (runCalls P h labels).flatMap Call.frames) := by
  induction hr with
  | nil => simp [runCalls, collect]
  | cons hs _ ih =>
    rw [ih, step_log hs, runCalls_cons hs, Option.map_map, List.flatMap_append]
    congr 1
    funext lines
    exact List.append_assoc ..

/-- What a run appends to the log takes its key space from the start to the end. -/
theorem run_rebuilds {labels : List (IterOrder × Event)} (hr : Run (Steps P) h labels h')
    (htxns : h.registry.backlogTxn = ∅) (hlists : h.registry.backlogList = ∅)
    (hframed : ∀ label ∈ labels, ∀ cmd buf id fd, label.2 = .handle (.ok cmd) buf id fd → Framed P cmd buf)
    (hcalls : ∀ c ∈ runCalls P h labels, c.Lasting P) :
    ∃ log, ((runCalls P h labels).flatMap Call.frames).flatten = logText log ∧ Rebuilds P log h.data h'.data := by
  have hchain : Run (fun data c data' => Links data c data' ∧ ∃ o, Call.Made P o c) h.data
      (runCalls P h labels) h'.data :=
    run_chain hr (fun c hc => (hcalls c hc).blocks) (fun o c _ hm => ⟨⟨rfl, rfl⟩, o, hm⟩) hlists
  refine calls_rebuild hchain fun c hc => ⟨hcalls c hc, ?_⟩
  obtain ⟨label, hl, id, fd, heq⟩ := run_handed hr htxns c hc
  exact hframed label hl _ _ _ _ heq

/-! ## The replay of a file -/

theorem map_inOrder (orders : Nat → IterOrder) (start : Nat) (values : List RespType) :
    (inOrder orders start values).map Prod.snd = values := by
  unfold inOrder
  rw [List.map_map]
  exact List.zipIdx_map_fst start values

/-- The end of the file is not lost at the cuts between its pieces. -/
def Whole (file : Bytes) : Prop :=
  ∀ log : List Command, file = logText log → ∀ c, log.getLast? = some c →
    cursorAfter (cutsIn c.bodyLength (filePieces file)) < c.bodyLength

theorem replays_log (hwhole : Whole (logText log)) : Replays (logText log) (log.map Command.value) := by
  have hser : RespType.serializeAll (log.map Command.value) = some (filePieces (logText log)).flatten := by
    rw [serializeAll_commands, flatten_filePieces]
  obtain ⟨q, values, hall, hiff⟩ := RespParser.readsAll_iff _ _ (filePieces_ne_nil _) hser
  have hvalues : values = log.map Command.value := hiff.mpr (hwhole log rfl)
  rw [← hvalues]
  exact replays_of_readsAll hall

theorem whole_of_length_le {file : Bytes} (hle : file.length ≤ bufferSize) : Whole file := by
  intro log _ c _
  have hcuts : cutsIn c.bodyLength (filePieces file) = [] := by
    unfold filePieces
    cases file with
    | nil => rfl
    | cons b bytes =>
      rw [List.length_cons, pieces, if_neg (List.cons_ne_nil b bytes), List.take_of_length_le hle,
        List.drop_of_length_le hle]
      have hnone : pieces bufferSize bytes.length [] = [] := by
        cases bytes.length <;> simp [pieces]
      rw [hnone]
      simp [cutsIn]
  rw [hcuts]
  simp [cursorAfter, Command.bodyLength]

end

end CmdHandler

namespace RespParser

variable {σ : Type} {exec : σ → RespType → Option σ}

theorem replayLoop_mono {fuel fuel' : Nat} (hle : fuel ≤ fuel') {p : RespParser} {s : σ} {r : RespParser × σ}
    (h : p.replayLoop exec fuel s = some r) : p.replayLoop exec fuel' s = some r := by
  induction fuel generalizing fuel' p s with
  | zero => cases h
  | succ fuel ih =>
    obtain ⟨fuel', rfl⟩ : ∃ k, fuel' = k + 1 := ⟨fuel' - 1, by omega⟩
    have hle' : fuel ≤ fuel' := by omega
    rw [replayLoop] at h ⊢
    cases hp : p.parse false fuel with
    | none =>
      rw [hp] at h
      cases h
    | some x =>
      rw [hp] at h
      rw [parse_mono hle' hp]
      simp only at h ⊢
      split at h
      · exact h
      · obtain ⟨t, ht, hrest⟩ := Option.bind_eq_some_iff.mp h
        rw [ht, Option.bind_some]
        exact ih hle' hrest

theorem replayPieces_mono {fuel fuel' : Nat} (hle : fuel ≤ fuel') {pieces : List Bytes} {p : RespParser} {s : σ}
    {r : RespParser × σ} (h : p.replayPieces exec fuel s pieces = some r) :
    p.replayPieces exec fuel' s pieces = some r := by
  induction pieces generalizing p s with
  | nil => exact h
  | cons piece rest ih =>
    obtain ⟨x, hx, hrest⟩ := Option.bind_eq_some_iff.mp h
    rw [replayPieces, replayLoop_mono hle hx, Option.bind_some]
    exact ih hrest

end RespParser

namespace CmdHandler

variable {P : Platform} {orders : Nat → IterOrder} {fuel fuel' : Nat} {h g : CmdHandler} {log : List Command}

theorem replayFile_mono (hle : fuel ≤ fuel') {file : Bytes} (hr : replayFile P orders fuel h file = some g) :
    replayFile P orders fuel' h file = some g := by
  obtain ⟨x, hx, rfl⟩ := Option.map_eq_some_iff.mp hr
  rw [replayFile, RespParser.replayPieces_mono hle hx]
  rfl

/-- The log file is replayed to what its records rebuild. -/
theorem replayFile_rebuilds (hwhole : Whole (logText log)) : ∃ fuel₀, ∀ fuel, fuel₀ ≤ fuel →
    ∀ orders {h data data'}, Rebuilds P log data data' → Open h → Data.Same data h.data → ∃ g,
      replayFile P orders fuel h (logText log) = some g ∧ Open g ∧ Data.Same data' g.data := by
  obtain ⟨fuel₀, h₀⟩ := replays_log hwhole
  refine ⟨fuel₀, fun fuel hle orders h data data' hl hg hdata => ?_⟩
  rw [h₀ fuel hle]
  exact hl h hg hdata _ (map_inOrder orders 0 _)

end CmdHandler

end Redis
