import Redis.AnswerSound
import Redis.CmdBuilder

/-!
# Replay of logged commands

What the log file holds are the requests of the clients, and `aof_replay` runs
them again, as a replica does with what its master sends. The same values come
out if no request takes the clock into them: SET with EX or PX stores a
deadline, and XADD with the id `*` an id, that are read off the clock.
-/

namespace Redis

open Lib

namespace CmdHandler

/-- `Cmd::from_resp` and `handle`, for a value that was parsed. -/
def replayFrame (P : Platform) (clientId : Nat) (epollFd : Int) (h : CmdHandler) (frame : IterOrder × RespType) :
    Option CmdHandler :=
  match frame.2.serialize, Cmd.fromResp P frame.2 with
  | some raw, .ok cmd => (h.handle P frame.1 cmd raw clientId epollFd).map Prod.fst
  | _, _ => none

def replay (P : Platform) (clientId : Nat) (epollFd : Int) (h : CmdHandler) (frames : List (IterOrder × RespType)) :
    Option CmdHandler :=
  frames.foldlM (replayFrame P clientId epollFd) h

structure Request where
  order : IterOrder
  frame : RespType
  cmd : Cmd
  raw : Bytes
  clientId : Nat
  epollFd : Int

/-- A command of the logged kind is executed by `handle` itself, and its frame
is appended to the log. -/
structure Appends (P : Platform) (h : CmdHandler) (q : Request) (h' : CmdHandler) : Prop where
  serialize : q.frame.serialize = some q.raw
  decode : Cmd.fromResp P q.frame = .ok (.ok q.cmd)
  kind : q.cmd.toBeBroadcast = true
  direct : h.registry.isTransaction q.clientId = false
  handled : ∃ b, h.handle P q.order (.ok q.cmd) q.raw q.clientId q.epollFd = some (h', .ok b)
  appended : ∃ written, h.aof = some ⟨some written⟩ ∧ h'.aof = some ⟨some (written ++ [q.raw])⟩

def Timed : Cmd → Prop
  | .set _ _ (some (.ex _)) | .set _ _ (some (.px _)) => True
  | .xadd _ id _ => id = (none, none)
  | _ => False

structure Fresh (h : CmdHandler) (clientId : Nat) : Prop where
  data : h.data = ∅
  queues : h.registry.backlogList = ∅
  direct : h.registry.isTransaction clientId = false
  allowed : h.isSubscriber clientId = false
  counted : h.clientTable.isMaster clientId = true ∨ h.appStates.hostStats.isSome = true

section
variable {P : Platform} {o o' : IterOrder} {h g : CmdHandler} {clientId : Nat} {epollFd : Option Int}

/-! ## One command -/

structure Mirrors (h g : CmdHandler) : Prop where
  data : g.data = h.data
  queues : h.registry.backlogList = ∅
  queues' : g.registry.backlogList = ∅

theorem cmdSet_untimed {data : Data} {key value : String} {opt : Option CmdArg} (htimed : ¬ Timed (.set key value opt))
    (now now' : Nat) : cmdSet data key value opt now = cmdSet data key value opt now' := by
  cases opt with
  | none => rfl
  | some arg =>
    cases arg with
    | ex => exact absurd trivial htimed
    | px => exact absurd trivial htimed
    | _ => rfl

theorem nextStreamId_untimed {last : Option (Nat × Nat)} {id : Option Nat × Option Nat} (hid : id ≠ (none, none))
    (now now' : Nat) : nextStreamId last now id = nextStreamId last now' id := by
  obtain ⟨_ | t, _ | i⟩ := id
  · exact absurd rfl hid
  · rfl
  · rfl
  · rfl

theorem cmdXadd_untimed {data : Data} {key : String} {id : Option Nat × Option Nat} {value : List String}
    (htimed : ¬ Timed (.xadd key id value)) (now now' : Nat) :
    cmdXadd data key id value now = cmdXadd data key id value now' := by
  unfold cmdXadd
  simp only [nextStreamId_untimed htimed now now']

theorem cmdBlpop_waits {data : Data} {registry : RequestRegistry} {key : String} {timeoutMs : Option Nat} {now : Nat}
    (hq : registry.backlogList = ∅) {resp : RespType} :
    (cmdBlpop data registry key timeoutMs clientId now).2 ≠ .ok (some resp) := by
  have hempty : registry.isBacklogListEmpty key = false := by
    rw [RequestRegistry.isBacklogListEmpty, hq]
    rfl
  generalize hb : cmdBlpop data registry key timeoutMs clientId now = b
  obtain ⟨⟨data', registry'⟩, r⟩ := b
  rcases cmdBlpop_cases hb with ⟨_, _, _, _, hq, _⟩ | ⟨_, _, rfl⟩ | ⟨_, _, _, rfl⟩
  · rw [hempty] at hq
    cases hq
  · exact fun heq => by cases heq
  · exact fun heq => by cases heq

/-- A logged command that does not read the clock does the same to the same data. -/
theorem dispatch_mirrors {exec exec' : CmdHandler → Nat → Option (CmdHandler × CmdResult)} {now now' clientId' : Nat}
    {isSubscriber isSubscriber' : Bool} {epollFd' : Option Int} {cmd : Cmd} {h' : CmdHandler} {resp : RespType}
    (hm : Mirrors h g) (hkind : cmd.toBeBroadcast = true) (htimed : ¬ Timed cmd)
    (hd : dispatch P o exec h now isSubscriber clientId epollFd cmd = some (h', .ok (some resp))) :
    ∃ data, h' = { h with data } ∧
      dispatch P o' exec' g now' isSubscriber' clientId' epollFd' cmd = some ({ g with data }, .ok (some resp)) := by
  have hwrite : ∀ w w' : Data × CmdResult, w' = w → h.withData w = (h', .ok (some resp)) →
      ∃ data, h' = { h with data } ∧ g.withData w' = ({ g with data }, .ok (some resp)) := by
    rintro w w' rfl hw
    obtain ⟨rfl, hr⟩ := Prod.mk.inj hw
    exact ⟨w'.1, rfl, Prod.ext rfl hr⟩
  have hdata := hm.data
  cases cmd <;> simp only [dispatch, Option.some.injEq] at hd ⊢
  case set key value opt =>
    obtain ⟨w, hw, heq⟩ := Option.map_eq_some_iff.mp hd
    rw [hdata, cmdSet_untimed htimed now' now, hw]
    simpa using hwrite w w rfl heq
  case rpush => exact hwrite _ _ (by rw [hdata]) hd
  case lpush => exact hwrite _ _ (by rw [hdata]) hd
  case lpop => exact hwrite _ _ (by rw [hdata]) hd
  case incr => exact hwrite _ _ (by rw [hdata]) hd
  case xadd => exact hwrite _ _ (by rw [hdata, cmdXadd_untimed htimed]) hd
  case setbit => exact hwrite _ _ (by rw [hdata]) hd
  case bitop => exact hwrite _ _ (by rw [hdata]) hd
  case blpop => exact absurd (Prod.mk.inj hd).2 (cmdBlpop_waits hm.queues)
  all_goals cases hkind

/-! ## One request -/

theorem Effect.aof {now : Nat} {cmd : Cmd} {h' : CmdHandler} {r : CmdResult}
    (he : Effect P o h now clientId epollFd cmd h' r) : h'.aof = h.aof := by
  cases he with
  | ack _ ha =>
    obtain ⟨_, _, rfl, _⟩ := cmdAck_frame ha
    rfl
  | _ => rfl

/-- What a replay depends on is the same, and the stats are still there. -/
structure SameGround (h h' : CmdHandler) : Prop where
  data : h'.data = h.data
  registry : h'.registry = h.registry
  subscribers : h'.subscribers = h.subscribers
  clientTable : h'.clientTable = h.clientTable
  hostStats : h'.appStates.hostStats.isSome = h.appStates.hostStats.isSome

theorem propagate_sameGround (h : CmdHandler) (cmd : Cmd) (buf : Bytes) : SameGround h (h.propagate o cmd buf) := by
  unfold propagate
  split <;> exact ⟨rfl, rfl, rfl, rfl, rfl⟩

theorem countFromMaster_sameGround (h : CmdHandler) (buf : Bytes) (isMaster : Bool) :
    SameGround h (h.countFromMaster buf isMaster) := by
  unfold countFromMaster
  split
  · exact ⟨rfl, rfl, rfl, rfl, by simp [AppStates.hostAddBytesCount]⟩
  · exact ⟨rfl, rfl, rfl, rfl, rfl⟩

theorem SameGround.trans {h₁ h₂ h₃ : CmdHandler} (h : SameGround h₁ h₂) (h' : SameGround h₂ h₃) : SameGround h₁ h₃ where
  data := h'.data.trans h.data
  registry := h'.registry.trans h.registry
  subscribers := h'.subscribers.trans h.subscribers
  clientTable := h'.clientTable.trans h.clientTable
  hostStats := h'.hostStats.trans h.hostStats

theorem conclude_value {d : CmdHandler} {cmd : Cmd} {buf b : Bytes} {isMaster : Bool} {resp : RespType}
    (hb : resp.serialize = some b) :
    ∃ h' out, d.conclude o cmd buf isMaster true (.ok (some resp)) = some (h', .ok out) ∧ SameGround d h' := by
  have hflags : SameGround d { d with flagBacklogList := cmd.isFlagList, flagBacklogStream := cmd.isFlagStream } :=
    ⟨rfl, rfl, rfl, rfl, rfl⟩
  have hground := (hflags.trans (propagate_sameGround (o := o) _ cmd buf)).trans
    (countFromMaster_sameGround _ buf isMaster)
  simp only [conclude, hb, Option.map_some, if_true]
  split
  · exact ⟨_, _, rfl, hground⟩
  · exact ⟨_, _, rfl, hground⟩

theorem prepare_isTransaction {cmd : Cmd} {buf : Bytes} {isMaster : Bool} {prepared : CmdHandler}
    (hp : h.prepare cmd buf isMaster = some prepared) :
    prepared.registry.isTransaction clientId = h.registry.isTransaction clientId := by
  obtain ⟨s, -, rfl⟩ := prepare_frame hp
  rfl

/-- A request that is appended to the log was answered with a value. -/
theorem Appends.inv {q : Request} {h' : CmdHandler} (ha : Appends P h q h') :
    ∃ prepared d resp b, h.prepare q.cmd q.raw (h.clientTable.isMaster q.clientId) = some prepared ∧
      dispatch P q.order (cmdExec P q.order) prepared h.registry.timer.now (h.isSubscriber q.clientId) q.clientId
        (some q.epollFd) q.cmd = some (d, .ok (some resp)) ∧ resp.serialize = some b ∧ SameGround d h' := by
  obtain ⟨b, hh⟩ := ha.handled
  obtain ⟨written, haof, haof'⟩ := ha.appended
  have hgrown : h'.aof ≠ h.aof := by
    rw [haof, haof']
    simp
  obtain ⟨out, he, hout⟩ := handle_closed ha.direct hh
  obtain ⟨-, ⟨b', rfl⟩, -⟩ | ⟨-, prepared, d, r, hp, hd, hc⟩ := executeCmd_cases he
  · cases hout
  · have hopen : prepared.registry.isTransaction q.clientId = false := (prepare_isTransaction hp).trans ha.direct
    cases r with
    | error e =>
      cases hc
      cases hout
    | ok r =>
      cases r with
      | none =>
        cases hc
        -- nothing was appended
        have hnested : NotNested (cmdExec P q.order) prepared q.clientId :=
          cmdExec_notNested (AList.lookup_eq_none.mpr (of_decide_eq_false hopen))
        have hsame : h'.aof = h.aof := by
          rw [(dispatch_effect hnested hd).aof]
          obtain ⟨s, -, rfl⟩ := prepare_frame hp
          rfl
        exact absurd hsame hgrown
      | some resp =>
        have hr : Replies P prepared q.clientId q.cmd (.ok (some resp)) :=
          dispatch_replies (fun g r hg => cmdExec_replies hopen hg) hd
        obtain ⟨b, hb⟩ := hr.serialize
        have hvalue : ∃ h' out, d.conclude q.order q.cmd q.raw (h.clientTable.isMaster q.clientId) true
            (.ok (some resp)) = some (h', .ok out) ∧ SameGround d h' := conclude_value hb
        obtain ⟨h', out', hc', hground⟩ := hvalue
        rw [hc'] at hc
        cases hc
        exact ⟨prepared, d, resp, b, hp, hd, hb, hground⟩

structure Ready (h g : CmdHandler) (clientId : Nat) : Prop extends Mirrors h g where
  direct : g.registry.isTransaction clientId = false
  allowed : g.isSubscriber clientId = false
  counted : g.clientTable.isMaster clientId = true ∨ g.appStates.hostStats.isSome = true

theorem prepare_hostStats {cmd : Cmd} {buf : Bytes} {isMaster : Bool} {prepared : CmdHandler}
    (hp : h.prepare cmd buf isMaster = some prepared) :
    prepared.appStates.hostStats.isSome = h.appStates.hostStats.isSome := by
  unfold prepare countWrite at hp
  split at hp
  · obtain ⟨s, -, rfl⟩ := Option.map_eq_some_iff.mp hp
    simp [AppStates.hostAddBytesCount]
  · cases hp
    rfl

/-- What is replayed does what the request did. -/
theorem Appends.replay {q : Request} {h' : CmdHandler} (ha : Appends P h q h') (htimed : ¬ Timed q.cmd)
    (hg : Ready h g clientId) (o : IterOrder) {fd : Int} :
    ∃ g', replayFrame P clientId fd g (o, q.frame) = some g' ∧ Ready h' g' clientId := by
  obtain ⟨prepared, d, resp, b, hp, hd, hb, hground⟩ := ha.inv
  have hrefuses : g.refuses clientId q.cmd = false := by
    rw [refuses, hg.allowed]
    rfl
  obtain ⟨prepared', hp'⟩ : ∃ prepared', g.prepare q.cmd q.raw (g.clientTable.isMaster clientId) = some prepared' := by
    apply Option.ne_none_iff_exists'.mp
    rw [Ne, prepare_eq_none]
    rintro ⟨-, hmaster, hnone⟩
    obtain hm | hs := hg.counted
    · rw [hmaster] at hm
      cases hm
    · rw [hnone] at hs
      cases hs
  have hmirrors : Mirrors prepared prepared' := by
    obtain ⟨s, -, rfl⟩ := prepare_frame hp
    obtain ⟨s', -, rfl⟩ := prepare_frame hp'
    exact ⟨hg.data, hg.queues, hg.queues'⟩
  have hdispatch : ∃ data, d = { prepared with data } ∧
      dispatch P o (cmdExec P o) prepared' g.registry.timer.now (g.isSubscriber clientId) clientId (some fd) q.cmd =
        some ({ prepared' with data }, .ok (some resp)) := dispatch_mirrors hmirrors ha.kind htimed hd
  obtain ⟨data, rfl, hd'⟩ := hdispatch
  have hvalue : ∃ g' out, conclude o { prepared' with data } q.cmd q.raw (g.clientTable.isMaster clientId) true
      (.ok (some resp)) = some (g', .ok out) ∧ SameGround { prepared' with data } g' := conclude_value hb
  obtain ⟨g', out, hc', hground'⟩ := hvalue
  refine ⟨g', ?_, ?_⟩
  · simp [replayFrame, ha.serialize, ha.decode, handle, hg.direct, execute, executeCmd, hrefuses, hp', hd', hc']
  · have hstats : g'.appStates.hostStats.isSome = g.appStates.hostStats.isSome := by
      have hprepared := prepare_hostStats hp'
      rw [hground'.hostStats]
      exact hprepared
    obtain ⟨s, -, rfl⟩ := prepare_frame hp
    obtain ⟨s', -, rfl⟩ := prepare_frame hp'
    constructor
    · refine ⟨hground'.data.trans hground.data.symm, ?_, ?_⟩
      · rw [hground.registry]
        exact hg.queues
      · rw [hground'.registry]
        exact hg.queues'
    · rw [hground'.registry]
      exact hg.direct
    · rw [isSubscriber, hground'.subscribers]
      exact hg.allowed
    · rw [hground'.clientTable, hstats]
      exact hg.counted

/-! ## A log -/

/-- What was logged is the frames, in the order of the requests. -/
theorem appended_log {h₀ : CmdHandler} {qs : List Request} (hr : Run (Appends P) h₀ qs h) {written : List Bytes}
    (hlog : h₀.aof = some ⟨some written⟩) : h.aof = some ⟨some (written ++ qs.map Request.raw)⟩ := by
  induction hr generalizing written with
  | nil => simpa using hlog
  | cons ha _ ih =>
    obtain ⟨written', haof, haof'⟩ := ha.appended
    rw [hlog] at haof
    cases haof
    rw [ih haof']
    simp

/-- The values of a log of requests that take no time are rebuilt from its frames. -/
theorem replay_rebuilds {h₀ h g₀ : CmdHandler} {qs : List Request} (hr : Run (Appends P) h₀ qs h)
    (hdata : h₀.data = ∅) (hqueues : h₀.registry.backlogList = ∅) (hlog : h₀.aof = some ⟨some []⟩)
    (hfresh : Fresh g₀ clientId) (htimed : ∀ q ∈ qs, ¬ Timed q.cmd) :
    h.aof = some ⟨some (qs.map Request.raw)⟩ ∧
      ∀ (fd : Int) (frames : List (IterOrder × RespType)), frames.map Prod.snd = qs.map Request.frame →
        ∃ g, replay P clientId fd g₀ frames = some g ∧ g.data = h.data := by
  refine ⟨by simpa using appended_log hr hlog, fun fd frames hframes => ?_⟩
  suffices hgen : ∀ {h₁ h₂ : CmdHandler} {qs : List Request} (g : CmdHandler) (frames : List (IterOrder × RespType)),
      Run (Appends P) h₁ qs h₂ → Ready h₁ g clientId → (∀ q ∈ qs, ¬ Timed q.cmd) →
      frames.map Prod.snd = qs.map Request.frame → ∃ g', replay P clientId fd g frames = some g' ∧ g'.data = h₂.data by
    refine hgen g₀ frames hr ⟨⟨?_, hqueues, hfresh.queues⟩, hfresh.direct, hfresh.allowed,
      hfresh.counted⟩ htimed hframes
    rw [hfresh.data, hdata]
  intro h₁ h₂ qs g frames hr hready htimed hframes
  induction hr generalizing g frames with
  | nil =>
    obtain rfl : frames = [] := by simpa using hframes
    exact ⟨g, rfl, hready.data⟩
  | @cons _ q _ qs _ ha _ ih =>
    cases frames with
    | nil => cases hframes
    | cons f frames =>
      obtain ⟨hf, hfs⟩ := List.cons.inj hframes
      obtain ⟨o, t⟩ := f
      obtain rfl : t = q.frame := hf
      obtain ⟨g', hstep, hready'⟩ := ha.replay (htimed q (List.mem_cons_self ..)) hready o
      obtain ⟨g'', hrest, hdata'⟩ := ih g' frames hready' (fun q hq => htimed q (List.mem_cons_of_mem _ hq)) hfs
      refine ⟨g'', ?_, hdata'⟩
      rw [replay, List.foldlM_cons, hstep]
      exact hrest

end

def requestOfWords (words : List String) (cmd : Cmd) : Request where
  order := .asIs
  frame := .arrayOf (words.map .bulk)
  cmd := cmd
  raw := (RespType.arrayOf (words.map .bulk)).frame
  clientId := 1
  epollFd := 0

def loggingAt (now : Nat) : CmdHandler :=
  { CmdHandler.new { clock := fun _ => now } startup.appStates with aof := some ⟨some []⟩ }

theorem fresh_loggingAt (now clientId : Nat) : Fresh (loggingAt now) clientId :=
  ⟨rfl, rfl, rfl, rfl, .inr rfl⟩

def pushRequest : Request := requestOfWords ["RPUSH", "k", "a"] (.rpush "k" ["a"])

theorem appends_push : ∃ h, Appends .blank (loggingAt 0) pushRequest h :=
  ⟨_, rfl, rfl, rfl, rfl, ⟨_, rfl⟩, ⟨[], rfl, rfl⟩⟩

theorem replay_rebuilds_push : ∃ h, Run (Appends .blank) (loggingAt 0) [pushRequest] h ∧
    h.aof = some ⟨some [pushRequest.raw]⟩ ∧
      ∀ (fd : Int) (frames : List (IterOrder × RespType)), frames.map Prod.snd = [pushRequest.frame] →
        ∃ g, replay .blank 0 fd (loggingAt 7) frames = some g ∧ g.data = h.data := by
  obtain ⟨h, ha⟩ := appends_push
  have hr : Run (Appends .blank) (loggingAt 0) [pushRequest] h := .cons ha .nil
  exact ⟨h, hr, replay_rebuilds hr rfl rfl rfl (fresh_loggingAt 7 0) (by simp [pushRequest, requestOfWords, Timed])⟩

/-- The deadline of a key counts from the replay. -/
theorem expiry_postponed : let q := requestOfWords ["SET", "k", "v", "PX", "100"] (.set "k" "v" (some (.px (some 100))))
    ∃ h g, Run (Appends .blank) (loggingAt 0) [q] h ∧
      replay .blank 0 (-1) (loggingAt 5) [(.asIs, q.frame)] = some g ∧ g.data ≠ h.data := by
  refine ⟨_, _, .cons ⟨rfl, rfl, rfl, rfl, ⟨_, rfl⟩, ⟨[], rfl, rfl⟩⟩ .nil, rfl, fun heq => ?_⟩
  have hexpiry := congrArg (fun d => (AList.lookup "k" d).map StoreItem.expiredAt) heq
  exact absurd hexpiry (by decide)

end CmdHandler

end Redis
