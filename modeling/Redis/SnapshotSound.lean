import Redis.PropagationSound
import Redis.ReplicaSound

/-!
# Offsets on both sides

A master counts the write commands it is sent, a replica the bytes it is sent.
What the master queues to a replica is taken up in order, so the replica is as
far as the master once it has taken up what was queued, if it was attached
before anything was counted and each command that is counted is queued.
-/

namespace Redis

open Lib CmdHandler

structure Pair where
  master : CmdHandler
  replica : Option Replica := none
  /-- What has happened to the replica since. -/
  seen : List Replica.Event := []

def CmdHandler.queuedTo (h : CmdHandler) (s : Nat) : Bytes := (h.responseQueue.filter fun m => m.1 = s).flatMap Prod.snd

namespace Pair

inductive Event where
  | master (label : IterOrder × CmdHandler.Event)
  /-- The replica sends PSYNC, and reads the answer to the end of the RDB. -/
  | attach (o : IterOrder) (buf : Bytes) (epollFd : Int) (r : Replica)
  | replica (e : Replica.Event)

inductive Steps (P : Platform) (s m : Nat) (fd : Int) (p : Pair) : Event → Pair → Prop
  | master {label h'} : p.master.Steps P label h' → Steps P s m fd p (.master label) { p with master := h' }
  | attach {o buf epollFd h' out r} : p.replica = none →
    p.master.handle P o (.ok (.psync "?" (-1))) buf s epollFd = some (h', out) → s ∈ h'.clientTable.listSlave →
    Replica.Synced m r →
    Steps P s m fd p (.attach o buf epollFd r) { master := { h' with responseQueue := [] }, replica := some r }
  | replica {e r r'} : p.replica = some r → Replica.Steps P m fd r e r' →
    (Replica.received (p.seen ++ [e])).flatten <+: p.master.queuedTo s →
    Steps P s m fd p (.replica e) { p with replica := some r', seen := p.seen ++ [e] }

/-- The master has no master of its own, and the two stay connected. -/
structure Connected (s m : Nat) (p : Pair) (e : Event) : Prop where
  master : ∀ label, e = .master label → StaysMaster p.master label
  slave : ∀ label, e = .master label → p.replica.isSome = true → ∀ clientTable appStates auth,
    label.2 = .process clientTable appStates auth → s ∈ clientTable.listSlave
  replica : ∀ e' r, e = .replica e' → p.replica = some r → Replica.Linked m r e'

/-- The replica is attached before anything is counted; then no write command
fails or blocks, and the replica counts each frame. -/
structure Abreast (P : Platform) (m : Nat) (p : Pair) (e : Event) : Prop where
  attach : ∀ o buf epollFd r, e = .attach o buf epollFd r → p.master.hostOffset = some 0
  writes : ∀ label, e = .master label → p.replica.isSome = true → ∀ c ∈ p.master.calls P label, c.Keeps
  replica : ∀ e' r, e = .replica e' → p.replica = some r → Replica.Tracked P m r e'

end Pair

namespace CmdHandler

section
variable {P : Platform} {o : IterOrder} {h h' : CmdHandler} {s : Nat}

/-! ## The master -/

theorem queuedTo_append {new : List (Nat × Bytes)} (hq : h'.responseQueue = h.responseQueue ++ new) :
    h'.queuedTo s = h.queuedTo s ++ (new.filter fun m => m.1 = s).flatMap Prod.snd := by
  rw [queuedTo, hq, List.filter_append, List.flatMap_append]
  rfl

theorem queuedTo_le (hg : Grows h h') : (h.queuedTo s).length ≤ (h'.queuedTo s).length := by
  obtain ⟨new, hq⟩ := hg.queue
  rw [queuedTo_append hq, List.length_append]
  exact Nat.le_add_right _ _

theorem queuedTo_propagated {buf : Bytes} (hp : Propagated h h' buf) (hs : s ∈ h.clientTable.listSlave) :
    (h.queuedTo s).length + buf.length ≤ (h'.queuedTo s).length := by
  obtain ⟨new, hq, hall⟩ := hp.2
  rw [queuedTo_append hq, List.length_append]
  have hin : (s, buf) ∈ new.filter fun m => m.1 = s := List.mem_filter.mpr ⟨hall s hs, by simp⟩
  obtain ⟨pre, post, hsplit⟩ := List.append_of_mem hin
  rw [hsplit]
  simp
  omega

theorem Call.Made.grows {c : Call} (hm : Call.Made P o c) : Grows c.before c.after := by
  obtain ⟨_, _, exec, a, d, fd, ser, out, _, _, hexec, hd, hc⟩ := hm
  have hg := (dispatch_effect hexec hd).grows.trans (conclude_grows hc)
  exact ⟨hg.log, hg.queue, hg.slaves⟩

theorem Call.Made.propagated {c : Call} (hm : Call.Made P o c) (hb : c.cmd.toBeBroadcast = true)
    (hv : Valued c.result) : Propagated c.before c.after c.buf := by
  obtain ⟨_, _, exec, a, d, fd, ser, out, _, _, hexec, hd, hc⟩ := hm
  obtain ⟨resp, hr⟩ := hv
  rw [hr] at hc
  have hg := (dispatch_effect hexec hd).grows
  have hp := (conclude_propagated hc hb).extend hg (.refl c.after)
  exact hp

structure Level (s : Nat) (h : CmdHandler) : Prop where
  master : h.clientTable.master = none
  slave : s ∈ h.clientTable.listSlave
  offset : ∃ x, h.hostOffset = some x ∧ x ≤ (h.queuedTo s).length

theorem Level.call {c : Call} (hm : Call.Made P o c) (hk : c.Keeps) (hl : Level s c.before) : Level s c.after := by
  obtain ⟨x, hx, hle⟩ := hl.offset
  have hother : c.before.clientTable.isMaster c.clientId = false := by simp [ClientTable.isMaster, hl.master]
  obtain ⟨hsame, hoffset⟩ := hm.offset hother hx
  have hgrow := queuedTo_le (s := s) hm.grows
  refine ⟨hsame.trans hl.master, hm.grows.slaves s hl.slave, _, hoffset, ?_⟩
  unfold Call.counted
  cases hb : c.cmd.toBeBroadcast with
  | false =>
    have hsame : countAll x [] = x := rfl
    simp only [Bool.false_eq_true, if_false, hsame]
    omega
  | true =>
    -- a count that wraps is further down still
    have hup : countAll x [c.buf] ≤ x + c.buf.length := countUp_le x _
    simp only [if_true]
    rcases hk hb with hw | hnil
    · have hp := queuedTo_propagated (hm.propagated hb ((hm.valued hb).mpr hw)) hl.slave
      omega
    · rw [hnil, List.length_nil] at hup
      rw [hnil]
      omega

theorem Level.step {label : IterOrder × Event} (hs : Steps P h label h') (hg : StaysMaster h label)
    (hstay : ∀ clientTable appStates auth, label.2 = .process clientTable appStates auth → s ∈ clientTable.listSlave)
    (hk : ∀ c ∈ h.calls P label, c.Keeps) (hl : Level s h) :
    Level s h' ∧ ∀ c ∈ h.calls P label, Level s c.before := by
  have hstart : Level s h ∧ ∀ c ∈ ([] : List Call), Level s c.before := ⟨hl, fun _ hc => by cases hc⟩
  refine step_calls (I := fun g cs => Level s g ∧ ∀ c ∈ cs, Level s c.before) hs ?_ ?_ ?_ ?_ hstart
  · exact fun g t cs hg => ⟨⟨hg.1.master, hg.1.slave, hg.1.offset⟩, hg.2⟩
  · exact fun _ _ _ _ _ _ _ g cs hg => ⟨⟨hg.1.master, hg.1.slave, hg.1.offset⟩, hg.2⟩
  · intro c cs hc hm hbefore
    refine ⟨hbefore.1.call hm (hk c hc), fun c' hin => ?_⟩
    rcases List.mem_append.mp hin with hin | hin
    · exact hbefore.2 c' hin
    · rw [List.mem_singleton.mp hin]
      exact hbefore.1
  · intro hno hbefore
    refine ⟨?_, hbefore.2⟩
    obtain ⟨o, e⟩ := label
    by_cases hp : ∃ clientTable appStates auth, e = .process clientTable appStates auth
    · obtain ⟨clientTable, appStates, auth, rfl⟩ := hp
      obtain ⟨hmaster, rfl⟩ := hg _ _ _ rfl
      cases hs
      exact ⟨hmaster, hstay _ _ _ rfl, hl.offset⟩
    · obtain ⟨q, d, r, fl, fs, hh⟩ := step_frame hs hno fun ct as au h => hp ⟨ct, as, au, h⟩
      have hq : h'.responseQueue = h.responseQueue ++ q := by rw [hh]
      obtain ⟨x, hx, hle⟩ := hl.offset
      have hlen := congrArg List.length (queuedTo_append (s := s) hq)
      rw [List.length_append] at hlen
      subst hh
      exact ⟨hl.master, hl.slave, x, hx, by omega⟩

theorem psync_offset {id : String} {offset : Int} {buf : Bytes} {epollFd : Int}
    (hs : Steps P h (o, .handle (.ok (.psync id offset)) buf s epollFd) h') (hm : h.clientTable.master = none) {x : Int}
    (hx : h.hostOffset = some x) : h'.hostOffset = some x := by
  have hc := (counted_nil hm hx).step (fun _ _ _ h => by cases h) hs
  have hcmd : ∀ c ∈ h.calls P (o, .handle (.ok (.psync id offset)) buf s epollFd), c.cmd = .psync id offset :=
    fun c hin => (calls_direct (by simp) hin).2
  have hnil : counted (h.calls P (o, .handle (.ok (.psync id offset)) buf s epollFd)) = [] := by
    refine List.flatMap_eq_nil_iff.mpr fun c hin => ?_
    rw [Call.counted, hcmd c hin]
    rfl
  rw [hc.offset, List.nil_append, hnil]
  rfl

end

end CmdHandler

namespace Pair

open Replica

section
variable {P : Platform} {s m : Nat} {fd : Int} {p p' : Pair}

/-! ## Both sides -/

structure Even (s m : Nat) (p : Pair) : Prop where
  master : p.master.clientTable.master = none
  offset : ∃ x, p.master.hostOffset = some x
  replica : ∀ r, p.replica = some r → Level s p.master ∧ Exact m p.seen r

theorem Even.step {e : Event} (he : Even s m p) (hc : Connected s m p e) (ha : Abreast P m p e)
    (hs : Steps P s m fd p e p') : Even s m p' := by
  obtain ⟨x, hx⟩ := he.offset
  cases hs with
  | @master label h' hstep =>
    have hcounted := (counted_nil he.master hx).step (hc.master _ rfl) hstep
    refine ⟨hcounted.master, ⟨_, hcounted.offset⟩, fun r hr => ?_⟩
    obtain ⟨hlevel, hexact⟩ := he.replica r hr
    have hsome : p.replica.isSome = true := by rw [hr]; rfl
    exact ⟨(hlevel.step hstep (hc.master _ rfl) (hc.slave _ rfl hsome) (ha.writes _ rfl hsome)).1, hexact⟩
  | @attach o buf epollFd h' out r hno hh hslave hsynced =>
    have hstep : p.master.Steps P (o, .handle (.ok (.psync "?" (-1))) buf s epollFd) h' :=
      Option.map_eq_some_iff.mpr ⟨_, hh, rfl⟩
    have hzero : h'.hostOffset = some 0 :=
      psync_offset hstep he.master (ha.attach _ _ _ _ rfl)
    have hmaster : h'.clientTable.master = none := (handle_master hh).trans he.master
    refine ⟨hmaster, ⟨0, hzero⟩, fun r' hr => ?_⟩
    cases hr
    exact ⟨⟨hmaster, hslave, 0, hzero, Int.natCast_nonneg _⟩,
      hsynced.master, hsynced.established, hsynced.table, hsynced.zero⟩
  | @replica e r r' hr hstep hqueued =>
    obtain ⟨hlevel, hexact⟩ := he.replica r hr
    refine ⟨he.master, he.offset, fun r'' hr'' => ?_⟩
    cases hr''
    exact ⟨hlevel, step_exact hexact (hc.replica _ _ rfl hr) (ha.replica _ _ rfl hr) hstep⟩

theorem length_flatten (frames : List Bytes) : frames.flatten.length = byteLength frames := List.length_flatten

/-- A replica that has taken up all that was queued to it before a WAIT answers
its GETACK with an offset not below the snapshot, and the WAIT counts it, as long
as what the replica has been sent fits an `i64`. -/
theorem run_upToDate {start p₁ p₂ : Pair} (hmaster : start.master.clientTable.master = none) {x : Int}
    (hx : start.master.hostOffset = some x) (hno : start.replica = none) {es₁ es₂ : List Event}
    {label : IterOrder × CmdHandler.Event}
    (hr₁ : Run (guarded (fun p e => Connected s m p e ∧ Abreast P m p e) (Steps P s m fd)) start es₁ p₁)
    (hr₂ : Run (guarded (fun p e => Connected s m p e ∧ Abreast P m p e) (Steps P s m fd)) p₁
      (.master label :: es₂) p₂)
    (hattached : p₁.replica.isSome = true) {c : Call} (hc : c ∈ p₁.master.calls P label) {count : Nat}
    {timeoutMs : Option Nat} {snapshot : Int} {slaveIds : List Nat} {epollFd : Option Int}
    (hwait : requestOf label.1 c.before epollFd c.cmd = some (.wait count 0 snapshot slaveIds epollFd, timeoutMs))
    {r r' : Replica} (hr : p₂.replica = some r) (hfits : byteLength (received p₂.seen) < 2 ^ 63)
    (hprocessed : c.before.queuedTo s <+: (received p₂.seen).flatten) {o : IterOrder} {t : RespType} {reply : Bytes}
    (hgetAck : Cmd.fromResp P t = .ok (.ok (.replconf (.getAck "*")))) (ht : Tracked P m r (.frame o t))
    (hs : r.step P m fd (.frame o t) = some (r', reply)) :
    s ∈ slaveIds ∧ ∃ offset, r.handler.hostOffset = some offset ∧ reply = (ackOf offset).frame ∧ snapshot ≤ offset ∧
      ∀ actualCount, countAck offset snapshot actualCount = 1 + actualCount := by
  have hkeeps : ∀ {q es q'}, Run (guarded (fun p e => Connected s m p e ∧ Abreast P m p e) (Steps P s m fd)) q es q' →
      Even s m q → Even s m q' := fun hrun =>
    hrun.inv (I := Even s m) fun _ _ _ _ he hstep => he.step hstep.1.1 hstep.1.2 hstep.2
  have hstart : Even s m start := ⟨hmaster, ⟨x, hx⟩, fun r hr => by rw [hno] at hr; cases hr⟩
  have heven := hkeeps hr₁ hstart
  have hexact := ((hkeeps hr₂ heven).replica r hr).2
  obtain ⟨r₁, hr₁'⟩ := Option.isSome_iff_exists.mp hattached
  have hlevel : Level s c.before := by
    cases hr₂ with
    | cons hstep _ =>
      obtain ⟨⟨hconn, habreast⟩, hstep⟩ := hstep
      cases hstep with
      | master hstep =>
        exact ((heven.replica r₁ hr₁').1.step hstep (hconn.master _ rfl) (hconn.slave _ rfl hattached)
          (habreast.writes _ rfl hattached)).2 c hc
  obtain ⟨_, hkind⟩ | ⟨_, _, hkind⟩ | ⟨_, stats, _, hstats, _, hkind⟩ := requestOf_wait hwait
  · cases hkind
  · cases hkind
  cases hkind
  obtain ⟨y, hy, hle⟩ := hlevel.offset
  obtain rfl : y = stats.offset := by
    rw [hostOffset, hstats] at hy
    exact (Option.some.inj hy).symm
  have hlen := hprocessed.length_le
  rw [length_flatten] at hlen
  have hcounts : stats.offset ≤ (byteLength (received p₂.seen) : Int) := by omega
  have hacks := hexact.acks hgetAck ht hs
  rw [countAll_eq (Int.le_refl 0) (by omega), Int.zero_add] at hacks
  exact ⟨(label.1.perm _).mem_iff.mpr hlevel.slave, _, hexact.bytes hfits, hacks, hcounts, fun n => if_pos hcounts⟩

/-! ### Concrete runs -/

def setLabel : IterOrder × CmdHandler.Event :=
  (.asIs, .handle (.ok (.set "k" "v" none)) (frameOf ["SET", "k", "v"]).frame 1 0)

def setFrame : Replica.Event := .frame .asIs (frameOf ["SET", "k", "v"])

def attachEvent : Event := .attach .asIs [42] 0 attached

def waiting : IterOrder × CmdHandler.Event := ask 1 (.wait 1 none)

def attachedMaster (h : CmdHandler) : CmdHandler := { play h [ask 7 (.psync "?" (-1))] with responseQueue := [] }

theorem connected_ask {p : Pair} {cmd : Cmd} {buf : Bytes} {id : Nat} {fd : Int} :
    Connected 7 9 p (.master (.asIs, .handle (.ok cmd) buf id fd)) :=
  ⟨fun _ h => (by cases h; exact fun _ _ _ h => by cases h), fun _ h => (by cases h; exact fun _ _ _ _ h => by cases h),
    fun _ _ h => (by cases h)⟩

theorem connected_attach {p : Pair} : Connected 7 9 p attachEvent :=
  ⟨fun _ h => (by cases h), fun _ h => (by cases h), fun _ _ h => (by cases h)⟩

theorem steps_attach {h : CmdHandler}
    (hh : h.Steps .blank (ask 7 (.psync "?" (-1))) (play h [ask 7 (.psync "?" (-1))]))
    (hs : 7 ∈ (play h [ask 7 (.psync "?" (-1))]).clientTable.listSlave) :
    Steps .blank 7 9 0 { master := h } attachEvent { master := attachedMaster h, replica := some attached } := by
  obtain ⟨⟨_, _⟩, hout, rfl⟩ := Option.map_eq_some_iff.mp hh
  exact .attach rfl hout hs attached_synced

theorem wait_call (h : CmdHandler) (snapshot : Int) (hone : (h.calls .blank waiting).length = 1)
    (hreq : requestOf .asIs h (some 0) (.wait 1 none) = some (.wait 1 0 snapshot [7] (some 0), none)) :
    ∃ c ∈ h.calls .blank waiting, c.before = h ∧
      requestOf .asIs c.before (some 0) c.cmd = some (.wait 1 0 snapshot [7] (some 0), none) := by
  obtain ⟨c, hc⟩ := List.length_eq_one_iff.mp hone
  have hin : c ∈ h.calls .blank waiting := by rw [hc]; exact List.mem_singleton_self _
  obtain ⟨hbefore, hcmd⟩ := calls_direct (by simp) hin
  exact ⟨c, hin, hbefore, by rw [hbefore, hcmd]; exact hreq⟩

theorem tracked_getAck {r : Replica} (hauth : Server.authorized r.handler 9 (.replconf (.getAck "*")) = true)
    (hclosed : r.handler.registry.isTransaction 9 = false)
    (hallowed : r.handler.refuses 9 (.replconf (.getAck "*")) = false) : Tracked .blank 9 r getAckFrame := by
  refine ⟨fun o t h => ?_, fun _ h => (by cases h)⟩
  cases h
  exact ⟨_, rfl, hauth, hclosed, hallowed, by simp [FallsThrough, requestOf, Silent]⟩

theorem abreast_master {p : Pair} {label : IterOrder × CmdHandler.Event}
    (hk : ∀ c ∈ p.master.calls .blank label, c.Keeps) : Abreast .blank 9 p (.master label) :=
  ⟨fun _ _ _ _ h => (by cases h), fun _ h _ => (by cases h; exact hk), fun _ _ h => (by cases h)⟩

theorem run_upToDate_set : ∃ r r' reply, attached.step .blank 9 0 setFrame = some (r, []) ∧
    r.step .blank 9 0 getAckFrame = some (r', reply) ∧ ∃ offset, reply = (ackOf offset).frame ∧ 27 ≤ offset := by
  have hafter : (attached.step .blank 9 0 setFrame).map (fun x =>
      (x.2, Server.authorized x.1.handler 9 (.replconf (.getAck "*")), x.1.handler.registry.isTransaction 9,
        x.1.handler.refuses 9 (.replconf (.getAck "*")), (x.1.step .blank 9 0 getAckFrame).isSome)) =
      some ([], true, false, false, true) := by decide +kernel
  obtain ⟨⟨r, _⟩, hs, hv⟩ := Option.map_eq_some_iff.mp hafter
  simp only [Prod.mk.injEq] at hv
  obtain ⟨rfl, hauth, hclosed, hallowed, hnext⟩ := hv
  obtain ⟨⟨r', reply⟩, hs'⟩ := Option.isSome_iff_exists.mp hnext
  have hset : Tracked .blank 9 attached setFrame := by
    refine ⟨fun o t h => ?_, fun _ h => (by cases h)⟩
    cases h
    exact ⟨.set "k" "v" none, rfl, rfl, rfl, rfl, by simp [FallsThrough, requestOf, Silent]⟩
  let master := attachedMaster startup
  let written := play master [setLabel]
  let asked := play written [waiting]
  have hsetKeeps : ∀ c ∈ master.calls .blank setLabel, c.Keeps := fun c hc _ => .inl (by
    rw [(calls_direct (by simp) hc).2]
    trivial)
  have hwaitKeeps : ∀ c ∈ written.calls .blank waiting, c.Keeps := fun c hc hb => by
    rw [(calls_direct (by simp) hc).2] at hb
    cases hb
  have hattach : Steps .blank 7 9 0 { master := startup } attachEvent { master, replica := some attached } :=
    steps_attach rfl (by decide)
  have hfirst : Run (guarded (fun p e => Connected 7 9 p e ∧ Abreast .blank 9 p e) (Steps .blank 7 9 0))
      { master := startup } [attachEvent, .master setLabel] { master := written, replica := some attached } :=
    .cons ⟨⟨connected_attach, fun _ _ _ _ _ => rfl, fun _ h => (by cases h), fun _ _ h => (by cases h)⟩, hattach⟩
      (.cons ⟨⟨connected_ask, abreast_master hsetKeeps⟩, .master rfl⟩ .nil)
  have hprefix : (received [setFrame]).flatten <+: asked.queuedTo 7 := by decide +kernel
  have hsecond : Run (guarded (fun p e => Connected 7 9 p e ∧ Abreast .blank 9 p e) (Steps .blank 7 9 0))
      { master := written, replica := some attached } [.master waiting, .replica setFrame]
      { master := asked, replica := some r, seen := [setFrame] } := by
    refine .cons ⟨⟨connected_ask, abreast_master hwaitKeeps⟩, .master rfl⟩ (.cons ⟨⟨?_, ?_⟩, ?_⟩ .nil)
    · exact ⟨fun _ h => (by cases h), fun _ h => (by cases h), fun _ _ h _ => (by cases h; exact linked_frame)⟩
    · refine ⟨fun _ _ _ _ h => (by cases h), fun _ h => (by cases h), fun _ _ h hr => ?_⟩
      cases h
      cases hr
      exact hset
    · exact .replica rfl ⟨[], hs⟩ hprefix
  obtain ⟨c, hin, hbefore, hreq⟩ := wait_call written 27 rfl (by decide +kernel)
  have hfits : byteLength (received [setFrame]) < 2 ^ 63 := by decide +kernel
  have hprocessed : c.before.queuedTo 7 <+: (received [setFrame]).flatten := by
    rw [hbefore]
    decide +kernel
  obtain ⟨_, offset, _, hreply, hle, _⟩ := run_upToDate rfl rfl rfl hfirst hsecond rfl hin hreq rfl
    hfits hprocessed rfl (tracked_getAck hauth hclosed hallowed) hs'
  exact ⟨r, r', reply, hs, hs', offset, hreply, hle⟩

/-- The replica is attached after the SET, and has all that was queued to it. -/
theorem late_uncounted : ∃ p₁ p₂ c,
    Run (guarded (Connected 7 9) (Steps .blank 7 9 0)) { master := startup } [.master setLabel, attachEvent] p₁ ∧
    Run (guarded (Connected 7 9) (Steps .blank 7 9 0)) p₁ [.master waiting] p₂ ∧ c ∈ p₁.master.calls .blank waiting ∧
    requestOf .asIs c.before (some 0) c.cmd = some (.wait 1 0 27 [7] (some 0), none) ∧ p₂.replica = some attached ∧
    c.before.queuedTo 7 <+: (received p₂.seen).flatten ∧ Tracked .blank 9 attached getAckFrame ∧
    (attached.step .blank 9 0 getAckFrame).map Prod.snd = some (ackOf 0).frame ∧
    attached.handler.hostOffset = some 0 ∧ ¬ 27 ≤ (0 : Int) ∧ countAck 0 27 0 = 0 := by
  have hattach := steps_attach (h := play startup [setLabel]) rfl (by decide)
  obtain ⟨c, hin, hbefore, hreq⟩ := wait_call (attachedMaster (play startup [setLabel])) 27 rfl (by decide +kernel)
  have hasked : (attachedMaster (play startup [setLabel])).Steps .blank waiting
      (play (attachedMaster (play startup [setLabel])) [waiting]) := rfl
  refine ⟨_, _, c, .cons ⟨connected_ask, .master rfl⟩ (.cons ⟨connected_attach, hattach⟩ .nil),
    .cons ⟨connected_ask, .master hasked⟩ .nil, hin, hreq, rfl, ?_, tracked_getAck rfl rfl rfl, by decide +kernel,
      rfl, by decide, rfl⟩
  rw [hbefore]
  exact List.nil_prefix

end

end Pair

end Redis
