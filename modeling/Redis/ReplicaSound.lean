import Redis.Events
import Redis.OffsetSound

/-!
# The offset of a replica

A frame of the master is counted after its command has answered with a value or
failed, a write command of anybody else before it is dispatched. So the offset
is the length of what the master has sent as long as each of its frames is
executed at once and does not fall through, and no other client writes.
-/

namespace Redis

open Lib

namespace CmdHandler

/-- There is nothing to answer: the command waits, or it has no answer. -/
def FallsThrough (h : CmdHandler) (clientId : Nat) (cmd : Cmd) : Prop :=
  (requestOf .asIs h none cmd).isSome = true ∨ Silent h clientId cmd ∧ ∀ keys, cmd ≠ .subscribe keys

section
variable {P : Platform} {o : IterOrder} {h h' : CmdHandler} {clientId : Nat}

/-! ## Commands that fall through -/

@[simp] theorem reply_ne_none (t : RespType) : reply t ≠ .ok none := by simp [reply]

theorem cmdBlpop_falls {key : String} {timeoutMs : Option Nat} {now : Nat} :
    (cmdBlpop h.data h.registry key timeoutMs clientId now).2 = .ok none ↔
      (requestOf .asIs h none (.blpop key timeoutMs)).isSome = true := by
  unfold cmdBlpop requestOf
  cases hl : h.data.lookup key with
  | none => simp [hl]
  | some item =>
    obtain ⟨value, x⟩ := item
    cases value with
    | list items =>
      cases items with
      | nil => simp [hl]
      | cons s items => cases hq : h.registry.isBacklogListEmpty key <;> simp [hl, hq]
    | _ => simp [hl]

theorem cmdXread_falls {count blockMs : Option Nat} {stream : List (String × Nat × Nat)} {now : Nat} :
    (cmdXread h.data h.registry count blockMs stream clientId now).2 = .ok none ↔
      (requestOf .asIs h none (.xread count blockMs stream)).isSome = true := by
  unfold cmdXread
  cases hf : stream.find? fun s => notStream h.data s.1 with
  | some s =>
    have hany : (stream.any fun s => notStream h.data s.1) = true :=
      List.any_eq_true.mpr ⟨s, List.mem_of_find?_eq_some hf, by simpa using List.find?_some hf⟩
    cases blockMs with
    | none => simp [requestOf]
    | some ms => simp [requestOf, hany]
  | none =>
    have hany : (stream.any fun s => notStream h.data s.1) = false := by
      simpa [List.find?_eq_none] using hf
    cases hr : readStreams h.data count (stream.map (resolveId h.data)) with
    | some resp => cases blockMs <;> simp [requestOf, hany, hr]
    | none => cases blockMs <;> simp [requestOf, hany, hr]

theorem cmdWait_falls {count : Nat} {timeoutMs : Option Nat} {now : Nat} {epollFd : Option Int} {r : CmdResult}
    (hw : cmdWait o h count timeoutMs clientId now epollFd = some (h', r)) :
    r = .ok none ↔ (requestOf .asIs h none (.wait count timeoutMs)).isSome = true := by
  unfold cmdWait at hw
  split at hw
  · rename_i hcount
    cases hw
    cases hs : h.appStates.hostStats <;> simp [requestOf, hs, hcount]
  · rename_i hcount
    split at hw
    · rename_i hs
      cases hw
      simp [requestOf, hs]
    · rename_i stats hs
      split at hw
      · rename_i hoffset
        cases hw
        simp [requestOf, hs, hoffset]
      · rename_i hoffset
        simp only at hw
        split at hw
        · cases hw
          simp [requestOf, hs, hcount, hoffset]
        · cases hw

theorem cmdPsync_falls {id : String} {offset : Int} :
    (cmdPsync h id offset clientId).2 = .ok none ↔ Silent h clientId (.psync id offset) := by
  unfold cmdPsync Silent
  split
  · rename_i hask
    split <;> simp [hask]
  · rename_i hask
    simp [hask]

theorem Replies.falls_iff {cmd : Cmd} {r : CmdResult} (hr : Replies P h clientId cmd r) (hdeferred : ¬ Deferred cmd)
    (hstreams : ¬ Streams cmd) : r = .ok none ↔ Silent h clientId cmd := by
  cases hr with
  | frame _ _ _ hno => exact iff_of_false (by simp) hno
  | short hs =>
    refine iff_of_false (by simp) ?_
    cases cmd with
    | lrange => exact id
    | _ => exact hs.elim
  | stream hs => exact absurd hs hstreams
  | refused hk => exact iff_of_false (by simp) (refusedKey_not_silent hk)
  | failed _ _ _ hno => exact iff_of_false (by simp) hno
  | nothing hno => exact iff_of_true rfl (hno.resolve_right hdeferred)

theorem dispatch_falls {exec : CmdHandler → Nat → Option (CmdHandler × CmdResult)} {isSubscriber : Bool} {now : Nat}
    {epollFd : Option Int} {cmd : Cmd} {r : CmdResult}
    (hexec : ∀ g r, exec h clientId = some (g, r) → Replies P h clientId .exec r)
    (hd : dispatch P o exec h now isSubscriber clientId epollFd cmd = some (h', r)) :
    r = .ok none ↔ FallsThrough h clientId cmd := by
  have hr := dispatch_replies hexec hd
  have hplain : ¬ Deferred cmd → ¬ Streams cmd → requestOf .asIs h none cmd = none → (∀ keys, cmd ≠ .subscribe keys) →
      (r = .ok none ↔ FallsThrough h clientId cmd) := by
    intro hdeferred hstreams hreq hsub
    rw [hr.falls_iff hdeferred hstreams, FallsThrough, hreq]
    simp [hsub]
  cases cmd with
  | blpop key timeoutMs =>
    have hb : (cmdBlpop h.data h.registry key timeoutMs clientId now).2 = r := congrArg Prod.snd (Option.some.inj hd)
    rw [← hb, cmdBlpop_falls, FallsThrough]
    simp [Silent]
  | xread count blockMs stream =>
    have hx : (cmdXread h.data h.registry count blockMs stream clientId now).2 = r :=
      congrArg Prod.snd (Option.some.inj hd)
    rw [← hx, cmdXread_falls, FallsThrough]
    simp [Silent]
  | wait count timeoutMs =>
    rw [cmdWait_falls hd, FallsThrough]
    simp [Silent]
  | subscribe keys =>
    have hs : (cmdSubscribe h keys clientId).2 = r := congrArg Prod.snd (Option.some.inj hd)
    rw [← hs]
    simp [FallsThrough, requestOf, cmdSubscribe]
  | psync id offset =>
    have hp : (cmdPsync h id offset clientId).2 = r := congrArg Prod.snd (Option.some.inj hd)
    rw [← hp, cmdPsync_falls, FallsThrough]
    simp [requestOf]
  | replconf arg =>
    cases arg with
    | ack offset =>
      obtain ⟨_, _, _, _, rfl, _⟩ := cmdAck_cases hd
      simp [FallsThrough, Silent]
    | _ => exact hplain id id rfl (by simp)
  | _ => exact hplain id id rfl (by simp)

theorem fallsThrough_prepared {cmd : Cmd} {s : AppStates} (hs : cmd.toBeBroadcast = false → s = h.appStates) :
    FallsThrough (h.prepared cmd s) clientId cmd ↔ FallsThrough h clientId cmd := by
  unfold FallsThrough
  rw [requestOf_prepared hs]
  cases cmd <;> rfl

/-! ## What is counted -/

theorem countFromMaster_offset (buf : Bytes) {x : Int} (hx : h.hostOffset = some x) :
    (h.countFromMaster buf true).hostOffset = some (countUp x buf.length) := by
  obtain ⟨stats, hs, rfl⟩ := Option.map_eq_some_iff.mp hx
  simp [countFromMaster, hostOffset, AppStates.hostAddBytesCount, hs, ReplStats.addBytesCount_eq]

theorem conclude_offset {cmd : Cmd} {buf : Bytes} {serialized : Bool} {r : CmdResult} {out : Except CmdOutput CmdOutput}
    (hc : h.conclude o cmd buf true serialized r = some (h', out)) (hr : r ≠ .ok none) {x : Int}
    (hx : h.hostOffset = some x) : h'.hostOffset = some (countUp x buf.length) := by
  cases r with
  | error e =>
    cases hc
    exact countFromMaster_offset buf hx
  | ok resp =>
    cases resp with
    | none => exact absurd rfl hr
    | some resp =>
      have hprop : ∀ g : CmdHandler, g.hostOffset = some x → (g.propagate o cmd buf).hostOffset = some x := by
        intro g hg
        obtain ⟨_, _, _, hf⟩ := propagate_frame (o := o) g cmd buf
        rw [hf]
        exact hg
      simp only [conclude] at hc
      have hcounted := countFromMaster_offset buf
        (hprop { h with flagBacklogList := cmd.isFlagList, flagBacklogStream := cmd.isFlagStream } hx)
      split at hc
      · split at hc
        · obtain ⟨_, _, heq⟩ := Option.map_eq_some_iff.mp hc
          rw [← (Prod.mk.inj heq).1]
          exact hcounted
        · cases hc
          exact hcounted
      · cases hc
        exact hcounted

theorem execute_offset {cmd : Cmd} {buf : Bytes} {epollFd : Int} {out : Except CmdOutput CmdOutput}
    (hmaster : h.clientTable.master = some clientId) (hclosed : h.registry.isTransaction clientId = false)
    (hallowed : h.refuses clientId cmd = false) (hfalls : ¬ FallsThrough h clientId cmd)
    (he : h.execute P o cmd buf clientId epollFd = some (h', out)) {x : Int} (hx : h.hostOffset = some x) :
    h'.hostOffset = some (countUp x buf.length) := by
  have htrue : h.clientTable.isMaster clientId = true := by simp [ClientTable.isMaster, hmaster]
  unfold execute at he
  obtain ⟨_, _, hno⟩ | ⟨_, g, dispatched, r, hp, hd, hc⟩ := executeCmd_cases he
  · rw [hallowed] at hno
    cases hno
  rw [htrue] at hp hc
  have hsame : g.hostOffset = some x := by
    unfold prepare countWrite at hp
    simp only [Bool.not_true, Bool.and_false, Bool.false_eq_true, if_false, Option.some.injEq] at hp
    rw [← hp]
    exact hx
  obtain ⟨s, hs, rfl⟩ := prepare_frame hp
  have hopen : (h.prepared cmd s).registry.isTransaction clientId = false := hclosed
  have hlookup : (h.prepared cmd s).registry.backlogTxn.lookup clientId = none :=
    AList.lookup_eq_none.mpr (of_decide_eq_false hclosed)
  have hr : r ≠ .ok none := by
    rw [Ne, dispatch_falls (fun _ _ h => cmdExec_replies hopen h) hd]
    exact fun hf => hfalls ((fallsThrough_prepared hs).mp hf)
  have hx' : dispatched.hostOffset = some x := by
    rw [hostOffset, (dispatch_effect (cmdExec_notNested hlookup) hd).statics.1]
    exact hsame
  exact conclude_offset hc hr hx'

theorem step_offset {m : Nat} {label : IterOrder × Event} (hs : Steps P h label h')
    (hothers : ∀ cmd buf id fd, label.2 = .handle cmd buf id fd → id ≠ m)
    (hstays : ∀ clientTable appStates auth, label.2 = .process clientTable appStates auth →
      clientTable.master = some m ∧ appStates = h.appStates)
    (hwrites : ∀ c ∈ h.calls P label, c.cmd.toBeBroadcast = true → c.buf = [])
    (hmaster : h.clientTable.master = some m) {x : Int} (hx : h.hostOffset = some x) (hi64 : x < 2 ^ 63) :
    h'.clientTable.master = some m ∧ h'.hostOffset = some x := by
  obtain ⟨o, e⟩ := label
  by_cases hhandle : ∃ cmd buf id fd, e = .handle cmd buf id fd
  · obtain ⟨cmd, buf, id, fd, rfl⟩ := hhandle
    obtain ⟨⟨g, out⟩, hh, rfl⟩ := Option.map_eq_some_iff.mp hs
    refine handle_calls (I := fun g _ => g.clientTable.master = some m ∧ g.hostOffset = some x)
      (fun _ _ _ hg => hg) (fun _ _ _ _ hg => hg) ?_ hh ⟨hmaster, hx⟩
    rintro c cs hc hm rfl ⟨hcm, hcx⟩
    have hother : c.before.clientTable.isMaster c.clientId = false := by
      rw [ClientTable.isMaster, hcm]
      exact decide_eq_false fun heq => hothers _ _ _ _ rfl (Option.some.inj heq).symm
    obtain ⟨hsame, hoffset⟩ := hm.offset hother hcx
    refine ⟨hsame.trans hcm, ?_⟩
    rw [hoffset, Call.counted]
    split
    · rename_i hb
      rw [hwrites c hc hb]
      exact congrArg some (countUp_zero hi64)
    · rfl
  · have hno : ∀ cmd buf id fd, e ≠ .handle cmd buf id fd := fun cmd buf id fd he => hhandle ⟨cmd, buf, id, fd, he⟩
    by_cases hp : ∃ clientTable appStates auth, e = .process clientTable appStates auth
    · obtain ⟨clientTable, appStates, auth, rfl⟩ := hp
      obtain ⟨hm, rfl⟩ := hstays _ _ _ rfl
      cases hs
      exact ⟨hm, hx⟩
    · obtain ⟨_, _, _, _, _, rfl⟩ := step_frame hs hno fun ct as au h => hp ⟨ct, as, au, h⟩
      exact ⟨hmaster, hx⟩

def ackOf (offset : Int) : RespType := .arrayOf [.bulk "REPLCONF", .bulk "ACK", .bulk (toString (max offset 0))]

theorem execute_getAck {buf : Bytes} {epollFd : Int} {out : Except CmdOutput CmdOutput}
    (hallowed : h.refuses clientId (.replconf (.getAck "*")) = false)
    (he : h.execute P o (.replconf (.getAck "*")) buf clientId epollFd = some (h', out)) {x : Int}
    (hx : h.hostOffset = some x) : (outputOf out).extractBytes = some (ackOf x).frame := by
  obtain ⟨stats, hs, rfl⟩ := Option.map_eq_some_iff.mp hx
  have hbulks : ∀ u ∈ [RespType.bulk "REPLCONF", .bulk "ACK", .bulk (toString (max stats.offset 0))],
      ∃ b, u.serialize = some b := by
    simp only [List.mem_cons, List.not_mem_nil, or_false, forall_eq_or_imp, forall_eq]
    exact ⟨⟨_, rfl⟩, ⟨_, rfl⟩, _, rfl⟩
  obtain ⟨b, hb, _⟩ := serialize_arrayOf hbulks
  unfold execute executeCmd at he
  rw [if_neg (by simp [hallowed])] at he
  have hdispatch : ∀ g : CmdHandler, g.appStates = h.appStates →
      dispatch P o (cmdExec P o) g h.registry.timer.now (h.isSubscriber clientId) clientId (some epollFd)
        (.replconf (.getAck "*")) = some (g, reply (ackOf stats.offset)) := by
    intro g hg
    simp [dispatch, cmdReplconf, hg, hs, ackOf]
  have hprepare : ∀ isMaster, ∃ g, h.prepare (.replconf (.getAck "*")) buf isMaster = some g ∧
      g.appStates = h.appStates := fun isMaster => ⟨_, rfl, rfl⟩
  obtain ⟨g, hg, hsame⟩ := hprepare (h.clientTable.isMaster clientId)
  simp only [Option.bind_eq_bind, hg, Option.bind_some, hdispatch g hsame, conclude, reply, ackOf, hb, if_true,
    Option.map_some, Cmd.alwaysResponse, Bool.or_true, Option.some.injEq, Prod.mk.injEq] at he
  rw [← he.2, RespType.frame, ackOf, hb]
  rfl

end

end CmdHandler

structure Replica where
  link : TcpClient
  handler : CmdHandler

namespace Replica

/-- A frame of the master, or what goes on without it. -/
inductive Event where
  | frame (o : IterOrder) (t : RespType)
  | other (label : IterOrder × CmdHandler.Event)

open CmdHandler Server

section
variable (P : Platform) (m : Nat) (fd : Int)

def step (r : Replica) : Event → Option (Replica × Bytes)
  | .frame o t => (r.link.respond P o r.handler m fd t).map fun (link, handler, reply) => ({ link, handler }, reply)
  | .other label => (r.handler.step P label).map fun handler => ({ r with handler }, [])

def Steps (r : Replica) (e : Event) (r' : Replica) : Prop := ∃ reply, r.step P m fd e = some (r', reply)

end

def received (es : List Event) : List Bytes :=
  es.flatMap fun
    | .frame _ t => [t.frame]
    | .other _ => []

structure Linked (m : Nat) (r : Replica) (e : Event) : Prop where
  others : ∀ label, e = .other label → ∀ cmd buf id fd, label.2 = .handle cmd buf id fd → id ≠ m
  stays : ∀ label, e = .other label → ∀ clientTable appStates auth, label.2 = .process clientTable appStates auth →
    clientTable.master = some m ∧ appStates = r.handler.appStates

/-- The command of a frame is executed at once and does not fall through, and
others do not write. -/
structure Tracked (P : Platform) (m : Nat) (r : Replica) (e : Event) : Prop where
  frame : ∀ o t, e = .frame o t → ∃ cmd, Cmd.fromResp P t = .ok (.ok cmd) ∧ authorized r.handler m cmd = true ∧
    r.handler.registry.isTransaction m = false ∧ r.handler.refuses m cmd = false ∧ ¬ r.handler.FallsThrough m cmd
  other : ∀ label, e = .other label → ∀ c ∈ r.handler.calls P label, c.cmd.toBeBroadcast = true → c.buf = []

structure Synced (m : Nat) (r : Replica) : Prop where
  master : r.link.replState.status = some .master
  established : r.link.handshakeState = .established
  table : r.handler.clientTable.master = some m
  zero : r.handler.hostOffset = some 0

section
variable {P : Platform} {m : Nat} {fd : Int} {r r' start : Replica}

theorem handshakeToMaster_established {o : IterOrder} {client : TcpClient} {h : CmdHandler} {cmd : Cmd} {buf : Bytes}
    (hestablished : client.handshakeState = .established) (hrdb : ∀ b, cmd ≠ .rdb b) :
    client.handshakeToMaster P o h cmd buf m fd = (h.handle P o (.ok cmd) buf m fd).map fun (h, r) =>
      (client, h, r) := by
  unfold TcpClient.handshakeToMaster
  rw [hestablished]
  cases cmd with
  | rdb b => exact absurd rfl (hrdb b)
  | _ => rfl

/-- The RDB starts the count only where there is none. -/
theorem rdb_offset {o : IterOrder} {client client' : TcpClient} {h h' : CmdHandler} {b buf : Bytes}
    {out : Except Bytes Bytes} {x : Int} (hestablished : client.handshakeState = .established)
    (hx : h.hostOffset = some x) (hs : client.handshakeToMaster P o h (.rdb b) buf m fd = some (client', h', out)) :
    h'.hostOffset = some (if x = -1 then 0 else x) := by
  obtain ⟨stats, hstats, rfl⟩ := Option.map_eq_some_iff.mp hx
  unfold TcpClient.handshakeToMaster at hs
  rw [hestablished] at hs
  simp only [hstats, Option.some.injEq, Prod.mk.injEq] at hs
  rw [← hs.2.1, hostOffset, Option.map_some, ReplStats.startBytesCount_offset]

theorem step_frame {o : IterOrder} {t : RespType} {cmd : Cmd} {reply : Bytes}
    (hmaster : r.link.replState.status = some .master) (hestablished : r.link.handshakeState = .established)
    (hcmd : Cmd.fromResp P t = .ok (.ok cmd)) (hauth : authorized r.handler m cmd = true) (hrdb : ∀ b, cmd ≠ .rdb b)
    (hclosed : r.handler.registry.isTransaction m = false) (hs : r.step P m fd (.frame o t) = some (r', reply)) :
    r'.link = r.link ∧ ∃ out, r.handler.execute P o cmd t.frame m fd = some (r'.handler, out) ∧
      reply = (outputOf out).extractBytes.getD [] := by
  obtain ⟨⟨link, handler, b⟩, hr, heq⟩ := Option.map_eq_some_iff.mp hs
  cases heq
  unfold TcpClient.respond at hr
  have hpass : ¬ (!cmd.isAuthCmd && !r.handler.auth.checkAuth m) = true := by
    unfold authorized at hauth
    cases hc : cmd.isAuthCmd <;> simp_all
  cases hraw : t.serialize with
  | none => simp [hraw] at hr
  | some raw =>
    simp only [hraw, hcmd] at hr
    rw [if_neg hpass, hmaster] at hr
    simp only at hr
    rw [handshakeToMaster_established hestablished hrdb] at hr
    unfold CmdHandler.handle at hr
    simp only [hclosed, Bool.not_false, if_true, Option.map_map, Option.map_eq_some_iff] at hr
    obtain ⟨⟨g, out⟩, he, heq⟩ := hr
    cases heq
    refine ⟨rfl, out, ?_, ?_⟩
    · rw [RespType.frame, hraw]
      exact he
    · cases out <;> rfl

theorem received_snoc (es : List Event) (e : Event) :
    received (es ++ [e]) = received es ++ received [e] := by simp [received]

structure Exact (m : Nat) (es : List Event) (r : Replica) : Prop where
  master : r.link.replState.status = some .master
  established : r.link.handshakeState = .established
  table : r.handler.clientTable.master = some m
  offset : r.handler.hostOffset = some (countAll 0 (received es))

theorem Exact.bytes {es : List Event} (he : Exact m es r) (hfits : byteLength (received es) < 2 ^ 63) :
    r.handler.hostOffset = some (byteLength (received es) : Int) := by
  rw [he.offset, countAll_eq (Int.le_refl 0) (by omega), Int.zero_add]

theorem step_exact {es : List Event} {e : Event} (he : Exact m es r) (hl : Linked m r e) (ht : Tracked P m r e)
    (hs : Steps P m fd r e r') : Exact m (es ++ [e]) r' := by
  obtain ⟨reply, hs⟩ := hs
  cases e with
  | frame o t =>
    obtain ⟨cmd, hcmd, hauth, hclosed, hallowed, hfalls⟩ := ht.frame o t rfl
    have hrdb : ∀ b, cmd ≠ .rdb b := by
      rintro b rfl
      exact hfalls (.inr ⟨trivial, nofun⟩)
    obtain ⟨hlink, out, hx, _⟩ := step_frame he.master he.established hcmd hauth hrdb hclosed hs
    have htable : r'.handler.clientTable.master = some m := by
      have hhandle : ∃ out', r.handler.handle P o (.ok cmd) t.frame m fd = some (r'.handler, out') := by
        unfold CmdHandler.handle
        simp only [hclosed, Bool.not_false, if_true, hx, Option.map_some]
        exact ⟨_, rfl⟩
      obtain ⟨out', hh⟩ := hhandle
      exact (handle_master hh).trans he.table
    refine ⟨hlink ▸ he.master, hlink ▸ he.established, htable, ?_⟩
    rw [execute_offset he.table hclosed hallowed hfalls hx he.offset, received_snoc, countAll_append]
    rfl
  | other label =>
    obtain ⟨h', hstep, heq⟩ := Option.map_eq_some_iff.mp hs
    cases heq
    obtain ⟨htable, hoffset⟩ := step_offset hstep (hl.others label rfl) (hl.stays label rfl) (ht.other label rfl)
      he.table he.offset (countAll_lt (by decide) _)
    refine ⟨he.master, he.established, htable, ?_⟩
    rw [received_snoc, countAll_append]
    exact hoffset

theorem Exact.acks {es : List Event} (hexact : Exact m es r) {o : IterOrder} {t : RespType} {reply : Bytes}
    (hgetAck : Cmd.fromResp P t = .ok (.ok (.replconf (.getAck "*")))) (ht : Tracked P m r (.frame o t))
    (hs : r.step P m fd (.frame o t) = some (r', reply)) : reply = (ackOf (countAll 0 (received es))).frame := by
  obtain ⟨cmd, hcmd, hauth, hclosed, hallowed, _⟩ := ht.frame o t rfl
  rw [hgetAck, Except.ok.injEq, Except.ok.injEq] at hcmd
  subst hcmd
  obtain ⟨_, out, hx, rfl⟩ := step_frame hexact.master hexact.established hgetAck hauth (by simp) hclosed hs
  rw [execute_getAck hallowed hx hexact.offset, Option.getD_some]

/-- As long as each frame is executed at once and answered, nobody else writes,
and the count fits an `i64`, GETACK is answered with the length of what has come
before it. -/
theorem run_acks (hsynced : Synced m start) {es : List Event}
    (h : Run (guarded (fun r e => Linked m r e ∧ Tracked P m r e) (Steps P m fd)) start es r) {o : IterOrder}
    {t : RespType} {reply : Bytes} (hfits : byteLength (received es) < 2 ^ 63)
    (hgetAck : Cmd.fromResp P t = .ok (.ok (.replconf (.getAck "*"))))
    (ht : Tracked P m r (.frame o t)) (hs : r.step P m fd (.frame o t) = some (r', reply)) :
    reply = (ackOf (byteLength (received es))).frame := by
  have hexact : Exact m es r :=
    h.history (I := Exact m) (fun _ _ _ _ _ hI hstep => step_exact hI hstep.1.1 hstep.1.2 hstep.2)
      ⟨hsynced.master, hsynced.established, hsynced.table, hsynced.zero⟩
  rw [hexact.acks hgetAck ht hs, countAll_eq (Int.le_refl 0) (by omega), Int.zero_add]

end

/-! ### Concrete runs -/

def attached : Replica where
  link := { replState := { status := some .master }, handshakeState := .established }
  handler := { startup with
    clientTable := { master := some 9 }
    auth := (startup.auth.authenticate .blank 9 none none).1 }

theorem attached_synced : Synced 9 attached := ⟨rfl, rfl, rfl, rfl⟩

def frameOf (words : List String) : RespType := .arrayOf (words.map .bulk)

def getAckFrame : Event := .frame .asIs (frameOf ["REPLCONF", "GETACK", "*"])

theorem linked_frame {m : Nat} {r : Replica} {o : IterOrder} {t : RespType} : Linked m r (.frame o t) :=
  ⟨fun _ h => (by cases h), fun _ h => (by cases h)⟩

theorem run_acks_ping : ∃ r r', Run (guarded (fun r e => Linked 9 r e ∧ Tracked .blank 9 r e) (Steps .blank 9 0))
    attached [.frame .asIs (frameOf ["PING"])] r ∧ r.step .blank 9 0 getAckFrame = some (r', (ackOf 14).frame) := by
  have hping : Tracked .blank 9 attached (.frame .asIs (frameOf ["PING"])) := by
    refine ⟨fun o t h => ?_, fun _ h => (by cases h)⟩
    cases h
    exact ⟨.ping, rfl, rfl, rfl, rfl, by simp [FallsThrough, requestOf, Silent]⟩
  have hafter : (attached.step .blank 9 0 (.frame .asIs (frameOf ["PING"]))).map (fun x =>
      (authorized x.1.handler 9 (.replconf (.getAck "*")), x.1.handler.registry.isTransaction 9,
        x.1.handler.refuses 9 (.replconf (.getAck "*")), (x.1.step .blank 9 0 getAckFrame).isSome)) =
      some (true, false, false, true) := by decide +kernel
  obtain ⟨⟨r, reply⟩, hs, hv⟩ := Option.map_eq_some_iff.mp hafter
  simp only [Prod.mk.injEq] at hv
  obtain ⟨hauth, hclosed, hallowed, hnext⟩ := hv
  obtain ⟨⟨r', reply'⟩, hs'⟩ := Option.isSome_iff_exists.mp hnext
  have hgetAck : Tracked .blank 9 r getAckFrame := by
    refine ⟨fun o t h => ?_, fun _ h => (by cases h)⟩
    cases h
    exact ⟨_, rfl, hauth, hclosed, hallowed, by simp [FallsThrough, requestOf, Silent]⟩
  have hrun : Run (guarded (fun r e => Linked 9 r e ∧ Tracked .blank 9 r e) (Steps .blank 9 0)) attached
      [.frame .asIs (frameOf ["PING"])] r := .cons ⟨⟨linked_frame, hping⟩, reply, hs⟩ .nil
  have hreply : reply' = (ackOf 14).frame := run_acks attached_synced hrun (by decide +kernel) rfl hgetAck hs'
  exact ⟨r, r', hrun, hreply ▸ hs'⟩

/-- A frame of 13 bytes with a command that is not known is not counted. -/
theorem unknown_uncounted : Synced 9 attached ∧ byteLength (received [.frame .asIs (frameOf ["FOO"])]) = 13 ∧
    ∃ r r', Run (guarded (Linked 9) (Steps .blank 9 0)) attached [.frame .asIs (frameOf ["FOO"])] r ∧
      r.step .blank 9 0 getAckFrame = some (r', (ackOf 0).frame) ∧ (ackOf 0).frame ≠ (ackOf 13).frame := by
  have hafter : (attached.step .blank 9 0 (.frame .asIs (frameOf ["FOO"]))).map (fun x =>
      (x.1.step .blank 9 0 getAckFrame).map Prod.snd) = some (some (ackOf 0).frame) := by decide +kernel
  obtain ⟨⟨r, reply⟩, hs, hv⟩ := Option.map_eq_some_iff.mp hafter
  obtain ⟨⟨r', _⟩, hs', rfl⟩ := Option.map_eq_some_iff.mp hv
  exact ⟨attached_synced, by decide +kernel, r, r', .cons ⟨linked_frame, reply, hs⟩ .nil, hs', by decide +kernel⟩

end Replica

end Redis
