import Redis.Dispatch
import Redis.Rdb

/-!
# Executions

A call of `handle` executes a command, or the queue of a transaction, command
by command; the rest of it only touches transactions and watches. `Executes`
are the executions of a step, and `handle_inv` is the rule that follows: what
each execution and each change of transactions and watches keeps is kept.
-/

namespace Redis

open Lib

namespace CmdHandler

/-- One call of `_execute_cmd`. -/
structure Execution where
  before : CmdHandler
  cmd : Cmd
  buf : Bytes
  clientId : Nat
  output : Except CmdOutput CmdOutput
  after : CmdHandler

inductive Executes (P : Platform) (h : CmdHandler) : IterOrder × Event → Execution → Prop
  | direct {o cmd buf clientId epollFd after output} :
    h.registry.isTransaction clientId = false →
    h.execute P o cmd buf clientId epollFd = some (after, output) →
    Executes P h (o, .handle (.ok cmd) buf clientId epollFd) ⟨h, cmd, buf, clientId, output, after⟩
  | queued {o buf clientId epollFd pre q post before resps after output} :
    h.registry.backlogTxn.lookup clientId = some (pre ++ q :: post) →
    h.registry.isAnyDirty clientId = false →
    runQueue P o clientId (h.drainTxn clientId) pre = some (before, resps) →
    before.executeQueued P o clientId q = some (after, output) →
    Executes P h (o, .handle (.ok .exec) buf clientId epollFd) ⟨before, q.cmd, q.buf, clientId, output, after⟩

inductive Handled (P : Platform) (o : IterOrder) (h : CmdHandler) (buf : Bytes) (clientId : Nat) (epollFd : Int) :
    Except CustomError Cmd → CmdHandler → Prop
  | malformed {e} : Handled P o h buf clientId epollFd (.error e) h
  | direct {cmd after out} : h.registry.isTransaction clientId = false →
    h.execute P o cmd buf clientId epollFd = some (after, out) → Handled P o h buf clientId epollFd (.ok cmd) after
  | queued {cmd} (hq : cmd.queueable = true) : h.registry.isTransaction clientId = true →
    Handled P o h buf clientId epollFd (.ok cmd)
      { h with registry := h.registry.addToTxn clientId ⟨cmd, buf, hq⟩ }
  | aborted {queue} : h.registry.backlogTxn.lookup clientId = some queue → h.registry.isAnyDirty clientId = true →
    Handled P o h buf clientId epollFd (.ok .exec) (h.closeTxn clientId)
  | ran {queue g resps} : h.registry.backlogTxn.lookup clientId = some queue →
    h.registry.isAnyDirty clientId = false → runQueue P o clientId (h.drainTxn clientId) queue = some (g, resps) →
    Handled P o h buf clientId epollFd (.ok .exec) (g.closeTxn clientId)
  | discarded : h.registry.isTransaction clientId = true →
    Handled P o h buf clientId epollFd (.ok .discard) (h.closeTxn clientId)
  | refused {keys} : h.registry.isTransaction clientId = true → Handled P o h buf clientId epollFd (.ok (.watch keys)) h

def withSession (h : CmdHandler) (backlogTxn : HashMap Nat (List Queued))
    (watchlist : HashMap String (HashMap Nat Bool)) : CmdHandler :=
  { h with registry := { h.registry with backlogTxn, watchlist } }

section
variable {P : Platform} {o : IterOrder}

/-! ## Inside an execution -/

theorem prepare_frame {h h' : CmdHandler} {cmd : Cmd} {buf : Bytes} {isMaster : Bool}
    (hp : h.prepare cmd buf isMaster = some h') :
    ∃ s, (cmd.toBeBroadcast = false → s = h.appStates) ∧ h' = { h with
      registry := { h.registry.setDirty cmd with timer := h.registry.timer.tick }
      appStates := s } := by
  unfold prepare countWrite at hp
  split at hp
  · rename_i hb
    obtain ⟨s, _, rfl⟩ := Option.map_eq_some_iff.mp hp
    refine ⟨_, fun hno => ?_, rfl⟩
    rw [hno] at hb
    cases hb
  · cases hp
    exact ⟨_, fun _ => rfl, rfl⟩

theorem countFromMaster_frame (h : CmdHandler) (buf : Bytes) (isMaster : Bool) :
    ∃ s, h.countFromMaster buf isMaster = { h with appStates := s } := by
  unfold countFromMaster
  split
  · exact ⟨_, rfl⟩
  · exact ⟨h.appStates, rfl⟩

theorem propagate_frame (h : CmdHandler) (cmd : Cmd) (buf : Bytes) :
    ∃ ids a, (∀ id ∈ ids, id ∈ h.clientTable.listSlave) ∧
      h.propagate o cmd buf = { h.pushAll ids buf with aof := a } := by
  unfold propagate
  split
  · exact ⟨_, _, fun id hid => (o.perm _).mem_iff.mp hid, rfl⟩
  · exact ⟨[], h.aof, by simp, by simp [pushAll]⟩

/-- What answers with a value sets the flags and is propagated. -/
theorem conclude_some {h h' : CmdHandler} {cmd : Cmd} {buf : Bytes} {isMaster serialized : Bool} {resp : RespType}
    {out : Except CmdOutput CmdOutput}
    (hc : h.conclude o cmd buf isMaster serialized (.ok (some resp)) = some (h', out)) :
    ∃ s, h' = { propagate o { h with flagBacklogList := cmd.isFlagList, flagBacklogStream := cmd.isFlagStream } cmd buf
      with appStates := s } := by
  obtain ⟨s, hs⟩ := countFromMaster_frame
    (propagate o { h with flagBacklogList := cmd.isFlagList, flagBacklogStream := cmd.isFlagStream } cmd buf)
    buf isMaster
  refine ⟨s, ?_⟩
  rw [← hs]
  simp only [conclude] at hc
  split at hc
  · split at hc
    · obtain ⟨b, _, hb⟩ := Option.map_eq_some_iff.mp hc
      exact (Prod.mk.inj hb).1.symm
    · cases hc
      rfl
  · cases hc
    rfl

theorem conclude_frame {h h' : CmdHandler} {cmd : Cmd} {buf : Bytes} {isMaster serialized : Bool} {r : CmdResult}
    {out : Except CmdOutput CmdOutput} (hc : h.conclude o cmd buf isMaster serialized r = some (h', out)) :
    ∃ ids fl fs a s, (∀ id ∈ ids, id ∈ h.clientTable.listSlave) ∧
      h' = { h.pushAll ids buf with flagBacklogList := fl, flagBacklogStream := fs, aof := a, appStates := s } := by
  cases r with
  | error e =>
    simp only [conclude, Option.some.injEq, Prod.mk.injEq] at hc
    obtain ⟨s, hs⟩ := countFromMaster_frame h buf isMaster
    exact ⟨[], h.flagBacklogList, h.flagBacklogStream, h.aof, s, by simp, by simp [← hc.1, hs, pushAll]⟩
  | ok resp =>
    cases resp with
    | none =>
      simp only [conclude, Option.some.injEq, Prod.mk.injEq] at hc
      exact ⟨[], h.flagBacklogList, h.flagBacklogStream, h.aof, h.appStates, by simp, by simp [← hc.1, pushAll]⟩
    | some resp =>
      obtain ⟨s, rfl⟩ := conclude_some hc
      obtain ⟨ids, a, hids, hp⟩ := propagate_frame (o := o)
        { h with flagBacklogList := cmd.isFlagList, flagBacklogStream := cmd.isFlagStream } cmd buf
      exact ⟨ids, _, _, a, s, hids, by rw [hp]; rfl⟩

theorem conclude_data {h h' : CmdHandler} {cmd : Cmd} {buf : Bytes} {isMaster serialized : Bool} {r : CmdResult}
    {out : Except CmdOutput CmdOutput} (hc : h.conclude o cmd buf isMaster serialized r = some (h', out)) :
    h'.data = h.data := by
  obtain ⟨_, _, _, _, _, _, rfl⟩ := conclude_frame hc
  rfl

theorem conclude_registry {h h' : CmdHandler} {cmd : Cmd} {buf : Bytes} {isMaster serialized : Bool} {r : CmdResult}
    {out : Except CmdOutput CmdOutput} (hc : h.conclude o cmd buf isMaster serialized r = some (h', out)) :
    h'.registry = h.registry := by
  obtain ⟨_, _, _, _, _, _, rfl⟩ := conclude_frame hc
  rfl

theorem executeCmd_cases {exec : CmdHandler → Nat → Option (CmdHandler × CmdResult)} {h h' : CmdHandler} {cmd : Cmd}
    {buf : Bytes} {clientId : Nat} {epollFd : Option Int} {serialized : Bool} {out : Except CmdOutput CmdOutput}
    (he : h.executeCmd P o exec cmd buf clientId epollFd serialized = some (h', out)) :
    (h' = h ∧ (∃ b, out = .error (.bytes b)) ∧ h.refuses clientId cmd = true) ∨
    h.refuses clientId cmd = false ∧
    ∃ prepared dispatched r, h.prepare cmd buf (h.clientTable.isMaster clientId) = some prepared ∧
      dispatch P o exec prepared h.registry.timer.now (h.isSubscriber clientId) clientId epollFd cmd =
        some (dispatched, r) ∧
      conclude o dispatched cmd buf (h.clientTable.isMaster clientId) serialized r = some (h', out) := by
  unfold executeCmd at he
  simp only at he
  split at he
  · rename_i hrefuses
    cases he
    exact Or.inl ⟨rfl, ⟨_, rfl⟩, hrefuses⟩
  · rename_i hno
    refine Or.inr ⟨by simpa using hno, ?_⟩
    simp only [Option.bind_eq_bind, Option.bind_eq_some_iff] at he
    obtain ⟨prepared, hp, ⟨dispatched, r⟩, hd, hc⟩ := he
    exact ⟨prepared, dispatched, r, hp, hd, hc⟩

/-! ## A call of `handle` -/

theorem runQueue_append {clientId : Nat} {h g g' : CmdHandler} {qs qs' : List Queued} {r r' : List RespType}
    (hq : runQueue P o clientId h qs = some (g, r)) (hq' : runQueue P o clientId g qs' = some (g', r')) :
    runQueue P o clientId h (qs ++ qs') = some (g', r ++ r') := by
  induction qs generalizing h r with
  | nil =>
    cases hq
    exact hq'
  | cons q qs ih =>
    simp only [runQueue, Option.bind_eq_bind, Option.bind_eq_some_iff] at hq
    obtain ⟨⟨h₁, out⟩, he, ⟨h₂, r₂⟩, hqs, hlast⟩ := hq
    cases hlast
    simp [runQueue, he, ih hqs]

theorem runQueue_inv {I : CmdHandler → Prop} {clientId : Nat} {start : CmdHandler} {queue : List Queued}
    (hexec : ∀ pre q post before resps after out, queue = pre ++ q :: post →
      runQueue P o clientId start pre = some (before, resps) →
      before.executeQueued P o clientId q = some (after, out) → I before → I after)
    {h' : CmdHandler} {resps : List RespType} (hr : runQueue P o clientId start queue = some (h', resps))
    (hI : I start) : I h' := by
  suffices hgen : ∀ pre qs h r r', queue = pre ++ qs → runQueue P o clientId start pre = some (h, r) →
      runQueue P o clientId h qs = some (h', r') → I h → I h' from
    hgen [] queue start [] resps rfl rfl hr hI
  intro pre qs
  induction qs generalizing pre with
  | nil =>
    intro h r r' _ _ hn hI
    cases hn
    exact hI
  | cons q qs ih =>
    intro h r r' hq hpre hr hI
    simp only [runQueue, Option.bind_eq_bind, Option.bind_eq_some_iff] at hr
    obtain ⟨⟨h₁, out⟩, he, ⟨h₂, r₂⟩, hqs, hlast⟩ := hr
    cases hlast
    have hq₁ : runQueue P o clientId h [q] = some (h₁, (outputOf out).extractResp.toList) := by simp [runQueue, he]
    have hstep := runQueue_append hpre hq₁
    exact ih (pre ++ [q]) h₁ _ r₂ (by simp [hq]) hstep hqs (hexec pre q qs h r h₁ out hq hpre he hI)

theorem runQueue_answers {Q : RespType → Prop} {clientId : Nat} {start : CmdHandler} {queue : List Queued}
    (hexec : ∀ pre q post before resps after out, queue = pre ++ q :: post →
      runQueue P o clientId start pre = some (before, resps) →
      before.executeQueued P o clientId q = some (after, out) → ∀ t ∈ (outputOf out).extractResp, Q t)
    {h' : CmdHandler} {resps : List RespType} (hr : runQueue P o clientId start queue = some (h', resps)) :
    ∀ t ∈ resps, Q t := by
  suffices hgen : ∀ pre qs h r r', queue = pre ++ qs → runQueue P o clientId start pre = some (h, r) →
      runQueue P o clientId h qs = some (h', r') → ∀ t ∈ r', Q t from
    hgen [] queue start [] resps rfl rfl hr
  intro pre qs
  induction qs generalizing pre with
  | nil =>
    intro h r r' _ _ hn
    cases hn
    simp
  | cons q qs ih =>
    intro h r r' hq hpre hr
    simp only [runQueue, Option.bind_eq_bind, Option.bind_eq_some_iff] at hr
    obtain ⟨⟨h₁, out⟩, he, ⟨h₂, r₂⟩, hqs, hlast⟩ := hr
    cases hlast
    have hq₁ : runQueue P o clientId h [q] = some (h₁, (outputOf out).extractResp.toList) := by simp [runQueue, he]
    have htail := ih (pre ++ [q]) h₁ _ r₂ (by simp [hq]) (runQueue_append hpre hq₁) hqs
    intro t ht
    obtain ht | ht := List.mem_append.mp ht
    · exact hexec pre q qs h r h₁ out hq hpre he t (Option.mem_toList.mp ht)
    · exact htail t ht

theorem isTransaction_iff {r : RequestRegistry} {id : Nat} :
    r.isTransaction id = true ↔ ∃ queue, r.backlogTxn.lookup id = some queue := by
  unfold RequestRegistry.isTransaction
  rw [decide_eq_true_iff, ← AList.lookup_isSome, Option.isSome_iff_exists]

theorem orEmpty_fst {g h' : CmdHandler} {r : CmdResult} {out : Except Bytes Bytes}
    (ho : orEmpty (g, r) = some (h', out)) : h' = g := by
  unfold orEmpty at ho
  split at ho
  · obtain ⟨_, _, heq⟩ := Option.map_eq_some_iff.mp ho
    exact (Prod.mk.inj heq).1.symm
  · cases ho
    rfl

theorem handle_closed {h h' : CmdHandler} {cmd : Cmd} {buf : Bytes} {clientId : Nat} {epollFd : Int}
    {out : Except Bytes Bytes} (hclosed : h.registry.isTransaction clientId = false)
    (hh : h.handle P o (.ok cmd) buf clientId epollFd = some (h', out)) :
    ∃ r, h.execute P o cmd buf clientId epollFd = some (h', r) ∧
      out = (r.map fun a => a.extractBytes.getD []).mapError fun e => e.extractBytes.getD [] := by
  unfold handle at hh
  simp only [hclosed, Bool.not_false, if_true] at hh
  obtain ⟨⟨g, r⟩, he, hg⟩ := Option.map_eq_some_iff.mp hh
  cases hg
  refine ⟨r, he, ?_⟩
  cases r <;> rfl

theorem handle_exec_open {h : CmdHandler} {buf : Bytes} {clientId : Nat} {epollFd : Int}
    (hopen : h.registry.isTransaction clientId = true) :
    h.handle P o (.ok .exec) buf clientId epollFd = (cmdExec P o h clientId).bind orEmpty := by
  unfold handle
  simp only [hopen]
  simp [Cmd.queueable]

theorem handle_exec_dirty {h : CmdHandler} {buf : Bytes} {clientId : Nat} {epollFd : Int}
    (hopen : h.registry.isTransaction clientId = true) (hdirty : h.registry.isAnyDirty clientId = true) :
    h.handle P o (.ok .exec) buf clientId epollFd = some (h.closeTxn clientId, .ok RespType.nullArray.frame) := by
  obtain ⟨queue, hqueue⟩ := isTransaction_iff.mp hopen
  rw [handle_exec_open hopen, cmdExec, hqueue]
  simp [hdirty, orEmpty, reply, RespType.nullArray, RespType.frame, RespType.serialize]

theorem handle_cases {h h' : CmdHandler} {cmd : Except CustomError Cmd} {buf : Bytes} {clientId : Nat} {epollFd : Int}
    {out : Except Bytes Bytes} (hh : h.handle P o cmd buf clientId epollFd = some (h', out)) :
    Handled P o h buf clientId epollFd cmd h' := by
  cases cmd with
  | error e =>
    cases hh
    exact .malformed
  | ok c =>
    cases hopen : h.registry.isTransaction clientId with
    | false =>
      obtain ⟨r, he, _⟩ := handle_closed hopen hh
      exact .direct hopen he
    | true =>
      obtain ⟨queue, hqueue⟩ := isTransaction_iff.mp hopen
      unfold handle at hh
      simp only [hopen, Bool.not_true, Bool.false_eq_true, if_false] at hh
      split at hh
      · rename_i hq
        cases hh
        exact .queued hq hopen
      · rename_i hno
        split at hh
        · -- EXEC in a transaction
          obtain ⟨⟨g, r⟩, he, hlast⟩ := Option.bind_eq_some_iff.mp hh
          obtain rfl := orEmpty_fst hlast
          unfold cmdExec at he
          rw [hqueue] at he
          simp only at he
          split at he
          · rename_i hdirty
            cases he
            exact .aborted hqueue hdirty
          · rename_i hdirty
            simp only [Option.bind_eq_bind, Option.bind_eq_some_iff] at he
            obtain ⟨⟨g, resps⟩, hrun, hg⟩ := he
            cases hg
            exact .ran hqueue (by simpa using hdirty) hrun
        · -- DISCARD in a transaction
          have hg : h' = (h.withRegistry (cmdDiscard h.registry clientId)).1 := orEmpty_fst hh
          rw [hg, cmdDiscard, if_pos hopen]
          exact .discarded hopen
        · rename_i hexec hdiscard
          cases hh
          cases c with
          | watch keys => exact .refused hopen
          | exec => exact absurd HEq.rfl (hexec hno rfl)
          | discard => exact absurd HEq.rfl (hdiscard hno rfl)
          | _ => exact absurd rfl hno

/-- The queue of the transaction changes, and at its end the watches of the
client go. What this and the executions keep, `handle` keeps. -/
theorem handle_inv_close {I : CmdHandler → Prop} {h h' : CmdHandler} {cmd : Except CustomError Cmd} {buf : Bytes}
    {clientId : Nat} {epollFd : Int} {out : Except Bytes Bytes}
    (htxn : ∀ g t, I g → I (g.withSession t g.registry.watchlist))
    (hclose : h.registry.isTransaction clientId = true → cmd = .ok .exec ∨ cmd = .ok .discard →
      ∀ g, I g → I (g.closeTxn clientId))
    (hexec : ∀ x, Executes P h (o, .handle cmd buf clientId epollFd) x → I x.before → I x.after)
    (hh : h.handle P o cmd buf clientId epollFd = some (h', out)) (hI : I h) : I h' := by
  cases handle_cases hh with
  | malformed => exact hI
  | direct hclosed he => exact hexec _ (.direct hclosed he) hI
  | queued => exact htxn _ _ hI
  | aborted hqueue => exact hclose (isTransaction_iff.mpr ⟨_, hqueue⟩) (Or.inl rfl) _ hI
  | ran hqueue hdirty hrun =>
    refine hclose (isTransaction_iff.mpr ⟨_, hqueue⟩) (Or.inl rfl) _ (runQueue_inv (I := I) ?_ hrun (htxn _ _ hI))
    intro pre q post before r after out hq hpre hq'
    exact hexec _ (.queued (hq ▸ hqueue) hdirty hpre hq')
  | discarded hopen => exact hclose hopen (Or.inr rfl) _ hI
  | refused => exact hI

/-- The rule for what no transaction and no watch matters to. -/
theorem handle_inv {I : CmdHandler → Prop} {h h' : CmdHandler} {cmd : Except CustomError Cmd} {buf : Bytes}
    {clientId : Nat} {epollFd : Int} {out : Except Bytes Bytes}
    (hsession : ∀ g t w, I g → I (g.withSession t w))
    (hexec : ∀ x, Executes P h (o, .handle cmd buf clientId epollFd) x → I x.before → I x.after)
    (hh : h.handle P o cmd buf clientId epollFd = some (h', out)) (hI : I h) : I h' :=
  handle_inv_close (fun g t => hsession g t _) (fun _ _ g => hsession g _ _) hexec hh hI

/-! ## Where commands are executed -/

/-- Where a run executes commands: between its steps, and in the middle of a transaction. -/
inductive Executing (P : Platform) (start : CmdHandler) : CmdHandler → Prop
  | between {labels h} : Run (Steps P) start labels h → Executing P start h
  | inside {labels h o clientId queued rest g resps} : Run (Steps P) start labels h →
    h.registry.backlogTxn.lookup clientId = some (queued ++ rest) →
    runQueue P o clientId (h.drainTxn clientId) queued = some (g, resps) → Executing P start g

/-- What steps keep, and what the commands of a transaction keep. -/
theorem Executing.inv {I : CmdHandler → Prop} {start h : CmdHandler} (hr : Executing P start h)
    (hstep : ∀ g label g', I g → Steps P g label g' → I g') (hdrain : ∀ g id, I g → I (g.drainTxn id))
    (hqueued : ∀ g o id q g' out, I g → g.executeQueued P o id q = some (g', out) → I g') (hI : I start) : I h := by
  have hrun : ∀ {labels g}, Run (Steps P) start labels g → I g := fun hr =>
    hr.inv (I := I) (fun g label g' _ => hstep g label g') hI
  cases hr with
  | between hr => exact hrun hr
  | inside hr _ hq =>
    exact runQueue_inv (I := I) (fun _ q _ before _ after out _ _ he hI => hqueued before _ _ q after out hI he) hq
      (hdrain _ _ (hrun hr))

/-! ## What the loop starts from -/

def Replayed (label : IterOrder × Event) : Prop := ∃ cmd raw, label.2 = .handle cmd raw 0 (-1)

/-- What `main` hands to its loop: a new handler, after the commands of a log, with what
an RDB file puts in the place of the keys. `Good` holds of each command where it is replayed. -/
inductive Begun (P : Platform) (Good : CmdHandler → IterOrder × Event → Prop) (timer : Timer) (appStates : AppStates) :
    CmdHandler → Prop
  | new (configs : Configs) : Begun P Good timer appStates { CmdHandler.new timer appStates with configs }
  | replayed {h label h'} : Begun P Good timer appStates h → Replayed label → guarded Good (Steps P) h label h' →
    Begun P Good timer appStates h'
  | loaded {h file h'} : Begun P Good timer appStates h → h.loadRdb file = some h' → Begun P Good timer appStates h'
  | opened {h} (aof : Option Aof) (auth : Auth) : Begun P Good timer appStates h →
    Begun P Good timer appStates { h with aof, auth }

theorem loadRdb_cases {h h' : CmdHandler} {file : Option Bytes} (hl : h.loadRdb file = some h') :
    h' = h ∨ ∃ bytes data, file = some bytes ∧ Rdb.read bytes = some (.ok data) ∧ h' = { h with data } := by
  unfold loadRdb at hl
  split at hl
  · cases hl
    exact .inl rfl
  · rename_i bytes
    obtain ⟨r, hread, rfl⟩ := Option.map_eq_some_iff.mp hl
    cases r with
    | ok data => exact .inr ⟨bytes, data, rfl, hread, rfl⟩
    | error e => exact .inl rfl

/-- What a new registry has and steps keep holds of the registry at the start of the loop. -/
theorem Begun.registry {I : RequestRegistry → Prop} {Good : CmdHandler → IterOrder × Event → Prop} {timer : Timer}
    {appStates : AppStates} {h : CmdHandler} (hb : Begun P Good timer appStates h) (hnew : I (.new timer))
    (hstep : ∀ g label g', Replayed label → guarded Good (Steps P) g label g' → I g.registry → I g'.registry) :
    I h.registry := by
  induction hb with
  | new configs => exact hnew
  | replayed _ hlabel hs ih => exact hstep _ _ _ hlabel hs ih
  | loaded _ hl ih =>
    rcases loadRdb_cases hl with rfl | ⟨_, _, _, _, rfl⟩
    · exact ih
    · exact ih
  | opened aof auth _ ih => exact ih

end

end CmdHandler

end Redis
