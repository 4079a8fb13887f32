import Redis.DataSound

/-!
# Propagation

A key that a step changes is in what the step propagates, if no command
escapes and no waiting BLPOP pops. One execution writes its own frame to the
log and to the slaves it finds; log, queue and slaves only grow while a
transaction runs, so the frame is there at the end of the step.
-/

namespace Redis

open Lib

namespace CmdHandler

def log (h : CmdHandler) : Option (List Bytes) := h.aof.bind Aof.written

/-- Between `h` and `h'`, `buf` went to the log and to every slave that `h` knows. -/
def Propagated (h h' : CmdHandler) (buf : Bytes) : Prop :=
  (∀ lines, h.log = some lines → ∃ new, h'.log = some (lines ++ new) ∧ buf ∈ new) ∧
    ∃ new, h'.responseQueue = h.responseQueue ++ new ∧ ∀ id ∈ h.clientTable.listSlave, (id, buf) ∈ new

/-- Every execution propagates the change it makes, and every change of the
step is the change of an execution, in what the step propagates. -/
structure WriteLogged (P : Platform) (h : CmdHandler) (label : IterOrder × Event) (h' : CmdHandler) : Prop where
  execution : ∀ x key, Executes P h label x → Changes x.before x.after key →
    x.cmd.target = some key ∧ Propagated x.before x.after x.buf
  step : ∀ key, Changes h h' key →
    ∃ x, Executes P h label x ∧ x.cmd.target = some key ∧ Propagated h h' x.buf

/-- No command escapes, and when the lists are served no BLPOP waits for a list with items. -/
structure Logs (P : Platform) (h : CmdHandler) (label : IterOrder × Event) : Prop where
  command : ∀ x, Executes P h label x → x.before.refuses x.clientId x.cmd = false → ¬ Escapes P x.before.data x.cmd
  serve : label.2 = .serveBacklogList → h.flagBacklogList = true →
    ∀ key, Waits h key → listItems h.data key = []

section
variable {P : Platform}

/-! ## Growth -/

structure Grows (h h' : CmdHandler) : Prop where
  log : ∀ lines, h.log = some lines → ∃ new, h'.log = some (lines ++ new)
  queue : ∃ new, h'.responseQueue = h.responseQueue ++ new
  slaves : ∀ id ∈ h.clientTable.listSlave, id ∈ h'.clientTable.listSlave

theorem Grows.refl (h : CmdHandler) : Grows h h :=
  ⟨fun lines hl => ⟨[], by simp [hl]⟩, ⟨[], by simp⟩, fun _ hid => hid⟩

theorem Grows.trans {h₁ h₂ h₃ : CmdHandler} (h : Grows h₁ h₂) (h' : Grows h₂ h₃) : Grows h₁ h₃ where
  log lines hl := by
    obtain ⟨new, hn⟩ := h.log lines hl
    obtain ⟨new', hn'⟩ := h'.log _ hn
    exact ⟨new ++ new', by rw [hn', List.append_assoc]⟩
  queue := by
    obtain ⟨new, hn⟩ := h.queue
    obtain ⟨new', hn'⟩ := h'.queue
    exact ⟨new ++ new', by rw [hn', hn, List.append_assoc]⟩
  slaves id hid := h'.slaves id (h.slaves id hid)

/-- What is propagated stays in the log and in the queue. -/
theorem Propagated.extend {h₀ h₁ h₂ h₃ : CmdHandler} {buf : Bytes} (hp : Propagated h₁ h₂ buf) (hbefore : Grows h₀ h₁)
    (hafter : Grows h₂ h₃) : Propagated h₀ h₃ buf := by
  refine ⟨fun lines hl => ?_, ?_⟩
  · obtain ⟨new₁, h₁'⟩ := hbefore.log lines hl
    obtain ⟨new₂, h₂', hbuf⟩ := hp.1 _ h₁'
    obtain ⟨new₃, h₃'⟩ := hafter.log _ h₂'
    exact ⟨new₁ ++ new₂ ++ new₃, by simp [h₃'], by simp [hbuf]⟩
  · obtain ⟨new₁, h₁'⟩ := hbefore.queue
    obtain ⟨new₂, h₂', hbuf⟩ := hp.2
    obtain ⟨new₃, h₃'⟩ := hafter.queue
    refine ⟨new₁ ++ new₂ ++ new₃, by simp [h₃', h₂', h₁'], fun id hid => ?_⟩
    have := hbuf id (hbefore.slaves id hid)
    simp [this]

theorem mem_listSlave_setSlave {t : ClientTable} {id clientId : Nat} (h : id ∈ t.listSlave) :
    id ∈ (t.setSlave clientId).listSlave := by
  unfold ClientTable.listSlave at h
  cases hs : t.slaves with
  | none =>
    rw [hs] at h
    cases h
  | some slaves =>
    rw [hs] at h
    simp only [Option.map_some, Option.getD_some] at h
    simp only [ClientTable.listSlave, ClientTable.setSlave, hs, Option.map_some, Option.getD_some, AList.keys_insert]
    by_cases hid : id = clientId
    · exact hid ▸ List.mem_cons_self ..
    · exact List.mem_cons_of_mem _ ((List.mem_erase_of_ne hid).mpr h)

theorem Effect.grows {o : IterOrder} {h : CmdHandler} {now clientId : Nat} {epollFd : Option Int} {cmd : Cmd}
    {h' : CmdHandler} {r : CmdResult} (he : Effect P o h now clientId epollFd cmd h' r) : Grows h h' := by
  have hlog : ∀ lines, h.log = some lines → ∃ new, h.log = some (lines ++ new) := fun lines hl => ⟨[], by simp [hl]⟩
  have hqueue : ∃ new, h.responseQueue = h.responseQueue ++ new := ⟨[], by simp⟩
  cases he with
  | value | session | channels | users => exact ⟨hlog, hqueue, fun _ hid => hid⟩
  | request | publish => exact ⟨hlog, ⟨_, rfl⟩, fun _ hid => hid⟩
  | slave => exact ⟨hlog, hqueue, fun _ hid => mem_listSlave_setSlave hid⟩
  | ack _ ha =>
    obtain ⟨new, registry, rfl, _⟩ := cmdAck_frame ha
    exact ⟨hlog, ⟨new, rfl⟩, fun _ hid => hid⟩

theorem propagate_grows (o : IterOrder) (h : CmdHandler) (cmd : Cmd) (buf : Bytes) :
    Grows h (h.propagate o cmd buf) := by
  unfold propagate
  split
  · refine ⟨fun lines hl => ⟨[buf], ?_⟩, ⟨_, rfl⟩, fun _ hid => hid⟩
    unfold log at hl ⊢
    obtain ⟨a, ha, hw⟩ := Option.bind_eq_some_iff.mp hl
    simp [pushAll, ha, Aof.write, hw]
  · exact Grows.refl h

theorem conclude_grows {o : IterOrder} {h h' : CmdHandler} {cmd : Cmd} {buf : Bytes} {isMaster serialized : Bool}
    {r : CmdResult} {out : Except CmdOutput CmdOutput}
    (hc : h.conclude o cmd buf isMaster serialized r = some (h', out)) : Grows h h' := by
  cases r with
  | error e =>
    obtain ⟨s, hs⟩ := countFromMaster_frame h buf isMaster
    simp only [conclude, hs, Option.some.injEq, Prod.mk.injEq] at hc
    rw [← hc.1]
    exact ⟨(Grows.refl h).log, (Grows.refl h).queue, (Grows.refl h).slaves⟩
  | ok resp =>
    cases resp with
    | none =>
      cases hc
      exact Grows.refl h
    | some resp =>
      obtain ⟨s, rfl⟩ := conclude_some hc
      have := propagate_grows o
        { h with flagBacklogList := cmd.isFlagList, flagBacklogStream := cmd.isFlagStream } cmd buf
      exact ⟨this.log, this.queue, this.slaves⟩

theorem Executes.grows {h : CmdHandler} {label : IterOrder × Event} {x : Execution} (hx : Executes P h label x) :
    Grows x.before x.after := by
  rcases hx.effect with hsame | ⟨s, dispatched, r, fd, m, ser, heff, hc, _⟩
  · rw [hsame]
    exact Grows.refl _
  · have hg := heff.grows.trans (conclude_grows hc)
    exact ⟨hg.log, hg.queue, hg.slaves⟩

/-! ## One execution -/

theorem conclude_propagated {o : IterOrder} {h h' : CmdHandler} {cmd : Cmd} {buf : Bytes} {isMaster serialized : Bool}
    {resp : RespType} {out : Except CmdOutput CmdOutput}
    (hc : h.conclude o cmd buf isMaster serialized (.ok (some resp)) = some (h', out)) (hb : cmd.toBeBroadcast = true) :
    Propagated h h' buf := by
  obtain ⟨s, rfl⟩ := conclude_some hc
  simp only [propagate, hb, if_true]
  refine ⟨fun lines hl => ⟨[buf], ?_, by simp⟩, ⟨_, rfl, fun id hid => ?_⟩⟩
  · unfold log at hl ⊢
    obtain ⟨a, ha, hw⟩ := Option.bind_eq_some_iff.mp hl
    simp [pushAll, ha, Aof.write, hw]
  · exact List.mem_map.mpr ⟨id, (o.perm _).mem_iff.mpr hid, rfl⟩

theorem Executes.logged {h : CmdHandler} {label : IterOrder × Event} {x : Execution} (hx : Executes P h label x)
    (hesc : x.before.refuses x.clientId x.cmd = false → ¬ Escapes P x.before.data x.cmd) {key : String}
    (hc : Changes x.before x.after key) :
    Propagated x.before x.after x.buf := by
  rcases hx.effect with hsame | ⟨s, dispatched, r, fd, m, ser, heff, hcon, hno, _⟩
  · exact absurd rfl (hsame ▸ hc : Changes x.before x.before key)
  · have hne : dispatched.data.lookup key ≠ (x.before.prepared x.cmd s).data.lookup key := by
      rw [← conclude_data hcon]
      exact Ne.symm hc
    obtain ⟨hb, resp, rfl⟩ := (heff.data key hne).2 (hesc hno)
    have hp := conclude_propagated hcon hb
    have hbefore : Grows x.before dispatched := by
      have hg := heff.grows
      exact ⟨hg.log, hg.queue, hg.slaves⟩
    exact hp.extend hbefore (Grows.refl _)

/-! ## One step -/

/-- A change of a call of `handle` is the change of an execution. -/
theorem handle_logged {o : IterOrder} {h h' : CmdHandler} {cmd : Except CustomError Cmd} {buf : Bytes} {clientId : Nat}
    {epollFd : Int} {out : Except Bytes Bytes} (hh : h.handle P o cmd buf clientId epollFd = some (h', out))
    (hlog : ∀ x, Executes P h (o, .handle cmd buf clientId epollFd) x → x.before.refuses x.clientId x.cmd = false →
      ¬ Escapes P x.before.data x.cmd) (key : String)
    (hc : Changes h h' key) :
    ∃ x, Executes P h (o, .handle cmd buf clientId epollFd) x ∧ x.cmd.target = some key ∧ Propagated h h' x.buf := by
  have hinv : Grows h h' ∧ (Changes h h' key → ∃ x, Executes P h (o, .handle cmd buf clientId epollFd) x ∧
      x.cmd.target = some key ∧ Propagated h h' x.buf) := by
    refine handle_inv (I := fun g => Grows h g ∧ (Changes h g key →
      ∃ x, Executes P h (o, .handle cmd buf clientId epollFd) x ∧ x.cmd.target = some key ∧ Propagated h g x.buf))
      ?_ ?_ hh ⟨Grows.refl h, fun hne => absurd rfl hne⟩
    · rintro g t w ⟨hg, hx⟩
      exact ⟨⟨hg.log, hg.queue, hg.slaves⟩, hx⟩
    · rintro x hx ⟨hg, hbefore⟩
      have hgx := hx.grows
      refine ⟨hg.trans hgx, fun hne => ?_⟩
      by_cases hxc : Changes x.before x.after key
      · exact ⟨x, hx, hx.target hxc, (hx.logged (hlog x hx) hxc).extend hg (Grows.refl _)⟩
      · obtain ⟨y, hy, ht, hp⟩ := hbefore fun heq => hne (heq.trans (not_not.mp hxc))
        exact ⟨y, hy, ht, hp.extend (Grows.refl h) hgx⟩
  exact hinv.2 hc

theorem step_logged {h h' : CmdHandler} {label : IterOrder × Event} (hs : Steps P h label h') (hl : Logs P h label) :
    WriteLogged P h label h' := by
  refine ⟨fun x key hx hc => ⟨hx.target hc, hx.logged (hl.command x hx) hc⟩, fun key hc => ?_⟩
  obtain ⟨o, e⟩ := label
  by_cases he : ∃ cmd buf clientId epollFd, e = .handle cmd buf clientId epollFd
  · obtain ⟨cmd, buf, clientId, epollFd, rfl⟩ := he
    obtain ⟨⟨g, out⟩, hh, rfl⟩ := Option.map_eq_some_iff.mp hs
    exact handle_logged hh hl.command key hc
  · have hno := step_data hs (fun cmd buf clientId epollFd heq => he ⟨cmd, buf, clientId, epollFd, heq⟩)
      fun heq hflag => hl.serve heq hflag key
    exact absurd hc hno

/-- In a run of which every step logs what it writes, every step propagates what it changes. -/
theorem run_logged {h₀ h : CmdHandler} {labels : List (IterOrder × Event)}
    (hr : Run (guarded (Logs P) (Steps P)) h₀ labels h) :
    Run (fun h label h' => Steps P h label h' ∧ WriteLogged P h label h') h₀ labels h :=
  hr.mono fun _ _ _ ⟨hl, hs⟩ => ⟨hs, step_logged hs hl⟩

end

def logging : CmdHandler := { startup with aof := some { written := some [] } }

theorem run_logged_set : ∃ h, Run (fun h label h' => Steps .blank h label h' ∧ WriteLogged .blank h label h') logging
    [ask 7 (.psync "?" (-1)), ask 1 (.set "k" "v" none)] h ∧ h.log = some [[42]] ∧ h.responseQueue = [(7, [42])] := by
  refine ⟨_, run_logged (.cons ⟨?_, rfl⟩ (.cons ⟨?_, rfl⟩ .nil)), rfl, rfl⟩
  · exact ⟨fun x hx _ => by cases hx; exact id, fun h => by cases h⟩
  · exact ⟨fun x hx _ => by cases hx; exact id, fun h => by cases h⟩

def zaddOne : IterOrder × Event := ask 1 (.zadd "z" ⟨0x3FF0000000000000⟩ "a")

/-- The new set is in neither the log nor the queue. -/
theorem zadd_unlogged :
    let h := play logging [ask 7 (.psync "?" (-1))]
    let h' := play logging [ask 7 (.psync "?" (-1)), zaddOne]
    Run (Steps .blank) logging [ask 7 (.psync "?" (-1))] h ∧ Steps .blank h zaddOne h' ∧ Changes h h' "z" ∧
      ¬ WriteLogged .blank h zaddOne h' := by
  intro h h'
  have hchange : Changes h h' "z" := fun heq => by
    have hsome := congrArg Option.isSome heq
    exact absurd hsome (by decide)
  refine ⟨.cons rfl .nil, rfl, hchange, fun hw => ?_⟩
  obtain ⟨x, _, _, hlog, _⟩ := hw.step "z" hchange
  obtain ⟨new, hnew, hbuf⟩ := hlog [] rfl
  have hnil : some [] = some new := hnew
  cases hnil
  cases hbuf

end CmdHandler

end Redis
