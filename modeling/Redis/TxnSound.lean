import Redis.AbortSound
import Redis.TxnFrame

/-!
# What EXEC runs

While a transaction is open its queue is what the client has handed over since
the MULTI that opened it. EXEC runs the queue in one step, to the same data as
`_execute_cmd` on the commands one after the other.
-/

namespace Redis

open Lib RequestRegistry

namespace CmdHandler

def handed (clientId : Nat) (label : IterOrder × Event) : Option (Cmd × Bytes) :=
  match label.2 with
  | .handle (.ok (.watch _)) _ _ _ => none
  | .handle (.ok cmd) buf id _ => if id = clientId then some (cmd, buf) else none
  | _ => none

/-- The commands through `_execute_cmd`, one after the other, as EXEC calls it. -/
def executeAll (P : Platform) (o : IterOrder) (clientId : Nat) (h : CmdHandler) (cmds : List (Cmd × Bytes)) :
    Option CmdHandler :=
  cmds.foldlM (fun g (cmd, buf) => (g.executeCmd P o (cmdExec P o) cmd buf clientId none false).map Prod.fst) h

section
variable {P : Platform} {o : IterOrder} {clientId : Nat}

/-! ## The queue of a transaction -/

theorem isTransaction_congr {r r' : RequestRegistry} {id : Nat}
    (h : r'.backlogTxn.lookup id = r.backlogTxn.lookup id) : r'.isTransaction id = r.isTransaction id := by
  rw [Bool.eq_iff_iff, isTransaction_iff, isTransaction_iff, h]

theorem Call.Made.txns {c : Call} (hm : Call.Made P o c) :
    c.after.registry.backlogTxn = c.before.registry.backlogTxn ∨
      c.cmd = .multi ∧ c.before.registry.isTransaction c.clientId = false ∧
        c.after.registry.backlogTxn = c.before.registry.backlogTxn.insert c.clientId [] := by
  rw [hm.session.1]
  by_cases hmulti : c.cmd = .multi
  · rw [hmulti]
    cases hopen : c.before.registry.isTransaction c.clientId with
    | true => exact .inl (by simp [txnsAfter, hopen])
    | false => exact .inr ⟨rfl, rfl, by simp [txnsAfter, hopen]⟩
  · refine .inl ?_
    unfold txnsAfter
    split
    · rename_i heq
      exact absurd heq hmulti
    · rfl

theorem runQueue_txns {queue : List Queued} {h h' : CmdHandler} {resps : List RespType}
    (hopen : h.registry.isTransaction clientId = true) (hr : runQueue P o clientId h queue = some (h', resps)) :
    h'.registry.backlogTxn = h.registry.backlogTxn := by
  have hcall : ∀ c (cs : List Call), c ∈ queueCalls P o clientId h queue → Call.Made P o c → c.clientId = clientId →
      c.before.registry.backlogTxn = h.registry.backlogTxn → c.after.registry.backlogTxn = h.registry.backlogTxn := by
    rintro c _ _ hm rfl hI
    rcases hm.txns with hsame | ⟨_, hclosed, _⟩
    · exact hsame.trans hI
    · have hstill : c.before.registry.isTransaction c.clientId = true := (isTransaction_congr (by rw [hI])).trans hopen
      rw [hstill] at hclosed
      cases hclosed
  exact queueCalls_inv (I := fun g _ => g.registry.backlogTxn = h.registry.backlogTxn) [] hr hcall rfl

theorem closeTxn_self (h : CmdHandler) : (h.closeTxn clientId).registry.backlogTxn.lookup clientId = none :=
  AList.lookup_erase ..

theorem drainTxn_open {h : CmdHandler} {queue : List Queued}
    (hqueue : h.registry.backlogTxn.lookup clientId = some queue) :
    (h.drainTxn clientId).registry.isTransaction clientId = true :=
  isTransaction_iff.mpr ⟨[], by simp [drainTxn, HashMap.lookup_modify, hqueue]⟩

/-! ## One step -/

/-- The command of a client that has no transaction opens one, or none. -/
theorem execute_txns {h h' : CmdHandler} {cmd : Cmd} {buf : Bytes} {id : Nat} {epollFd : Int}
    {out : Except CmdOutput CmdOutput} (hclosed : h.registry.isTransaction id = false)
    (he : h.execute P o cmd buf id epollFd = some (h', out)) :
    h'.registry.backlogTxn = h.registry.backlogTxn ∨
      cmd = .multi ∧ h'.registry.backlogTxn = h.registry.backlogTxn.insert id [] := by
  have hexec : ∀ s, NotNested (cmdExec P o) (h.prepared cmd s) id := fun s =>
    cmdExec_notNested (AList.lookup_eq_none.mpr (of_decide_eq_false hclosed))
  rcases callOf_cases hexec (fun _ => hclosed) he with ⟨_, rfl, _⟩ | ⟨r, _, hm⟩
  · exact .inl rfl
  · exact hm.txns.imp_right fun ⟨hmulti, _, hins⟩ => ⟨hmulti, hins⟩

/-- The transaction of a client in the steps of another. -/
theorem handle_txn_other {h h' : CmdHandler} {cmd : Except CustomError Cmd} {buf : Bytes} {id : Nat} {epollFd : Int}
    {out : Except Bytes Bytes} (hid : clientId ≠ id) (hh : h.handle P o cmd buf id epollFd = some (h', out)) :
    h'.registry.backlogTxn.lookup clientId = h.registry.backlogTxn.lookup clientId := by
  cases handle_cases hh with
  | malformed | refused => rfl
  | direct hclosed he =>
    rcases execute_txns hclosed he with hsame | ⟨_, hins⟩
    · rw [hsame]
    · rw [hins, AList.lookup_insert_ne hid]
  | queued => exact HashMap.lookup_pushBack_ne hid _ _
  | aborted | discarded => exact AList.lookup_erase_ne hid
  | @ran queue g _ hqueue _ hrun =>
    have hsame : g.registry.backlogTxn = (h.drainTxn id).registry.backlogTxn :=
      runQueue_txns (drainTxn_open hqueue) hrun
    have herase : (g.closeTxn id).registry.backlogTxn.lookup clientId = g.registry.backlogTxn.lookup clientId :=
      AList.lookup_erase_ne hid
    rw [herase, hsame]
    exact HashMap.lookup_modify_ne hid _ _

/-- The transaction of a client in its own steps: MULTI opens it, what can be
queued is queued, EXEC and DISCARD end it. -/
theorem handle_txn_self {h h' : CmdHandler} {cmd : Except CustomError Cmd} {buf : Bytes} {epollFd : Int}
    {out : Except Bytes Bytes} (hh : h.handle P o cmd buf clientId epollFd = some (h', out)) {queue : List Queued}
    (hqueue : h'.registry.backlogTxn.lookup clientId = some queue) :
    h.registry.isTransaction clientId = false ∧ cmd = .ok .multi ∧ queue = [] ∨
    ∃ queue', h.registry.backlogTxn.lookup clientId = some queue' ∧
      queue.map (fun q => (q.cmd, q.buf)) = queue'.map (fun q => (q.cmd, q.buf)) ++
        (handed clientId (o, .handle cmd buf clientId epollFd)).toList := by
  cases handle_cases hh with
  | malformed => exact .inr ⟨queue, hqueue, by simp [handed]⟩
  | refused => exact .inr ⟨queue, hqueue, by simp [handed]⟩
  | direct hclosed he =>
    have hnone : h.registry.backlogTxn.lookup clientId = none := AList.lookup_eq_none.mpr (of_decide_eq_false hclosed)
    rcases execute_txns hclosed he with hsame | ⟨hmulti, hins⟩
    · rw [hsame, hnone] at hqueue
      cases hqueue
    · rw [hins, AList.lookup_insert] at hqueue
      cases hqueue
      exact .inl ⟨hclosed, congrArg _ hmulti, rfl⟩
  | @queued cmd hq hopen =>
    obtain ⟨queue', hqueue'⟩ := isTransaction_iff.mp hopen
    refine .inr ⟨queue', hqueue', ?_⟩
    have hpush : queue = queue' ++ [⟨cmd, buf, hq⟩] := by
      have hl := HashMap.lookup_pushBack clientId ⟨cmd, buf, hq⟩ h.registry.backlogTxn
      rw [hqueue', Option.getD_some] at hl
      exact Option.some.inj (hqueue.symm.trans hl)
    have hhanded : handed clientId (o, .handle (.ok cmd) buf clientId epollFd) = some (cmd, buf) := by
      cases cmd with
      | watch => cases hq
      | _ => simp [handed]
    rw [hpush, hhanded, List.map_append]
    rfl
  | aborted | discarded | ran =>
    rw [closeTxn_self] at hqueue
    cases hqueue

/-! ## Since MULTI -/

/-- The client's last MULTI, the transaction open from then on, and in its queue
what the client has handed over since. -/
def QueuedSince (P : Platform) (clientId : Nat) (h₀ : CmdHandler) (labels : List (IterOrder × Event)) (h : CmdHandler)
    (queue : List Queued) : Prop :=
  ∃ pre o buf epollFd since h₁ h₂, labels = pre ++ (o, .handle (.ok .multi) buf clientId epollFd) :: since ∧
    Run (Steps P) h₀ pre h₁ ∧ h₁.registry.isTransaction clientId = false ∧
    Steps P h₁ (o, .handle (.ok .multi) buf clientId epollFd) h₂ ∧ h₂.registry.isTransaction clientId = true ∧
    Run (fun s label t => Steps P s label t ∧ t.registry.isTransaction clientId = true) h₂ since h ∧
    queue.map (fun q => (q.cmd, q.buf)) = since.filterMap (handed clientId)

theorem QueuedSince.step {h₀ h h' : CmdHandler} {labels : List (IterOrder × Event)} {label : IterOrder × Event}
    {queue queue' : List Queued} (hI : QueuedSince P clientId h₀ labels h queue) (hs : Steps P h label h')
    (hopen : h'.registry.isTransaction clientId = true)
    (hqueue : queue'.map (fun q => (q.cmd, q.buf)) =
      queue.map (fun q => (q.cmd, q.buf)) ++ (handed clientId label).toList) :
    QueuedSince P clientId h₀ (labels ++ [label]) h' queue' := by
  obtain ⟨pre, o, buf, epollFd, since, h₁, h₂, rfl, hpre, hclosed, hmulti, hopened, hsince, hsame⟩ := hI
  refine ⟨pre, o, buf, epollFd, since ++ [label], h₁, h₂, by rw [List.append_assoc, List.cons_append], hpre, hclosed,
    hmulti, hopened, hsince.append (.cons ⟨hs, hopen⟩ .nil), ?_⟩
  rw [hqueue, hsame, List.filterMap_append]
  cases hl : handed clientId label <;> simp [hl]

theorem run_queuedSince {h₀ h : CmdHandler} {labels : List (IterOrder × Event)}
    (hstart : h₀.registry.isTransaction clientId = false) (hr : Run (Steps P) h₀ labels h) :
    ∀ queue, h.registry.backlogTxn.lookup clientId = some queue → QueuedSince P clientId h₀ labels h queue := by
  refine hr.history (I := fun labels h => ∀ queue, h.registry.backlogTxn.lookup clientId = some queue →
    QueuedSince P clientId h₀ labels h queue) ?_ ?_
  · intro fs u label v hpre hI hs queue hqueue
    obtain ⟨o, e⟩ := label
    have hopen : v.registry.isTransaction clientId = true := isTransaction_iff.mpr ⟨queue, hqueue⟩
    have hkeep : v.registry.backlogTxn.lookup clientId = u.registry.backlogTxn.lookup clientId →
        handed clientId (o, e) = none → QueuedSince P clientId h₀ (fs ++ [(o, e)]) v queue := fun hsame hnone =>
      (hI queue (hsame ▸ hqueue)).step hs hopen (by rw [hnone, Option.toList_none, List.append_nil])
    by_cases hhandle : ∃ cmd buf id epollFd, e = .handle cmd buf id epollFd
    · obtain ⟨cmd, buf, id, epollFd, rfl⟩ := hhandle
      obtain ⟨⟨g, out⟩, hh, rfl⟩ := Option.map_eq_some_iff.mp hs
      by_cases hid : clientId = id
      · subst hid
        rcases handle_txn_self hh hqueue with ⟨hclosed, rfl, rfl⟩ | ⟨queue', hqueue', hmap⟩
        · exact ⟨fs, o, buf, epollFd, [], u, g, rfl, hpre, hclosed, hs, hopen, .nil, rfl⟩
        · exact (hI queue' hqueue').step hs hopen hmap
      · refine hkeep (handle_txn_other hid hh) ?_
        cases cmd with
        | error => rfl
        | ok cmd => cases cmd <;> simp [handed, Ne.symm hid]
    · have hother : ∀ cmd buf id epollFd, e ≠ .handle cmd buf id epollFd :=
        fun cmd buf id epollFd he => hhandle ⟨cmd, buf, id, epollFd, he⟩
      refine hkeep (by rw [(step_session hs hother).1]) ?_
      cases e with
      | handle cmd buf id epollFd => exact absurd rfl (hother cmd buf id epollFd)
      | serveBacklogList | serveBacklogStream | expire | process => rfl
  · intro queue hqueue
    rw [isTransaction_iff.mpr ⟨queue, hqueue⟩] at hstart
    cases hstart

/-! ## EXEC -/

theorem runQueue_executeAll {t : HashMap Nat (List Queued)} (ht : clientId ∈ t) {queue : List Queued}
    {h h' : CmdHandler} {resps : List RespType} (hopen : h.registry.isTransaction clientId = true)
    (hr : runQueue P o clientId h queue = some (h', resps)) :
    executeAll P o clientId (h.withTxns t) (queue.map fun q => (q.cmd, q.buf)) = some (h'.withTxns t) := by
  induction queue generalizing h resps with
  | nil =>
    cases hr
    rfl
  | cons q qs ih =>
    have hsplit := hr
    simp only [runQueue, Option.bind_eq_bind, Option.bind_eq_some_iff] at hsplit
    obtain ⟨⟨g, out⟩, he, ⟨g', rest⟩, hqs, hlast⟩ := hsplit
    cases hlast
    have hone : runQueue P o clientId h [q] = some (g, (outputOf out).extractResp.toList) := by simp [runQueue, he]
    have hstill : g.registry.isTransaction clientId = true :=
      (isTransaction_congr (by rw [runQueue_txns hopen hone])).trans hopen
    have hstep : (h.withTxns t).executeCmd P o (cmdExec P o) q.cmd q.buf clientId none false =
        some (g.withTxns t, out) :=
      (executeCmd_withTxns hopen ht q.queueable).trans (congrArg (Option.map _) he)
    unfold executeAll at ih ⊢
    rw [List.map_cons, List.foldlM_cons]
    simp only [hstep, Option.map_some, Option.bind_eq_bind, Option.bind_some]
    exact ih hstill hqs

/-- From a start where the client has no transaction: EXEC runs what was queued
since MULTI and nothing else, which comes to the same data as the commands on
their own, and takes nothing from the other clients; and once EXEC or DISCARD
have ended the transaction, there is none, and no watch. -/
theorem exec_runs_queued {h₀ h : CmdHandler} {labels : List (IterOrder × Event)}
    (hstart : h₀.registry.isTransaction clientId = false) (hr : Run (Steps P) h₀ labels h) :
    (∀ o buf epollFd h' out, h.registry.isTransaction clientId = true → h.registry.isAnyDirty clientId = false →
      h.handle P o (.ok .exec) buf clientId epollFd = some (h', out) →
      ∃ queue, QueuedSince P clientId h₀ labels h queue ∧
        (∃ g resps, runQueue P o clientId (h.drainTxn clientId) queue = some (g, resps) ∧ h' = g.closeTxn clientId) ∧
        (∃ g, executeAll P o clientId h (queue.map fun q => (q.cmd, q.buf)) = some g ∧ h'.data = g.data) ∧
        ∀ id, id ≠ clientId → h'.registry.backlogTxn.lookup id = h.registry.backlogTxn.lookup id ∧
          ∀ key, (watchFlag h'.registry.watchlist key id).isSome = (watchFlag h.registry.watchlist key id).isSome) ∧
    (∀ label h', Steps P h label h' → h.closedBy label.2 = some clientId →
      h'.registry.isTransaction clientId = false ∧ ∀ key, watchFlag h'.registry.watchlist key clientId = none) := by
  constructor
  · intro o buf epollFd h' out hopen hclean hh
    obtain ⟨queue, hqueue⟩ := isTransaction_iff.mp hopen
    refine ⟨queue, run_queuedSince hstart hr queue hqueue, ?_⟩
    have hran : ∃ g resps, runQueue P o clientId (h.drainTxn clientId) queue = some (g, resps) ∧
        h' = g.closeTxn clientId := by
      cases handle_cases hh with
      | direct hclosed =>
        rw [hopen] at hclosed
        cases hclosed
      | queued hq => cases hq
      | aborted _ hdirty =>
        rw [hclean] at hdirty
        cases hdirty
      | ran hqueue' _ hrun =>
        rw [hqueue] at hqueue'
        cases hqueue'
        exact ⟨_, _, hrun, rfl⟩
    refine ⟨hran, ?_, fun id hid => ⟨handle_txn_other hid hh, fun key => ?_⟩⟩
    · obtain ⟨g, resps, hrun, rfl⟩ := hran
      have hmem : clientId ∈ h.registry.backlogTxn := of_decide_eq_true hopen
      have hall := runQueue_executeAll hmem (drainTxn_open hqueue) hrun
      exact ⟨g.withTxns h.registry.backlogTxn, hall, rfl⟩
    · rw [handle_flag_other hid.symm hh, markedBy]
      split
      · rw [Option.isSome_map]
      · rfl
  · rintro ⟨o, e⟩ h' hs hclosed
    cases e with
    | handle cmd buf id epollFd =>
      obtain ⟨⟨g, out⟩, hh, rfl⟩ := Option.map_eq_some_iff.mp hs
      obtain ⟨g', _, hend⟩ := handle_calls_close (I := fun _ _ => True) (fun _ _ _ _ => trivial)
        (fun _ _ _ _ _ _ => trivial) hh trivial
      rw [show h.closedBy (.handle cmd buf id epollFd) = some clientId from hclosed] at hend
      have hclose : g = g'.closeTxn clientId := hend
      subst hclose
      refine ⟨?_, fun key => watchFlag_unwatchAll_self _ _ _⟩
      exact decide_eq_false (AList.lookup_eq_none.mp (closeTxn_self g'))
    | serveBacklogList | serveBacklogStream | expire | process => cases hclosed

end

theorem exec_runs_queued_set :
    ∃ queue, QueuedSince .blank 1 startup
      [ask 1 .multi, ask 2 (.set "k" "w" none), ask 1 (.set "k" "v" none), ask 1 .multi]
      (play startup [ask 1 .multi, ask 2 (.set "k" "w" none), ask 1 (.set "k" "v" none), ask 1 .multi]) queue := by
  have hr : Run (Steps .blank) startup
      [ask 1 .multi, ask 2 (.set "k" "w" none), ask 1 (.set "k" "v" none), ask 1 .multi]
      (play startup [ask 1 .multi, ask 2 (.set "k" "w" none), ask 1 (.set "k" "v" none), ask 1 .multi]) :=
    .cons rfl (.cons rfl (.cons rfl (.cons rfl .nil)))
  have hstart : startup.registry.isTransaction 1 = false := rfl
  obtain ⟨queue, hqueue, _⟩ := (exec_runs_queued hstart hr).1 .asIs [] 0 _ _ rfl rfl rfl
  exact ⟨queue, hqueue⟩

end CmdHandler

end Redis
