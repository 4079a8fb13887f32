import Redis.DataSound

/-!
# Calls of `_execute_cmd`

A step of the handler executes one command, or the commands of a transaction.
`calls` lists what is executed past the check for subscribers, in order, each
with what the handler of its command returned. `handle_calls` is the rule for
what is said of the state and of the calls so far: each call keeps it, and so do
the changes of transactions and watches around them.
-/

namespace Redis

open Lib

namespace CmdHandler

structure Call where
  before : CmdHandler
  cmd : Cmd
  buf : Bytes
  clientId : Nat
  result : CmdResult
  after : CmdHandler

section
variable (P : Platform) (o : IterOrder)

/-- `_execute_cmd`, for a command that is not refused. -/
def callOf (exec : CmdHandler → Nat → Option (CmdHandler × CmdResult)) (h : CmdHandler) (cmd : Cmd) (buf : Bytes)
    (clientId : Nat) (epollFd : Option Int) (serialized : Bool) : Option Call :=
  if h.refuses clientId cmd then none
  else do
    let isMaster := h.clientTable.isMaster clientId
    let prepared ← h.prepare cmd buf isMaster
    let (dispatched, result) ←
      dispatch P o exec prepared h.registry.timer.now (h.isSubscriber clientId) clientId epollFd cmd
    let (after, _) ← dispatched.conclude o cmd buf isMaster serialized result
    some { before := h, cmd, buf, clientId, result, after }

def queuedCall (h : CmdHandler) (clientId : Nat) (q : Queued) : Option Call :=
  h.callOf P o (fun _ _ => none) q.cmd q.buf clientId none false

def queueCalls (clientId : Nat) : CmdHandler → List Queued → List Call
  | _, [] => []
  | h, q :: qs =>
    match h.executeQueued P o clientId q with
    | some (h', _) => (h.queuedCall P o clientId q).toList ++ queueCalls clientId h' qs
    | none => []

def txnQueue (h : CmdHandler) (clientId : Nat) : List Queued := (h.registry.backlogTxn.lookup clientId).getD []

def calls (h : CmdHandler) (label : IterOrder × Event) : List Call :=
  match label.2 with
  | .handle (.ok cmd) buf clientId epollFd =>
    if !h.registry.isTransaction clientId then
      (h.callOf P label.1 (cmdExec P label.1) cmd buf clientId (some epollFd) true).toList
    else if cmd = .exec ∧ h.registry.isAnyDirty clientId = false then
      queueCalls P label.1 clientId (h.drainTxn clientId) (h.txnQueue clientId)
    else []
  | _ => []

/-- The client whose transaction a step ends: EXEC or DISCARD while it is open. -/
def closedBy (h : CmdHandler) : Event → Option Nat
  | .handle (.ok .exec) _ clientId _ | .handle (.ok .discard) _ clientId _ =>
    if h.registry.isTransaction clientId then some clientId else none
  | _ => none

def collect {α : Type} (f : CmdHandler → IterOrder × Event → List α) :
    CmdHandler → List (IterOrder × Event) → List α
  | _, [] => []
  | h, label :: labels =>
    match h.step P label with
    | some h' => f h label ++ collect f h' labels
    | none => []

def runCalls (h : CmdHandler) (labels : List (IterOrder × Event)) : List Call := collect P (calls P) h labels

end

/-- What a call does: it is not refused, its command is dispatched on the prepared
state, and the result is concluded. EXEC and DISCARD get here outside a
transaction only. -/
structure Call.Made (P : Platform) (o : IterOrder) (c : Call) : Prop where
  passed : c.before.refuses c.clientId c.cmd = false
  closed : c.cmd = .discard → c.before.registry.isTransaction c.clientId = false
  ran : ∃ exec appStates dispatched epollFd serialized out,
    c.before.prepare c.cmd c.buf (c.before.clientTable.isMaster c.clientId) =
      some (c.before.prepared c.cmd appStates) ∧
    (c.cmd.toBeBroadcast = false → appStates = c.before.appStates) ∧
    NotNested exec (c.before.prepared c.cmd appStates) c.clientId ∧
    dispatch P o exec (c.before.prepared c.cmd appStates) c.before.registry.timer.now
      (c.before.isSubscriber c.clientId) c.clientId epollFd c.cmd = some (dispatched, c.result) ∧
    dispatched.conclude o c.cmd c.buf (c.before.clientTable.isMaster c.clientId) serialized c.result =
      some (c.after, out)

section
variable {P : Platform} {o : IterOrder}

/-! ## One call -/

/-- A command that is executed is refused, or it makes a call. -/
theorem callOf_cases {exec : CmdHandler → Nat → Option (CmdHandler × CmdResult)} {h h' : CmdHandler} {cmd : Cmd}
    {buf : Bytes} {clientId : Nat} {epollFd : Option Int} {serialized : Bool} {out : Except CmdOutput CmdOutput}
    (hexec : ∀ s, NotNested exec (h.prepared cmd s) clientId)
    (hclosed : cmd = .discard → h.registry.isTransaction clientId = false)
    (he : h.executeCmd P o exec cmd buf clientId epollFd serialized = some (h', out)) :
    h.callOf P o exec cmd buf clientId epollFd serialized = none ∧ h' = h ∧ h.refuses clientId cmd = true ∨
    ∃ r, h.callOf P o exec cmd buf clientId epollFd serialized = some ⟨h, cmd, buf, clientId, r, h'⟩ ∧
      Call.Made P o ⟨h, cmd, buf, clientId, r, h'⟩ := by
  rcases executeCmd_cases he with ⟨rfl, _, hrefuses⟩ | ⟨hno, g, dispatched, r, hp, hd, hc⟩
  · exact .inl ⟨by rw [callOf, if_pos hrefuses], rfl, hrefuses⟩
  · have hne : ¬ h.refuses clientId cmd = true := by rw [hno]; exact Bool.false_ne_true
    obtain ⟨s, hs, rfl⟩ := prepare_frame hp
    refine .inr ⟨r, ?_, hno, hclosed, exec, s, dispatched, epollFd, serialized, out, hp, hs, hexec s, hd, hc⟩
    rw [callOf, if_neg hne]
    simp only [Option.bind_eq_bind, hp, Option.bind_some, hd, hc]

theorem Call.Made.elsewhere {c : Call} (hm : Call.Made P o c) {key : String} (ht : c.cmd.target ≠ some key) :
    c.after.data.lookup key = c.before.data.lookup key := by
  obtain ⟨_, _, exec, s, d, fd, ser, out, _, _, hexec, hd, hc⟩ := hm
  rw [conclude_data hc]
  by_contra hne
  exact ht ((dispatch_effect hexec hd).data key hne).1

theorem queuedCall_cases {h h' : CmdHandler} {clientId : Nat} {q : Queued} {out : Except CmdOutput CmdOutput}
    (he : h.executeQueued P o clientId q = some (h', out)) :
    h.queuedCall P o clientId q = none ∧ h' = h ∧ h.refuses clientId q.cmd = true ∨
    ∃ r, h.queuedCall P o clientId q = some ⟨h, q.cmd, q.buf, clientId, r, h'⟩ ∧
      Call.Made P o ⟨h, q.cmd, q.buf, clientId, r, h'⟩ :=
  callOf_cases (fun _ _ _ h => by cases h) (fun hq => by have := q.queueable; rw [hq] at this; cases this) he

/-! ## The calls of a step -/

/-- What each call of a queue keeps holds after the queue. -/
theorem queueCalls_inv {I : CmdHandler → List Call → Prop} {clientId : Nat} {queue : List Queued} {h h' : CmdHandler}
    {resps : List RespType} (made : List Call) (hr : runQueue P o clientId h queue = some (h', resps))
    (hcall : ∀ c cs, c ∈ queueCalls P o clientId h queue → Call.Made P o c → c.clientId = clientId →
      I c.before cs → I c.after (cs ++ [c]))
    (hI : I h made) : I h' (made ++ queueCalls P o clientId h queue) := by
  induction queue generalizing h resps made with
  | nil =>
    cases hr
    rw [queueCalls, List.append_nil]
    exact hI
  | cons q qs ih =>
    simp only [runQueue, Option.bind_eq_bind, Option.bind_eq_some_iff] at hr
    obtain ⟨⟨g, out⟩, he, ⟨g', rest⟩, hqs, hlast⟩ := hr
    cases hlast
    have hlist : queueCalls P o clientId h (q :: qs) =
        (h.queuedCall P o clientId q).toList ++ queueCalls P o clientId g qs := by
      simp only [queueCalls, he]
    have hrest := fun made' hI' => ih made' hqs
      (fun c cs hc => hcall c cs (by rw [hlist]; exact List.mem_append_right _ hc)) hI'
    rw [hlist]
    rcases queuedCall_cases he with ⟨hnone, rfl, _⟩ | ⟨r, hsome, hmade⟩
    · rw [hnone]
      exact hrest made hI
    · rw [hsome, Option.toList_some, ← List.append_assoc]
      refine hrest _ (hcall _ made ?_ hmade rfl hI)
      rw [hlist, hsome]
      exact List.mem_append_left _ (List.mem_singleton_self _)

theorem closedBy_some {h : CmdHandler} {cmd : Except CustomError Cmd} {buf : Bytes} {clientId id : Nat}
    {epollFd : Int} :
    h.closedBy (.handle cmd buf clientId epollFd) = some id ↔
      clientId = id ∧ h.registry.isTransaction clientId = true ∧ (cmd = .ok .exec ∨ cmd = .ok .discard) := by
  unfold closedBy
  split
  · rename_i heq
    cases heq
    cases h.registry.isTransaction clientId <;> simp
  · rename_i heq
    cases heq
    cases h.registry.isTransaction clientId <;> simp
  · rename_i hexec hdiscard
    refine ⟨(by cases ·), ?_⟩
    rintro ⟨_, _, rfl | rfl⟩
    · exact absurd rfl (hexec _ _ _)
    · exact absurd rfl (hdiscard _ _ _)

theorem closedBy_none {h : CmdHandler} {cmd : Cmd} {buf : Bytes} {clientId : Nat} {epollFd : Int}
    (hno : h.registry.isTransaction clientId = true → cmd ≠ .exec ∧ cmd ≠ .discard) :
    h.closedBy (.handle (.ok cmd) buf clientId epollFd) = none := by
  refine Option.eq_none_iff_forall_ne_some.mpr fun id hc => ?_
  obtain ⟨_, hin, hcmd⟩ := closedBy_some.mp hc
  rcases hcmd with hcmd | hcmd <;> cases hcmd
  · exact (hno hin).1 rfl
  · exact (hno hin).2 rfl

theorem calls_open {h : CmdHandler} {cmd : Cmd} {buf : Bytes} {clientId : Nat} {epollFd : Int}
    (hopen : h.registry.isTransaction clientId = true) :
    h.calls P (o, .handle (.ok cmd) buf clientId epollFd) =
      if cmd = .exec ∧ h.registry.isAnyDirty clientId = false then
        queueCalls P o clientId (h.drainTxn clientId) (h.txnQueue clientId)
      else [] := by
  simp only [calls, hopen, Bool.not_true, Bool.false_eq_true, if_false]

theorem callOf_direct {exec : CmdHandler → Nat → Option (CmdHandler × CmdResult)} {h : CmdHandler} {cmd : Cmd}
    {buf : Bytes} {id : Nat} {epollFd : Option Int} {serialized : Bool} {c : Call}
    (hc : h.callOf P o exec cmd buf id epollFd serialized = some c) : c.before = h ∧ c.cmd = cmd := by
  unfold callOf at hc
  split at hc
  · cases hc
  · simp only [Option.bind_eq_bind, Option.bind_eq_some_iff] at hc
    obtain ⟨_, _, _, _, _, _, hlast⟩ := hc
    cases hlast
    exact ⟨rfl, rfl⟩

theorem calls_direct {h : CmdHandler} {cmd : Cmd} {buf : Bytes} {id : Nat} {epollFd : Int}
    (hne : cmd ≠ .exec) {c : Call}
    (hc : c ∈ h.calls P (o, .handle (.ok cmd) buf id epollFd)) : c.before = h ∧ c.cmd = cmd := by
  simp only [calls] at hc
  split at hc
  · exact callOf_direct (Option.mem_toList.mp hc)
  · rw [if_neg fun h => hne h.1] at hc
    cases hc

/-- The queue of a transaction changes, and the calls are made one after the
other; then the transaction is closed, if the step ends it. -/
theorem handle_calls_close {I : CmdHandler → List Call → Prop} {h h' : CmdHandler} {cmd : Except CustomError Cmd}
    {buf : Bytes} {clientId : Nat} {epollFd : Int} {out : Except Bytes Bytes}
    (htxn : ∀ g t cs, I g cs → I (g.withSession t g.registry.watchlist) cs)
    (hcall : ∀ c cs, c ∈ h.calls P (o, .handle cmd buf clientId epollFd) → Call.Made P o c → c.clientId = clientId →
      I c.before cs → I c.after (cs ++ [c]))
    (hh : h.handle P o cmd buf clientId epollFd = some (h', out)) (hI : I h []) :
    ∃ g, I g (h.calls P (o, .handle cmd buf clientId epollFd)) ∧
      h' = (h.closedBy (.handle cmd buf clientId epollFd)).elim g g.closeTxn := by
  cases handle_cases hh with
  | malformed => exact ⟨h, hI, rfl⟩
  | @direct cmd _ out hclosed he =>
    have hexec : ∀ s, NotNested (cmdExec P o) (h.prepared cmd s) clientId := fun s =>
      cmdExec_notNested (AList.lookup_eq_none.mpr (of_decide_eq_false hclosed))
    have hlist : h.calls P (o, .handle (.ok cmd) buf clientId epollFd) =
        (h.callOf P o (cmdExec P o) cmd buf clientId (some epollFd) true).toList := by
      simp only [calls, hclosed, Bool.not_false, if_true]
    rw [closedBy_none fun hopen => absurd (hclosed.symm.trans hopen) Bool.false_ne_true]
    refine ⟨h', ?_, rfl⟩
    rcases callOf_cases hexec (fun _ => hclosed) he with ⟨hnone, rfl, _⟩ | ⟨r, hsome, hmade⟩
    · rw [hlist, hnone]
      exact hI
    · have hone : h.calls P (o, .handle (.ok cmd) buf clientId epollFd) = [⟨h, cmd, buf, clientId, r, h'⟩] := by
        rw [hlist, hsome, Option.toList_some]
      rw [hone]
      exact hcall ⟨h, cmd, buf, clientId, r, h'⟩ [] (by rw [hone]; exact List.mem_singleton_self _) hmade rfl hI
  | @queued cmd hq hopen =>
    have hne : cmd ≠ .exec ∧ cmd ≠ .discard := by
      constructor <;> rintro rfl <;> cases hq
    rw [closedBy_none fun _ => hne, calls_open hopen, if_neg fun h => hne.1 h.1]
    exact ⟨_, htxn _ _ _ hI, rfl⟩
  | aborted hqueue hdirty =>
    have hopen := isTransaction_iff.mpr ⟨_, hqueue⟩
    rw [closedBy_some.mpr ⟨rfl, hopen, .inl rfl⟩, calls_open hopen, if_neg (by rw [hdirty]; simp)]
    exact ⟨h, hI, rfl⟩
  | @ran queue g resps hqueue hclean hrun =>
    have hopen := isTransaction_iff.mpr ⟨_, hqueue⟩
    have hcalls : h.calls P (o, .handle (.ok .exec) buf clientId epollFd) =
        queueCalls P o clientId (h.drainTxn clientId) queue := by
      rw [calls_open hopen, if_pos ⟨rfl, hclean⟩, txnQueue, hqueue, Option.getD_some]
    rw [closedBy_some.mpr ⟨rfl, hopen, .inl rfl⟩, hcalls]
    have hrest := queueCalls_inv [] hrun
      (fun c cs hc => hcall c cs (by rw [hcalls]; exact hc)) (htxn _ _ _ hI)
    exact ⟨g, hrest, rfl⟩
  | discarded hopen =>
    rw [closedBy_some.mpr ⟨rfl, hopen, .inr rfl⟩, calls_open hopen, if_neg (by simp)]
    exact ⟨h, hI, rfl⟩
  | refused hopen =>
    rw [closedBy_none fun _ => ⟨(by cases ·), (by cases ·)⟩, calls_open hopen, if_neg (by simp)]
    exact ⟨h, hI, rfl⟩

theorem handle_calls {I : CmdHandler → List Call → Prop} {h h' : CmdHandler}
    {cmd : Except CustomError Cmd} {buf : Bytes}
    {clientId : Nat} {epollFd : Int} {out : Except Bytes Bytes}
    (htxn : ∀ g t cs, I g cs → I (g.withSession t g.registry.watchlist) cs)
    (hclose : h.registry.isTransaction clientId = true → cmd = .ok .exec ∨ cmd = .ok .discard →
      ∀ g cs, I g cs → I (g.closeTxn clientId) cs)
    (hcall : ∀ c cs, c ∈ h.calls P (o, .handle cmd buf clientId epollFd) → Call.Made P o c → c.clientId = clientId →
      I c.before cs → I c.after (cs ++ [c]))
    (hh : h.handle P o cmd buf clientId epollFd = some (h', out)) (hI : I h []) :
    I h' (h.calls P (o, .handle cmd buf clientId epollFd)) := by
  obtain ⟨g, hg, rfl⟩ := handle_calls_close htxn hcall hh hI
  cases hc : h.closedBy (.handle cmd buf clientId epollFd) with
  | none => exact hg
  | some id =>
    obtain ⟨rfl, hin, hcmd⟩ := closedBy_some.mp hc
    exact hclose hin hcmd g _ hg

/-! ## Runs -/

theorem backlogTask_frame (h : CmdHandler) (entry : RequestEntry) :
    ∃ q d r, h.backlogTask entry = { h with responseQueue := h.responseQueue ++ q, data := d, registry := r } := by
  unfold backlogTask
  split
  · split
    · exact ⟨[_], _, _, rfl⟩
    · exact ⟨[], h.data, h.registry, by simp⟩
  · split
    · exact ⟨[_], h.data, _, rfl⟩
    · exact ⟨[_], h.data, _, rfl⟩
  · exact ⟨[], h.data, h.registry, by simp⟩

theorem serve_frame (served : RequestKind → Bool) (h : CmdHandler) (ts : List Nat) :
    ∃ q d r, h.serve served ts = { h with responseQueue := h.responseQueue ++ q, data := d, registry := r } := by
  refine serve_inv (I := fun g => ∃ q d r, g =
    { h with responseQueue := h.responseQueue ++ q, data := d, registry := r }) ⟨[], h.data, _, by simp; rfl⟩ ?_
  rintro g t entry _ _ ⟨q, d, r, rfl⟩
  obtain ⟨q', d', r', hg⟩ := backlogTask_frame
    { h with responseQueue := h.responseQueue ++ q, data := d, registry := r } entry
  exact ⟨q ++ q', d', r', by rw [hg, List.append_assoc]⟩

theorem deadlineTask_frame {h h' : CmdHandler} {entry : RequestEntry} (hd : h.deadlineTask entry = some h') :
    ∃ q r, h' = { h with responseQueue := h.responseQueue ++ q, registry := r } := by
  obtain ⟨_, rfl⟩ := deadlineTask_cases hd
  exact ⟨[_], _, rfl⟩

theorem step_frame {h h' : CmdHandler} {e : Event} (hs : Steps P h (o, e) h')
    (hh : ∀ cmd buf clientId epollFd, e ≠ .handle cmd buf clientId epollFd)
    (hp : ∀ clientTable appStates auth, e ≠ .process clientTable appStates auth) :
    ∃ q d r fl fs, h' = { h with
      responseQueue := h.responseQueue ++ q, data := d, registry := r,
      flagBacklogList := fl, flagBacklogStream := fs } := by
  cases e with
  | handle cmd buf clientId epollFd => exact absurd rfl (hh cmd buf clientId epollFd)
  | serveBacklogList =>
    cases hs
    unfold serveBacklogList
    split
    · obtain ⟨q, d, r, hg⟩ := serve_frame RequestKind.isList h (h.listTimestamps o)
      exact ⟨q, d, r, false, h.flagBacklogStream, by rw [hg]⟩
    · exact ⟨[], h.data, h.registry, h.flagBacklogList, h.flagBacklogStream, by simp⟩
  | serveBacklogStream =>
    cases hs
    unfold serveBacklogStream
    split
    · obtain ⟨q, d, r, hg⟩ := serve_frame RequestKind.isStream h (h.streamTimestamps o)
      exact ⟨q, d, r, h.flagBacklogList, false, by rw [hg]⟩
    · exact ⟨[], h.data, h.registry, h.flagBacklogList, h.flagBacklogStream, by simp⟩
  | expire =>
    obtain ⟨_, _, _, ⟨_, _, hd⟩ | ⟨_, rfl⟩⟩ := callbackDeadlineExpire_cases (step_expire hs).2
    · obtain ⟨q, r, rfl⟩ := deadlineTask_frame hd
      exact ⟨q, h.data, r, h.flagBacklogList, h.flagBacklogStream, rfl⟩
    · exact ⟨[], h.data, _, h.flagBacklogList, h.flagBacklogStream, by rw [List.append_nil]; rfl⟩
  | process clientTable appStates auth => exact absurd rfl (hp clientTable appStates auth)

/-- Calls keep it, changes of transactions keep it, and what else happens does. -/
theorem step_calls {I : CmdHandler → List Call → Prop} {h h' : CmdHandler} {label : IterOrder × Event}
    {made : List Call}
    (hs : Steps P h label h') (htxn : ∀ g t cs, I g cs → I (g.withSession t g.registry.watchlist) cs)
    (hclose : ∀ cmd buf clientId epollFd, label.2 = .handle cmd buf clientId epollFd →
      h.registry.isTransaction clientId = true → cmd = .ok .exec ∨ cmd = .ok .discard →
      ∀ g cs, I g cs → I (g.closeTxn clientId) cs)
    (hcall : ∀ c cs, c ∈ h.calls P label → Call.Made P label.1 c → I c.before cs → I c.after (cs ++ [c]))
    (hother : (∀ cmd buf clientId epollFd, label.2 ≠ .handle cmd buf clientId epollFd) → I h made → I h' made)
    (hI : I h made) : I h' (made ++ h.calls P label) := by
  obtain ⟨o, e⟩ := label
  cases e with
  | handle cmd buf clientId epollFd =>
    obtain ⟨⟨g, out⟩, hh, hg⟩ := Option.map_eq_some_iff.mp hs
    rw [← hg]
    refine handle_calls (I := fun g cs => I g (made ++ cs)) (fun g t cs hg => htxn g t _ hg)
      (fun hin hcmd g cs hg => hclose cmd buf clientId epollFd rfl hin hcmd g _ hg) (fun c cs hc hm _ hI => ?_) hh
      (by rwa [List.append_nil])
    rw [← List.append_assoc]
    exact hcall c _ hc hm hI
  | serveBacklogList | serveBacklogStream | expire | process =>
    rw [show h.calls P _ = [] from rfl, List.append_nil]
    exact hother (fun _ _ _ _ h => by cases h) hI

/-- The same, with no calls before. -/
theorem step_calls_only {I : CmdHandler → List Call → Prop} {h h' : CmdHandler} {label : IterOrder × Event}
    (hs : Steps P h label h') (htxn : ∀ g t cs, I g cs → I (g.withSession t g.registry.watchlist) cs)
    (hclose : ∀ g clientId cs, I g cs → I (g.closeTxn clientId) cs)
    (hcall : ∀ c cs, c ∈ h.calls P label → Call.Made P label.1 c → I c.before cs → I c.after (cs ++ [c]))
    (hother : (∀ cmd buf clientId epollFd, label.2 ≠ .handle cmd buf clientId epollFd) → I h [] → I h' [])
    (hI : I h []) : I h' (h.calls P label) :=
  step_calls hs htxn (fun _ _ clientId _ _ _ _ g cs hg => hclose g clientId cs hg) hcall hother hI

theorem collect_inv {α : Type} {f : CmdHandler → IterOrder × Event → List α} {G : CmdHandler → IterOrder × Event → Prop}
    {I : CmdHandler → List α → Prop} {h h' : CmdHandler} {labels : List (IterOrder × Event)}
    (hr : Run (guarded G (Steps P)) h labels h')
    (hstep : ∀ g label g' acc, G g label → Steps P g label g' → I g acc → I g' (acc ++ f g label)) {acc : List α}
    (hI : I h acc) : I h' (acc ++ collect P f h labels) := by
  induction hr generalizing acc with
  | nil =>
    rw [collect, List.append_nil]
    exact hI
  | @cons g label g' labels u hs _ ih =>
    have hcollect : collect P f g (label :: labels) = f g label ++ collect P f g' labels := by
      rw [collect, hs.2]
    rw [hcollect, ← List.append_assoc]
    exact ih (hstep g label g' acc hs.1 hs.2 hI)

/-- A run comes to the state, at a call or at its end, when these calls have been made. -/
inductive Visits (P : Platform) (h : CmdHandler) : List Call → CmdHandler → Prop
  | call {labels g cs c post} (hr : Run (Steps P) h labels g) (hc : runCalls P h labels = cs ++ c :: post) :
    Visits P h cs c.before
  | done {labels g} (hr : Run (Steps P) h labels g) : Visits P h (runCalls P h labels) g

def AtCalls (I : CmdHandler → List Call → Prop) (cs : List Call) : Prop :=
  ∀ pre c post, cs = pre ++ c :: post → I c.before pre

theorem AtCalls.concat {I : CmdHandler → List Call → Prop} {cs : List Call} {c : Call} (h : AtCalls I cs)
    (hc : I c.before cs) : AtCalls I (cs ++ [c]) := by
  intro pre d post heq
  rcases List.eq_nil_or_concat post with rfl | ⟨post, e, rfl⟩
  · obtain ⟨rfl, hlast⟩ := List.append_inj' heq rfl
    cases hlast
    exact hc
  · have hsplit : cs ++ [c] = (pre ++ d :: post) ++ [e] := by
      rw [heq]
      simp
    exact h pre d post (List.append_inj' hsplit rfl).1

/-- An invariant that calls keep holds at each call as well. -/
theorem Visits.inv {I : CmdHandler → List Call → Prop} {h h' : CmdHandler} {cs : List Call} (hv : Visits P h cs h')
    (htxn : ∀ g t w cs, I g cs → I (g.withSession t w) cs)
    (hcall : ∀ o c cs, Call.Made P o c → I c.before cs → I c.after (cs ++ [c]))
    (hother : ∀ g o e g' cs, Steps P g (o, e) g' → (∀ cmd buf clientId epollFd, e ≠ .handle cmd buf clientId epollFd) →
      I g cs → I g' cs)
    (hI : I h []) : I h' cs := by
  have hrun : ∀ {labels g}, Run (Steps P) h labels g → I g (runCalls P h labels) ∧ AtCalls I (runCalls P h labels) := by
    intro labels g hr
    have hguard : Run (guarded (fun _ _ => True) (Steps P)) h labels g := hr.mono fun _ _ _ hs => ⟨trivial, hs⟩
    have hstart : I h [] ∧ AtCalls I [] := ⟨hI, fun pre c post heq => by simp at heq⟩
    refine collect_inv (I := fun g cs => I g cs ∧ AtCalls I cs) hguard (fun g label g' cs _ hs hg => ?_) hstart
    refine step_calls (I := fun g cs => I g cs ∧ AtCalls I cs) hs ?_ ?_ ?_ ?_ hg
    · exact fun g t cs hg => ⟨htxn g t _ cs hg.1, hg.2⟩
    · exact fun _ _ _ _ _ _ _ g cs hg => ⟨htxn g _ _ cs hg.1, hg.2⟩
    · exact fun c cs _ hm hg => ⟨hcall label.1 c cs hm hg.1, hg.2.concat hg.1⟩
    · exact fun hno hg => ⟨hother g label.1 label.2 g' cs hs hno hg.1, hg.2⟩
  cases hv with
  | call hr hc => exact (hrun hr).2 _ _ _ hc
  | done hr => exact (hrun hr).1

theorem Visits.made {cs : List Call} (hv : Visits P h cs g) : ∀ c ∈ cs, ∃ o, Call.Made P o c := by
  refine hv.inv (I := fun _ cs => ∀ c ∈ cs, ∃ o, Call.Made P o c) (fun _ _ _ _ hg => hg) ?_ (fun _ _ _ _ _ _ _ hg => hg)
    (fun c hc => by cases hc)
  intro o c cs hm hg d hd
  rcases List.mem_append.mp hd with hd | hd
  · exact hg d hd
  · rw [List.mem_singleton.mp hd]
    exact ⟨o, hm⟩

end

end CmdHandler

end Redis
