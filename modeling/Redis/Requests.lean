import Redis.BlockedSound

/-!
# Who stores a request

`Gains` is what a step of the handler may do to the requests in the store: those
it leaves there were there before, or were asked for by the client whose command
it handles, and what it answers was stored. Serial numbers tell the requests
apart, so nothing is assumed about the clock.
-/

namespace Redis

open Lib

/-- WAIT counts as a blocking request, or only BLPOP and XREAD do. -/
def RequestKind.counted (withWait : Bool) (kind : RequestKind) : Bool := withWait || !kind.isWait

namespace RequestRegistry

def Stored (r : RequestRegistry) (n : Nat) : Prop := ∃ t e, r.store.lookup t = some e ∧ e.serial = n

structure Issued (r : RequestRegistry) : Prop where
  below : ∀ t e, r.store.lookup t = some e → e.serial < r.history.issued
  once : Numbered r.store

/-- Nothing new is stored, and what is answered is one of these. -/
structure Serves (ns : List Nat) (r r' : RequestRegistry) : Prop where
  issued : r'.history.issued = r.history.issued
  stored : ∀ t e, r'.store.lookup t = some e → r.store.lookup t = some e
  answered : ∃ new, r'.history.answered = new ++ r.history.answered ∧ ∀ n ∈ new, n ∈ ns

/-- New requests are the client's, and `asks` says that there can be one that counts. -/
structure Gains (withWait : Bool) (clientId : Nat) (asks : Prop) (r r' : RequestRegistry) : Prop where
  issued : r.history.issued ≤ r'.history.issued
  stored : ∀ t e, r'.store.lookup t = some e →
    (∃ t₀ e₀, r.store.lookup t₀ = some e₀ ∧ e₀.serial = e.serial ∧ e₀.clientId = e.clientId ∧
      e₀.kind.counted withWait = e.kind.counted withWait) ∨
    (e.clientId = clientId ∧ r.history.issued ≤ e.serial ∧ e.serial < r'.history.issued ∧
      (e.kind.counted withWait = true → asks))
  answered : ∃ new, r'.history.answered = new ++ r.history.answered ∧
    ∀ n ∈ new, r.Stored n ∨ r.history.issued ≤ n ∧ n < r'.history.issued
  distinct : r.Issued → r'.Issued

section
variable {withWait : Bool} {clientId : Nat} {asks : Prop} {r r' r'' : RequestRegistry} {ns : List Nat}

theorem Serves.refl (ns : List Nat) (r : RequestRegistry) : Serves ns r r := ⟨rfl, fun _ _ h => h, [], rfl, by simp⟩

theorem Serves.trans (h : Serves ns r r') (h' : Serves ns r' r'') : Serves ns r r'' := by
  obtain ⟨new, hnew, hns⟩ := h.answered
  obtain ⟨new', hnew', hns'⟩ := h'.answered
  refine ⟨h'.issued.trans h.issued, fun t e he => h.stored t e (h'.stored t e he), new' ++ new, ?_, ?_⟩
  · rw [hnew', hnew, List.append_assoc]
  · intro n hn
    rcases List.mem_append.mp hn with hn | hn
    · exact hns' n hn
    · exact hns n hn

theorem Serves.remove (ns : List Nat) (r : RequestRegistry) (t : Nat) : Serves ns r (r.remove t).1 :=
  ⟨by rw [remove_history], fun _ _ h => remove_store h, [], by rw [remove_history]; rfl, by simp⟩

theorem Serves.answer {n : Nat} (hn : n ∈ ns) (r : RequestRegistry) :
    Serves ns r { r with history := r.history.answer n } :=
  ⟨rfl, fun _ _ h => h, [n], rfl, by simpa using hn⟩

theorem Serves.foldl_remove (ns ts : List Nat) (r : RequestRegistry) :
    Serves ns r (ts.foldl (fun r t => (r.remove t).1) r) :=
  List.foldlRecOn (motive := Serves ns r) ts _ (.refl ns r) fun _ h t _ => h.trans (.remove ns _ t)

theorem Serves.gains (h : Serves ns r r') (hns : ∀ n ∈ ns, r.Stored n) : Gains withWait clientId asks r r' := by
  obtain ⟨new, hnew, hin⟩ := h.answered
  refine ⟨h.issued.ge, fun t e he => .inl ⟨t, e, h.stored t e he, rfl, rfl, rfl⟩, ⟨new, hnew,
    fun n hn => .inl (hns n (hin n hn))⟩, fun hi => ⟨fun t e he => ?_, fun t t' e e' he he' => ?_⟩⟩
  · rw [h.issued]
    exact hi.below t e (h.stored t e he)
  · exact hi.once t t' e e' (h.stored t e he) (h.stored t' e' he')

theorem Gains.same (hs : r'.store = r.store) (hg : r'.history = r.history) : Gains withWait clientId asks r r' :=
  ⟨by rw [hg], fun t e he => .inl ⟨t, e, hs ▸ he, rfl, rfl, rfl⟩, ⟨[], by rw [hg]; rfl, by simp⟩,
    fun hi => ⟨by rw [hs, hg]; exact hi.below, by rw [hs]; exact hi.once⟩⟩

theorem Gains.mono {asks' : Prop} (h : Gains withWait clientId asks r r') (ha : asks → asks') :
    Gains withWait clientId asks' r r' :=
  ⟨h.issued, fun t e he => (h.stored t e he).imp_right fun ⟨hc, hge, hlt, hk⟩ => ⟨hc, hge, hlt, fun hb => ha (hk hb)⟩,
    h.answered, h.distinct⟩

theorem Gains.number (h : Gains withWait clientId asks r r') {n : Nat} (hn : r'.Stored n) :
    r.Stored n ∨ r.history.issued ≤ n ∧ n < r'.history.issued := by
  obtain ⟨t, e, he, rfl⟩ := hn
  rcases h.stored t e he with ⟨t₀, e₀, he₀, hs, _⟩ | ⟨_, hge, hlt, _⟩
  · exact .inl ⟨t₀, e₀, he₀, hs⟩
  · exact .inr ⟨hge, hlt⟩

theorem Gains.trans (h : Gains withWait clientId asks r r') (h' : Gains withWait clientId asks r' r'') :
    Gains withWait clientId asks r r'' := by
  obtain ⟨new, hnew, hold⟩ := h.answered
  obtain ⟨new', hnew', hold'⟩ := h'.answered
  have hle := h.issued
  have hle' := h'.issued
  refine ⟨hle.trans hle', fun t e he => ?_, ⟨new' ++ new, by rw [hnew', hnew, List.append_assoc], fun n hn => ?_⟩,
    fun hi => h'.distinct (h.distinct hi)⟩
  · rcases h'.stored t e he with ⟨t₁, e₁, he₁, hs₁, hc₁, hk₁⟩ | ⟨hc, hge, hlt, hk⟩
    · rcases h.stored t₁ e₁ he₁ with ⟨t₀, e₀, he₀, hs₀, hc₀, hk₀⟩ | ⟨hc, hge, hlt, hk⟩
      · exact .inl ⟨t₀, e₀, he₀, hs₀.trans hs₁, hc₀.trans hc₁, hk₀.trans hk₁⟩
      · exact .inr ⟨hc₁ ▸ hc, by omega, by omega, fun hb => hk (hk₁.trans hb)⟩
    · exact .inr ⟨hc, by omega, hlt, hk⟩
  · rcases List.mem_append.mp hn with hn | hn
    · rcases hold' n hn with hn | hn
      · exact (h.number hn).imp_right fun hn => ⟨hn.1, by omega⟩
      · exact .inr ⟨by omega, hn.2⟩
    · exact (hold n hn).imp_right fun hn => ⟨hn.1, by omega⟩

theorem lookup_setCount (withWait : Bool) {t t' n : Nat} {e : RequestEntry}
    (he : (r.store.modify t (·.setCount n)).lookup t' = some e) :
    ∃ e₀, r.store.lookup t' = some e₀ ∧ e₀.serial = e.serial ∧ e₀.clientId = e.clientId ∧
      e₀.kind.counted withWait = e.kind.counted withWait := by
  by_cases ht : t' = t
  · subst ht
    rw [HashMap.lookup_modify] at he
    obtain ⟨e₀, he₀, rfl⟩ := Option.map_eq_some_iff.mp he
    exact ⟨e₀, he₀, by simp, by simp, by simp [RequestKind.counted]⟩
  · rw [HashMap.lookup_modify_ne ht] at he
    exact ⟨e, he, rfl, rfl, rfl⟩

theorem Gains.setCount (t n : Nat) (r : RequestRegistry) :
    Gains withWait clientId asks r { r with store := r.store.modify t (·.setCount n) } := by
  refine ⟨le_rfl, fun t' e he => .inl ⟨t', lookup_setCount withWait he⟩, ⟨[], rfl, by simp⟩,
    fun hi => ⟨fun t' e he => ?_, ?_⟩⟩
  · obtain ⟨e₀, he₀, hs, _⟩ := lookup_setCount withWait he
    rw [← hs]
    exact hi.below t' e₀ he₀
  · intro t₁ t₂ e₁ e₂ h₁ h₂ heq
    obtain ⟨e₁', h₁', hs₁, _⟩ := lookup_setCount withWait h₁
    obtain ⟨e₂', h₂', hs₂, _⟩ := lookup_setCount withWait h₂
    exact hi.once t₁ t₂ e₁' e₂' h₁' h₂' (by rw [hs₁, hs₂, heq])

theorem Gains.insert {timestamp deadline : Nat} {kind : RequestKind} (ha : kind.counted withWait = true → asks)
    (r : RequestRegistry) : Gains withWait clientId asks r (r.insert timestamp deadline clientId kind) := by
  have hissued : (r.insert timestamp deadline clientId kind).history.issued = 1 + r.history.issued := by
    rw [insert_history]
    rfl
  refine ⟨by omega, fun t e he => ?_, ⟨[], by rw [insert_history]; rfl, by simp⟩, fun hi => ⟨fun t e he => ?_, ?_⟩⟩
  · rcases insert_lookup he with ⟨_, hk, hc, hs⟩ | ⟨_, he⟩
    · exact .inr ⟨hc, by omega, by omega, hk ▸ ha⟩
    · exact .inl ⟨t, e, he, rfl, rfl, rfl⟩
  · rcases insert_lookup he with ⟨_, _, _, hs⟩ | ⟨_, he⟩
    · omega
    · have := hi.below t e he
      omega
  · intro t t' e e' he he' heq
    rcases insert_lookup he with ⟨ht, _, _, hs⟩ | ⟨_, he⟩ <;> rcases insert_lookup he' with ⟨ht', _, _, hs'⟩ | ⟨_, he'⟩
    · rw [ht, ht']
    · have := hi.below t' e' he'
      omega
    · have := hi.below t e he
      omega
    · exact hi.once t t' e e' he he' heq

end

end RequestRegistry

namespace CmdHandler

open RequestRegistry

def Blocked (withWait : Bool) (h : CmdHandler) (clientId : Nat) : Prop :=
  ∃ t e, h.registry.store.lookup t = some e ∧ e.clientId = clientId ∧ e.kind.counted withWait = true

def Asks (o : IterOrder) (withWait : Bool) (h : CmdHandler) (clientId : Nat) (cmd : Cmd) : Prop :=
  h.refuses clientId cmd = false ∧ ∃ epollFd kind timeoutMs,
    requestOf o h epollFd cmd = some (kind, timeoutMs) ∧ kind.counted withWait = true

/-- In a transaction that is run, nothing follows a command that asks. -/
def AsksLast (P : Platform) (o : IterOrder) (withWait : Bool) (h : CmdHandler) (clientId : Nat) : Prop :=
  h.registry.isAnyDirty clientId = false → ∀ pre q post before resps,
    h.registry.backlogTxn.lookup clientId = some (pre ++ q :: post) →
    runQueue P o clientId (h.drainTxn clientId) pre = some (before, resps) → Asks o withWait before clientId q.cmd →
    post = []

section
variable {P : Platform} {withWait : Bool} {clientId : Nat} {asks : Prop} {h h' : CmdHandler}

theorem Blocked.of_gains (hg : Gains withWait clientId asks h.registry h'.registry) {id : Nat}
    (hb : h'.Blocked withWait id) : h.Blocked withWait id ∨ id = clientId ∧ asks := by
  obtain ⟨t, e, he, hc, hk⟩ := hb
  rcases hg.stored t e he with ⟨t₀, e₀, he₀, _, hc₀, hk₀⟩ | ⟨hc', _, _, ha⟩
  · exact .inl ⟨t₀, e₀, he₀, hc₀.trans hc, hk₀.trans hk⟩
  · exact .inr ⟨hc ▸ hc', ha hk⟩

/-! ## Acknowledgements -/

theorem ackClient_gains {offset : Int} {a a' : AckState} {id : Nat} (ha : ackClient offset a id = some a') :
    Gains withWait clientId asks a.handler.registry a'.handler.registry := by
  unfold ackClient at ha
  split at ha
  · cases ha
  · rename_i timestamp _
    split at ha
    · rename_i entry he
      split at ha
      · rename_i requiredCount actualCount offsetSnapshot _ _ _
        have hcount : Gains withWait clientId asks a.handler.registry _ :=
          .setCount timestamp (countAck offset offsetSnapshot actualCount) a.handler.registry
        simp only at ha
        split at ha
        · cases ha
          refine hcount.trans (Serves.gains (Serves.answer (List.mem_singleton_self _) _) ?_)
          intro n hn
          obtain rfl := List.mem_singleton.mp hn
          refine ⟨timestamp, entry.setCount (countAck offset offsetSnapshot actualCount), ?_, by simp⟩
          rw [HashMap.lookup_modify, he]
          rfl
        · cases ha
          exact hcount
      · cases ha
        exact .same rfl rfl
    · cases ha
      exact .same rfl rfl

theorem cmdAck_gains {slaveId : Nat} {offset : Int} {epollFd : Option Int} {r : CmdResult}
    (ha : cmdAck h slaveId offset epollFd = some (h', r)) : Gains withWait clientId asks h.registry h'.registry := by
  obtain ⟨a, timestamps, hfold, _, _, rfl⟩ := cmdAck_cases ha
  have hloop : Gains withWait clientId asks h.registry a.handler.registry :=
    (Run.of_foldlM hfold).inv (I := fun a : AckState => Gains withWait clientId asks h.registry a.handler.registry)
      (fun _ _ _ _ hg hstep => hg.trans (ackClient_gains hstep)) (.same rfl rfl)
  have hretain : Gains withWait clientId asks a.handler.registry
      { a.handler.registry with backlogAck := a.handler.registry.backlogAck.retain slaveId (· ∉ a.acked) } :=
    .same rfl rfl
  exact (hloop.trans hretain).trans ((Serves.foldl_remove [] timestamps _).gains fun n hn => absurd hn List.not_mem_nil)

/-! ## Executions -/

theorem Executes.gains {label : IterOrder × Event} {x : Execution} (hx : Executes P h label x) :
    Gains withWait x.clientId (Asks label.1 withWait x.before x.clientId x.cmd) x.before.registry x.after.registry := by
  rcases hx.effect with hsame | ⟨s, dispatched, r, fd, m, ser, heff, hcon, hno, happ⟩
  · rw [hsame]
    exact .same rfl rfl
  · have hafter : x.after.registry = dispatched.registry := conclude_registry hcon
    have hprep : Gains withWait x.clientId (Asks label.1 withWait x.before x.clientId x.cmd) x.before.registry
        (x.before.prepared x.cmd s).registry := .same rfl rfl
    rw [hafter]
    refine hprep.trans ?_
    cases heff with
    | value | slave | channels | publish | users => exact .same rfl rfl
    | session => exact .same rfl rfl
    | ack _ ha => exact cmdAck_gains ha
    | request hr _ =>
      rw [requestOf_prepared happ] at hr
      exact .insert (fun hk => ⟨hno, fd, _, _, hr, hk⟩) _

theorem Executes.client {o : IterOrder} {cmd : Except CustomError Cmd} {buf : Bytes} {epollFd : Int} {x : Execution}
    (hx : Executes P h (o, .handle cmd buf clientId epollFd) x) : x.clientId = clientId := by
  cases hx <;> rfl

theorem handle_gains {o : IterOrder} {cmd : Except CustomError Cmd} {buf : Bytes} {epollFd : Int}
    {out : Except Bytes Bytes} (hh : h.handle P o cmd buf clientId epollFd = some (h', out))
    (ha : ∀ x, Executes P h (o, .handle cmd buf clientId epollFd) x →
      Asks o withWait x.before x.clientId x.cmd → asks) :
    Gains withWait clientId asks h.registry h'.registry := by
  refine handle_inv (I := fun g => Gains withWait clientId asks h.registry g.registry) ?_ ?_ hh (.same rfl rfl)
  · exact fun g t w hg => hg.trans (.same rfl rfl)
  · intro x hx hg
    have hstep : Gains withWait x.clientId asks x.before.registry x.after.registry := hx.gains.mono (ha x hx)
    rw [hx.client] at hstep
    exact hg.trans hstep

theorem AsksLast.before_gains {o : IterOrder} (hlast : AsksLast P o withWait h clientId) {pre post : List Queued}
    {q : Queued} {before : CmdHandler} {resps : List RespType} (hdirty : h.registry.isAnyDirty clientId = false)
    (hqueue : h.registry.backlogTxn.lookup clientId = some (pre ++ q :: post))
    (hpre : runQueue P o clientId (h.drainTxn clientId) pre = some (before, resps)) :
    Gains withWait clientId False h.registry before.registry := by
  refine runQueue_inv (I := fun g => Gains withWait clientId False h.registry g.registry) ?_ hpre (.same rfl rfl)
  intro front back rest mid resps' after out hsplit hfront hexec hg
  have hqueue' : h.registry.backlogTxn.lookup clientId = some (front ++ back :: (rest ++ q :: post)) := by
    rw [hqueue, hsplit, List.append_assoc, List.cons_append]
  have hno : ¬ Asks o withWait mid clientId back.cmd := fun ha => by
    have := hlast hdirty front back _ mid resps' hqueue' hfront ha
    simp at this
  have hstep : Executes P h (o, .handle (.ok .exec) [] clientId 0)
      ⟨mid, back.cmd, back.buf, clientId, out, after⟩ := .queued hqueue' hdirty hfront hexec
  exact hg.trans (hstep.gains.mono hno)

/-! ## Backlogs and the timer -/

theorem backlogTask_serves {ns : List Nat} {entry : RequestEntry} (hn : entry.serial ∈ ns) (h : CmdHandler) :
    Serves ns h.registry (h.backlogTask entry).registry := by
  unfold backlogTask
  split
  · split
    · exact (Serves.answer hn _).trans (.remove ns _ _)
    · exact .refl ns _
  · split
    · exact .answer hn _
    · exact (Serves.answer hn _).trans (.remove ns _ _)
  · exact .refl ns _

theorem foldl_backlogTask_serves {ns : List Nat} {es : List RequestEntry} (hes : ∀ e ∈ es, e.serial ∈ ns)
    (h : CmdHandler) : Serves ns h.registry (es.foldl backlogTask h).registry :=
  List.foldlRecOn (motive := fun g : CmdHandler => Serves ns h.registry g.registry) es _ (.refl ns _)
    fun _ hg e he => hg.trans (backlogTask_serves (hes e he) _)

theorem serve_gains (served : RequestKind → Bool) (h : CmdHandler) (ts : List Nat) :
    Gains withWait clientId asks h.registry (h.serve served ts).registry := by
  have htaken : Serves ((takeOut served h.registry ts).2.map (·.serial)) h.registry
      (takeOut served h.registry ts).1 := by
    rw [takeOut_registry]
    exact .foldl_remove _ ts _
  have htasks : Serves ((takeOut served h.registry ts).2.map (·.serial)) (takeOut served h.registry ts).1
      (h.serve served ts).registry :=
    foldl_backlogTask_serves (fun e he => List.mem_map_of_mem he)
      { h with registry := (takeOut served h.registry ts).1 }
  refine (htaken.trans htasks).gains fun n hn => ?_
  obtain ⟨e, he, rfl⟩ := List.mem_map.mp hn
  obtain ⟨-, t, -, ht⟩ := takeOut_entry he
  exact ⟨t, e, ht, rfl⟩

theorem serveBacklogList_gains (o : IterOrder) (h : CmdHandler) :
    Gains withWait clientId asks h.registry (h.serveBacklogList o).registry := by
  unfold serveBacklogList
  split
  · exact serve_gains ..
  · exact .same rfl rfl

theorem serveBacklogStream_gains (o : IterOrder) (h : CmdHandler) :
    Gains withWait clientId asks h.registry (h.serveBacklogStream o).registry := by
  unfold serveBacklogStream
  split
  · exact serve_gains ..
  · exact .same rfl rfl

theorem deadlineTask_serves {ns : List Nat} {entry : RequestEntry} (hn : entry.serial ∈ ns)
    (hd : h.deadlineTask entry = some h') : Serves ns h.registry h'.registry := by
  obtain ⟨_, rfl⟩ := deadlineTask_cases hd
  exact (Serves.answer hn _).trans (.remove ns _ _)

theorem callbackDeadlineExpire_gains (hc : h.callbackDeadlineExpire = some h') :
    Gains withWait clientId asks h.registry h'.registry := by
  obtain ⟨_, t, _, ⟨entry, he, hd⟩ | ⟨_, rfl⟩⟩ := callbackDeadlineExpire_cases hc
  · have hserves := (Serves.remove [entry.serial] h.registry t).trans
      (deadlineTask_serves (List.mem_singleton_self _) hd)
    refine hserves.gains fun n hn => ?_
    obtain rfl := List.mem_singleton.mp hn
    exact ⟨t, entry, he, rfl⟩
  · exact .same rfl rfl

end

end CmdHandler

end Redis
