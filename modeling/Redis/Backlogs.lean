import Redis.DataSound

/-!
# What becomes of the backlogs

A service of the backlogs and an expiry do two things to the registry: a request
is answered, and a request is taken out. `Takes` is a sequence of these, and
`Takes.inv` the rule for what both keep. A command does more, but it stores a
request or is inert: `step_kept` is the rule for what inert changes keep.
-/

namespace Redis

open Lib

namespace RequestRegistry

inductive Takes (r : RequestRegistry) : RequestRegistry → Prop
  | refl : Takes r r
  | answered {r'} (history : History) : Takes r r' → Takes r { r' with history }
  | removed {r'} (timestamp : Nat) : Takes r r' → Takes r (r'.remove timestamp).1

section
variable {r r' r'' : RequestRegistry}

theorem Takes.inv {I : RequestRegistry → Prop} (h : Takes r r')
    (hanswered : ∀ r history, I r → I { r with history }) (hremoved : ∀ r timestamp, I r → I (r.remove timestamp).1)
    (hI : I r) : I r' := by
  induction h with
  | refl => exact hI
  | answered history _ ih => exact hanswered _ history ih
  | removed timestamp _ ih => exact hremoved _ timestamp ih

theorem Takes.trans (h : Takes r r') (h' : Takes r' r'') : Takes r r'' :=
  h'.inv (fun _ history hr => hr.answered history) (fun _ timestamp hr => hr.removed timestamp) h

theorem Takes.foldl_remove (ts : List Nat) (r : RequestRegistry) :
    Takes r (ts.foldl (fun r t => (r.remove t).1) r) :=
  List.foldlRecOn (motive := Takes r) ts _ .refl fun _ h t _ => h.removed t

end

/-- All that is done to the registry, but for storing a request, keeps `I`. -/
structure Inert (I : RequestRegistry → Prop) : Prop where
  session : ∀ r backlogTxn watchlist, I r → I { r with backlogTxn, watchlist }
  ticked : ∀ r, I r → I { r with timer := r.timer.tick }
  disarmed : ∀ r, I r → I { r with timer := { r.timer with armed := none } }
  answered : ∀ r history, I r → I { r with history }
  removed : ∀ r timestamp, I r → I (r.remove timestamp).1
  counted : ∀ r t n, I r → I { r with store := r.store.modify t (·.setCount n) }
  acked : ∀ r slaveId keep, I r → I { r with backlogAck := r.backlogAck.retain slaveId keep }

theorem Inert.takes {I : RequestRegistry → Prop} (hI : Inert I) {r r' : RequestRegistry} (h : Takes r r') (hr : I r) :
    I r' :=
  h.inv hI.answered hI.removed hr

end RequestRegistry

namespace CmdHandler

open RequestRegistry

section
variable {h h' : CmdHandler} {entry : RequestEntry}

theorem takeOut_registry (served : RequestKind → Bool) (r : RequestRegistry) (ts : List Nat) :
    (takeOut served r ts).1 = ts.foldl (fun r t => (r.remove t).1) r := by
  induction ts generalizing r with
  | nil => rfl
  | cons t ts ih => exact ih _

theorem backlogTask_takes (h : CmdHandler) (entry : RequestEntry) :
    Takes h.registry (h.backlogTask entry).registry := by
  have hanswered : ∀ history,
      Takes h.registry (({ h.registry with history } : RequestRegistry).remove entry.timestamp).1 :=
    fun history => (Takes.refl.answered history).removed _
  unfold backlogTask
  split
  · split
    · exact hanswered _
    · exact .refl
  · split
    · exact Takes.refl.answered _
    · exact hanswered _
  · exact .refl

theorem serve_takes (served : RequestKind → Bool) (h : CmdHandler) (ts : List Nat) :
    Takes h.registry (h.serve served ts).registry := by
  refine serve_inv (I := fun g => Takes h.registry g.registry) ?_
    fun g _ entry _ _ hg => hg.trans (backlogTask_takes g entry)
  simp only
  rw [takeOut_registry]
  exact .foldl_remove ts _

theorem serveBacklogList_takes (o : IterOrder) (h : CmdHandler) : Takes h.registry (h.serveBacklogList o).registry := by
  unfold serveBacklogList
  split
  · exact serve_takes ..
  · exact .refl

theorem serveBacklogStream_takes (o : IterOrder) (h : CmdHandler) :
    Takes h.registry (h.serveBacklogStream o).registry := by
  unfold serveBacklogStream
  split
  · exact serve_takes ..
  · exact .refl

theorem deadlineTask_takes (hd : h.deadlineTask entry = some h') : Takes h.registry h'.registry := by
  obtain ⟨_, rfl⟩ := deadlineTask_cases hd
  exact (Takes.refl.answered _).removed _

theorem callbackDeadlineExpire_takes (hc : h.callbackDeadlineExpire = some h') : Takes h.registry h'.registry := by
  obtain ⟨_, t, _, ⟨_, _, hd⟩ | ⟨_, rfl⟩⟩ := callbackDeadlineExpire_cases hc
  · have hremove : Takes h.registry (h.registry.remove t).1 := Takes.refl.removed t
    exact hremove.trans (deadlineTask_takes hd)
  · exact .refl

/-- Beside calls of `handle`, a step takes requests out; an expiry disarms the timer first. -/
theorem step_takes {P : Platform} {o : IterOrder} {e : Event} (hs : Steps P h (o, e) h')
    (hh : ∀ cmd buf clientId epollFd, e ≠ .handle cmd buf clientId epollFd) :
    Takes h.registry h'.registry ∨ e = .expire ∧ Takes h.disarm.registry h'.registry := by
  cases e with
  | handle cmd buf clientId epollFd => exact absurd rfl (hh cmd buf clientId epollFd)
  | serveBacklogList =>
    cases hs
    exact .inl (serveBacklogList_takes ..)
  | serveBacklogStream =>
    cases hs
    exact .inl (serveBacklogStream_takes ..)
  | expire =>
    exact .inr ⟨rfl, callbackDeadlineExpire_takes (step_expire hs).2⟩
  | process =>
    cases hs
    exact .inl .refl

/-! ## Commands -/

variable {I : RequestRegistry → Prop}

theorem ackClient_kept (hI : Inert I) {offset : Int} {a a' : AckState} {id : Nat} (ha : ackClient offset a id = some a')
    (hr : I a.handler.registry) : I a'.handler.registry := by
  unfold ackClient at ha
  split at ha
  · cases ha
  · rename_i timestamp _
    split at ha
    · split at ha
      · rename_i requiredCount actualCount offsetSnapshot _ _ _
        have hcount := hI.counted _ timestamp (countAck offset offsetSnapshot actualCount) hr
        simp only at ha
        split at ha
        · cases ha
          exact hI.answered _ _ hcount
        · cases ha
          exact hcount
      · cases ha
        exact hr
    · cases ha
      exact hr

theorem cmdAck_kept (hI : Inert I) {slaveId : Nat} {offset : Int} {epollFd : Option Int} {r : CmdResult}
    (ha : cmdAck h slaveId offset epollFd = some (h', r)) (hr : I h.registry) : I h'.registry := by
  obtain ⟨a, timestamps, hfold, _, _, rfl⟩ := cmdAck_cases ha
  have hloop : I a.handler.registry :=
    (Run.of_foldlM hfold).inv (I := fun a : AckState => I a.handler.registry)
      (fun _ _ _ _ hg hstep => ackClient_kept hI hstep hg) hr
  exact hI.takes (.foldl_remove timestamps _) (hI.acked _ slaveId _ hloop)

theorem prepared_kept (hI : Inert I) (cmd : Cmd) (s : AppStates) (hr : I h.registry) :
    I (h.prepared cmd s).registry := by
  have hdirty : I (h.registry.setDirty cmd) := hI.session h.registry h.registry.backlogTxn _ hr
  exact hI.ticked _ hdirty

/-- A command stores a request, or it keeps what inert changes keep. -/
theorem Effect.kept {P : Platform} {o : IterOrder} {now clientId : Nat} {epollFd : Option Int} {cmd : Cmd}
    {r : CmdResult}
    (hI : Inert I) (he : Effect P o h now clientId epollFd cmd h' r)
    (hinsert : ∀ kind timeoutMs, requestOf o h epollFd cmd = some (kind, timeoutMs) →
      I (h.registry.insert now (getDeadline timeoutMs now).2 clientId kind)) (hr : I h.registry) : I h'.registry := by
  cases he with
  | value | slave | channels | publish | users => exact hr
  | session => exact hI.session _ _ _ hr
  | ack _ ha => exact cmdAck_kept hI ha hr
  | request hreq _ => exact hinsert _ _ hreq

/-- Steps keep what inert changes keep, if the requests they store do. -/
theorem step_kept {P : Platform} (hI : Inert I) {label : IterOrder × Event}
    (hinsert : ∀ x, Executes P h label x → x.before.refuses x.clientId x.cmd = false → ∀ epollFd kind timeoutMs,
      requestOf label.1 x.before epollFd x.cmd = some (kind, timeoutMs) → ∀ s, I (x.before.prepared x.cmd s).registry →
      I ((x.before.prepared x.cmd s).registry.insert x.before.registry.timer.now
        (getDeadline timeoutMs x.before.registry.timer.now).2 x.clientId kind))
    (hs : Steps P h label h') (hr : I h.registry) : I h'.registry := by
  obtain ⟨o, e⟩ := label
  cases e with
  | handle cmd buf clientId epollFd =>
    obtain ⟨⟨g, out⟩, hh, rfl⟩ := Option.map_eq_some_iff.mp hs
    refine handle_inv (I := fun g => I g.registry) (fun g t w hg => hI.session g.registry t w hg)
      (fun x hx hg => ?_) hh hr
    rcases hx.effect with hsame | ⟨s, dispatched, r, fd, m, ser, heff, hcon, hno, happ⟩
    · rw [hsame]
      exact hg
    · have hafter : x.after.registry = dispatched.registry := conclude_registry hcon
      have hprep := prepared_kept hI x.cmd s hg
      rw [hafter]
      refine heff.kept hI (fun kind timeoutMs hreq => ?_) hprep
      rw [requestOf_prepared happ] at hreq
      exact hinsert x hx hno fd kind timeoutMs hreq s hprep
  | serveBacklogList | serveBacklogStream | expire | process =>
    rcases step_takes hs (fun _ _ _ _ hno => by cases hno) with htakes | ⟨_, htakes⟩
    · exact hI.takes htakes hr
    · exact hI.takes htakes (hI.disarmed _ hr)

end

end CmdHandler

end Redis
