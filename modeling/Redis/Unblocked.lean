import Redis.HandoffSound
import Redis.KindSound

/-!
# Nobody waits for a list

Only BLPOP waits for a list, and without it serving the lists does nothing. So
the key space is changed by calls only.
-/

namespace Redis

open Lib RequestRegistry

namespace CmdHandler

section
variable {P : Platform} {o : IterOrder} {clientId now : Nat} {epollFd : Option Int} {h h' : CmdHandler}

theorem noLists_inert : Inert (·.backlogList = ∅) where
  session _ _ _ h := h
  ticked _ h := h
  disarmed _ h := h
  answered _ _ h := h
  removed r timestamp h := by
    unfold RequestRegistry.remove
    split
    · exact h
    · rename_i entry _
      obtain ⟨kind, clientId, _, _, _⟩ := entry
      cases kind with
      | list key =>
        have hempty : HashMap.retain key (· ≠ timestamp) (∅ : HashMap String (List Nat)) = ∅ := rfl
        have hlists : HashMap.retain key (· ≠ timestamp) r.backlogList = ∅ := by
          rw [h]
          exact hempty
        exact hlists
      | stream | wait => exact h
  counted _ _ _ h := h
  acked _ _ _ h := h

theorem noLists_insert {cmd : Cmd} {kind : RequestKind} {timeoutMs : Option Nat} {timestamp deadline : Nat}
    (hblocks : ∀ key timeoutMs, cmd ≠ .blpop key timeoutMs) (hr : requestOf o h epollFd cmd = some (kind, timeoutMs))
    (hno : h.registry.backlogList = ∅) : (h.registry.insert timestamp deadline clientId kind).backlogList = ∅ := by
  obtain ⟨hlist, _⟩ := insert_queues h.registry timestamp deadline clientId kind
  rw [hlist]
  cases kind with
  | list key => exact absurd rfl (requestOf_not_list hblocks hr)
  | stream | wait => exact hno

theorem listTimestamps_nil (hno : h.registry.backlogList = ∅) : h.listTimestamps o = [] := by
  unfold listTimestamps
  have hpairs : o.order (HashMap.toPairs h.registry.backlogList) = [] := by
    rw [hno]
    exact List.Perm.eq_nil (o.perm _)
  rw [hpairs, List.flatMap_nil]

/-- Serving the lists does nothing. -/
theorem serveBacklogList_data (hno : h.registry.backlogList = ∅) : (h.serveBacklogList o).data = h.data := by
  unfold serveBacklogList
  split
  · rw [listTimestamps_nil hno]
    rfl
  · rfl

theorem Call.Made.noLists {c : Call} (hm : Call.Made P o c) (hblocks : ∀ key timeoutMs, c.cmd ≠ .blpop key timeoutMs)
    (hno : c.before.registry.backlogList = ∅) : c.after.registry.backlogList = ∅ := by
  obtain ⟨_, _, exec, s, d, fd, ser, out, _, _, hexec, hd, hc⟩ := hm
  have hprepared : (c.before.prepared c.cmd s).registry.backlogList = ∅ := prepared_kept noLists_inert c.cmd s hno
  rw [conclude_registry hc]
  exact (dispatch_effect hexec hd).kept noLists_inert (fun _ _ hr => noLists_insert hblocks hr hprepared) hprepared

/-- Beside calls, a step leaves the key space if nobody waits for a list. -/
theorem step_idle {e : Event} (hs : Steps P h (o, e) h')
    (hh : ∀ cmd buf clientId epollFd, e ≠ .handle cmd buf clientId epollFd) (hno : h.registry.backlogList = ∅) :
    h'.data = h.data ∧ h'.registry.backlogList = ∅ := by
  constructor
  · cases e with
    | handle cmd buf clientId epollFd => exact absurd rfl (hh cmd buf clientId epollFd)
    | serveBacklogList =>
      cases hs
      exact serveBacklogList_data hno
    | serveBacklogStream =>
      cases hs
      exact serveBacklogStream_data o h
    | expire =>
      rw [callbackDeadlineExpire_data (step_expire hs).2]
      rfl
    | process =>
      cases hs
      rfl
  · rcases step_takes hs hh with htakes | ⟨_, htakes⟩
    · exact noLists_inert.takes htakes hno
    · exact noLists_inert.takes htakes (noLists_inert.disarmed _ hno)

/-- The key space goes from one call to the next. -/
theorem step_chain {R : Data → Call → Data → Prop} {label : IterOrder × Event} (hs : Steps P h label h')
    (hblocks : ∀ c ∈ h.calls P label, ∀ key timeoutMs, c.cmd ≠ .blpop key timeoutMs)
    (hcall : ∀ c ∈ h.calls P label, Call.Made P label.1 c → R c.before.data c c.after.data)
    (hno : h.registry.backlogList = ∅) :
    Run R h.data (h.calls P label) h'.data ∧ h'.registry.backlogList = ∅ := by
  have hstart : Run R h.data [] h.data ∧ h.registry.backlogList = ∅ := ⟨.nil, hno⟩
  refine step_calls_only (I := fun g cs => Run R h.data cs g.data ∧ g.registry.backlogList = ∅) hs
    (fun _ _ _ hg => hg) (fun _ _ _ hg => hg) (fun c cs hc hm hg => ?_) (fun hhandle hg => ?_) hstart
  · have hlast : Run R c.before.data [c] c.after.data := .cons (hcall c hc hm) .nil
    exact ⟨hg.1.append hlast, hm.noLists (hblocks c hc) hg.2⟩
  · obtain ⟨o, e⟩ := label
    obtain ⟨hdata, hlists⟩ := step_idle hs hhandle hg.2
    rw [hdata]
    exact ⟨hg.1, hlists⟩

theorem run_chain {R : Data → Call → Data → Prop} {labels : List (IterOrder × Event)} (hr : Run (Steps P) h labels h')
    (hblocks : ∀ c ∈ runCalls P h labels, ∀ key timeoutMs, c.cmd ≠ .blpop key timeoutMs)
    (hcall : ∀ o, ∀ c ∈ runCalls P h labels, Call.Made P o c → R c.before.data c c.after.data)
    (hno : h.registry.backlogList = ∅) : Run R h.data (runCalls P h labels) h'.data := by
  induction hr with
  | nil => exact .nil
  | @cons h label g labels h' hs _ ih =>
    rw [runCalls_cons hs] at hblocks hcall ⊢
    obtain ⟨hfirst, hlists⟩ := step_chain hs (fun c hc => hblocks c (List.mem_append_left _ hc))
      (fun c hc => hcall label.1 c (List.mem_append_left _ hc)) hno
    have hrest := ih (fun c hc => hblocks c (List.mem_append_right _ hc))
      (fun o c hc => hcall o c (List.mem_append_right _ hc)) hlists
    exact hfirst.append hrest

end

end CmdHandler

end Redis
