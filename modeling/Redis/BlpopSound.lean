import Redis.BlockedSound

/-!
# BLPOP never answers at once

BLPOP pops at once if the queue of its key is there and empty. A queue is made
for a request and goes with its last one, so no queue is empty, and BLPOP
registers a request whatever the list holds.
-/

namespace Redis

open Lib

namespace RequestRegistry

def QueuesUsed (r : RequestRegistry) : Prop := ∀ key queue, r.backlogList.lookup key = some queue → queue ≠ []

section
variable {r r' : RequestRegistry}

theorem QueuesUsed.congr (h : r.QueuesUsed) (hl : r'.backlogList = r.backlogList) : r'.QueuesUsed := by
  unfold QueuesUsed
  rw [hl]
  exact h

theorem QueuesUsed.insert (h : r.QueuesUsed) (timestamp deadline clientId : Nat) (kind : RequestKind) :
    (r.insert timestamp deadline clientId kind).QueuesUsed := by
  have hsched : (r.schedule timestamp deadline).1.backlogList = r.backlogList := by
    unfold schedule
    split <;> rfl
  cases kind with
  | list k =>
    have hpush : (r.insert timestamp deadline clientId (.list k)).backlogList = r.backlogList.pushBack k timestamp := by
      rw [← hsched]
      rfl
    unfold QueuesUsed
    rw [hpush]
    exact HashMap.Used.pushBack h k timestamp
  | stream => exact h.congr hsched
  | wait => exact h.congr hsched

theorem QueuesUsed.remove (h : r.QueuesUsed) (timestamp : Nat) : (r.remove timestamp).1.QueuesUsed := by
  apply remove_keeps (I := QueuesUsed) h
  intro entry he
  unfold QueuesUsed
  rw [(remove_queues he).2.1]
  cases entry.kind with
  | list k => exact HashMap.Used.retain h k _
  | stream | wait => exact h

theorem queuesUsed_inert : Inert QueuesUsed where
  session _ _ _ h := h
  ticked _ h := h
  disarmed _ h := h
  answered _ _ h := h
  removed _ timestamp h := h.remove timestamp
  counted _ _ _ h := h
  acked _ _ _ h := h

theorem QueuesUsed.not_empty (h : r.QueuesUsed) (key : String) : r.isBacklogListEmpty key = false := by
  unfold isBacklogListEmpty
  split
  · rename_i queue hl
    simpa using h key queue hl
  · rfl

end

end RequestRegistry

namespace CmdHandler

open RequestRegistry

section
variable {P : Platform} {o : IterOrder} {h h' : CmdHandler}

/-! ## What the steps keep -/

theorem executeCmd_queuesUsed {exec : CmdHandler → Nat → Option (CmdHandler × CmdResult)} {cmd : Cmd} {buf : Bytes}
    {clientId : Nat} {epollFd : Option Int} {serialized : Bool} {out : Except CmdOutput CmdOutput}
    (hexec : ∀ s, NotNested exec (h.prepared cmd s) clientId)
    (he : h.executeCmd P o exec cmd buf clientId epollFd serialized = some (h', out)) (hu : h.registry.QueuesUsed) :
    h'.registry.QueuesUsed := by
  rcases executeCmd_cases he with ⟨rfl, _⟩ | ⟨_, g, dispatched, r, hp, hd, hc⟩
  · exact hu
  · obtain ⟨s, _, rfl⟩ := prepare_frame hp
    have hprep : (h.prepared cmd s).registry.QueuesUsed := hu.congr rfl
    have hafter : h'.registry = dispatched.registry := conclude_registry hc
    rw [hafter]
    exact (dispatch_effect (hexec s) hd).kept queuesUsed_inert (fun _ _ _ => hprep.insert _ _ _ _) hprep

theorem step_queuesUsed {label : IterOrder × Event} (hs : Steps P h label h') (hu : h.registry.QueuesUsed) :
    h'.registry.QueuesUsed :=
  step_kept queuesUsed_inert (fun _ _ _ _ _ _ _ _ hprep => hprep.insert _ _ _ _) hs hu

theorem Executing.queuesUsed {start : CmdHandler} (hr : Executing P start h) (hu : start.registry.QueuesUsed) :
    h.registry.QueuesUsed :=
  hr.inv (I := fun h => h.registry.QueuesUsed) (fun _ _ _ hg hs => step_queuesUsed hs hg) (fun _ _ hg => hg.congr rfl)
    (fun _ _ _ _ _ _ hg hq => executeCmd_queuesUsed (fun _ _ _ hno => by cases hno) hq hg) hu

/-! ## BLPOP -/

/-- The head is the answer and leaves the list, and no request is stored. -/
def PopsAtOnce (h h' : CmdHandler) (r : CmdResult) (key item : String) (items : List String) : Prop :=
  r = reply (poppedReply key item) ∧ h'.data = setList h.data key items ∧ h'.registry.store = h.registry.store

theorem Begun.queuesUsed {Good : CmdHandler → IterOrder × Event → Prop} {timer : Timer} {appStates : AppStates}
    (hb : Begun P Good timer appStates h) : h.registry.QueuesUsed :=
  hb.registry (I := QueuesUsed) (fun _ _ hq => by cases hq) fun _ _ _ _ hs hg => step_queuesUsed hs.2 hg

/-- In a run of what is handed to the loop, BLPOP on a list that is not empty stores a request. -/
theorem run_blpop_waits {Good : CmdHandler → IterOrder × Event → Prop} {timer : Timer} {appStates : AppStates}
    {start : CmdHandler} (hb : Begun P Good timer appStates start) (hr : Executing P start h)
    {key item : String} {items : List String} {x : Option Nat}
    (hl : h.data.lookup key = some ⟨.list (item :: items), x⟩)
    (timeoutMs : Option Nat) (exec : CmdHandler → Nat → Option (CmdHandler × CmdResult)) (counted : AppStates)
    (isSubscriber : Bool) (clientId : Nat) (epollFd : Option Int) :
    ∃ h' r, dispatch P o exec (h.prepared (.blpop key timeoutMs) counted) h.registry.timer.now isSubscriber clientId
        epollFd (.blpop key timeoutMs) = some (h', r) ∧
      r = .ok none ∧ h'.data = h.data ∧
      (h'.registry.store.lookup h.registry.timer.now).map (fun e => (e.kind, e.clientId)) = some (.list key, clientId) ∧
      ¬ PopsAtOnce (h.prepared (.blpop key timeoutMs) counted) h' r key item items := by
  have hused : (h.prepared (.blpop key timeoutMs) counted).registry.QueuesUsed :=
    (hr.queuesUsed hb.queuesUsed).congr rfl
  have hempty := hused.not_empty key
  have hdata : (h.prepared (.blpop key timeoutMs) counted).data.lookup key = some ⟨.list (item :: items), x⟩ := hl
  simp only [dispatch, cmdBlpop, hdata, hempty]
  refine ⟨_, _, rfl, rfl, rfl, ?_, fun hpop => by cases hpop.1⟩
  have hstamp : (getDeadline timeoutMs h.registry.timer.now).1 = h.registry.timer.now := by cases timeoutMs <;> rfl
  rw [hstamp, insert_store, AList.lookup_insert]
  rfl

def stocked : CmdHandler := play startup [ask 1 (.rpush "k" ["a"])]

theorem stocked_run : Run (Steps .blank) startup [ask 1 (.rpush "k" ["a"])] stocked := .cons rfl .nil

theorem run_blpop_waits_stocked :
    ∃ h' r, dispatch .blank .asIs (cmdExec .blank .asIs) (stocked.prepared (.blpop "k" none) stocked.appStates)
        stocked.registry.timer.now false 2 (some 0) (.blpop "k" none) = some (h', r) ∧
      r = .ok none ∧ h'.data = stocked.data ∧
      (h'.registry.store.lookup stocked.registry.timer.now).map (fun e => (e.kind, e.clientId)) = some (.list "k", 2) ∧
      ¬ PopsAtOnce (stocked.prepared (.blpop "k" none) stocked.appStates) h' r "k" "a" [] := by
  have hb : Begun .blank (fun _ _ => True) startup.registry.timer startup.appStates startup := .new {}
  have hl : stocked.data.lookup "k" = some ⟨.list ["a"], none⟩ := rfl
  exact run_blpop_waits hb (.between stocked_run) hl none _ _ false 2 (some 0)

/-- The list has an item and nobody waits, and the client that asks is left waiting. -/
theorem stocked_blpop_waits : Run (Steps .blank) startup [ask 1 (.rpush "k" ["a"])] stocked ∧
    stocked.data.lookup "k" = some ⟨.list ["a"], none⟩ ∧ stocked.registry.store = ∅ ∧
    ∃ h', dispatch .blank .asIs (cmdExec .blank .asIs) (stocked.prepared (.blpop "k" none) stocked.appStates)
        stocked.registry.timer.now false 2 (some 0) (.blpop "k" none) = some (h', .ok none) ∧
      ¬ PopsAtOnce (stocked.prepared (.blpop "k" none) stocked.appStates) h' (.ok none) "k" "a" [] :=
  ⟨stocked_run, rfl, rfl, _, rfl, fun hpop => by cases hpop.1⟩

end

end CmdHandler

end Redis
