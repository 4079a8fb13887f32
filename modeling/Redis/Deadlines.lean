import Redis.BlockedSound

/-!
# Deadlines and the timer

The tree of deadlines and the timer change with the requests only: one is stored,
or one is taken out, and each time the timer is set to the nearest deadline.
`Reschedules` says which of the two a step of the handler may do.
-/

namespace Redis

open Lib

namespace Timer

/-- Whenever the timer is set from now on, the deadline is not too far for it. -/
def Reaches (t : Timer) (deadline : Nat) : Prop := ∀ n, deadline < t.clock n + 2 ^ 63

def Later (t t' : Timer) : Prop := ∀ n, ∃ m, t'.clock n = t.clock m

section
variable {t t' t'' : Timer}

theorem Later.refl (t : Timer) : t.Later t := fun n => ⟨n, rfl⟩

theorem Later.trans (h : t.Later t') (h' : t'.Later t'') : t.Later t'' := by
  intro n
  obtain ⟨m, hm⟩ := h' n
  obtain ⟨k, hk⟩ := h m
  exact ⟨k, hm.trans hk⟩

theorem Reaches.later {deadline : Nat} (h : t.Reaches deadline) (hl : t.Later t') : t'.Reaches deadline := by
  intro n
  obtain ⟨m, hm⟩ := hl n
  rw [hm]
  exact h m

theorem later_tick (t : Timer) : t.Later t.tick := fun n => ⟨1 + n, rfl⟩

theorem later_createEvent (t : Timer) (now durationMs : Nat) : t.Later (t.createEvent now durationMs) := by
  unfold createEvent
  split
  · exact fun n => ⟨n, rfl⟩
  · exact .refl t

theorem later_set (t : Timer) (deadline : Nat) : t.Later (t.set deadline) :=
  (later_tick t).trans (later_createEvent _ _ _)

end

end Timer

namespace RequestRegistry

/-- Requests are stored, or taken out, as far as the flags allow it. -/
inductive Reschedules (stores takes : Bool) : RequestRegistry → RequestRegistry → Prop
  | same {r r'} : r'.deadline = r.deadline → r'.timer.armed = r.timer.armed → r.timer.Later r'.timer →
    Reschedules stores takes r r'
  | insert (hs : stores = true) (r : RequestRegistry) (timestamp deadline clientId : Nat) (kind : RequestKind) :
    Reschedules stores takes r (r.insert timestamp deadline clientId kind)
  | remove (ht : takes = true) (r : RequestRegistry) (timestamp : Nat) :
    Reschedules stores takes r (r.remove timestamp).1
  | trans {r r' r''} : Reschedules stores takes r r' → Reschedules stores takes r' r'' → Reschedules stores takes r r''

/-- Since `start`, the timer is armed for the nearest deadline, or later, if the
deadline is not too far for it. -/
structure NearArmed (start : Timer) (r : RequestRegistry) : Prop where
  later : start.Later r.timer
  armed : ∀ d t, r.deadline.first? = some (d, t) → start.Reaches d → ∃ a, r.timer.armed = some a ∧ d ≤ a

section
variable {stores takes : Bool} {r r' : RequestRegistry}

theorem Reschedules.mono {stores' takes' : Bool} (hs : stores = true → stores' = true)
    (ht : takes = true → takes' = true)
    (h : Reschedules stores takes r r') : Reschedules stores' takes' r r' := by
  induction h with
  | same hd ha hl => exact .same hd ha hl
  | insert hst r timestamp deadline clientId kind => exact .insert (hs hst) ..
  | remove htk r timestamp => exact .remove (ht htk) ..
  | trans _ _ ih ih' => exact ih.trans ih'

theorem Takes.reschedules (h : Takes r r') (ht : takes = true) : Reschedules stores takes r r' :=
  h.inv (fun _ _ hr => hr.trans (.same rfl rfl (.refl _))) (fun _ timestamp hr => hr.trans (.remove ht _ timestamp))
    (.same rfl rfl (.refl _))

/-! ## The timer follows the tree -/

theorem setTimerFd_later (r : RequestRegistry) : r.timer.Later r.setTimerFd.timer := by
  unfold setTimerFd
  split
  · exact Timer.later_set _ _
  · exact .refl _

theorem insert_later (r : RequestRegistry) (timestamp deadline clientId : Nat) (kind : RequestKind) :
    r.timer.Later (r.insert timestamp deadline clientId kind).timer := by
  have htimer : (r.insert timestamp deadline clientId kind).timer = (r.schedule timestamp deadline).1.timer := by
    cases kind <;> rfl
  rw [htimer]
  unfold schedule
  split
  · exact setTimerFd_later { r with deadline := _ }
  · exact .refl _

/-- With a request goes its deadline, and then the timer is set. -/
theorem remove_setTimerFd {timestamp : Nat} {entry : RequestEntry} (he : r.store.lookup timestamp = some entry) :
    ∃ g : RequestRegistry, (r.remove timestamp).1 = g.setTimerFd ∧ g.deadline = r.deadline.erase entry.deadline ∧
      g.timer = r.timer := by
  obtain ⟨_, _, _, _, hd⟩ :=
    dequeue_frame { r with store := r.store.erase timestamp } timestamp entry.clientId entry.kind
  unfold RequestRegistry.remove
  rw [he]
  simp only [hd]
  exact ⟨_, rfl, rfl, rfl⟩

theorem remove_later (r : RequestRegistry) (timestamp : Nat) : r.timer.Later (r.remove timestamp).1.timer := by
  cases he : r.store.lookup timestamp with
  | none =>
    rw [remove_none he]
    exact .refl _
  | some entry =>
    obtain ⟨g, hg, _, htimer⟩ := remove_setTimerFd he
    rw [hg, ← htimer]
    exact setTimerFd_later g

theorem setTimerFd_nearArmed {start : Timer} (h : start.Later r.timer) : NearArmed start r.setTimerFd := by
  refine ⟨h.trans (setTimerFd_later r), fun d t hd hreaches => ?_⟩
  rw [setTimerFd_deadline] at hd
  have hnear : d < r.timer.now + 2 ^ 63 := hreaches.later h 0
  unfold setTimerFd
  simp only [hd]
  unfold Timer.set Timer.createEvent
  have hdur : (if r.timer.now < d then d - r.timer.now else 1) < 2 ^ 63 := by
    split <;> omega
  rw [if_pos hdur]
  refine ⟨_, rfl, ?_⟩
  split <;> omega

theorem NearArmed.congr {start : Timer} (h : NearArmed start r) (hd : r'.deadline = r.deadline)
    (ha : r'.timer.armed = r.timer.armed) (hl : r.timer.Later r'.timer) : NearArmed start r' := by
  refine ⟨h.later.trans hl, fun d t hf hreaches => ?_⟩
  rw [hd] at hf
  rw [ha]
  exact h.armed d t hf hreaches

theorem NearArmed.insert {start : Timer} (h : NearArmed start r) (timestamp deadline clientId : Nat)
    (kind : RequestKind) :
    NearArmed start (r.insert timestamp deadline clientId kind) := by
  have hsched : NearArmed start (r.schedule timestamp deadline).1 := by
    unfold schedule
    split
    · exact setTimerFd_nearArmed (r := { r with deadline := _ }) h.later
    · exact h
  have htimer : (r.insert timestamp deadline clientId kind).timer = (r.schedule timestamp deadline).1.timer := by
    cases kind <;> rfl
  refine hsched.congr (insert_deadline ..) ?_ ?_
  · rw [htimer]
  · rw [htimer]
    exact .refl _

theorem NearArmed.remove {start : Timer} (h : NearArmed start r) (timestamp : Nat) :
    NearArmed start (r.remove timestamp).1 := by
  apply remove_keeps (I := NearArmed start) h
  intro entry he
  obtain ⟨g, hg, _, htimer⟩ := remove_setTimerFd he
  rw [hg]
  exact setTimerFd_nearArmed (htimer ▸ h.later)

theorem Reschedules.nearArmed {start : Timer} (h : Reschedules stores takes r r') (hr : NearArmed start r) :
    NearArmed start r' := by
  induction h with
  | same hd ha hl => exact hr.congr hd ha hl
  | insert => exact hr.insert _ _ _ _
  | remove => exact hr.remove _
  | trans _ _ ih ih' => exact ih' (ih hr)

end

end RequestRegistry

namespace CmdHandler

open RequestRegistry

section
variable {P : Platform} {o : IterOrder} {h h' : CmdHandler} {clientId : Nat}

/-! ## Commands -/

/-- An acknowledgement only takes requests out, and inside EXEC it takes none. -/
theorem cmdAck_reschedules {stores takes : Bool} {slaveId : Nat} {offset : Int} {epollFd : Option Int} {r : CmdResult}
    (ht : epollFd.isSome = true → takes = true) (ha : cmdAck h slaveId offset epollFd = some (h', r)) :
    Reschedules stores takes h.registry h'.registry := by
  unfold cmdAck at ha
  simp only [Option.bind_eq_bind, Option.bind_eq_some_iff] at ha
  obtain ⟨a, hfold, timestamps, hts, hlast⟩ := ha
  obtain ⟨_, _, _, _, hframe⟩ := ackClients_frame hfold
  have hloop : Reschedules stores takes h.registry { a.handler.registry with
      backlogAck := a.handler.registry.backlogAck.retain slaveId (· ∉ a.acked) } := by
    rw [hframe]
    exact .same rfl rfl (.refl _)
  split at hlast
  · rename_i hdone
    cases hlast
    cases hfd : epollFd.isSome with
    | true => exact hloop.trans ((Takes.foldl_remove timestamps _).reschedules (ht hfd))
    | false =>
      have hnil : a.done = [] := by simpa [hfd] using hdone
      rw [hnil] at hts
      cases hts
      exact hloop
  · cases hlast

/-- A command stores a request, or it is an acknowledgement. -/
theorem executeCmd_reschedules {exec : CmdHandler → Nat → Option (CmdHandler × CmdResult)} {cmd : Cmd} {buf : Bytes}
    {epollFd : Option Int} {serialized : Bool} {out : Except CmdOutput CmdOutput}
    (hexec : ∀ s, NotNested exec (h.prepared cmd s) clientId)
    (he : h.executeCmd P o exec cmd buf clientId epollFd serialized = some (h', out)) :
    Reschedules true false h.registry h'.registry ∨
      (∃ offset, cmd = .replconf (.ack offset)) ∧ ∀ stores takes, (epollFd.isSome = true → takes = true) →
        Reschedules stores takes h.registry h'.registry := by
  rcases executeCmd_cases he with ⟨rfl, _⟩ | ⟨_, g, dispatched, r, hp, hd, hc⟩
  · exact .inl (.same rfl rfl (.refl _))
  · obtain ⟨s, _, rfl⟩ := prepare_frame hp
    have hafter : h'.registry = dispatched.registry := conclude_registry hc
    have hprep : ∀ stores takes, Reschedules stores takes h.registry (h.prepared cmd s).registry := fun _ _ =>
      .same rfl rfl (Timer.later_tick _)
    rw [hafter]
    cases dispatch_effect (hexec s) hd with
    | value | slave | channels | publish | users | session => exact .inl (.same rfl rfl (Timer.later_tick _))
    | ack hcmd ha => exact .inr ⟨⟨_, hcmd⟩, fun stores takes ht => (hprep ..).trans (cmdAck_reschedules ht ha)⟩
    | request => exact .inl ((hprep ..).trans (.insert rfl ..))

theorem executeQueued_reschedules {q : Queued} {out : Except CmdOutput CmdOutput}
    (he : h.executeQueued P o clientId q = some (h', out)) : Reschedules true false h.registry h'.registry := by
  rcases executeCmd_reschedules (fun _ _ _ h => by cases h) he with hstore | ⟨_, hack⟩
  · exact hstore
  · exact hack true false fun h => by cases h

/-- `handle` stores requests or takes some out, not both. -/
theorem handle_reschedules {cmd : Except CustomError Cmd} {buf : Bytes} {epollFd : Int} {out : Except Bytes Bytes}
    (hh : h.handle P o cmd buf clientId epollFd = some (h', out)) :
    Reschedules true false h.registry h'.registry ∨
      (∃ offset, cmd = .ok (.replconf (.ack offset))) ∧ Reschedules false true h.registry h'.registry := by
  cases handle_cases hh with
  | malformed | queued | aborted | discarded | refused => exact .inl (.same rfl rfl (.refl _))
  | @direct cmd after out hclosed he =>
    have hexec : ∀ s, NotNested (cmdExec P o) (h.prepared cmd s) clientId := fun s =>
      cmdExec_notNested (AList.lookup_eq_none.mpr (of_decide_eq_false hclosed))
    rcases executeCmd_reschedules hexec he with hstore | ⟨⟨offset, rfl⟩, hack⟩
    · exact .inl hstore
    · exact .inr ⟨⟨offset, rfl⟩, hack false true fun _ => rfl⟩
  | @ran queue g resps _ _ hrun =>
    have hq := runQueue_inv (I := fun g => Reschedules true false (h.drainTxn clientId).registry g.registry)
      (fun _ _ _ _ _ _ _ _ _ he hI => hI.trans (executeQueued_reschedules he)) hrun
      (.same rfl rfl (.refl _))
    have hdrain : Reschedules true false h.registry (h.drainTxn clientId).registry := .same rfl rfl (.refl _)
    exact .inl ((hdrain.trans hq).trans (.same rfl rfl (.refl _)))

theorem Begun.nearArmed {Good : CmdHandler → IterOrder × Event → Prop} {timer : Timer} {appStates : AppStates}
    (hb : Begun P Good timer appStates h) : NearArmed timer h.registry := by
  have hnew : NearArmed timer (.new timer) := ⟨.refl timer, fun _ _ hno => by cases hno⟩
  refine hb.registry (I := NearArmed timer) hnew fun g label g' hlabel hs hg => ?_
  obtain ⟨o, e⟩ := label
  obtain ⟨cmd, raw, heq⟩ := hlabel
  simp only at heq
  subst heq
  obtain ⟨⟨g', out⟩, hh, rfl⟩ := Option.map_eq_some_iff.mp hs.2
  rcases handle_reschedules hh with hr | ⟨_, hr⟩
  · exact hr.nearArmed hg
  · exact hr.nearArmed hg

end

end CmdHandler

end Redis
