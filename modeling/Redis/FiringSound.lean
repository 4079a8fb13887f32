import Redis.Deadlines

/-!
# The timer fires for a deadline that is due

The timer is outside the registry. While the tree of deadlines is not empty it is
armed for the nearest of them, or later; nothing disarms it when the tree gets
empty. So it fires for a request that is due as long as only a firing takes the
last deadline out, the identities of the requests with a deadline are their own,
and the timer can be set to each deadline.
-/

namespace Redis

open Lib

namespace RequestRegistry

/-- The tree has the deadlines of the requests, and the timer that is armed does
not fire before the nearest one. -/
structure Punctual (r : RequestRegistry) : Prop where
  stamp : ∀ t e, r.store.lookup t = some e → e.timestamp = t
  tree : r.DeadlineTree
  near : ∀ d t, r.deadline.lookup d = some t → r.timer.Reaches d
  armed : ∀ a d t, r.timer.armed = some a → r.deadline.first? = some (d, t) → d ≤ a

def Attended (r : RequestRegistry) : Prop := r.timer.armed.isSome = true → r.deadline.first?.isSome = true

/-- What a request that is stored finds: its clock reading is not that of a request
with a deadline, and a slot the timer can be set to is free for its own deadline. -/
structure Timely (r : RequestRegistry) (timestamp deadline : Nat) : Prop where
  stamp : ∀ d, r.deadline.lookup d ≠ some timestamp
  slot : deadline ≠ 0 → ∃ free, deadline ≤ free ∧ free < 2 ^ 64 ∧ r.timer.Reaches free ∧ r.deadline.lookup free = none

section
variable {r r' : RequestRegistry}

/-! ## Punctual registries -/

theorem Punctual.entry (h : r.Punctual) {d t : Nat} (hd : r.deadline.lookup d = some t) :
    ∃ e, r.store.lookup t = some e ∧ e.deadline = d := by
  obtain ⟨e, he, hed, _⟩ := (h.tree d t).mp hd
  exact ⟨e, he, hed⟩

theorem Punctual.congr (h : r.Punctual) (hs : r'.store = r.store) (hd : r'.deadline = r.deadline)
    (ha : ∀ a, r'.timer.armed = some a → r.timer.armed = some a) (hl : r.timer.Later r'.timer) : r'.Punctual := by
  constructor
  · rw [hs]
    exact h.stamp
  · unfold DeadlineTree
    rw [hs, hd]
    exact h.tree
  · rw [hd]
    exact fun d t hdt => (h.near d t hdt).later hl
  · intro a d t harmed hfirst
    rw [hd] at hfirst
    exact h.armed a d t (ha a harmed) hfirst

theorem setTimerFd_armed (hnear : ∀ d t, r.deadline.lookup d = some t → r.timer.Reaches d) {a d t : Nat}
    (ha : r.setTimerFd.timer.armed = some a) (hd : r.setTimerFd.deadline.first? = some (d, t)) : d ≤ a := by
  have hfirst : r.deadline.first? = some (d, t) := hd
  obtain ⟨a', ha', hle⟩ :=
    (setTimerFd_nearArmed (r := r) (.refl _)).armed d t hd (hnear d t (OrdMap.first?_lookup hfirst))
  rw [ha, Option.some.injEq] at ha'
  rw [ha']
  exact hle

theorem Timely.bound {timestamp deadline : Nat} (ht : r.Timely timestamp deadline) :
    ∃ bound ≤ 2 ^ 64, (∀ d < bound, r.timer.Reaches d) ∧
      (deadline ≠ 0 → ∃ free, deadline ≤ free ∧ free < bound ∧ r.deadline.lookup free = none) := by
  by_cases hd : deadline = 0
  · exact ⟨0, Nat.zero_le _, fun d hd => absurd hd (Nat.not_lt_zero d), fun hno => absurd hd hno⟩
  · obtain ⟨free, hle, hmax, hreaches, hnone⟩ := ht.slot hd
    refine ⟨free + 1, hmax, fun d hd n => ?_, fun _ => ⟨free, hle, Nat.lt_succ_self free, hnone⟩⟩
    exact Nat.lt_of_le_of_lt (Nat.le_of_lt_succ hd) (hreaches n)

theorem Punctual.insert (h : r.Punctual) {timestamp deadline : Nat} (ht : r.Timely timestamp deadline) (clientId : Nat)
    (kind : RequestKind) : (r.insert timestamp deadline clientId kind).Punctual := by
  have hstore := insert_store r timestamp deadline clientId kind
  have htree := insert_deadline r timestamp deadline clientId kind
  have hlater := insert_later r timestamp deadline clientId kind
  have htimer : (r.insert timestamp deadline clientId kind).timer = (r.schedule timestamp deadline).1.timer := by
    cases kind <;> rfl
  obtain ⟨bound, hbound, hreaches, hslot⟩ := ht.bound
  constructor
  case stamp =>
    intro t e he
    rw [hstore] at he
    by_cases htt : t = timestamp
    · rw [htt, AList.lookup_insert, Option.some.injEq] at he
      rw [htt, ← he]
    · rw [AList.lookup_insert_ne htt] at he
      exact h.stamp t e he
  case tree =>
    apply h.tree.insert ht.stamp
    intro hd
    obtain ⟨free, hle, hfree, hnone⟩ := hslot hd
    exact ⟨free, hle, Nat.lt_of_lt_of_le hfree hbound, hnone⟩
  case near =>
    intro d t hd
    rcases schedule_spec timestamp hbound hslot with ⟨_, hnone⟩ | ⟨d', hmax, _, _, hsched⟩
    · rw [htree, hnone] at hd
      exact (h.near d t hd).later hlater
    · rw [htree, hsched, setTimerFd_deadline] at hd
      by_cases hdd : d = d'
      · exact (hreaches d (hdd ▸ hmax)).later hlater
      · rw [OrdMap.lookup_insert_ne hdd] at hd
        exact (h.near d t hd).later hlater
  case armed =>
    intro a d t ha hd
    rw [htimer] at ha
    rw [htree] at hd
    rcases schedule_spec timestamp hbound hslot with ⟨_, hnone⟩ | ⟨d', hmax, _, _, hsched⟩
    · rw [hnone] at ha hd
      exact h.armed a d t ha hd
    · rw [hsched] at ha hd
      refine setTimerFd_armed (fun d t hlookup => ?_) ha hd
      by_cases hdd : d = d'
      · exact hreaches d (hdd ▸ hmax)
      · rw [OrdMap.lookup_insert_ne hdd] at hlookup
        exact h.near d t hlookup

theorem Punctual.remove (h : r.Punctual) (timestamp : Nat) : (r.remove timestamp).1.Punctual := by
  have htree := h.tree.remove timestamp
  have hlater := remove_later r timestamp
  apply remove_keeps (I := Punctual) h
  intro entry he
  obtain ⟨_, _, _, _, _, hdeadline⟩ := remove_queues he
  have hkept : ∀ d t, (r.deadline.erase entry.deadline).lookup d = some t → r.timer.Reaches d := by
    intro d t hd
    by_cases hdd : d = entry.deadline
    · rw [hdd, OrdMap.lookup_erase] at hd
      cases hd
    · rw [OrdMap.lookup_erase_ne hdd] at hd
      exact h.near d t hd
  refine ⟨fun t e ht => h.stamp t e (remove_store ht), htree, fun d t hd => ?_, fun a d t ha hd => ?_⟩
  · rw [hdeadline] at hd
    exact (hkept d t hd).later hlater
  · obtain ⟨g, hg, hgd, htimer⟩ := remove_setTimerFd he
    rw [hg] at ha hd
    refine setTimerFd_armed (fun d t hlookup => ?_) ha hd
    rw [hgd] at hlookup
    rw [htimer]
    exact hkept d t hlookup

theorem DeadlineTree.setCount (h : r.DeadlineTree) (t n : Nat) :
    ({ r with store := r.store.modify t (·.setCount n) } : RequestRegistry).DeadlineTree :=
  Indexed.modify h fun _ _ _ => by simp

theorem Punctual.setCount (h : r.Punctual) (t n : Nat) :
    ({ r with store := r.store.modify t (·.setCount n) } : RequestRegistry).Punctual where
  stamp t' e he := by
    obtain ⟨e', he', heq⟩ := (HashMap.exists_modify (p := fun e' => e'.timestamp = e.timestamp)
      (fun _ _ => by simp) t').mp ⟨e, he, rfl⟩
    rw [← heq, h.stamp t' e' he']
  tree := h.tree.setCount t n
  near := h.near
  armed := h.armed

theorem punctual_inert : Inert Punctual where
  session _ _ _ h := h.congr rfl rfl (fun _ ha => ha) (.refl _)
  ticked r h := h.congr rfl rfl (fun _ ha => ha) (Timer.later_tick r.timer)
  disarmed r h := h.congr rfl rfl (fun _ ha => by cases ha) (.refl r.timer)
  answered _ _ h := h.congr rfl rfl (fun _ ha => ha) (.refl _)
  removed _ timestamp h := h.remove timestamp
  counted _ t n h := h.setCount t n
  acked _ _ _ h := h.congr rfl rfl (fun _ ha => ha) (.refl _)

/-! ## A deadline that stays -/

structure Holding (d t : Nat) (r : RequestRegistry) : Prop where
  tree : r.DeadlineTree
  lookup : r.deadline.lookup d = some t

theorem Holding.congr {d t : Nat} (h : Holding d t r) (hs : r'.store = r.store) (hd : r'.deadline = r.deadline) :
    Holding d t r' := by
  refine ⟨?_, ?_⟩
  · unfold DeadlineTree
    rw [hs, hd]
    exact h.tree
  · rw [hd]
    exact h.lookup

theorem deadlineTree_inert : Inert DeadlineTree where
  session _ _ _ h := h
  ticked _ h := h
  disarmed _ h := h
  answered _ _ h := h
  removed _ timestamp h := h.remove timestamp
  counted _ t n h := h.setCount t n
  acked _ _ _ h := h

/-- A deadline stays for as long as its request does. -/
theorem Holding.remove {d t timestamp : Nat} (h : Holding d t r) (hne : timestamp ≠ t) :
    Holding d t (r.remove timestamp).1 := by
  apply remove_keeps (I := Holding d t) h
  intro entry he
  refine ⟨h.tree.remove timestamp, ?_⟩
  obtain ⟨_, _, _, _, _, hdeadline⟩ := remove_queues he
  rw [hdeadline]
  by_cases hd : d = entry.deadline
  · obtain ⟨_, _, _, hzero⟩ := (h.tree d t).mp h.lookup
    have hown : r.deadline.lookup d = some timestamp := (h.tree d timestamp).mpr ⟨entry, he, hd.symm, hzero⟩
    rw [h.lookup, Option.some.injEq] at hown
    exact absurd hown.symm hne
  · rw [OrdMap.lookup_erase_ne hd]
    exact h.lookup

theorem Holding.foldl_remove {d t : Nat} (h : Holding d t r) {ts : List Nat} (ht : t ∉ ts) :
    Holding d t (ts.foldl (fun r t => (r.remove t).1) r) := by
  refine List.foldlRecOn _ _ h fun g hg t' hin => hg.remove ?_
  rintro rfl
  exact ht hin

theorem Holding.attended {d t : Nat} (h : Holding d t r) : r.Attended := by
  intro _
  obtain ⟨e, he⟩ := OrdMap.exists_first? h.lookup
  rw [he]
  rfl

/-! ## The timer has something to fire for -/

theorem setTimerFd_attended (ha : r.timer.armed = none) : r.setTimerFd.Attended := by
  unfold Attended setTimerFd
  cases hfirst : r.deadline.first? with
  | none => simp [ha]
  | some e => simp

/-- Storing requests keeps it so. -/
theorem Reschedules.attended (h : Reschedules true false r r') (hr : r.Attended) : r'.Attended := by
  induction h with
  | same hd ha _ =>
    unfold Attended
    rw [hd, ha]
    exact hr
  | insert _ r timestamp deadline clientId kind =>
    have htree := insert_deadline r timestamp deadline clientId kind
    have htimer : (r.insert timestamp deadline clientId kind).timer = (r.schedule timestamp deadline).1.timer := by
      cases kind <;> rfl
    unfold Attended
    rw [htree, htimer]
    unfold schedule
    split
    · intro _
      obtain ⟨e, he⟩ := OrdMap.exists_first? (OrdMap.lookup_insert
        (freeDeadline r.deadline (r.deadline.entries.length + 1) deadline) timestamp r.deadline)
      simp only [setTimerFd_deadline]
      rw [he]
      rfl
    · exact hr
  | remove ht => cases ht
  | trans _ _ ih ih' => exact ih' (ih hr)

/-- Taking requests out of a registry without deadlines changes neither the tree nor the timer. -/
theorem Reschedules.idle (h : Reschedules false true r r') (hr : r.deadline.first? = none) :
    r'.deadline.first? = none ∧ r'.timer.armed = r.timer.armed := by
  induction h with
  | same hd ha _ => exact ⟨by rw [hd]; exact hr, ha⟩
  | insert hs => cases hs
  | remove _ r timestamp =>
    cases he : r.store.lookup timestamp with
    | none =>
      rw [remove_none he]
      exact ⟨hr, rfl⟩
    | some entry =>
      have hempty : (r.deadline.erase entry.deadline).first? = none := by
        have hno := OrdMap.first?_eq_none.mp hr
        exact OrdMap.first?_eq_none.mpr (by simp only [OrdMap.erase, hno, List.filter_nil])
      obtain ⟨g, hg, hd, ha⟩ := remove_setTimerFd he
      rw [hg]
      unfold setTimerFd
      simp only [hd, hempty, ha]
      exact ⟨trivial, trivial⟩
  | trans _ _ ih ih' =>
    obtain ⟨hd, ha⟩ := ih hr
    obtain ⟨hd', ha'⟩ := ih' hd
    exact ⟨hd', ha'.trans ha⟩

end

end RequestRegistry

namespace CmdHandler

open RequestRegistry

def StoresTimely (P : Platform) (h : CmdHandler) (label : IterOrder × Event) : Prop :=
  ∀ x, Executes P h label x → x.before.refuses x.clientId x.cmd = false → ∀ epollFd kind timeoutMs,
    requestOf label.1 x.before epollFd x.cmd = some (kind, timeoutMs) →
    x.before.registry.Timely x.before.registry.timer.now (getDeadline timeoutMs x.before.registry.timer.now).2

def acknowledged (h : CmdHandler) (slaveId : Nat) (offset : Int) : List Nat :=
  let timestamps : Option (List Nat) := do
    let a ← ((h.registry.backlogAck.lookup slaveId).getD []).foldlM (ackClient offset) { handler := h }
    a.done.mapM fun id => a.handler.registry.backlogWait.lookup id
  timestamps.getD []

def answered (h : CmdHandler) : IterOrder × Event → List Nat
  | (o, .serveBacklogList) => if h.flagBacklogList then h.listTimestamps o else []
  | (o, .serveBacklogStream) => if h.flagBacklogStream then h.streamTimestamps o else []
  | (_, .handle (.ok (.replconf (.ack offset))) _ clientId _) =>
    if h.registry.isTransaction clientId || h.refuses clientId (.replconf (.ack offset)) then []
    else (h.prepared (.replconf (.ack offset)) h.appStates).acknowledged clientId offset
  | _ => []

/-- Of the requests with a deadline, if there are any, one is not answered in the step. -/
def LeavesDeadline (h : CmdHandler) (label : IterOrder × Event) : Prop :=
  h.registry.deadline.first?.isSome = true → ∃ d t, h.registry.deadline.lookup d = some t ∧ t ∉ h.answered label

def FiresDue (h : CmdHandler) : Prop :=
  h.fires = true → ∃ d t entry, h.disarm.registry.getNearestDeadline = some (d, t) ∧
    h.disarm.registry.store.lookup t = some entry ∧ entry.deadline = d ∧ d ≤ h.registry.timer.now

section
variable {P : Platform} {o : IterOrder} {h h' : CmdHandler}

/-! ## What a step leaves -/

section
variable {d t : Nat}

theorem backlogTask_holding {entry : RequestEntry} (hh : Holding d t h.registry) (hne : entry.timestamp ≠ t) :
    Holding d t (h.backlogTask entry).registry := by
  have hanswered : ∀ history, Holding d t (({ h.registry with history } : RequestRegistry).remove entry.timestamp).1 :=
    fun history => Holding.remove (r := { h.registry with history }) (hh.congr rfl rfl) hne
  unfold backlogTask
  split
  · split
    · exact hanswered _
    · exact hh
  · split
    · exact hh.congr rfl rfl
    · exact hanswered _
  · exact hh

theorem serve_holding {served : RequestKind → Bool} {ts : List Nat} (hh : Holding d t h.registry)
    (hstamp : ∀ t e, h.registry.store.lookup t = some e → e.timestamp = t) (ht : t ∉ ts) :
    Holding d t (h.serve served ts).registry := by
  have hstart : Holding d t (takeOut served h.registry ts).1 := by
    rw [takeOut_registry]
    exact hh.foldl_remove ht
  refine List.foldlRecOn (motive := fun g : CmdHandler => Holding d t g.registry) _ _ hstart fun g hg entry he => ?_
  obtain ⟨_, t', hin, hl⟩ := takeOut_entry he
  apply backlogTask_holding hg
  rw [hstamp t' entry hl]
  rintro rfl
  exact ht hin

theorem serveBacklogList_holding (hh : Holding d t h.registry) (hp : h.registry.Punctual)
    (ht : t ∉ h.answered (o, .serveBacklogList)) : Holding d t (h.serveBacklogList o).registry := by
  unfold serveBacklogList
  by_cases hflag : h.flagBacklogList = true
  · simp only [answered, hflag, if_true] at ht
    rw [if_pos hflag]
    exact serve_holding hh hp.stamp ht
  · rw [if_neg hflag]
    exact hh

theorem serveBacklogStream_holding (hh : Holding d t h.registry) (hp : h.registry.Punctual)
    (ht : t ∉ h.answered (o, .serveBacklogStream)) : Holding d t (h.serveBacklogStream o).registry := by
  unfold serveBacklogStream
  by_cases hflag : h.flagBacklogStream = true
  · simp only [answered, hflag, if_true] at ht
    rw [if_pos hflag]
    exact serve_holding hh hp.stamp ht
  · rw [if_neg hflag]
    exact hh

theorem cmdAck_holding {slaveId : Nat} {offset : Int} {epollFd : Option Int} {r : CmdResult}
    (hh : Holding d t h.registry)
    (ht : t ∉ h.acknowledged slaveId offset) (ha : cmdAck h slaveId offset epollFd = some (h', r)) :
    Holding d t h'.registry := by
  obtain ⟨a, timestamps, hfold, hts, _, rfl⟩ := cmdAck_cases ha
  have hno : t ∉ timestamps := by simpa [acknowledged, hfold, hts] using ht
  have htree : a.handler.registry.DeadlineTree :=
    (Run.of_foldlM hfold).inv (I := fun a : AckState => a.handler.registry.DeadlineTree)
      (fun _ _ _ _ hg hstep => ackClient_kept deadlineTree_inert hstep hg) hh.tree
  obtain ⟨_, store, history, _, hframe⟩ := ackClients_frame hfold
  have hlookup : a.handler.registry.deadline.lookup d = some t := by
    rw [hframe]
    exact hh.lookup
  have hloop : Holding d t { a.handler.registry with
      backlogAck := a.handler.registry.backlogAck.retain slaveId (· ∉ a.acked) } := ⟨htree, hlookup⟩
  exact hloop.foldl_remove hno

theorem handle_holding {offset : Int} {buf : Bytes} {clientId : Nat} {epollFd : Int} {out : Except Bytes Bytes}
    (hh : Holding d t h.registry)
    (ht : t ∉ h.answered (o, .handle (.ok (.replconf (.ack offset))) buf clientId epollFd))
    (hs : h.handle P o (.ok (.replconf (.ack offset))) buf clientId epollFd = some (h', out)) :
    Holding d t h'.registry := by
  cases handle_cases hs with
  | queued hq hopen => exact hh.congr rfl rfl
  | direct hclosed he =>
    rcases executeCmd_cases he with ⟨rfl, _⟩ | ⟨hallowed, g, dispatched, r, hp, hd, hc⟩
    · exact hh
    · obtain ⟨s, hsame, rfl⟩ := prepare_frame hp
      obtain rfl := hsame rfl
      simp only [answered, hclosed, hallowed, Bool.or_self, Bool.false_eq_true, if_false] at ht
      rw [conclude_registry hc]
      exact cmdAck_holding (h := h.prepared _ h.appStates) (hh.congr rfl rfl) ht hd

end

/-! ## What the steps keep -/

theorem step_punctual {label : IterOrder × Event} (hs : Steps P h label h') (ht : StoresTimely P h label)
    (hp : h.registry.Punctual) : h'.registry.Punctual := by
  refine step_kept punctual_inert (fun x hx hno epollFd kind timeoutMs hreq s hprep => ?_) hs hp
  obtain ⟨hstamp, hslot⟩ := ht x hx hno epollFd kind timeoutMs hreq
  refine hprep.insert ⟨hstamp, fun hd => ?_⟩ _ _
  obtain ⟨free, hle, hmax, hreaches, hnone⟩ := hslot hd
  exact ⟨free, hle, hmax, hreaches.later (Timer.later_tick _), hnone⟩

/-- The firing leaves the timer disarmed, or armed for what is left. -/
theorem callbackDeadlineExpire_attended (hc : h.callbackDeadlineExpire = some h') (hp : h.registry.Punctual)
    (ha : h.registry.timer.armed = none) : h'.registry.Attended := by
  obtain ⟨d, t, hfirst, hcases⟩ := callbackDeadlineExpire_registry hc hp.stamp
  obtain ⟨e, he, _⟩ := hp.entry (OrdMap.first?_lookup hfirst)
  rw [he] at hcases
  obtain ⟨e', _, hreg⟩ | ⟨hno, _⟩ := hcases
  · obtain ⟨g, hg, _, htimer⟩ := remove_setTimerFd he
    have hattended : g.setTimerFd.Attended := setTimerFd_attended (by rw [htimer]; exact ha)
    rw [hreg]
    unfold Attended
    simp only
    rw [hg]
    exact hattended
  · cases hno

/-- A step that takes requests out leaves a deadline, or there was none. -/
theorem LeavesDeadline.attended {label : IterOrder × Event} (hl : h.LeavesDeadline label) (hp : h.registry.Punctual)
    (ha : h.registry.Attended) (hr : Reschedules false true h.registry h'.registry)
    (hkeeps : ∀ d t, Holding d t h.registry → t ∉ h.answered label → Holding d t h'.registry) :
    h'.registry.Attended := by
  cases hfirst : h.registry.deadline.first? with
  | some e =>
    obtain ⟨d, t, hd, ht⟩ := hl (by rw [hfirst]; rfl)
    exact (hkeeps d t ⟨hp.tree, hd⟩ ht).attended
  | none =>
    intro harmed
    obtain ⟨_, hsame⟩ := hr.idle hfirst
    rw [hsame] at harmed
    have hsome := ha harmed
    rw [hfirst] at hsome
    cases hsome

theorem step_attended {label : IterOrder × Event} (hs : Steps P h label h') (hl : h.LeavesDeadline label)
    (hp : h.registry.Punctual) (ha : h.registry.Attended) : h'.registry.Attended := by
  obtain ⟨o, e⟩ := label
  cases e with
  | handle cmd buf clientId epollFd =>
    obtain ⟨⟨g, out⟩, hh, rfl⟩ := Option.map_eq_some_iff.mp hs
    rcases handle_reschedules hh with hstore | ⟨⟨offset, rfl⟩, htake⟩
    · exact hstore.attended ha
    · exact hl.attended hp ha htake fun d t hhold ht => handle_holding hhold ht hh
  | serveBacklogList =>
    cases hs
    exact hl.attended hp ha ((serveBacklogList_takes o h).reschedules rfl)
      fun d t hhold ht => serveBacklogList_holding hhold hp ht
  | serveBacklogStream =>
    cases hs
    exact hl.attended hp ha ((serveBacklogStream_takes o h).reschedules rfl)
      fun d t hhold ht => serveBacklogStream_holding hhold hp ht
  | expire =>
    have hdisarmed : h.disarm.registry.Punctual := punctual_inert.disarmed _ hp
    exact callbackDeadlineExpire_attended (step_expire hs).2 hdisarmed rfl
  | process =>
    cases hs
    exact ha

theorem firesDue (hp : h.registry.Punctual) (ha : h.registry.Attended) : h.FiresDue := by
  intro hfires
  unfold fires at hfires
  obtain ⟨a, harmed, hnow⟩ := (Option.any_eq_true _ _).mp hfires
  obtain ⟨⟨d, t⟩, hfirst⟩ := Option.isSome_iff_exists.mp (ha (by rw [harmed]; rfl))
  obtain ⟨entry, he, hd⟩ := hp.entry (OrdMap.first?_lookup hfirst)
  have hle := hp.armed a d t harmed hfirst
  have hdue : a ≤ h.registry.timer.now := of_decide_eq_true hnow
  exact ⟨d, t, entry, hfirst, he, hd, le_trans hle hdue⟩

theorem punctual_new {timer : Timer} (ha : timer.armed = none) :
    (RequestRegistry.new timer).Punctual ∧ (RequestRegistry.new timer).Attended := by
  have hc := coherent_new timer
  refine ⟨⟨hc.stamp, hc.tree, ?_, ?_⟩, ?_⟩
  · intro d t hd
    cases hd
  · intro a d t _ hd
    cases hd
  · intro harmed
    rw [show (RequestRegistry.new timer).timer.armed = none from ha] at harmed
    cases harmed

/-- When timely requests are stored, by the log and in the run, and the last deadline
is taken out with a firing only, the timer fires for what is due. -/
theorem run_firesDue {clock : Nat → Nat} {appStates : AppStates} {start : CmdHandler}
    (hb : Begun P (fun h label => StoresTimely P h label ∧ h.LeavesDeadline label) { clock } appStates start)
    {labels : List (IterOrder × Event)}
    (hr : Run (guarded (fun h label => StoresTimely P h label ∧ h.LeavesDeadline label) (Steps P)) start labels h) :
    h.FiresDue := by
  have hstep : ∀ g label g', guarded (fun h label => StoresTimely P h label ∧ h.LeavesDeadline label)
    (Steps P) g label g' →
      g.registry.Punctual ∧ g.registry.Attended → g'.registry.Punctual ∧ g'.registry.Attended := by
    rintro g label g' ⟨⟨ht, hl⟩, hs⟩ ⟨hp, ha⟩
    exact ⟨step_punctual hs ht hp, step_attended hs hl hp ha⟩
  have hstart : start.registry.Punctual ∧ start.registry.Attended :=
    hb.registry (I := fun r => r.Punctual ∧ r.Attended) (punctual_new rfl) fun g label g' _ hs => hstep g label g' hs
  have hboth : h.registry.Punctual ∧ h.registry.Attended :=
    hr.inv (I := fun h => h.registry.Punctual ∧ h.registry.Attended)
      (fun g label g' _ hg hs => hstep g label g' hs hg) hstart
  exact firesDue hboth.1 hboth.2

end

/-! ### Concrete runs -/

def everySecond : CmdHandler := .new { clock := fun n => 1000 * n } startup.appStates

def oneServed : List (IterOrder × Event) :=
  [ask 1 (.blpop "k" (some 100)), ask 3 (.blpop "j" (some 3000)), ask 2 (.rpush "k" ["a"]), (.asIs, .serveBacklogList)]

/-- The deadline of the other client is left, and the timer fires for it. -/
theorem run_firesDue_oneServed : (play everySecond oneServed).fires = true ∧ (play everySecond oneServed).FiresDue := by
  have hfirst : Steps .blank everySecond (ask 1 (.blpop "k" (some 100))) (play everySecond (oneServed.take 1)) := rfl
  have hsecond : Steps .blank (play everySecond (oneServed.take 1)) (ask 3 (.blpop "j" (some 3000)))
    (play everySecond (oneServed.take 2)) := rfl
  have hpush : Steps .blank (play everySecond (oneServed.take 2)) (ask 2 (.rpush "k" ["a"]))
    (play everySecond (oneServed.take 3)) := rfl
  have hserve : Steps .blank (play everySecond (oneServed.take 3)) (.asIs, .serveBacklogList)
    (play everySecond oneServed) := rfl
  have hreaches : ∀ (h : CmdHandler) d, d < 2 ^ 63 → h.registry.timer.Reaches d := fun h d hd n => by omega
  have hb : Begun .blank (fun h label => StoresTimely .blank h label ∧ h.LeavesDeadline label)
      { clock := fun n => 1000 * n } startup.appStates everySecond := .new {}
  -- the deadline 5000 is that of the client that is not served
  have hrun : Run (guarded (fun h label => StoresTimely .blank h label ∧ h.LeavesDeadline label) (Steps .blank))
      everySecond oneServed (play everySecond oneServed) := by
    refine .cons ⟨⟨?_, nofun⟩, hfirst⟩ (.cons ⟨⟨?_, fun _ => ⟨100, 0, rfl, List.not_mem_nil⟩⟩, hsecond⟩
      (.cons ⟨⟨?_, fun _ => ⟨100, 0, rfl, List.not_mem_nil⟩⟩, hpush⟩
        (.cons ⟨⟨?_, fun _ => ⟨5000, 2000, rfl, by decide⟩⟩, hserve⟩ .nil)))
    · intro x hx _ epollFd kind timeoutMs hr
      cases hx
      have hreq : requestOf .asIs everySecond epollFd (.blpop "k" (some 100)) = some (.list "k", some 100) := rfl
      cases hreq.symm.trans hr
      exact ⟨(fun d hd => by cases hd), fun _ => ⟨100, le_refl 100, by decide, hreaches _ _ (by decide), rfl⟩⟩
    · intro x hx _ epollFd kind timeoutMs hr
      cases hx
      have hreq : requestOf .asIs (play everySecond (oneServed.take 1)) epollFd (.blpop "j" (some 3000)) =
        some (.list "j", some 3000) := rfl
      cases hreq.symm.trans hr
      have hone : (play everySecond (oneServed.take 1)).registry.deadline.entries = [(100, 0)] := rfl
      have htimely : (play everySecond (oneServed.take 1)).registry.Timely 2000 5000 := by
        refine ⟨fun d hd => ?_, fun _ => ⟨5000, le_refl 5000, by decide, hreaches _ _ (by decide), rfl⟩⟩
        have hin := OrdMap.lookup_eq_some.mp hd
        rw [hone] at hin
        simp at hin
      have hnow : (play everySecond (oneServed.take 1)).registry.timer.now = 2000 := rfl
      simp only
      rw [hnow]
      exact htimely
    · intro x hx _ epollFd kind timeoutMs hr
      cases hx
      cases hr
    · intro x hx
      cases hx
  exact ⟨rfl, run_firesDue hb hrun⟩

/-- The only client that waits is served, and then the timer fires. -/
theorem served_firing_panics : ∃ h, Run (Steps .blank) everySecond
      [ask 1 (.blpop "k" (some 100)), ask 2 (.rpush "k" ["a"]), (.asIs, .serveBacklogList)] h ∧ h.fires = true ∧
    h.disarm.registry.getNearestDeadline = none ∧ h.step .blank (.asIs, .expire) = none ∧ ¬ h.FiresDue := by
  refine ⟨_, .cons rfl (.cons rfl (.cons rfl .nil)), rfl, rfl, rfl, fun hdue => ?_⟩
  obtain ⟨d, t, _, hfirst, _⟩ := hdue rfl
  cases hfirst

end CmdHandler

end Redis
