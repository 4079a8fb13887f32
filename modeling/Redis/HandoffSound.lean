import Redis.Handoff

/-!
# Waiters are served in their order

The queue of a list holds those who wait for it in the order in which they
registered. Service takes the first of it, as many as there are items, and a
deadline takes one out of its middle. So who was answered, followed by who still
waits, is who registered, without those whose time ran out.
-/

namespace Redis

open Lib RequestRegistry

namespace RequestRegistry

/-- Who waits for the list, in the order of its queue: the clock reading of the
request, and the client. -/
def waiters (r : RequestRegistry) (key : String) : List (Nat × Nat) :=
  (r.backlogList.queueOf key).filterMap fun t => (r.store.lookup t).map fun e => (t, e.clientId)

/-- All requests are stored under the clock readings `stamps`, and the table of
WAITs leads to WAITs. -/
structure Waiting (stamps : List Nat) (r : RequestRegistry) : Prop where
  lists : r.Lists
  stored : ∀ t e, r.store.lookup t = some e → t ∈ stamps
  wait : ∀ id t, r.backlogWait.lookup id = some t →
    t ∈ stamps ∧ ∀ e, r.store.lookup t = some e → e.kind.isWait = true

section
variable {r r' : RequestRegistry} {stamps : List Nat} {timestamp deadline clientId : Nat} {kind : RequestKind}
  {key : String}

theorem Waiting.congr (h : Waiting stamps r) (hstore : r'.store = r.store) (hlist : r'.backlogList = r.backlogList)
    (hwait : r'.backlogWait = r.backlogWait) : Waiting stamps r' := by
  refine ⟨⟨?_, ?_, ?_⟩, ?_, ?_⟩
  · rw [hstore]
    exact h.lists.stamp
  · rw [hstore, hlist]
    exact h.lists.list
  · rw [hlist]
    exact h.lists.queue
  · rw [hstore]
    exact h.stored
  · rw [hstore, hwait]
    exact h.wait

theorem waiters_congr (hstore : r'.store = r.store) (hlist : r'.backlogList = r.backlogList) :
    r'.waiters key = r.waiters key := by
  rw [waiters, hstore, hlist, waiters]

theorem Waiting.mono (h : Waiting stamps r) {stamps' : List Nat} (hs : ∀ t ∈ stamps, t ∈ stamps') : Waiting stamps' r :=
  ⟨h.lists, fun t e he => hs t (h.stored t e he), fun id t ht => ⟨hs t (h.wait id t ht).1, (h.wait id t ht).2⟩⟩

theorem Lists.not_waiting (h : r.Lists) {t : Nat} (ht : ∀ e, r.store.lookup t = some e → e.kind ≠ .list key) :
    t ∉ r.backlogList.queueOf key := by
  intro hin
  obtain ⟨e, he, hk⟩ := (h.list key t).mp hin
  exact ht e he hk

/-! ### Storing -/

theorem Waiting.insert (h : Waiting stamps r) (hfresh : timestamp ∉ stamps) :
    Waiting (stamps ++ [timestamp]) (r.insert timestamp deadline clientId kind) := by
  have hnone : r.store.lookup timestamp = none := by
    cases hl : r.store.lookup timestamp with
    | none => rfl
    | some e => exact absurd (h.stored timestamp e hl) hfresh
  have hstore := insert_store r timestamp deadline clientId kind
  obtain ⟨_, _, hwait, _⟩ := insert_queues r timestamp deadline clientId kind
  have hold : ∀ id t, r.backlogWait.lookup id = some t → t ∈ stamps ++ [timestamp] ∧
      ∀ e, (r.insert timestamp deadline clientId kind).store.lookup t = some e → e.kind.isWait = true := by
    intro id t ht
    obtain ⟨hin, hkind⟩ := h.wait id t ht
    refine ⟨List.mem_append_left _ hin, fun e he => hkind e ?_⟩
    rwa [hstore, AList.lookup_insert_ne (by rintro rfl; exact hfresh hin)] at he
  refine ⟨h.lists.insert hnone, fun t e he => ?_, fun id t ht => ?_⟩
  · rw [hstore] at he
    by_cases ht : t = timestamp
    · simp [ht]
    · rw [AList.lookup_insert_ne ht] at he
      exact List.mem_append_left _ (h.stored t e he)
  · rw [hwait] at ht
    cases kind with
    | list | stream => exact hold id t ht
    | wait requiredCount actualCount offsetSnapshot slaveIds epollFd =>
      by_cases hid : id = clientId
      · have hnew : (r.enqueue timestamp clientId
            (.wait requiredCount actualCount offsetSnapshot slaveIds epollFd)).backlogWait.lookup clientId =
            some timestamp := AList.lookup_insert _
        rw [hid, hnew, Option.some.injEq] at ht
        subst ht
        refine ⟨by simp, fun e he => ?_⟩
        rw [hstore, AList.lookup_insert, Option.some.injEq] at he
        rw [← he]
        rfl
      · simp only [enqueue, AList.lookup_insert_ne hid] at ht
        exact hold id t ht

theorem waiters_insert (h : r.Lists) (hnone : r.store.lookup timestamp = none) (key : String) :
    (r.insert timestamp deadline clientId kind).waiters key =
      r.waiters key ++ if kind = .list key then [(timestamp, clientId)] else [] := by
  have hstore := insert_store r timestamp deadline clientId kind
  obtain ⟨hlist, _⟩ := insert_queues r timestamp deadline clientId kind
  have hkept : ∀ t ∈ r.backlogList.queueOf key,
      ((r.insert timestamp deadline clientId kind).store.lookup t).map (fun e => (t, e.clientId)) =
        (r.store.lookup t).map fun e => (t, e.clientId) := by
    intro t ht
    have hne : t ≠ timestamp := by
      rintro rfl
      exact h.not_in_queue hnone key ht
    rw [hstore, AList.lookup_insert_ne hne]
  have hqueue : (r.insert timestamp deadline clientId kind).backlogList.queueOf key =
      r.backlogList.queueOf key ++ if kind = .list key then [timestamp] else [] := by
    rw [hlist]
    cases kind with
    | list k =>
      simp only [enqueue, HashMap.queueOf_pushBack, RequestKind.list.injEq]
      by_cases hk : k = key
      · simp [hk]
      · simp [hk, Ne.symm hk]
    | stream | wait => simp [enqueue]
  rw [waiters, hqueue, List.filterMap_append, List.filterMap_congr hkept, waiters]
  by_cases hk : kind = .list key
  · rw [if_pos hk, if_pos hk, List.filterMap_cons, hstore, AList.lookup_insert]
    rfl
  · simp [hk]

/-! ### Taking out -/

theorem queueOf_remove (h : r.Lists) (t : Nat) (key : String) :
    (r.remove t).1.backlogList.queueOf key = (r.backlogList.queueOf key).filter (· ≠ t) := by
  have hother : t ∉ r.backlogList.queueOf key →
      (r.backlogList.queueOf key).filter (· ≠ t) = r.backlogList.queueOf key := by
    intro hno
    rw [List.filter_eq_self]
    intro t' ht'
    simpa using fun heq : t' = t => hno (heq ▸ ht')
  cases he : r.store.lookup t with
  | none =>
    rw [remove_none he, hother (h.not_in_queue he key)]
  | some entry =>
    rw [(remove_queues he).2.1]
    cases hk : entry.kind with
    | list k =>
      simp only [dequeue, HashMap.queueOf_retain]
      split
      · rfl
      · rename_i hne
        refine (hother (h.not_waiting fun e he' => ?_)).symm
        rw [he, Option.some.injEq] at he'
        rw [← he', hk, Ne, RequestKind.list.injEq]
        exact fun heq => hne heq.symm
    | stream | wait =>
      refine (hother (h.not_waiting fun e he' => ?_)).symm
      rw [he, Option.some.injEq] at he'
      rw [← he', hk]
      intro heq
      cases heq

theorem lists_foldl_remove (h : r.Lists) (ts : List Nat) : (ts.foldl (fun r t => (r.remove t).1) r).Lists :=
  List.foldlRecOn (motive := fun r : RequestRegistry => r.Lists) ts _ h fun _ hr t _ => hr.remove t

theorem queueOf_foldl_remove (h : r.Lists) (ts : List Nat) (key : String) :
    (ts.foldl (fun r t => (r.remove t).1) r).backlogList.queueOf key = (r.backlogList.queueOf key).filter (· ∉ ts) := by
  induction ts generalizing r with
  | nil => simp
  | cons t ts ih =>
    rw [List.foldl_cons, ih (h.remove t), queueOf_remove h, List.filter_filter]
    refine List.filter_congr fun t' _ => ?_
    by_cases ht : t' = t <;> simp [ht]

theorem waiters_foldl_remove (h : r.Lists) (ts : List Nat) (key : String) :
    (ts.foldl (fun r t => (r.remove t).1) r).waiters key = (r.waiters key).filter fun w => w.1 ∉ ts := by
  rw [waiters, queueOf_foldl_remove h, waiters, List.filterMap_filter, List.filter_filterMap]
  refine List.filterMap_congr fun t _ => ?_
  rw [foldl_remove_lookup]
  by_cases ht : t ∈ ts
  · cases r.store.lookup t <;> simp [ht, Option.filter_some]
  · cases r.store.lookup t <;> simp [ht, Option.filter_some]

theorem waiters_foldl_remove_other (h : r.Lists) (ts : List Nat)
    (hts : ∀ t ∈ ts, ∀ e, r.store.lookup t = some e → e.kind ≠ .list key) :
    (ts.foldl (fun r t => (r.remove t).1) r).waiters key = r.waiters key := by
  rw [waiters_foldl_remove h, List.filter_eq_self]
  intro w hw
  obtain ⟨t, ht, hmap⟩ := List.mem_filterMap.mp hw
  obtain ⟨e, he, rfl⟩ := Option.map_eq_some_iff.mp hmap
  simp only [decide_eq_true_eq]
  exact fun hin => h.not_waiting (hts t hin) ht

theorem Waiting.foldl_remove (h : Waiting stamps r) (ts : List Nat) :
    Waiting stamps (ts.foldl (fun r t => (r.remove t).1) r) := by
  refine ⟨lists_foldl_remove h.lists ts, fun t e he => ?_, fun id t ht => ?_⟩
  · rw [foldl_remove_lookup] at he
    split at he
    · cases he
    · exact h.stored t e he
  · have hold : ∀ (ts : List Nat) (r : RequestRegistry),
        (ts.foldl (fun r t => (r.remove t).1) r).backlogWait.lookup id = some t → r.backlogWait.lookup id = some t := by
      intro ts
      induction ts with
      | nil => exact fun _ ht => ht
      | cons t' ts ih =>
        intro r ht
        have hrem : (r.remove t').1.backlogWait.lookup id = some t := ih _ ht
        cases he : r.store.lookup t' with
        | none => rwa [remove_none he] at hrem
        | some entry =>
          rw [(remove_queues he).2.2.2.1] at hrem
          cases hk : entry.kind with
          | list | stream =>
            rw [hk] at hrem
            exact hrem
          | wait =>
            rw [hk] at hrem
            simp only [dequeue] at hrem
            by_cases hid : id = entry.clientId
            · rw [hid, AList.lookup_erase] at hrem
              cases hrem
            · rwa [AList.lookup_erase_ne hid] at hrem
    obtain ⟨hin, hkind⟩ := h.wait id t (hold ts r ht)
    refine ⟨hin, fun e he => hkind e ?_⟩
    rw [foldl_remove_lookup] at he
    split at he
    · cases he
    · exact he

/-! ### Acknowledgements -/

theorem Waiting.setCount (h : Waiting stamps r) (t n : Nat) :
    Waiting stamps { r with store := r.store.modify t (·.setCount n) } := by
  have hold : ∀ t' e, (r.store.modify t (·.setCount n)).lookup t' = some e →
      ∃ e₀, r.store.lookup t' = some e₀ ∧ e₀.kind.isWait = e.kind.isWait := by
    intro t' e he
    exact (HashMap.exists_modify (p := fun e₀ => e₀.kind.isWait = e.kind.isWait) (fun _ _ => by simp) t').mp
      ⟨e, he, rfl⟩
  refine ⟨h.lists.setCount t n, fun t' e he => ?_, fun id t' ht' => ?_⟩
  · obtain ⟨e₀, he₀, _⟩ := hold t' e he
    exact h.stored t' e₀ he₀
  · obtain ⟨hin, hkind⟩ := h.wait id t' ht'
    refine ⟨hin, fun e he => ?_⟩
    obtain ⟨e₀, he₀, hw⟩ := hold t' e he
    rw [← hw]
    exact hkind e₀ he₀

theorem waiters_setCount (r : RequestRegistry) (t n : Nat) (key : String) :
    ({ r with store := r.store.modify t (·.setCount n) } : RequestRegistry).waiters key = r.waiters key := by
  unfold waiters
  refine List.filterMap_congr fun t' _ => ?_
  by_cases ht : t' = t
  · subst ht
    simp only [HashMap.lookup_modify, Option.map_map]
    cases r.store.lookup t' <;> simp
  · simp only [HashMap.lookup_modify_ne ht]

end

end RequestRegistry

namespace CmdHandler

namespace Happening

def registered (key : String) : Happening → List (Nat × Nat)
  | call c =>
    match c.cmd, c.result with
    | .blpop k _, .ok none => if k = key then [(c.before.registry.timer.now, c.clientId)] else []
    | _, _ => []
  | _ => []

def answered (key : String) : Happening → List (Nat × Nat)
  | served entry _ => if entry.kind = .list key then [(entry.timestamp, entry.clientId)] else []
  | _ => []

def timedOut (key : String) : Happening → List Nat
  | expired entry => if entry.kind = .list key then [entry.timestamp] else []
  | _ => []

def stamp : Happening → List Nat
  | call c => if (requestOf .asIs c.before none c.cmd).isSome then [c.before.registry.timer.now] else []
  | _ => []

end Happening

section
variable {P : Platform} {o : IterOrder} {h h' : CmdHandler} {key : String}

/-! ## Calls -/

theorem requestOf_isSome (epollFd : Option Int) (cmd : Cmd) :
    (requestOf o h epollFd cmd).isSome = (requestOf .asIs h none cmd).isSome := by
  cases cmd with
  | wait count timeoutMs =>
    simp only [requestOf]
    cases h.appStates.hostStats with
    | none => rfl
    | some stats =>
      simp only
      split <;> rfl
  | xread count blockMs stream => cases blockMs <;> rfl
  | _ => rfl

inductive Call.Stores (key : String) (c : Call) : Prop
  | same : (∀ stamps, Waiting stamps c.before.registry → Waiting stamps c.after.registry ∧
      c.after.registry.waiters key = c.before.registry.waiters key) →
      (Happening.call c).registered key = [] → Call.Stores key c
  | asked {deadline kind} (r : RequestRegistry) : r.store = c.before.registry.store →
      r.backlogList = c.before.registry.backlogList → r.backlogWait = c.before.registry.backlogWait →
      c.after.registry = r.insert c.before.registry.timer.now deadline c.clientId kind →
      (Happening.call c).stamp = [c.before.registry.timer.now] →
      (Happening.call c).registered key =
        (if kind = .list key then [(c.before.registry.timer.now, c.clientId)] else []) → Call.Stores key c

theorem ackClient_waiting {offset : Int} {a a' : AckState} {id : Nat} (ha : ackClient offset a id = some a') :
    ∀ stamps, Waiting stamps a.handler.registry → Waiting stamps a'.handler.registry ∧
      a'.handler.registry.waiters key = a.handler.registry.waiters key := by
  intro stamps hw
  unfold ackClient at ha
  split at ha
  · cases ha
  · rename_i timestamp _
    split at ha
    · split at ha
      · rename_i requiredCount actualCount offsetSnapshot _ _ _
        have hcount := hw.setCount timestamp (countAck offset offsetSnapshot actualCount)
        have hsame := waiters_setCount a.handler.registry timestamp (countAck offset offsetSnapshot actualCount) key
        simp only at ha
        split at ha
        · cases ha
          exact ⟨hcount.congr rfl rfl rfl, hsame⟩
        · cases ha
          exact ⟨hcount, hsame⟩
      · cases ha
        exact ⟨hw, rfl⟩
    · cases ha
      exact ⟨hw, rfl⟩

theorem cmdAck_waiting {slaveId : Nat} {offset : Int} {epollFd : Option Int} {r : CmdResult}
    (ha : cmdAck h slaveId offset epollFd = some (h', r)) (stamps : List Nat) (hw : Waiting stamps h.registry) :
    Waiting stamps h'.registry ∧ h'.registry.waiters key = h.registry.waiters key := by
  obtain ⟨a, timestamps, hfold, hts, _, rfl⟩ := cmdAck_cases ha
  obtain ⟨hloop, hsame⟩ : Waiting stamps a.handler.registry ∧
      a.handler.registry.waiters key = h.registry.waiters key :=
    (Run.of_foldlM hfold).inv (I := fun a : AckState => Waiting stamps a.handler.registry ∧
      a.handler.registry.waiters key = h.registry.waiters key)
      (fun _ _ _ _ ⟨hw, hs⟩ hstep => (ackClient_waiting hstep stamps hw).imp_right (·.trans hs)) ⟨hw, rfl⟩
  have hretain : Waiting stamps { a.handler.registry with
      backlogAck := a.handler.registry.backlogAck.retain slaveId (· ∉ a.acked) } := hloop.congr rfl rfl rfl
  refine ⟨hretain.foldl_remove timestamps,
    (waiters_foldl_remove_other hretain.lists timestamps fun t ht e he hk => ?_).trans hsame⟩
  obtain ⟨id, _, hid⟩ := mem_of_mapM hts ht
  have hwait := (hloop.wait id t hid).2 e he
  rw [hk] at hwait
  cases hwait

theorem Effect.stores {now clientId : Nat} {epollFd : Option Int} {cmd : Cmd} {r : CmdResult}
    (he : Effect P o h now clientId epollFd cmd h' r) (key : String) :
    (∀ stamps, Waiting stamps h.registry → Waiting stamps h'.registry ∧
      h'.registry.waiters key = h.registry.waiters key) ∨
    ∃ kind timeoutMs, requestOf o h epollFd cmd = some (kind, timeoutMs) ∧
      h'.registry = h.registry.insert now (getDeadline timeoutMs now).2 clientId kind := by
  cases he with
  | value | slave | channels | publish | users => exact .inl fun stamps hw => ⟨hw, rfl⟩
  | session => exact .inl fun stamps hw => ⟨hw.congr rfl rfl rfl, rfl⟩
  | ack _ ha => exact .inl (cmdAck_waiting ha)
  | request hr _ => exact .inr ⟨_, _, hr, rfl⟩

theorem cmdBlpop_stores {k : String} {timeoutMs : Option Nat} {clientId now : Nat} {data' : Data}
    {registry' : RequestRegistry} {r : CmdResult}
    (hb : cmdBlpop h.data h.registry k timeoutMs clientId now = ((data', registry'), r)) :
    registry' = h.registry ∧ r ≠ .ok none ∨
      registry' = h.registry.insert now (getDeadline timeoutMs now).2 clientId (.list k) ∧ r = .ok none ∧
        (requestOf .asIs h none (.blpop k timeoutMs)).isSome = true := by
  rcases cmdBlpop_cases hb with ⟨s, items, x, _, _, _, rfl, rfl⟩ | ⟨_, rfl, rfl⟩ | ⟨hwait, _, rfl, rfl⟩
  · exact .inl ⟨rfl, fun heq => by cases heq⟩
  · exact .inl ⟨rfl, fun heq => by cases heq⟩
  · exact .inr ⟨rfl, rfl, by rw [requestOf_blpop hwait]; rfl⟩

theorem requestOf_not_list {epollFd : Option Int} {cmd : Cmd} {kind : RequestKind} {timeoutMs : Option Nat}
    (hcmd : ∀ k t, cmd ≠ .blpop k t) (hr : requestOf o h epollFd cmd = some (kind, timeoutMs)) : kind ≠ .list key := by
  unfold requestOf at hr
  split at hr
  · exact absurd rfl (hcmd _ _)
  · split at hr
    · cases hr
    · simp only at hr
      split at hr
      · cases hr
      · cases hr
        exact nofun
  · split at hr
    · split at hr
      · cases hr
      · cases hr
        exact nofun
    · cases hr
  · cases hr

theorem Call.Made.stores {c : Call} (hm : Call.Made P o c) : c.Stores key := by
  obtain ⟨_, _, exec, s, d, fd, ser, out, _, hs, hexec, hd, hc⟩ := hm
  have hafter : c.after.registry = d.registry := conclude_registry hc
  have hprep : ∀ stamps, Waiting stamps c.before.registry → Waiting stamps (c.before.prepared c.cmd s).registry :=
    fun stamps hw => hw.congr rfl rfl rfl
  by_cases hblpop : ∃ k timeoutMs, c.cmd = .blpop k timeoutMs
  · obtain ⟨k, timeoutMs, hcmd⟩ := hblpop
    have hpop : ∃ data, cmdBlpop (c.before.prepared c.cmd s).data (c.before.prepared c.cmd s).registry k timeoutMs
        c.clientId c.before.registry.timer.now = ((data, d.registry), c.result) := by
      rw [hcmd] at hd ⊢
      generalize c.result = r at hd
      cases hd
      exact ⟨_, rfl⟩
    obtain ⟨data, hpop⟩ := hpop
    rcases cmdBlpop_stores hpop with ⟨hsame, hr⟩ | ⟨hins, hr, hask⟩
    · refine .same (fun stamps hw => ?_) ?_
      · rw [hafter, hsame]
        exact ⟨hprep stamps hw, rfl⟩
      · unfold Happening.registered
        simp only
        split
        · rename_i hnone
          exact absurd hnone hr
        · rfl
    · refine .asked (c.before.prepared c.cmd s).registry rfl rfl rfl (hafter.trans hins) ?_ ?_
      · rw [Happening.stamp, if_pos]
        rw [hcmd] at hask ⊢
        exact hask
      · simp only [Happening.registered, hcmd, hr, RequestKind.list.injEq]
  · have hno : ∀ k t, c.cmd ≠ .blpop k t := fun k t h => hblpop ⟨k, t, h⟩
    have hnone : (Happening.call c).registered key = [] := by
      unfold Happening.registered
      simp only
      split
      · rename_i hcmd _
        exact absurd hcmd (hno _ _)
      · rfl
    rcases (dispatch_effect hexec hd).stores key with hsame | ⟨kind, timeoutMs, hr, hins⟩
    · refine .same (fun stamps hw => ?_) hnone
      rw [hafter]
      exact hsame stamps (hprep stamps hw)
    · refine .asked (c.before.prepared c.cmd s).registry rfl rfl rfl (hafter.trans hins) ?_ ?_
      · rw [requestOf_prepared hs] at hr
        rw [Happening.stamp, if_pos]
        rw [← requestOf_isSome (o := o) fd, hr]
        rfl
      · rw [hnone, if_neg (requestOf_not_list hno hr)]

/-! ## Service -/

theorem taskReplies_all {es : List RequestEntry} {g : CmdHandler}
    (hes : ∀ e ∈ es, g.registry.store.lookup e.timestamp = none ∧ e.kind.isWait = false)
    (hfed : ∀ key, es.countP (fun e => e.kind = .list key) ≤ (listItems g.data key).length) :
    (taskReplies g es).map Prod.fst = es ∧
      ∃ history, (es.foldl backlogTask g).registry = { g.registry with history } := by
  induction es generalizing g with
  | nil => exact ⟨rfl, g.registry.history, rfl⟩
  | cons e es ih =>
    obtain ⟨hgone, hwait⟩ := hes e (List.mem_cons_self ..)
    have hitem : ∀ k, e.kind = .list k → listItems g.data k ≠ [] := by
      intro k hk hnil
      have := hfed k
      simp [hk, hnil] at this
    have hreg := backlogTask_registry hgone hitem hwait
    have hreply : ∃ t, g.taskReply e = some t := by
      unfold taskReply
      cases hk : e.kind with
      | list k =>
        obtain ⟨item, items, hitems⟩ := List.exists_cons_of_ne_nil (hitem k hk)
        exact ⟨poppedReply k item, by simp [hitems]⟩
      | stream keyTs count => exact ⟨_, rfl⟩
      | wait =>
        rw [hk] at hwait
        cases hwait
    obtain ⟨t, ht⟩ := hreply
    obtain ⟨hfst, history, hlast⟩ := ih (g := g.backlogTask e)
      (fun e' he' => by rw [hreg]; exact hes e' (List.mem_cons_of_mem _ he')) fun key => fed_tail key (hfed key)
    refine ⟨?_, history, ?_⟩
    · rw [taskReplies, ht]
      simpa using hfst
    · rw [List.foldl_cons, hlast, hreg]

def answeredBy (key : String) (trace : List Happening) : List (Nat × Nat) := trace.flatMap (Happening.answered key)

theorem answered_served (replies : List (RequestEntry × RespType)) :
    answeredBy key (replies.map fun r => .served r.1 r.2) =
      (replies.map Prod.fst).flatMap fun e => if e.kind = .list key then [(e.timestamp, e.clientId)] else [] := by
  rw [answeredBy, List.flatMap_map, List.flatMap_map]
  rfl

theorem serve_registry (served : RequestKind → Bool) (ts : List Nat) (hc : h.registry.Lists)
    (hwait : ∀ kind, served kind = true → kind.isWait = false)
    (hfed : ∀ key, (takeOut served h.registry ts).2.countP (fun e => e.kind = .list key) ≤
      (listItems h.data key).length) :
    (h.serveReplies served ts).map Prod.fst = (takeOut served h.registry ts).2 ∧
      ∃ history, (h.serve served ts).registry = { ts.foldl (fun r t => (r.remove t).1) h.registry with history } := by
  have hreg := takeOut_registry served h.registry ts
  rw [← hreg]
  refine taskReplies_all (g := { h with registry := (takeOut served h.registry ts).1 }) (fun e he => ?_) hfed
  obtain ⟨hserved, t, ht, hl⟩ := takeOut_entry he
  refine ⟨?_, hwait _ hserved⟩
  simp only
  rw [hreg, foldl_remove_lookup, hc.stamp t e hl, if_pos ht]

theorem listTimestamps_entry (hc : h.registry.Lists) {t : Nat} (ht : t ∈ h.listTimestamps o) :
    ∃ k e, h.registry.store.lookup t = some e ∧ e.kind = .list k ∧ e.timestamp = t := by
  obtain ⟨k, hin⟩ := mem_listTimestamps ht
  obtain ⟨e, he, hk⟩ := (hc.list k t).mp hin
  exact ⟨k, e, he, hk, hc.stamp t e he⟩

theorem serveList_entries (hc : h.registry.Lists) :
    (takeOut RequestKind.isList h.registry (h.listTimestamps o)).2 =
      (h.listTimestamps o).filterMap h.registry.store.lookup := by
  rw [takeOut_entries _ _ (listTimestamps_nodup (o := o) hc)]
  refine List.filterMap_congr fun t ht => ?_
  obtain ⟨k, e, he, hk, _⟩ := listTimestamps_entry hc ht
  simp [he, hk, RequestKind.isList, Option.filter_some]

/-- As many requests for a list are served as are first in its queue. -/
theorem serveList_count (hc : h.registry.Lists) (key : String) :
    (takeOut RequestKind.isList h.registry (h.listTimestamps o)).2.countP (fun e => e.kind = .list key) =
      (h.listTimestamps o).countP fun t => t ∈ h.registry.backlogList.queueOf key := by
  rw [serveList_entries hc, List.countP_filterMap]
  refine List.countP_congr fun t ht => ?_
  obtain ⟨k', e, he, _⟩ := listTimestamps_entry hc ht
  rw [he]
  simpa using (hc.list.entry he).symm

theorem serveList_registry (hc : h.registry.Lists) :
    (h.serveReplies RequestKind.isList (h.listTimestamps o)).map Prod.fst =
        (takeOut RequestKind.isList h.registry (h.listTimestamps o)).2 ∧
      ∃ history, (h.serve RequestKind.isList (h.listTimestamps o)).registry =
        { (h.listTimestamps o).foldl (fun r t => (r.remove t).1) h.registry with history } := by
  refine serve_registry RequestKind.isList (h.listTimestamps o) hc (fun kind hk => ?_) fun key => ?_
  · cases kind with
    | list => rfl
    | stream | wait => cases hk
  · rw [serveList_count hc]
    exact listTimestamps_fed hc key

/-- Those who are answered come from the front of the queue, and the others stay. -/
theorem serveList_order {stamps : List Nat} (hw : Waiting stamps h.registry) (key : String) :
    Waiting stamps (h.serve RequestKind.isList (h.listTimestamps o)).registry ∧
      answeredBy key ((h.serveReplies RequestKind.isList (h.listTimestamps o)).map fun r => .served r.1 r.2) ++
        (h.serve RequestKind.isList (h.listTimestamps o)).registry.waiters key = h.registry.waiters key := by
  have hc := hw.lists
  have hentries := serveList_entries (o := o) hc
  have hkind : ∀ t ∈ h.listTimestamps o, ∀ e, h.registry.store.lookup t = some e →
      (e.kind = .list key ↔ t ∈ h.registry.backlogList.queueOf key) := fun t _ e he => (hc.list.entry he).symm
  obtain ⟨hfst, history, hreg⟩ := serveList_registry (o := o) hc
  -- the first of the queue are served, the rest is not
  let n := (listItems h.data key).length
  let client := fun t => (h.registry.store.lookup t).map fun e => (t, e.clientId)
  have hsplit : h.registry.waiters key =
      ((h.registry.backlogList.queueOf key).take n).filterMap client ++
        ((h.registry.backlogList.queueOf key).drop n).filterMap client := by
    rw [← List.filterMap_append, List.take_append_drop]
    rfl
  have htake : ∀ t, t ∈ (h.registry.backlogList.queueOf key).take n ↔
      t ∈ h.listTimestamps o ∧ t ∈ h.registry.backlogList.queueOf key := by
    intro t
    rw [← listTimestamps_filter (o := o) hc key, List.mem_filter, decide_eq_true_eq]
  have hanswered : answeredBy key ((h.serveReplies RequestKind.isList (h.listTimestamps o)).map
      fun r => .served r.1 r.2) = ((h.registry.backlogList.queueOf key).take n).filterMap client := by
    rw [answered_served, hfst, hentries, ← listTimestamps_filter (o := o) hc key]
    have hall := fun t ht => listTimestamps_entry (o := o) (t := t) hc ht
    generalize h.listTimestamps o = ts at hall hkind
    clear hsplit htake
    induction ts with
    | nil => rfl
    | cons t ts ih =>
      obtain ⟨k, e, he, hk, hstamp⟩ := hall t (List.mem_cons_self ..)
      have hrest := ih (fun t ht => hall t (List.mem_cons_of_mem _ ht)) fun t ht => hkind t (List.mem_cons_of_mem _ ht)
      have hiff := hkind t (List.mem_cons_self ..) e he
      rw [List.filterMap_cons, he]
      simp only
      rw [List.flatMap_cons, hrest, List.filter_cons]
      by_cases hkey : e.kind = .list key
      · rw [if_pos hkey, if_pos (by simpa using hiff.mp hkey)]
        simp [client, he, hstamp]
      · rw [if_neg hkey, if_neg (by simpa using fun hin => hkey (hiff.mpr hin))]
        rfl
  refine ⟨?_, ?_⟩
  · rw [hreg]
    exact (hw.foldl_remove (h.listTimestamps o)).congr rfl rfl rfl
  · have hafter : (h.serve RequestKind.isList (h.listTimestamps o)).registry.waiters key =
        ((h.registry.backlogList.queueOf key).drop n).filterMap client := by
      rw [hreg]
      refine (waiters_congr rfl rfl).trans ((waiters_foldl_remove hc (h.listTimestamps o) key).trans ?_)
      have hfst' : ∀ (l : List Nat) w, w ∈ l.filterMap client → w.1 ∈ l := by
        intro l w hw
        obtain ⟨t, ht, hmap⟩ := List.mem_filterMap.mp hw
        obtain ⟨e, _, rfl⟩ := Option.map_eq_some_iff.mp hmap
        exact ht
      rw [hsplit, List.filter_append, List.filter_eq_nil_iff.mpr, List.filter_eq_self.mpr, List.nil_append]
      · intro w hw
        have hdrop := hfst' _ w hw
        have hno : w.1 ∉ h.listTimestamps o := fun hin =>
          List.disjoint_take_drop (hc.queue key) (le_refl n) ((htake w.1).mpr ⟨hin, List.mem_of_mem_drop hdrop⟩) hdrop
        simpa using hno
      · intro w hw
        simpa using ((htake w.1).mp (hfst' _ w hw)).1
    rw [hanswered, hafter, hsplit]

theorem streamTimestamps_entry {t : Nat} (ht : t ∈ h.streamTimestamps o) {e : RequestEntry}
    (he : h.registry.store.lookup t = some e) : e.kind.isStream = true := by
  have hitems := (List.mem_filter.mp ht).2
  rw [hasItems, he] at hitems
  split at hitems
  · rename_i heq
    cases heq
    rfl
  · cases hitems

theorem serveStream_registry (hc : h.registry.Lists) :
    (h.serveReplies RequestKind.isStream (h.streamTimestamps o)).map Prod.fst =
        (takeOut RequestKind.isStream h.registry (h.streamTimestamps o)).2 ∧
      ∃ history, (h.serve RequestKind.isStream (h.streamTimestamps o)).registry =
        { (h.streamTimestamps o).foldl (fun r t => (r.remove t).1) h.registry with history } := by
  refine serve_registry RequestKind.isStream (h.streamTimestamps o) hc (fun kind hk => ?_) fun key => ?_
  · cases kind with
    | stream => rfl
    | list | wait => cases hk
  · rw [List.countP_eq_zero.mpr fun e he => ?_]
    · exact Nat.zero_le _
    · have hserved := (takeOut_entry he).1
      cases hk : e.kind with
      | stream | wait => simp
      | list =>
        rw [hk] at hserved
        cases hserved

theorem serveStream_order {stamps : List Nat} (hw : Waiting stamps h.registry) (key : String) :
    Waiting stamps (h.serve RequestKind.isStream (h.streamTimestamps o)).registry ∧
      answeredBy key ((h.serveReplies RequestKind.isStream (h.streamTimestamps o)).map fun r => .served r.1 r.2) = [] ∧
      (h.serve RequestKind.isStream (h.streamTimestamps o)).registry.waiters key = h.registry.waiters key := by
  obtain ⟨hfst, history, hreg⟩ := serveStream_registry (o := o) hw.lists
  rw [hreg, answered_served, hfst]
  refine ⟨(hw.foldl_remove (h.streamTimestamps o)).congr rfl rfl rfl, ?_, ?_⟩
  · rw [List.flatMap_eq_nil_iff]
    intro e he
    have hserved := (takeOut_entry he).1
    refine if_neg fun hk => ?_
    rw [hk] at hserved
    cases hserved
  · refine (waiters_congr rfl rfl).trans (waiters_foldl_remove_other hw.lists _ fun t ht e he hk => ?_)
    have hs := streamTimestamps_entry ht he
    rw [hk] at hs
    cases hs

/-! ## Deadlines -/

theorem callbackDeadlineExpire_nearest (hc : h.registry.Lists) (hx : h.callbackDeadlineExpire = some h') :
    ∃ t history, h'.registry = { (h.registry.remove t).1 with history } ∧
      h.nearest = h.registry.store.lookup t := by
  obtain ⟨d, t, hfirst, hcases⟩ := callbackDeadlineExpire_registry hx hc.stamp
  have hnearest : h.nearest = h.registry.store.lookup t := by
    rw [nearest, getNearestDeadline, hfirst]
    rfl
  obtain ⟨e, _, hreg⟩ | ⟨hgone, rfl⟩ := hcases
  · exact ⟨t, _, hreg, hnearest⟩
  · refine ⟨t, h'.registry.history, ?_, hnearest⟩
    rw [remove_none hgone]

/-! ## The order of service -/

def registeredBy (key : String) (trace : List Happening) : List (Nat × Nat) := trace.flatMap (Happening.registered key)

def timedOutBy (key : String) (trace : List Happening) : List Nat := trace.flatMap (Happening.timedOut key)

def stampsOf (trace : List Happening) : List Nat := trace.flatMap Happening.stamp

/-- Who was answered and who waits are those who registered, but for those
whose time ran out. -/
structure Fifo (key : String) (r : RequestRegistry) (trace : List Happening) : Prop where
  waiting : Waiting (stampsOf trace) r
  order : answeredBy key trace ++ r.waiters key =
    (registeredBy key trace).filter fun w => w.1 ∉ timedOutBy key trace
  known : ((registeredBy key trace).map Prod.fst).Sublist (stampsOf trace)
  out : ∀ t ∈ timedOutBy key trace, t ∈ stampsOf trace

theorem Fifo.congr {r r' : RequestRegistry} {trace : List Happening} (hf : Fifo key r trace)
    (hstore : r'.store = r.store)
    (hlist : r'.backlogList = r.backlogList) (hwait : r'.backlogWait = r.backlogWait) : Fifo key r' trace :=
  ⟨hf.waiting.congr hstore hlist hwait, by rw [waiters_congr hstore hlist]; exact hf.order, hf.known, hf.out⟩

theorem Fifo.call {c : Call} {trace : List Happening} (hm : Call.Made P o c)
    (hn : (stampsOf (trace ++ [.call c])).Nodup) (hf : Fifo key c.before.registry trace) :
    Fifo key c.after.registry (trace ++ [.call c]) := by
  have hanswered : answeredBy key (trace ++ [.call c]) = answeredBy key trace := by
    simp [answeredBy, Happening.answered]
  have hout : timedOutBy key (trace ++ [.call c]) = timedOutBy key trace := by simp [timedOutBy, Happening.timedOut]
  have hregistered : registeredBy key (trace ++ [.call c]) =
      registeredBy key trace ++ (Happening.call c).registered key := by simp [registeredBy]
  have hstamps : stampsOf (trace ++ [.call c]) = stampsOf trace ++ (Happening.call c).stamp := by simp [stampsOf]
  rw [hstamps] at hn
  rcases (hm.stores : c.Stores key) with ⟨hsame, hnone⟩ | ⟨r, hstore, hlist, hwait, hins, hstamp, hreg⟩
  · obtain ⟨hw, hwaiters⟩ := hsame _ hf.waiting
    refine ⟨?_, ?_, ?_, ?_⟩
    · rw [hstamps]
      exact hw.mono fun t ht => List.mem_append_left _ ht
    · rw [hanswered, hout, hregistered, hnone, List.append_nil, hwaiters]
      exact hf.order
    · rw [hregistered, hnone, List.append_nil, hstamps]
      exact hf.known.trans (List.sublist_append_left _ _)
    · rw [hout, hstamps]
      exact fun t ht => List.mem_append_left _ (hf.out t ht)
  · rw [hstamp] at hn hstamps
    have hfresh : c.before.registry.timer.now ∉ stampsOf trace := fun hin =>
      (List.nodup_append.mp hn).2.2 _ hin _ (List.mem_singleton_self _) rfl
    have hf' := hf.congr hstore hlist hwait
    have hgone : r.store.lookup c.before.registry.timer.now = none := by
      cases hl : r.store.lookup c.before.registry.timer.now with
      | none => rfl
      | some e => exact absurd (hf'.waiting.stored _ e hl) hfresh
    refine ⟨?_, ?_, ?_, ?_⟩
    · rw [hstamps, hins]
      exact hf'.waiting.insert hfresh
    · have hkept : ∀ w ∈ (Happening.call c).registered key, w.1 ∉ timedOutBy key trace := by
        rw [hreg]
        intro w hw hin
        split at hw
        · rw [List.mem_singleton.mp hw] at hin
          exact hfresh (hf.out _ hin)
        · cases hw
      have hnew : ((Happening.call c).registered key).filter (fun w => w.1 ∉ timedOutBy key trace) =
          (Happening.call c).registered key :=
        List.filter_eq_self.mpr fun w hw => by simpa using hkept w hw
      rw [hanswered, hout, hregistered, hins, waiters_insert hf'.waiting.lists hgone, ← List.append_assoc, hf'.order,
        List.filter_append, hnew, hreg]
    · rw [hregistered, hstamps, List.map_append, hreg]
      refine hf.known.append ?_
      split
      · exact List.Sublist.refl _
      · exact List.nil_sublist _
    · rw [hout, hstamps]
      exact fun t ht => List.mem_append_left _ (hf.out t ht)

theorem Fifo.serve {r r' : RequestRegistry} {trace new : List Happening} (hf : Fifo key r trace)
    (hw : Waiting (stampsOf trace) r') (hreg : registeredBy key new = []) (hout : timedOutBy key new = [])
    (hstamps : stampsOf new = []) (horder : answeredBy key new ++ r'.waiters key = r.waiters key) :
    Fifo key r' (trace ++ new) := by
  have hstamps' : stampsOf (trace ++ new) = stampsOf trace := by
    rw [stampsOf, List.flatMap_append]
    exact (congrArg _ hstamps).trans (List.append_nil _)
  have hreg' : registeredBy key (trace ++ new) = registeredBy key trace := by
    rw [registeredBy, List.flatMap_append]
    exact (congrArg _ hreg).trans (List.append_nil _)
  have hout' : timedOutBy key (trace ++ new) = timedOutBy key trace := by
    rw [timedOutBy, List.flatMap_append]
    exact (congrArg _ hout).trans (List.append_nil _)
  have hanswered : answeredBy key (trace ++ new) = answeredBy key trace ++ answeredBy key new := List.flatMap_append
  refine ⟨by rwa [hstamps'], ?_, by rw [hreg', hstamps']; exact hf.known, by rw [hout', hstamps']; exact hf.out⟩
  rw [hanswered, List.append_assoc, horder, hreg', hout']
  exact hf.order

theorem Fifo.expire {r r' : RequestRegistry} {trace : List Happening} {t : Nat} (hf : Fifo key r trace)
    (hn : (stampsOf trace).Nodup) (hstore : r'.store = (r.remove t).1.store)
    (hlist : r'.backlogList = (r.remove t).1.backlogList) (hwait : r'.backlogWait = (r.remove t).1.backlogWait) :
    Fifo key r' (trace ++ (r.store.lookup t).toList.map .expired) := by
  have hc := hf.waiting.lists
  have hw : Waiting (stampsOf trace) r' := (hf.waiting.foldl_remove [t]).congr hstore hlist hwait
  have hwaiters : r'.waiters key = (r.waiters key).filter fun w => w.1 ∉ [t] :=
    (waiters_congr hstore hlist).trans (waiters_foldl_remove hc [t] key)
  have hother : ∀ es : List RequestEntry, registeredBy key (es.map .expired) = [] ∧ stampsOf (es.map .expired) = [] ∧
      answeredBy key (es.map .expired) = [] := by
    intro es
    simp [registeredBy, stampsOf, answeredBy, List.flatMap_map, Happening.registered, Happening.stamp,
      Happening.answered]
  obtain ⟨hreg, hstamps, hanswered⟩ := hother (r.store.lookup t).toList
  by_cases hkey : ∃ e, r.store.lookup t = some e ∧ e.kind = .list key
  · obtain ⟨e, he, hk⟩ := hkey
    have hstamp := hc.stamp t e he
    have hin : t ∈ stampsOf trace := hf.waiting.stored t e he
    have hgone : timedOutBy key ((r.store.lookup t).toList.map .expired) = [t] := by
      simp [timedOutBy, he, Happening.timedOut, hk, hstamp]
    rw [stampsOf] at hstamps
    rw [registeredBy] at hreg
    rw [timedOutBy] at hgone
    rw [answeredBy] at hanswered
    -- nobody who was answered is among the waiters
    have hdistinct : ((answeredBy key trace ++ r.waiters key).map Prod.fst).Nodup := by
      rw [hf.order]
      exact hn.sublist ((List.filter_sublist.map _).trans hf.known)
    have hmem : (t, e.clientId) ∈ r.waiters key :=
      List.mem_filterMap.mpr ⟨t, (hc.list key t).mpr ⟨e, he, hk⟩, by rw [he]; rfl⟩
    have hnot : ∀ w ∈ answeredBy key trace, w.1 ∉ [t] := by
      intro w hw hin
      rw [List.map_append, List.nodup_append] at hdistinct
      exact hdistinct.2.2 w.1 (List.mem_map_of_mem hw) t (List.mem_map_of_mem hmem) (List.mem_singleton.mp hin)
    refine ⟨?_, ?_, ?_, ?_⟩
    · rw [stampsOf, List.flatMap_append, hstamps, List.append_nil]
      exact hw
    · have hall := congrArg (List.filter fun w : Nat × Nat => w.1 ∉ [t]) hf.order
      rw [List.filter_append, List.filter_eq_self.mpr fun w hw => by simpa using hnot w hw, List.filter_filter] at hall
      rw [answeredBy, registeredBy, timedOutBy, List.flatMap_append, List.flatMap_append, List.flatMap_append,
        hanswered, hreg, hgone, List.append_nil, List.append_nil, hwaiters]
      refine hall.trans (List.filter_congr fun w _ => ?_)
      simp [timedOutBy, and_comm]
    · rw [registeredBy, stampsOf, List.flatMap_append, List.flatMap_append, hreg, hstamps, List.append_nil,
        List.append_nil]
      exact hf.known
    · rw [timedOutBy, stampsOf, List.flatMap_append, List.flatMap_append, hgone, hstamps, List.append_nil]
      intro t' ht'
      rcases List.mem_append.mp ht' with ht' | ht'
      · exact hf.out t' ht'
      · rw [List.mem_singleton.mp ht']
        exact hin
  · have hno : ∀ e, r.store.lookup t = some e → e.kind ≠ .list key := fun e he hk => hkey ⟨e, he, hk⟩
    refine hf.serve hw hreg ?_ hstamps ?_
    · cases he : r.store.lookup t with
      | none => rfl
      | some e => simp [timedOutBy, Happening.timedOut, hno e he]
    · rw [hanswered, List.nil_append]
      refine (waiters_congr hstore hlist).trans (waiters_foldl_remove_other hc [t] ?_)
      intro t' ht' e he
      rw [List.mem_singleton.mp ht'] at he
      exact hno e he

theorem step_fifo {label : IterOrder × Event} {trace : List Happening} (hs : Steps P h label h')
    (hf : (stampsOf trace).Nodup → Fifo key h.registry trace) :
    (stampsOf (trace ++ happenings P h label)).Nodup → Fifo key h'.registry (trace ++ happenings P h label) := by
  have hbefore : ∀ new, (stampsOf (trace ++ new)).Nodup → (stampsOf trace).Nodup := by
    intro new hn
    rw [stampsOf, List.flatMap_append] at hn
    exact hn.sublist (List.sublist_append_left _ _)
  have hserved : ∀ l : List (RequestEntry × RespType), registeredBy key (l.map fun r => .served r.1 r.2) = [] ∧
      timedOutBy key (l.map fun r => .served r.1 r.2) = [] ∧ stampsOf (l.map fun r => .served r.1 r.2) = [] := by
    intro l
    simp only [registeredBy, timedOutBy, stampsOf, List.flatMap_map, List.flatMap_eq_nil_iff]
    exact ⟨fun _ _ => rfl, fun _ _ => rfl, fun _ _ => rfl⟩
  obtain ⟨o, e⟩ := label
  cases e with
  | handle cmd buf clientId epollFd =>
    obtain ⟨⟨g, out⟩, hh, rfl⟩ := Option.map_eq_some_iff.mp hs
    refine handle_calls (I := fun g (cs : List Call) => (stampsOf (trace ++ cs.map Happening.call)).Nodup →
      Fifo key g.registry (trace ++ cs.map Happening.call)) (fun g t cs hg hn => (hg hn).congr rfl rfl rfl)
      (fun _ _ g cs hg hn => (hg hn).congr rfl rfl rfl) ?_ hh (by simpa using hf)
    intro c cs _ hm _ hI hn
    rw [List.map_append, ← List.append_assoc] at hn ⊢
    exact Fifo.call hm hn (hI (by
      rw [stampsOf, List.flatMap_append] at hn
      exact hn.sublist (List.sublist_append_left _ _)))
  | serveBacklogList =>
    intro hn
    have hf' := hf (hbefore _ hn)
    cases hs
    simp only [happenings, serveBacklogList]
    split
    · obtain ⟨hw, horder⟩ := serveList_order (o := o) hf'.waiting key
      obtain ⟨hreg, hout, hstamps⟩ := hserved (h.serveReplies RequestKind.isList (h.listTimestamps o))
      exact hf'.serve hw hreg hout hstamps horder
    · rw [List.append_nil]
      exact hf'
  | serveBacklogStream =>
    intro hn
    have hf' := hf (hbefore _ hn)
    cases hs
    simp only [happenings, serveBacklogStream]
    split
    · obtain ⟨hw, hnone, hsame⟩ := serveStream_order (o := o) hf'.waiting key
      obtain ⟨hreg, hout, hstamps⟩ := hserved (h.serveReplies RequestKind.isStream (h.streamTimestamps o))
      exact hf'.serve hw hreg hout hstamps (by rw [hnone]; exact hsame)
    · rw [List.append_nil]
      exact hf'
  | expire =>
    intro hn
    have hf' := hf (hbefore _ hn)
    have hdisarm : Fifo key h.disarm.registry trace := hf'.congr rfl rfl rfl
    obtain ⟨t, history, hreg, hnearest⟩ := callbackDeadlineExpire_nearest hdisarm.waiting.lists (step_expire hs).2
    simp only [happenings]
    rw [show h.nearest = h.disarm.registry.store.lookup t from hnearest]
    refine hdisarm.expire (hbefore _ hn) ?_ ?_ ?_
    · rw [hreg]
    · rw [hreg]
    · rw [hreg]
  | process =>
    cases hs
    simp only [happenings, List.append_nil]
    exact hf

/-- A list that is touched by RPUSH, LPOP, BLPOP and the service of BLPOPs only:
what it gave away and what it holds is what it held and what was pushed. And if
no two requests are stored under one clock reading, its waiters are answered in
the order in which they registered, but for those whose time ran out. -/
theorem run_handoff {h₀ : CmdHandler} {labels : List (IterOrder × Event)} {timer : Timer}
    (hstart : h₀.registry = .new timer) (hr : Run (guarded (OnlyQueues P key) (Steps P)) h₀ labels h) :
    poppedItems key (runTrace P h₀ labels) ++ listItems h.data key =
      listItems h₀.data key ++ pushedItems key (runTrace P h₀ labels) ∧
    ((stampsOf (runTrace P h₀ labels)).Nodup →
      answeredBy key (runTrace P h₀ labels) ++ h.registry.waiters key =
        (registeredBy key (runTrace P h₀ labels)).filter
          fun w => w.1 ∉ timedOutBy key (runTrace P h₀ labels)) := by
  constructor
  · have hzero : listItems h₀.data key ++ pushedItems key [] = poppedItems key [] ++ listItems h₀.data key :=
      List.append_nil _
    refine (collect_inv (I := fun g trace => listItems h₀.data key ++ pushedItems key trace =
      poppedItems key trace ++ listItems g.data key) hr ?_ hzero).symm
    intro g label g' trace honly hs hI
    have hstep := step_items honly hs
    rw [pushedItems_append, poppedItems_append, ← List.append_assoc, hI, List.append_assoc, hstep, List.append_assoc]
  · intro hn
    have hnone : ∀ t, h₀.registry.store.lookup t = none := by
      intro t
      rw [hstart]
      exact AList.lookup_empty t
    have hzero : Fifo key h₀.registry [] := by
      have hc : h₀.registry.Lists := by
        rw [hstart]
        exact (coherent_new timer).lists
      refine ⟨⟨hc, fun t e he => ?_, fun id t ht => ?_⟩, ?_, List.Sublist.refl _,
        fun t ht => absurd ht List.not_mem_nil⟩
      · rw [hnone] at he
        cases he
      · rw [hstart] at ht
        rw [show (RequestRegistry.new timer).backlogWait.lookup id = none from AList.lookup_empty id] at ht
        cases ht
      · rw [hstart]
        rfl
    have hf := collect_inv (I := fun g trace => (stampsOf trace).Nodup → Fifo key g.registry trace) hr
      (fun _ _ _ _ _ hs hI => step_fifo hs hI) (fun _ => hzero)
    exact (hf hn).order

end

def handedOver : List (IterOrder × Event) :=
  [ask 1 (.blpop "k" none), ask 2 (.rpush "k" ["a", "b"]), (.asIs, .serveBacklogList)]

theorem run_handoff_blpop :
    poppedItems "k" (runTrace .blank startup handedOver) ++ listItems (play startup handedOver).data "k" = ["a", "b"] ∧
      answeredBy "k" (runTrace .blank startup handedOver) ++ (play startup handedOver).registry.waiters "k" =
        [(0, 1)] := by
  have hblpop : Steps .blank startup (ask 1 (.blpop "k" none)) (play startup (handedOver.take 1)) := rfl
  have hpush : Steps .blank (play startup (handedOver.take 1)) (ask 2 (.rpush "k" ["a", "b"]))
    (play startup (handedOver.take 2)) := rfl
  have hserve : Steps .blank (play startup (handedOver.take 2)) (.asIs, .serveBacklogList)
    (play startup handedOver) := rfl
  have hrun : Run (guarded (OnlyQueues .blank "k") (Steps .blank)) startup handedOver (play startup handedOver) := by
    refine .cons ⟨?_, hblpop⟩ (.cons ⟨?_, hpush⟩ (.cons ⟨?_, hserve⟩ .nil))
    · intro c hc _
      obtain rfl := List.mem_singleton.mp hc
      exact .inr (.inr ⟨none, rfl⟩)
    · intro c hc _
      obtain rfl := List.mem_singleton.mp hc
      exact .inl ⟨["a", "b"], rfl⟩
    · intro c hc
      cases hc
  obtain ⟨hitems, horder⟩ := run_handoff rfl hrun
  exact ⟨hitems.trans rfl, (horder (by decide)).trans rfl⟩

end CmdHandler

end Redis
