import Redis.Effects

/-!
# Who changes the key space

An execution changes nothing but the target of its command. Beside executions
only the service of waiting BLPOPs changes a key, and only one that a BLPOP in
the store waits for.
-/

namespace Redis

open Lib RequestRegistry

namespace CmdHandler

def Changes (h h' : CmdHandler) (key : String) : Prop := h.data.lookup key ≠ h'.data.lookup key

def Waits (h : CmdHandler) (key : String) : Prop :=
  ∃ t entry, h.registry.store.lookup t = some entry ∧ entry.kind = .list key

section
variable {P : Platform}

/-! ## Executions -/

theorem Effect.data {o : IterOrder} {h : CmdHandler} {now clientId : Nat} {epollFd : Option Int} {cmd : Cmd}
    {h' : CmdHandler} {r : CmdResult} (he : Effect P o h now clientId epollFd cmd h' r) :
    DataEffect P h.data h'.data cmd r := by
  cases he with
  | value hd => exact hd
  | request | session | slave | channels | publish | users => exact .same _ _ _
  | ack _ ha =>
    obtain ⟨_, _, rfl, _⟩ := cmdAck_frame ha
    exact .same _ _ _

theorem Executes.target {h : CmdHandler} {label : IterOrder × Event} {x : Execution} (hx : Executes P h label x)
    {key : String} (hc : Changes x.before x.after key) : x.cmd.target = some key := by
  rcases hx.effect with hsame | ⟨s, dispatched, r, fd, m, ser, heff, hcon, _⟩
  · exact absurd rfl (hsame ▸ hc : Changes x.before x.before key)
  · refine (heff.data key ?_).1
    rw [← conclude_data hcon]
    exact Ne.symm hc

/-! ## Backlogs -/

theorem takeOut_entry {served : RequestKind → Bool} {r : RequestRegistry} {ts : List Nat} {entry : RequestEntry}
    (he : entry ∈ (takeOut served r ts).2) :
    served entry.kind = true ∧ ∃ t, t ∈ ts ∧ r.store.lookup t = some entry := by
  induction ts generalizing r with
  | nil => cases he
  | cons t ts ih =>
    simp only [takeOut, List.mem_append, Option.mem_toList] at he
    rcases he with he | he
    · obtain ⟨hr, hs⟩ := Option.filter_eq_some_iff.mp he
      exact ⟨hs, t, List.mem_cons_self .., remove_entry hr⟩
    · obtain ⟨hs, t', ht', hl⟩ := ih he
      exact ⟨hs, t', List.mem_cons_of_mem _ ht', remove_store hl⟩

theorem serve_inv {I : CmdHandler → Prop} {served : RequestKind → Bool} {h : CmdHandler} {ts : List Nat}
    (hI : I { h with registry := (takeOut served h.registry ts).1 })
    (htask : ∀ g t entry, served entry.kind = true → h.registry.store.lookup t = some entry → I g →
      I (g.backlogTask entry)) : I (h.serve served ts) :=
  List.foldlRecOn _ _ hI fun g hg entry he => by
    obtain ⟨hs, t, _, hl⟩ := takeOut_entry he
    exact htask g t entry hs hl hg

theorem lookup_of_listItems {data : Data} {key : String} {item : String} {items : List String}
    (h : listItems data key = item :: items) : ∃ x, data.lookup key = some ⟨.list (item :: items), x⟩ := by
  unfold listItems at h
  split at h
  · rename_i x hl
    exact ⟨x, h ▸ hl⟩
  · cases h

/-- A task pops from the list it waits for, if that has items. -/
theorem backlogTask_data {h : CmdHandler} {entry : RequestEntry} {key : String}
    (hk : entry.kind = .list key → listItems h.data key = []) :
    (h.backlogTask entry).data.lookup key = h.data.lookup key := by
  unfold backlogTask
  split
  · rename_i k hkind
    split
    · rename_i item items x hl
      by_cases hkk : key = k
      · subst hkk
        have hitems := hk hkind
        simp [listItems, hl] at hitems
      · exact HashMap.lookup_modify_ne hkk _ _
    · rfl
  · split <;> rfl
  · rfl

theorem serve_data {served : RequestKind → Bool} {h : CmdHandler} {ts : List Nat} {key : String}
    (hw : Waits h key → listItems h.data key = []) :
    (h.serve served ts).data.lookup key = h.data.lookup key := by
  refine serve_inv (I := fun g => g.data.lookup key = h.data.lookup key) rfl fun g t entry _ hl hg => ?_
  rw [backlogTask_data fun hk => ?_, hg]
  unfold listItems
  rw [hg]
  exact hw ⟨t, entry, hl, hk⟩

theorem serveBacklogStream_data (o : IterOrder) (h : CmdHandler) : (h.serveBacklogStream o).data = h.data := by
  unfold serveBacklogStream
  split
  · refine serve_inv (I := fun g => g.data = h.data) rfl fun g t entry hs _ hg => ?_
    rw [← hg]
    unfold backlogTask
    split
    · rename_i key hk
      rw [hk] at hs
      cases hs
    · split <;> rfl
    · rfl
  · rfl

/-! ## The timer -/

theorem deadlineTask_cases {h h' : CmdHandler} {entry : RequestEntry} (hd : h.deadlineTask entry = some h') :
    ∃ t, h' = { h.answer entry t with registry := ((h.answer entry t).registry.remove entry.timestamp).1 } := by
  unfold deadlineTask at hd
  split at hd
  · cases hd
    exact ⟨_, rfl⟩
  · cases hd
    exact ⟨_, rfl⟩
  · obtain ⟨_, _, rfl⟩ := Option.map_eq_some_iff.mp hd
    exact ⟨_, rfl⟩

/-- The request of the nearest deadline runs its task, if it is still stored. -/
theorem callbackDeadlineExpire_cases {h h' : CmdHandler} (hc : h.callbackDeadlineExpire = some h') :
    ∃ d t, h.registry.deadline.first? = some (d, t) ∧
      ((∃ entry, h.registry.store.lookup t = some entry ∧
          deadlineTask { h with registry := (h.registry.remove t).1 } entry = some h') ∨
        h.registry.store.lookup t = none ∧ h' = h) := by
  unfold callbackDeadlineExpire at hc
  split at hc
  · cases hc
  · rename_i d t hfirst
    refine ⟨d, t, hfirst, ?_⟩
    cases he : h.registry.store.lookup t with
    | none =>
      rw [remove_none he] at hc
      cases hc
      exact .inr ⟨rfl, rfl⟩
    | some entry =>
      have hremove : h.registry.remove t = ((h.registry.remove t).1, some entry) := by
        obtain ⟨_, _, _, _, _, _, hr⟩ := remove_some he
        rw [hr]
      rw [hremove] at hc
      exact .inl ⟨entry, rfl, hc⟩

theorem step_expire {h h' : CmdHandler} {o : IterOrder} (hs : Steps P h (o, .expire) h') :
    h.fires = true ∧ h.disarm.callbackDeadlineExpire = some h' := by
  unfold Steps step at hs
  simp only at hs
  split at hs
  · rename_i hfires
    exact ⟨hfires, hs⟩
  · cases hs

theorem callbackDeadlineExpire_data {h h' : CmdHandler} (hc : h.callbackDeadlineExpire = some h') :
    h'.data = h.data := by
  obtain ⟨_, _, _, ⟨_, _, hd⟩ | ⟨_, rfl⟩⟩ := callbackDeadlineExpire_cases hc
  · obtain ⟨_, rfl⟩ := deadlineTask_cases hd
    rfl
  · rfl

/-! ## Steps -/

/-- Beside executions, only waiting BLPOPs change a key. -/
theorem step_data {h h' : CmdHandler} {o : IterOrder} {e : Event} (hs : Steps P h (o, e) h')
    (hh : ∀ cmd buf clientId epollFd, e ≠ .handle cmd buf clientId epollFd) {key : String}
    (hw : e = .serveBacklogList → h.flagBacklogList = true → Waits h key → listItems h.data key = []) :
    ¬ Changes h h' key := by
  refine not_not.mpr ?_
  cases e with
  | handle cmd buf clientId epollFd => exact absurd rfl (hh cmd buf clientId epollFd)
  | serveBacklogList =>
    cases hs
    unfold serveBacklogList
    split
    · rename_i hflag
      exact (serve_data (hw rfl hflag)).symm
    · rfl
  | serveBacklogStream =>
    cases hs
    rw [serveBacklogStream_data]
  | expire =>
    rw [callbackDeadlineExpire_data (step_expire hs).2]
    rfl
  | process =>
    cases hs
    rfl

end

end CmdHandler

end Redis
