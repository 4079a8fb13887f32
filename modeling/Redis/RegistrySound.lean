import Redis.Registry

/-!
# Frames and watches

What the operations on requests leave alone, and what the operations on watches
make of the flag of a client and a key.
-/

namespace Redis

open Lib

namespace RequestRegistry

/-! ## What the operations leave alone -/

theorem setTimerFd_deadline (r : RequestRegistry) : r.setTimerFd.deadline = r.deadline := rfl

theorem insert_session (r : RequestRegistry) (timestamp deadline clientId : Nat) (kind : RequestKind) :
    (r.insert timestamp deadline clientId kind).backlogTxn = r.backlogTxn ∧
      (r.insert timestamp deadline clientId kind).watchlist = r.watchlist := by
  have hs : (r.schedule timestamp deadline).1.backlogTxn = r.backlogTxn ∧
      (r.schedule timestamp deadline).1.watchlist = r.watchlist := by
    unfold schedule
    split <;> exact ⟨rfl, rfl⟩
  cases kind <;> exact hs

theorem dequeue_frame (r : RequestRegistry) (timestamp clientId : Nat) (kind : RequestKind) :
    ∃ bl bs bw ba, r.dequeue timestamp clientId kind =
      { r with backlogList := bl, backlogStream := bs, backlogWait := bw, backlogAck := ba } := by
  cases kind <;> exact ⟨_, _, _, _, rfl⟩

theorem remove_none {r : RequestRegistry} {timestamp : Nat} (h : r.store.lookup timestamp = none) :
    r.remove timestamp = (r, none) := by
  unfold remove
  rw [h]

theorem remove_some {r : RequestRegistry} {timestamp : Nat} {entry : RequestEntry}
    (h : r.store.lookup timestamp = some entry) :
    ∃ bl bs bw ba dl tm, r.remove timestamp =
      ({ r with
          store := r.store.erase timestamp, backlogList := bl, backlogStream := bs, backlogWait := bw, backlogAck := ba
          deadline := dl, timer := tm }, some entry) := by
  obtain ⟨bl, bs, bw, ba, hd⟩ :=
    dequeue_frame { r with store := r.store.erase timestamp } timestamp entry.clientId entry.kind
  unfold remove
  rw [h]
  simp only [hd, setTimerFd]
  exact ⟨_, _, _, _, _, _, rfl⟩

/-- What stays when a request is taken out stays when there is none. -/
theorem remove_keeps {I : RequestRegistry → Prop} {r : RequestRegistry} (h : I r) {timestamp : Nat}
    (hout : ∀ entry, r.store.lookup timestamp = some entry → I (r.remove timestamp).1) : I (r.remove timestamp).1 := by
  cases he : r.store.lookup timestamp with
  | none =>
    rw [remove_none he]
    exact h
  | some entry => exact hout entry he

theorem remove_session (r : RequestRegistry) (timestamp : Nat) :
    (r.remove timestamp).1.backlogTxn = r.backlogTxn ∧ (r.remove timestamp).1.watchlist = r.watchlist := by
  cases h : r.store.lookup timestamp with
  | none =>
    rw [remove_none h]
    exact ⟨rfl, rfl⟩
  | some entry =>
    obtain ⟨_, _, _, _, _, _, hr⟩ := remove_some h
    rw [hr]
    exact ⟨rfl, rfl⟩

theorem remove_entry {r : RequestRegistry} {timestamp : Nat} {entry : RequestEntry}
    (h : (r.remove timestamp).2 = some entry) : r.store.lookup timestamp = some entry := by
  cases hl : r.store.lookup timestamp with
  | none =>
    rw [remove_none hl] at h
    cases h
  | some e =>
    obtain ⟨_, _, _, _, _, _, hr⟩ := remove_some hl
    rw [hr] at h
    exact h

theorem remove_store {r : RequestRegistry} {timestamp t : Nat} {entry : RequestEntry}
    (h : (r.remove timestamp).1.store.lookup t = some entry) : r.store.lookup t = some entry := by
  cases hl : r.store.lookup timestamp with
  | none =>
    rw [remove_none hl] at h
    exact h
  | some e =>
    obtain ⟨_, _, _, _, _, _, hr⟩ := remove_some hl
    rw [hr] at h
    by_cases ht : t = timestamp
    · subst ht
      rw [AList.lookup_erase] at h
      cases h
    · rwa [AList.lookup_erase_ne ht] at h

/-! ## Watches -/

theorem watchFlag_watchKey (watchlist : HashMap String (HashMap Nat Bool)) (k key : String) (clientId id : Nat) :
    watchFlag (watchKey clientId watchlist k) key id =
      if id = clientId ∧ key = k then some
        ((watchFlag watchlist key id).getD false) else watchFlag watchlist key id := by
  unfold watchFlag watchKey
  by_cases hk : key = k
  · subst hk
    rw [HashMap.lookup_modify, HashMap.lookup_orInsert]
    by_cases hid : id = clientId
    · subst hid
      rw [if_pos ⟨rfl, rfl⟩]
      cases watchlist.lookup key <;> simp [HashMap.lookup_orInsert]
    · rw [if_neg fun h => hid h.1]
      cases watchlist.lookup key <;> simp [HashMap.lookup_orInsert_ne hid]
  · rw [if_neg fun h => hk h.2, HashMap.lookup_modify_ne hk, HashMap.lookup_orInsert_ne hk]

theorem watchFlag_watch (r : RequestRegistry) (keys : List String) (clientId id : Nat) (key : String) :
    watchFlag (r.watch keys clientId).watchlist key id =
      if id = clientId ∧ key ∈ keys then some ((watchFlag r.watchlist key id).getD false)
      else watchFlag r.watchlist key id := by
  unfold watch
  simp only
  generalize r.watchlist = watchlist
  induction keys generalizing watchlist with
  | nil => simp
  | cons k keys ih =>
    rw [List.foldl_cons, ih, watchFlag_watchKey]
    by_cases hid : id = clientId <;> by_cases hk : key = k <;> by_cases hkeys : key ∈ keys <;> simp [hid, hk, hkeys]

theorem watchFlag_watch_some {r : RequestRegistry} (keys : List String) (clientId : Nat) {key : String} {id : Nat}
    {b : Bool} (h : watchFlag r.watchlist key id = some b) :
    watchFlag (r.watch keys clientId).watchlist key id = some b := by
  rw [watchFlag_watch, h, Option.getD_some, ite_self]

theorem watchFlag_unwatchAll {r : RequestRegistry} {key : String} {clientId id : Nat} (h : id ≠ clientId) :
    watchFlag (r.unwatchAll clientId).watchlist key id = watchFlag r.watchlist key id := by
  unfold watchFlag unwatchAll
  rw [HashMap.lookup_mapValues]
  cases r.watchlist.lookup key with
  | none => rfl
  | some clients => exact AList.lookup_erase_ne h

theorem watchFlag_unwatchAll_self (r : RequestRegistry) (key : String) (clientId : Nat) :
    watchFlag (r.unwatchAll clientId).watchlist key clientId = none := by
  unfold watchFlag unwatchAll
  rw [HashMap.lookup_mapValues]
  cases r.watchlist.lookup key with
  | none => rfl
  | some clients => exact AList.lookup_erase clientId clients

theorem watchFlag_setDirty (r : RequestRegistry) (cmd : Cmd) (key : String) (id : Nat) :
    watchFlag (r.setDirty cmd).watchlist key id =
      if cmd.dirtyKey = some key then (watchFlag r.watchlist key id).map fun _ => true
      else watchFlag r.watchlist key id := by
  unfold watchFlag setDirty
  cases hk : cmd.dirtyKey with
  | none => simp
  | some k =>
    by_cases hkk : k = key
    · subst hkk
      simp only [HashMap.lookup_modify, if_true]
      cases r.watchlist.lookup k with
      | none => rfl
      | some clients => simp
    · simp [HashMap.lookup_modify_ne (Ne.symm hkk), hkk]

theorem isAnyDirty_iff {r : RequestRegistry} {clientId : Nat} :
    r.isAnyDirty clientId = true ↔ ∃ key, watchFlag r.watchlist key clientId = some true := by
  unfold isAnyDirty watchFlag
  rw [List.any_eq_true]
  constructor
  · rintro ⟨clients, hc, hb⟩
    obtain ⟨key, hl⟩ := HashMap.mem_values.mp hc
    refine ⟨key, ?_⟩
    rw [hl, Option.bind_some]
    cases hf : clients.lookup clientId with
    | none => simp [hf] at hb
    | some b => simpa [hf] using hb
  · rintro ⟨key, hb⟩
    obtain ⟨clients, hl, hb⟩ := Option.bind_eq_some_iff.mp hb
    exact ⟨clients, HashMap.mem_values.mpr ⟨key, hl⟩, by rw [hb, Option.getD_some]⟩

end RequestRegistry

end Redis
