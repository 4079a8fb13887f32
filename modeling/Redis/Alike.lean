import Redis.Channels
import Redis.SessionFrame

/-!
# Handlers that differ in sessions

Two handlers are alike but for some clients if they differ only in the sessions
of these: in their transactions, watches, subscriptions and queued responses.
The same command of another client, and of one of these that is in no
transaction, keeps handlers alike. If they are alike for every client, it has
the same output on both.
-/

namespace Redis

open Lib RequestRegistry

namespace CmdHandler

def Joined (channels : HashMap String (HashSet Nat)) (id : Nat) (key : String) : Prop :=
  ∃ set, channels.lookup key = some set ∧ id ∈ set

end CmdHandler

open CmdHandler

/-- The sessions of all clients but these agree. -/
structure SessionState.Alike (F : Nat → Prop) (X Y : SessionState) : Prop where
  backlogTxn : ∀ id, ¬ F id → X.backlogTxn.lookup id = Y.backlogTxn.lookup id
  watched : ∀ key id, ¬ F id → watchFlag X.watchlist key id = watchFlag Y.watchlist key id
  subscribers : ∀ id, ¬ F id → (id ∈ X.subscribers ↔ id ∈ Y.subscribers)
  channels : ∀ key, key ∈ X.channels ↔ key ∈ Y.channels
  joined : ∀ id key, ¬ F id → (Joined X.channels id key ↔ Joined Y.channels id key)
  queue : ∀ id, ¬ F id → X.queue.filter (fun m => m.1 = id) = Y.queue.filter (fun m => m.1 = id)

namespace CmdHandler

/-! ## Channels -/

section
variable {channels channels' : HashMap String (HashSet Nat)} {clientId id : Nat} {key k : String}

theorem exists_members (channels : HashMap String (HashSet Nat)) : ∃ subs, Members channels subs := by
  refine ⟨(channels.toPairs.flatMap fun e => e.2.keys.map fun id => (id, e.1)).toFinset, fun id key => ?_⟩
  simp only [List.mem_toFinset, List.mem_flatMap, List.mem_map, Prod.mk.injEq]
  constructor
  · rintro ⟨⟨k, set⟩, he, id', hid, rfl, rfl⟩
    exact ⟨set, HashMap.mem_toPairs.mp he, AList.mem_keys.mpr hid⟩
  · rintro ⟨set, hl, hid⟩
    exact ⟨(key, set), HashMap.mem_toPairs.mpr hl, id, AList.mem_keys.mp hid, rfl, rfl⟩

theorem channelCount_congr (h : ∀ key, Joined channels id key ↔ Joined channels' id key) :
    channelCount channels id = channelCount channels' id := by
  obtain ⟨subs, hm⟩ := exists_members channels
  obtain ⟨subs', hm'⟩ := exists_members channels'
  rw [channelCount_eq hm, channelCount_eq hm', Subscriptions.count, Subscriptions.count]
  refine congrArg Finset.card (Finset.ext fun e => ?_)
  obtain ⟨i, key⟩ := e
  simp only [Finset.mem_filter]
  refine and_congr_left fun hi => ?_
  rw [hi]
  exact (hm id key).trans ((h key).trans (hm' id key).symm)

theorem joined_joinChannel : Joined (joinChannel clientId channels key) id k ↔
    (id = clientId ∧ k = key) ∨ Joined channels id k := by
  obtain ⟨subs, hm⟩ := exists_members channels
  have hjoin := hm.join clientId key id k
  rw [Finset.mem_insert, Prod.mk.injEq, hm id k] at hjoin
  exact hjoin.symm

theorem joined_leave : Joined (channels.modify key fun set => set.erase clientId) id k ↔
    ¬ (id = clientId ∧ k = key) ∧ Joined channels id k := by
  obtain ⟨subs, hm⟩ := exists_members channels
  have hleave := hm.leave clientId key id k
  rw [Finset.mem_erase, Ne, Prod.mk.injEq, hm id k] at hleave
  exact hleave.symm

theorem mem_leave_iff : k ∈ channels.modify key (fun set => set.erase clientId) ↔ k ∈ channels := by
  rw [← AList.lookup_isSome, ← AList.lookup_isSome]
  by_cases hk : k = key
  · subst hk
    rw [HashMap.lookup_modify, Option.isSome_map]
  · rw [HashMap.lookup_modify_ne hk]

theorem filter_pushed {ids : List Nat} (hn : ids.Nodup) (message : Bytes) (id : Nat) :
    (ids.map fun i => (i, message)).filter (fun m => m.1 = id) = if id ∈ ids then [(id, message)] else [] := by
  induction ids with
  | nil => rfl
  | cons i ids ih =>
    obtain ⟨hout, hn⟩ := List.nodup_cons.mp hn
    rw [List.map_cons, List.filter_cons, ih hn]
    by_cases hi : i = id
    · subst hi
      simp [hout]
    · simp [hi, Ne.symm hi]

end

end CmdHandler

/-! ## Sessions -/

namespace SessionState

def dirtied (X : SessionState) (cmd : Cmd) : SessionState :=
  { X with watchlist := (((RequestRegistry.new { clock := id }).inSession X).setDirty cmd).watchlist }

section
variable {F : Nat → Prop} {X Y : SessionState}

theorem Alike.refl (X : SessionState) : X.Alike F X :=
  ⟨fun _ _ => rfl, fun _ _ _ => rfl, fun _ _ => Iff.rfl, fun _ => Iff.rfl, fun _ _ _ => Iff.rfl, fun _ _ => rfl⟩

theorem Alike.symm (h : X.Alike F Y) : Y.Alike F X :=
  ⟨fun id hid => (h.backlogTxn id hid).symm, fun key id hid => (h.watched key id hid).symm,
    fun id hid => (h.subscribers id hid).symm, fun key => (h.channels key).symm,
    fun id key hid => (h.joined id key hid).symm, fun id hid => (h.queue id hid).symm⟩

theorem Alike.trans {Z : SessionState} (h : X.Alike F Y) (h' : Y.Alike F Z) : X.Alike F Z :=
  ⟨fun id hid => (h.backlogTxn id hid).trans (h'.backlogTxn id hid),
    fun key id hid => (h.watched key id hid).trans (h'.watched key id hid),
    fun id hid => (h.subscribers id hid).trans (h'.subscribers id hid),
      fun key => (h.channels key).trans (h'.channels key),
    fun id key hid => (h.joined id key hid).trans (h'.joined id key hid),
      fun id hid => (h.queue id hid).trans (h'.queue id hid)⟩

theorem Alike.mono {F' : Nat → Prop} (h : X.Alike F Y) (hF : ∀ id, F id → F' id) : X.Alike F' Y :=
  ⟨fun id hid => h.backlogTxn id fun hf => hid (hF id hf), fun key id hid => h.watched key id fun hf => hid (hF id hf),
    fun id hid => h.subscribers id fun hf => hid (hF id hf), h.channels,
    fun id key hid => h.joined id key fun hf => hid (hF id hf), fun id hid => h.queue id fun hf => hid (hF id hf)⟩

theorem Alike.dirtied (h : X.Alike F Y) (cmd : Cmd) : (X.dirtied cmd).Alike F (Y.dirtied cmd) := by
  refine { h with watched := fun key id hid => ?_ }
  have hsame := h.watched key id hid
  unfold SessionState.dirtied
  simp only
  rw [watchFlag_setDirty, watchFlag_setDirty]
  split
  · exact congrArg (Option.map fun _ => true) hsame
  · exact hsame

theorem Alike.setTxn (h : X.Alike F Y) {t t' : HashMap Nat (List Queued)} {clientId : Nat}
    (hother : ∀ id, id ≠ clientId → t.lookup id = X.backlogTxn.lookup id ∧ t'.lookup id = Y.backlogTxn.lookup id)
    (hself : ¬ F clientId → t.lookup clientId = t'.lookup clientId) :
    SessionState.Alike F { X with backlogTxn := t } { Y with backlogTxn := t' } := by
  refine { h with backlogTxn := fun id hid => ?_ }
  by_cases hc : id = clientId
  · subst hc
    exact hself hid
  · rw [(hother id hc).1, (hother id hc).2]
    exact h.backlogTxn id hid

theorem Alike.insertTxn (h : X.Alike F Y) (clientId : Nat) (queue : List Queued) :
    SessionState.Alike F { X with backlogTxn := X.backlogTxn.insert clientId queue }
      { Y with backlogTxn := Y.backlogTxn.insert clientId queue } :=
  h.setTxn (fun _ hid => ⟨AList.lookup_insert_ne hid, AList.lookup_insert_ne hid⟩)
    fun _ => by rw [AList.lookup_insert, AList.lookup_insert]

theorem Alike.eraseTxn (h : X.Alike F Y) (clientId : Nat) :
    SessionState.Alike F { X with backlogTxn := X.backlogTxn.erase clientId }
      { Y with backlogTxn := Y.backlogTxn.erase clientId } :=
  h.setTxn (fun _ hid => ⟨AList.lookup_erase_ne hid, AList.lookup_erase_ne hid⟩)
    fun _ => by rw [AList.lookup_erase, AList.lookup_erase]

theorem Alike.drainTxn (h : X.Alike F Y) (clientId : Nat) :
    SessionState.Alike F { X with backlogTxn := X.backlogTxn.modify clientId fun _ => [] }
      { Y with backlogTxn := Y.backlogTxn.modify clientId fun _ => [] } :=
  h.setTxn (fun _ hid => ⟨HashMap.lookup_modify_ne hid _ _, HashMap.lookup_modify_ne hid _ _⟩)
    fun hid => by rw [HashMap.lookup_modify, HashMap.lookup_modify, h.backlogTxn clientId hid]

theorem Alike.pushTxn (h : X.Alike F Y) (clientId : Nat) (q : Queued) :
    SessionState.Alike F { X with backlogTxn := X.backlogTxn.pushBack clientId q }
      { Y with backlogTxn := Y.backlogTxn.pushBack clientId q } :=
  h.setTxn (fun _ hid => ⟨HashMap.lookup_pushBack_ne hid _ _, HashMap.lookup_pushBack_ne hid _ _⟩)
    fun hid => by rw [HashMap.lookup_pushBack, HashMap.lookup_pushBack, h.backlogTxn clientId hid]

theorem Alike.unwatch (h : X.Alike F Y) (r r' : RequestRegistry) (clientId : Nat) :
    SessionState.Alike F { X with watchlist := ((r.inSession X).unwatchAll clientId).watchlist }
      { Y with watchlist := ((r'.inSession Y).unwatchAll clientId).watchlist } := by
  refine { h with watched := fun key id hid => ?_ }
  by_cases hc : id = clientId
  · subst hc
    simp only [watchFlag_unwatchAll_self]
  · simp only [watchFlag_unwatchAll hc]
    exact h.watched key id hid

theorem Alike.watch (h : X.Alike F Y) (r r' : RequestRegistry) (keys : List String) (clientId : Nat) :
    SessionState.Alike F { X with watchlist := ((r.inSession X).watch keys clientId).watchlist }
      { Y with watchlist := ((r'.inSession Y).watch keys clientId).watchlist } := by
  refine { h with watched := fun key id hid => ?_ }
  have hsame := h.watched key id hid
  simp only [watchFlag_watch]
  split
  · exact congrArg (fun b => some (b.getD false)) hsame
  · exact hsame

theorem Alike.setChannels (h : X.Alike F Y) {c c' : HashMap String (HashSet Nat)} (hkeys : ∀ key, key ∈ c ↔ key ∈ c')
    (hjoined : ∀ id key, ¬ F id → (Joined c id key ↔ Joined c' id key)) :
    SessionState.Alike F { X with channels := c } { Y with channels := c' } :=
  { h with channels := hkeys, joined := hjoined }

theorem Alike.setSubscribers (h : X.Alike F Y) {subscribers subscribers' : HashSet Nat}
    (hin : ∀ id, ¬ F id → (id ∈ subscribers ↔ id ∈ subscribers')) :
    SessionState.Alike F { X with subscribers } { Y with subscribers := subscribers' } := { h with subscribers := hin }

theorem Alike.queued (h : X.Alike F Y) (q : List (Nat × Bytes)) :
    SessionState.Alike F { X with queue := X.queue ++ q } { Y with queue := Y.queue ++ q } := by
  refine { h with queue := fun id hid => ?_ }
  simp only [List.filter_append]
  rw [h.queue id hid]

theorem Alike.pushed (h : X.Alike F Y) {ids ids' : List Nat} (hn : ids.Nodup) (hn' : ids'.Nodup)
    (hids : ∀ id, ¬ F id → (id ∈ ids ↔ id ∈ ids')) (message : Bytes) :
    SessionState.Alike F { X with queue := X.queue ++ ids.map fun i => (i, message) }
      { Y with queue := Y.queue ++ ids'.map fun i => (i, message) } := by
  refine { h with queue := fun id hid => ?_ }
  have hsame := hids id hid
  simp only [List.filter_append]
  rw [h.queue id hid, filter_pushed hn, filter_pushed hn']
  simp only [hsame]

theorem Alike.isAnyDirty (h : X.Alike F Y) (r r' : RequestRegistry) {id : Nat} (hid : ¬ F id) :
    (r.inSession X).isAnyDirty id = (r'.inSession Y).isAnyDirty id := by
  refine Bool.eq_iff_iff.mpr ?_
  rw [isAnyDirty_iff, isAnyDirty_iff]
  exact exists_congr fun key => by
    have hsame : watchFlag (r.inSession X).watchlist key id = watchFlag (r'.inSession Y).watchlist key id :=
      h.watched key id hid
    rw [hsame]

end

end SessionState

end Redis
