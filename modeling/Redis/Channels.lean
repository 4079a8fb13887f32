import Mathlib.Data.Finset.Card
import Mathlib.Data.Finset.Image
import Redis.Effects

/-!
# Channels and subscriptions

Who is subscribed to what is a relation between clients and channels. The code
keeps a set of clients for each channel, and reads the number of channels of a
client off the clones that live in these sets: `channelCount_eq`. The number
SUBSCRIBE reports for a new subscriber is guessed before the client joins, so it
takes names that do not repeat.
-/

namespace Redis

open Lib

abbrev Subscriptions := Finset (Nat × String)

namespace Subscriptions

def count (subs : Subscriptions) (clientId : Nat) : Nat := (subs.filter fun s => s.1 = clientId).card

def subscribe (subs : Subscriptions) (clientId : Nat) (keys : List String) : Subscriptions :=
  keys.foldl (fun subs key => insert (clientId, key) subs) subs

def counts (subs : Subscriptions) (clientId : Nat) : List String → List (String × Nat)
  | [] => []
  | key :: keys =>
    (key, count (insert (clientId, key) subs) clientId) :: counts (insert (clientId, key) subs) clientId keys

def after (subs : Subscriptions) (clientId : Nat) : Cmd → Subscriptions
  | .subscribe keys => subs.subscribe clientId keys
  | .unsubscribe key => subs.erase (clientId, key)
  | _ => subs

theorem mem_subscribe {subs : Subscriptions} {clientId : Nat} {keys : List String} {s : Nat × String} :
    s ∈ subs.subscribe clientId keys ↔ s.1 = clientId ∧ s.2 ∈ keys ∨ s ∈ subs := by
  obtain ⟨id, key⟩ := s
  unfold subscribe
  induction keys generalizing subs with
  | nil => simp
  | cons k keys ih =>
    rw [List.foldl_cons, ih, Finset.mem_insert, Prod.mk.injEq, List.mem_cons]
    tauto

theorem count_insert {subs : Subscriptions} {clientId : Nat} {key : String} (h : (clientId, key) ∉ subs) :
    count (insert (clientId, key) subs) clientId = 1 + subs.count clientId := by
  unfold count
  rw [Finset.filter_insert, if_pos rfl, Finset.card_insert_of_notMem fun hin => h (Finset.mem_filter.mp hin).1,
    Nat.add_comm]

theorem count_pos_iff {subs : Subscriptions} {clientId : Nat} :
    subs.count clientId ≠ 0 ↔ ∃ key, (clientId, key) ∈ subs := by
  unfold count
  rw [Finset.card_ne_zero]
  constructor
  · rintro ⟨⟨id, key⟩, hin⟩
    obtain ⟨hsub, rfl⟩ := Finset.mem_filter.mp hin
    exact ⟨key, hsub⟩
  · rintro ⟨key, hin⟩
    exact ⟨_, Finset.mem_filter.mpr ⟨hin, rfl⟩⟩

end Subscriptions

namespace CmdHandler

def Members (channels : HashMap String (HashSet Nat)) (subs : Subscriptions) : Prop :=
  ∀ id key, (id, key) ∈ subs ↔ ∃ set, channels.lookup key = some set ∧ id ∈ set

section
variable {channels : HashMap String (HashSet Nat)} {subs : Subscriptions} {clientId : Nat} {key : String}

/-! ## One channel -/

theorem channelCount_eq (h : Members channels subs) (id : Nat) : channelCount channels id = subs.count id := by
  have hcount : channelCount channels id =
      ((channels.toPairs.filter fun e => id ∈ e.2).map fun e => (id, e.1)).length := by
    rw [List.length_map, ← List.countP_eq_length_filter, HashMap.toPairs, List.countP_map, channelCount, HashMap.values,
      List.countP_map]
    rfl
  have hnodup : ((channels.toPairs.filter fun e => id ∈ e.2).map fun e => (id, e.1)).Nodup := by
    have hkeys : ((channels.toPairs.filter fun e => id ∈ e.2).map Prod.fst).Nodup :=
      channels.nodup_toPairs.sublist (List.filter_sublist.map Prod.fst)
    have hpair := hkeys.map (f := fun key : String => (id, key)) fun _ _ heq => (Prod.mk.inj heq).2
    rwa [List.map_map] at hpair
  have hset : subs.filter (fun s => s.1 = id) =
      ((channels.toPairs.filter fun e => id ∈ e.2).map fun e => (id, e.1)).toFinset := by
    ext ⟨id', key⟩
    simp only [Finset.mem_filter, List.mem_toFinset, List.mem_map, List.mem_filter, decide_eq_true_eq, Prod.mk.injEq]
    constructor
    · rintro ⟨hin, rfl⟩
      obtain ⟨set, hl, hid⟩ := (h id' key).mp hin
      exact ⟨(key, set), ⟨HashMap.mem_toPairs.mpr hl, hid⟩, rfl, rfl⟩
    · rintro ⟨⟨key', set⟩, ⟨he, hid⟩, rfl, rfl⟩
      exact ⟨(h id key').mpr ⟨set, HashMap.mem_toPairs.mp he, hid⟩, rfl⟩
  rw [hcount, Subscriptions.count, hset, List.toFinset_card_of_nodup hnodup]

theorem Members.join (h : Members channels subs) (clientId : Nat) (key : String) :
    Members (joinChannel clientId channels key) (insert (clientId, key) subs) := by
  intro id k
  rw [Finset.mem_insert, Prod.mk.injEq, h id k]
  unfold joinChannel
  by_cases hk : k = key
  · subst hk
    rw [HashMap.lookup_modify, HashMap.lookup_orInsert, Option.map_some]
    simp only [Option.some.injEq, exists_eq_left', HashMap.mem_put, and_true]
    cases channels.lookup k with
    | none => simp
    | some set => simp
  · rw [HashMap.lookup_modify_ne hk, HashMap.lookup_orInsert_ne hk]
    simp [hk]

theorem Members.leave (h : Members channels subs) (clientId : Nat) (key : String) :
    Members (channels.modify key fun set => set.erase clientId) (subs.erase (clientId, key)) := by
  intro id k
  rw [Finset.mem_erase, Ne, Prod.mk.injEq, h id k]
  by_cases hk : k = key
  · subst hk
    rw [HashMap.lookup_modify]
    cases channels.lookup k with
    | none => simp
    | some set => simp [AList.mem_erase]
  · rw [HashMap.lookup_modify_ne hk]
    simp [hk]

/-! ## SUBSCRIBE -/

def joinAll (known : Bool) (clientId : Nat) (channels : HashMap String (HashSet Nat)) (responses : Bytes)
    (keys : List String) : HashMap String (HashSet Nat) × Bytes :=
  keys.foldl (fun (acc : HashMap String (HashSet Nat) × Bytes) key =>
    (joinChannel clientId acc.1 key, acc.2 ++ subscribeReply known acc.1 (joinChannel clientId acc.1 key) clientId key))
    (channels, responses)

theorem joinAll_members (h : Members channels subs) (known : Bool) (responses : Bytes) (keys : List String) :
    Members (joinAll known clientId channels responses keys).1 (subs.subscribe clientId keys) := by
  unfold joinAll Subscriptions.subscribe
  induction keys generalizing channels subs responses with
  | nil => exact h
  | cons key keys ih => exact ih (h.join clientId key) _

def countFrames (kw : String) (counts : List (String × Nat)) : Bytes :=
  counts.flatMap fun c => (channelReply kw c.1 c.2).frame

theorem joinAll_known (h : Members channels subs) (responses : Bytes) (keys : List String) :
    (joinAll true clientId channels responses keys).2 =
      responses ++ countFrames "subscribe" (subs.counts clientId keys) := by
  induction keys generalizing channels subs responses with
  | nil => simp [joinAll, countFrames, Subscriptions.counts]
  | cons key keys ih =>
    have hjoin := h.join clientId key
    have hreply : subscribeReply true channels (joinChannel clientId channels key) clientId key =
        (channelReply "subscribe" key (Subscriptions.count (insert (clientId, key) subs) clientId)).frame := by
      rw [subscribeReply, if_pos rfl, channelCount_eq hjoin]
    have hstep : joinAll true clientId channels responses (key :: keys) =
        joinAll true clientId (joinChannel clientId channels key)
          (responses ++ subscribeReply true channels (joinChannel clientId channels key) clientId key) keys := rfl
    rw [hstep, ih hjoin, hreply, List.append_assoc]
    rfl

/-- A new subscriber is told the right counts if no name comes twice. -/
theorem joinAll_new (h : Members channels subs) (responses : Bytes) {keys : List String} (hn : keys.Nodup)
    (hnew : ∀ key ∈ keys, (clientId, key) ∉ subs) :
    (joinAll false clientId channels responses keys).2 =
      responses ++ countFrames "subscribe" (subs.counts clientId keys) := by
  induction keys generalizing channels subs responses with
  | nil => simp [joinAll, countFrames, Subscriptions.counts]
  | cons key keys ih =>
    obtain ⟨hkey, hn⟩ := List.nodup_cons.mp hn
    have hjoin := h.join clientId key
    have hreply : subscribeReply false channels (joinChannel clientId channels key) clientId key =
        (channelReply "subscribe" key (Subscriptions.count (insert (clientId, key) subs) clientId)).frame := by
      rw [Subscriptions.count_insert (hnew key (List.mem_cons_self ..)), subscribeReply, if_neg Bool.false_ne_true,
        channelCount_eq h]
    have hstep : joinAll false clientId channels responses (key :: keys) =
        joinAll false clientId (joinChannel clientId channels key)
          (responses ++ subscribeReply false channels (joinChannel clientId channels key) clientId key) keys := rfl
    have hrest : ∀ k ∈ keys, (clientId, k) ∉ insert (clientId, key) subs := by
      intro k hk hin
      rcases Finset.mem_insert.mp hin with heq | hin
      · exact hkey ((Prod.mk.inj heq).2 ▸ hk)
      · exact hnew k (List.mem_cons_of_mem key hk) hin
    rw [hstep, ih hjoin _ hn hrest, hreply, List.append_assoc]
    rfl

theorem mem_joinChannel_iff {key k : String} : k ∈ joinChannel clientId channels key ↔ k = key ∨ k ∈ channels := by
  unfold joinChannel
  rw [← AList.lookup_isSome, ← AList.lookup_isSome]
  by_cases hk : k = key
  · subst hk
    rw [HashMap.lookup_modify, HashMap.lookup_orInsert]
    simp
  · rw [HashMap.lookup_modify_ne hk, HashMap.lookup_orInsert_ne hk]
    simp [hk]

theorem joinAll_lookup (known : Bool) (responses : Bytes) (keys : List String) (k : String) :
    k ∈ (joinAll known clientId channels responses keys).1 ↔ k ∈ keys ∨ k ∈ channels := by
  unfold joinAll
  induction keys generalizing channels responses with
  | nil => simp
  | cons key keys ih =>
    rw [List.foldl_cons, ih, mem_joinChannel_iff, List.mem_cons]
    tauto

end

/-! ## The state and the relation -/

/-- The sets are the subscriptions, and who has one is a subscriber. -/
structure Subscribed (h : CmdHandler) (subs : Subscriptions) : Prop where
  members : Members h.channels subs
  mode : ∀ id key, (id, key) ∈ subs → id ∈ h.subscribers

/-- A client is a subscriber if and only if it has a subscription. -/
def ModeExact (h : CmdHandler) (subs : Subscriptions) : Prop := ∀ id, id ∈ h.subscribers ↔ ∃ key, (id, key) ∈ subs

section
variable {h : CmdHandler} {subs : Subscriptions} {clientId : Nat}

theorem Subscribed.congr {h' : CmdHandler} (hs : h.Subscribed subs) (hc : h'.channels = h.channels)
    (hm : h'.subscribers = h.subscribers) : h'.Subscribed subs :=
  ⟨by rw [hc]; exact hs.members, by rw [hm]; exact hs.mode⟩

theorem cmdSubscribe_eq (h : CmdHandler) (keys : List String) (clientId : Nat) :
    cmdSubscribe h keys clientId =
      ({ h with
          subscribers := HashMap.put clientId () h.subscribers
          channels := (joinAll (h.isSubscriber clientId) clientId h.channels [] keys).1 },
        reply (.bytes (some (joinAll (h.isSubscriber clientId) clientId h.channels [] keys).2))) := rfl

theorem Subscribed.subscribe (hs : h.Subscribed subs) (keys : List String) (clientId : Nat) :
    (cmdSubscribe h keys clientId).1.Subscribed (subs.subscribe clientId keys) := by
  rw [cmdSubscribe_eq]
  refine ⟨joinAll_members hs.members _ _ _, fun id key hin => HashMap.mem_put.mpr ?_⟩
  rcases Subscriptions.mem_subscribe.mp hin with ⟨hid, _⟩ | hin
  · exact .inl hid
  · exact .inr (hs.mode id key hin)

/-- The mode is as it should be, unless a new subscriber names no channel. -/
theorem ModeExact.subscribe (hm : h.ModeExact subs) {keys : List String}
    (hkeys : clientId ∉ h.subscribers → keys ≠ []) :
    (cmdSubscribe h keys clientId).1.ModeExact (subs.subscribe clientId keys) := by
  intro id
  rw [cmdSubscribe_eq]
  simp only [HashMap.mem_put, Subscriptions.mem_subscribe]
  constructor
  · rintro (rfl | hin)
    · by_cases hknown : id ∈ h.subscribers
      · obtain ⟨key, hkey⟩ := (hm id).mp hknown
        exact ⟨key, .inr hkey⟩
      · obtain ⟨key, hkey⟩ := List.exists_mem_of_ne_nil keys (hkeys hknown)
        exact ⟨key, .inl ⟨rfl, hkey⟩⟩
    · obtain ⟨key, hkey⟩ := (hm id).mp hin
      exact ⟨key, .inr hkey⟩
  · rintro ⟨key, ⟨rfl, _⟩ | hin⟩
    · exact .inl rfl
    · exact .inr ((hm id).mpr ⟨key, hin⟩)

/-- The counts are right, unless a new subscriber names a channel twice. -/
theorem Subscribed.subscribe_counts (hs : h.Subscribed subs) {keys : List String}
    (hkeys : clientId ∉ h.subscribers → keys.Nodup) :
    (cmdSubscribe h keys clientId).2 =
      reply (.bytes (some (countFrames "subscribe" (subs.counts clientId keys)))) := by
  rw [cmdSubscribe_eq]
  cases hk : h.isSubscriber clientId with
  | true => rw [joinAll_known hs.members, List.nil_append]
  | false =>
    have hno : clientId ∉ h.subscribers := of_decide_eq_false hk
    rw [joinAll_new hs.members [] (hkeys hno) fun key _ hin => hno (hs.mode clientId key hin), List.nil_append]

/-! ## UNSUBSCRIBE -/

theorem Subscribed.unsubscribe (hs : h.Subscribed subs) (key : String) (clientId : Nat) :
    (cmdUnsubscribe h key clientId).1.Subscribed (subs.erase (clientId, key)) := by
  unfold cmdUnsubscribe
  split
  · refine ⟨hs.members.leave clientId key, fun id k hin => ?_⟩
    have hold := hs.mode id k (Finset.mem_erase.mp hin).2
    simp only
    split
    · rename_i hlast
      have hne : id ≠ clientId := by
        rintro rfl
        rw [channelCount_eq (hs.members.leave id key)] at hlast
        exact Subscriptions.count_pos_iff.mpr ⟨k, hin⟩ hlast.2
      exact AList.mem_erase.mpr ⟨hne, hold⟩
    · exact hold
  · rename_i hno
    have hnot : (clientId, key) ∉ subs := fun hin => hno (decide_eq_true (hs.mode clientId key hin))
    rw [Finset.erase_eq_of_notMem hnot]
    exact hs

theorem ModeExact.unsubscribe (hm : h.ModeExact subs) (hs : h.Subscribed subs) (key : String) (clientId : Nat) :
    (cmdUnsubscribe h key clientId).1.ModeExact (subs.erase (clientId, key)) := by
  have hafter := hs.unsubscribe key clientId
  intro id
  refine ⟨fun hin => ?_, fun ⟨k, hk⟩ => hafter.mode id k hk⟩
  unfold cmdUnsubscribe at hin
  split at hin
  · rename_i hknown
    simp only at hin
    rw [channelCount_eq (hs.members.leave clientId key)] at hin
    have hother : id ≠ clientId → id ∈ h.subscribers → ∃ k, (id, k) ∈ subs.erase (clientId, key) := by
      intro hne hin
      obtain ⟨k, hk⟩ := (hm id).mp hin
      exact ⟨k, Finset.mem_erase.mpr ⟨fun heq => hne (Prod.mk.inj heq).1, hk⟩⟩
    split at hin
    · obtain ⟨hne, hin⟩ := AList.mem_erase.mp hin
      exact hother hne hin
    · rename_i hmore
      by_cases hne : id = clientId
      · subst hne
        by_cases hk : key ∈ h.channels
        · exact Subscriptions.count_pos_iff.mp fun hzero => hmore ⟨hk, hzero⟩
        · -- a channel that does not exist has no subscription to end
          have hnot : (id, key) ∉ subs := fun hin => by
            obtain ⟨set, hl, _⟩ := (hs.members id key).mp hin
            exact hk (HashMap.mem_of_lookup hl)
          rw [Finset.erase_eq_of_notMem hnot]
          exact (hm id).mp (of_decide_eq_true hknown)
      · exact hother hne hin
  · rename_i hno
    have hnot : (clientId, key) ∉ subs := fun hin => hno (decide_eq_true (hs.mode clientId key hin))
    rw [Finset.erase_eq_of_notMem hnot]
    exact (hm id).mp hin

theorem Subscribed.unsubscribe_count (hs : h.Subscribed subs) (key : String) (clientId : Nat) :
    (cmdUnsubscribe h key clientId).2 = .ok none ∨
      (cmdUnsubscribe h key clientId).2 =
        reply (channelReply "unsubscribe" key (Subscriptions.count (subs.erase (clientId, key)) clientId)) := by
  unfold cmdUnsubscribe
  split
  · refine .inr ?_
    simp only
    rw [channelCount_eq (hs.members.leave clientId key)]
  · exact .inl rfl

/-! ## PUBLISH -/

theorem Subscribed.publish (hs : h.Subscribed subs) (o : IterOrder) (key message : String) :
    ∃ ids : List Nat, ids.Nodup ∧ (∀ id, id ∈ ids ↔ (id, key) ∈ subs) ∧
      (cmdPublish o h key message).1 =
        h.pushAll ids (RespType.arrayOf [.bulk "message", .bulk key, .bulk message]).frame ∧
      (cmdPublish o h key message).2 = if key ∈ h.channels then reply (.integer (some ids.length)) else .ok none := by
  unfold cmdPublish
  cases hl : h.channels.lookup key with
  | some set =>
    refine ⟨o.order set.keys, (o.perm _).nodup_iff.mpr set.keys_nodup, fun id => ?_, rfl, ?_⟩
    · rw [(o.perm _).mem_iff, hs.members id key, hl]
      simp [AList.mem_keys]
    · rw [if_pos (HashMap.mem_of_lookup hl), (o.perm _).length_eq]
  | none =>
    refine ⟨[], List.nodup_nil, fun id => ?_, by simp [pushAll], ?_⟩
    · rw [hs.members id key, hl]
      simp
    · rw [if_neg (AList.lookup_eq_none.mp hl)]

end

end CmdHandler

end Redis
