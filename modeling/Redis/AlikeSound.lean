import Redis.Alike
import Redis.Client

/-!
# Commands keep handlers alike
-/

namespace Redis

open Lib RequestRegistry

namespace CmdHandler

def Alike (F : Nat → Prop) (a b : CmdHandler) : Prop :=
  ∃ (g : CmdHandler) (X Y : SessionState), X.Alike F Y ∧ a = g.inSession X ∧ b = g.inSession Y

/-- What comes of two handlers that are alike: handlers that are alike, and results
that are in the relation, and are the same if the sessions of all clients agree. -/
structure Matched {α : Type} (F : Nat → Prop) (R : α → α → Prop) (x y : Option (CmdHandler × α)) : Prop where
  alike : ∀ a r b r', x = some (a, r) → y = some (b, r') → a.Alike F b ∧ R r r'
  same : (∀ id, ¬ F id) → x.map Prod.snd = y.map Prod.snd

def SameKind (r r' : CmdResult) : Prop := r = r' ∨ ∃ v v', r = .ok (some v) ∧ r' = .ok (some v')

structure Agrees (X Y : SessionState) (id : Nat) : Prop where
  backlogTxn : X.backlogTxn.lookup id = Y.backlogTxn.lookup id
  subscribers : id ∈ X.subscribers ↔ id ∈ Y.subscribers

section
variable {F : Nat → Prop} {α β : Type} {R : α → α → Prop} {S : β → β → Prop} {X Y : SessionState} {a b g : CmdHandler}

theorem Agrees.of_alike (h : X.Alike F Y) {id : Nat} (hid : ¬ F id) : Agrees X Y id :=
  ⟨h.backlogTxn id hid, h.subscribers id hid⟩

/-! ## Likeness -/

def plain (h : CmdHandler) : CmdHandler := { h.inSession {} with responseQueue := [] }

def full (h : CmdHandler) : SessionState := { h.sessions with queue := h.responseQueue }

theorem plain_full (h : CmdHandler) : h = h.plain.inSession h.full := by
  have hqueue : h.full.queue ++ h.plain.responseQueue = h.responseQueue := List.append_nil _
  have hframe : h.plain.inSession h.full = { h with responseQueue := h.full.queue ++ h.plain.responseQueue } := rfl
  rw [hframe, hqueue]

theorem alike_iff : a.Alike F b ↔ a.plain = b.plain ∧ a.full.Alike F b.full := by
  constructor
  · rintro ⟨g, X, Y, hs, rfl, rfl⟩
    exact ⟨rfl, hs.queued g.responseQueue⟩
  · rintro ⟨hplain, hfull⟩
    exact ⟨a.plain, a.full, b.full, hfull, plain_full a, by rw [hplain]; exact plain_full b⟩

theorem Alike.refl (F : Nat → Prop) (a : CmdHandler) : a.Alike F a := ⟨a, a.sessions, a.sessions, .refl _, rfl, rfl⟩

theorem Alike.mono {F' : Nat → Prop} (h : a.Alike F b) (hF : ∀ id, F id → F' id) : a.Alike F' b := by
  obtain ⟨g, X, Y, hs, rfl, rfl⟩ := h
  exact ⟨g, X, Y, hs.mono hF, rfl, rfl⟩

theorem Alike.symm (h : a.Alike F b) : b.Alike F a := by
  obtain ⟨g, X, Y, hs, rfl, rfl⟩ := h
  exact ⟨g, Y, X, hs.symm, rfl, rfl⟩

theorem Alike.trans {c : CmdHandler} (h : a.Alike F b) (h' : b.Alike F c) : a.Alike F c := by
  rw [alike_iff] at h h' ⊢
  exact ⟨h.1.trans h'.1, h.2.trans h'.2⟩

theorem Alike.timer (hab : a.Alike F b) : a.registry.timer = b.registry.timer := by
  obtain ⟨g, X, Y, _, rfl, rfl⟩ := hab
  rfl

theorem Alike.flags (hab : a.Alike F b) :
    a.flagBacklogList = b.flagBacklogList ∧ a.flagBacklogStream = b.flagBacklogStream := by
  obtain ⟨g, X, Y, _, rfl, rfl⟩ := hab
  exact ⟨rfl, rfl⟩

theorem SameKind.refl (r : CmdResult) : SameKind r r := .inl rfl

theorem Matched.none : Matched F R none none := ⟨fun _ _ _ _ h => (by cases h), fun _ => rfl⟩

theorem Matched.some {r r' : α} (h : a.Alike F b) (hR : R r r') (hsame : (∀ id, ¬ F id) → r = r') :
    Matched F R (some (a, r)) (some (b, r')) := by
  refine ⟨fun a₁ r₁ b₁ r₂ hx hy => ?_, fun hF => ?_⟩
  · cases hx
    cases hy
    exact ⟨h, hR⟩
  · rw [Option.map_some, Option.map_some, hsame hF]

theorem Matched.bind {x y : Option (CmdHandler × α)} {k k' : CmdHandler × α → Option (CmdHandler × β)}
    (h : Matched F R x y)
    (hk : ∀ a r b r', a.Alike F b → R r r' → ((∀ id, ¬ F id) → r = r') → Matched F S (k (a, r)) (k' (b, r'))) :
    Matched F S (x.bind k) (y.bind k') := by
  cases x with
  | none =>
    refine ⟨fun _ _ _ _ hx => (by cases hx), fun hF => ?_⟩
    have hnone : y = Option.none := by simpa using (h.same hF).symm
    rw [hnone]
    rfl
  | some u =>
    cases y with
    | none =>
      refine ⟨fun _ _ _ _ _ hy => (by cases hy), fun hF => ?_⟩
      cases h.same hF
    | some v =>
      obtain ⟨hab, hR⟩ := h.alike u.1 u.2 v.1 v.2 rfl rfl
      exact hk u.1 u.2 v.1 v.2 hab hR fun hF => Option.some.inj (h.same hF)

theorem Matched.map {x y : Option (CmdHandler × α)} {f : α → β} (h : Matched F R x y)
    (hf : ∀ r r', R r r' → S (f r) (f r')) :
    Matched F S (x.map fun u => (u.1, f u.2)) (y.map fun u => (u.1, f u.2)) := by
  rw [Option.map_eq_bind, Option.map_eq_bind]
  exact h.bind fun a r b r' hab hR hsame => .some hab (hf r r' hR) fun hF => by rw [hsame hF]

/-- What does the same in all sessions. -/
theorem Matched.natural {f : CmdHandler → Option (CmdHandler × α)} (hs : X.Alike F Y) (hR : ∀ r, R r r)
    (hf : ∀ X, f (g.inSession X) = (f g).map (Prod.map (inSession X) id)) :
    Matched F R (f (g.inSession X)) (f (g.inSession Y)) := by
  rw [hf X, hf Y]
  cases f g with
  | none => exact .none
  | some u => exact .some ⟨u.1, X, Y, hs, rfl, rfl⟩ (hR u.2) fun _ => rfl

/-! ## One command -/

variable {P : Platform} {o : IterOrder} {clientId : Nat}

theorem joinAll_alike (clientId : Nat) (known : Bool) (keys : List String) :
    ∀ {c c' : HashMap String (HashSet Nat)} (responses responses' : Bytes),
    (∀ key, key ∈ c ↔ key ∈ c') → (∀ id key, ¬ F id → (Joined c id key ↔ Joined c' id key)) →
    (∀ key, key ∈ (joinAll known clientId c responses keys).1 ↔ key ∈ (joinAll known clientId c' responses' keys).1) ∧
      (∀ id key, ¬ F id → (Joined (joinAll known clientId c responses keys).1 id key ↔
        Joined (joinAll known clientId c' responses' keys).1 id key)) ∧
      (¬ F clientId → responses = responses' → (joinAll known clientId c responses keys).2 =
        (joinAll known clientId c' responses' keys).2) := by
  induction keys with
  | nil => exact fun _ _ hkeys hjoined => ⟨hkeys, hjoined, fun _ h => h⟩
  | cons key keys ih =>
    intro c c' responses responses' hkeys hjoined
    have hkeys' : ∀ k, k ∈ joinChannel clientId c key ↔ k ∈ joinChannel clientId c' key := by
      intro k
      rw [mem_joinChannel_iff, mem_joinChannel_iff, hkeys]
    have hjoined' : ∀ id k, ¬ F id →
        (Joined (joinChannel clientId c key) id k ↔ Joined (joinChannel clientId c' key) id k) := by
      intro id k hid
      rw [joined_joinChannel, joined_joinChannel, hjoined id k hid]
    obtain ⟨h₁, h₂, h₃⟩ := ih (responses ++ subscribeReply known c (joinChannel clientId c key) clientId key)
      (responses' ++ subscribeReply known c' (joinChannel clientId c' key) clientId key) hkeys' hjoined'
    refine ⟨h₁, h₂, fun hid heq => h₃ hid ?_⟩
    have hbefore : channelCount c clientId = channelCount c' clientId :=
      channelCount_congr fun k => hjoined clientId k hid
    have hafter : channelCount (joinChannel clientId c key) clientId =
        channelCount (joinChannel clientId c' key) clientId :=
      channelCount_congr fun k => hjoined' clientId k hid
    rw [heq, subscribeReply, subscribeReply, hbefore, hafter]

theorem cmdSubscribe_matched (hs : X.Alike F Y) (ha : Agrees X Y clientId) (keys : List String) :
    Matched F SameKind (some (cmdSubscribe (g.inSession X) keys clientId))
      (some (cmdSubscribe (g.inSession Y) keys clientId)) := by
  have hknown : (g.inSession X).isSubscriber clientId = (g.inSession Y).isSubscriber clientId :=
    decide_eq_decide.mpr ha.subscribers
  rw [cmdSubscribe_eq, cmdSubscribe_eq, hknown]
  obtain ⟨hkeys, hjoined, hreplies⟩ := joinAll_alike clientId ((g.inSession Y).isSubscriber clientId) keys [] []
    hs.channels hs.joined
  have hsubs : ∀ id, ¬ F id →
      (id ∈ HashMap.put clientId () X.subscribers ↔ id ∈ HashMap.put clientId () Y.subscribers) := by
    intro id hid
    rw [HashMap.mem_put, HashMap.mem_put, hs.subscribers id hid]
  refine .some ⟨g, { X with
      subscribers := HashMap.put clientId () X.subscribers
      channels := (joinAll ((g.inSession Y).isSubscriber clientId) clientId X.channels [] keys).1 }, { Y with
      subscribers := HashMap.put clientId () Y.subscribers
      channels := (joinAll ((g.inSession Y).isSubscriber clientId) clientId Y.channels [] keys).1 },
    (hs.setSubscribers hsubs).setChannels hkeys hjoined, rfl, rfl⟩ (.inr ⟨_, _, rfl, rfl⟩) fun hF => ?_
  have hsame := hreplies (hF clientId) rfl
  exact congrArg (fun b => reply (.bytes (some b))) hsame

theorem cmdUnsubscribe_matched (hs : X.Alike F Y) (ha : Agrees X Y clientId) (key : String) :
    Matched F SameKind (some (cmdUnsubscribe (g.inSession X) key clientId))
      (some (cmdUnsubscribe (g.inSession Y) key clientId)) := by
  have hknown : (g.inSession X).isSubscriber clientId = (g.inSession Y).isSubscriber clientId :=
    decide_eq_decide.mpr ha.subscribers
  unfold cmdUnsubscribe
  rw [hknown]
  by_cases hin : (g.inSession Y).isSubscriber clientId = true
  · rw [if_pos hin, if_pos hin]
    let c := X.channels.modify key fun set => set.erase clientId
    let c' := Y.channels.modify key fun set => set.erase clientId
    have hkeys : ∀ k, k ∈ c ↔ k ∈ c' := fun k => mem_leave_iff.trans ((hs.channels k).trans mem_leave_iff.symm)
    have hjoined : ∀ id k, ¬ F id → (Joined c id k ↔ Joined c' id k) := by
      intro id k hid
      rw [joined_leave, joined_leave, hs.joined id k hid]
    have hcount : ¬ F clientId → channelCount c clientId = channelCount c' clientId := fun hid =>
      channelCount_congr fun k => hjoined clientId k hid
    let subs := if key ∈ X.channels ∧ channelCount c clientId = 0 then X.subscribers.erase clientId else X.subscribers
    let subs' := if key ∈ Y.channels ∧ channelCount c' clientId = 0 then Y.subscribers.erase clientId else Y.subscribers
    have hsubs : ∀ id, ¬ F id → (id ∈ subs ↔ id ∈ subs') := by
      intro id hid
      by_cases hc : id = clientId
      · subst hc
        simp only [subs, subs', hcount hid, hs.channels key]
        split
        · simp [AList.mem_erase]
        · exact hs.subscribers id hid
      · have hleft : id ∈ subs ↔ id ∈ X.subscribers := by
          simp only [subs]
          split
          · simp [AList.mem_erase, hc]
          · rfl
        have hright : id ∈ subs' ↔ id ∈ Y.subscribers := by
          simp only [subs']
          split
          · simp [AList.mem_erase, hc]
          · rfl
        rw [hleft, hright]
        exact hs.subscribers id hid
    refine .some ⟨g, { X with channels := c, subscribers := subs }, { Y with channels := c', subscribers := subs' },
      (hs.setSubscribers hsubs).setChannels hkeys hjoined, rfl, rfl⟩ (.inr ⟨_, _, rfl, rfl⟩) fun hF => ?_
    exact congrArg (fun n => reply (channelReply "unsubscribe" key n)) (hcount (hF clientId))
  · rw [if_neg hin, if_neg hin]
    exact .some ⟨g, X, Y, hs, rfl, rfl⟩ (.refl _) fun _ => rfl

theorem pushAll_alike (hs : X.Alike F Y) {ids ids' : List Nat} (hn : ids.Nodup) (hn' : ids'.Nodup)
    (hids : ∀ id, ¬ F id → (id ∈ ids ↔ id ∈ ids')) (message : Bytes) :
    ((g.inSession X).pushAll ids message).Alike F ((g.inSession Y).pushAll ids' message) := by
  have hqueue := (hs.queued g.responseQueue).pushed hn hn' hids message
  refine ⟨{ g with responseQueue := [] }, _, _, hqueue, ?_, ?_⟩
  · simp only [pushAll, inSession, List.append_nil]
    rfl
  · simp only [pushAll, inSession, List.append_nil]
    rfl

theorem cmdPublish_matched (hs : X.Alike F Y) (key message : String) :
    Matched F SameKind (some (cmdPublish o (g.inSession X) key message))
      (some (cmdPublish o (g.inSession Y) key message)) := by
  unfold cmdPublish
  have hx : (g.inSession X).channels = X.channels := rfl
  have hy : (g.inSession Y).channels = Y.channels := rfl
  rw [hx, hy]
  rcases HashMap.lookup_both (hs.channels key) with ⟨hl, hl'⟩ | ⟨set, set', hl, hl'⟩
  · rw [hl, hl']
    exact .some ⟨g, X, Y, hs, rfl, rfl⟩ (.refl _) fun _ => rfl
  · have hmem : ∀ id, ¬ F id → (id ∈ set ↔ id ∈ set') := by
      intro id hid
      have hjoined := hs.joined id key hid
      unfold Joined at hjoined
      rw [hl, hl'] at hjoined
      simpa using hjoined
    have hids : ∀ id, ¬ F id → (id ∈ o.order set.keys ↔ id ∈ o.order set'.keys) := by
      intro id hid
      rw [(o.perm _).mem_iff, (o.perm _).mem_iff]
      exact hmem id hid
    have hpushed := pushAll_alike hs (g := g) ((o.perm _).nodup_iff.mpr set.keys_nodup)
      ((o.perm _).nodup_iff.mpr set'.keys_nodup) hids
        (RespType.arrayOf [.bulk "message", .bulk key, .bulk message]).frame
    rw [hl, hl']
    refine .some hpushed (.inr ⟨_, _, rfl, rfl⟩) fun hF => ?_
    have hperm : set.keys.Perm set'.keys := (List.perm_ext_iff_of_nodup set.keys_nodup set'.keys_nodup).mpr
      fun id => hmem id (hF id)
    rw [hperm.length_eq]

theorem dispatch_matched {exec : CmdHandler → Nat → Option (CmdHandler × CmdResult)} {now : Nat} {isSubscriber : Bool}
    {epollFd : Option Int} {cmd : Cmd} (hs : X.Alike F Y) (ha : Agrees X Y clientId)
    (hexec : Matched F SameKind (exec (g.inSession X) clientId) (exec (g.inSession Y) clientId)) :
    Matched F SameKind (dispatch P o exec (g.inSession X) now isSubscriber clientId epollFd cmd)
      (dispatch P o exec (g.inSession Y) now isSubscriber clientId epollFd cmd) := by
  cases hc : cmd.ofSession with
  | false =>
    exact .natural (f := fun h => dispatch P o exec h now isSubscriber clientId epollFd cmd) hs .refl
      fun X => dispatch_inSession hc
  | true =>
    have hopen : (g.inSession X).registry.isTransaction clientId = (g.inSession Y).registry.isTransaction clientId := by
      have hmem : clientId ∈ X.backlogTxn ↔ clientId ∈ Y.backlogTxn := by
        rw [← AList.lookup_isSome, ← AList.lookup_isSome, ha.backlogTxn]
      exact decide_eq_decide.mpr hmem
    cases cmd <;> simp only [Cmd.ofSession, Bool.false_eq_true] at hc <;> simp only [dispatch]
    case exec => exact hexec
    case multi =>
      unfold cmdMulti
      rw [hopen]
      split
      · exact .some ⟨g, X, Y, hs, rfl, rfl⟩ (.refl _) fun _ => rfl
      · exact .some ⟨g, _, _, hs.insertTxn clientId [], rfl, rfl⟩ (.refl _) fun _ => rfl
    case discard =>
      unfold cmdDiscard
      rw [hopen]
      split
      · exact .some ⟨g, _, _, (hs.unwatch g.registry g.registry clientId).eraseTxn clientId, rfl, rfl⟩
          (.refl _) fun _ => rfl
      · exact .some ⟨g, X, Y, hs, rfl, rfl⟩ (.refl _) fun _ => rfl
    case watch keys =>
      exact .some ⟨g, _, _, hs.watch g.registry g.registry keys clientId, rfl, rfl⟩ (.refl _) fun _ => rfl
    case unwatch => exact .some ⟨g, _, _, hs.unwatch g.registry g.registry clientId, rfl, rfl⟩ (.refl _) fun _ => rfl
    case subscribe keys => exact cmdSubscribe_matched hs ha keys
    case unsubscribe key => exact cmdUnsubscribe_matched hs ha key
    case publish key message => exact cmdPublish_matched hs key message

theorem conclude_state {h h' : CmdHandler} {cmd : Cmd} {buf : Bytes} {isMaster serialized : Bool} {v : RespType}
    {out : Except CmdOutput CmdOutput} (hc : h.conclude o cmd buf isMaster serialized (.ok (some v)) = some (h', out)) :
    h' = ({ h with flagBacklogList := cmd.isFlagList, flagBacklogStream := cmd.isFlagStream }.propagate o cmd
      buf).countFromMaster buf isMaster := by
  simp only [conclude] at hc
  split at hc
  · split at hc
    · obtain ⟨_, _, heq⟩ := Option.map_eq_some_iff.mp hc
      exact (Prod.mk.inj heq).1.symm
    · cases hc
      rfl
  · cases hc
    rfl

theorem conclude_matched {cmd : Cmd} {buf : Bytes} {isMaster serialized : Bool} {r r' : CmdResult} (hs : X.Alike F Y)
    (hr : SameKind r r') (hsame : (∀ id, ¬ F id) → r = r') :
    Matched F (fun _ _ => True) ((g.inSession X).conclude o cmd buf isMaster serialized r)
      ((g.inSession Y).conclude o cmd buf isMaster serialized r') := by
  have hnatural : ∀ r, Matched F (fun _ _ => True) ((g.inSession X).conclude o cmd buf isMaster serialized r)
      ((g.inSession Y).conclude o cmd buf isMaster serialized r) := fun r =>
    .natural (f := fun h => h.conclude o cmd buf isMaster serialized r) hs (fun _ => trivial)
      fun X => conclude_inSession ..
  rcases hr with rfl | ⟨v, v', rfl, rfl⟩
  · exact hnatural _
  · refine ⟨fun a out b out' hx hy => ⟨?_, trivial⟩, fun hF => ?_⟩
    · have hboth : ∀ X : SessionState, ({ g.inSession X with
          flagBacklogList := cmd.isFlagList, flagBacklogStream := cmd.isFlagStream }.propagate o cmd
            buf).countFromMaster buf isMaster =
          (({ g with flagBacklogList := cmd.isFlagList, flagBacklogStream := cmd.isFlagStream }.propagate o cmd
            buf).countFromMaster buf isMaster).inSession X := by
        intro X
        rw [← countFromMaster_inSession, ← propagate_inSession]
        rfl
      rw [conclude_state hx, conclude_state hy, hboth X, hboth Y]
      exact ⟨_, X, Y, hs, rfl, rfl⟩
    · rw [hsame hF]
      exact (hnatural _).same hF

theorem prepare_inSession (X : SessionState) (h : CmdHandler) (cmd : Cmd) (buf : Bytes) (isMaster : Bool) :
    (h.inSession X).prepare cmd buf isMaster = (h.prepare cmd buf isMaster).map (inSession (X.dirtied cmd)) := by
  unfold prepare countWrite
  split
  · have hstats : (h.inSession X).appStates = h.appStates := rfl
    simp only [hstats]
    cases h.appStates.hostStats <;> rfl
  · rfl

theorem executeCmd_matched {exec : CmdHandler → Nat → Option (CmdHandler × CmdResult)} {cmd : Cmd} {buf : Bytes}
    {epollFd : Option Int} {serialized : Bool} (hs : X.Alike F Y) (ha : Agrees X Y clientId)
    (hexec : ∀ g : CmdHandler, Matched F SameKind (exec (g.inSession (X.dirtied cmd)) clientId)
      (exec (g.inSession (Y.dirtied cmd)) clientId)) :
    Matched F (fun _ _ => True) ((g.inSession X).executeCmd P o exec cmd buf clientId epollFd serialized)
      ((g.inSession Y).executeCmd P o exec cmd buf clientId epollFd serialized) := by
  have hknown : (g.inSession X).isSubscriber clientId = (g.inSession Y).isSubscriber clientId :=
    decide_eq_decide.mpr ha.subscribers
  have hrefuses : (g.inSession X).refuses clientId cmd = (g.inSession Y).refuses clientId cmd := by
    unfold refuses
    rw [hknown]
  have hmaster : ∀ X : SessionState, (g.inSession X).clientTable.isMaster clientId = g.clientTable.isMaster clientId :=
    fun _ => rfl
  have hnow : ∀ X : SessionState, (g.inSession X).registry.timer.now = g.registry.timer.now := fun _ => rfl
  unfold executeCmd
  rw [hrefuses, hknown]
  split
  · exact .some ⟨g, X, Y, hs, rfl, rfl⟩ trivial fun _ => rfl
  · simp only [Option.bind_eq_bind, hmaster, hnow, prepare_inSession]
    cases g.prepare cmd buf (g.clientTable.isMaster clientId) with
    | none => exact .none
    | some g' =>
      simp only [Option.map_some, Option.bind_some]
      have hagrees : Agrees (X.dirtied cmd) (Y.dirtied cmd) clientId := ⟨ha.backlogTxn, ha.subscribers⟩
      refine (dispatch_matched (hs.dirtied cmd) hagrees (hexec g')).bind fun a r b r' hab hr hsame => ?_
      obtain ⟨d, X', Y', hs', rfl, rfl⟩ := hab
      exact conclude_matched hs' hr hsame

/-! ## A call of `handle` -/

theorem runQueue_matched (hid : ¬ F clientId) (queue : List Queued) {a b : CmdHandler} (hab : a.Alike F b) :
    Matched F (fun _ _ => True) (runQueue P o clientId a queue) (runQueue P o clientId b queue) := by
  induction queue generalizing a b with
  | nil => exact .some hab trivial fun _ => rfl
  | cons q qs ih =>
    obtain ⟨g, X, Y, hs, rfl, rfl⟩ := hab
    simp only [runQueue, Option.bind_eq_bind]
    have hone : Matched F (fun _ _ => True) ((g.inSession X).executeQueued P o clientId q)
        ((g.inSession Y).executeQueued P o clientId q) :=
      executeCmd_matched hs ((.of_alike hs hid)) fun _ => .none
    refine hone.bind fun a out b out' hab _ hout => ?_
    refine (ih hab).bind fun a resps b resps' hab _ hresps => ?_
    exact .some hab trivial fun hF => by rw [hout hF, hresps hF]

theorem closeTxn_alike {a b : CmdHandler} (hab : a.Alike F b) (id : Nat) : (a.closeTxn id).Alike F (b.closeTxn id) := by
  obtain ⟨g, X, Y, hs, rfl, rfl⟩ := hab
  exact ⟨g, _, _, (hs.unwatch g.registry g.registry id).eraseTxn id, rfl, rfl⟩

theorem cmdExec_matched (hs : X.Alike F Y) (hid : ¬ F clientId) :
    Matched F (fun _ _ => True) (cmdExec P o (g.inSession X) clientId) (cmdExec P o (g.inSession Y) clientId) := by
  have hx : (g.inSession X).registry.backlogTxn = X.backlogTxn := rfl
  have hy : (g.inSession Y).registry.backlogTxn = Y.backlogTxn := rfl
  have hdirty : (g.inSession X).registry.isAnyDirty clientId = (g.inSession Y).registry.isAnyDirty clientId :=
    hs.isAnyDirty g.registry g.registry hid
  have hab : (g.inSession X).Alike F (g.inSession Y) := ⟨g, X, Y, hs, rfl, rfl⟩
  unfold cmdExec
  rw [hx, hy, hs.backlogTxn clientId hid, hdirty]
  cases Y.backlogTxn.lookup clientId with
  | none => exact .some hab trivial fun _ => rfl
  | some queue =>
    simp only
    split
    · exact .some (closeTxn_alike hab clientId) trivial fun _ => rfl
    · simp only [Option.bind_eq_bind]
      have hdrained : ((g.inSession X).drainTxn clientId).Alike F ((g.inSession Y).drainTxn clientId) :=
        ⟨g, _, _, hs.drainTxn clientId, rfl, rfl⟩
      refine (runQueue_matched hid queue hdrained).bind fun a resps b resps' hab _ hresps => ?_
      exact .some (closeTxn_alike hab clientId) trivial fun hF => by rw [hresps hF]

theorem orEmpty_matched {a b : CmdHandler} {r r' : CmdResult} (hab : a.Alike F b) (hsame : (∀ id, ¬ F id) → r = r') :
    Matched F (fun _ _ => True) (orEmpty (a, r)) (orEmpty (b, r')) := by
  refine ⟨fun a' out b' out' hx hy => ⟨?_, trivial⟩, fun hF => ?_⟩
  · rw [orEmpty_fst hx, orEmpty_fst hy]
    exact hab
  · rw [hsame hF]
    unfold orEmpty
    cases r' with
    | error e => rfl
    | ok v =>
      cases v with
      | none => rfl
      | some v => cases hv : v.serialize <;> simp [hv]

/-- A value of a client whose session agrees, unless it has a transaction open and
its session is one of those that may differ. -/
theorem handle_matched {cmd : Except CustomError Cmd} {buf : Bytes} {epollFd : Int} (hs : X.Alike F Y)
    (ha : Agrees X Y clientId) (hclosed : F clientId → X.backlogTxn.lookup clientId = none) :
    Matched F (fun _ _ => True) ((g.inSession X).handle P o cmd buf clientId epollFd)
      ((g.inSession Y).handle P o cmd buf clientId epollFd) := by
  have hab : (g.inSession X).Alike F (g.inSession Y) := ⟨g, X, Y, hs, rfl, rfl⟩
  cases cmd with
  | error e => exact .some hab trivial fun _ => rfl
  | ok c =>
    have hmem : clientId ∈ X.backlogTxn ↔ clientId ∈ Y.backlogTxn := by
      rw [← AList.lookup_isSome, ← AList.lookup_isSome, ha.backlogTxn]
    have hopen : (g.inSession X).registry.isTransaction clientId = (g.inSession Y).registry.isTransaction clientId :=
      decide_eq_decide.mpr hmem
    unfold handle
    simp only [hopen]
    cases hin : (g.inSession Y).registry.isTransaction clientId with
    | false =>
      simp only [Bool.not_false, if_true, Option.map_eq_bind]
      have hnone : Y.backlogTxn.lookup clientId = none := AList.lookup_eq_none.mpr (of_decide_eq_false hin)
      have hone : Matched F (fun _ _ => True) ((g.inSession X).execute P o c buf clientId epollFd)
          ((g.inSession Y).execute P o c buf clientId epollFd) := by
        refine executeCmd_matched hs ha fun g' => ?_
        -- EXEC outside a transaction
        have hx : (g'.inSession (X.dirtied c)).registry.backlogTxn.lookup clientId = none := ha.backlogTxn.trans hnone
        have hy : (g'.inSession (Y.dirtied c)).registry.backlogTxn.lookup clientId = none := hnone
        unfold cmdExec
        rw [hx, hy]
        exact .some ⟨g', _, _, hs.dirtied c, rfl, rfl⟩ (.refl _) fun _ => rfl
      refine hone.bind fun a out b out' hab _ hout => ?_
      exact .some hab trivial fun hF => by rw [hout hF]
    | true =>
      simp only [Bool.not_true, Bool.false_eq_true, if_false]
      have hid : ¬ F clientId := by
        intro hF
        have hnone := AList.lookup_eq_none.mp (hclosed hF)
        exact hnone (hmem.mpr (of_decide_eq_true hin))
      split
      · exact .some ⟨g, _, _, hs.pushTxn clientId _, rfl, rfl⟩ trivial fun _ => rfl
      · split
        · exact (cmdExec_matched hs hid).bind fun a r b r' hab _ hsame => orEmpty_matched hab hsame
        · have hdiscard : Matched F SameKind
              (dispatch P o (fun _ _ => Option.none) (g.inSession X) 0 false clientId Option.none .discard)
              (dispatch P o (fun _ _ => Option.none) (g.inSession Y) 0 false clientId Option.none .discard) :=
            dispatch_matched hs ha .none
          obtain ⟨hab', hkind⟩ := hdiscard.alike _ _ _ _ rfl rfl
          exact orEmpty_matched hab' fun hF => Option.some.inj (hdiscard.same hF)
        · exact .some hab trivial fun _ => rfl

/-! ## A completed value -/

def handlerFirst {γ : Type} (x : Option (TcpClient × CmdHandler × γ)) : Option (CmdHandler × TcpClient × γ) :=
  x.map fun u => (u.2.1, u.1, u.2.2)

theorem handshakeToMaster_matched {client : TcpClient} {cmd : Cmd} {buf : Bytes} {epollFd : Int} (hs : X.Alike F Y)
    (ha : Agrees X Y clientId) (hclosed : F clientId → X.backlogTxn.lookup clientId = none) :
    Matched F (fun r r' => r.1 = r'.1)
      (handlerFirst (client.handshakeToMaster P o (g.inSession X) cmd buf clientId epollFd))
      (handlerFirst (client.handshakeToMaster P o (g.inSession Y) cmd buf clientId epollFd)) := by
  have hab : (g.inSession X).Alike F (g.inSession Y) := ⟨g, X, Y, hs, rfl, rfl⟩
  have hstates : ∀ X : SessionState, (g.inSession X).appStates = g.appStates := fun _ => rfl
  unfold TcpClient.handshakeToMaster
  simp only [hstates]
  split
  · exact .some hab rfl fun _ => rfl
  · exact .some hab rfl fun _ => rfl
  · exact .some hab rfl fun _ => rfl
  · exact .some ⟨{ g with clientTable := g.clientTable.setMaster clientId }, X, Y, hs, rfl, rfl⟩ rfl fun _ => rfl
  · cases g.appStates.hostStats with
    | none => exact .some hab rfl fun _ => rfl
    | some stats =>
      exact .some
        ⟨{ g with appStates := { g.appStates with hostStats := some stats.startBytesCount } }, X, Y, hs, rfl, rfl⟩
        rfl fun _ => rfl
  · unfold handlerFirst
    rw [Option.map_map, Option.map_map]
    exact (handle_matched hs ha hclosed).map (f := fun r => (client, r)) fun _ _ _ => rfl

/-- The same value, taken up by clients of which neither is the link to the master unless they are the same. -/
theorem respond_matched {c c' : TcpClient} {epollFd : Int} {t : RespType} (hs : X.Alike F Y) (ha : Agrees X Y clientId)
    (hclosed : F clientId → X.backlogTxn.lookup clientId = none)
    (hc : c = c' ∨ F clientId ∧ c.replState.status ≠ some .master ∧ c'.replState.status ≠ some .master) :
    Matched F (fun r r' => c = c' → r.1 = r'.1) (handlerFirst (c.respond P o (g.inSession X) clientId epollFd t))
      (handlerFirst (c'.respond P o (g.inSession Y) clientId epollFd t)) := by
  have hab : (g.inSession X).Alike F (g.inSession Y) := ⟨g, X, Y, hs, rfl, rfl⟩
  have hauth : ∀ X : SessionState, (g.inSession X).auth = g.auth := fun _ => rfl
  have hclients : (∀ id, ¬ F id) → c = c' := fun hF => hc.resolve_right fun h => hF clientId h.1
  have hplain : ∀ cmd buf, Matched F (fun r r' => c = c' → r.1 = r'.1)
      (handlerFirst (((g.inSession X).handle P o cmd buf clientId epollFd).map fun u => (c, u.1, returned u.2)))
      (handlerFirst (((g.inSession Y).handle P o cmd buf clientId epollFd).map fun u => (c', u.1, returned u.2))) := by
    intro cmd buf
    have hone : Matched F (fun _ _ => True) ((g.inSession X).handle P o cmd buf clientId epollFd)
        ((g.inSession Y).handle P o cmd buf clientId epollFd) := handle_matched hs ha hclosed
    unfold handlerFirst
    rw [Option.map_map, Option.map_map, Option.map_eq_bind, Option.map_eq_bind]
    refine hone.bind fun a r b r' hab _ hsame => ?_
    exact .some hab id fun hF => by rw [hclients hF, hsame hF]
  unfold TcpClient.respond
  simp only [hauth]
  split
  · rename_i buf cmd _ _
    split
    · exact .some hab id fun hF => by rw [hclients hF]
    · rcases hc with rfl | ⟨_, hmaster, hmaster'⟩
      · split
        · have hone : Matched F (fun r r' => r.1 = r'.1)
              (handlerFirst (c.handshakeToMaster P o (g.inSession X) cmd buf clientId epollFd))
              (handlerFirst (c.handshakeToMaster P o (g.inSession Y) cmd buf clientId epollFd)) :=
            handshakeToMaster_matched hs ha hclosed
          have hmap := hone.map (f := fun r => (r.1, returned r.2)) (S := fun r r' => c = c → r.1 = r'.1)
            fun _ _ hr _ => hr
          unfold handlerFirst at hmap ⊢
          rw [Option.map_map, Option.map_map] at hmap ⊢
          exact hmap
        · exact hplain _ _
      · split
        · rename_i hstatus
          exact absurd hstatus hmaster
        · exact hplain _ _
  · exact hplain _ _
  · exact .none

/-! ## The backlogs and the timer -/

theorem serve_alike (o o' : IterOrder) (hab : a.Alike F b) :
    ((a.serveBacklogList o).serveBacklogStream o').Alike F ((b.serveBacklogList o).serveBacklogStream o') := by
  obtain ⟨g, X, Y, hs, rfl, rfl⟩ := hab
  simp only [serveBacklogList_inSession, serveBacklogStream_inSession]
  exact ⟨_, X, Y, hs, rfl, rfl⟩

theorem expire_alike {a' : CmdHandler} (hab : a.Alike F b) (ha : a.disarm.callbackDeadlineExpire = some a') :
    ∃ b', b.disarm.callbackDeadlineExpire = some b' ∧ a'.Alike F b' := by
  obtain ⟨g, X, Y, hs, rfl, rfl⟩ := hab
  have hdisarm : ∀ X : SessionState, (g.inSession X).disarm = g.disarm.inSession X := fun _ => rfl
  rw [hdisarm, callbackDeadlineExpire_inSession] at ha ⊢
  obtain ⟨d, hd, rfl⟩ := Option.map_eq_some_iff.mp ha
  exact ⟨d.inSession Y, by rw [hd]; rfl, d, X, Y, hs, rfl, rfl⟩

end

end CmdHandler

end Redis
