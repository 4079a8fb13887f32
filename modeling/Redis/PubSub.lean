import Redis.Channels

/-!
# Runs of SUBSCRIBE, UNSUBSCRIBE and PUBLISH

Clients send the three commands in any order, and now and then the queue of
responses is written out. Beside the handler a run keeps the subscriptions that
were made and not ended, the channels that were ever named, and the publishes
that were executed with the subscriptions at that time.
-/

namespace Redis

open Lib CmdHandler

def Cmd.isChannelCmd : Cmd → Bool
  | .subscribe _ | .unsubscribe _ | .publish .. => true
  | _ => false

def Cmd.names : Cmd → List String
  | .subscribe channels => channels
  | _ => []

def messageFrame (key message : String) : Bytes :=
  (RespType.arrayOf [.bulk "message", .bulk key, .bulk message]).frame

structure Published where
  key : String
  message : String
  subs : Subscriptions

structure PubSub where
  handler : CmdHandler
  subs : Subscriptions := ∅
  named : List String := []
  published : List Published := []
  /-- What was written out of `response_queue`. -/
  delivered : List (Nat × Bytes) := []

namespace PubSub

inductive Event where
  | command (o : IterOrder) (cmd : Cmd) (channel : cmd.isChannelCmd = true) (buf : Bytes) (clientId : Nat)
      (epollFd : Int)
  | drain

def publishes (s : PubSub) (clientId : Nat) : Cmd → List Published
  | .publish key message => if s.handler.refuses clientId (.publish key message) then [] else [⟨key, message, s.subs⟩]
  | _ => []

def after (s : PubSub) (clientId : Nat) (cmd : Cmd) (handler : CmdHandler) : PubSub :=
  { s with
    handler
    subs := s.subs.after clientId cmd
    named := s.named ++ cmd.names
    published := s.published ++ s.publishes clientId cmd }

def step (P : Platform) (s : PubSub) : Event → Option PubSub
  | .command o cmd _ buf clientId epollFd =>
    (s.handler.handle P o (.ok cmd) buf clientId epollFd).map fun r => s.after clientId cmd r.1
  | .drain =>
    some { s with
      handler := { s.handler with responseQueue := [] }
      delivered := s.delivered ++ s.handler.responseQueue }

abbrev Steps (P : Platform) (s : PubSub) (e : Event) (s' : PubSub) : Prop := s.step P e = some s'

def messagesFor (s : PubSub) (clientId : Nat) : List Bytes :=
  ((s.delivered ++ s.handler.responseQueue).filter fun m => m.1 = clientId).map Prod.snd

def dueOf (published : List Published) (clientId : Nat) : List Bytes :=
  published.filterMap fun p => if (clientId, p.key) ∈ p.subs then some (messageFrame p.key p.message) else none

structure Sound (s : PubSub) : Prop where
  subscribed : s.handler.Subscribed s.subs
  named : ∀ key, key ∈ s.handler.channels ↔ key ∈ s.named
  closed : s.handler.registry.backlogTxn = ∅
  due : ∀ id, s.messagesFor id = dueOf s.published id

end PubSub

namespace CmdHandler

def channelCmd (o : IterOrder) (h : CmdHandler) (clientId : Nat) : Cmd → CmdHandler × CmdResult
  | .subscribe keys => cmdSubscribe h keys clientId
  | .unsubscribe key => cmdUnsubscribe h key clientId
  | .publish key message => cmdPublish o h key message
  | _ => (h, .ok none)

def replyBytes : CmdResult → Bytes
  | .ok (some t) => t.frame
  | _ => []

/-- `h'` has the channels and the queue of `h`, and the rest of `h₀`. -/
structure ChannelsOf (h₀ h h' : CmdHandler) : Prop where
  channels : h'.channels = h.channels
  subscribers : h'.subscribers = h.subscribers
  responseQueue : h'.responseQueue = h.responseQueue
  backlogTxn : h'.registry.backlogTxn = h₀.registry.backlogTxn

section
variable {P : Platform} {o : IterOrder} {h h' : CmdHandler} {cmd : Cmd} {clientId : Nat}

theorem channelCmd_prepared (o : IterOrder) (h : CmdHandler) (clientId : Nat) (cmd : Cmd) (s : AppStates) :
    (channelCmd o (h.prepared cmd s) clientId cmd).2 = (channelCmd o h clientId cmd).2 ∧
      ChannelsOf h (channelCmd o h clientId cmd).1 (channelCmd o (h.prepared cmd s) clientId cmd).1 := by
  have hsub : (h.prepared cmd s).isSubscriber clientId = h.isSubscriber clientId := rfl
  cases cmd with
  | subscribe keys => exact ⟨rfl, rfl, rfl, rfl, rfl⟩
  | unsubscribe key =>
    simp only [channelCmd, cmdUnsubscribe, hsub]
    split
    · exact ⟨rfl, rfl, rfl, rfl, rfl⟩
    · exact ⟨rfl, rfl, rfl, rfl, rfl⟩
  | publish key message =>
    have hchannels : (h.prepared (.publish key message) s).channels = h.channels := rfl
    simp only [channelCmd, cmdPublish, hchannels]
    split
    · exact ⟨rfl, rfl, rfl, rfl, rfl⟩
    · exact ⟨rfl, rfl, rfl, rfl, rfl⟩
  | _ => exact ⟨rfl, rfl, rfl, rfl, rfl⟩

theorem channelCmd_serialize (o : IterOrder) (h : CmdHandler) (clientId : Nat) (cmd : Cmd) :
    (channelCmd o h clientId cmd).2 = .ok none ∨
      ∃ t b, (channelCmd o h clientId cmd).2 = .ok (some t) ∧ t.serialize = some b := by
  cases cmd with
  | subscribe keys => exact .inr ⟨_, _, rfl, rfl⟩
  | unsubscribe key =>
    simp only [channelCmd, cmdUnsubscribe]
    split
    · exact .inr ⟨_, _, rfl, rfl⟩
    · exact .inl rfl
  | publish key message =>
    simp only [channelCmd, cmdPublish]
    split
    · exact .inr ⟨_, _, rfl, rfl⟩
    · exact .inl rfl
  | _ => exact .inl rfl

theorem handle_channelCmd (hcmd : cmd.isChannelCmd = true) (hclosed : h.registry.isTransaction clientId = false)
    (hallowed : h.refuses clientId cmd = false) (buf : Bytes) (epollFd : Int) :
    ∃ h', h.handle P o (.ok cmd) buf clientId epollFd =
        some (h', .ok (if h.clientTable.isMaster clientId then [] else replyBytes (channelCmd o h clientId cmd).2)) ∧
      ChannelsOf h (channelCmd o h clientId cmd).1 h' := by
  have hquiet : cmd.toBeBroadcast = false ∧ cmd.alwaysResponse = false := by
    cases cmd <;> first | exact ⟨rfl, rfl⟩ | cases hcmd
  have hprep : ∀ isMaster, h.prepare cmd buf isMaster = some (h.prepared cmd h.appStates) := fun isMaster => by
    unfold prepare countWrite
    rw [hquiet.1]
    rfl
  have hdispatch : ∀ exec, dispatch P o exec (h.prepared cmd h.appStates) h.registry.timer.now (h.isSubscriber clientId)
      clientId (some epollFd) cmd = some (channelCmd o (h.prepared cmd h.appStates) clientId cmd) := by
    intro exec
    cases cmd <;> first | rfl | cases hcmd
  obtain ⟨hresult, hsame⟩ := channelCmd_prepared o h clientId cmd h.appStates
  have hne : ¬ h.refuses clientId cmd = true := by rw [hallowed]; exact Bool.false_ne_true
  unfold handle execute executeCmd
  simp only [hclosed, Bool.not_false, if_true]
  rw [if_neg hne]
  simp only [hprep, hdispatch, Option.bind_eq_bind, Option.bind_some]
  generalize channelCmd o (h.prepared cmd h.appStates) clientId cmd = x at hresult hsame ⊢
  obtain ⟨dispatched, r⟩ := x
  obtain rfl : r = (channelCmd o h clientId cmd).2 := hresult
  rcases channelCmd_serialize o h clientId cmd with hnone | ⟨t, b, hsome, hb⟩
  · rw [hnone]
    exact ⟨dispatched, by simp [conclude, CmdOutput.extractBytes, replyBytes], hsame⟩
  · have hpropagate : ∀ g : CmdHandler, g.propagate o cmd buf = g := fun g => by
      rw [propagate, hquiet.1]
      rfl
    rw [hsome]
    simp only [conclude, hpropagate, hquiet.2, Bool.or_false]
    cases h.clientTable.isMaster clientId with
    | true => exact ⟨_, rfl, hsame.1, hsame.2, hsame.3, hsame.4⟩
    | false =>
      simp only [countFromMaster, Bool.false_eq_true, if_false, Bool.not_false, if_true,
        hb, Option.map_some, replyBytes, RespType.frame, Option.getD_some, CmdOutput.extractBytes]
      exact ⟨_, rfl, hsame.1, hsame.2, hsame.3, hsame.4⟩

theorem handle_refused (hclosed : h.registry.isTransaction clientId = false) (hrefused : h.refuses clientId cmd = true)
    (buf : Bytes) (epollFd : Int) :
    h.handle P o (.ok cmd) buf clientId epollFd = some (h, .error (subscriberError cmd).intoErrorBytes) := by
  unfold handle execute executeCmd
  simp only [hclosed, Bool.not_false, if_true]
  rw [if_pos hrefused]
  rfl

end

end CmdHandler

namespace PubSub

section
variable {P : Platform} {s s' : PubSub}

/-! ## One event -/

theorem Sound.idle (h : s.Sound) (id : Nat) : s.handler.registry.isTransaction id = false := by
  rw [RequestRegistry.isTransaction, h.closed]
  exact decide_eq_false (AList.notMem_empty id)

/-- The queue of responses after a command that is not refused. -/
theorem Sound.channelCmd_queue (h : s.Sound) {o : IterOrder} {cmd : Cmd} {clientId : Nat}
    (hcmd : cmd.isChannelCmd = true)
    (hallowed : s.handler.refuses clientId cmd = false) (id : Nat) :
    ((channelCmd o s.handler clientId cmd).1.responseQueue.filter fun m => m.1 = id).map Prod.snd =
      (s.handler.responseQueue.filter fun m => m.1 = id).map Prod.snd ++ dueOf (s.publishes clientId cmd) id := by
  cases cmd with
  | subscribe keys => exact (List.append_nil _).symm
  | unsubscribe key =>
    have hsame : (channelCmd o s.handler clientId (.unsubscribe key)).1.responseQueue = s.handler.responseQueue := by
      simp only [channelCmd, cmdUnsubscribe]
      split <;> rfl
    rw [hsame]
    exact (List.append_nil _).symm
  | publish key message =>
    obtain ⟨ids, hnodup, hids, hpushed, _⟩ := h.subscribed.publish o key message
    have hone : (fun m : Nat × Bytes => decide (m.1 = id)) ∘ (fun i => (i, messageFrame key message)) =
        fun i => decide (i = id) := rfl
    have hframes : ((ids.map fun i => (i, messageFrame key message)).filter fun m => m.1 = id).map Prod.snd =
        if (id, key) ∈ s.subs then [messageFrame key message] else [] := by
      rw [List.filter_map, List.map_map, hone, List.filter_eq]
      split
      · rename_i hin
        rw [List.count_eq_one_of_mem hnodup ((hids id).mpr hin)]
        rfl
      · rename_i hout
        rw [List.count_eq_zero_of_not_mem fun hin => hout ((hids id).mp hin)]
        rfl
    have hpublishes : s.publishes clientId (.publish key message) = [⟨key, message, s.subs⟩] := by
      rw [publishes, hallowed, if_neg Bool.false_ne_true]
    rw [channelCmd, hpushed, hpublishes]
    simp only [pushAll, List.filter_append, List.map_append]
    refine congrArg _ (hframes.trans ?_)
    simp only [dueOf, List.filterMap_cons, List.filterMap_nil]
    split <;> rfl
  | _ => cases hcmd

theorem Sound.channelCmd_named (h : s.Sound) {o : IterOrder} {cmd : Cmd} {clientId : Nat}
    (hcmd : cmd.isChannelCmd = true)
    (key : String) : key ∈ (channelCmd o s.handler clientId cmd).1.channels ↔ key ∈ s.named ++ cmd.names := by
  rw [List.mem_append, ← h.named key]
  cases cmd with
  | subscribe keys =>
    have hjoined := @joinAll_lookup s.handler.channels clientId (s.handler.isSubscriber clientId) [] keys key
    simp only [channelCmd, cmdSubscribe_eq, Cmd.names]
    rw [hjoined, or_comm]
  | unsubscribe k =>
    simp only [channelCmd, cmdUnsubscribe, Cmd.names, List.not_mem_nil, or_false]
    split
    · simp only
      rw [← AList.lookup_isSome, ← AList.lookup_isSome]
      by_cases hk : key = k
      · subst hk
        rw [HashMap.lookup_modify, Option.isSome_map]
      · rw [HashMap.lookup_modify_ne hk]
    · rfl
  | publish k message =>
    obtain ⟨_, _, _, hpushed, _⟩ := h.subscribed.publish o k message
    rw [channelCmd, hpushed]
    simp [Cmd.names, pushAll]
  | _ => cases hcmd

theorem Sound.channelCmd_subscribed (h : s.Sound) {o : IterOrder} {cmd : Cmd} {clientId : Nat}
    (hcmd : cmd.isChannelCmd = true) :
    (channelCmd o s.handler clientId cmd).1.Subscribed (s.subs.after clientId cmd) := by
  cases cmd with
  | subscribe keys => exact h.subscribed.subscribe keys clientId
  | unsubscribe key => exact h.subscribed.unsubscribe key clientId
  | publish key message =>
    obtain ⟨_, _, _, hpushed, _⟩ := h.subscribed.publish o key message
    rw [channelCmd, hpushed]
    exact h.subscribed.congr rfl rfl
  | _ => cases hcmd

/-- A command that is not refused: the handler is as after the command alone. -/
theorem Sound.command (h : s.Sound) {o : IterOrder} {cmd : Cmd} {clientId : Nat} (hcmd : cmd.isChannelCmd = true)
    (hallowed : s.handler.refuses clientId cmd = false) {h' : CmdHandler}
    (hh : ChannelsOf s.handler (channelCmd o s.handler clientId cmd).1 h') : (s.after clientId cmd h').Sound where
  subscribed := (h.channelCmd_subscribed hcmd).congr hh.channels hh.subscribers
  named := fun key => by
    rw [after, hh.channels]
    exact h.channelCmd_named hcmd key
  closed := hh.backlogTxn.trans h.closed
  due := fun id => by
    have hold := h.due id
    have hqueue := h.channelCmd_queue (o := o) hcmd hallowed id
    rw [← hh.responseQueue] at hqueue
    unfold messagesFor at hold ⊢
    simp only [after]
    rw [List.filter_append, List.map_append] at hold ⊢
    rw [hqueue, ← List.append_assoc, hold, dueOf, dueOf, dueOf, List.filterMap_append]

theorem after_refused {cmd : Cmd} {clientId : Nat} (hcmd : cmd.isChannelCmd = true)
    (hrefused : s.handler.refuses clientId cmd = true) : s.after clientId cmd s.handler = s := by
  cases cmd with
  | publish key message =>
    rw [after, publishes, if_pos hrefused]
    simp [Subscriptions.after, Cmd.names]
  | subscribe keys =>
    rw [refuses, Bool.and_comm] at hrefused
    cases hrefused
  | unsubscribe key =>
    rw [refuses, Bool.and_comm] at hrefused
    cases hrefused
  | _ => cases hcmd

theorem Sound.drain (h : s.Sound) :
    Sound { s with
      handler := { s.handler with responseQueue := [] }
      delivered := s.delivered ++ s.handler.responseQueue } where
  subscribed := h.subscribed.congr rfl rfl
  named := h.named
  closed := h.closed
  due := fun id => by
    rw [← h.due id, messagesFor, messagesFor, List.append_nil]

theorem step_sound {e : Event} (hs : Steps P s e s') (h : s.Sound) : s'.Sound := by
  cases e with
  | drain =>
    cases hs
    exact h.drain
  | command o cmd hcmd buf clientId epollFd =>
    obtain ⟨r, hr, rfl⟩ := Option.map_eq_some_iff.mp hs
    cases hallowed : s.handler.refuses clientId cmd with
    | false =>
      obtain ⟨h', hh', hof⟩ := handle_channelCmd (P := P) (o := o) hcmd (h.idle clientId) hallowed buf epollFd
      cases hh'.symm.trans hr
      exact h.command hcmd hallowed hof
    | true =>
      cases (handle_refused (h.idle clientId) hallowed buf epollFd).symm.trans hr
      rw [after_refused hcmd hallowed]
      exact h

/-! ## Runs -/

structure Idle (h : CmdHandler) : Prop where
  channels : h.channels = ∅
  subscribers : h.subscribers = ∅
  backlogTxn : h.registry.backlogTxn = ∅
  responseQueue : h.responseQueue = []

variable {start : CmdHandler} {es : List Event}

theorem Idle.sound (h : Idle start) : Sound { handler := start } where
  subscribed :=
    ⟨fun id key => by simp [h.channels], fun id key hin => by cases Finset.notMem_empty _ hin⟩
  named := fun key => by simp [h.channels]
  closed := h.backlogTxn
  due := fun id => by simp [messagesFor, dueOf, h.responseQueue]

theorem run_sound (hstart : Idle start) (hr : Run (Steps P) { handler := start } es s) : s.Sound :=
  hr.inv (fun _ _ _ _ hs h => step_sound h hs) hstart.sound

def NamesWell (s : PubSub) : Event → Prop
  | .command _ (.subscribe keys) _ _ clientId _ => clientId ∉ s.handler.subscribers → keys ≠ [] ∧ keys.Nodup
  | _ => True

/-- What SUBSCRIBE and UNSUBSCRIBE answer counts the subscriptions of the client. -/
def Reports (P : Platform) (s : PubSub) : Event → Prop
  | .command o (.subscribe keys) _ buf clientId epollFd =>
    ∃ h', s.handler.handle P o (.ok (.subscribe keys)) buf clientId epollFd =
      some (h', .ok (if s.handler.clientTable.isMaster clientId then []
        else countFrames "subscribe" (s.subs.counts clientId keys)))
  | .command o (.unsubscribe key) _ buf clientId epollFd =>
    ∃ h' b, s.handler.handle P o (.ok (.unsubscribe key)) buf clientId epollFd = some (h', .ok b) ∧
      (b = [] ∨ b = (channelReply "unsubscribe" key
        (Subscriptions.count (s.subs.erase (clientId, key)) clientId)).frame)
  | _ => True

theorem Sound.reports (h : s.Sound) {e : Event} (hnames : s.NamesWell e) : s.Reports P e := by
  cases e with
  | drain => exact trivial
  | command o cmd hcmd buf clientId epollFd =>
    cases cmd with
    | subscribe keys =>
      have hallowed : s.handler.refuses clientId (.subscribe keys) = false := Bool.and_false _
      obtain ⟨h', hh', _⟩ := handle_channelCmd (P := P) (o := o) hcmd (h.idle clientId) hallowed buf epollFd
      have hcounts : (channelCmd o s.handler clientId (.subscribe keys)).2 =
          reply (.bytes (some (countFrames "subscribe" (s.subs.counts clientId keys)))) :=
        h.subscribed.subscribe_counts fun hno => (hnames hno).2
      rw [hcounts] at hh'
      exact ⟨h', hh'⟩
    | unsubscribe key =>
      have hallowed : s.handler.refuses clientId (.unsubscribe key) = false := Bool.and_false _
      obtain ⟨h', hh', _⟩ := handle_channelCmd (P := P) (o := o) hcmd (h.idle clientId) hallowed buf epollFd
      refine ⟨h', _, hh', ?_⟩
      split
      · exact .inl rfl
      · have hcount := h.subscribed.unsubscribe_count key clientId
        rw [channelCmd]
        rcases hcount with hnone | hcount
        · rw [hnone]
          exact .inl rfl
        · rw [hcount]
          exact .inr rfl
    | publish key message => exact trivial
    | _ => cases hcmd

theorem step_mode {e : Event} (h : s.Sound) (hm : s.handler.ModeExact s.subs)
    (hs : guarded NamesWell (Steps P) s e s') :
    s'.handler.ModeExact s'.subs := by
  obtain ⟨hnames, hs⟩ := hs
  cases e with
  | drain =>
    cases hs
    exact hm
  | command o cmd hcmd buf clientId epollFd =>
    obtain ⟨r, hr, rfl⟩ := Option.map_eq_some_iff.mp hs
    cases hallowed : s.handler.refuses clientId cmd with
    | true =>
      cases (handle_refused (h.idle clientId) hallowed buf epollFd).symm.trans hr
      rw [after_refused hcmd hallowed]
      exact hm
    | false =>
      obtain ⟨h', hh', hof⟩ := handle_channelCmd (P := P) (o := o) hcmd (h.idle clientId) hallowed buf epollFd
      cases hh'.symm.trans hr
      have hmode : (channelCmd o s.handler clientId cmd).1.ModeExact (s.subs.after clientId cmd) := by
        cases cmd with
        | subscribe keys => exact hm.subscribe fun hno => (hnames hno).1
        | unsubscribe key => exact hm.unsubscribe h.subscribed key clientId
        | publish key message =>
          obtain ⟨_, _, _, hpushed, _⟩ := h.subscribed.publish o key message
          rw [channelCmd, hpushed]
          exact hm
        | _ => cases hcmd
      intro id
      have hsame : id ∈ h'.subscribers ↔
        id ∈ (channelCmd o s.handler clientId cmd).1.subscribers := by rw [hof.subscribers]
      exact hsame.trans (hmode id)

/-- As long as a new subscriber names a channel and none twice, the replies count
the subscriptions, and the subscribers are the clients that have one. -/
theorem run_reports (hstart : Idle start) (hr : Run (guarded NamesWell (Steps P)) { handler := start } es s) :
    s.handler.ModeExact s.subs ∧ ∀ e, s.NamesWell e → s.Reports P e := by
  have hkept : s.Sound ∧ s.handler.ModeExact s.subs := by
    refine hr.inv (I := fun s : PubSub => s.Sound ∧ s.handler.ModeExact s.subs) ?_ ⟨hstart.sound, ?_⟩
    · exact fun _ _ _ _ h hs => ⟨step_sound hs.2 h.1, step_mode h.1 h.2 hs⟩
    · intro id
      simp [hstart.subscribers]
  exact ⟨hkept.2, fun e hnames => hkept.1.reports hnames⟩

theorem run_reports_two : ∃ s, Run (guarded NamesWell (Steps .blank)) { handler := .startup }
      [.command .asIs (.subscribe ["a", "b"]) rfl [] 1 7] s ∧
    s.handler.ModeExact s.subs ∧ ∀ e, s.NamesWell e → s.Reports .blank e := by
  obtain ⟨s, hs⟩ : ∃ s, Steps .blank { handler := .startup } (.command .asIs (.subscribe ["a", "b"]) rfl [] 1 7) s :=
    Option.isSome_iff_exists.mp (by decide +kernel)
  have hr : Run (guarded NamesWell (Steps .blank)) { handler := .startup }
      [.command .asIs (.subscribe ["a", "b"]) rfl [] 1 7] s := .cons ⟨fun _ => by decide, hs⟩ .nil
  exact ⟨s, hr, run_reports ⟨rfl, rfl, rfl, rfl⟩ hr⟩

/-- A channel is named twice, and SUBSCRIBE names no channel. -/
theorem subscribe_miscounts :
    ¬ Reports .blank { handler := .startup } (.command .asIs (.subscribe ["a", "a"]) rfl [] 1 7) ∧
      ∃ s, Run (Steps .blank) { handler := .startup } [.command .asIs (.subscribe []) rfl [] 1 7] s ∧
        ¬ s.handler.ModeExact s.subs := by
  constructor
  · rintro ⟨h', hh⟩
    have hreply :
        (CmdHandler.startup.handle .blank .asIs (.ok (.subscribe ["a", "a"])) [] 1 7).map (fun r => returned r.2) =
          some (countFrames "subscribe" (Subscriptions.counts ∅ 1 ["a", "a"])) :=
      congrArg (Option.map fun r => returned r.2) hh
    exact absurd hreply (by decide +kernel)
  · obtain ⟨s, hs, hin, hnone⟩ :
      ∃ s, Steps .blank { handler := .startup } (.command .asIs (.subscribe []) rfl [] 1 7) s ∧
        1 ∈ s.handler.subscribers ∧ s.subs = ∅ :=
      ⟨_, rfl, by decide +kernel, rfl⟩
    refine ⟨s, .cons hs .nil, fun hm => ?_⟩
    obtain ⟨key, hkey⟩ := (hm 1).mp hin
    rw [hnone] at hkey
    cases Finset.notMem_empty _ hkey

/-- A message is queued once for each subscriber of its channel and for nobody
else, and a client is sent what it is due in the order of the publishes. -/
theorem run_delivers (hstart : Idle start) (hr : Run (Steps P) { handler := start } es s) :
    (∀ id, s.messagesFor id = dueOf s.published id) ∧
      ∀ (o : IterOrder) (key message : String) (buf : Bytes) (clientId : Nat) (epollFd : Int),
        clientId ∉ s.handler.subscribers →
        ∃ (h' : CmdHandler) (ids : List Nat) (b : Bytes),
          s.handler.handle P o (.ok (.publish key message)) buf clientId epollFd = some (h', .ok b) ∧
          ids.Nodup ∧ (∀ id, id ∈ ids ↔ (id, key) ∈ s.subs) ∧
          h'.responseQueue = s.handler.responseQueue ++ ids.map (fun id => (id, messageFrame key message)) ∧
          (s.handler.clientTable.isMaster clientId = false → key ∈ s.named →
            b = (RespType.integer (some (ids.length : Int))).frame) := by
  have h := run_sound hstart hr
  refine ⟨h.due, fun o key message buf clientId epollFd hno => ?_⟩
  have hallowed : s.handler.refuses clientId (.publish key message) = false := by
    have hnot : s.handler.isSubscriber clientId = false := decide_eq_false hno
    rw [refuses, hnot, Bool.false_and]
  obtain ⟨h', hh', hof⟩ := handle_channelCmd (P := P) (o := o) rfl (h.idle clientId) hallowed buf epollFd
  obtain ⟨ids, hnodup, hids, hpushed, hreply⟩ := h.subscribed.publish o key message
  refine ⟨h', ids, _, hh', hnodup, hids, ?_, fun halone hnamed => ?_⟩
  · rw [hof.responseQueue, channelCmd, hpushed]
    rfl
  · rw [halone, if_neg Bool.false_ne_true, channelCmd, hreply, if_pos ((h.named key).mpr hnamed)]
    rfl

theorem run_delivers_two : ∃ s, Run (Steps .blank) { handler := .startup }
      [.command .asIs (.subscribe ["ch"]) rfl [] 1 7, .command .asIs (.subscribe ["ch"]) rfl [] 2 8] s ∧
    3 ∉ s.handler.subscribers ∧ "ch" ∈ s.named ∧
    ∃ (h' : CmdHandler) (ids : List Nat) (b : Bytes),
      s.handler.handle .blank .asIs (.ok (.publish "ch" "m")) [] 3 9 = some (h', .ok b) ∧
      ids.Nodup ∧ (∀ id, id ∈ ids ↔ (id, "ch") ∈ s.subs) ∧ b = (RespType.integer (some (ids.length : Int))).frame := by
  obtain ⟨s, hr, hno, halone, hnamed⟩ : ∃ s, Run (Steps .blank) { handler := .startup }
      [.command .asIs (.subscribe ["ch"]) rfl [] 1 7, .command .asIs (.subscribe ["ch"]) rfl [] 2 8] s ∧
      3 ∉ s.handler.subscribers ∧ s.handler.clientTable.isMaster 3 = false ∧ "ch" ∈ s.named :=
    ⟨_, .cons rfl (.cons rfl .nil), by decide +kernel, by decide +kernel, by decide +kernel⟩
  obtain ⟨h', ids, b, hh, hnodup, hids, _, hb⟩ := (run_delivers ⟨rfl, rfl, rfl, rfl⟩ hr).2 .asIs "ch" "m" [] 3 9 hno
  exact ⟨s, hr, hno, hnamed, h', ids, b, hh, hnodup, hids, hb halone hnamed⟩

/-- A subscriber publishes to its own channel, and the master to one of a client. -/
theorem publish_refused :
    (∃ s s', Run (Steps .blank) { handler := .startup } [.command .asIs (.subscribe ["ch"]) rfl [] 1 7] s ∧
      (1, "ch") ∈ s.subs ∧ Steps .blank s (.command .asIs (.publish "ch" "m") rfl [] 1 7) s' ∧ s'.messagesFor 1 = []) ∧
    ∃ s h', Run (Steps .blank) { handler := { CmdHandler.startup with clientTable := { master := some 1 } } }
        [.command .asIs (.subscribe ["ch"]) rfl [] 2 8] s ∧
      "ch" ∈ s.named ∧ s.handler.handle .blank .asIs (.ok (.publish "ch" "m")) [] 1 7 = some (h', .ok []) :=
  ⟨⟨_, _, .cons rfl .nil, by decide +kernel, rfl, by decide +kernel⟩,
    ⟨_, _, .cons rfl .nil, by decide +kernel, rfl⟩⟩

end

end PubSub

end Redis
