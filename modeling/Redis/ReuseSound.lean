import Redis.OwnSession
import Redis.Paired
import Redis.RecipientSound

/-!
# What the next client of an id inherits

Two servers take the same steps, but for what a client does to its own session:
it opens a transaction and queues commands, watches keys, subscribes. If it is
in no transaction, watches nothing, has no subscription and has nothing queued
when it disconnects, then whoever gets its id next, and everybody else, is sent
the same by both servers.
-/

namespace Redis

open Lib RequestRegistry

namespace Server

open CmdHandler

def lapse (clock : Nat → Nat) (s : Server) : Server := { s with handler := s.handler.lapse clock }

/-- The value is turned away, or its command is one of the session. -/
def ownValue (P : Platform) (h : CmdHandler) (fd : Nat) (t : RespType) : Bool :=
  match Cmd.fromResp P t with
  | .ok (.ok cmd) => !authorized h fd cmd || h.ownCmd fd cmd
  | _ => true

def ownEvent (P : Platform) (f : Nat) (s : Server) (e : Event) : Bool :=
  match e with
  | .read fd _ | .hangup fd => decide (fd = f)
  | .turn .. =>
    decide (s.reading = some f) && (s.takenUp e).all fun u =>
      decide (u.2.1.replState.status ≠ some .master) && ownValue P s.handler f u.2.2
  | _ => false

def OwnStep (P : Platform) (f : Nat) : Server → Event → Server → Prop :=
  guarded (fun s e => s.ownEvent P f e = true) (Steps P)

/-- Two runs that differ in what a client does to its session: it takes steps on one
side only, while the clock goes on for the other. What it does on both sides it does
with the same session, or with no transaction open and the same mode. -/
inductive Twins (P : Platform) (f : Nat) (start : Server) : Server → Server → Prop
  | start : Twins P f start start start
  | both {a b a' b' e} : Twins P f start a b → a.reading ≠ some f ∨ a.Alike (fun _ => False) b →
    Steps P a e a' → Steps P b e b' → (∀ id, id ∈ a'.clients ↔ id ∈ b'.clients) → Twins P f start a' b'
  | value {a b a' b' e client client' t} : Twins P f start a b →
    a.takenUp e = some (f, client, t) → b.takenUp e = some (f, client', t) →
    client.replState.status ≠ some .master → client'.replState.status ≠ some .master →
    f ∉ a.handler.registry.backlogTxn → f ∉ b.handler.registry.backlogTxn →
    (f ∈ a.handler.subscribers ↔ f ∈ b.handler.subscribers) →
    Steps P a e a' → Steps P b e b' → (∀ id, id ∈ a'.clients ↔ id ∈ b'.clients) → Twins P f start a' b'
  | left {a b a' e} : Twins P f start a b → OwnStep P f a e a' → f ∈ a'.clients →
    Twins P f start a' (b.lapse a'.handler.registry.timer.clock)
  | right {a b b' e} : Twins P f start a b → OwnStep P f b e b' → f ∈ b'.clients →
    Twins P f start (a.lapse b'.handler.registry.timer.clock) b'
  | gone {a b a' b' e e'} : Twins P f start a b → f ∈ a.clients → OwnStep P f a e a' → OwnStep P f b e' b' →
    f ∉ a'.clients → f ∉ b'.clients → Twins P f start a' (b'.lapse a'.handler.registry.timer.clock)

/-- The client has disconnected, and nothing is kept for it. -/
structure Left (s : Server) (id : Nat) : Prop where
  disconnected : id ∉ s.clients
  unread : s.reading ≠ some id
  backlogTxn : id ∉ s.handler.registry.backlogTxn
  watched : ∀ key, watchFlag s.handler.registry.watchlist key id = none
  subscribers : id ∉ s.handler.subscribers
  joined : ∀ key, ¬ Joined s.handler.channels id key
  queue : ∀ m ∈ s.handler.responseQueue, m.1 ≠ id

section
variable {F : Nat → Prop} {P : Platform} {o : IterOrder} {s s' start a b a' b' : Server} {f : Nat} {e : Event}

theorem Alike.lapse (h : a.Alike F b) (clock : Nat → Nat) : (a.lapse clock).Alike F (b.lapse clock) :=
  ⟨h.handler.lapse clock, h.clients, h.present, h.reading, h.epollFd, h.timerEnabled⟩

/-! ## The steps of one client -/

theorem respond_own {client client' : TcpClient} {h h' : CmdHandler} {epollFd : Int} {t : RespType} {reply : Bytes}
    (hown : ownValue P h f t = true) (hm : client.replState.status ≠ some .master)
    (hr : client.respond P o h f epollFd t = some (client', h', reply)) :
    ∃ clock, h'.Alike (· = f) (h.lapse clock) := by
  have hstill : ∃ clock, h.Alike (· = f) (h.lapse clock) := ⟨h.registry.timer.clock, .refl _ _⟩
  unfold ownValue authorized at hown
  unfold TcpClient.respond at hr
  split at hr
  · rename_i buf cmd hbuf hcmd
    rw [hcmd] at hown
    simp only at hown
    split at hr
    · cases hr
      exact hstill
    · rename_i hauth
      have hpassed : (cmd.isAuthCmd || h.auth.checkAuth f) = true := by
        cases hauthCmd : cmd.isAuthCmd with
        | true => rfl
        | false => simpa [hauthCmd] using hauth
      rw [hpassed, Bool.not_true, Bool.false_or] at hown
      split at hr
      · rename_i hstatus
        exact absurd hstatus hm
      · obtain ⟨⟨g, out⟩, hh, heq⟩ := Option.map_eq_some_iff.mp hr
        cases heq
        exact handle_own hown hh
  · obtain ⟨⟨g, out⟩, hh, heq⟩ := Option.map_eq_some_iff.mp hr
    cases heq
    cases handle_cases hh
    exact hstill
  · cases hr

theorem alike_client (hin : f ∈ s.clients) (client : TcpClient) {g : CmdHandler} (hg : g.Alike (· = f) s.handler)
    (reading : Option Nat) (hr : ∀ id, id ≠ f → (reading = some id ↔ s.reading = some id)) :
    Alike (· = f) { s with clients := s.clients.insert f client, handler := g, reading } s := by
  refine ⟨hg, fun id hid => AList.lookup_insert_ne hid, fun id => ?_, hr, rfl, rfl⟩
  refine (AList.mem_insert _).trans (or_iff_right_of_imp fun hid => ?_)
  rw [hid]
  exact hin

theorem ownStep_alike (hs : OwnStep P f s e s') :
    ∃ clock m, m.Alike (· = f) (s.lapse clock) ∧ (s' = m ∨ s' = m.disconnect f) := by
  obtain ⟨hown, hs⟩ := hs
  have hstill : ∀ {m : Server}, m.Alike (· = f) s → ∃ clock, m.Alike (· = f) (s.lapse clock) :=
    fun hm => ⟨s.handler.registry.timer.clock, hm⟩
  have hself : ∃ clock, s.Alike (· = f) (s.lapse clock) := hstill (.refl _ _)
  unfold ownEvent at hown
  cases step_happens hs with
  | accepted => cases hown
  | nobody | gone => exact ⟨_, s, hself.choose_spec, .inl rfl⟩
  | @read fd data client hidle hclient =>
    cases of_decide_eq_true hown
    have hin : f ∈ s.clients := HashMap.mem_of_lookup hclient
    have hread := alike_client hin { client with respParser := client.respParser.feedBuf data } (.refl _ s.handler)
      (some f) fun id hid => by rw [hidle]; simp [Ne.symm hid]
    obtain ⟨clock, hm⟩ := hstill hread
    exact ⟨clock, _, hm, .inl rfl⟩
  | @failed o fuel written fd hreading htaken =>
    obtain ⟨hf, _⟩ := Bool.and_eq_true_iff.mp hown
    cases hreading.symm.trans (of_decide_eq_true hf)
    exact ⟨_, s, hself.choose_spec, .inr rfl⟩
  | @waits o fuel written fd client hreading htaken hin =>
    obtain ⟨hf, _⟩ := Bool.and_eq_true_iff.mp hown
    cases hreading.symm.trans (of_decide_eq_true hf)
    have hread := alike_client hin client (.refl _ s.handler) none fun id hid => by rw [hreading]; simp [Ne.symm hid]
    obtain ⟨clock, hm⟩ := hstill hread
    exact ⟨clock, _, hm, .inl rfl⟩
  | @turned o fuel written fd client₀ client t client' handler reply hreading hclient _ htaken hr =>
    obtain ⟨hf, hvalue⟩ := Bool.and_eq_true_iff.mp hown
    cases hreading.symm.trans (of_decide_eq_true hf)
    rw [htaken, Option.all_some] at hvalue
    obtain ⟨hm, hvalue⟩ := Bool.and_eq_true_iff.mp hvalue
    have hin : f ∈ s.clients := HashMap.mem_of_lookup hclient
    obtain ⟨clock, hhandler⟩ := respond_own hvalue (of_decide_eq_true hm) hr
    have hm : Alike (· = f) { s with clients := s.clients.insert f client', handler } (s.lapse clock) :=
      alike_client (s := s.lapse clock) hin client' hhandler s.reading fun _ _ => Iff.rfl
    rcases writeReply_cases { s with clients := s.clients.insert f client', handler } f reply written with
      hw | ⟨sent, hw⟩
    · exact ⟨clock, _, hm, .inr hw⟩
    · have hsent : Alike (· = f) { s with clients := s.clients.insert f client', handler, sent } (s.lapse clock) :=
        ⟨hm.handler, hm.clients, hm.present, hm.reading, hm.epollFd, hm.timerEnabled⟩
      exact ⟨clock, _, hsent, .inl hw⟩
  | hungUp hidle hin =>
    cases of_decide_eq_true hown
    exact ⟨_, s, hself.choose_spec, .inr rfl⟩
  | expired => cases hown
  | ended => cases hown

/-! ## Two runs -/

theorem taken_alike {client client' : TcpClient} {t : RespType} (h : a.Alike (· = f) b)
    (ha : a.takenUp e = some (f, client, t)) (hb : b.takenUp e = some (f, client', t))
    (hm : client.replState.status ≠ some .master) (hm' : client'.replState.status ≠ some .master)
    (hclosed : f ∉ a.handler.registry.backlogTxn) (hclosed' : f ∉ b.handler.registry.backlogTxn)
    (hsubs : f ∈ a.handler.subscribers ↔ f ∈ b.handler.subscribers) (hsa : Steps P a e a') (hsb : Steps P b e b')
    (hin : ∀ id, id ∈ a'.clients ↔ id ∈ b'.clients) : a'.Alike (· = f) b' := by
  have hnone : a.handler.registry.backlogTxn.lookup f = none := AList.lookup_eq_none.mpr hclosed
  have hnone' : b.handler.registry.backlogTxn.lookup f = none := AList.lookup_eq_none.mpr hclosed'
  have hagrees : Agrees a.handler.sessions b.handler.sessions f := ⟨hnone.trans hnone'.symm, hsubs⟩
  cases step_happens hsa with
  | @turned o _ written _ _ _ _ _ _ _ _ hclient _ htaken hr =>
    cases step_happens hsb with
    | turned _ _ _ htaken' hr' =>
      cases ha.symm.trans htaken
      cases hb.symm.trans htaken'
      have hpresent : f ∈ a.clients := HashMap.mem_of_lookup hclient
      have hpaired := respond_paired (P := P) o t written h hagrees (fun _ => hnone) (.inr ⟨rfl, hm, hm'⟩)
      exact hpaired.alike _ _ (by rw [hr]; rfl) (by rw [hr']; rfl) hin
    | failed _ hno | waits _ hno => cases hb.symm.trans hno
  | failed _ hno | waits _ hno => cases ha.symm.trans hno
  | _ => cases ha

theorem twins_alike (h : Twins P f start a b) : a.Alike (· = f) b := by
  induction h with
  | start => exact .refl _ _
  | both _ hwho hsa hsb hin hab =>
    rcases hwho with hother | hall
    · exact (step_paired hab fun id hid hf => hother (hf ▸ hid)).alike _ _ hsa hsb hin
    · have hnext := (step_paired hall fun _ _ hf => hf).alike _ _ hsa hsb hin
      exact hnext.mono fun _ hf => hf.elim
  | value _ ha hb hm hm' hclosed hclosed' hsubs hsa hsb hin hab =>
    exact taken_alike hab ha hb hm hm' hclosed hclosed' hsubs hsa hsb hin
  | left _ hs hin hab =>
    obtain ⟨clock, m, hm, rfl | rfl⟩ := ownStep_alike hs
    · have hclock := congrArg Timer.clock hm.handler.timer
      rw [hclock]
      exact hm.trans (hab.lapse clock)
    · exact absurd rfl (AList.mem_erase.mp hin).1
  | right _ hs hin hab =>
    obtain ⟨clock, m, hm, rfl | rfl⟩ := ownStep_alike hs
    · have hclock := congrArg Timer.clock hm.handler.timer
      rw [hclock]
      exact (hab.lapse clock).trans hm.symm
    · exact absurd rfl (AList.mem_erase.mp hin).1
  | gone _ hfa hsa hsb hna hnb hab =>
    have hfb := (hab.present f).mp hfa
    obtain ⟨clock, m, hm, rfl | rfl⟩ := ownStep_alike hsa
    · exact absurd ((hm.present f).mpr hfa) hna
    · obtain ⟨clock', m', hm', rfl | rfl⟩ := ownStep_alike hsb
      · exact absurd ((hm'.present f).mpr hfb) hnb
      · have hclock : (m.disconnect f).handler.registry.timer.clock = clock := congrArg Timer.clock hm.handler.timer
        rw [hclock]
        have hright := hm'.lapse clock
        exact ((hm.trans (hab.lapse clock)).trans hright.symm).disconnect f

theorem alike_of_left (h : a.Alike (· = f) b) (ha : a.Left f) (hb : b.Left f) : a.Alike (fun _ => False) b := by
  obtain ⟨hplain, hfull⟩ := alike_iff.mp h.handler
  have hqueue : ∀ {q : List (Nat × Bytes)}, (∀ m ∈ q, m.1 ≠ f) → q.filter (fun m => m.1 = f) = [] := fun hq =>
    List.filter_eq_nil_iff.mpr fun m hm => by simpa using hq m hm
  have hsession : a.handler.full.Alike (fun _ => False) b.handler.full := by
    refine ⟨fun id _ => ?_, fun key id _ => ?_, fun id _ => ?_, hfull.channels, fun id key _ => ?_, fun id _ => ?_⟩ <;>
      by_cases hid : id = f
    · rw [hid]
      exact (AList.lookup_eq_none.mpr ha.backlogTxn).trans (AList.lookup_eq_none.mpr hb.backlogTxn).symm
    · exact hfull.backlogTxn id hid
    · rw [hid]
      exact (ha.watched key).trans (hb.watched key).symm
    · exact hfull.watched key id hid
    · rw [hid]
      exact iff_of_false ha.subscribers hb.subscribers
    · exact hfull.subscribers id hid
    · rw [hid]
      exact iff_of_false (ha.joined key) (hb.joined key)
    · exact hfull.joined id key hid
    · rw [hid]
      exact (hqueue ha.queue).trans (hqueue hb.queue).symm
    · exact hfull.queue id hid
  refine ⟨alike_iff.mpr ⟨hplain, hsession⟩, fun id _ => ?_, h.present, fun id _ => ?_, h.epollFd, h.timerEnabled⟩ <;>
    by_cases hid : id = f
  · rw [hid]
    exact (AList.lookup_eq_none.mpr ha.disconnected).trans (AList.lookup_eq_none.mpr hb.disconnected).symm
  · exact h.clients id hid
  · rw [hid]
    exact iff_of_false ha.unread hb.unread
  · exact h.reading id hid

theorem run_alike {es : List Event} (h : a.Alike (fun _ => False) b) (hr : Run (Steps P) a es a') :
    ∃ b', Run (Steps P) b es b' ∧ a'.Alike (fun _ => False) b' ∧ SameSent a a' b b' := by
  induction hr generalizing b with
  | nil => exact ⟨b, .nil, h, .refl _ _⟩
  | @cons _ e _ _ _ hs _ ih =>
    have hpaired := step_paired (P := P) (e := e) h fun _ _ hf => hf
    obtain ⟨b₁, hb₁, hin, hsame⟩ := hpaired.same (fun _ hf => hf) _ hs
    obtain ⟨b', hrun, hab, hsame'⟩ := ih (hpaired.alike _ _ hs hb₁ hin)
    exact ⟨b', .cons hb₁ hrun, hab, hsame.trans hsame'⟩

/-- What the next client of the id, and everybody else, is sent does not depend on
the session of the last one. -/
theorem run_reused {es : List Event} (ht : Twins P f start a b) (ha : a.Left f) (hb : b.Left f)
    (hr : Run (Steps P) a es a') :
    ∃ b', Run (Steps P) b es b' ∧ a'.handler.data = b'.handler.data ∧ SameSent a a' b b' := by
  obtain ⟨b', hrun, hab, hsame⟩ := run_alike (alike_of_left (twins_alike ht) ha hb) hr
  obtain ⟨g, X, Y, _, hX, hY⟩ := hab.handler
  exact ⟨b', hrun, by rw [hX, hY]; rfl, hsame⟩

end

/-! ### Concrete runs -/

section
variable {P : Platform} {f : Nat} {s start a b a' t : Server} {e : Event}

/-- A step that the client takes on one side only. -/
def aside (P : Platform) (f : Nat) (s : Server) (e : Event) : Option Server :=
  if s.ownEvent P f e then (s.step P e).filter fun t => decide (f ∈ t.clients) else none

theorem aside_own (h : s.aside P f e = some t) : OwnStep P f s e t ∧ f ∈ t.clients := by
  unfold aside at h
  split at h
  · rename_i hown
    obtain ⟨hs, hin⟩ := Option.filter_eq_some_iff.mp h
    exact ⟨⟨hown, hs⟩, of_decide_eq_true hin⟩
  · cases h

theorem Twins.aside {es : List Event} (ht : Twins P f start a b)
    (hr : Run (fun s e t => s.aside P f e = some t) a es a') :
    ∃ clock, Twins P f start a' (b.lapse clock) := by
  induction hr generalizing b with
  | nil => exact ⟨b.handler.registry.timer.clock, ht⟩
  | cons hs _ ih =>
    obtain ⟨hown, hin⟩ := aside_own hs
    obtain ⟨clock, htwins⟩ := ih (.left ht hown hin)
    exact ⟨clock, htwins⟩

theorem Left.of_empty (hreading : s.reading = none)
    (hids : s.clients.keys ++ s.handler.registry.backlogTxn.keys ++ s.handler.subscribers.keys ++
      s.handler.responseQueue.map Prod.fst = [])
    (hkeys : s.handler.registry.watchlist.keys ++ s.handler.channels.keys = []) (id : Nat) : s.Left id := by
  simp only [List.append_eq_nil_iff, List.map_eq_nil_iff] at hids hkeys
  obtain ⟨⟨⟨hclients, htxn⟩, hsubs⟩, hqueue⟩ := hids
  obtain ⟨hwatch, hchannels⟩ := hkeys
  refine ⟨?_, ?_, ?_, fun key => ?_, ?_, fun key hin => ?_, ?_⟩
  · rw [AList.mem_keys, hclients]
    exact List.not_mem_nil
  · rw [hreading]
    exact fun h => by cases h
  · rw [AList.mem_keys, htxn]
    exact List.not_mem_nil
  · have hnone : s.handler.registry.watchlist.lookup key = none := by
      rw [AList.lookup_eq_none, AList.mem_keys, hwatch]
      exact List.not_mem_nil
    unfold watchFlag
    rw [hnone]
    rfl
  · rw [AList.mem_keys, hsubs]
    exact List.not_mem_nil
  · obtain ⟨set, hl, _⟩ := hin
    have hmem : key ∈ s.handler.channels := HashMap.mem_of_lookup hl
    rw [AList.mem_keys, hchannels] at hmem
    exact List.not_mem_nil hmem
  · rw [hqueue]
    exact fun _ hm => absurd hm List.not_mem_nil

end

def getX : List Event := [.accept 5, .read 5 (utf8 "*2\r\n$3\r\nGET\r\n$1\r\nx\r\n"), .turn .asIs 40 true]

def discards : List Event :=
  [.read 5 (utf8 "*1\r\n$5\r\nMULTI\r\n"), .turn .asIs 40 true, .turn .asIs 40 true,
    .read 5 (utf8 "*1\r\n$7\r\nDISCARD\r\n"), .turn .asIs 40 true, .turn .asIs 40 true]

def connected : Server :=
  { fresh with
    clients := AList.insert 5 {} ∅
    handler := { fresh.handler with auth := (fresh.handler.auth.authenticate .blank 5 none none).1 } }

theorem connected_left (clock : Nat → Nat) : Left ((connected.lapse clock).disconnect 5) 5 :=
  .of_empty rfl rfl rfl 5

theorem run_reused_discard : ∃ m a clock s s', Run (fun s e t => s.aside .blank 5 e = some t) connected discards m ∧
    Steps .blank m (.hangup 5) a ∧ Run (Steps .blank) a getX s ∧
    Run (Steps .blank) ((connected.lapse clock).disconnect 5) getX s' ∧
    SameSent a s ((connected.lapse clock).disconnect 5) s' := by
  have hafter : ((discards.foldlM (aside .blank 5) connected).bind fun m =>
      (m.step .blank (.hangup 5)).bind fun a => (getX.foldlM (step .blank) a).map fun _ =>
        (m.reading, a.reading, a.clients.keys ++ a.handler.registry.backlogTxn.keys ++ a.handler.subscribers.keys ++
          a.handler.responseQueue.map Prod.fst, a.handler.registry.watchlist.keys ++ a.handler.channels.keys)) =
      some (none, none, [], []) := by decide +kernel
  obtain ⟨m, hm, hrest⟩ := Option.bind_eq_some_iff.mp hafter
  obtain ⟨a, ha, hrest⟩ := Option.bind_eq_some_iff.mp hrest
  obtain ⟨s, hs, hv⟩ := Option.map_eq_some_iff.mp hrest
  rw [Prod.mk.injEq, Prod.mk.injEq, Prod.mk.injEq] at hv
  obtain ⟨hidle, hreading, hids, hkeys⟩ := hv
  have haccept : Steps .blank fresh (.accept 5) connected := rfl
  have hstart : Twins .blank 5 fresh connected connected :=
    .both .start (.inr (.refl _ _)) haccept haccept fun _ => Iff.rfl
  obtain ⟨clock, htwins⟩ := hstart.aside (.of_foldlM hm)
  have hother : Steps .blank (connected.lapse clock) (.hangup 5) ((connected.lapse clock).disconnect 5) := rfl
  have hleft : a.Left 5 := .of_empty hreading hids hkeys 5
  have hgone : ∀ id, id ∈ a.clients ↔ id ∈ ((connected.lapse clock).disconnect 5).clients := by
    intro id
    simp only [List.append_eq_nil_iff] at hids
    rw [AList.mem_keys, hids.1.1.1]
    exact Iff.rfl
  have hboth : Twins .blank 5 fresh a ((connected.lapse clock).disconnect 5) :=
    .both htwins (.inl (by rw [hidle]; exact fun h => by cases h)) ha hother hgone
  obtain ⟨s', hrun, _, hsame⟩ := run_reused hboth hleft (connected_left clock) (.of_foldlM hs)
  exact ⟨m, a, clock, s, s', .of_foldlM hm, ha, .of_foldlM hs, hrun, hsame⟩

def subscribes : List Event :=
  [.accept 5, .read 5 (utf8 "*2\r\n$9\r\nSUBSCRIBE\r\n$2\r\nch\r\n"), .turn .asIs 40 true, .turn .asIs 40 true]

/-- The lengths of what is sent to the reader who comes after these events. -/
def sentToReader (es : List Event) : Option (List Nat) :=
  (es.foldlM (step .blank) fresh).bind fun a => (getX.foldlM (step .blank) a).map fun s =>
    ((s.sent.drop a.sent.length).filter fun m => m.1 = 5).map fun m => m.2.length

theorem exists_of_sentToReader {es : List Event} {lengths : List Nat} (h : sentToReader es = some lengths) :
    ∃ a s, Run (Steps .blank) fresh es a ∧ Run (Steps .blank) a getX s ∧
      ∀ sent, s.sent = a.sent ++ sent → (sent.filter fun m => m.1 = 5).map (fun m => m.2.length) = lengths := by
  obtain ⟨a, ha, hrest⟩ := Option.bind_eq_some_iff.mp h
  obtain ⟨s, hs, hv⟩ := Option.map_eq_some_iff.mp hrest
  refine ⟨a, s, .of_foldlM ha, .of_foldlM hs, fun sent hsent => ?_⟩
  rw [hsent, List.drop_left] at hv
  exact hv

/-- Whoever comes after a subscriber is refused. -/
theorem subscriber_inherited : ∃ a s b s', Run (Steps .blank) fresh (subscribes ++ [.hangup 5]) a ∧
    Run (Steps .blank) fresh [.accept 5, .hangup 5] b ∧ Run (Steps .blank) a getX s ∧ Run (Steps .blank) b getX s' ∧
    ¬ SameSent a s b s' := by
  have hrefused : sentToReader (subscribes ++ [.hangup 5]) = some [116] := by decide +kernel
  have hanswered : sentToReader [.accept 5, .hangup 5] = some [5] := by decide +kernel
  obtain ⟨a, s, ha, hs, hsent⟩ := exists_of_sentToReader hrefused
  obtain ⟨b, s', hb, hs', hsent'⟩ := exists_of_sentToReader hanswered
  refine ⟨a, s, b, s', ha, hb, hs, hs', fun hboth => ?_⟩
  obtain ⟨sent, sent', hx, hy, hsame⟩ := hboth
  have hlengths := congrArg (List.map fun m => m.2.length) (hsame 5)
  rw [hsent sent hx, hsent' sent' hy] at hlengths
  cases hlengths

end Server

end Redis
