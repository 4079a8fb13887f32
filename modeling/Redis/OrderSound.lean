import Redis.Requests
import Redis.Events

/-!
# The order of replies

Nothing stops the loop of `read_socket` after BLPOP or XREAD has blocked: only
WAIT takes its socket out of epoll, and no command ends the loop. A client is
answered in the order of its commands as long as it sends no complete command
before it has the answer. `Observed` numbers the commands as they are taken up
and notes, reply by reply, which command is answered.
-/

namespace Redis

open Lib

namespace Server

inductive Executing (P : Platform) (s : Server) : Event → CmdHandler.Execution → Prop
  | turn {o fuel written fd client t raw cmd x} :
    s.takenUp (.turn o fuel written) = some (fd, client, t) → t.serialize = some raw →
    Cmd.fromResp P t = .ok (.ok cmd) → authorized s.handler fd cmd = true →
    CmdHandler.Executes P s.handler (o, .handle (.ok cmd) raw fd s.epollFd) x →
    Executing P s (.turn o fuel written) x

end Server

/-- A run of the server whose commands are numbered. -/
structure Observed where
  server : Server
  commands : Nat := 0
  /-- For each request that counts its client, and the number of the command. -/
  asked : HashMap Nat (Nat × Nat) := ∅
  /-- The requests answered since the responses were last written out. -/
  due : List Nat := []
  /-- The replies as they are written: the client, and the number of the command. -/
  replies : List (Nat × Nat) := []

namespace Observed

open Server CmdHandler RequestRegistry

abbrev registry (s : Observed) : RequestRegistry := s.server.handler.registry

def newlyAnswered (r r' : RequestRegistry) : List Nat :=
  (r'.history.answered.take (r'.history.answered.length - r.history.answered.length)).reverse

def newRequests (withWait : Bool) (r r' : RequestRegistry) : List RequestEntry :=
  ((HashMap.toPairs r'.store).map Prod.snd).filter fun e =>
    decide (r.history.issued ≤ e.serial) && e.kind.counted withWait

def served (s : Observed) (server : Server) : Observed :=
  { s with server, due := s.due ++ newlyAnswered s.registry server.handler.registry }

def flush (s : Observed) : Observed :=
  { s with due := [], replies := s.replies ++ s.due.filterMap s.asked.lookup }

def takes (withWait : Bool) (s : Observed) (fd : Nat) (server : Server) : Observed :=
  { s.served server with
    commands := s.commands + 1
    asked := (newRequests withWait s.registry server.handler.registry).foldl
      (fun asked e => asked.insert e.serial (e.clientId, s.commands)) s.asked
    replies := if server.sent.length = s.server.sent.length then s.replies else s.replies ++ [(fd, s.commands)] }

def next (withWait : Bool) (s : Observed) (e : Server.Event) (server : Server) : Observed :=
  match s.server.takenUp e with
  | some (fd, _, _) => s.takes withWait fd server
  | none =>
    match e with
    | .endOfCycle .. => (s.served server).flush
    | _ => s.served server

def step (P : Platform) (withWait : Bool) (s : Observed) (e : Server.Event) : Option Observed :=
  (s.server.step P e).map (s.next withWait e)

abbrev Steps (P : Platform) (withWait : Bool) (s : Observed) (e : Server.Event) (s' : Observed) : Prop :=
  s.step P withWait e = some s'

def InOrder (s : Observed) : Prop := s.replies.Pairwise fun x y => x.1 = y.1 → x.2 ≤ y.2

/-- No command of a blocked client is taken up, and none is executed. -/
def Parked (P : Platform) (withWait : Bool) (s : Observed) (e : Server.Event) : Prop :=
  ∀ fd client t, s.server.takenUp e = some (fd, client, t) → ¬ s.server.handler.Blocked withWait fd ∧
    ∀ x, Executing P s.server e x → ¬ x.before.Blocked withWait fd

def Owed (withWait : Bool) (s : Observed) (fd : Nat) : Prop :=
  s.server.handler.Blocked withWait fd ∨ ∃ n ∈ s.due, ∃ k, s.asked.lookup n = some (fd, k)

/-- No complete command arrives for a client that waits, and none follows, in a
read or in a transaction, a command that blocks. -/
structure Patient (P : Platform) (withWait : Bool) (s : Observed) (e : Server.Event) : Prop where
  read : ∀ fd data client, e = .read fd data → s.server.clients.lookup fd = some client →
    Completes { client with respParser := client.respParser.feedBuf data } → ¬ s.Owed withWait fd
  turn : ∀ o fuel written fd client t x, e = .turn o fuel written → s.server.takenUp e = some (fd, client, t) →
    Executing P s.server e x → Asks o withWait x.before x.clientId x.cmd → ¬ Completes client
  exec : ∀ o fuel written fd client t, e = .turn o fuel written → s.server.takenUp e = some (fd, client, t) →
    Cmd.fromResp P t = .ok (.ok .exec) → authorized s.server.handler fd .exec = true →
    AsksLast P o withWait s.server.handler fd

section
variable {P : Platform} {withWait : Bool} {s s' : Observed} {server server' : Server} {fd : Nat} {asks : Prop}

/-! ## The ledger -/

/-- A request of the command waits for its answer, or its answer waits to be written. -/
def Outstanding (s : Observed) (fd k : Nat) : Prop :=
  ∃ n, (s.registry.Stored n ∨ n ∈ s.due) ∧ s.asked.lookup n = some (fd, k)

/-- What is noted agrees with the store, and what is outstanding for a client is
of one command, which was not taken up before one that has a reply. -/
structure Ledger (withWait : Bool) (s : Observed) : Prop where
  issued : s.registry.Issued
  known : ∀ n c k, s.asked.lookup n = some (c, k) → n < s.registry.history.issued ∧ k < s.commands
  owner : ∀ t e, s.registry.store.lookup t = some e → ∀ c k, s.asked.lookup e.serial = some (c, k) →
    e.clientId = c ∧ e.kind.counted withWait = true
  due : ∀ n ∈ s.due, n < s.registry.history.issued
  replied : ∀ c k, (c, k) ∈ s.replies → k < s.commands
  sorted : s.InOrder
  pending : ∀ c k, s.Outstanding c k → ∀ k', (c, k') ∈ s.replies → k' ≤ k
  single : ∀ c k k', s.Outstanding c k → s.Outstanding c k' → k = k'

theorem Ledger.owed (h : s.Ledger withWait) {k : Nat} (ho : s.Outstanding fd k) : s.Owed withWait fd := by
  obtain ⟨n, ⟨t, e, he, rfl⟩ | hdue, hn⟩ := ho
  · obtain ⟨hc, hk⟩ := h.owner t e he fd k hn
    exact .inl ⟨t, e, he, hc, hk⟩
  · exact .inr ⟨n, hdue, k, hn⟩

theorem mem_newlyAnswered {r r' : RequestRegistry} (h : Gains withWait fd asks r r') {n : Nat}
    (hn : n ∈ newlyAnswered r r') : r.Stored n ∨ r.history.issued ≤ n ∧ n < r'.history.issued := by
  obtain ⟨new, hnew, hold⟩ := h.answered
  have htake : newlyAnswered r r' = new.reverse := by
    rw [newlyAnswered, hnew, List.length_append, Nat.add_sub_cancel, List.take_left]
  rw [htake, List.mem_reverse] at hn
  exact hold n hn

/-- An answered request was stored, unless it is newer than the state before. -/
theorem mem_served_due (hg : Gains withWait fd asks s.registry server.handler.registry) {n : Nat}
    (hn : n ∈ (s.served server).due) :
    (s.registry.Stored n ∨ n ∈ s.due) ∨ s.registry.history.issued ≤ n ∧ n < server.handler.registry.history.issued := by
  rcases List.mem_append.mp hn with hn | hn
  · exact .inl (.inr hn)
  · exact (mem_newlyAnswered hg hn).imp_left .inl

theorem Ledger.served_due_lt (h : s.Ledger withWait) (hg : Gains withWait fd asks s.registry server.handler.registry) :
    ∀ n ∈ (s.served server).due, n < server.handler.registry.history.issued := by
  intro n hn
  have hle := hg.issued
  rcases mem_served_due hg hn with (⟨t, e, he, rfl⟩ | hn) | hn
  · have := h.issued.below t e he
    omega
  · have := h.due n hn
    omega
  · exact hn.2

theorem Ledger.outstanding_old (h : s.Ledger withWait)
    (hg : Gains withWait fd asks s.registry server.handler.registry) {n c k : Nat}
    (hn : server.handler.registry.Stored n ∨ n ∈ (s.served server).due) (ha : s.asked.lookup n = some (c, k)) :
    s.Outstanding c k := by
  have hlt := (h.known n c k ha).1
  rcases hn with hn | hn
  · rcases hg.number hn with hn | hn
    · exact ⟨n, .inl hn, ha⟩
    · omega
  · rcases mem_served_due hg hn with hn | hn
    · exact ⟨n, hn, ha⟩
    · omega

theorem Ledger.served (h : s.Ledger withWait) (hg : Gains withWait fd False s.registry server.handler.registry) :
    (s.served server).Ledger withWait where
  issued := hg.distinct h.issued
  known n c k ha := by
    have hle := hg.issued
    have := h.known n c k ha
    exact ⟨by change n < server.handler.registry.history.issued; omega, this.2⟩
  owner t e he c k ha := by
    rcases hg.stored t e he with ⟨t₀, e₀, he₀, hs, hc, hk⟩ | ⟨_, hge, _⟩
    · obtain ⟨hc₀, hk₀⟩ := h.owner t₀ e₀ he₀ c k (hs ▸ ha)
      exact ⟨hc ▸ hc₀, hk ▸ hk₀⟩
    · have := (h.known e.serial c k ha).1
      omega
  due := h.served_due_lt hg
  replied := h.replied
  sorted := h.sorted
  pending := by
    rintro c k ⟨n, hn, ha⟩
    exact h.pending c k (h.outstanding_old hg hn ha)
  single := by
    rintro c k k' ⟨n, hn, ha⟩ ⟨n', hn', ha'⟩
    exact h.single c k k' (h.outstanding_old hg hn ha) (h.outstanding_old hg hn' ha')

/-- The answers that are written out are of the last commands of their clients. -/
theorem Ledger.flush (h : s.Ledger withWait) : s.flush.Ledger withWait := by
  have hdue : ∀ c k, (c, k) ∈ s.due.filterMap s.asked.lookup → s.Outstanding c k := by
    intro c k hm
    obtain ⟨n, hn, ha⟩ := List.mem_filterMap.mp hm
    exact ⟨n, .inr hn, ha⟩
  have hstored : ∀ c k, s.flush.Outstanding c k → s.Outstanding c k := by
    rintro c k ⟨n, hn | hn, ha⟩
    · exact ⟨n, .inl hn, ha⟩
    · cases hn
  refine ⟨h.issued, h.known, h.owner, fun n hn => (List.not_mem_nil hn).elim, fun c k hm => ?_, ?_,
    fun c k ho k' hm => ?_,
    fun c k k' ho ho' => h.single c k k' (hstored c k ho) (hstored c k' ho')⟩
  · rcases List.mem_append.mp hm with hm | hm
    · exact h.replied c k hm
    · obtain ⟨n, _, ha⟩ := hdue c k hm
      exact (h.known n c k ha).2
  · refine List.pairwise_append.mpr ⟨h.sorted, List.pairwise_of_forall_mem_list ?_, ?_⟩
    · rintro ⟨c, k⟩ hm ⟨c', k'⟩ hm' hc
      obtain rfl : c = c' := hc
      exact (h.single c k k' (hdue c k hm) (hdue c k' hm')).le
    · rintro ⟨c, k⟩ hm ⟨c', k'⟩ hm' hc
      obtain rfl : c = c' := hc
      exact h.pending c k' (hdue c k' hm') k hm
  · rcases List.mem_append.mp hm with hm | hm
    · exact h.pending c k (hstored c k ho) k' hm
    · exact (h.single c k k' (hstored c k ho) (hdue c k' hm)).ge

/-! ## A command is taken up -/

theorem lookup_asked {es : List RequestEntry} {asked : HashMap Nat (Nat × Nat)} {number n : Nat} {v : Nat × Nat}
    (h : (es.foldl (fun asked e => asked.insert e.serial (e.clientId, number)) asked).lookup n = some v) :
    asked.lookup n = some v ∨ v.2 = number ∧ ∃ e ∈ es, e.serial = n ∧ e.clientId = v.1 := by
  induction es generalizing asked with
  | nil => exact .inl h
  | cons e es ih =>
    rcases ih h with h | ⟨hv, e', he', hs⟩
    · by_cases hn : n = e.serial
      · rw [hn, AList.lookup_insert, Option.some.injEq] at h
        subst h
        exact .inr ⟨rfl, e, List.mem_cons_self .., hn.symm, rfl⟩
      · rw [AList.lookup_insert_ne hn] at h
        exact .inl h
    · exact .inr ⟨hv, e', List.mem_cons_of_mem _ he', hs⟩

theorem mem_newRequests {r r' : RequestRegistry} {e : RequestEntry} : e ∈ newRequests withWait r r' ↔
    (∃ t, r'.store.lookup t = some e) ∧ r.history.issued ≤ e.serial ∧ e.kind.counted withWait = true := by
  simp only [newRequests, List.mem_filter, List.mem_map, Prod.exists, exists_eq_right, HashMap.mem_toPairs,
    Bool.and_eq_true, decide_eq_true_eq]

theorem Ledger.asked_cases (h : s.Ledger withWait) (hg : Gains withWait fd asks s.registry server.handler.registry)
    {n c k : Nat} (ha : (s.takes withWait fd server).asked.lookup n = some (c, k)) :
    s.asked.lookup n = some (c, k) ∨ k = s.commands ∧ c = fd ∧ asks ∧ s.registry.history.issued ≤ n ∧
      ∃ t e, server.handler.registry.store.lookup t = some e ∧ e.serial = n ∧ e.kind.counted withWait = true := by
  rcases lookup_asked ha with ha | ⟨hk, e, he, rfl, hc⟩
  · exact .inl ha
  · obtain ⟨⟨t, ht⟩, hge, hkind⟩ := mem_newRequests.mp he
    rcases hg.stored t e ht with ⟨t₀, e₀, he₀, hs, _⟩ | ⟨hclient, _, _, hasks⟩
    · have := h.issued.below t₀ e₀ he₀
      omega
    · exact .inr ⟨hk, hc.symm.trans hclient, hasks hkind, hge, t, e, ht, rfl, hkind⟩

theorem Ledger.outstanding_takes (h : s.Ledger withWait)
    (hg : Gains withWait fd asks s.registry server.handler.registry) {c k : Nat}
    (ho : (s.takes withWait fd server).Outstanding c k) : s.Outstanding c k ∨ k = s.commands ∧ c = fd ∧ asks := by
  obtain ⟨n, hn, ha⟩ := ho
  rcases h.asked_cases hg ha with ha | ⟨hk, hc, hasks, _⟩
  · exact .inl (h.outstanding_old hg hn ha)
  · exact .inr ⟨hk, hc, hasks⟩

theorem replies_takes {c k : Nat} (hm : (c, k) ∈ (s.takes withWait fd server).replies) :
    (c, k) ∈ s.replies ∨ c = fd ∧ k = s.commands := by
  unfold takes at hm
  simp only at hm
  split at hm
  · exact .inl hm
  · rcases List.mem_append.mp hm with hm | hm
    · exact .inl hm
    · rw [List.mem_singleton, Prod.mk.injEq] at hm
      exact .inr hm

theorem Ledger.takes (h : s.Ledger withWait) (hg : Gains withWait fd asks s.registry server.handler.registry)
    (hquiet : ¬ s.Owed withWait fd) : (s.takes withWait fd server).Ledger withWait := by
  have hle := hg.issued
  have hfree : ∀ k, ¬ s.Outstanding fd k := fun k ho => hquiet (h.owed ho)
  refine ⟨hg.distinct h.issued, fun n c k ha => ?_, fun t e he c k ha => ?_, h.served_due_lt hg, fun c k hm => ?_, ?_,
    fun c k ho k' hm => ?_, fun c k k' ho ho' => ?_⟩
  · change n < server.handler.registry.history.issued ∧ k < s.commands + 1
    rcases h.asked_cases hg ha with ha | ⟨rfl, _, _, _, t, e, he, rfl, _⟩
    · have := h.known n c k ha
      omega
    · have := (hg.distinct h.issued).below t e he
      omega
  · rcases h.asked_cases hg ha with ha | ⟨_, rfl, _, hge, t', e', he', hs, hk⟩
    · rcases hg.stored t e he with ⟨t₀, e₀, he₀, hs, hc, hk⟩ | ⟨_, hge, _⟩
      · obtain ⟨hc₀, hk₀⟩ := h.owner t₀ e₀ he₀ c k (hs ▸ ha)
        exact ⟨hc ▸ hc₀, hk ▸ hk₀⟩
      · have := (h.known e.serial c k ha).1
        omega
    · -- numbers are given out once
      obtain rfl := (hg.distinct h.issued).once t' t e' e he' he hs
      obtain rfl := Option.some.inj (he'.symm.trans he)
      rcases hg.stored t' e' he with ⟨t₀, e₀, he₀, hs, _⟩ | ⟨hc, _⟩
      · have := h.issued.below t₀ e₀ he₀
        omega
      · exact ⟨hc, hk⟩
  · change k < s.commands + 1
    rcases replies_takes hm with hm | ⟨_, rfl⟩
    · have := h.replied c k hm
      omega
    · omega
  · unfold InOrder Observed.takes
    simp only
    split
    · exact h.sorted
    · refine List.pairwise_append.mpr ⟨h.sorted, List.pairwise_singleton _ _, ?_⟩
      rintro ⟨c, k⟩ hm y hy hc
      obtain rfl := List.mem_singleton.mp hy
      exact (h.replied c k hm).le
  · rcases h.outstanding_takes hg ho with ho | ⟨rfl, _, _⟩ <;> rcases replies_takes hm with hm | ⟨hc, rfl⟩
    · exact h.pending c k ho k' hm
    · exact absurd (hc ▸ ho) (hfree k)
    · exact (h.replied c k' hm).le
    · exact le_rfl
  · rcases h.outstanding_takes hg ho with ho | ⟨rfl, rfl, _⟩ <;>
      rcases h.outstanding_takes hg ho' with ho' | ⟨rfl, hc, _⟩
    · exact h.single c k k' ho ho'
    · exact absurd (hc ▸ ho) (hfree k)
    · exact absurd ho' (hfree k')
    · rfl

theorem Ledger.owed_takes (h : s.Ledger withWait) (hg : Gains withWait fd asks s.registry server.handler.registry)
    (hquiet : ¬ s.Owed withWait fd) (ho : (s.takes withWait fd server).Owed withWait fd) : asks := by
  rcases ho with hb | ⟨n, hn, k, ha⟩
  · rcases Blocked.of_gains hg hb with hb | ⟨_, hasks⟩
    · exact absurd (.inl hb) hquiet
    · exact hasks
  · rcases h.outstanding_takes hg ⟨n, .inr hn, ha⟩ with ho | ⟨_, _, hasks⟩
    · exact absurd (h.owed ho) hquiet
    · exact hasks

/-! ## Events -/

theorem respond_gains {o : IterOrder} {client client' : TcpClient} {h h' : CmdHandler} {epollFd : Int} {t : RespType}
    {reply : Bytes} (hr : client.respond P o h fd epollFd t = some (client', h', reply))
    (ha : ∀ raw cmd x, t.serialize = some raw → Cmd.fromResp P t = .ok (.ok cmd) → authorized h fd cmd = true →
      Executes P h (o, .handle (.ok cmd) raw fd epollFd) x → Asks o withWait x.before x.clientId x.cmd → asks) :
    client' = client ∧ Gains withWait fd asks h.registry h'.registry ∨
      Gains withWait fd False h.registry h'.registry := by
  unfold TcpClient.respond at hr
  split at hr
  · rename_i raw cmd hraw hcmd
    split at hr
    · cases hr
      exact .inr (.same rfl rfl)
    · rename_i hauth
      have hauth' : authorized h fd cmd = true := by
        unfold authorized
        cases hc : cmd.isAuthCmd <;> simp_all
      split at hr
      · obtain ⟨⟨client₁, g, out⟩, hs, heq⟩ := Option.map_eq_some_iff.mp hr
        cases heq
        rcases TcpClient.handshakeToMaster_cases hs with ⟨_, _, _, rfl⟩ | ⟨hclient, hh⟩
        · exact .inr (.same rfl rfl)
        · exact .inl ⟨hclient, handle_gains hh fun x => ha raw cmd x hraw hcmd hauth'⟩
      · obtain ⟨⟨g, out⟩, hh, heq⟩ := Option.map_eq_some_iff.mp hr
        cases heq
        exact .inl ⟨rfl, handle_gains hh fun x => ha raw cmd x hraw hcmd hauth'⟩
  · obtain ⟨⟨g, out⟩, hh, heq⟩ := Option.map_eq_some_iff.mp hr
    cases heq
    refine .inr (handle_gains hh fun x hx => ?_)
    cases hx
  · cases hr

theorem afterReply (server : Server) (fd : Nat) (reply : Bytes) (written : Bool) :
    (server.writeReply fd reply written).handler.registry = server.handler.registry ∧
      ((server.writeReply fd reply written).reading = none ∨
        (server.writeReply fd reply written).reading = server.reading ∧
          (server.writeReply fd reply written).clients = server.clients) := by
  rcases writeReply_cases server fd reply written with hends | ⟨_, hwritten⟩
  · rw [hends]
    exact ⟨rfl, .inl rfl⟩
  · rw [hwritten]
    exact ⟨rfl, .inr ⟨rfl, rfl⟩⟩

/-- Other events only serve, and after them the loop is not running, unless it
is the one of the client that was read. -/
theorem event_cases (withWait : Bool) (fd : Nat) (asks : Prop) {e : Server.Event} (hs : server.step P e = some server')
    (hturn : ∀ o fuel written, e ≠ .turn o fuel written) :
    Gains withWait fd asks server.handler.registry server'.handler.registry ∧
      (server'.reading = none ∨ ∃ fd data client, e = .read fd data ∧ server.clients.lookup fd = some client ∧
        server'.reading = some fd ∧ server'.handler = server.handler ∧
        server'.clients.lookup fd = some { client with respParser := client.respParser.feedBuf data }) := by
  cases step_happens hs with
  | accepted hidle | nobody hidle | gone hidle => exact ⟨.same rfl rfl, .inl hidle⟩
  | hungUp => exact ⟨.same rfl rfl, .inl rfl⟩
  | read _ hclient => exact ⟨.same rfl rfl, .inr ⟨_, _, _, rfl, hclient, rfl, rfl, AList.lookup_insert _⟩⟩
  | failed | waits | turned => exact absurd rfl (hturn _ _ _)
  | expired hidle _ _ hc =>
    have hdisarm : Gains withWait fd asks server.handler.registry server.handler.disarm.registry := .same rfl rfl
    exact ⟨hdisarm.trans (callbackDeadlineExpire_gains hc), .inl hidle⟩
  | @ended o o' handler hidle hserve _ =>
    subst hserve
    exact ⟨(serveBacklogList_gains o _).trans (serveBacklogStream_gains o' _), .inl hidle⟩

/-! ## Runs -/

def Attentive (withWait : Bool) (s : Observed) : Prop :=
  ∀ fd client, s.server.reading = some fd → s.server.clients.lookup fd = some client → Completes client →
    ¬ s.Owed withWait fd

theorem Attentive.of_idle (h : s.server.reading = none) : s.Attentive withWait := by
  intro fd client hreading
  rw [h] at hreading
  cases hreading

theorem turn_inv {o : IterOrder} {fuel : Nat} {written : Bool} (hl : s.Ledger withWait) (ha : s.Attentive withWait)
    (hp : Patient P withWait s (.turn o fuel written)) (hs : Steps P withWait s (.turn o fuel written) s') :
    s'.Ledger withWait ∧ s'.Attentive withWait := by
  obtain ⟨server, hstep, rfl⟩ := Option.map_eq_some_iff.mp hs
  rcases turn_cases hstep with ⟨htaken, hends⟩ |
    ⟨fd, client, t, client', h', reply, hreading, ⟨client₀, hclient, hcompletes⟩, htaken, hrespond, rfl⟩
  · have hnext : s.next withWait (.turn o fuel written) server = s.served server := by
      unfold next
      simp only [htaken]
    obtain ⟨hidle, hreg⟩ : server.reading = none ∧ server.handler.registry = s.server.handler.registry := by
      rcases hends with ⟨_, rfl⟩ | ⟨_, rfl⟩ <;> exact ⟨rfl, rfl⟩
    rw [hnext]
    have hg : Gains withWait 0 False s.registry server.handler.registry := .same (by rw [hreg]) (by rw [hreg])
    exact ⟨hl.served hg, .of_idle hidle⟩
  · obtain ⟨hreg, hafter⟩ := afterReply { s.server with
      clients := s.server.clients.insert fd client', handler := h' } fd reply written
    generalize Server.writeReply _ fd reply written = server at *
    have hnext : s.next withWait (.turn o fuel written) server = s.takes withWait fd server := by
      unfold next
      simp only [htaken]
    have hquiet := ha fd client₀ hreading hclient hcompletes
    -- a request of this command is the last thing the client has sent
    have hgains : client' = client ∧ Gains withWait fd (¬ Completes client) s.registry h'.registry ∨
        Gains withWait fd False s.registry h'.registry :=
      respond_gains hrespond fun raw cmd x hraw hcmd hauth hx hasks =>
        hp.turn o fuel written fd client t x rfl htaken (.turn htaken hraw hcmd hauth hx) hasks
    rw [hnext]
    rw [← hreg] at hgains
    refine ⟨?_, ?_⟩
    · rcases hgains with ⟨_, hg⟩ | hg
      · exact hl.takes hg hquiet
      · exact hl.takes hg hquiet
    · intro fd' c hreading' hc hcomp howed
      rcases hafter with hnone | ⟨hsame, hclients⟩
      · exact absurd (hnone.symm.trans hreading') (by simp)
      · obtain rfl : fd = fd' := Option.some.inj ((hsame.trans hreading).symm.trans hreading')
        have hlookup : server.clients.lookup fd = some client' := by
          rw [hclients]
          exact AList.lookup_insert _
        obtain rfl : client' = c := Option.some.inj (hlookup.symm.trans hc)
        rcases hgains with ⟨rfl, hg⟩ | hg
        · exact hl.owed_takes hg hquiet howed hcomp
        · exact hl.owed_takes hg hquiet howed

theorem step_inv {e : Server.Event} (hl : s.Ledger withWait) (ha : s.Attentive withWait)
    (hp : Patient P withWait s e) (hs : Steps P withWait s e s') : s'.Ledger withWait ∧ s'.Attentive withWait := by
  by_cases hturn : ∃ o fuel written, e = .turn o fuel written
  · obtain ⟨o, fuel, written, rfl⟩ := hturn
    exact turn_inv hl ha hp hs
  · have hno : ∀ o fuel written, e ≠ .turn o fuel written := fun o fuel written he => hturn ⟨o, fuel, written, he⟩
    obtain ⟨server, hstep, rfl⟩ := Option.map_eq_some_iff.mp hs
    obtain ⟨hg, hafter⟩ := event_cases withWait 0 False hstep hno
    have htaken : s.server.takenUp e = none := by
      cases e <;> first | rfl | exact absurd rfl (hno _ _ _)
    have hserved := hl.served hg
    cases e with
    | turn o fuel written => exact absurd rfl (hno o fuel written)
    | endOfCycle o o' =>
      refine ⟨hserved.flush, .of_idle ?_⟩
      rcases hafter with hidle | ⟨_, _, _, he, _⟩
      · exact hidle
      · cases he
    | read fd data =>
      refine ⟨hserved, ?_⟩
      rcases hafter with hidle | ⟨fd', data', client, he, hclient, hreading, hsame, hlookup⟩
      · exact .of_idle hidle
      · cases he
        intro fd' c hreading' hc hcomp howed
        obtain rfl : fd = fd' := Option.some.inj (hreading.symm.trans hreading')
        obtain rfl := Option.some.inj (hlookup.symm.trans hc)
        refine hp.read fd data client rfl hclient hcomp ?_
        rcases howed with hb | ⟨n, hn, k, hk⟩
        · have hb' : server.handler.Blocked withWait fd := hb
          rw [hsame] at hb'
          exact .inl hb'
        · refine .inr ⟨n, ?_, k, hk⟩
          have hnew : newlyAnswered s.registry server.handler.registry = [] := by
            rw [hsame, newlyAnswered, Nat.sub_self, List.take_zero, List.reverse_nil]
          have hn' : n ∈ s.due ++ newlyAnswered s.registry server.handler.registry := hn
          rwa [hnew, List.append_nil] at hn'
    | accept | hangup | timer =>
      refine ⟨hserved, .of_idle ?_⟩
      rcases hafter with hidle | ⟨_, _, _, he, _⟩
      · exact hidle
      · cases he

/-- Nothing of a blocked client is executed in a step after which nothing is outstanding. -/
theorem Attentive.parked {e : Server.Event} {server : Server} (ha : s.Attentive withWait)
    (hp : Patient P withWait s e) (hs : s.server.step P e = some server) : Parked P withWait s e := by
  intro fd client t htaken
  cases e with
  | turn o fuel written =>
    rcases turn_cases hs with ⟨hnone, _⟩ |
      ⟨fd', client', t', _, _, _, hreading, ⟨client₀, hclient, hcompletes⟩, htaken', _⟩
    · rw [hnone] at htaken
      cases htaken
    · rw [htaken', Option.some.injEq, Prod.mk.injEq] at htaken
      obtain ⟨rfl, _⟩ := htaken
      have hquiet : ¬ s.server.handler.Blocked withWait fd' := fun hb =>
        ha fd' client₀ hreading hclient hcompletes (.inl hb)
      refine ⟨hquiet, fun x hx hb => ?_⟩
      cases hx with
      | turn htaken₁ hraw hcmd hauth hx =>
        rw [htaken', Option.some.injEq, Prod.mk.injEq, Prod.mk.injEq] at htaken₁
        obtain ⟨rfl, rfl, rfl⟩ := htaken₁
        cases hx with
        | direct => exact hquiet hb
        | queued hqueue hdirty hpre _ =>
          have hlast := hp.exec _ _ _ _ _ _ rfl htaken' hcmd hauth
          rcases Blocked.of_gains (hlast.before_gains hdirty hqueue hpre) hb with hb | ⟨_, hno⟩
          · exact hquiet hb
          · exact hno
  | _ => cases htaken

/-- The replies of a client come in the order of its commands, and while it has
an unanswered request none of its commands is taken up, if it does not send one. -/
theorem run_inOrder {start : Server} (hidle : start.reading = none) (hissued : start.handler.registry.Issued)
    {es : List Server.Event} (h : Run (guarded (Patient P withWait) (Steps P withWait)) { server := start } es s) :
    s.InOrder ∧ ∀ e server, Patient P withWait s e → s.server.Steps P e server → Parked P withWait s e := by
  have hfresh : ({ server := start } : Observed).Ledger withWait := by
    have hnone : ∀ n v, ({ server := start } : Observed).asked.lookup n ≠ some v := fun n v hn => by
      cases (AList.lookup_empty n).symm.trans hn
    refine ⟨hissued, fun n c k hn => absurd hn (hnone n _), fun t e _ c k hn => absurd hn (hnone _ _),
      fun n hn => (List.not_mem_nil hn).elim, fun c k hm => (List.not_mem_nil hm).elim, List.Pairwise.nil, ?_, ?_⟩
    · rintro c k ⟨n, _, hn⟩
      exact absurd hn (hnone n _)
    · rintro c k k' ⟨n, _, hn⟩
      exact absurd hn (hnone n _)
  obtain ⟨hl, ha⟩ := h.inv (I := fun s => s.Ledger withWait ∧ s.Attentive withWait)
    (fun _ _ _ _ hI hstep => step_inv hI.1 hI.2 hstep.1 hstep.2) ⟨hfresh, .of_idle hidle⟩
  exact ⟨hl.sorted, fun e server hp hs => ha.parked hp hs⟩

end

/-! ### Concrete runs -/

def zeroes : Platform := { Platform.blank with parseF64 := fun _ => some ⟨0⟩ }

def begun : Observed := { server := { handler := .startup } }

theorem begun_issued : begun.registry.Issued := by
  have hnone : ∀ t e, begun.registry.store.lookup t ≠ some e := fun t e he => by
    cases (AList.lookup_empty t).symm.trans he
  exact ⟨fun t e he => absurd he (hnone t e), fun t _ e _ he => absurd he (hnone t e)⟩

def drained (client : TcpClient) : Bool :=
  client.respParser.buf.isEmpty && client.respParser.stack.isEmpty && client.respParser.completed.isEmpty

theorem not_completes {client : TcpClient} (h : drained client = true) : ¬ Completes client := by
  simp only [drained, Bool.and_eq_true, List.isEmpty_iff] at h
  obtain ⟨⟨hbuf, hstack⟩, hcompleted⟩ := h
  have hpop : client.respParser.popCompleted = client.respParser := by
    unfold RespParser.popCompleted
    rw [hstack]
  have hturn : client.respParser.turn client.parseRdb = .ret client.respParser (.ok ()) := by
    unfold RespParser.turn
    simp [hpop, hbuf, hcompleted]
  rintro ⟨fuel, p, t, hp⟩
  cases fuel with
  | zero => cases hp
  | succ fuel => simp [parseNext, RespParser.parse, hturn, RespParser.getCompleted, hcompleted] at hp

/-- Bytes come for clients that have nothing coming, and the commands are RPUSH, PING,
and BLPOP with nothing behind it. -/
def calm (s : Observed) : Server.Event → Bool
  | .read fd _ => (s.registry.store.values.all fun e => e.clientId ≠ fd) && s.due.isEmpty
  | .turn o fuel written =>
    match s.server.takenUp (.turn o fuel written) with
    | none => true
    | some (_, client, t) =>
      match Cmd.fromResp zeroes t with
      | .ok (.ok (.blpop _ _)) => drained client
      | .ok (.ok .ping) => true
      | .ok (.ok (.rpush _ _)) => true
      | _ => false
  | _ => true

theorem not_owed {s : Observed} {fd : Nat} {data : Bytes} (h : s.calm (.read fd data) = true) : ¬ s.Owed false fd := by
  simp only [calm, Bool.and_eq_true, List.all_eq_true, decide_eq_true_eq, List.isEmpty_iff] at h
  rintro (⟨t, e, he, hc, _⟩ | ⟨n, hn, _⟩)
  · exact h.1 e (HashMap.mem_values.mpr ⟨t, he⟩) hc
  · rw [h.2] at hn
    cases hn

theorem Patient.of_calm {s : Observed} {e : Server.Event} (h : s.calm e = true) : Patient zeroes false s e := by
  refine ⟨?_, ?_, ?_⟩
  · rintro fd data client rfl _ _
    exact not_owed h
  · rintro o fuel written fd client t x rfl htaken hx hasks
    cases hx with
    | @turn _ _ _ _ _ _ raw cmd _ htaken' _ hcmd _ hexec =>
      obtain ⟨rfl, rfl, rfl⟩ := by simpa using htaken.symm.trans htaken'
      simp only [calm, htaken, hcmd] at h
      cases hexec with
      | direct =>
        obtain ⟨_, epollFd, kind, timeoutMs, hreq, _⟩ := hasks
        cases cmd with
        | blpop => exact not_completes h
        | ping | rpush => cases hreq
        | _ => cases h
      | queued => cases h
  · rintro o fuel written fd client t rfl htaken hcmd _
    simp [calm, htaken, hcmd] at h

/-- BLPOP is served by a push of another client, and PING comes after its answer. -/
def inTurn : List Server.Event :=
  [.accept 5, .accept 6, .read 5 (utf8 "*3\r\n$5\r\nBLPOP\r\n$1\r\nk\r\n$1\r\n0\r\n"), .turn .asIs 20 true,
    .turn .asIs 20 true, .read 6 (utf8 "*3\r\n$5\r\nRPUSH\r\n$1\r\nk\r\n$1\r\na\r\n"), .turn .asIs 20 true,
    .turn .asIs 20 true, .endOfCycle .asIs .asIs, .read 5 (utf8 "*1\r\n$4\r\nPING\r\n")]

theorem run_inOrder_served : ∃ s s', Run (guarded (Patient zeroes false) (Steps zeroes false)) begun inTurn s ∧
    Steps zeroes false s (.turn .asIs 20 true) s' ∧ Parked zeroes false s (.turn .asIs 20 true) ∧
    s'.replies = [(6, 1), (5, 0), (5, 2)] ∧ s'.InOrder := by
  have hafter : (inTurn.foldlM (fun s e => if calm s e then s.step zeroes false e else none) begun).map (fun s =>
      (calm s (.turn .asIs 20 true), (s.step zeroes false (.turn .asIs 20 true)).map (·.replies))) =
      some (true, some [(6, 1), (5, 0), (5, 2)]) := by decide +kernel
  obtain ⟨s, hs, hv⟩ := Option.map_eq_some_iff.mp hafter
  simp only [Prod.mk.injEq, Option.map_eq_some_iff] at hv
  obtain ⟨hcalm, s', hs', hreplies⟩ := hv
  have hpatient : Patient zeroes false s (.turn .asIs 20 true) := .of_calm hcalm
  have hrun : Run (guarded (Patient zeroes false) (Steps zeroes false)) begun inTurn s :=
    .of_checked (fun _ _ _ _ => .of_calm) hs
  have hrun' : Run (guarded (Patient zeroes false) (Steps zeroes false)) begun (inTurn ++ [.turn .asIs 20 true]) s' :=
    hrun.append (.cons ⟨hpatient, hs'⟩ .nil)
  obtain ⟨server, hserver, _⟩ := Option.map_eq_some_iff.mp hs'
  exact ⟨s, s', hrun, hs', (run_inOrder rfl begun_issued hrun).2 _ server hpatient hserver, hreplies,
    (run_inOrder rfl begun_issued hrun').1⟩

def pipeline : List Server.Event :=
  [.accept 5, .accept 6, .read 5 (utf8 "*3\r\n$5\r\nBLPOP\r\n$1\r\nk\r\n$1\r\n0\r\n*1\r\n$4\r\nPING\r\n"),
    .turn .asIs 20 true, .turn .asIs 20 true, .turn .asIs 20 true,
    .read 6 (utf8 "*3\r\n$5\r\nRPUSH\r\n$1\r\nk\r\n$1\r\na\r\n"), .turn .asIs 20 true, .turn .asIs 20 true,
    .endOfCycle .asIs .asIs]

/-- PING is answered while BLPOP waits, and before BLPOP. -/
theorem blpop_overtaken :
    (∃ s, Run (Steps zeroes false) begun pipeline s ∧ ¬ s.InOrder) ∧
    ∃ s server, Run (Steps zeroes false) begun (pipeline.take 4) s ∧
      s.server.Steps zeroes (.turn .asIs 20 true) server ∧ ¬ Parked zeroes false s (.turn .asIs 20 true) := by
  have hreplies : (pipeline.foldlM (step zeroes false) begun).map (·.replies) = some [(5, 1), (6, 2), (5, 0)] := by
    decide +kernel
  have hblocked : ((pipeline.take 4).foldlM (step zeroes false) begun).map (fun s =>
      ((s.registry.store.lookup 0).map fun e => (e.clientId, e.kind.counted false),
        (s.server.takenUp (.turn .asIs 20 true)).map Prod.fst, (s.server.step zeroes (.turn .asIs 20 true)).isSome)) =
      some (some (5, true), some 5, true) := by decide +kernel
  obtain ⟨s, hs, hr⟩ := Option.map_eq_some_iff.mp hreplies
  obtain ⟨s', hs', hb⟩ := Option.map_eq_some_iff.mp hblocked
  simp only [Prod.mk.injEq] at hb
  obtain ⟨⟨e, he, hkind⟩, ⟨⟨fd, client, t⟩, htaken, rfl⟩, hstep⟩ := And.imp Option.map_eq_some_iff.mp
    (And.imp_left Option.map_eq_some_iff.mp) hb
  obtain ⟨server, hserver⟩ := Option.isSome_iff_exists.mp hstep
  simp only [Prod.mk.injEq] at hkind
  refine ⟨⟨s, .of_foldlM hs, ?_⟩, s', server, .of_foldlM hs', hserver, fun hp => ?_⟩
  · rw [InOrder, hr]
    decide
  · exact (hp _ client t htaken).1 ⟨0, e, he, hkind.1, hkind.2⟩

end Observed

end Redis
