import Redis.Server

/-!
# What an event of the main loop does

A turn of the loop of `read_socket` ends the loop, or takes up a value. Taking
one up calls `handle`, unless the value is turned away or is part of the
handshake with the master.
-/

namespace Redis

open Lib

namespace TcpClient

section
variable {P : Platform} {o : IterOrder} {client client' : TcpClient} {h h' : CmdHandler} {fd : Nat} {epollFd : Int}

theorem handshakeToMaster_cases {cmd : Cmd} {buf : Bytes} {r : Except Bytes Bytes}
    (hs : client.handshakeToMaster P o h cmd buf fd epollFd = some (client', h', r)) :
    (∃ clientTable appStates, clientTable.slaves = h.clientTable.slaves ∧ h' = { h with clientTable, appStates }) ∨
      client' = client ∧ h.handle P o (.ok cmd) buf fd epollFd = some (h', r) := by
  unfold TcpClient.handshakeToMaster at hs
  split at hs
  · cases hs
    exact .inl ⟨_, _, rfl, rfl⟩
  · cases hs
    exact .inl ⟨_, _, rfl, rfl⟩
  · cases hs
    exact .inl ⟨_, _, rfl, rfl⟩
  · cases hs
    exact .inl ⟨h.clientTable.setMaster fd, _, rfl, rfl⟩
  · split at hs <;> cases hs <;> exact .inl ⟨_, _, rfl, rfl⟩
  · obtain ⟨⟨g, out⟩, hh, heq⟩ := Option.map_eq_some_iff.mp hs
    cases heq
    exact .inr ⟨rfl, hh⟩

theorem respond_cases {t : RespType} {reply : Bytes}
    (hr : client.respond P o h fd epollFd t = some (client', h', reply)) :
    (∃ clientTable appStates, clientTable.slaves = h.clientTable.slaves ∧ h' = { h with clientTable, appStates }) ∨
      client' = client ∧ ∃ cmd raw out, h.handle P o cmd raw fd epollFd = some (h', out) := by
  unfold TcpClient.respond at hr
  split at hr
  · split at hr
    · cases hr
      exact .inl ⟨_, _, rfl, rfl⟩
    · split at hr
      · obtain ⟨⟨client₁, g, out⟩, hs, heq⟩ := Option.map_eq_some_iff.mp hr
        cases heq
        rcases handshakeToMaster_cases hs with hsame | ⟨hclient, hh⟩
        · exact .inl hsame
        · exact .inr ⟨hclient, _, _, _, hh⟩
      · obtain ⟨⟨g, out⟩, hh, heq⟩ := Option.map_eq_some_iff.mp hr
        cases heq
        exact .inr ⟨rfl, _, _, _, hh⟩
  · obtain ⟨⟨g, out⟩, hh, heq⟩ := Option.map_eq_some_iff.mp hr
    cases heq
    exact .inr ⟨rfl, _, _, _, hh⟩
  · cases hr

end

end TcpClient

namespace Server

def Completes (client : TcpClient) : Prop := ∃ fuel p t, parseNext client fuel = some (p, .ok (some t))

def authorized (h : CmdHandler) (clientId : Nat) (cmd : Cmd) : Bool := cmd.isAuthCmd || h.auth.checkAuth clientId

section
variable {P : Platform} {server server' : Server}

theorem writeReply_cases (server : Server) (fd : Nat) (reply : Bytes) (written : Bool) :
    server.writeReply fd reply written = server.disconnect fd ∨
      ∃ sent, server.writeReply fd reply written = { server with sent } := by
  unfold writeReply
  split
  · exact .inr ⟨_, rfl⟩
  · split
    · exact .inr ⟨_, rfl⟩
    · exact .inl rfl

theorem step_turn {o : IterOrder} {fuel : Nat} {written : Bool}
    (hs : server.step P (.turn o fuel written) = some server') :
    ∃ fd client, server.reading = some fd ∧ server.clients.lookup fd = some client ∧
      server.turn P fd client o fuel written = some server' := by
  unfold Server.step at hs
  simp only at hs
  split at hs
  · cases hs
  · rename_i fd hreading
    split at hs
    · cases hs
    · rename_i client hclient
      exact ⟨fd, client, hreading, hclient, hs⟩

end

inductive Happens (P : Platform) (s : Server) : Event → Server → Prop
  | accepted {fd auth} : s.reading = none → fd ∉ s.clients →
    s.handler.auth.authenticate P fd none none = (auth, .ok ()) →
    Happens P s (.accept fd) { s with clients := s.clients.insert fd {}, handler := { s.handler with auth } }
  | nobody {fd data} : s.reading = none → s.clients.lookup fd = none → Happens P s (.read fd data) s
  | read {fd data client} : s.reading = none → s.clients.lookup fd = some client →
    Happens P s (.read fd data)
      { s with
        clients := s.clients.insert fd { client with respParser := client.respParser.feedBuf data }
        reading := some fd }
  | failed {o fuel written fd} : s.reading = some fd → s.takenUp (.turn o fuel written) = none →
    Happens P s (.turn o fuel written) (s.disconnect fd)
  | waits {o fuel written fd client} : s.reading = some fd → s.takenUp (.turn o fuel written) = none →
    fd ∈ s.clients → Happens P s
      (.turn o fuel written) { s with clients := s.clients.insert fd client, reading := none }
  | turned {o fuel written fd client₀ client t client' handler reply} : s.reading = some fd →
    s.clients.lookup fd = some client₀ → Completes client₀ → s.takenUp (.turn o fuel written) = some (fd, client, t) →
    client.respond P o s.handler fd s.epollFd t = some (client', handler, reply) →
    Happens P s (.turn o fuel written)
      ({ s with clients := s.clients.insert fd client', handler }.writeReply fd reply written)
  | gone {fd} : s.reading = none → s.clients.lookup fd = none → Happens P s (.hangup fd) s
  | hungUp {fd} : s.reading = none → fd ∈ s.clients → Happens P s (.hangup fd) (s.disconnect fd)
  | expired {handler} : s.reading = none → s.timerEnabled = true → s.handler.fires = true →
    s.handler.disarm.callbackDeadlineExpire = some handler →
    Happens P s .timer { s with handler, timerEnabled := false }
  | ended {o o' handler} : s.reading = none → handler = (s.handler.serveBacklogList o).serveBacklogStream o' →
    (∀ m ∈ handler.responseQueue, m.1 ∈ s.clients) →
    Happens P s (.endOfCycle o o')
      { s with handler := { handler with responseQueue := [] }, sent := s.sent ++ handler.responseQueue }

theorem step_happens {P : Platform} {s s' : Server} {e : Event} (hs : s.step P e = some s') : Happens P s e s' := by
  cases e with
  | accept fd =>
    simp only [step] at hs
    split at hs
    · rename_i hidle
      unfold accept at hs
      split at hs
      · rename_i auth _ hauth
        cases hs
        exact .accepted hidle.1 hidle.2 hauth
      · cases hs
    · cases hs
  | read fd data =>
    simp only [step] at hs
    split at hs
    · rename_i hidle
      cases hs
      unfold startRead
      split
      · rename_i hnone
        exact .nobody hidle.1 hnone
      · rename_i hclient
        exact .read hidle.1 hclient
    · cases hs
  | turn o fuel written =>
    obtain ⟨fd, client, hreading, hclient, hs⟩ := step_turn hs
    unfold Server.turn at hs
    cases hparse : parseNext client fuel with
    | none => simp [hparse] at hs
    | some x =>
      obtain ⟨p, e | _ | t⟩ := x
      · simp only [hparse] at hs
        cases hs
        exact .failed hreading (by simp only [takenUp, hreading, hclient, hparse])
      · simp only [hparse] at hs
        cases hs
        exact .waits hreading (by simp only [takenUp, hreading, hclient, hparse])
          (HashMap.mem_of_lookup hclient)
      · simp only [hparse] at hs
        obtain ⟨⟨client', handler, reply⟩, hr, rfl⟩ := Option.map_eq_some_iff.mp hs
        have htaken : s.takenUp (.turn o fuel written) = some (fd, { client with respParser := p }, t) := by
          simp only [takenUp, hreading, hclient, hparse]
        exact .turned hreading hclient ⟨fuel, p, t, hparse⟩ htaken hr
  | hangup fd =>
    simp only [step] at hs
    split at hs
    · rename_i hidle
      cases hs
      unfold hangup
      split
      · rename_i hnone
        exact .gone hidle hnone
      · rename_i hclient
        exact .hungUp hidle (HashMap.mem_of_lookup hclient)
    · cases hs
  | timer =>
    simp only [step] at hs
    split at hs
    · rename_i hfires
      obtain ⟨h', hc, rfl⟩ := Option.map_eq_some_iff.mp hs
      exact .expired hfires.1 hfires.2.1 hfires.2.2 hc
    · cases hs
  | endOfCycle o o' =>
    simp only [step] at hs
    split at hs
    · rename_i hidle
      unfold endOfCycle drain at hs
      simp only at hs
      split at hs
      · rename_i hall
        cases hs
        exact .ended hidle rfl fun m hm => of_decide_eq_true (List.all_eq_true.mp hall m hm)
      · cases hs
    · cases hs

theorem turn_cases {P : Platform} {s s' : Server} {o : IterOrder} {fuel : Nat} {written : Bool}
    (hs : s.step P (.turn o fuel written) = some s') :
    s.takenUp (.turn o fuel written) = none ∧
        ((∃ fd, s' = s.disconnect fd) ∨ ∃ clients, s' = { s with clients, reading := none }) ∨
      ∃ fd client t client' handler reply, s.reading = some fd ∧
        (∃ client₀, s.clients.lookup fd = some client₀ ∧ Completes client₀) ∧
        s.takenUp (.turn o fuel written) = some (fd, client, t) ∧
        client.respond P o s.handler fd s.epollFd t = some (client', handler, reply) ∧
        s' = { s with clients := s.clients.insert fd client', handler }.writeReply fd reply written := by
  cases step_happens hs with
  | failed _ htaken => exact .inl ⟨htaken, .inl ⟨_, rfl⟩⟩
  | waits _ htaken _ => exact .inl ⟨htaken, .inr ⟨_, rfl⟩⟩
  | turned hreading hclient hcomp htaken hr =>
    exact .inr ⟨_, _, _, _, _, _, hreading, ⟨_, hclient, hcomp⟩, htaken, hr, rfl⟩

end Server

end Redis
