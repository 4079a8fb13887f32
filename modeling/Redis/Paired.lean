import Redis.AlikeSound
import Redis.Events

/-!
# Servers that differ in sessions

Two servers are alike but for some clients if they differ only in what belongs to
these. The same event of somebody else keeps them alike; if they are alike for
every client, each is sent the same.
-/

namespace Redis

open Lib

namespace Server

open CmdHandler

/-- Two servers differ only in what belongs to these clients, and in what was sent before. -/
structure Alike (F : Nat → Prop) (a b : Server) : Prop where
  handler : a.handler.Alike F b.handler
  clients : ∀ id, ¬ F id → a.clients.lookup id = b.clients.lookup id
  present : ∀ id, id ∈ a.clients ↔ id ∈ b.clients
  reading : ∀ id, ¬ F id → (a.reading = some id ↔ b.reading = some id)
  epollFd : a.epollFd = b.epollFd
  timerEnabled : a.timerEnabled = b.timerEnabled

def SameSent (a a' b b' : Server) : Prop :=
  ∃ new new', a'.sent = a.sent ++ new ∧ b'.sent = b.sent ++ new' ∧
    ∀ id, new.filter (fun m => m.1 = id) = new'.filter (fun m => m.1 = id)

/-- What comes of two servers that are alike, as far as the same clients are there
afterwards; if they are alike for all clients, what one can do the other can. -/
structure Paired (F : Nat → Prop) (a b : Server) (x y : Option Server) : Prop where
  alike : ∀ a' b', x = some a' → y = some b' → (∀ id, id ∈ a'.clients ↔ id ∈ b'.clients) → a'.Alike F b'
  same : (∀ id, ¬ F id) → ∀ a', x = some a' →
    ∃ b', y = some b' ∧ (∀ id, id ∈ a'.clients ↔ id ∈ b'.clients) ∧ SameSent a a' b b'

section
variable {F : Nat → Prop} {P : Platform} {o : IterOrder} {a b c c' a' b' : Server} {x y : Option Server} {fd : Nat}

theorem Alike.refl (F : Nat → Prop) (a : Server) : a.Alike F a :=
  ⟨.refl _ _, fun _ _ => rfl, fun _ => Iff.rfl, fun _ _ => Iff.rfl, rfl, rfl⟩

theorem Alike.mono {F' : Nat → Prop} (h : a.Alike F b) (hF : ∀ id, F id → F' id) : a.Alike F' b :=
  ⟨h.handler.mono hF, fun id hid => h.clients id fun hf => hid (hF id hf), h.present,
    fun id hid => h.reading id fun hf => hid (hF id hf), h.epollFd, h.timerEnabled⟩

theorem Alike.symm (h : a.Alike F b) : b.Alike F a :=
  ⟨h.handler.symm, fun id hid => (h.clients id hid).symm, fun id => (h.present id).symm,
    fun id hid => (h.reading id hid).symm, h.epollFd.symm, h.timerEnabled.symm⟩

theorem Alike.trans (h : a.Alike F b) (h' : b.Alike F c) : a.Alike F c :=
  ⟨h.handler.trans h'.handler, fun id hid => (h.clients id hid).trans (h'.clients id hid),
    fun id => (h.present id).trans (h'.present id), fun id hid => (h.reading id hid).trans (h'.reading id hid),
    h.epollFd.trans h'.epollFd, h.timerEnabled.trans h'.timerEnabled⟩

theorem SameSent.refl (a b : Server) : SameSent a a b b := ⟨[], [], by simp, by simp, fun _ => rfl⟩

theorem SameSent.trans {a'' b'' : Server} (h : SameSent a a' b b') (h' : SameSent a' a'' b' b'') :
    SameSent a a'' b b'' := by
  obtain ⟨m, n, ha, hb, hsame⟩ := h
  obtain ⟨m', n', ha', hb', hsame'⟩ := h'
  refine ⟨m ++ m', n ++ n', by rw [ha', ha, List.append_assoc], by rw [hb', hb, List.append_assoc], fun id => ?_⟩
  rw [List.filter_append, List.filter_append, hsame id, hsame' id]

theorem Paired.none : Paired F a b none y := ⟨fun _ _ h => (by cases h), fun _ _ h => (by cases h)⟩

theorem Paired.some (h : (∀ id, id ∈ a'.clients ↔ id ∈ b'.clients) → a'.Alike F b')
    (hsame : (∀ id, ¬ F id) → (∀ id, id ∈ a'.clients ↔ id ∈ b'.clients) ∧ SameSent a a' b b') :
    Paired F a b (some a') (some b') := by
  refine ⟨fun a₁ b₁ hx hy hin => ?_, fun hF a₁ hx => ?_⟩
  · cases hx
    cases hy
    exact h hin
  · cases hx
    exact ⟨b', rfl, hsame hF⟩

theorem Paired.guard {p q : Prop} [Decidable p] [Decidable q] (hpq : (∀ id, ¬ F id) → p → q)
    (h : p → q → Paired F a b x y) :
    Paired F a b (if p then x else Option.none) (if q then y else Option.none) := by
  by_cases hp : p
  · rw [if_pos hp]
    by_cases hq : q
    · rw [if_pos hq]
      exact h hp hq
    · rw [if_neg hq]
      exact ⟨fun _ _ _ hy => (by cases hy), fun hF => absurd (hpq hF hp) hq⟩
  · rw [if_neg hp]
    exact .none

theorem Alike.idle (h : a.Alike F b) (hF : ∀ id, ¬ F id) (ha : a.reading = none) : b.reading = none := by
  refine Option.eq_none_iff_forall_ne_some.mpr fun id hid => ?_
  rw [(h.reading id (hF id)).mpr hid] at ha
  cases ha

/-! ## Events -/

theorem Alike.insertClient (h : a.Alike F b) (fd : Nat) {client client' : TcpClient} (hc : ¬ F fd → client = client')
    {g g' : CmdHandler} (hg : g.Alike F g') :
    Alike F { a with clients := a.clients.insert fd client, handler := g }
      { b with clients := b.clients.insert fd client', handler := g' } := by
  refine ⟨hg, fun id hid => ?_, fun id => ?_, h.reading, h.epollFd, h.timerEnabled⟩
  · by_cases hfd : id = fd
    · subst hfd
      simp only [AList.lookup_insert, hc hid]
    · simp only [AList.lookup_insert_ne hfd]
      exact h.clients id hid
  · simp only [AList.mem_insert, h.present id]

theorem Alike.setReading (h : a.Alike F b) (reading : Option Nat) : Alike F { a with reading } { b with reading } :=
  ⟨h.handler, h.clients, h.present, fun _ _ => Iff.rfl, h.epollFd, h.timerEnabled⟩

theorem Alike.disconnect (h : a.Alike F b) (fd : Nat) : (a.disconnect fd).Alike F (b.disconnect fd) := by
  obtain ⟨g, X, Y, hs, hX, hY⟩ := h.handler
  refine ⟨⟨{ g with clientTable := g.clientTable.removeClient fd, auth := g.auth.removeAuth fd }, X, Y, hs, ?_, ?_⟩,
    fun id hid => ?_, fun id => ?_, fun _ _ => Iff.rfl, h.epollFd, h.timerEnabled⟩
  · simp only [Server.disconnect, hX]
    rfl
  · simp only [Server.disconnect, hY]
    rfl
  · by_cases hfd : id = fd
    · subst hfd
      simp only [Server.disconnect, AList.lookup_erase]
    · simp only [Server.disconnect, AList.lookup_erase_ne hfd]
      exact h.clients id hid
  · simp only [Server.disconnect, AList.mem_erase, h.present id]

theorem writeReply_alike (h : a.Alike F b) {reply reply' : Bytes} {written : Bool} (hfd : fd ∈ a.clients)
    (hin : ∀ id, id ∈ (a.writeReply fd reply written).clients ↔ id ∈ (b.writeReply fd reply' written).clients) :
    (a.writeReply fd reply written).Alike F (b.writeReply fd reply' written) := by
  have hgone : ∀ s : Server, fd ∉ (s.disconnect fd).clients := fun s hmem => (AList.mem_erase.mp hmem).1 rfl
  have hsent : ∀ sent sent', Alike F { a with sent } { b with sent := sent' } := fun _ _ =>
    ⟨h.handler, h.clients, h.present, h.reading, h.epollFd, h.timerEnabled⟩
  rcases writeReply_cases a fd reply written with ha | ⟨sent, ha⟩ <;>
    rcases writeReply_cases b fd reply' written with hb | ⟨sent', hb⟩
  · rw [ha, hb]
    exact h.disconnect fd
  · rw [ha, hb] at hin
    exact absurd ((hin fd).mpr ((h.present fd).mp hfd)) (hgone a)
  · rw [ha, hb] at hin
    exact absurd ((hin fd).mp hfd) (hgone b)
  · rw [ha, hb]
    exact hsent sent sent'

theorem writeReply_same (h : a.Alike F b) (hsame : SameSent c a c' b) (fd : Nat) (reply : Bytes)
    (written : Bool) :
    (∀ id, id ∈ (a.writeReply fd reply written).clients ↔ id ∈ (b.writeReply fd reply written).clients) ∧
      SameSent c (a.writeReply fd reply written) c' (b.writeReply fd reply written) := by
  unfold writeReply
  split
  · exact ⟨h.present, hsame⟩
  · split
    · refine ⟨h.present, hsame.trans ⟨[(fd, reply)], [(fd, reply)], rfl, rfl, fun _ => rfl⟩⟩
    · exact ⟨(h.disconnect fd).present, hsame⟩

theorem accept_paired (h : a.Alike F b) : Paired F a b (a.step P (.accept fd)) (b.step P (.accept fd)) := by
  refine .guard (fun hF hc => ⟨h.idle hF hc.1, fun hin => hc.2 ((h.present fd).mpr hin)⟩) fun ha hb => ?_
  obtain ⟨g, X, Y, hs, hX, hY⟩ := h.handler
  have hauth : a.handler.auth = b.handler.auth := by rw [hX, hY]; rfl
  unfold accept
  rw [hauth]
  split
  · rename_i auth _ _
    have hhandler : { a.handler with auth }.Alike F { b.handler with auth } := by
      rw [hX, hY]
      exact ⟨{ g with auth }, X, Y, hs, rfl, rfl⟩
    have hinsert := h.insertClient fd (fun _ => Eq.refl ({} : TcpClient)) hhandler
    exact .some (fun _ => hinsert) fun _ => ⟨hinsert.present, .refl _ _⟩
  · exact .none

theorem read_paired {data : Bytes} (h : a.Alike F b) :
    Paired F a b (a.step P (.read fd data)) (b.step P (.read fd data)) := by
  refine .guard (fun hF hc => ⟨h.idle hF hc.1, hc.2⟩) fun ha hb => ?_
  unfold startRead
  rcases HashMap.lookup_both (h.present fd) with ⟨hla, hlb⟩ | ⟨client, client', hla, hlb⟩
  · rw [hla, hlb]
    exact .some (fun _ => h) fun _ => ⟨h.present, .refl _ _⟩
  · rw [hla, hlb]
    have hclient : ¬ F fd → client = client' := fun hfd => by
      have hsame := h.clients fd hfd
      rw [hla, hlb] at hsame
      exact Option.some.inj hsame
    have hfed : ¬ F fd → ({ client with respParser := client.respParser.feedBuf data } : TcpClient) =
        { client' with respParser := client'.respParser.feedBuf data } := fun hfd => by rw [hclient hfd]
    have hinsert := (h.insertClient fd hfed h.handler).setReading (some fd)
    exact .some (fun _ => hinsert) fun _ => ⟨hinsert.present, .refl _ _⟩

theorem hangup_paired (h : a.Alike F b) : Paired F a b (a.step P (.hangup fd)) (b.step P (.hangup fd)) := by
  refine .guard (fun hF hc => h.idle hF hc) fun ha hb => ?_
  unfold hangup
  rcases HashMap.lookup_both (h.present fd) with ⟨hla, hlb⟩ | ⟨client, client', hla, hlb⟩
  · rw [hla, hlb]
    exact .some (fun _ => h) fun _ => ⟨h.present, .refl _ _⟩
  · rw [hla, hlb]
    exact .some (fun _ => h.disconnect fd) fun _ => ⟨(h.disconnect fd).present, .refl _ _⟩

theorem timer_paired (h : a.Alike F b) : Paired F a b (a.step P .timer) (b.step P .timer) := by
  have hfires : a.handler.fires = b.handler.fires := by
    unfold fires
    rw [h.handler.timer]
  refine .guard (fun hF hc => ⟨h.idle hF hc.1, h.timerEnabled ▸ hc.2.1, hfires ▸ hc.2.2⟩) fun ha hb => ?_
  unfold expire
  cases hx : a.handler.disarm.callbackDeadlineExpire with
  | none => exact .none
  | some g =>
    obtain ⟨g', hg', hgg'⟩ := expire_alike h.handler hx
    rw [hg']
    have halike :
        Alike F { a with handler := g, timerEnabled := false } { b with handler := g', timerEnabled := false } :=
      ⟨hgg', h.clients, h.present, h.reading, h.epollFd, rfl⟩
    exact .some (fun _ => halike) fun _ => ⟨h.present, .refl _ _⟩

theorem queue_members {q q' : List (Nat × Bytes)} {clients clients' : HashMap Nat TcpClient}
    (hq : ∀ id, q.filter (fun m => m.1 = id) = q'.filter (fun m => m.1 = id)) (hc : ∀ id, id ∈ clients ↔ id ∈ clients')
    (hall : (q.all fun m => decide (m.1 ∈ clients)) = true) : (q'.all fun m => decide (m.1 ∈ clients')) = true := by
  refine List.all_eq_true.mpr fun m hm => decide_eq_true ((hc m.1).mp ?_)
  have hin : m ∈ q'.filter (fun m' => m'.1 = m.1) := List.mem_filter.mpr ⟨hm, decide_eq_true rfl⟩
  rw [← hq m.1] at hin
  exact of_decide_eq_true (List.all_eq_true.mp hall m (List.mem_of_mem_filter hin))

theorem emptied_alike {g g' : CmdHandler} (h : g.Alike F g') :
    CmdHandler.Alike F { g with responseQueue := [] } { g' with responseQueue := [] } := by
  obtain ⟨hplain, hfull⟩ := alike_iff.mp h
  have hqueue : SessionState.Alike F { g.full with queue := [] } { g'.full with queue := [] } :=
    { hfull with queue := fun _ _ => rfl }
  exact alike_iff.mpr ⟨hplain, hqueue⟩

theorem endOfCycle_paired {o' : IterOrder} (h : a.Alike F b) :
    Paired F a b (a.step P (.endOfCycle o o')) (b.step P (.endOfCycle o o')) := by
  refine .guard (fun hF hc => h.idle hF hc) fun _ _ => ?_
  have hserved : ((a.handler.serveBacklogList o).serveBacklogStream o').Alike F
      ((b.handler.serveBacklogList o).serveBacklogStream o') := serve_alike o o' h.handler
  obtain ⟨_, hfull⟩ := alike_iff.mp hserved
  unfold endOfCycle drain
  simp only
  refine .guard (fun hF hall => queue_members (fun id => hfull.queue id (hF id)) h.present hall) fun _ _ => ?_
  refine .some (fun _ => ⟨emptied_alike hserved, h.clients, h.present, h.reading, h.epollFd, h.timerEnabled⟩)
    fun hF => ?_
  exact ⟨h.present, _, _, rfl, rfl, fun id => hfull.queue id (hF id)⟩

theorem respond_paired {client client' : TcpClient} (o : IterOrder) (t : RespType) (written : Bool) (h : a.Alike F b)
    (ha : Agrees a.handler.sessions b.handler.sessions fd)
    (hclosed : F fd → a.handler.registry.backlogTxn.lookup fd = none)
    (hc : client = client' ∨ F fd ∧ client.replState.status ≠ some .master ∧ client'.replState.status ≠ some .master) :
    Paired F a b
      ((client.respond P o a.handler fd a.epollFd t).map fun (client, handler, reply) =>
        { a with clients := a.clients.insert fd client, handler }.writeReply fd reply written)
      ((client'.respond P o b.handler fd b.epollFd t).map fun (client, handler, reply) =>
        { b with clients := b.clients.insert fd client, handler }.writeReply fd reply written) := by
  obtain ⟨g, X, Y, hs, hX, hY⟩ := h.handler
  have hmatched : Matched F (fun r r' => client = client' → r.1 = r'.1)
      (handlerFirst (client.respond P o a.handler fd a.epollFd t))
      (handlerFirst (client'.respond P o b.handler fd b.epollFd t)) := by
    rw [hX, hY, h.epollFd]
    rw [hX, hY] at ha
    rw [hX] at hclosed
    exact respond_matched hs ⟨ha.backlogTxn, ha.subscribers⟩ hclosed hc
  have hsame : ¬ F fd → client = client' := fun hF => hc.resolve_right fun hd => hF hd.1
  refine ⟨fun a' b' hx hy hin => ?_, fun hF a' hx => ?_⟩
  · obtain ⟨⟨c, d, reply⟩, hr, rfl⟩ := Option.map_eq_some_iff.mp hx
    obtain ⟨⟨c', d', reply'⟩, hr', rfl⟩ := Option.map_eq_some_iff.mp hy
    obtain ⟨hdd, hcc⟩ := hmatched.alike d (c, reply) d' (c', reply') (by rw [hr]; rfl) (by rw [hr']; rfl)
    have hinsert := h.insertClient fd (fun hF => hcc (hsame hF)) hdd
    exact writeReply_alike hinsert ((AList.mem_insert _).mpr (.inl rfl)) hin
  · obtain ⟨⟨c, d, reply⟩, hr, rfl⟩ := Option.map_eq_some_iff.mp hx
    have hout := hmatched.same hF
    rw [hr] at hout
    obtain ⟨_, hfirst, hsnd⟩ := Option.map_eq_some_iff.mp hout.symm
    obtain ⟨⟨c', d', reply'⟩, hr', rfl⟩ := Option.map_eq_some_iff.mp hfirst
    cases hsnd
    have hdd : d.Alike F d' := (hmatched.alike d (c, reply) d' (c, reply) (by rw [hr]; rfl) (by rw [hr']; rfl)).1
    have hinsert := h.insertClient fd (fun _ => Eq.refl c) hdd
    have hsent : SameSent a { a with clients := a.clients.insert fd c, handler := d } b
        { b with clients := b.clients.insert fd c, handler := d' } := ⟨[], [], by simp, by simp, fun _ => rfl⟩
    have hwritten := writeReply_same hinsert hsent fd reply written
    exact ⟨_, by rw [hr']; rfl, hwritten⟩

theorem turn_paired {fuel : Nat} {written : Bool} (h : a.Alike F b) (hother : ∀ id, a.reading = some id → ¬ F id) :
    Paired F a b (a.step P (.turn o fuel written)) (b.step P (.turn o fuel written)) := by
  unfold Server.step
  cases hra : a.reading with
  | none => exact .none
  | some fd =>
    have hF := hother fd hra
    rw [(h.reading fd hF).mp hra]
    simp only
    rw [← h.clients fd hF]
    cases hla : a.clients.lookup fd with
    | none => exact .none
    | some client =>
      have hin : fd ∈ a.clients := HashMap.mem_of_lookup hla
      simp only
      unfold turn
      cases parseNext client fuel with
      | none => exact .none
      | some x =>
        obtain ⟨p, e | _ | t⟩ := x
        · exact .some (fun _ => h.disconnect fd) fun _ => ⟨(h.disconnect fd).present, .refl _ _⟩
        · have hinsert := (h.insertClient fd
            (fun _ => Eq.refl { client with respParser := p }) h.handler).setReading none
          exact .some (fun _ => hinsert) fun _ => ⟨hinsert.present, .refl _ _⟩
        · obtain ⟨_, hfull⟩ := alike_iff.mp h.handler
          exact respond_paired o t written h ⟨hfull.backlogTxn fd hF, hfull.subscribers fd hF⟩
            (fun hf => absurd hf hF) (.inl rfl)

theorem step_paired {e : Event} (h : a.Alike F b) (hother : ∀ id, a.reading = some id → ¬ F id) :
    Paired F a b (a.step P e) (b.step P e) := by
  cases e with
  | accept fd => exact accept_paired h
  | read fd data => exact read_paired h
  | turn o fuel written => exact turn_paired h hother
  | hangup fd => exact hangup_paired h
  | timer => exact timer_paired h
  | endOfCycle o o' => exact endOfCycle_paired h

end

end Server

end Redis
