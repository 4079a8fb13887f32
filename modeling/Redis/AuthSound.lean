import Redis.Events
import Redis.Sessions

/-!
# Who is let through

Without a credential a client gets AUTH through and nothing else. A client has
a credential if the default user had no password when its connection was
opened, or if it has logged in since; a connection that ends takes it along.
-/

namespace Redis

open Lib CmdHandler

def Auth.nopass (a : Auth) : Bool := (a.credentials.lookup "default").any Credential.hasNopass

inductive AuthEvent where
  | opened (fd : Nat) (nopass : Bool)
  | call (c : Call)

def LogsIn (P : Platform) (fd : Nat) : AuthEvent → Prop
  | .call c => c.clientId = fd ∧ ∃ username password credential, c.cmd = .auth username password ∧
      c.before.auth.credentials.lookup username = some credential ∧ P.sha256Hex password ∈ credential.passwords
  | .opened .. => False

def Opens (fd : Nat) (e : AuthEvent) : Prop := ∃ nopass, e = .opened fd nopass

/-- Since the connection was last opened: that needed no password, or the client has logged in. -/
def Granted (P : Platform) (fd : Nat) (trace : List AuthEvent) : Prop :=
  Since (· = .opened fd true) (¬ Opens fd ·) trace ∨ SinceSeen (Opens fd) (¬ Opens fd ·) (LogsIn P fd) trace

def TcpClient.handshakes (client : TcpClient) (cmd : Cmd) : Bool :=
  match client.handshakeState, cmd with
  | .ping, .pong | .replconf1, .ok | .replconf2, .ok | .psync, .fullresync .. | .established, .rdb _ => true
  | _, _ => false

def TcpClient.handsOver (P : Platform) (client : TcpClient) (h : CmdHandler) (fd : Nat) (t : RespType) :
    Option (Except CustomError Cmd × Bytes) :=
  match t.serialize, Cmd.fromResp P t with
  | some raw, .ok (.ok cmd) =>
    if !cmd.isAuthCmd && !h.auth.checkAuth fd then none
    else if client.replState.status = some .master ∧ client.handshakes cmd then none
    else some (.ok cmd, raw)
  | some raw, .ok (.error e) => some (.error e, raw)
  | _, _ => none

def authAfter (P : Platform) (o : IterOrder) (auth : Auth) (clientId : Nat) : Cmd → Auth
  | .acl opt => (cmdAcl P o auth clientId opt).1
  | .auth username password => (cmdAuth P auth username password clientId).1
  | _ => auth

namespace Server

variable (P : Platform)

def authEvents (s : Server) (e : Event) : List AuthEvent :=
  match e, s.takenUp e with
  | .accept fd, _ => [.opened fd s.handler.auth.nopass]
  | .turn o .., some (fd, client, t) =>
    match client.handsOver P s.handler fd t with
    | some (cmd, raw) => (s.handler.calls P (o, .handle cmd raw fd s.epollFd)).map .call
    | none => []
  | _, _ => []

def authTrace : Server → List Event → List AuthEvent
  | _, [] => []
  | s, e :: es =>
    match s.step P e with
    | some s' => s.authEvents P e ++ authTrace s' es
    | none => []

/-- Nobody is connected, or the link to the master, which was opened like any connection. -/
inductive Started (s : Server) : List AuthEvent → Prop
  | alone : s.clients = ∅ → s.handler.auth.clients = ∅ → Started s []
  | replica {fd : Nat} {client : TcpClient} {auth : Auth} : s.clients = AList.singleton fd client → auth.clients = ∅ →
    auth.authenticate P fd none none = (s.handler.auth, .ok ()) → Started s [.opened fd auth.nopass]

/-- A decoded command other than AUTH is executed for a client with a credential
only; for others it is answered with an error and nothing changes. And whoever
has a credential was granted one. -/
structure Gated (s : Server) (trace : List AuthEvent) : Prop where
  turnedAway : ∀ fd, fd ∉ s.handler.auth.clients → ∀ cmd, cmd.isAuthCmd = false →
    ∀ o client epollFd t client' h' reply, Cmd.fromResp P t = .ok (.ok cmd) →
      TcpClient.respond P o client s.handler fd epollFd t = some (client', h', reply) →
      client' = client ∧ h' = s.handler ∧ reply = TcpClient.noAuth
  granted : ∀ fd, fd ∈ s.handler.auth.clients → Granted P fd trace

structure Accounted (auth : Auth) (clients : HashMap Nat TcpClient) (trace : List AuthEvent) : Prop where
  connected : ∀ fd, fd ∈ auth.clients → fd ∈ clients
  opened : ∀ fd, fd ∈ clients → Since (Opens fd) (¬ Opens fd ·) trace
  granted : ∀ fd, fd ∈ auth.clients → Granted P fd trace

end Server

section
variable {P : Platform} {o : IterOrder}

/-! ## Executed commands -/

theorem cmdAcl_clients (auth : Auth) (clientId : Nat) (opt : CmdArg) :
    (cmdAcl P o auth clientId opt).1.clients = auth.clients := by
  cases opt with
  | setUser key rules =>
    simp only [cmdAcl, cmdAclSetuser]
    split <;> rfl
  | _ => rfl

theorem cmdAuth_clients {auth : Auth} {username password : String} {clientId fd : Nat}
    (h : fd ∈ (cmdAuth P auth username password clientId).1.clients) :
    fd ∈ auth.clients ∨ fd = clientId ∧ ∃ credential, auth.credentials.lookup username = some credential ∧
      P.sha256Hex password ∈ credential.passwords := by
  have hclients : (cmdAuth P auth username password clientId).1 =
      (auth.authenticate P clientId (some username) (some password)).1 := by
    unfold cmdAuth
    split <;> rename_i heq <;> rw [heq]
  rw [hclients] at h
  simp only [Auth.authenticate] at h
  split at h
  · rename_i credential hl
    split at h
    · rename_i hcheck
      rcases AList.mem_insert _ |>.mp h with rfl | h
      · exact .inr ⟨rfl, credential, hl, of_decide_eq_true hcheck⟩
      · exact .inl h
    · exact .inl h
  · exact .inl h

theorem dispatch_auth {exec : CmdHandler → Nat → Option (CmdHandler × CmdResult)} {h h' : CmdHandler}
    {now clientId : Nat}
    {isSubscriber : Bool} {epollFd : Option Int} {cmd : Cmd} {r : CmdResult} (hexec : NotNested exec h clientId)
    (hd : dispatch P o exec h now isSubscriber clientId epollFd cmd = some (h', r)) :
    h'.auth = authAfter P o h.auth clientId cmd := by
  cases cmd <;> simp only [dispatch, Option.some.injEq] at hd
  case set | xrange | zadd | zrank | zrange | zcard | zscore | zrem | geoadd | geopos | geodist =>
    obtain ⟨_, _, he⟩ := Option.map_eq_some_iff.mp hd
    cases he
    rfl
  case exec =>
    rw [hexec h' r hd]
    rfl
  case replconf arg =>
    rcases cmdReplconf_cases hd with rfl | ⟨_, rfl, ha⟩
    · rfl
    · obtain ⟨_, _, rfl, _⟩ := cmdAck_frame ha
      rfl
  case wait =>
    rcases cmdWait_cases hd with rfl | ⟨_, _, rfl, _⟩ <;> rfl
  case psync id offset =>
    obtain rfl : (cmdPsync h id offset clientId).1 = h' := congrArg Prod.fst hd
    rcases cmdPsync_cases h id offset clientId with heq | heq <;> rw [heq] <;> rfl
  case publish key message =>
    obtain rfl : (cmdPublish o h key message).1 = h' := congrArg Prod.fst hd
    obtain ⟨_, _, heq⟩ := cmdPublish_frame o h key message
    rw [heq]
    rfl
  case unsubscribe key =>
    obtain rfl : (cmdUnsubscribe h key clientId).1 = h' := congrArg Prod.fst hd
    obtain ⟨_, _, heq⟩ := cmdUnsubscribe_frame h key clientId
    rw [heq]
    rfl
  case subscribe keys =>
    obtain rfl : (cmdSubscribe h keys clientId).1 = h' := congrArg Prod.fst hd
    rfl
  all_goals
    cases hd
    rfl

theorem CmdHandler.Call.Made.auth {c : Call} (hm : c.Made P o) {fd : Nat} (h : fd ∈ c.after.auth.clients) :
    fd ∈ c.before.auth.clients ∨ LogsIn P fd (.call c) := by
  obtain ⟨_, _, exec, s, d, epollFd, ser, out, _, _, hexec, hd, hc⟩ := hm
  obtain ⟨_, _, _, _, _, _, hafter⟩ := conclude_frame hc
  have hauth := dispatch_auth hexec hd
  have hclients : fd ∈ (authAfter P o c.before.auth c.clientId c.cmd).clients := by
    rw [hafter] at h
    simp only [pushAll, hauth] at h
    exact h
  cases hcmd : c.cmd with
  | acl opt =>
    rw [hcmd, authAfter, cmdAcl_clients] at hclients
    exact .inl hclients
  | auth username password =>
    rw [hcmd] at hclients
    rcases cmdAuth_clients hclients with hold | ⟨rfl, credential, hl, hp⟩
    · exact .inl hold
    · exact .inr ⟨rfl, username, password, credential, hcmd, hl, hp⟩
  | _ =>
    rw [hcmd] at hclients
    exact .inl hclients

/-! ## What a value comes to -/

theorem handshakeToMaster_handed {client client' : TcpClient} {h h' : CmdHandler} {fd : Nat} {epollFd : Int} {cmd : Cmd}
    {raw : Bytes} {r : Except Bytes Bytes}
    (hs : client.handshakeToMaster P o h cmd raw fd epollFd = some (client', h', r)) :
    client.handshakes cmd = true ∧ (∃ clientTable appStates, h' = { h with clientTable, appStates }) ∨
      client.handshakes cmd = false ∧ h.handle P o (.ok cmd) raw fd epollFd = some (h', r) := by
  unfold TcpClient.handshakeToMaster at hs
  split at hs
  · rename_i hstate
    cases hs
    exact .inl ⟨by simp only [TcpClient.handshakes, hstate], _, _, rfl⟩
  · rename_i hstate
    cases hs
    exact .inl ⟨by simp only [TcpClient.handshakes, hstate], _, _, rfl⟩
  · rename_i hstate
    cases hs
    exact .inl ⟨by simp only [TcpClient.handshakes, hstate], _, _, rfl⟩
  · rename_i hstate
    cases hs
    exact .inl ⟨by simp only [TcpClient.handshakes, hstate], _, _, rfl⟩
  · rename_i hstate
    split at hs <;> cases hs <;> exact .inl ⟨by simp only [TcpClient.handshakes, hstate], _, _, rfl⟩
  · rename_i hping hreplconf1 hreplconf2 hpsync hrdb
    obtain ⟨⟨g, out⟩, hh, heq⟩ := Option.map_eq_some_iff.mp hs
    cases heq
    refine .inr ⟨?_, hh⟩
    unfold TcpClient.handshakes
    split
    · rename_i hstate
      exact (hping hstate rfl).elim
    · rename_i hstate
      exact (hreplconf1 hstate rfl).elim
    · rename_i hstate
      exact (hreplconf2 hstate rfl).elim
    · rename_i hstate
      exact (hpsync _ _ hstate rfl).elim
    · rename_i hstate
      exact (hrdb _ hstate rfl).elim
    · rfl

theorem respond_handed {client client' : TcpClient} {h h' : CmdHandler} {fd : Nat} {epollFd : Int} {t : RespType}
    {reply : Bytes} (hr : client.respond P o h fd epollFd t = some (client', h', reply)) :
    (∃ clientTable appStates, h' = { h with clientTable, appStates }) ∧ client.handsOver P h fd t = none ∨
      ∃ cmd raw out, client.handsOver P h fd t = some (cmd, raw) ∧
        h.handle P o cmd raw fd epollFd = some (h', out) := by
  unfold TcpClient.respond at hr
  split at hr
  · rename_i raw cmd hraw hcmd
    simp only [TcpClient.handsOver, hraw, hcmd]
    split at hr
    · rename_i hno
      cases hr
      exact .inl ⟨⟨_, _, rfl⟩, if_pos hno⟩
    · rename_i hpass
      rw [if_neg hpass]
      split at hr
      · rename_i hmaster
        obtain ⟨⟨client₁, g, out⟩, hs, heq⟩ := Option.map_eq_some_iff.mp hr
        cases heq
        rcases handshakeToMaster_handed hs with ⟨htakes, hsame⟩ | ⟨htakes, hh⟩
        · exact .inl ⟨hsame, if_pos ⟨hmaster, htakes⟩⟩
        · rw [if_neg fun hm => by rw [htakes] at hm; cases hm.2]
          exact .inr ⟨_, _, _, rfl, hh⟩
      · rename_i hmaster
        obtain ⟨⟨g, out⟩, hh, heq⟩ := Option.map_eq_some_iff.mp hr
        cases heq
        rw [if_neg fun hm => hmaster hm.1]
        exact .inr ⟨_, _, _, rfl, hh⟩
  · rename_i raw e hraw hcmd
    obtain ⟨⟨g, out⟩, hh, heq⟩ := Option.map_eq_some_iff.mp hr
    cases heq
    simp only [TcpClient.handsOver, hraw, hcmd]
    exact .inr ⟨_, _, _, rfl, hh⟩
  · cases hr

theorem respond_turnedAway {client client' : TcpClient} {h h' : CmdHandler} {fd : Nat} {epollFd : Int} {t : RespType}
    {cmd : Cmd} {reply : Bytes} (hno : fd ∉ h.auth.clients) (hcmd : Cmd.fromResp P t = .ok (.ok cmd))
    (hauth : cmd.isAuthCmd = false) (hr : client.respond P o h fd epollFd t = some (client', h', reply)) :
    client' = client ∧ h' = h ∧ reply = TcpClient.noAuth := by
  have hpass : (!cmd.isAuthCmd && !h.auth.checkAuth fd) = true := by
    rw [hauth, Auth.checkAuth, decide_eq_false hno]
    rfl
  unfold TcpClient.respond at hr
  rw [hcmd] at hr
  split at hr
  · rename_i heq
    cases heq
    rw [if_pos hpass] at hr
    cases hr
    exact ⟨rfl, rfl, rfl⟩
  · rename_i heq
    cases heq
  · cases hr

/-! ## The trace -/

namespace Server

variable {auth auth' : Auth} {clients : HashMap Nat TcpClient} {trace : List AuthEvent} {fd : Nat}

theorem Accounted.congr (h : Accounted P auth clients trace) {clients' : HashMap Nat TcpClient}
    (hc : ∀ fd, fd ∈ clients' ↔ fd ∈ clients) : Accounted P auth clients' trace :=
  ⟨fun fd hfd => (hc fd).mpr (h.connected fd hfd), fun fd hfd => h.opened fd ((hc fd).mp hfd), h.granted⟩

theorem Accounted.disconnect (h : Accounted P auth clients trace) (fd : Nat) :
    Accounted P (auth.removeAuth fd) (clients.erase fd) trace where
  connected := fun fd' hfd => by
    obtain ⟨hne, hin⟩ := AList.mem_erase.mp hfd
    exact AList.mem_erase.mpr ⟨hne, h.connected fd' hin⟩
  opened := fun fd' hfd => h.opened fd' (AList.mem_erase.mp hfd).2
  granted := fun fd' hfd => h.granted fd' (AList.mem_erase.mp hfd).2

theorem Accounted.call (h : Accounted P auth clients trace) {c : Call} (hin : c.clientId ∈ clients)
    (hafter : ∀ fd, fd ∈ auth'.clients → fd ∈ auth.clients ∨ LogsIn P fd (.call c)) :
    Accounted P auth' clients (trace ++ [.call c]) where
  connected := fun fd hfd => by
    rcases hafter fd hfd with hold | hlogs
    · exact h.connected fd hold
    · exact hlogs.1 ▸ hin
  opened := fun fd hfd => since_snoc.mpr (.inr ⟨h.opened fd hfd, fun ⟨_, hc⟩ => by cases hc⟩)
  granted := fun fd hfd => by
    have hcall : ¬ Opens fd (.call c) := fun ⟨_, hc⟩ => by cases hc
    rcases hafter fd hfd with hold | hlogs
    · rcases h.granted fd hold with hg | hg
      · exact .inl (since_snoc.mpr (.inr ⟨hg, hcall⟩))
      · exact .inr (sinceSeen_snoc.mpr ⟨hcall, .inl hg⟩)
    · exact .inr (sinceSeen_snoc.mpr ⟨hcall, .inr ⟨h.opened fd (hlogs.1 ▸ hin), hlogs⟩⟩)

theorem Accounted.accept (h : Accounted P auth clients trace) (hfree : fd ∉ clients) (client : TcpClient)
    (ha : auth.authenticate P fd none none = (auth', .ok ())) :
    Accounted P auth' (clients.insert fd client) (trace ++ [.opened fd auth.nopass]) := by
  have hother : ∀ {fd'}, fd' ≠ fd → ¬ Opens fd' (.opened fd auth.nopass) := by
    rintro fd' hne ⟨_, heq⟩
    cases heq
    exact hne rfl
  -- only the new client can have a new credential, and only without a password
  have hafter : ∀ fd', fd' ∈ auth'.clients → fd' ∈ auth.clients ∨ fd' = fd ∧ auth.nopass = true := by
    intro fd' hfd
    simp only [Auth.authenticate] at ha
    split at ha
    · cases ha
    · rename_i credential hl
      split at ha
      · rename_i hno
        cases ha
        rcases (AList.mem_insert _).mp hfd with rfl | hfd
        · exact .inr ⟨rfl, by simp [Auth.nopass, hl, hno]⟩
        · exact .inl hfd
      · cases ha
        exact .inl hfd
  refine ⟨fun fd' hfd => ?_, fun fd' hfd => ?_, fun fd' hfd => ?_⟩
  · rcases hafter fd' hfd with hold | ⟨rfl, _⟩
    · exact (AList.mem_insert _).mpr (.inr (h.connected fd' hold))
    · exact (AList.mem_insert _).mpr (.inl rfl)
  · by_cases hne : fd' = fd
    · exact since_snoc.mpr (.inl ⟨_, by rw [hne]⟩)
    · rcases (AList.mem_insert _).mp hfd with heq | hold
      · exact absurd heq hne
      · exact since_snoc.mpr (.inr ⟨h.opened fd' hold, hother hne⟩)
  · rcases hafter fd' hfd with hold | ⟨rfl, hno⟩
    · have hne : fd' ≠ fd := fun heq => hfree (heq ▸ h.connected fd' hold)
      rcases h.granted fd' hold with hg | hg
      · exact .inl (since_snoc.mpr (.inr ⟨hg, hother hne⟩))
      · exact .inr (sinceSeen_snoc.mpr ⟨hother hne, .inl hg⟩)
    · exact .inl (since_snoc.mpr (.inl (by rw [hno])))

theorem respond_accounted {h h' : CmdHandler} {client client' : TcpClient} {epollFd : Int} {t : RespType}
    {reply : Bytes}
    (ha : Accounted P h.auth clients trace) (hin : fd ∈ clients)
    (hr : client.respond P o h fd epollFd t = some (client', h', reply)) :
    Accounted P h'.auth clients (trace ++ match client.handsOver P h fd t with
      | some (cmd, raw) => (h.calls P (o, .handle cmd raw fd epollFd)).map .call
      | none => []) := by
  rcases respond_handed hr with ⟨⟨_, _, rfl⟩, hnone⟩ | ⟨cmd, raw, out, hsome, hh⟩
  · rw [hnone]
    simp only [List.append_nil]
    exact ha
  · rw [hsome]
    refine handle_calls (I := fun g cs => Accounted P g.auth clients (trace ++ cs.map AuthEvent.call))
      (fun _ _ _ hg => hg)
      (fun _ _ _ _ hg => hg) (fun c cs _ hm hid hg => ?_) hh (by rwa [List.map_nil, List.append_nil])
    rw [List.map_append, ← List.append_assoc]
    exact Accounted.call hg (hid ▸ hin) fun _ => hm.auth

variable {s s' : Server}

theorem writeReply_accounted (ha : Accounted P s.handler.auth s.clients trace) (reply : Bytes) (written : Bool) :
    Accounted P (s.writeReply fd reply written).handler.auth (s.writeReply fd reply written).clients trace := by
  rcases writeReply_cases s fd reply written with hends | ⟨_, hwritten⟩
  · rw [hends]
    exact ha.disconnect fd
  · rw [hwritten]
    exact ha

theorem mem_insert_known {client : TcpClient} (hin : fd ∈ clients) (fd' : Nat) :
    fd' ∈ clients.insert fd client ↔ fd' ∈ clients := by
  rw [AList.mem_insert]
  exact ⟨fun h => h.elim (fun heq => heq ▸ hin) id, .inr⟩

theorem expire_auth {h h' : CmdHandler} (hc : h.callbackDeadlineExpire = some h') : h'.auth = h.auth := by
  obtain ⟨_, _, _, ⟨_, _, hd⟩ | ⟨_, rfl⟩⟩ := callbackDeadlineExpire_cases hc
  · obtain ⟨_, _, rfl⟩ := deadlineTask_frame hd
    rfl
  · rfl

theorem step_accounted {e : Event} (ha : Accounted P s.handler.auth s.clients trace) (hs : s.step P e = some s') :
    Accounted P s'.handler.auth s'.clients (trace ++ s.authEvents P e) := by
  cases step_happens hs with
  | accepted _ hfree hauth => exact ha.accept hfree {} hauth
  | nobody | gone =>
    simp only [authEvents, List.append_nil]
    exact ha
  | read _ hclient =>
    simp only [authEvents, List.append_nil]
    exact ha.congr (mem_insert_known (HashMap.mem_of_lookup hclient))
  | failed _ htaken =>
    simp only [authEvents, htaken, List.append_nil]
    exact ha.disconnect _
  | waits _ htaken hin =>
    simp only [authEvents, htaken, List.append_nil]
    exact ha.congr (mem_insert_known hin)
  | turned _ hclient _ htaken hr =>
    have hin := AList.lookup_isSome.mp (Option.isSome_iff_exists.mpr ⟨_, hclient⟩)
    simp only [authEvents, htaken]
    refine writeReply_accounted ?_ _ _
    exact (respond_accounted ha hin hr).congr (mem_insert_known hin)
  | hungUp =>
    simp only [authEvents, List.append_nil]
    exact ha.disconnect _
  | expired _ _ _ hc =>
    simp only [authEvents, List.append_nil]
    rw [expire_auth hc]
    exact ha
  | @ended o o' handler _ hserved _ =>
    simp only [authEvents, List.append_nil]
    obtain ⟨_, _, _, _, _, hlist⟩ := step_frame (P := P) (o := o) (e := .serveBacklogList) (h := s.handler) rfl
      (fun _ _ _ _ h => by cases h) (fun _ _ _ h => by cases h)
    obtain ⟨_, _, _, _, _, hstream⟩ := step_frame (P := P) (o := o') (e := .serveBacklogStream)
      (h := s.handler.serveBacklogList o) rfl (fun _ _ _ _ h => by cases h) (fun _ _ _ h => by cases h)
    rw [hserved, hstream, hlist]
    exact ha

theorem Started.accounted (hs : Started P s trace) : Accounted P s.handler.auth s.clients trace := by
  cases hs with
  | alone hclients hauth =>
    refine ⟨fun fd hfd => ?_, fun fd hfd => ?_, fun fd hfd => ?_⟩
    · rw [hauth] at hfd
      exact absurd hfd (AList.notMem_empty fd)
    · rw [hclients] at hfd
      exact absurd hfd (AList.notMem_empty fd)
    · rw [hauth] at hfd
      exact absurd hfd (AList.notMem_empty fd)
  | @replica fd client auth hclients hauth hopened =>
    have hnone : Accounted P auth ∅ [] := by
      refine ⟨fun fd hfd => ?_, fun fd hfd => absurd hfd (AList.notMem_empty fd), fun fd hfd => ?_⟩
      · rw [hauth] at hfd
        exact absurd hfd (AList.notMem_empty fd)
      · rw [hauth] at hfd
        exact absurd hfd (AList.notMem_empty fd)
    rw [hclients, ← AList.insert_empty]
    exact hnone.accept (AList.notMem_empty fd) client hopened

theorem run_accounted {es : List Event} (hr : Run (Steps P) s es s') (ha : Accounted P s.handler.auth s.clients trace) :
    Accounted P s'.handler.auth s'.clients (trace ++ authTrace P s es) := by
  induction hr generalizing trace with
  | nil =>
    rw [authTrace, List.append_nil]
    exact ha
  | @cons u e v es t hstep _ ih =>
    have htrace : authTrace P u (e :: es) = u.authEvents P e ++ authTrace P v es := by
      have hstep' : u.step P e = some v := hstep
      rw [authTrace, hstep']
    rw [htrace, ← List.append_assoc]
    exact ih (step_accounted ha hstep)

/-- In every run a client without a credential gets nothing but AUTH through, and
a client has a credential only if its connection was granted one. -/
theorem run_gated {start : Server} {opened : List AuthEvent} (hstart : Started P start opened) {es : List Event}
    (hr : Run (Steps P) start es s) : Gated P s (opened ++ authTrace P start es) :=
  ⟨fun _ hno _ hauth _ _ _ _ _ _ _ hcmd => respond_turnedAway hno hcmd hauth,
    (run_accounted hr hstart.accounted).granted⟩

/-- Client 5 sets a password for the default user, and client 6 sends PING without it. -/
def pingTurnedAway : List Event :=
  [.accept 5, .read 5 (utf8 "*4\r\n$3\r\nACL\r\n$7\r\nSETUSER\r\n$7\r\ndefault\r\n$2\r\n>p\r\n"),
    .turn .asIs 40 true, .turn .asIs 40 true, .accept 6, .read 6 (utf8 "*1\r\n$4\r\nPING\r\n"), .turn .asIs 40 true,
    .turn .asIs 40 true]

def loggedIn : List Event :=
  pingTurnedAway ++ [.read 6 (utf8 "*3\r\n$4\r\nAUTH\r\n$7\r\ndefault\r\n$1\r\np\r\n"), .turn .asIs 40 true]

theorem run_gated_login : ∃ s s', Run (Steps .blank) { handler := .startup } pingTurnedAway s ∧
    (6, TcpClient.noAuth) ∈ s.sent ∧ 6 ∉ s.handler.auth.clients ∧
    Gated .blank s (authTrace .blank { handler := .startup } pingTurnedAway) ∧
    Run (Steps .blank) { handler := .startup } loggedIn s' ∧
    Granted .blank 6 (authTrace .blank { handler := .startup } loggedIn) := by
  have hafter : (pingTurnedAway.foldlM (step .blank) { handler := .startup }).map (fun s =>
      (decide ((6, TcpClient.noAuth) ∈ s.sent), decide (6 ∈ s.handler.auth.clients))) = some (true, false) := by
    decide +kernel
  have hlogin : (loggedIn.foldlM (step .blank) { handler := .startup }).map (fun s =>
      decide (6 ∈ s.handler.auth.clients)) = some true := by
    decide +kernel
  obtain ⟨s, hs, hv⟩ := Option.map_eq_some_iff.mp hafter
  obtain ⟨hsent, hno⟩ := Prod.mk.inj hv
  obtain ⟨s', hs', hin⟩ := Option.map_eq_some_iff.mp hlogin
  have hrun : Run (Steps .blank) { handler := .startup } pingTurnedAway s := .of_foldlM hs
  have hrun' : Run (Steps .blank) { handler := .startup } loggedIn s' := .of_foldlM hs'
  exact ⟨s, s', hrun, of_decide_eq_true hsent, of_decide_eq_false hno, run_gated (.alone rfl rfl) hrun, hrun',
    (run_gated (.alone rfl rfl) hrun').granted 6 (of_decide_eq_true hin)⟩

end Server

end

end Redis
