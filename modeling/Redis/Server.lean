import Redis.Client

/-!
# The main loop

What `epoll_wait` reports, one event after the other, and the end of a cycle,
where the backlogs are served and the queue of responses is written out. The
turns of the loop of `read_socket` are events of their own, so that the state
between two commands of one read can be talked about. The timer is registered
as one-shot and its branch does not register it again.
-/

namespace Redis

open Lib

/-- `sent` is what was handed to the sockets. -/
structure Server where
  clients : HashMap Nat TcpClient := ∅
  handler : CmdHandler
  epollFd : Int := 0
  /-- The client whose `read_socket` is in its loop. -/
  reading : Option Nat := none
  timerEnabled : Bool := true
  sent : List (Nat × Bytes) := []

namespace Server

inductive Event where
  | accept (fd : Nat)
  /-- `read` returns bytes. -/
  | read (fd : Nat) (data : Bytes)
  /-- The loop of `read_socket`, with the number of turns `parse` may take, and
  whether the reply can be written. -/
  | turn (o : IterOrder) (fuel : Nat) (written : Bool)
  /-- `read` returns nothing, or fails. -/
  | hangup (fd : Nat)
  | timer
  | endOfCycle (o o' : IterOrder)

section
variable (P : Platform)

def accept (s : Server) (fd : Nat) : Option Server :=
  match s.handler.auth.authenticate P fd none none with
  | (auth, .ok _) => some { s with clients := s.clients.insert fd {}, handler := { s.handler with auth } }
  | (_, .error _) => none

/-- The other tables that have the client keep it. -/
def disconnect (s : Server) (fd : Nat) : Server :=
  { s with
    clients := s.clients.erase fd
    handler := { s.handler with
      clientTable := s.handler.clientTable.removeClient fd
      auth := s.handler.auth.removeAuth fd }
    reading := none }

def startRead (s : Server) (fd : Nat) (data : Bytes) : Server :=
  match s.clients.lookup fd with
  | none => s
  | some client =>
    { s with
      clients := s.clients.insert fd { client with respParser := client.respParser.feedBuf data }
      reading := some fd }

def hangup (s : Server) (fd : Nat) : Server :=
  match s.clients.lookup fd with
  | none => s
  | some _ => s.disconnect fd

/-- A reply of `read_socket`; a failure ends the connection. -/
def writeReply (s : Server) (fd : Nat) (reply : Bytes) (written : Bool) : Server :=
  if reply = [] then s
  else if written then { s with sent := s.sent ++ [(fd, reply)] }
  else s.disconnect fd

def parseNext (client : TcpClient) (fuel : Nat) : Option (RespParser × Except ParseError (Option RespType)) :=
  (client.respParser.parse client.parseRdb fuel).map fun
    | (p, .error e) => (p, .error e)
    | (p, .ok ()) =>
      match p.getCompleted with
      | none => (p, .ok none)
      | some (t, p) => (p, .ok (some t))

def turn (s : Server) (fd : Nat) (client : TcpClient) (o : IterOrder) (fuel : Nat) (written : Bool) :
    Option Server :=
  match parseNext client fuel with
  | none => none
  | some (_, .error _) => some (s.disconnect fd)
  | some (p, .ok none) =>
    some { s with clients := s.clients.insert fd { client with respParser := p }, reading := none }
  | some (p, .ok (some t)) =>
    (TcpClient.respond P o { client with respParser := p } s.handler fd s.epollFd t).map
      fun (client, handler, reply) =>
        { s with clients := s.clients.insert fd client, handler }.writeReply fd reply written

def expire (s : Server) : Option Server :=
  s.handler.disarm.callbackDeadlineExpire.map fun handler => { s with handler, timerEnabled := false }

def drain (s : Server) : Option Server :=
  if s.handler.responseQueue.all fun m => decide (m.1 ∈ s.clients) then
    some { s with
      handler := { s.handler with responseQueue := [] }
      sent := s.sent ++ s.handler.responseQueue }
  else none

def endOfCycle (s : Server) (o o' : IterOrder) : Option Server :=
  { s with handler := (s.handler.serveBacklogList o).serveBacklogStream o' }.drain

/-- An event that cannot happen has no successor, as a panic has none. -/
def step (s : Server) : Event → Option Server
  | .accept fd => if s.reading = none ∧ fd ∉ s.clients then s.accept P fd else none
  | .read fd data =>
    if s.reading = none ∧ data ≠ [] ∧ data.length ≤ bufferSize then some (s.startRead fd data) else none
  | .turn o fuel written =>
    match s.reading with
    | none => none
    | some fd =>
      match s.clients.lookup fd with
      | none => none
      | some client => s.turn P fd client o fuel written
  | .hangup fd => if s.reading = none then some (s.hangup fd) else none
  | .timer => if s.reading = none ∧ s.timerEnabled ∧ s.handler.fires then s.expire else none
  | .endOfCycle o o' => if s.reading = none then s.endOfCycle o o' else none

abbrev Steps (s : Server) (e : Event) (s' : Server) : Prop := s.step P e = some s'

end

def takenUp (s : Server) : Event → Option (Nat × TcpClient × RespType)
  | .turn _ fuel _ =>
    match s.reading with
    | none => none
    | some fd =>
      match s.clients.lookup fd with
      | none => none
      | some client =>
        match parseNext client fuel with
        | some (p, .ok (some t)) => some (fd, { client with respParser := p }, t)
        | _ => none
  | _ => none

end Server

end Redis
