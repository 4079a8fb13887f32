import Redis.CmdHandler
import Redis.Lib.Runs

/-!
# Dispatch

`_execute_cmd`, EXEC, `handle`, and what the main loop calls on the handler:
the two passes over the backlogs and the callback of the timer. `Event` and
`step` make a transition system of them; a panic has no successor. The orders
in which hash containers are read are part of the label of a step.

`_execute_cmd` calls EXEC and EXEC calls `_execute_cmd`, but only on commands a
transaction can hold. So `dispatch` takes EXEC as a parameter, and the queue of
a transaction runs without it.
-/

namespace Redis

open Lib

inductive CmdOutput where
  | resp (r : RespType)
  | bytes (v : Bytes)
  | none

namespace CmdOutput

def extractResp : CmdOutput → Option RespType
  | resp r => some r
  | _ => Option.none

def extractBytes : CmdOutput → Option Bytes
  | bytes v => some v
  | _ => Option.none

end CmdOutput

def outputOf : Except CmdOutput CmdOutput → CmdOutput
  | .ok out | .error out => out

namespace CmdHandler

def withData (h : CmdHandler) (r : Data × CmdResult) : CmdHandler × CmdResult := ({ h with data := r.1 }, r.2)

def withRegistry (h : CmdHandler) (r : RequestRegistry × CmdResult) : CmdHandler × CmdResult :=
  ({ h with registry := r.1 }, r.2)

def withAuth (h : CmdHandler) (r : Auth × CmdResult) : CmdHandler × CmdResult := ({ h with auth := r.1 }, r.2)

section
variable (P : Platform) (o : IterOrder)

/-! ## One command -/

section
variable (exec : CmdHandler → Nat → Option (CmdHandler × CmdResult))

def dispatch (h : CmdHandler) (now : Nat) (isSubscriber : Bool) (clientId : Nat) (epollFd : Option Int) :
    Cmd → Option (CmdHandler × CmdResult)
  | .ping => some (h, cmdPing isSubscriber)
  | .pong | .ok | .fullresync .. | .rdb _ | .psubscribe | .punsubscribe | .quit => some (h, .ok none)
  | .echo s => some (h, cmdEcho s)
  | .set key value opt => (cmdSet h.data key value opt now).map h.withData
  | .get key => some (h, cmdGet h.data key now)
  | .rpush key value => some (h.withData (cmdRpush h.data key value))
  | .lrange key start stop => some (h, cmdLrange h.data key start stop)
  | .lpush key value => some (h.withData (cmdLpush h.data key value))
  | .llen key => some (h, cmdLlen h.data key)
  | .lpop key length => some (h.withData (cmdLpop h.data key length))
  | .blpop key timeoutMs =>
    let ((data, registry), r) := cmdBlpop h.data h.registry key timeoutMs clientId now
    some ({ h with data, registry }, r)
  | .type key => some (h, cmdType h.data key)
  | .xadd key id value => some (h.withData (cmdXadd h.data key id value now))
  | .xrange key start stop => (cmdXrange h.data key start stop).map (h, ·)
  | .xread count blockMs stream =>
    some (h.withRegistry (cmdXread h.data h.registry count blockMs stream clientId now))
  | .incr key => some (h.withData (cmdIncr h.data key))
  | .multi => some (h.withRegistry (cmdMulti h.registry clientId))
  | .exec => exec h clientId
  | .discard => some (h.withRegistry (cmdDiscard h.registry clientId))
  | .watch keys => some (h.withRegistry (cmdWatch h.registry keys clientId))
  | .unwatch => some (h.withRegistry (cmdUnwatch h.registry clientId))
  | .info key => some (h, cmdInfo h.appStates key)
  | .psync id offset => some (cmdPsync h id offset clientId)
  | .replconf arg => cmdReplconf h arg clientId epollFd
  | .wait count timeoutMs => cmdWait o h count timeoutMs clientId now epollFd
  | .config arg => some (h, cmdConfig h.configs arg)
  | .keys arg => some (h, cmdKeys o h.data arg)
  | .subscribe keys => some (cmdSubscribe h keys clientId)
  | .unsubscribe key => some (cmdUnsubscribe h key clientId)
  | .publish key message => some (cmdPublish o h key message)
  | .zadd key score member => (cmdZadd h.data key score member).map h.withData
  | .zrank key member => (cmdZrank h.data key member).map (h, ·)
  | .zrange key start stop => (cmdZrange h.data key start stop).map (h, ·)
  | .zcard key => (cmdZcard h.data key).map (h, ·)
  | .zscore key member => (cmdZscore P h.data key member).map (h, ·)
  | .zrem key member => (cmdZrem h.data key member).map h.withData
  | .geoadd key long lat member => (cmdGeoadd P h.data key long lat member).map h.withData
  | .geopos key members => (cmdGeopos P h.data key members).map (h, ·)
  | .geodist key members => (cmdGeodist P h.data key members).map (h, ·)
  | .geosearch key fromArg byArg => some (h, cmdGeosearch P o h.data key fromArg byArg)
  | .acl opt => some (h.withAuth (cmdAcl P o h.auth clientId opt))
  | .auth username password => some (h.withAuth (cmdAuth P h.auth username password clientId))
  | .setbit key offset bit => some (h.withData (cmdSetbit h.data key offset bit))
  | .getbit key offset => some (h, cmdGetbit h.data key offset)
  | .strlen key => some (h, cmdStrlen h.data key)
  | .bitcount key range => some (h, cmdBitcount h.data key range)
  | .bitop args => some (h.withData (cmdBitop h.data args))

def subscriberError (cmd : Cmd) : CustomError :=
  .unsupportedCmd ("ERR Can't execute '" ++ String.ofList (cmd.getName.toList.map Char.toLower) ++
    "': only (P|S)SUBSCRIBE / (P|S)UNSUBSCRIBE / PING / QUIT / RESET are allowed in this context")

/-- Subscribers get few commands through. -/
def refuses (h : CmdHandler) (clientId : Nat) (cmd : Cmd) : Bool := h.isSubscriber clientId && !cmd.isSubscriberAllowed

/-- Write commands add to the offset; missing stats panic. -/
def countWrite (h : CmdHandler) (cmd : Cmd) (buf : Bytes) (isMaster : Bool) : Option CmdHandler :=
  if cmd.toBeBroadcast && !isMaster then
    h.appStates.hostStats.map fun _ => { h with appStates := h.appStates.hostAddBytesCount buf.length }
  else some h

/-- What comes before the dispatch. The clock is read once for the command. -/
def prepare (h : CmdHandler) (cmd : Cmd) (buf : Bytes) (isMaster : Bool) : Option CmdHandler :=
  countWrite { h with registry := { h.registry.setDirty cmd with timer := h.registry.timer.tick } } cmd buf isMaster

def propagate (h : CmdHandler) (cmd : Cmd) (buf : Bytes) : CmdHandler :=
  if cmd.toBeBroadcast then
    let h := { h with aof := h.aof.map fun aof => Aof.write aof buf }
    h.pushAll (o.order h.clientTable.listSlave) buf
  else h

def countFromMaster (h : CmdHandler) (buf : Bytes) (isMaster : Bool) : CmdHandler :=
  if isMaster then { h with appStates := h.appStates.hostAddBytesCount buf.length } else h

def conclude (h : CmdHandler) (cmd : Cmd) (buf : Bytes) (isMaster serialized : Bool) :
    CmdResult → Option (CmdHandler × Except CmdOutput CmdOutput)
  | .ok (some resp) =>
    let h := { h with flagBacklogList := cmd.isFlagList, flagBacklogStream := cmd.isFlagStream }
    let h := (h.propagate o cmd buf).countFromMaster buf isMaster
    if !isMaster || cmd.alwaysResponse then
      if serialized then resp.serialize.map fun b => (h, .ok (.bytes b)) else some (h, .ok (.resp resp))
    else some (h, .ok .none)
  | .ok none => some (h, .ok .none)
  | .error e =>
    some (h.countFromMaster buf isMaster, .error (if serialized then .bytes e.intoErrorBytes else .resp e.intoResp))

/-- `_execute_cmd` -/
def executeCmd (h : CmdHandler) (cmd : Cmd) (buf : Bytes) (clientId : Nat) (epollFd : Option Int)
    (serialized : Bool) : Option (CmdHandler × Except CmdOutput CmdOutput) :=
  if h.refuses clientId cmd then
    some (h, .error (.bytes (subscriberError cmd).intoErrorBytes))
  else do
    let isMaster := h.clientTable.isMaster clientId
    let prepared ← h.prepare cmd buf isMaster
    let (h, r) ← dispatch P o exec prepared h.registry.timer.now (h.isSubscriber clientId) clientId epollFd cmd
    h.conclude o cmd buf isMaster serialized r

end

/-! ## Transactions -/

def executeQueued (h : CmdHandler) (clientId : Nat) (q : Queued) :
    Option (CmdHandler × Except CmdOutput CmdOutput) :=
  h.executeCmd P o (fun _ _ => none) q.cmd q.buf clientId none false

def runQueue (clientId : Nat) (h : CmdHandler) : List Queued → Option (CmdHandler × List RespType)
  | [] => some (h, [])
  | q :: qs => do
    let (h, out) ← h.executeQueued P o clientId q
    let (h, resps) ← runQueue clientId h qs
    some (h, (outputOf out).extractResp.toList ++ resps)

/-- The queue is emptied before its commands run; the transaction stays open until they have. -/
def drainTxn (h : CmdHandler) (clientId : Nat) : CmdHandler :=
  { h with registry := { h.registry with backlogTxn := h.registry.backlogTxn.modify clientId fun _ => [] } }

def closeTxn (h : CmdHandler) (clientId : Nat) : CmdHandler :=
  { h with registry := (h.registry.unwatchAll clientId).dropTxn clientId }

def cmdExec (h : CmdHandler) (clientId : Nat) : Option (CmdHandler × CmdResult) :=
  match h.registry.backlogTxn.lookup clientId with
  | none => some (h, .error (.unsupportedCmdStructure "ERR EXEC without MULTI"))
  | some queue =>
    if h.registry.isAnyDirty clientId then some (h.closeTxn clientId, reply .nullArray)
    else do
      let (h, resps) ← runQueue P o clientId (h.drainTxn clientId) queue
      some (h.closeTxn clientId, reply (if resps.isEmpty then .emptyArray else .arrayOf resps))

def execute (h : CmdHandler) (cmd : Cmd) (buf : Bytes) (clientId : Nat) (epollFd : Int) :
    Option (CmdHandler × Except CmdOutput CmdOutput) :=
  h.executeCmd P o (cmdExec P o) cmd buf clientId (some epollFd) true

def returned : Except Bytes Bytes → Bytes
  | .ok b | .error b => b

/-- EXEC and DISCARD answer nothing when they do not answer with a value. -/
def orEmpty (r : CmdHandler × CmdResult) : Option (CmdHandler × Except Bytes Bytes) :=
  match r.2 with
  | .ok (some resp) => resp.serialize.map fun b => (r.1, .ok b)
  | _ => some (r.1, .ok [])

def handle (h : CmdHandler) (cmd : Except CustomError Cmd) (buf : Bytes) (clientId : Nat) (epollFd : Int) :
    Option (CmdHandler × Except Bytes Bytes) :=
  match cmd with
  | .error e => some (h, .error e.intoErrorBytes)
  | .ok c =>
    if !h.registry.isTransaction clientId then
      (h.execute P o c buf clientId epollFd).map fun (h, out) =>
        (h, match out with
          | .ok out => .ok (out.extractBytes.getD [])
          | .error out => .error (out.extractBytes.getD []))
    else if hq : c.queueable then
      some ({ h with registry := h.registry.addToTxn clientId ⟨c, buf, hq⟩ },
        .ok (RespType.simpleStr (some "QUEUED")).frame)
    else
      match c with
      | .exec => (cmdExec P o h clientId).bind orEmpty
      | .discard => orEmpty (h.withRegistry (cmdDiscard h.registry clientId))
      | _ => some (h, .ok (RespType.error (some "ERR WATCH inside MULTI is not allowed")).frame)

/-! ## Backlogs -/

/-- The `backlog_task` of an entry that was taken out of the registry. -/
def backlogTask (h : CmdHandler) (entry : RequestEntry) : CmdHandler :=
  match entry.kind with
  | .list key =>
    match h.data.lookup key with
    | some { value := .list (item :: items), .. } =>
      let h := { h with data := setList h.data key items }.answer entry (poppedReply key item)
      { h with registry := (h.registry.remove entry.timestamp).1 }
    | _ => h
  | .stream keyTs count =>
    match readStreams h.data count keyTs with
    | none => h.answer entry .nullArray
    | some resp =>
      let h := h.answer entry resp
      { h with registry := (h.registry.remove entry.timestamp).1 }
  | .wait .. => h

/-- The `deadline_task`; the one of WAIT unwraps the fd it captured. -/
def deadlineTask (h : CmdHandler) (entry : RequestEntry) : Option CmdHandler :=
  let answered := fun t =>
    let h := h.answer entry t
    { h with registry := (h.registry.remove entry.timestamp).1 }
  match entry.kind with
  | .list _ | .stream .. => some (answered .nullArray)
  | .wait _ actualCount _ _ epollFd => epollFd.map fun _ => answered (.integer (some actualCount))

/-- Takes the requests out; those of the kind that is served are kept. -/
def takeOut (served : RequestKind → Bool) (registry : RequestRegistry) :
    List Nat → RequestRegistry × List RequestEntry
  | [] => (registry, [])
  | t :: ts =>
    let removed := registry.remove t
    let rest := takeOut served removed.1 ts
    (rest.1, (removed.2.filter fun e => served e.kind).toList ++ rest.2)

def serve (served : RequestKind → Bool) (h : CmdHandler) (timestamps : List Nat) : CmdHandler :=
  let taken := takeOut served h.registry timestamps
  taken.2.foldl backlogTask { h with registry := taken.1 }

def listItems (data : Data) (key : String) : List String :=
  match data.lookup key with
  | some { value := .list items, .. } => items
  | _ => []

/-- The first requests of each queue, as many as there are items. -/
def listTimestamps (h : CmdHandler) : List Nat :=
  (o.order (HashMap.toPairs h.registry.backlogList)).flatMap fun (key, queue) =>
    queue.take (min queue.length (listItems h.data key).length)

def serveBacklogList (h : CmdHandler) : CmdHandler :=
  if h.flagBacklogList then
    { h.serve RequestKind.isList (h.listTimestamps o) with flagBacklogList := false }
  else h

def hasItems (h : CmdHandler) (timestamp : Nat) : Bool :=
  match h.registry.store.lookup timestamp with
  | some { kind := .stream keyTs _, .. } => keyTs.any fun (key, id) => isStreamAvail h.data key id
  | _ => false

def streamTimestamps (h : CmdHandler) : List Nat := (o.order h.registry.backlogStream.keys).filter h.hasItems

def serveBacklogStream (h : CmdHandler) : CmdHandler :=
  if h.flagBacklogStream then
    { h.serve RequestKind.isStream (h.streamTimestamps o) with flagBacklogStream := false }
  else h

def callbackDeadlineExpire (h : CmdHandler) : Option CmdHandler :=
  match h.registry.getNearestDeadline with
  | none => none
  | some (_, timestamp) =>
    match h.registry.remove timestamp with
    | (registry, some entry) => deadlineTask { h with registry } entry
    | (registry, none) => some { h with registry }

/-! ## Steps -/

/-- The timer fires, once, at a time not before the one it is armed for. -/
def fires (h : CmdHandler) : Bool := h.registry.timer.armed.any (· ≤ h.registry.timer.now)

def disarm (h : CmdHandler) : CmdHandler :=
  { h with registry := { h.registry with timer := { h.registry.timer with armed := none } } }

end

/-- `process` is what others do to the statics: connections come and go, a
handshake ends. -/
inductive Event where
  | handle (cmd : Except CustomError Cmd) (buf : Bytes) (clientId : Nat) (epollFd : Int)
  | serveBacklogList
  | serveBacklogStream
  | expire
  | process (clientTable : ClientTable) (appStates : AppStates) (auth : Auth)

def step (P : Platform) (h : CmdHandler) (label : IterOrder × Event) : Option CmdHandler :=
  match label.2 with
  | .handle cmd buf clientId epollFd => (h.handle P label.1 cmd buf clientId epollFd).map Prod.fst
  | .serveBacklogList => some (h.serveBacklogList label.1)
  | .serveBacklogStream => some (h.serveBacklogStream label.1)
  | .expire => if h.fires then h.disarm.callbackDeadlineExpire else none
  | .process clientTable appStates auth => some { h with clientTable, appStates, auth }

abbrev Steps (P : Platform) (h : CmdHandler) (label : IterOrder × Event) (h' : CmdHandler) : Prop :=
  h.step P label = some h'

/-! ## Concrete runs -/

def startup : CmdHandler :=
  .new { clock := fun _ => 0 }
    { hostStats := some { host := some "127.0.0.1", port := some 6379, offset := 0 }, masterStats := none }

def ticking : CmdHandler := .new { clock := fun n => n } startup.appStates

def ask (clientId : Nat) (cmd : Cmd) : IterOrder × Event := (.asIs, .handle (.ok cmd) [42] clientId 0)

/-- Where some steps lead; a step that panics is passed over. -/
def play (h : CmdHandler) (labels : List (IterOrder × Event)) : CmdHandler :=
  labels.foldl (fun h label => (h.step .blank label).getD h) h

end CmdHandler

end Redis
