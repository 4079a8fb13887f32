import Redis.Handler

/-!
# The command handler

The state of `CmdHandler` with the statics its commands reach, and the commands
that need more of it than the key space: transactions, replication, channels,
users. `epollFd` is missing inside EXEC, where its `unwrap` panics. Whether a
parked socket is polled is not part of the state: it only delays the commands
that come from it.
-/

namespace Redis

open Lib

structure CmdHandler where
  responseQueue : List (Nat × Bytes) := []
  data : Data := ∅
  registry : RequestRegistry
  flagBacklogList : Bool := false
  flagBacklogStream : Bool := false
  subscribers : HashSet Nat := ∅
  channels : HashMap String (HashSet Nat) := ∅
  aof : Option Aof := none
  clientTable : ClientTable := {}
  appStates : AppStates
  configs : Configs := {}
  auth : Auth := {}

def errHostStatsNotInitiated : String := "Host stats not initiated at startup"

/-- The frame of a reply that is built here, which always has one. -/
def RespType.frame (t : RespType) : Bytes := t.serialize.getD []

namespace CmdHandler

def new (timer : Timer) (appStates : AppStates) : CmdHandler := { registry := .new timer, appStates }

def pushResponse (h : CmdHandler) (clientId : Nat) (message : Bytes) : CmdHandler :=
  { h with responseQueue := h.responseQueue ++ [(clientId, message)] }

def pushAll (h : CmdHandler) (ids : List Nat) (message : Bytes) : CmdHandler :=
  { h with responseQueue := h.responseQueue ++ ids.map fun id => (id, message) }

def answer (h : CmdHandler) (entry : RequestEntry) (t : RespType) : CmdHandler :=
  { h.pushResponse entry.clientId t.frame with
    registry := { h.registry with history := h.registry.history.answer entry.serial } }

def isSubscriber (h : CmdHandler) (clientId : Nat) : Bool := decide (clientId ∈ h.subscribers)

/-! ## Transactions -/

def cmdMulti (registry : RequestRegistry) (clientId : Nat) : RequestRegistry × CmdResult :=
  if registry.isTransaction clientId then
    (registry, .error (.unsupportedCmdStructure "ERR MULTI calls can not be nested"))
  else ({ registry with backlogTxn := registry.backlogTxn.insert clientId [] }, responseOk)

def cmdDiscard (registry : RequestRegistry) (clientId : Nat) : RequestRegistry × CmdResult :=
  if registry.isTransaction clientId then ((registry.dropTxn clientId).unwatchAll clientId, responseOk)
  else (registry, .error (.unsupportedCmdStructure "ERR DISCARD without MULTI"))

def cmdWatch (registry : RequestRegistry) (keys : List String) (clientId : Nat) : RequestRegistry × CmdResult :=
  (registry.watch keys clientId, responseOk)

def cmdUnwatch (registry : RequestRegistry) (clientId : Nat) : RequestRegistry × CmdResult :=
  (registry.unwatchAll clientId, responseOk)

/-! ## Replication and configuration -/

def cmdInfo (appStates : AppStates) (key : String) : CmdResult :=
  if String.ofList (key.toList.map Char.toUpper) = "REPLICATION" then
    if appStates.isSlave then
      match appStates.masterStats with
      | none => .error (.internalError "Master stats not initiated at startup")
      | some stats =>
        match stats.host with
        | none => .error (.internalError "Master's host is not set")
        | some host =>
          match stats.port with
          | none => .error (.internalError "Master's port is not set")
          | some port => reply (.bulk ("role:slave\r\nmaster_host:" ++ host ++ "\r\nmaster_post:" ++ toString port))
    else
      match appStates.hostStats with
      | none => .error (.internalError errHostStatsNotInitiated)
      | some stats =>
        reply (.bulk ("role:master\r\nmaster_replid:xxx\r\nmaster_repl_offset:" ++ toString (max stats.offset 0)))
  else .ok none

def emptyRdb : Bytes :=
  [82, 69, 68, 73, 83, 48, 48, 49, 49, 250, 9, 114, 101, 100, 105, 115, 45, 118, 101, 114, 5, 55, 46, 50, 46, 48,
    250, 10, 114, 101, 100, 105, 115, 45, 98, 105, 116, 115, 192, 64, 250, 5, 99, 116, 105, 109, 101, 194, 109, 8,
    188, 101, 250, 8, 117, 115, 101, 100, 45, 109, 101, 109, 194, 176, 196, 16, 0, 250, 8, 97, 111, 102, 45, 98, 97,
    115, 101, 192, 0, 255, 240, 110, 59, 254, 192, 255, 90, 162]

def cmdPsync (h : CmdHandler) (id : String) (offset : Int) (clientId : Nat) : CmdHandler × CmdResult :=
  if id = "?" ∧ offset = -1 then
    match h.appStates.hostStats with
    | none => (h, .error (.internalError errHostStatsNotInitiated))
    | some stats =>
      let msg := "FULLRESYNC 8371b4fb1155b71f4a04d3e1bc3e18c4a990aeeb " ++ toString (max stats.offset 0)
      ({ h with clientTable := h.clientTable.setSlave clientId },
        reply (.bytes (some ((RespType.simpleStr (some msg)).frame ++ (RespType.rdb (some emptyRdb)).frame))))
  else (h, .ok none)

/-- What is known while the clients that wait for one slave are gone through:
the clients it has acknowledged, and those that are done. -/
structure AckState where
  handler : CmdHandler
  acked : List Nat := []
  done : List Nat := []

def countAck (offset offsetSnapshot : Int) (actualCount : Nat) : Nat :=
  if offsetSnapshot ≤ offset then 1 + actualCount else actualCount

def markAck (offset offsetSnapshot : Int) (acked : List Nat) (id : Nat) : List Nat :=
  if offsetSnapshot ≤ offset then acked ++ [id] else acked

def ackClient (offset : Int) (a : AckState) (id : Nat) : Option AckState :=
  match a.handler.registry.backlogWait.lookup id with
  | none => none
  | some timestamp =>
    match a.handler.registry.store.lookup timestamp with
    | some entry =>
      match entry.kind with
      | .wait requiredCount actualCount offsetSnapshot _ _ =>
        let actualCount := countAck offset offsetSnapshot actualCount
        let registry := { a.handler.registry with
          store := a.handler.registry.store.modify timestamp (·.setCount actualCount) }
        let h := { a.handler with registry }
        let acked := markAck offset offsetSnapshot a.acked id
        if requiredCount ≤ actualCount then
          some { handler := h.answer { entry with clientId := id } (.integer (some actualCount))
                 acked, done := a.done ++ [id] }
        else some { handler := h, acked, done := a.done }
      | _ => some a
    | none => some a

/-- REPLCONF ACK -/
def cmdAck (h : CmdHandler) (slaveId : Nat) (offset : Int) (epollFd : Option Int) :
    Option (CmdHandler × CmdResult) := do
  let ids := (h.registry.backlogAck.lookup slaveId).getD []
  let a ← ids.foldlM (ackClient offset) { handler := h }
  let h := a.handler
  let registry := { h.registry with backlogAck := h.registry.backlogAck.retain slaveId (· ∉ a.acked) }
  let timestamps ← a.done.mapM fun id => registry.backlogWait.lookup id
  if a.done.isEmpty || epollFd.isSome then
    some ({ h with registry := timestamps.foldl (fun r t => (r.remove t).1) registry }, .ok none)
  else none

def cmdReplconf (h : CmdHandler) (arg : CmdArg) (clientId : Nat) (epollFd : Option Int) :
    Option (CmdHandler × CmdResult) :=
  match arg with
  | .getAck s =>
    if s = "*" then
      match h.appStates.hostStats with
      | none => some (h, .error (.internalError errHostStatsNotInitiated))
      | some stats =>
        some (h, reply (.arrayOf [.bulk "REPLCONF", .bulk "ACK", .bulk (toString (max stats.offset 0))]))
    else some (h, .ok none)
  | .listeningPort _ | .capa _ => some (h, responseOk)
  | .ack offset => cmdAck h clientId offset epollFd
  | _ => some (h, .ok none)

def getAck : RespType := .arrayOf [.bulk "REPLCONF", .bulk "GETACK", .bulk "*"]

def cmdWait (o : IterOrder) (h : CmdHandler) (count : Nat) (timeoutMs : Option Nat) (clientId now : Nat)
    (epollFd : Option Int) : Option (CmdHandler × CmdResult) :=
  if count = 0 then some (h, reply (.integer (some 0)))
  else
    match h.appStates.hostStats with
    | none => some (h, .error (.internalError errHostStatsNotInitiated))
    | some stats =>
      if stats.offset = 0 then some (h, reply (.integer (some h.clientTable.listSlave.length)))
      else
        let slaveIds := o.order h.clientTable.listSlave
        let h := h.pushAll slaveIds getAck.frame
        let (timestamp, deadline) := getDeadline timeoutMs now
        let kind := RequestKind.wait count 0 stats.offset slaveIds epollFd
        if epollFd.isSome then
          some ({ h with registry := h.registry.insert timestamp deadline clientId kind }, .ok none)
        else none

def cmdConfig (configs : Configs) : CmdArg → CmdResult
  | .get key => (configs.getAttr key).bind fun value => reply (.arrayOf [.bulk key, .bulk value])
  | _ => .error (.unsupportedCmdStructure "Unsupported arg")

/-! ## Channels -/

def channelReply (kw channel : String) (count : Nat) : RespType :=
  .arrayOf [.bulk kw, .bulk channel, .integer (some count)]

/-- What the strong count of a subscriber comes to: a clone lives in each
channel that has the client. -/
def channelCount (channels : HashMap String (HashSet Nat)) (clientId : Nat) : Nat :=
  channels.values.countP fun set => clientId ∈ set

def joinChannel (clientId : Nat) (channels : HashMap String (HashSet Nat)) (key : String) :
    HashMap String (HashSet Nat) :=
  (channels.orInsert key ∅).modify key fun set => HashMap.put clientId () set

/-- A new subscriber is counted before it joins, plus once for itself. -/
def subscribeReply (known : Bool) (before after : HashMap String (HashSet Nat)) (clientId : Nat) (key : String) :
    Bytes :=
  (channelReply "subscribe" key (if known then channelCount after clientId else 1 + channelCount before clientId)).frame

def cmdSubscribe (h : CmdHandler) (keys : List String) (clientId : Nat) : CmdHandler × CmdResult :=
  let known := h.isSubscriber clientId
  let (channels, responses) := keys.foldl
    (fun (channels, responses) key =>
      let after := joinChannel clientId channels key
      (after, responses ++ subscribeReply known channels after clientId key))
    (h.channels, [])
  ({ h with subscribers := HashMap.put clientId () h.subscribers, channels }, reply (.bytes (some responses)))

def cmdPublish (o : IterOrder) (h : CmdHandler) (key message : String) : CmdHandler × CmdResult :=
  match h.channels.lookup key with
  | some set =>
    let frame := (RespType.arrayOf [.bulk "message", .bulk key, .bulk message]).frame
    (h.pushAll (o.order set.keys) frame, reply (.integer (some set.keys.length)))
  | none => (h, .ok none)

def cmdUnsubscribe (h : CmdHandler) (key : String) (clientId : Nat) : CmdHandler × CmdResult :=
  if h.isSubscriber clientId then
    let channels := h.channels.modify key fun set => set.erase clientId
    let count := channelCount channels clientId
    -- only leaving a channel that exists can end the subscription
    let subscribers := if key ∈ h.channels ∧ count = 0 then h.subscribers.erase clientId else h.subscribers
    ({ h with channels, subscribers }, reply (channelReply "unsubscribe" key count))
  else (h, .ok none)

/-! ## Users -/

def wrongUsername : CustomError := .wrongUsernamePassword "Wrong username"

def bulksOrEmpty (l : List String) : RespType := if l.isEmpty then .emptyArray else .arrayOf (l.map .bulk)

def cmdAclGetuser (o : IterOrder) (auth : Auth) (clientId : Nat) (username : String) : CmdResult := do
  let stored ← auth.getUsername clientId
  if stored ≠ username then .error wrongUsername
  else
    match auth.credentials.lookup username with
    | none => .error wrongUsername
    | some credential =>
      reply (.arrayOf
        [.bulk "flags", bulksOrEmpty ((o.order credential.flags.keys).map AuthFlags.toText),
          .bulk "passwords", bulksOrEmpty (o.order credential.passwords.keys)])

section
variable (P : Platform)

/-- Stops at the first rule that fails, without telling. -/
def applyRules (credential : Credential) : List AclRules → Credential
  | [] => credential
  | .noPass :: rules =>
    let (credential, added) := credential.addFlag .noPass
    if added then applyRules credential rules else credential
  | .addPassword s :: rules => applyRules (credential.setPassword P s) rules

def cmdAclSetuser (auth : Auth) (username : String) (rules : List AclRules) : Auth × CmdResult :=
  match auth.credentials.lookup username with
  | none => (auth, .error wrongUsername)
  | some _ =>
    ({ auth with credentials := auth.credentials.modify username fun c => applyRules P c rules }, responseOk)

def cmdAcl (o : IterOrder) (auth : Auth) (clientId : Nat) : CmdArg → Auth × CmdResult
  | .whoAmI => (auth, (auth.getUsername clientId).bind fun username => reply (.bulk username))
  | .getUser username => (auth, cmdAclGetuser o auth clientId username)
  | .setUser key rules => cmdAclSetuser P auth key rules
  | _ => (auth, .error (.unsupportedCmd "Unsupported"))

def cmdAuth (auth : Auth) (username password : String) (clientId : Nat) : Auth × CmdResult :=
  match auth.authenticate P clientId (some username) (some password) with
  | (auth, .ok _) => (auth, responseOk)
  | (auth, .error _) => (auth, .error Auth.wrongPass)

end

end CmdHandler

end Redis
