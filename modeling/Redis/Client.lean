import Redis.Dispatch
import Redis.CmdBuilder
import Redis.Parser

/-!
# Clients

A connection keeps the parser of its stream and, on the link to the master, how
far the handshake is. `respond` is the body of the loop of `read_socket`: what
it does with one completed value, and the bytes it writes back.
-/

namespace Redis

open Lib

inductive HandShakeState where
  | ping
  | replconf1
  | replconf2
  | psync
  | established
  | none
  deriving Repr, DecidableEq

inductive ReplStatus where
  | master
  | slave
  deriving Repr, DecidableEq

structure ReplState where
  status : Option ReplStatus := none
  id : String := "?"
  offset : Int := -1

structure TcpClient where
  respParser : RespParser := .new
  handshakeState : HandShakeState := .none
  replState : ReplState := {}
  parseRdb : Bool := false

def bulkArray (length : Nat) (items : List String) : RespType :=
  items.foldl (fun arr item => arr.addItem (.bulk item)) (.array length none)

namespace TcpClient

/-- Also what is written to the master. -/
def initHandshake (client : TcpClient) : TcpClient × Bytes :=
  ({ client with replState := { client.replState with status := some .master }, handshakeState := .ping },
    (bulkArray 1 ["PING"]).frame)

def getReplconf1 (appStates : AppStates) : Except Bytes Bytes :=
  match appStates.hostStats with
  | none => .error (CustomError.internalError errHostStatsNotInitiated).intoErrorBytes
  | some stats =>
    match stats.port with
    | none => .error (CustomError.internalError "Master's port is not set").intoErrorBytes
    | some port => .ok (bulkArray 3 ["REPLCONF", "listening-port", toString port]).frame

def getReplconf2 : Except Bytes Bytes := .ok (bulkArray 3 ["REPLCONF", "capa", "psync2"]).frame

def getPsync (client : TcpClient) : Except Bytes Bytes :=
  .ok (bulkArray 3 ["PSYNC", client.replState.id, toString client.replState.offset]).frame

section
variable (P : Platform) (o : IterOrder)

def handshakeToMaster (client : TcpClient) (h : CmdHandler) (cmd : Cmd) (buf : Bytes) (clientId : Nat)
    (epollFd : Int) : Option (TcpClient × CmdHandler × Except Bytes Bytes) :=
  match client.handshakeState, cmd with
  | .ping, .pong => some ({ client with handshakeState := .replconf1 }, h, getReplconf1 h.appStates)
  | .replconf1, .ok => some ({ client with handshakeState := .replconf2 }, h, getReplconf2)
  | .replconf2, .ok => some ({ client with handshakeState := .psync }, h, client.getPsync)
  | .psync, .fullresync .. =>
    some ({ client with handshakeState := .established, parseRdb := true },
      { h with clientTable := h.clientTable.setMaster clientId }, .ok [])
  | .established, .rdb _ =>
    match h.appStates.hostStats with
    | none =>
      some ({ client with parseRdb := false }, h,
        .error (CustomError.internalError errHostStatsNotInitiated).intoErrorBytes)
    | some stats =>
      some ({ client with parseRdb := false },
        { h with appStates := { h.appStates with hostStats := some stats.startBytesCount } }, .ok [])
  | _, _ => (h.handle P o (.ok cmd) buf clientId epollFd).map fun (h, r) => (client, h, r)

def noAuth : Bytes := (RespType.error (some "NOAUTH Authentication required.")).frame

/-- One completed value. Without a credential only AUTH is let through. -/
def respond (client : TcpClient) (h : CmdHandler) (clientId : Nat) (epollFd : Int) (t : RespType) :
    Option (TcpClient × CmdHandler × Bytes) :=
  match t.serialize, Cmd.fromResp P t with
  | some buf, .ok (.ok cmd) =>
    if !cmd.isAuthCmd && !h.auth.checkAuth clientId then some (client, h, noAuth)
    else
      match client.replState.status with
      | some .master =>
        (client.handshakeToMaster P o h cmd buf clientId epollFd).map fun (client, h, r) =>
          (client, h, CmdHandler.returned r)
      | _ => (h.handle P o (.ok cmd) buf clientId epollFd).map fun (h, r) => (client, h, CmdHandler.returned r)
  | some buf, .ok (.error e) =>
    (h.handle P o (.error e) buf clientId epollFd).map fun (h, r) => (client, h, CmdHandler.returned r)
  | _, _ => none

end

end TcpClient

end Redis
