import Redis.Cmd
import Redis.Platform

/-!
# From values to commands

`Cmd::from_resp` and the builders it chooses from by the first item of an
array. A builder pops its arguments off the front (`resp_arg!`) and stops at
the first error. A builder that drains more than there is panics, which is
`none`; the `unwrap`s of `from_resp` itself are told apart from that.
-/

namespace Redis

open Lib

/-- `make_ascii_uppercase` -/
def asciiUpper (s : String) : String := String.ofList (s.toList.map Char.toUpper)

def splitOnChar (c : Char) (s : String) : List String := (s.toList.splitOn c).map String.ofList

theorem splitOnChar_append (c : Char) (s t : String) :
    splitOnChar c (s ++ String.singleton c ++ t) = splitOnChar c s ++ splitOnChar c t := by
  unfold splitOnChar
  rw [String.toList_append, String.toList_append, String.toList_singleton, List.append_assoc, List.singleton_append,
    List.splitOn_append_cons_self, List.map_append]

theorem splitOnChar_of_not_mem {c : Char} {s : String} (h : c ∉ s.toList) : splitOnChar c s = [s] := by
  unfold splitOnChar
  rw [List.splitOn_eq_singleton h, List.map_singleton, String.ofList_toList]

theorem splitOnChar_ne_nil (c : Char) (s : String) : splitOnChar c s ≠ [] := by
  unfold splitOnChar
  simp

abbrev Args (α : Type) := StateT (List RespType) (ExceptT CustomError Option) α

namespace Args

def fail {α : Type} (e : CustomError) : Args α := fun _ => some (.error e)

def lift {α : Type} (r : Except CustomError α) : Args α := fun values => some (r.map (·, values))

def next : Args (Option RespType) := fun
  | [] => some (.ok (none, []))
  | t :: values => some (.ok (some t, values))

def text (e : CustomError) (t : RespType) : Args String := lift (t.getStr.elim (.error e) .ok)

/-- `resp_arg!` -/
def respArg (msg : String) : Args String := do
  match ← next with
  | some t => text (.missingArgument msg) t
  | none => fail (.missingArgument msg)

def drain : Args (List RespType) := fun values => some (.ok (values, []))

def remaining : Args Nat := fun values => some (.ok (values.length, values))

/-- `drain(..n)` -/
def drainTo (n : Nat) : Args (List RespType) := fun values =>
  if n ≤ values.length then some (.ok (values.take n, values.drop n)) else none

def texts (e : CustomError) : Args (List String) := do (← drain).mapM (text e)

/-- A `try_for_each` whose error is ignored. -/
def textsUntilError (l : List RespType) : List String := (l.map RespType.getStr).takeWhile Option.isSome |>.filterMap id

def uint (max : Nat) (s : String) : Args Nat := lift ((parseUint max s).mapError .ofIntError)

def int (s : String) : Args Int := lift ((parseInt (2 ^ 63) s).mapError .ofIntError)

def float (P : Platform) (s : String) : Args F64 :=
  lift ((P.parseF64 s).elim (.error (.parseError (parseFloatError s))) .ok)

end Args

namespace AclRules

/-- Rules after the first are not read. -/
def set : List String → Except CustomError AclRules
  | [] => .error (.missingArgument "No rule provided")
  | first :: _ =>
    match first.toList with
    | '>' :: password => .ok (.addPassword (String.ofList password))
    | _ => if first = "nopass" then .ok .noPass else .error (.unsupportedCmd "Not supported")

end AclRules

namespace CmdArg

def first (values : List String) : Except CustomError String := values.head?.elim (.error .dummy) .ok

def firstUint (max : Nat) (values : List String) : Except CustomError Nat := do
  (parseUint max (← first values)).mapError .ofIntError

def set (key : String) (values : List String) : Except CustomError CmdArg :=
  match key with
  | "EX" => (firstUint u64Max values).map fun x => .ex (some x)
  | "PX" => (firstUint u64Max values).map fun x => .px (some x)
  | "listening-port" => (firstUint (2 ^ 16 - 1) values).map .listeningPort
  | "capa" => (first values).map .capa
  | "GETACK" => (first values).map .getAck
  | "ACK" => do (parseInt (2 ^ 63) (← first values)).mapError .ofIntError |>.map .ack
  | "GET" => (first values).map .get
  | "WHOAMI" => .ok .whoAmI
  | "GETUSER" => (first values).map .getUser
  | "SETUSER" =>
    match values with
    | [] => .error (.missingArgument "No username provided")
    | username :: values => (AclRules.set values).map fun rule => .setUser username [rule]
  | "AND" | "OR" =>
    match values with
    | [] => .error (.missingArgument "dest not provided")
    | [_] => .error (.missingArgument "key1 not provided")
    | [_, _] => .error (.missingArgument "key2 not provided")
    | dest :: key1 :: key2 :: _ => .ok (if key = "AND" then .and dest key1 key2 else .or dest key1 key2)
  | _ => .error (.invalidArgument ("Invalid arg for " ++ key))

end CmdArg

namespace Cmd

open Args

section
variable (P : Platform)

/-! ## Builders -/

def buildEcho : Args Cmd := do return .echo (← respArg "No argument provided for ECHO")

def buildSet : Args Cmd := do
  let key ← respArg "No key provided for SET"
  let value ← respArg "No value provided for SET"
  match ← next with
  | some o =>
    let expireKey ← text (.missingArgument "No arg provided for expiration") o
    let expireValue ← respArg "No value provided for expiration"
    return .set key value (some (← lift (CmdArg.set expireKey [expireValue])))
  | none => return .set key value none

def buildGet : Args Cmd := do return .get (← respArg "No key provided for GET")

def buildRpush : Args Cmd := do
  let key ← respArg "No key provided for RPUSH"
  return .rpush key (← texts (.missingArgument "No value provided for RPUSH"))

def buildLrange : Args Cmd := do
  let key ← respArg "No key provided for LRANGE"
  let start ← int (← respArg "No start index provided for LRANGE")
  return .lrange key start (← int (← respArg "No end index provided for LRANGE"))

def buildLpush : Args Cmd := do
  let key ← respArg "No key provided for LPUSH"
  return .lpush key (← texts (.missingArgument "No value provided for LPUSH"))

def buildLlen : Args Cmd := do return .llen (← respArg "No key provided for LLEN")

def buildLpop : Args Cmd := do
  let key ← respArg "No key provided for LPOP"
  match ← next with
  | some t => return .lpop key (some (← uint u64Max (← text (.missingArgument "No length provided for LPOP") t)))
  | none => return .lpop key none

def buildBlpop : Args Cmd := do
  let key ← respArg "No key provided for BLPOP"
  let timeoutMs := P.f64.mul (← float P (← respArg "No timeout provided for BLPOP")) (P.f64.lit 1000 0)
  if timeoutMs.lt ⟨0⟩ then fail (.invalidArgument "Error while parsing expiration for BLPOP")
  else if F64.partialCmp timeoutMs ⟨0⟩ = some .eq then return .blpop key none
  else return .blpop key (some (P.f64.toU64 timeoutMs))

def buildType : Args Cmd := do return .type (← respArg "No key provided for TYPE")

def parseStreamIdXadd (value : String) : Args (Option Nat × Option Nat) :=
  if value = "*" then return (none, none)
  else
    match splitOnChar '-' value with
    | [t, i] => do
      let ts ← uint u64Max t
      if i = "*" then return (some ts, none) else return (some ts, some (← uint u64Max i))
    | _ => fail (.invalidArgument "Error while parsing stream id for XADD")

def buildXadd : Args Cmd := do
  let key ← respArg "No key provided for XADD"
  let id ← parseStreamIdXadd (← respArg "No time id provided for XADD")
  return .xadd key id (← texts (.missingArgument "Invalide key-value pair providec"))

def parseStreamId (value : String) (stop : Bool) : Args (Nat × Nat) :=
  match splitOnChar '-' value with
  | [t, i] => do return (← uint u64Max t, ← uint u64Max i)
  | [t] => do return (← uint u64Max t, if stop then u64Max else 0)
  | _ => fail (.invalidArgument "Error while parsing stream id")

def parseStreamIdXrange (value : String) (stop : Bool) : Args (Nat × Nat) :=
  if value = "-" then return (0, 0)
  else if value = "+" then return (u64Max, u64Max)
  else parseStreamId value stop

def parseStreamIdXread (value : String) : Args (Nat × Nat) :=
  if value = "$" then return (u64Max, u64Max) else parseStreamId value false

def buildXrange : Args Cmd := do
  let key ← respArg "No key provided for XRANGE"
  let startId ← respArg "No start id provided for XRANGE"
  let stopId ← respArg "No start id provided for XRANGE"
  return .xrange key (← parseStreamIdXrange startId false) (← parseStreamIdXrange stopId true)

/-- COUNT and BLOCK, in any order, up to STREAMS; `fuel` is the number of arguments. -/
def xreadOptions (count block : Option Nat) : Nat → Args (Option Nat × Option Nat)
  | 0 => fail (.missingArgument "No argument provided for XREAD")
  | fuel + 1 => do
    let first ← respArg "No argument provided for XREAD"
    if asciiUpper first = "COUNT" then
      if count.isSome then fail (.unsupportedCmdStructure "Cannot have more than two COUNT")
      else xreadOptions (some (← uint u64Max (← respArg "No argument provided"))) block fuel
    else if asciiUpper first = "BLOCK" then
      if block.isSome then fail (.unsupportedCmdStructure "Cannot have more than two BLOCK")
      else xreadOptions count (some (← uint u64Max (← respArg "No argument provided"))) fuel
    else if asciiUpper first = "STREAMS" then return (count, block)
    else fail (.unsupportedCmdStructure "Wrong argument")

def buildXread : Args Cmd := do
  let (count, block) ← xreadOptions none none (1 + (← remaining))
  let values ← drain
  if values.length % 2 = 1 then fail (.unsupportedCmdStructure "Not sufficient key-pair values")
  else
    let pairLen := values.length / 2
    let keys ← (values.take pairLen).mapM (text (.missingArgument "Key not provided"))
    let ids ← (values.drop pairLen).mapM fun t => do
      parseStreamIdXread (← text (.missingArgument "Value not provided") t)
    return .xread count block (keys.zip ids)

def buildIncr : Args Cmd := do return .incr (← respArg "No key provided for INCR")

/-- The keys up to the first that is no text. -/
def buildWatch : Args Cmd := do
  let keys := textsUntilError (← drain)
  if keys.isEmpty then fail (.missingArgument "No key provided for WATCH") else return .watch keys

def buildInfo : Args Cmd := do return .info (← respArg "No key provided for INFO")

def buildReplconf : Args Cmd := do
  let arg ← respArg "No key provided for REPLCONF"
  let value ← respArg "No value provided for REPLCONF"
  return .replconf (← lift (CmdArg.set arg [value]))

def buildPsync : Args Cmd := do
  let id ← respArg "No id provided for PSYNC"
  return .psync id (← int (← respArg "No offset provided for PSYNC"))

def buildWait : Args Cmd := do
  let count ← uint u64Max (← respArg "No count provided for WAIT")
  let timeoutMs ← uint u64Max (← respArg "No timeout provided for WAIT")
  return .wait count (if timeoutMs = 0 then none else some timeoutMs)

def buildConfig : Args Cmd := do
  let arg ← respArg "No arg provided for CONFIG"
  let value ← respArg "No value provided for CONFIG"
  return .config (← lift (CmdArg.set arg [value]))

def buildKeys : Args Cmd := do return .keys (← respArg "No arg provided for KEYS")

def buildSubscribe : Args Cmd := do return .subscribe (textsUntilError (← drain))

def buildUnsubscribe : Args Cmd := do return .unsubscribe (← respArg "No arg provided for UNSUBSCRIBE")

def buildPublish : Args Cmd := do
  let key ← respArg "No channel name provided for PUBLISH"
  return .publish key (← respArg "No message provided for PUBLISH")

def buildZadd : Args Cmd := do
  let key ← respArg "No key provided for ZADD"
  let score ← float P (← respArg "No score provided for ZADD")
  return .zadd key score (← respArg "No member provided for ZADD")

def buildZrank : Args Cmd := do
  let key ← respArg "No key provided for ZRANK"
  return .zrank key (← respArg "No member provided for ZRANK")

def buildZrange : Args Cmd := do
  let key ← respArg "No key provided for ZRANGE"
  let start ← int (← respArg "No start index provided for ZRANGE")
  return .zrange key start (← int (← respArg "No end index provided for ZRANGE"))

def buildZcard : Args Cmd := do return .zcard (← respArg "No key provided for ZCARD")

def buildZscore : Args Cmd := do
  let key ← respArg "No key provided for ZSCORE"
  return .zscore key (← respArg "No member provided for ZSCORE")

def buildZrem : Args Cmd := do
  let key ← respArg "No key provided for ZREM"
  return .zrem key (← respArg "No member provided for ZREM")

def buildGeoadd : Args Cmd := do
  let key ← respArg "No key provided for GEOADD"
  let long ← float P (← respArg "No longitude provided for GEOADD")
  let lat ← float P (← respArg "No latitude provided for GEOADD")
  let member ← respArg "No member provided for GEOADD"
  return .geoadd key (P.f64ToString long) (P.f64ToString lat) member

def buildGeopos : Args Cmd := do
  let key ← respArg "No key provided for GEOPOS"
  return .geopos key (textsUntilError (← drain))

def buildGeodist : Args Cmd := do
  let key ← respArg "No key provided for GEODIST"
  return .geodist key (textsUntilError (← drainTo 2))

def buildGeosearch : Args Cmd := do
  let key ← respArg "No key provided for GEOSEARCH"
  let _ ← respArg "No FROM arg provided"
  let long ← float P (← respArg "No long/lat provided")
  let lat ← float P (← respArg "No long/lat provided")
  let _ ← respArg "No BY arg provided"
  let radius ← float P (← respArg "No radius provided")
  let _ ← respArg "No radius provided"
  return .geosearch key (.fromLonLat long lat) (.byRadius radius)

def buildAcl : Args Cmd := do
  let kw ← respArg "No arg provided for ACL"
  let values ← texts (.missingArgument "No arg value provided for ACL")
  return .acl (← lift (CmdArg.set kw values))

def buildAuth : Args Cmd := do
  let username ← respArg "Username not provided"
  return .auth username (← respArg "Password not provided")

def buildSetbit : Args Cmd := do
  let key ← respArg "Bit key not provided"
  let offset ← uint u64Max (← respArg "Bit offset not provided")
  return .setbit key offset (← uint 255 (← respArg "Bit value not provided"))

def buildGetbit : Args Cmd := do
  let key ← respArg "Bit key not provided"
  return .getbit key (← uint u64Max (← respArg "Bit offset not provided"))

def buildStrlen : Args Cmd := do return .strlen (← respArg "Bit key not provided")

def bitUnit (s : String) : Args BitUnit :=
  if asciiUpper s = "BYTE" then return .byte
  else if asciiUpper s = "BIT" then return .bit
  else fail (.invalidArgument "ERR syntax error")

def buildBitcount : Args Cmd := do
  let key ← respArg "Bit key not provided"
  if (← remaining) = 0 then return .bitcount key none
  else
    let start ← int (← respArg "Start index not provided")
    let stop ← int (← respArg "End index not provided")
    let unit ← match ← next with
      | none => pure BitUnit.byte
      | some t => do bitUnit (← text (.invalidArgument "ERR syntax error") t)
    if (← remaining) = 0 then return .bitcount key (some ⟨start, stop, unit⟩)
    else fail (.invalidArgument "ERR syntax error")

def buildBitop : Args Cmd := do
  let op ← respArg "BITOP operation not provided"
  let dest ← respArg "BITOP dest not provided"
  let key1 ← respArg "BITOP key1 not provided"
  let key2 ← respArg "BITOP key2 not provided"
  return .bitop (← lift (CmdArg.set (asciiUpper op) [dest, key1, key2]))

def builders : List (String × Args Cmd) :=
  [("PING", pure .ping), ("ECHO", buildEcho), ("SET", buildSet), ("GET", buildGet), ("RPUSH", buildRpush),
    ("LRANGE", buildLrange), ("LPUSH", buildLpush), ("LLEN", buildLlen), ("LPOP", buildLpop),
    ("BLPOP", buildBlpop P), ("TYPE", buildType), ("XADD", buildXadd), ("XRANGE", buildXrange),
    ("XREAD", buildXread), ("INCR", buildIncr), ("MULTI", pure .multi), ("EXEC", pure .exec),
    ("DISCARD", pure .discard), ("WATCH", buildWatch), ("UNWATCH", pure .unwatch), ("INFO", buildInfo),
    ("REPLCONF", buildReplconf), ("PSYNC", buildPsync), ("WAIT", buildWait), ("CONFIG", buildConfig),
    ("KEYS", buildKeys), ("SUBSCRIBE", buildSubscribe), ("UNSUBSCRIBE", buildUnsubscribe),
    ("PSUBSCRIBE", pure .psubscribe), ("PUNSUBSCRIBE", pure .punsubscribe), ("QUIT", pure .quit),
    ("PUBLISH", buildPublish), ("ZADD", buildZadd P), ("ZRANK", buildZrank), ("ZRANGE", buildZrange),
    ("ZCARD", buildZcard), ("ZSCORE", buildZscore), ("ZREM", buildZrem), ("GEOADD", buildGeoadd P),
    ("GEOPOS", buildGeopos), ("GEODIST", buildGeodist), ("GEOSEARCH", buildGeosearch P), ("ACL", buildAcl),
    ("AUTH", buildAuth), ("SETBIT", buildSetbit), ("GETBIT", buildGetbit), ("STRLEN", buildStrlen),
    ("BITCOUNT", buildBitcount), ("BITOP", buildBitop)]

def buildFullresync (s : String) : Except CustomError Cmd :=
  match splitOnChar ' ' s with
  | _ :: id :: offset :: _ => ((parseInt (2 ^ 63) offset).mapError .ofIntError).map (.fullresync id)
  | [_, _] => .error (.missingArgument "No offset provided for FULLRESYNC")
  | _ => .error (.missingArgument "No id provided for FULLRESYNC")

/-! ## The choice of the builder -/

inductive Panic where
  /-- `unwrap` on `None` -/
  | unwrap
  | outOfRange
  deriving Repr, DecidableEq

/-- `&s[..n]`, which must end between two characters. -/
def strTo (n : Nat) (s : String) : Except Panic String :=
  if s.utf8ByteSize < n then .error .outOfRange
  else (fromUtf8 ((utf8 s).take n)).elim (.error .outOfRange) .ok

def runBuilder (b : Args Cmd) (values : List RespType) : Except Panic (Except CustomError Cmd) :=
  match b values with
  | some r => .ok (r.map Prod.fst)
  | none => .error .outOfRange

def fromResp : RespType → Except Panic (Except CustomError Cmd)
  | .array length value =>
    if length = 0 then .ok (.error (.noCmdError "No command"))
    else
      match value with
      | none | some [] => .ok (.error (.noCmdError "No command provided"))
      | some (.bulkStr length value :: v) =>
        if length = 0 then .ok (.error (.noCmdError "No command"))
        else
          match value with
          | none => .error .unwrap
          | some s =>
            match (builders P).lookup (asciiUpper s) with
            | some b => runBuilder b v
            | none => .ok (.error (.invalidArgument "Invalid command"))
      | some (_ :: _) => .ok (.error (.invalidArgument "Invalid command"))
  | .simpleStr none => .error .unwrap
  | .simpleStr (some s) =>
    if s = "PONG" then .ok (.ok .pong)
    else if s = "OK" then .ok (.ok .ok)
    else (strTo 10 s).map fun p =>
      if p = "FULLRESYNC" then buildFullresync s else .error (.invalidArgument "Invalid command")
  | .rdb o => .ok (o.elim (.error (.unprocessableError "RBD stream is empty")) fun v => .ok (.rdb v))
  | _ => .ok (.error (.unsupportedCmdStructure "Unsupported structure"))

end

end Cmd

end Redis
