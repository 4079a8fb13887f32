import Redis.Geohash
import Redis.Registry

/-!
# The command handlers

One function for each `cmd_` method of `CmdHandler`, on the part of the state
it touches: commands on values work on the key space `Data`, the others on the
registry, the channels or the process-wide state. The first component of a
result is the part as the command leaves it, also when the command fails. A
panic is `none`. `now` is the clock reading of the command.
-/

namespace Redis

open Lib

abbrev CmdResult := Except CustomError (Option RespType)

namespace CmdHandler

def reply (t : RespType) : CmdResult := .ok (some t)

def responseOk : CmdResult := reply (.simpleStr (some "OK"))

def unsupported (key : String) : CustomError := .unsupportedCmd ("Unsupported command " ++ key)

def wrongType : CustomError := .unprocessableError "Wrong type"

def wrongDataType : CustomError := .unprocessableError "Wrong data type"

def asUsize (x : Int) : Nat := (x % 2 ^ 64).toNat

/-! ## Connection -/

def cmdPing (isSubscriber : Bool) : CmdResult :=
  if isSubscriber then reply (.arrayOf [.bulk "pong", .bulk ""]) else reply (.simpleStr (some "PONG"))

def cmdEcho (s : String) : CmdResult := reply (.bulk s)

/-! ## Strings -/

def extractDeadline (opt : Option CmdArg) (now : Nat) : Option (Option Nat) :=
  match opt with
  | some (.ex x) => x.map fun x => some ((now / 1000 + x) % 2 ^ 64)
  | some (.px x) => x.map fun x => some ((now + x) % 2 ^ 64)
  | _ => some none

def getDeadline (timeoutMs : Option Nat) (now : Nat) : Nat × Nat :=
  match timeoutMs with
  | some timeout => (now, (now + timeout) % 2 ^ 64)
  | none => (now, 0)

def cmdSet (data : Data) (key value : String) (opt : Option CmdArg) (now : Nat) : Option (Data × CmdResult) :=
  (extractDeadline opt now).map fun exp => (data.insert key { value := .str value, expiredAt := exp }, responseOk)

def cmdGet (data : Data) (key : String) (now : Nat) : CmdResult :=
  match data.lookup key with
  | some item =>
    match item.value with
    | .str s => if item.expiredAt.any (· < now) then reply .nullBulk else reply (.bulk s)
    | .bitmap map => reply (.bulkBytes map)
    | _ => .error (unsupported key)
  | none => reply .nullBulk

def cmdIncr (data : Data) (key : String) : Data × CmdResult :=
  let outOfRange := CustomError.unprocessableError "ERR value is not an integer or out of range"
  let data := HashMap.orInsert key { value := .str "0", expiredAt := none } data
  match data.lookup key with
  | some { value := .str s, expiredAt } =>
    match parseInt (2 ^ 63) s with
    | .ok i =>
      if i < 2 ^ 63 - 1 then
        (data.modify key fun _ => { value := .str (toString (i + 1)), expiredAt }, reply (.integer (some (i + 1))))
      else (data, .error (.unprocessableError "Integer overflow"))
    | .error _ => (data, .error outOfRange)
  | _ => (data, .error outOfRange)

/-! ## Lists -/

/-- The shared body of RPUSH and LPUSH. -/
def push (extend : List String → List String) (data : Data) (key : String) : Data × CmdResult :=
  let data := HashMap.orInsert key { value := .list [], expiredAt := none } data
  match data.lookup key with
  | some { value := .list items, expiredAt } =>
    (data.modify key fun _ => { value := .list (extend items), expiredAt },
      reply (.integer (some (extend items).length)))
  | _ => (data, .error (unsupported key))

def cmdRpush (data : Data) (key : String) (value : List String) : Data × CmdResult :=
  push (fun items => items ++ value) data key

def cmdLpush (data : Data) (key : String) (value : List String) : Data × CmdResult :=
  push (fun items => value.foldl (fun items v => v :: items) items) data key

def cmdLrange (data : Data) (key : String) (start stop : Int) : CmdResult :=
  match data.lookup key with
  | some item =>
    match item.value with
    | .list items =>
      let len : Int := items.length
      if stop < start ∧ 0 < start ∧ 0 < stop then reply .emptyArray
      -- `list.len() - 1` wraps for the empty list
      else if 0 ≤ start ∧ asUsize (len - 1) < asUsize start then reply .emptyArray
      else
        let maxIndex := asUsize (min (absIndex len stop) (len - 1))
        let minIndex := asUsize (min (absIndex len start) (len - 1))
        let outputLen := if maxIndex < minIndex then 0 else maxIndex - min minIndex maxIndex + 1
        if outputLen = 0 then reply .emptyArray
        else reply (.array outputLen (some (((items.drop minIndex).take outputLen).map .bulk)))
    | _ => .error (unsupported key)
  | none => reply .emptyArray

def cmdLlen (data : Data) (key : String) : CmdResult :=
  match data.lookup key with
  | some item =>
    match item.value with
    | .list items => reply (.integer (some items.length))
    | _ => .error (unsupported key)
  | none => reply (.integer (some 0))

def setList (data : Data) (key : String) (items : List String) : Data :=
  data.modify key fun item => { item with value := .list items }

def cmdLpop (data : Data) (key : String) (length : Option Nat) : Data × CmdResult :=
  match data.lookup key with
  | some item =>
    match item.value with
    | .list items =>
      match length with
      | some x => (setList data key (items.drop x), reply (.arrayOf ((items.take x).map .bulk)))
      | none =>
        match items with
        | s :: items => (setList data key items, reply (.bulk s))
        | [] => (data, reply .nullBulk)
    | _ => (data, .error (unsupported key))
  | none => (data, reply .nullBulk)

def poppedReply (key item : String) : RespType := .arrayOf [.bulk key, .bulk item]

def cmdBlpop (data : Data) (registry : RequestRegistry) (key : String) (timeoutMs : Option Nat) (clientId now : Nat) :
    (Data × RequestRegistry) × CmdResult :=
  let (timestamp, deadline) := getDeadline timeoutMs now
  match data.lookup key with
  | some item =>
    match item.value with
    | .list items =>
      match items, registry.isBacklogListEmpty key with
      | s :: items, true => ((setList data key items, registry), reply (poppedReply key s))
      | _, _ => ((data, registry.insert timestamp deadline clientId (.list key)), .ok none)
    | _ => ((data, registry), .error (unsupported key))
  | none => ((data, registry.insert timestamp deadline clientId (.list key)), .ok none)

def cmdType (data : Data) (key : String) : CmdResult :=
  match data.lookup key with
  | some item => reply (.simpleStr (some item.value.getType))
  | none => reply (.simpleStr (some "none"))

/-! ## Streams -/

def idText (id : Nat × Nat) : String := toString id.1 ++ "-" ++ toString id.2

/-- The id of a new entry; `last` is the largest one. -/
def nextStreamId (last : Option (Nat × Nat)) (now : Nat) : Option Nat × Option Nat → Except CustomError (Nat × Nat)
  | (some t, some i) =>
    if t = 0 ∧ i = 0 then .error (.invalidArgument "ERR The ID specified in XADD must be greater than 0-0")
    else
      match last with
      | some (tLast, iLast) =>
        if tLast < t ∨ (t = tLast ∧ iLast < i) then .ok (t, i)
        else .error (.invalidArgument
          "ERR The ID specified in XADD is equal or smaller than the target stream top item")
      | none => .ok (t, i)
  | (some t, none) =>
    match last with
    | some (tLast, iLast) =>
      if t = tLast then .ok (t, (1 + iLast) % 2 ^ 64)
      else if tLast < t then .ok (t, 0)
      else .error (.invalidArgument "ERR Invalid stream id format")
    | none => if t = 0 then .ok (t, 1) else .ok (t, 0)
  | (none, none) => .ok (now, 0)
  | (none, some _) => .error (.invalidArgument "ERR Invalid stream id format")

def lastId (entries : OrdMap StreamId (List String)) : Option (Nat × Nat) := entries.last?.map fun e => ofLex e.1

def cmdXadd (data : Data) (key : String) (id : Option Nat × Option Nat) (value : List String) (now : Nat) :
    Data × CmdResult :=
  let data := HashMap.orInsert key { value := .stream .empty, expiredAt := none } data
  match data.lookup key with
  | some { value := .stream entries, expiredAt } =>
    match nextStreamId (lastId entries) now id with
    | .error e => (data, .error e)
    | .ok id =>
      (data.modify key fun _ => { value := .stream (entries.insert (toLex id) value), expiredAt },
        reply (.bulk (idText id)))
  | _ => (data, .error (unsupported key))

def streamEntity (e : StreamId × List String) : RespType :=
  .array 2 (some [.bulk (idText (ofLex e.1)), .array e.2.length (some (e.2.map .bulk))])

/-- `BTreeMap::range` panics on a start behind the end, unless the map is empty. -/
def cmdXrange (data : Data) (key : String) (start stop : Nat × Nat) : Option CmdResult :=
  match data.lookup key with
  | some item =>
    match item.value with
    | .stream entries =>
      if entries.entries ≠ [] ∧ toLex stop < toLex start then none
      else
        let found := entries.range (toLex start) (toLex stop)
        some (reply (.array found.length (some (found.map streamEntity))))
    | _ => some (.error (unsupported key))
  | none => some (reply .emptyArray)

def entriesAfter (data : Data) (key : String) (id : Nat × Nat) : List (StreamId × List String) :=
  match data.lookup key with
  | some item =>
    match item.value with
    | .stream entries => entries.entries.filter fun e => toLex id < e.1
    | _ => []
  | none => []

def extractStreamEntries (data : Data) (key : String) (count : Nat) (id : Nat × Nat) : Option RespType :=
  let entries := (entriesAfter data key id).take count
  if entries.isEmpty then none
  else some (.array entries.length (some (entries.map fun e =>
    .arrayOf [.bulk (idText (ofLex e.1)), .arrayOf (e.2.map .bulk)])))

def isStreamAvail (data : Data) (key : String) (id : Nat × Nat) : Bool := !(entriesAfter data key id).isEmpty

/-- The streams that have entries, as XREAD answers; none if there is no such stream. -/
def readStreams (data : Data) (count : Option Nat) (stream : List (String × Nat × Nat)) : Option RespType :=
  let found := stream.filterMap fun (key, id) =>
    (extractStreamEntries data key (count.getD (2 ^ 64 - 1)) id).map fun entries => (key, entries)
  if found.isEmpty then none
  else some (.arrayOf (found.map fun (key, entries) => .arrayOf [.bulk key, entries]))

def notStream (data : Data) (key : String) : Bool :=
  match data.lookup key with
  | some { value := .stream _, .. } => false
  | some _ => true
  | none => false

/-- `$`, decoded as the largest id, is the id of the last entry. -/
def resolveId (data : Data) : String × Nat × Nat → String × Nat × Nat
  | (key, ts, seq) =>
    if ts = 2 ^ 64 - 1 ∧ seq = 2 ^ 64 - 1 then
      match data.lookup key with
      | some { value := .stream entries, .. } => (key, (lastId entries).getD (0, 0))
      | _ => (key, 0, 0)
    else (key, ts, seq)

def cmdXread (data : Data) (registry : RequestRegistry) (count block : Option Nat)
    (stream : List (String × Nat × Nat)) (clientId now : Nat) : RequestRegistry × CmdResult :=
  match stream.find? fun s => notStream data s.1 with
  | some (key, _) => (registry, .error (unsupported key))
  | none =>
    let stream := stream.map (resolveId data)
    match readStreams data count stream with
    | some resp => (registry, reply resp)
    | none =>
      match block with
      | none => (registry, reply .emptyArray)
      | some ms =>
        let (timestamp, deadline) := getDeadline (if ms = 0 then none else some ms) now
        (registry.insert timestamp deadline clientId (.stream stream count), .ok none)

/-! ## Sorted sets and positions -/

section
variable (P : Platform)

/-- The shared body of ZADD and GEOADD. -/
def addMember (data : Data) (key : String) (score : F64) (member : String) : Option (Data × CmdResult) :=
  match data.lookup key with
  | some { value := .zSet set, expiredAt } =>
    (set.add score member).map fun (set, count) =>
      (data.modify key fun _ => { value := .zSet set, expiredAt }, reply (.integer (some count)))
  | _ => some (data, .error wrongType)

def orNewZSet (data : Data) (key : String) : Data :=
  HashMap.orInsert key { value := .zSet .new, expiredAt := none } data

def cmdZadd (data : Data) (key : String) (score : F64) (member : String) : Option (Data × CmdResult) :=
  addMember (orNewZSet data key) key score member

def withZSet (data : Data) (key : String) (absent : CmdResult) (found : SortedSet → Option CmdResult) :
    Option CmdResult :=
  match data.lookup key with
  | some item =>
    match item.value with
    | .zSet set => found set
    | _ => some (.error wrongType)
  | none => some absent

def cmdZrank (data : Data) (key member : String) : Option CmdResult :=
  withZSet data key (reply .nullBulk) fun set =>
    (set.rankByScore member).map fun rank =>
      match rank with
      | some rank => reply (.integer (some rank))
      | none => reply .nullBulk

def cmdZrange (data : Data) (key : String) (start stop : Int) : Option CmdResult :=
  withZSet data key (reply .emptyArray) fun set =>
    let members := set.getMembers start stop
    some (if members.isEmpty then reply .emptyArray else reply (.arrayOf (members.map .bulk)))

def cmdZcard (data : Data) (key : String) : Option CmdResult :=
  withZSet data key (reply (.integer (some 0))) fun set => some (reply (.integer (some set.len)))

def cmdZscore (data : Data) (key member : String) : Option CmdResult :=
  withZSet data key (reply .emptyArray) fun set =>
    some (match set.getScore member with
      | some score => reply (.bulk (P.f64ToString score))
      | none => reply .nullBulk)

def cmdZrem (data : Data) (key member : String) : Option (Data × CmdResult) :=
  match data.lookup key with
  | some { value := .zSet set, expiredAt } =>
    (set.remove member).map fun (set, count) =>
      (data.modify key fun _ => { value := .zSet set, expiredAt }, reply (.integer (some count)))
  | some _ => some (data, .error wrongType)
  | none => some (data, reply (.integer (some 0)))

def geoScore (long lat : String) : Except CustomError F64 :=
  match P.parseF64 long with
  | none => .error (.parseError (parseFloatError long))
  | some x =>
    match P.parseF64 lat with
    | none => .error (.parseError (parseFloatError lat))
    | some y => (Geohash.encode P.f64 x y).map fun score => P.f64.lit score 0

/-- The key is made before the position is read. -/
def cmdGeoadd (data : Data) (key long lat member : String) : Option (Data × CmdResult) :=
  let data := orNewZSet data key
  match geoScore P long lat with
  | .error e => some (data, .error e)
  | .ok score => addMember data key score member

def cmdGeopos (data : Data) (key : String) (members : List String) : Option CmdResult :=
  withZSet data key (reply (.arrayOf (members.map fun _ => .nullArray))) fun set =>
    some (reply (.arrayOf (members.map fun m =>
      match set.getScore m with
      | some score =>
        let pos := Geohash.decode P.f64 (P.f64.toU64 score)
        .arrayOf [.bulk (P.f64ToString pos.1), .bulk (P.f64ToString pos.2)]
      | none => .nullArray)))

def locations (set : SortedSet) : List String → List (F64 × F64)
  | [] => []
  | m :: ms =>
    match set.getScore m with
    | some score => Geohash.decode P.f64 (P.f64.toU64 score) :: locations set ms
    | none => []

def cmdGeodist (data : Data) (key : String) (members : List String) : Option CmdResult :=
  withZSet data key (reply .nullBulk) fun set =>
    some ((Geohash.distance P.f64 (locations P set members)).map fun d => some (.bulk (P.f64ToString d)))

def cmdGeosearch (o : IterOrder) (data : Data) (key : String) (fromArg byArg : CmdArg) : CmdResult :=
  match data.lookup key with
  | none => reply .nullArray
  | some item =>
    match item.value with
    | .zSet set =>
      match fromArg with
      | .fromLonLat long lat =>
        match byArg with
        | .byRadius radius => do
          let near ← (o.order (HashMap.toPairs set.members)).mapM fun (m, score) => do
            let d ← Geohash.distance P.f64 [(long, lat), Geohash.decode P.f64 (P.f64.toU64 score)]
            pure (d, m)
          let members := (near.filter fun e => P.f64.le e.1 radius).map Prod.snd
          if members.isEmpty then reply .emptyArray else reply (.arrayOf (members.map .bulk))
        | _ => .error (.unsupportedCmdStructure "Must be radius")
      | _ => .error (.unsupportedCmdStructure "Must be FROMLONLAT")
    | _ => .ok none

end

/-! ## Bitmaps -/

def bitOf (map : Bytes) (offset : Nat) : Nat :=
  match BitOps.get map offset with
  | .ok bit => bit
  | .error _ => 0

def setBit (map : Bytes) (offset bit : Nat) : Except CustomError Bytes := do
  let value ← BitValue.tryFrom bit
  match BitOps.set map offset value with
  | .ok map => pure map
  | .error _ => BitOps.set (Bitmap.extend map offset) offset value

def cmdSetbit (data : Data) (key : String) (offset bit : Nat) : Data × CmdResult :=
  let data := HashMap.orInsert key { value := .bitmap (Bitmap.new ((1 + offset) % 2 ^ 64)), expiredAt := none } data
  match data.lookup key with
  | some { value := .bitmap map, expiredAt } =>
    let oldBit := bitOf map offset
    if oldBit ≠ bit then
      match setBit map offset bit with
      | .ok map => (data.modify key fun _ => { value := .bitmap map, expiredAt }, reply (.integer (some oldBit)))
      | .error e => (data, .error e)
    else (data, reply (.integer (some oldBit)))
  | _ => (data, .error .dummy)

def bytesOf : StoreValue → Option Bytes
  | .bitmap map => some map
  | .str s => some (utf8 s)
  | _ => none

def cmdGetbit (data : Data) (key : String) (offset : Nat) : CmdResult :=
  match data.lookup key with
  | some item =>
    match bytesOf item.value with
    | some map => reply (.integer (some (bitOf map offset)))
    | none => .error wrongDataType
  | none => reply (.integer (some 0))

def cmdStrlen (data : Data) (key : String) : CmdResult :=
  match data.lookup key with
  | some item =>
    match item.value with
    | .bitmap map => reply (.integer (some map.length))
    | _ => .error wrongDataType
  | none => reply (.integer (some 0))

def cmdBitcount (data : Data) (key : String) (range : Option BitRange) : CmdResult :=
  match data.lookup key with
  | some item =>
    match bytesOf item.value with
    | some map => reply (.integer (some (BitOps.bitCount map range)))
    | none => .error wrongDataType
  | none => reply (.integer (some 0))

/-- A missing key counts as empty. -/
def bitopSource (data : Data) (key : String) : Except CustomError Bytes :=
  match data.lookup key with
  | some item =>
    match bytesOf item.value with
    | some map => .ok map
    | none => .error wrongDataType
  | none => .ok []

def bitop (op : Bytes → Bytes → Bytes) (data : Data) (dest key1 key2 : String) : Data × CmdResult :=
  match bitopSource data key1 with
  | .error e => (data, .error e)
  | .ok map1 =>
    match bitopSource data key2 with
    | .error e => (data, .error e)
    | .ok map2 =>
      let output := op map1 map2
      let data := if output.isEmpty then data.erase dest
        else data.insert dest { value := .bitmap output, expiredAt := none }
      (data, reply (.integer (some output.length)))

def cmdBitop (data : Data) : CmdArg → Data × CmdResult
  | .and dest key1 key2 => bitop BitOps.and data dest key1 key2
  | .or dest key1 key2 => bitop BitOps.or data dest key1 key2
  | _ => (data, .error (.invalidArgument "Invalid args for BITOP"))

def cmdKeys (o : IterOrder) (data : Data) (arg : String) : CmdResult :=
  if arg = "*" then reply (.arrayOf ((o.order data.keys).map .bulk))
  else .error (.invalidArgument "Invalid arg for KEYS")

end CmdHandler

end Redis
