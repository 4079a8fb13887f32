import Redis.Resp

/-!
# The resumable RESP parser

`RespParser` keeps its buffer, two cursors, a status and a stack of unfinished
values from one call to the next. `turn` is one turn of the loop of `parse`,
`readLoop` is what `read_socket` and `aof_replay` do with the parser: parse and
take a completed value until there is none. An index or slice out of range is
`crash`, cursor arithmetic is that of `usize`.
-/

namespace Redis

open Lib

def bufferSize : Nat := 4096

def wrappingAdd (a b : Nat) : Nat := (a + b) % 2 ^ 64

def wrappingSub (a b : Nat) : Nat := (2 ^ 64 + a - b) % 2 ^ 64

theorem wrappingAdd_eq {a b : Nat} (h : a + b < 2 ^ 64) : wrappingAdd a b = a + b := by
  unfold wrappingAdd
  exact Nat.mod_eq_of_lt h

theorem wrappingSub_eq {a b : Nat} (h : b ≤ a) (ha : a < 2 ^ 64) : wrappingSub a b = a - b := by
  unfold wrappingSub
  omega

inductive ParseStatus where
  | none
  | type
  | header
  | line
  | bulk (n : Nat)
  | rdb (n : Nat)
  deriving Repr, DecidableEq

structure RespParser where
  buf : Bytes := []
  bufCur : Nat := 0
  tmpStart : Nat := 0
  /-- The top of the stack comes first. -/
  stack : List RespType := []
  completed : List RespType := []
  status : ParseStatus := .type

inductive Turn where
  | again (p : RespParser)
  | ret (p : RespParser) (r : Except ParseError Unit)
  | crash

/-- `&buf[start..stop]` -/
def slice (buf : Bytes) (start stop : Nat) : Option Bytes :=
  if start ≤ stop ∧ stop ≤ buf.length then some ((buf.drop start).take (stop - start)) else none

/-- The first type prefix at or after the cursor; unknown bytes are skipped. -/
def findType (isRdb : Bool) : Bytes → Nat → Nat × Option RespType
  | [], cur => (cur, none)
  | b :: bs, cur =>
    match RespType.matchPrefix b isRdb with
    | some t => (cur + 1, some t)
    | none => findType isRdb bs (cur + 1)

/-- The first CRLF at or after the cursor, or the last position looked at. -/
def findCrlf : Bytes → Nat → Nat × Bool
  | b :: c :: rest, cur => if b = 13 ∧ c = 10 then (cur, true) else findCrlf (c :: rest) (cur + 1)
  | _, cur => (cur, false)

/-- Pops a completed top of the stack into the value below it, as long as there is one. -/
def popStack : RespType → List RespType → List RespType → List RespType × List RespType
  | top, below, completed =>
    if top.isCompleted then
      match below with
      | [] => ([], completed ++ [top])
      | next :: rest => popStack (next.addItem top) rest completed
    else (top :: below, completed)

namespace RespParser

def new : RespParser := {}

def feedBuf (p : RespParser) (data : Bytes) : RespParser := { p with buf := p.buf ++ data }

def popCompleted (p : RespParser) : RespParser :=
  match p.stack with
  | [] => p
  | top :: below =>
    let r := popStack top below p.completed
    { p with stack := r.1, completed := r.2 }

def getCompleted (p : RespParser) : Option (RespType × RespParser) :=
  match p.completed with
  | [] => none
  | t :: ts => some (t, { p with completed := ts })

def nextTillType (p : RespParser) (isRdb : Bool) : RespParser × Option RespType :=
  match findType isRdb (p.buf.drop p.bufCur) p.bufCur with
  | (cur, some t) => ({ p with bufCur := cur, tmpStart := cur }, some t)
  | (cur, none) => ({ p with bufCur := cur }, none)

def nextTillNewLine (p : RespParser) :
    Option (RespParser × Except ParseError (Option ReadBytesOutput)) :=
  -- `buf.len() - buf_cur` would wrap and the first index fail
  if p.buf.length < p.bufCur then none
  else
    match findCrlf (p.buf.drop p.bufCur) p.bufCur with
    | (cur, false) => some ({ p with bufCur := cur }, .ok none)
    | (cur, true) => do
      let s ← slice p.buf p.tmpStart cur
      match fromUtf8 s with
      | some s => some ({ p with bufCur := cur + 2, tmpStart := cur + 2 }, .ok (some (.string s)))
      | none => some ({ p with bufCur := cur }, .error .utf8)

def readBytes (p : RespParser) (n : Nat) (isRdb : Bool) :
    Option (RespParser × Except ParseError (Option ReadBytesOutput)) :=
  let tmpLen := wrappingSub p.bufCur p.tmpStart
  let bufLen := p.buf.length
  let endingLen := if isRdb then 0 else 2
  let nextLen := min (wrappingAdd n endingLen - tmpLen) bufLen
  let p := if 0 < nextLen then { p with bufCur := wrappingAdd p.bufCur nextLen } else p
  if p.bufCur ≤ p.buf.length ∧ wrappingSub p.bufCur p.tmpStart = wrappingAdd n endingLen then
    if isRdb then do
      let v ← slice p.buf p.tmpStart p.bufCur
      some (p, .ok (some (.bytes v)))
    else do
      let b ← p.buf[wrappingAdd p.tmpStart n]?
      if b = 13 then
        let c ← p.buf[wrappingAdd (wrappingAdd p.tmpStart n) 1]?
        if c = 10 then
          let s ← slice p.buf p.tmpStart (wrappingSub p.bufCur 2)
          match fromUtf8 s with
          | some s => some (p, .ok (some (.string s)))
          | none => some (p, .error .utf8)
        else some (p, .error .invalidData)
      else some (p, .error .invalidData)
  else some (p, .ok none)

def drainTillBuf (p : RespParser) : Option RespParser :=
  if p.bufCur ≤ p.buf.length then
    some { p with buf := p.buf.drop p.bufCur, bufCur := 0, tmpStart := 0 }
  else none

def parseType (p : RespParser) (isRdb : Bool) : Turn :=
  match p.nextTillType isRdb with
  | (p, some t) =>
    let p := { p with stack := t :: p.stack }
    match t with
    | .array .. | .bulkStr .. | .rdb _ => .again { p with status := .header }
    | .simpleStr _ | .integer _ => .again { p with status := .line }
    | _ => .again p
  | (p, none) => .again { p with status := .type }

def parseHeader (p : RespParser) : Turn :=
  match p.nextTillNewLine with
  | none => .crash
  | some (p, .ok (some s)) =>
    match p.drainTillBuf with
    | none => .crash
    | some p =>
      match p.stack with
      | [] => .again p
      | top :: below =>
        match s.str with
        | none => .crash
        | some s =>
          match parseUint u64Max s with
          | .error e => .ret p (.error (.parseInt e))
          | .ok length =>
            let top := top.setLength length
            let status := match top with
              | .array .. => .type
              | .bulkStr length _ | .bulkError length _ | .verbatimStr length _ => .bulk length
              | .rdb _ => .rdb length
              | _ => .type
            .again { p with stack := top :: below, status }
  | some (p, .ok none) => .ret { p with status := .header } (.ok ())
  | some (p, .error e) => .ret p (.error e)

/-- `set_value` on the top of the stack, shared by the line, bulk and RDB branches. -/
def setTop (p : RespParser) (s : ReadBytesOutput) : Turn :=
  match p.drainTillBuf with
  | none => .crash
  | some p =>
    match p.stack with
    | [] => .again p
    | top :: below =>
      match top.setValue s with
      | .error e => .ret p (.error e)
      | .ok top => .again { p with stack := top :: below, status := .type }

def parseLine (p : RespParser) : Turn :=
  match p.nextTillNewLine with
  | none => .crash
  | some (p, .ok (some s)) => p.setTop s
  | some (p, .ok none) => .ret { p with status := .line } (.ok ())
  | some (p, .error e) => .ret p (.error e)

def parseBulk (p : RespParser) (n : Nat) (isRdb : Bool) : Turn :=
  match p.readBytes n isRdb with
  | none => .crash
  | some (p, .ok (some s)) => p.setTop s
  | some (p, .ok none) => .again { p with status := if isRdb then .rdb n else .bulk n }
  -- the error is dropped and the loop goes on with status `Type`
  | some (p, .error _) => .again p

def turn (p : RespParser) (isRdb : Bool) : Turn :=
  let p := p.popCompleted
  if p.completed ≠ [] then .ret p (.ok ())
  else if p.buf = [] ∨ p.buf.length ≤ p.bufCur then .ret p (.ok ())
  else
    let current := p.status
    let p := { p with status := .type }
    match current with
    | .type => p.parseType isRdb
    | .header => p.parseHeader
    | .line => p.parseLine
    | .bulk n => p.parseBulk n false
    | .rdb n => p.parseBulk n true
    | .none => .again p

def parse (isRdb : Bool) : Nat → RespParser → Option (RespParser × Except ParseError Unit)
  | 0, _ => none
  | fuel + 1, p =>
    match p.turn isRdb with
    | .again p => parse isRdb fuel p
    | .ret p r => some (p, r)
    | .crash => none

/-- The loop of `read_socket`: parse and take a completed value until there is
none or `parse` fails. -/
def readLoop (isRdb : Bool) : Nat → RespParser → Option (RespParser × List RespType × Except ParseError Unit)
  | 0, _ => none
  | fuel + 1, p =>
    match p.parse isRdb fuel with
    | none => none
    | some (p, .error e) => some (p, [], .error e)
    | some (p, .ok ()) =>
      match p.getCompleted with
      | none => some (p, [], .ok ())
      | some (t, p) => (readLoop isRdb fuel p).map fun r => (r.1, t :: r.2.1, r.2.2)

def readChunks (isRdb : Bool) (fuel : Nat) : RespParser → List Bytes → Option (RespParser × List RespType)
  | p, [] => some (p, [])
  | p, chunk :: chunks =>
    match (p.feedBuf chunk).readLoop isRdb fuel with
    | some (p, ts, .ok ()) => (readChunks isRdb fuel p chunks).map fun r => (r.1, ts ++ r.2)
    | some (p, ts, .error _) => some (p, ts)
    | none => none

def takeCompleted (isRdb : Bool) (fuel : Nat) : Nat → RespParser → Option (RespParser × List RespType)
  | 0, p => some (p, [])
  | n + 1, p =>
    match p.parse isRdb fuel with
    | some (p, .ok ()) =>
      match p.getCompleted with
      | some (t, p) => (takeCompleted isRdb fuel n p).map fun r => (r.1, t :: r.2)
      | none => none
    | _ => none

end RespParser

end Redis
