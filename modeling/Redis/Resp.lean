import Redis.Lib.Decimal
import Redis.Lib.F64

/-!
# RESP values

The value type of `resp.rs` with its serializer, and the errors of
`exceptions.rs`, which are sent to clients as RESP values. Reaching the
serializer's `todo!` is `none`.
-/

namespace Redis

open Lib

inductive RespType where
  | simpleStr (o : Option String)
  | error (o : Option String)
  | integer (o : Option Int)
  | bulkStr (length : Nat) (value : Option String)
  | nullBulkStr
  | array (length : Nat) (value : Option (List RespType))
  | null
  | bool (o : Option Int)
  | double (o : Option F64)
  | bigNbr (o : Option String)
  | bulkError (length : Nat) (value : Option String)
  | verbatimStr (length : Nat) (value : Option String)
  | map
  | attr
  | set
  | push
  | rdb (o : Option Bytes)
  | bytes (o : Option Bytes)
  deriving Repr, BEq

/-- What the scanners hand over: text for lines and bulk strings, bytes for RDB. -/
inductive ReadBytesOutput where
  | string (s : String)
  | bytes (v : Bytes)

def ReadBytesOutput.str : ReadBytesOutput → Option String
  | .string s => some s
  | _ => none

inductive ParseError where
  | utf8
  | parseInt (e : IntError)
  | invalidData
  | notImplemented
  deriving Repr, DecidableEq

def delimiter : Bytes := [13, 10]

/-- `u64::MAX`, also the largest `usize`. -/
def u64Max : Nat := 2 ^ 64 - 1

namespace RespType

@[simp] def getPrefix : RespType → String
  | simpleStr _ => "+"
  | error _ => "-"
  | integer _ => ":"
  | bulkStr .. => "$"
  | nullBulkStr => "$-1\r\n"
  | array .. => "*"
  | null => "_"
  | bool _ => "#"
  | double _ => ","
  | bigNbr _ => "("
  | bulkError .. => "!"
  | verbatimStr .. => "="
  | map => "%"
  | attr => "|"
  | set => "~"
  | push => ">"
  | rdb _ => "$"
  | bytes _ => ""

def matchPrefix (firstChar : UInt8) (isRdb : Bool) : Option RespType :=
  if firstChar = 43 then some (simpleStr none)
  else if firstChar = 45 then some (error none)
  else if firstChar = 58 then some (integer none)
  else if firstChar = 36 then (if isRdb then some (rdb none) else some (bulkStr 0 none))
  else if firstChar = 42 then some (array 0 none)
  else if firstChar = 95 then some null
  else if firstChar = 35 then some (bool none)
  else if firstChar = 44 then some (double none)
  else if firstChar = 33 then some (bulkError 0 none)
  else if firstChar = 61 then some (verbatimStr 0 none)
  else if firstChar = 37 then some map
  else if firstChar = 124 then some attr
  else if firstChar = 126 then some set
  else if firstChar = 62 then some push
  else none

def setLength (value : Nat) : RespType → RespType
  | array _ v => array value v
  | bulkStr _ v => bulkStr value v
  | t => t

def isCompleted : RespType → Bool
  | simpleStr o | error o => o.isSome
  | integer o => o.isSome
  | array length value =>
    match value with
    | some v => v.length == length
    | none => false
  | bulkStr _ value | bulkError _ value | verbatimStr _ value => value.isSome
  | rdb o => o.isSome
  | _ => false

def addItem (t item : RespType) : RespType :=
  match t with
  | array length value => array length (some (value.getD [] ++ [item]))
  | t => t

/-- `get_or_insert` keeps a value that is already there. -/
def setValue : ReadBytesOutput → RespType → Except ParseError RespType
  | .string s, simpleStr o => .ok (simpleStr (some (o.getD s)))
  | .string s, error o => .ok (error (some (o.getD s)))
  | .string s, bulkStr length value => .ok (bulkStr length (some (value.getD s)))
  | .string _, _ => .error .notImplemented
  | .bytes v, rdb o => .ok (rdb (some (o.getD v)))
  | .bytes _, _ => .error .notImplemented

def bulkBytes (v : Bytes) : RespType :=
  bytes (some (utf8 "$" ++ utf8 (toString v.length) ++ delimiter ++ v ++ delimiter))

def getStr : RespType → Option String
  | simpleStr o => o
  | bulkStr _ value => value
  | _ => none

mutual
def serialize (t : RespType) : Option Bytes :=
  match t with
  | array length (some v) => do
    let items ← serializeAll v
    some (utf8 t.getPrefix ++ utf8 (toString length) ++ delimiter ++ items)
  | array _ none => some (utf8 t.getPrefix ++ utf8 "-1" ++ delimiter)
  | bulkStr length (some v) =>
    some (utf8 t.getPrefix ++ utf8 (toString length) ++ delimiter ++ utf8 v ++ delimiter)
  | bulkStr _ none => some (utf8 t.getPrefix ++ utf8 "-1" ++ delimiter)
  | simpleStr (some s) => some (utf8 t.getPrefix ++ utf8 s ++ delimiter)
  | simpleStr none => some []
  | integer (some x) => some (utf8 t.getPrefix ++ utf8 (toString x) ++ delimiter)
  | integer none => some []
  | rdb (some v) => some (utf8 t.getPrefix ++ utf8 (toString v.length) ++ delimiter ++ v)
  | error (some s) => some (utf8 t.getPrefix ++ utf8 s ++ delimiter)
  | error none => some []
  | bytes (some b) => some b
  | bytes none => some []
  | nullBulkStr => some (utf8 "$-1" ++ delimiter)
  | _ => none
def serializeAll : List RespType → Option Bytes
  | [] => some []
  | t :: ts => do
    let b ← serialize t
    let bs ← serializeAll ts
    some (b ++ bs)
end

def bulk (s : String) : RespType := bulkStr s.utf8ByteSize (some s)

def nullBulk : RespType := bulkStr 0 none

def emptyArray : RespType := array 0 (some [])

def nullArray : RespType := array 0 none

/-- An array built with `add_item` from `value: None`: with no item it stays null. -/
def arrayOf (items : List RespType) : RespType :=
  array items.length (if items.isEmpty then none else some items)

end RespType

/-! ## Errors -/

inductive CustomError where
  | pathNotExists (s : String)
  | invalidArgument (s : String)
  | missingArgument (s : String)
  | parseError (s : String)
  | noCmdError (s : String)
  | unsupportedCmdStructure (s : String)
  | unsupportedCmd (s : String)
  | unprocessableError (s : String)
  | internalError (s : String)
  | fileReadingError
  | rdbParsingError
  | wrongUsernamePassword (s : String)
  | outOfIndex
  | dummy
  deriving Repr, DecidableEq

namespace CustomError

def intoResp : CustomError → RespType
  | pathNotExists s | invalidArgument s | missingArgument s | parseError s | noCmdError s
  | unsupportedCmdStructure s | unsupportedCmd s | unprocessableError s | internalError s
  | wrongUsernamePassword s => .error (some s)
  | fileReadingError | rdbParsingError | outOfIndex | dummy => .nullBulkStr

def ofIntError (e : IntError) : CustomError := parseError e.message

theorem serialize_intoResp (e : CustomError) : ∃ b, e.intoResp.serialize = some b := by
  cases e <;> simp [intoResp, RespType.serialize]

def intoErrorBytes (e : CustomError) : Bytes := (e.intoResp.serialize).getD []

end CustomError

end Redis
