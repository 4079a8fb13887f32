import Redis.CmdHandler
import Redis.Lib.Reader

/-!
# The database file

`Rdb::read` over the bytes of a file, and what the startup does with it. A turn
of the loop reads one section or one record. The end of the file is an error
inside of a section; where an opcode is expected, or the header, it is a panic.
-/

namespace Redis

open Lib

/-- `from_le_bytes`, without a sign. -/
def fromLeBytes : Bytes → Nat
  | [] => 0
  | b :: bytes => b.toNat + 256 * fromLeBytes bytes

def fromBeBytes (bytes : Bytes) : Nat := fromLeBytes bytes.reverse

namespace Rdb

abbrev Parse (α : Type) := Reader Bytes CustomError α

def fail {α : Type} (e : CustomError) : Parse α := fun _ => some (.error e)

/-- `read_exact` into a buffer of `n` bytes -/
def readExact (n : Nat) : Parse Bytes := fun buf =>
  if n ≤ buf.length then some (.ok (buf.take n, buf.drop n)) else some (.error .fileReadingError)

/-- `read_exact`, with `expect` -/
def expectExact (n : Nat) : Parse Bytes := fun buf =>
  if n ≤ buf.length then some (.ok (buf.take n, buf.drop n)) else none

def readByte : Parse UInt8 := do return (← readExact 1).getD 0 0

def parseLength : Parse Nat := do
  let byte0 ← readByte
  match byte0 &&& 0b11000000 with
  | 0b00000000 => return byte0.toNat
  | 0b01000000 => do
    let len1 ← readByte
    return (byte0 &&& 0b00111111).toNat * 256 + len1.toNat
  | 0b10000000 => return fromBeBytes (← readExact 4)
  | _ => fail .rdbParsingError

def text (output : Bytes) : Parse String :=
  match fromUtf8 output with
  | some s => pure s
  | none => fail (.parseError "Error parsing UTF8")

def parseString : Parse String := do
  let byte0 ← readByte
  if byte0 &&& 0b11000000 = 0b00000000 then text (← readExact (byte0 &&& 0b00111111).toNat)
  else
    match byte0 with
    | 0xC0 => return toString (← readByte).toNat
    | 0xC1 => return toString ((fromLeBytes (← readExact 2) : Int).bmod (2 ^ 16))
    | 0xC2 => return toString ((fromLeBytes (← readExact 4) : Int).bmod (2 ^ 32))
    | _ => fail .rdbParsingError

def parseExpMs : Parse Nat := do return fromLeBytes (← readExact 8)

def parseExpS : Parse Nat := do return fromLeBytes (← readExact 4)

def parseTypeString : Parse (String × String) := do
  match ← readByte with
  | 0x00 => do
    let key ← parseString
    let value ← parseString
    return (key, value)
  | _ => fail .rdbParsingError

inductive Expiry where
  | never
  | ms (m : Nat)
  | sec (s : Nat)
  deriving Repr, DecidableEq

/-- `expired_at` takes the number as it is. -/
def Expiry.expiredAt : Expiry → Option Nat
  | never => none
  | ms m => some m
  | sec s => some s

structure Record where
  key : String
  value : String
  expiry : Expiry
  deriving Repr, DecidableEq

def Record.item (r : Record) : StoreItem := { value := .str r.value, expiredAt := r.expiry.expiredAt }

inductive Turn where
  | skipped
  | record (r : Record)
  | eof

/-- An opcode that is not known is taken for a record without an expiry. -/
def turnOf (opcode : UInt8) : Parse Turn :=
  match opcode with
  | 0xFA => do
    let _ ← parseString
    let _ ← parseString
    return .skipped
  | 0xFE => do
    let _ ← parseLength
    return .skipped
  | 0xFB => do
    let _ ← parseLength
    let _ ← parseLength
    return .skipped
  | 0xFC => do
    let expMs ← parseExpMs
    let (key, value) ← parseTypeString
    return .record { key, value, expiry := .ms expMs }
  | 0xFD => do
    let expS ← parseExpS
    let (key, value) ← parseTypeString
    return .record { key, value, expiry := .sec expS }
  | 0xFF => return .eof
  | _ => do
    let key ← parseString
    let value ← parseString
    return .record { key, value, expiry := .never }

def turn : Parse Turn := do turnOf ((← expectExact 1).getD 0 0)

def readLoop : Nat → Data → Parse Data
  | 0, _ => fun _ => none
  | fuel + 1, data => do
    match ← turn with
    | .skipped => readLoop fuel data
    | .record r => readLoop fuel (data.insert r.key r.item)
    | .eof => return data

/-- What comes before the sections: the magic string and the version, which are not looked at. -/
def header : Parse Unit := do
  let _ ← expectExact 5
  let _ ← expectExact 4
  return ()

def read (file : Bytes) : Option (Except CustomError Data) :=
  let parsed : Option (Except CustomError (Data × Bytes)) :=
    (do header; readLoop (file.length + 1) ∅ : Parse Data) file
  parsed.map fun r => r.map Prod.fst

/-! ## Turns are enough -/

section
open Reader

theorem shrinks_fail {α : Type} (e : CustomError) : Shrinks List.length (fail (α := α) e) := by
  intro buf a rest h
  cases h

theorem shrinks_readExact (n : Nat) : Shrinks List.length (readExact n) := by
  intro buf a rest h
  unfold readExact at h
  split at h
  · cases h
    rw [List.length_drop]
    exact Nat.sub_le _ _
  · cases h

theorem shrinks_readByte : Shrinks List.length readByte := (shrinks_readExact 1).bind fun _ => shrinks_pure _

theorem shrinks_parseLength : Shrinks List.length parseLength := by
  refine shrinks_readByte.bind fun byte0 => ?_
  split
  · exact shrinks_pure _
  · exact shrinks_readByte.bind fun _ => shrinks_pure _
  · exact (shrinks_readExact 4).bind fun _ => shrinks_pure _
  · exact shrinks_fail _

theorem shrinks_text (output : Bytes) : Shrinks List.length (text output) := by
  unfold text
  split
  · exact shrinks_pure _
  · exact shrinks_fail _

theorem shrinks_parseString : Shrinks List.length parseString := by
  refine shrinks_readByte.bind fun byte0 => shrinks_ite ((shrinks_readExact _).bind shrinks_text) ?_
  split
  · exact shrinks_readByte.bind fun _ => shrinks_pure _
  · exact (shrinks_readExact 2).bind fun _ => shrinks_pure _
  · exact (shrinks_readExact 4).bind fun _ => shrinks_pure _
  · exact shrinks_fail _

theorem shrinks_parseTypeString : Shrinks List.length parseTypeString := by
  refine shrinks_readByte.bind fun dataType => ?_
  split
  · exact shrinks_parseString.bind fun _ => shrinks_parseString.bind fun _ => shrinks_pure _
  · exact shrinks_fail _

theorem shrinks_turnOf (opcode : UInt8) : Shrinks List.length (turnOf opcode) := by
  unfold turnOf
  split
  · exact shrinks_parseString.bind fun _ => shrinks_parseString.bind fun _ => shrinks_pure _
  · exact shrinks_parseLength.bind fun _ => shrinks_pure _
  · exact shrinks_parseLength.bind fun _ => shrinks_parseLength.bind fun _ => shrinks_pure _
  · exact ((shrinks_readExact 8).bind fun _ => shrinks_pure _).bind fun _ =>
      shrinks_parseTypeString.bind fun _ => shrinks_pure _
  · exact ((shrinks_readExact 4).bind fun _ => shrinks_pure _).bind fun _ =>
      shrinks_parseTypeString.bind fun _ => shrinks_pure _
  · exact shrinks_pure _
  · exact shrinks_parseString.bind fun _ => shrinks_parseString.bind fun _ => shrinks_pure _

theorem turn_shorter {buf rest : Bytes} {t : Turn} (h : turn buf = some (.ok (t, rest))) :
    rest.length < buf.length := by
  obtain ⟨opcode, buf', hop, hbody⟩ := bind_eq_ok.mp h
  refine Nat.lt_of_le_of_lt (shrinks_turnOf _ buf' t rest hbody) ?_
  unfold expectExact at hop
  split at hop
  · rename_i hle
    cases hop
    rw [List.length_drop]
    omega
  · cases hop

/-- More turns than bytes make no difference. -/
theorem readLoop_enough {fuel fuel' : Nat} {data : Data} {buf : Bytes} (h : buf.length < fuel)
    (h' : buf.length < fuel') :
    readLoop fuel data buf = readLoop fuel' data buf := by
  induction fuel generalizing fuel' data buf with
  | zero => omega
  | succ fuel ih =>
    cases fuel' with
    | zero => omega
    | succ fuel' =>
      simp only [readLoop, bind_apply]
      cases ht : turn buf with
      | none => rfl
      | some r =>
        cases r with
        | error e => rfl
        | ok x =>
          obtain ⟨t, rest⟩ := x
          have hlt := turn_shorter ht
          have hfewer : rest.length < fuel := by omega
          have hfewer' : rest.length < fuel' := by omega
          cases t with
          | skipped => exact ih hfewer hfewer'
          | record r => exact ih hfewer hfewer'
          | eof => rfl

end

/-! ## Records -/

/-- What the loop inserts, in its order. -/
def records : Nat → Parse (List Record)
  | 0 => fun _ => none
  | fuel + 1 => do
    match ← turn with
    | .skipped => records fuel
    | .record r => return r :: (← records fuel)
    | .eof => return []

def insertRecord (data : Data) (r : Record) : Data := data.insert r.key r.item

theorem readLoop_eq_ok {fuel : Nat} {data data' : Data} {buf rest : Bytes} :
    readLoop fuel data buf = some (.ok (data', rest)) ↔
      ∃ rs, records fuel buf = some (.ok (rs, rest)) ∧ rs.foldl insertRecord data = data' := by
  induction fuel generalizing data buf with
  | zero =>
    refine iff_of_false (fun h => by cases h) ?_
    rintro ⟨rs, h, _⟩
    cases h
  | succ fuel ih =>
    simp only [readLoop, records, Reader.bind_eq_ok]
    constructor
    · rintro ⟨t, buf', ht, h⟩
      cases t with
      | skipped =>
        obtain ⟨rs, hrs, hd⟩ := ih.mp h
        exact ⟨rs, ⟨_, buf', ht, hrs⟩, hd⟩
      | record r =>
        obtain ⟨rs, hrs, hd⟩ := ih.mp h
        have hcons : (do return r :: (← records fuel) : Parse (List Record)) buf' = some (.ok (r :: rs, rest)) :=
          Reader.bind_eq_ok.mpr ⟨rs, rest, hrs, rfl⟩
        exact ⟨r :: rs, ⟨_, buf', ht, hcons⟩, hd⟩
      | eof =>
        cases h
        exact ⟨[], ⟨_, _, ht, rfl⟩, rfl⟩
    · rintro ⟨rs, ⟨t, buf', ht, h⟩, hd⟩
      refine ⟨t, buf', ht, ?_⟩
      cases t with
      | skipped => exact ih.mpr ⟨rs, h, hd⟩
      | record r =>
        obtain ⟨rs', rest', hrs, hlast⟩ := Reader.bind_eq_ok.mp h
        cases hlast
        exact ih.mpr ⟨rs', hrs, hd⟩
      | eof =>
        cases h
        exact congrArg (fun d => some (Except.ok (d, rest))) hd

def Holds (file : Bytes) (rs : List Record) : Prop :=
  ∃ rest, (do header; records (file.length + 1) : Parse (List Record)) file = some (.ok (rs, rest))

theorem Holds.read {file : Bytes} {rs : List Record} (h : Holds file rs) :
    read file = some (.ok (rs.foldl insertRecord ∅)) := by
  obtain ⟨rest, h⟩ := h
  obtain ⟨u, buf, hheader, hrs⟩ := Reader.bind_eq_ok.mp h
  have hall : (do header; readLoop (file.length + 1) ∅ : Parse Data) file =
      some (.ok (rs.foldl insertRecord ∅, rest)) :=
    Reader.bind_eq_ok.mpr ⟨u, buf, hheader, readLoop_eq_ok.mpr ⟨rs, hrs, rfl⟩⟩
  rw [Rdb.read, hall]
  rfl

theorem holds_of_read {file : Bytes} {data : Data} (h : read file = some (.ok data)) :
    ∃ rs, Holds file rs ∧ data = rs.foldl insertRecord ∅ := by
  obtain ⟨r, hparsed, hr⟩ := Option.map_eq_some_iff.mp h
  cases r with
  | error e => cases hr
  | ok x =>
    obtain ⟨d, rest⟩ := x
    cases hr
    obtain ⟨u, buf, hheader, hloop⟩ := Reader.bind_eq_ok.mp hparsed
    obtain ⟨rs, hrs, rfl⟩ := readLoop_eq_ok.mp hloop
    exact ⟨rs, ⟨rest, Reader.bind_eq_ok.mpr ⟨u, buf, hheader, hrs⟩⟩, rfl⟩

end Rdb

namespace CmdHandler

def loadData (h : CmdHandler) (data : Data) : CmdHandler := { h with data }

def loadRdb (h : CmdHandler) (file : Option Bytes) : Option CmdHandler :=
  match file with
  | none => some h
  | some file =>
    (Rdb.read file).map fun
      | .ok data => h.loadData data
      | .error _ => h

end CmdHandler

end Redis
