import Redis.Lib.Text
import Redis.RecoverySound

/-!
# Startup of the log

The directory of the log, as `init_sequence` finds and leaves it: files
`<appendfilename>.<id>.incr.aof` and a manifest that names the one in use. The
id to go on with is the third field of the names in the directory, the file to
be replayed is a word of the manifest. Calls of the file system succeed on paths
that exist; a crash can come between any two of them.
-/

namespace Redis

open Lib

abbrev AofDir := HashMap String Bytes

inductive Halt where
  | failed (e : CustomError)
  | panicked
  deriving DecidableEq

namespace Aof

/-! ## Names -/

def aofFilename (appendfilename : String) (id : Nat) : String :=
  appendfilename ++ "." ++ toString id ++ ".incr.aof"

def manifestFilename (appendfilename : String) : String := appendfilename ++ ".manifest"

def firstLine (appendfilename : String) (id : Nat) : String :=
  "file " ++ aofFilename appendfilename id ++ " seq " ++ toString id ++ " type i\n"

def thirdField (name : String) : Option String := (splitOnChar '.' name)[2]?

def idOf (name : String) : Option Nat := (thirdField name).bind fun s => (parseUint u64Max s).toOption

/-- An index out of range is `none`. -/
def getLatestAofId (dir : AofDir) : Option (Option Nat) :=
  if ∀ name ∈ dir.keys, (thirdField name).isSome then some (dir.keys.filterMap idOf).max? else none

/-! ## Writing -/

/-- The directory after each call, and the file that was opened. -/
def initAofFiles (appendfilename : String) (dir : AofDir) : List AofDir × Except Halt String :=
  match getLatestAofId dir with
  | none => ([], .error .panicked)
  | some latest =>
    let id := latest.getD 1
    let opened := HashMap.orInsert (aofFilename appendfilename id) [] dir
    let created := HashMap.put (manifestFilename appendfilename) [] opened
    let written := HashMap.put (manifestFilename appendfilename) (utf8 (firstLine appendfilename id)) created
    ([opened, created, written], .ok (aofFilename appendfilename id))

/-! ## Reading -/

def stripCr (line : Bytes) : Bytes := if line.getLast? = some 13 then line.dropLast else line

/-- `lines`: what follows the last newline is a line if it is not empty. -/
def linesOf (file : Bytes) : List Bytes :=
  let parts := file.splitOn 10
  parts.dropLast.map stripCr ++ parts.getLast?.toList.filter (· ≠ [])

structure Manifest where
  aofFilename : String := ""
  aofSeq : Nat := 1
  aofType : String := ""

def scanWord (m : Manifest) (word : String) (next : Option String) : Except Halt Manifest :=
  if word = "file" then next.elim (.error .panicked) fun v => .ok { m with aofFilename := v }
  else if word = "seq" then
    next.elim (.error .panicked) fun v =>
      match parseUint u64Max v with
      | .ok n => .ok { m with aofSeq := n }
      | .error e => .error (.failed (.ofIntError e))
  else if word = "type" then next.elim (.error .panicked) fun v => .ok { m with aofType := v }
  else .ok m

def scanWords : Manifest → List String → Except Halt Manifest
  | m, [] => .ok m
  | m, word :: words => (scanWord m word words.head?).bind fun m => scanWords m words

def scanLines : Manifest → List Bytes → Except Halt Manifest
  | m, [] => .ok m
  | m, line :: lines =>
    match fromUtf8 line with
    | none => .error (.failed .fileReadingError)
    | some s => (scanWords m (splitOnChar ' ' s)).bind fun m => if m.aofType = "i" then .ok m else scanLines m lines

def readManifest (appendfilename : String) (dir : AofDir) : Except Halt String :=
  match dir.lookup (manifestFilename appendfilename) with
  | none => .error (.failed .fileReadingError)
  | some file => (scanLines {} (linesOf file)).bind fun m =>
      if m.aofType = "i" then .ok m.aofFilename else .error (.failed (.internalError "No aof type i found"))

section
variable (P : Platform) (orders : Nat → IterOrder) (fuel : Nat)

def aofReplay (appendfilename : String) (dir : AofDir) (h : CmdHandler) : Except Halt CmdHandler :=
  (readManifest appendfilename dir).bind fun name =>
    match dir.lookup name with
    | none => .error (.failed .fileReadingError)
    | some file => (CmdHandler.replayFile P orders fuel h file).elim (.error .panicked) .ok

/-- The directory after each call, and how the sequence ends: with the handler
and the file that was opened. -/
def initSequence (configs : Configs) (disk : Option AofDir) (h : CmdHandler) :
    List AofDir × Except Halt (CmdHandler × Option String) :=
  if configs.appendonly then
    match disk with
    | some dir =>
      match aofReplay P orders fuel configs.appendfilename dir h with
      | .error e => ([], .error e)
      | .ok h =>
        let r := initAofFiles configs.appendfilename dir
        (r.1, r.2.map fun name => (h, some name))
    | none =>
      let r := initAofFiles configs.appendfilename ∅
      (∅ :: r.1, r.2.map fun name => (h, some name))
  else ([], .ok (h, none))

end

/-- What earlier runs leave: each with its own configuration, stopped after any
of its calls, and with any log written to a log file that is there. -/
inductive Left : Option AofDir → Prop
  | fresh : Left none
  | run {disk dir} (P : Platform) (orders : Nat → IterOrder) (fuel : Nat) (configs : Configs) (h : CmdHandler) :
      Left disk → dir ∈ (initSequence P orders fuel configs disk h).1 → Left (some dir)
  | logged {dir name id} (log : Bytes) :
      Left (some dir) → aofFilename name id ∈ dir → Left (some (HashMap.put (aofFilename name id) log dir))

end Aof

end Redis
