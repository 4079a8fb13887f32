import Redis.Platform
import Redis.Resp
import Redis.Lib.HashMap

/-!
# Process-wide state

What commands reach through statics and thread locals: the table of master and
slaves, the replication stats, the configuration, the credentials, and the log
file behind `Aof`.
-/

namespace Redis

open Lib

structure ClientTable where
  master : Option Nat := none
  slaves : Option (HashSet Nat) := none

namespace ClientTable

def removeClient (t : ClientTable) (clientId : Nat) : ClientTable where
  master := if t.master = some clientId then none else t.master
  slaves := t.slaves.map (AList.erase clientId)

def isMaster (t : ClientTable) (clientId : Nat) : Bool := decide (t.master = some clientId)

def setMaster (t : ClientTable) (clientId : Nat) : ClientTable := { t with master := some clientId }

def setSlave (t : ClientTable) (clientId : Nat) : ClientTable :=
  { t with slaves := some (AList.insert clientId () (t.slaves.getD ∅)) }

def listSlave (t : ClientTable) : List Nat := ((t.slaves.map AList.keys).getD [])

end ClientTable

/-! ## Stats and configuration -/

namespace AtomicOffset

/-- `fetch_add` on an `AtomicI64`, which wraps. -/
def add (offset v : Int) : Int := (offset + v).bmod (2 ^ 64)

theorem add_of_lt {offset v : Int} (h0 : 0 ≤ offset + v) (h : offset + v < 2 ^ 63) : add offset v = offset + v := by
  rw [add, Int.bmod_def]
  omega

theorem add_lt (offset v : Int) : add offset v < 2 ^ 63 := by
  rw [add, Int.bmod_def]
  omega

theorem add_le {offset v : Int} (h0 : 0 ≤ offset + v) : add offset v ≤ offset + v := by
  rw [add, Int.bmod_def]
  omega

end AtomicOffset

/-- Host and port, and the offset, -1 before counting starts. -/
structure ReplStats where
  host : Option String
  port : Option Nat
  offset : Int := -1

namespace ReplStats

def startBytesCount (s : ReplStats) : ReplStats :=
  if s.offset = -1 then { s with offset := AtomicOffset.add s.offset 1 } else s

/-- Below zero the count stands still. -/
def addBytesCount (s : ReplStats) (count : Int) : ReplStats :=
  if s.offset > -1 then { s with offset := AtomicOffset.add s.offset count } else s

end ReplStats

def countUp (offset : Int) (count : Nat) : Int := if offset > -1 then AtomicOffset.add offset count else offset

theorem ReplStats.addBytesCount_eq (s : ReplStats) (count : Nat) :
    s.addBytesCount count = { s with offset := countUp s.offset count } := by
  unfold addBytesCount countUp
  split <;> rfl

theorem ReplStats.startBytesCount_offset (s : ReplStats) :
    s.startBytesCount.offset = if s.offset = -1 then 0 else s.offset := by
  unfold startBytesCount
  split
  · rename_i h
    simp only [h]
    decide
  · rfl

theorem countUp_of_lt {offset : Int} {count : Nat} (h0 : 0 ≤ offset) (h : offset + count < 2 ^ 63) :
    countUp offset count = offset + count := by
  rw [countUp, if_pos (by omega), AtomicOffset.add_of_lt (by omega) h]

theorem countUp_zero {offset : Int} (h : offset < 2 ^ 63) : countUp offset 0 = offset := by
  unfold countUp
  split
  · rw [AtomicOffset.add_of_lt (by omega) (by omega)]
    exact Int.add_zero offset
  · rfl

theorem countUp_lt {offset : Int} (h : offset < 2 ^ 63) (count : Nat) : countUp offset count < 2 ^ 63 := by
  unfold countUp
  split
  · exact AtomicOffset.add_lt _ _
  · exact h

theorem countUp_le (offset : Int) (count : Nat) : countUp offset count ≤ offset + count := by
  unfold countUp
  split
  · exact AtomicOffset.add_le (by omega)
  · omega

/-- Nothing shorter than 2^63 bytes leaves the count where it was. -/
theorem countUp_eq_self {offset : Int} {count : Nat} (h0 : 0 ≤ offset) (h : offset < 2 ^ 63) (hc : count < 2 ^ 63) :
    countUp offset count = offset ↔ count = 0 := by
  rw [countUp, if_pos (by omega), AtomicOffset.add, Int.bmod_def]
  omega

structure AppStates where
  hostStats : Option ReplStats
  masterStats : Option ReplStats

namespace AppStates

def isSlave (s : AppStates) : Bool := s.masterStats.isSome

def hostAddBytesCount (s : AppStates) (count : Int) : AppStates :=
  { s with hostStats := s.hostStats.map (·.addBytesCount count) }

end AppStates

inductive AppendFsync where
  | always
  | everySec
  deriving Repr, DecidableEq

def AppendFsync.getStr : AppendFsync → String
  | always => "always"
  | everySec => "everysec"

structure Configs where
  path : Option String := some "/app"
  dbfilename : Option String := none
  appendonly : Bool := false
  appenddirname : String := "appendonlydir"
  appendfilename : String := "appendonly.aof"
  appendfsync : AppendFsync := .everySec

def Configs.getAttr (c : Configs) (key : String) : Except CustomError String :=
  if key = "dir" then .ok (c.path.getD "none")
  else if key = "dbfilename" then .ok (c.dbfilename.getD "")
  else if key = "appendonly" then .ok (if c.appendonly then "yes" else "no")
  else if key = "appenddirname" then .ok c.appenddirname
  else if key = "appendfilename" then .ok c.appendfilename
  else if key = "appendfsync" then .ok c.appendfsync.getStr
  else .error (.unsupportedCmd "Unsupported")

/-! ## Credentials -/

inductive AuthFlags where
  | noPass
  deriving Repr, DecidableEq

def AuthFlags.toText : AuthFlags → String
  | noPass => "nopass"

structure Credential where
  passwords : HashSet String := ∅
  flags : HashSet AuthFlags := AList.singleton .noPass ()

namespace Credential

variable (P : Platform)

def setPassword (c : Credential) (password : String) : Credential :=
  { passwords := c.passwords.insert (P.sha256Hex password) (), flags := c.flags.erase .noPass }

def checkPassword (c : Credential) (password : String) : Bool := decide (P.sha256Hex password ∈ c.passwords)

/-- Also says whether the flag is new. -/
def addFlag (c : Credential) (flag : AuthFlags) : Credential × Bool :=
  ({ c with flags := c.flags.insert flag () }, decide (flag ∉ c.flags))

def hasNopass (c : Credential) : Bool := decide (AuthFlags.noPass ∈ c.flags)

end Credential

structure Auth where
  credentials : HashMap String Credential := AList.singleton "default" {}
  clients : HashMap Nat String := ∅

namespace Auth

variable (P : Platform)

def wrongPass : CustomError :=
  .wrongUsernamePassword "WRONGPASS invalid username-password pair or user is disabled."

def authenticate (a : Auth) (clientId : Nat) (username password : Option String) : Auth × Except CustomError Unit :=
  match username, password with
  | some u, some s =>
    match a.credentials.lookup u with
    | some credential =>
      if credential.checkPassword P s then ({ a with clients := a.clients.insert clientId u }, .ok ())
      else (a, .error wrongPass)
    | none => (a, .error wrongPass)
  | some _, none => (a, .error wrongPass)
  | none, some _ => (a, .error wrongPass)
  | none, none =>
    match a.credentials.lookup "default" with
    | none => (a, .error (.internalError "No default user"))
    | some credential =>
      if credential.hasNopass then ({ a with clients := a.clients.insert clientId "default" }, .ok ())
      else (a, .ok ())

def removeAuth (a : Auth) (clientId : Nat) : Auth := { a with clients := a.clients.erase clientId }

def getUsername (a : Auth) (clientId : Nat) : Except CustomError String :=
  match a.clients.lookup clientId with
  | some username => .ok username
  | none => .error (.wrongUsernamePassword "Client not registered")

def checkAuth (a : Auth) (clientId : Nat) : Bool := decide (clientId ∈ a.clients)

end Auth

/-! ## The log file -/

/-- What was handed to the writer, once `init_aof_files` has opened it. -/
structure Aof where
  written : Option (List Bytes) := none

/-- The error of a missing writer is silenced by the only caller. -/
def Aof.write (aof : Aof) (line : Bytes) : Aof := { written := aof.written.map (· ++ [line]) }

end Redis
