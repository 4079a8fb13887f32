import Redis.Lib.Runs
import Redis.Startup

/-!
# One process after another

A process that keeps a log opens its file to append to it. What it writes is
flushed at the end of a cycle. When it stops there, what it has written stands
behind what was in the file, and the next process is started with that.
-/

namespace Redis

open Lib

structure Life where
  args : List String
  orders : Nat → IterOrder
  fuel : Nat
  timer : Timer
  masterFd : Nat
  epollFd : Int
  events : List Server.Event

/-- The disk that a process leaves, and what it had in its key space. -/
structure Remains where
  disk : Disk
  data : Data

variable (P : Platform)

/-- The place of the directory, what is in it once the log is open, and the file
of the log. -/
def CmdHandler.openLog (orders : Nat → IterOrder) (fuel : Nat) (h : CmdHandler) (disk : Disk) :
    Option (String × AofDir × String) := do
  let path ← h.configs.path
  let place := path ++ "/" ++ h.configs.appenddirname
  let (dirs, opened) := Aof.initSequence P orders fuel h.configs (disk.dirs place) h
  let (_, file) ← opened.toOption
  return (place, ← dirs.getLast?, ← file)

namespace Life

def start (l : Life) (disk : Disk) : Option Server :=
  Server.main P l.orders l.fuel l.args disk l.timer l.masterFd l.epollFd

def log (l : Life) (disk : Disk) : Option (String × AofDir × String) := do
  let appStates ← AppStates.init l.args
  let configs ← Configs.withParseConfig {} l.args
  { CmdHandler.new l.timer appStates with configs }.openLog P l.orders l.fuel disk

def left (l : Life) (disk : Disk) (s : Server) : Disk :=
  match l.log P disk with
  | none => disk
  | some (place, dir, file) =>
    let written := (dir.lookup file).getD [] ++ ((s.handler.aof.bind Aof.written).getD []).flatten
    { disk with dirs := Function.update disk.dirs place (some (HashMap.put file written dir)) }

end Life

/-- A process is started on what there is, and stops at the end of a cycle. -/
def Lives (r : Remains) (l : Life) (r' : Remains) : Prop :=
  ∃ s s', l.start P r.disk = some s ∧ Run (Server.Steps P) s l.events s' ∧
    (∀ e ∈ l.events.getLast?, ∃ o o', e = .endOfCycle o o') ∧
    r' = { disk := l.left P r.disk s', data := s'.handler.data }

end Redis
