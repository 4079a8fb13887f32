import Redis.Cmd
import Redis.Process

/-!
# The registry of waiting requests

Five maps hold a blocked request: `store` under the clock reading that is its
identity, the queue, set or table of its kind, and the tree of deadlines. The
closures of an entry are its data here: what a task captures are the entry's
own fields. `History` and the serial number of an entry are not in the source;
they name the requests for the statements about runs.
-/

namespace Redis

open Lib

/-- The timer behind `timer_fd`, and the readings of `now` still to come. -/
structure Timer where
  clock : Nat → Nat
  armed : Option Nat := none

namespace Timer

def now (t : Timer) : Nat := t.clock 0

def tick (t : Timer) : Timer := { t with clock := fun n => t.clock (1 + n) }

/-- A duration that is negative as `i64` is refused, and the timer stays as it is. -/
def createEvent (t : Timer) (now durationMs : Nat) : Timer :=
  if durationMs < 2 ^ 63 then { t with armed := some (now + durationMs) } else t

def set (t : Timer) (deadline : Nat) : Timer :=
  t.tick.createEvent t.now (if t.now < deadline then deadline - t.now else 1)

end Timer

inductive RequestKind where
  | list (key : String)
  | stream (keyTs : List (String × Nat × Nat)) (count : Option Nat)
  | wait (requiredCount actualCount : Nat) (offsetSnapshot : Int) (slaveIds : List Nat) (epollFd : Option Int)
  deriving Repr, DecidableEq

def RequestKind.isList : RequestKind → Bool
  | .list _ => true
  | _ => false

def RequestKind.isStream : RequestKind → Bool
  | .stream .. => true
  | _ => false

def RequestKind.isWait : RequestKind → Bool
  | .wait .. => true
  | _ => false

def RequestKind.slaveIds : RequestKind → List Nat
  | .wait _ _ _ slaveIds _ => slaveIds
  | _ => []

/-- `timestamp` is the identity captured by the tasks. -/
structure RequestEntry where
  kind : RequestKind
  clientId : Nat
  timestamp : Nat
  deadline : Nat
  serial : Nat
  deriving Repr, DecidableEq

/-- `actual_count.set` -/
def RequestEntry.setCount (entry : RequestEntry) (count : Nat) : RequestEntry :=
  match entry.kind with
  | .wait requiredCount _ offsetSnapshot slaveIds epollFd =>
    { entry with kind := .wait requiredCount count offsetSnapshot slaveIds epollFd }
  | _ => entry

structure History where
  issued : Nat := 0
  answered : List Nat := []

def History.issue (g : History) : History := { g with issued := 1 + g.issued }

def History.answer (g : History) (serial : Nat) : History := { g with answered := serial :: g.answered }

/-- What a transaction can hold: `handle` takes the other three out. -/
def Cmd.queueable : Cmd → Bool
  | .exec | .discard | .watch _ => false
  | _ => true

structure Queued where
  cmd : Cmd
  buf : Bytes
  queueable : cmd.queueable = true

structure RequestRegistry where
  store : HashMap Nat RequestEntry := ∅
  backlogList : HashMap String (List Nat) := ∅
  backlogStream : HashSet Nat := ∅
  backlogTxn : HashMap Nat (List Queued) := ∅
  watchlist : HashMap String (HashMap Nat Bool) := ∅
  backlogWait : HashMap Nat Nat := ∅
  backlogAck : HashMap Nat (List Nat) := ∅
  deadline : OrdMap Nat Nat := .empty
  timer : Timer
  history : History := {}

/-- The first free deadline from `d` on, in `u64`. -/
def freeDeadline (deadlines : OrdMap Nat Nat) : Nat → Nat → Nat
  | 0, d => d
  | fuel + 1, d => if deadlines.contains d then freeDeadline deadlines fuel ((1 + d) % 2 ^ 64) else d

namespace RequestRegistry

def new (timer : Timer) : RequestRegistry := { timer }

def setTimerFd (r : RequestRegistry) : RequestRegistry :=
  { r with
    timer := match r.deadline.first? with
      | some (deadline, _) => r.timer.set deadline
      | none => r.timer }

def enqueue (r : RequestRegistry) (timestamp clientId : Nat) : RequestKind → RequestRegistry
  | .list key => { r with backlogList := r.backlogList.pushBack key timestamp }
  | .stream .. => { r with backlogStream := r.backlogStream.insert timestamp () }
  | .wait _ _ _ slaveIds _ =>
    { r with
      backlogWait := r.backlogWait.insert clientId timestamp
      backlogAck := slaveIds.foldl (fun acks i => HashMap.pushBack i clientId acks) r.backlogAck }

def schedule (r : RequestRegistry) (timestamp deadline : Nat) : RequestRegistry × Nat :=
  if 0 < deadline then
    let d := freeDeadline r.deadline (r.deadline.entries.length + 1) deadline
    ({ r with deadline := r.deadline.insert d timestamp }.setTimerFd, d)
  else (r, deadline)

def insert (r : RequestRegistry) (timestamp deadline clientId : Nat) (kind : RequestKind) : RequestRegistry :=
  let scheduled := r.schedule timestamp deadline
  let r := scheduled.1.enqueue timestamp clientId kind
  { r with
    store := r.store.insert timestamp
      { kind, clientId, timestamp, deadline := scheduled.2, serial := r.history.issued }
    history := r.history.issue }

def dequeue (r : RequestRegistry) (timestamp clientId : Nat) : RequestKind → RequestRegistry
  | .list key => { r with backlogList := r.backlogList.retain key (· ≠ timestamp) }
  | .stream .. => { r with backlogStream := r.backlogStream.erase timestamp }
  | .wait _ _ _ slaveIds _ =>
    { r with
      backlogWait := r.backlogWait.erase clientId
      backlogAck := slaveIds.foldl (fun acks i => HashMap.retain i (· ≠ clientId) acks) r.backlogAck }

def remove (r : RequestRegistry) (timestamp : Nat) : RequestRegistry × Option RequestEntry :=
  match r.store.lookup timestamp with
  | none => (r, none)
  | some entry =>
    let r := { r with store := r.store.erase timestamp }.dequeue timestamp entry.clientId entry.kind
    ({ r with deadline := r.deadline.erase entry.deadline }.setTimerFd, some entry)

/-- A missing queue does not count as empty. -/
def isBacklogListEmpty (r : RequestRegistry) (key : String) : Bool :=
  match r.backlogList.lookup key with
  | some list => list.isEmpty
  | none => false

def isTransaction (r : RequestRegistry) (clientId : Nat) : Bool := decide (clientId ∈ r.backlogTxn)

def getNearestDeadline (r : RequestRegistry) : Option (Nat × Nat) := r.deadline.first?

def addToTxn (r : RequestRegistry) (clientId : Nat) (q : Queued) : RequestRegistry :=
  { r with backlogTxn := r.backlogTxn.pushBack clientId q }

def watchKey (clientId : Nat) (watchlist : HashMap String (HashMap Nat Bool)) (key : String) :
    HashMap String (HashMap Nat Bool) :=
  (watchlist.orInsert key ∅).modify key (HashMap.orInsert clientId false)

def watch (r : RequestRegistry) (keys : List String) (clientId : Nat) : RequestRegistry :=
  { r with watchlist := keys.foldl (watchKey clientId) r.watchlist }

def unwatchAll (r : RequestRegistry) (clientId : Nat) : RequestRegistry :=
  { r with watchlist := r.watchlist.mapValues fun _ clients => clients.erase clientId }

def setDirty (r : RequestRegistry) (cmd : Cmd) : RequestRegistry :=
  { r with
    watchlist := match cmd.dirtyKey with
      | some key => r.watchlist.modify key (HashMap.mapValues fun _ _ => true)
      | none => r.watchlist }

def watchFlag (watchlist : HashMap String (HashMap Nat Bool)) (key : String) (clientId : Nat) : Option Bool :=
  (watchlist.lookup key).bind (AList.lookup clientId)

def dropTxn (r : RequestRegistry) (clientId : Nat) : RequestRegistry :=
  { r with backlogTxn := r.backlogTxn.erase clientId }

def isAnyDirty (r : RequestRegistry) (clientId : Nat) : Bool :=
  r.watchlist.values.any fun clients => (clients.lookup clientId).getD false

end RequestRegistry

end Redis
