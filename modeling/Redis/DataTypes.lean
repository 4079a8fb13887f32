import Redis.Lib.Decimal
import Redis.Lib.F64
import Redis.Lib.HashMap
import Redis.Lib.OrdMap
import Mathlib.Data.Prod.Lex
import Mathlib.Data.String.Basic
import Redis.Resp

/-!
# Stored values

The value types of `data_types.rs`. A sorted set keeps two indexes; the tree of
scores compares `f64`s and panics on a NaN, so its operations return an option.
-/

namespace Redis

open Lib

/-! ## Sorted sets -/

/-- `Ord` of `(Score, Rc<String>)`; comparing a NaN unwraps `None`. -/
def scoreCmp (a b : F64 × String) : Option Ordering := (F64.partialCmp a.1 b.1).map (·.then (compare a.2 b.2))

/-- `BTreeMap::insert`: an equal key stays as it is. -/
def scoresInsert (k : F64 × String) : List (F64 × String) → Option (List (F64 × String))
  | [] => some [k]
  | a :: as =>
    match scoreCmp k a with
    | none => none
    | some .lt => some (k :: a :: as)
    | some .eq => some (a :: as)
    | some .gt => (scoresInsert k as).map (a :: ·)

def scoresRemove (k : F64 × String) : List (F64 × String) → Option (List (F64 × String))
  | [] => some []
  | a :: as =>
    match scoreCmp k a with
    | none => none
    | some .lt => some (a :: as)
    | some .eq => some as
    | some .gt => (scoresRemove k as).map (a :: ·)

def scoresRank (k : F64 × String) : List (F64 × String) → Option Nat
  | [] => some 0
  | a :: as =>
    match scoreCmp k a with
    | none => none
    | some .gt => (scoresRank k as).map (· + 1)
    | some _ => some 0

structure SortedSet where
  members : HashMap String F64 := ∅
  /-- The keys of the tree, in its order. -/
  scores : List (F64 × String) := []

def absIndex (len index : Int) : Int := if index < 0 then max (len + index) 0 else index

theorem absIndex_nonneg (len index : Int) : 0 ≤ absIndex len index := by
  unfold absIndex
  split <;> omega

namespace SortedSet

def new : SortedSet := {}

def add (s : SortedSet) (score : F64) (member : String) : Option (SortedSet × Int) := do
  let known := decide (member ∈ s.members)
  -- looks for the new score, not for the one the member has
  let scores ← if known then scoresRemove (score, member) s.scores else some s.scores
  let scores ← scoresInsert (score, member) scores
  some ({ members := HashMap.put member score s.members, scores }, if known then 0 else 1)

def rankByScore (s : SortedSet) (member : String) : Option (Option Int) :=
  match s.members.lookup member with
  | none => some none
  | some score => (scoresRank (score, member) s.scores).map fun rank => some (rank : Int)

def getMembers (s : SortedSet) (startIdx endIdx : Int) : List String :=
  let count : Int := s.scores.length
  let startIdx := absIndex count startIdx
  let endIdx := absIndex count endIdx
  if endIdx < startIdx then []
  else ((s.scores.drop startIdx.toNat).take (endIdx - startIdx + 1).toNat).map Prod.snd

def getScore (s : SortedSet) (member : String) : Option F64 := s.members.lookup member

def remove (s : SortedSet) (member : String) : Option (SortedSet × Int) :=
  match s.members.lookup member with
  | some score => do
    let scores ← scoresRemove (score, member) s.scores
    some ({ members := s.members.erase member, scores }, 1)
  | none => some (s, 0)

def len (s : SortedSet) : Nat := s.members.keys.length

end SortedSet

/-! ## Bitmaps -/

inductive BitValue where
  | zero
  | one
  deriving Repr, DecidableEq

def BitValue.tryFrom (value : Nat) : Except CustomError BitValue :=
  if value = 1 then .ok .one
  else if value = 0 then .ok .zero
  else .error (.parseError "Input must be either 0 or 1")

inductive BitUnit where
  | byte
  | bit
  deriving Repr, DecidableEq

structure BitRange where
  start : Int
  stop : Int
  unit : BitUnit
  deriving Repr, DecidableEq

namespace BitOps

def mask (offset : Nat) : UInt8 := UInt8.ofNat (2 ^ (7 - offset % 8))

def get (map : Bytes) (offset : Nat) : Except CustomError Nat :=
  match map[offset / 8]? with
  | none => .error .outOfIndex
  | some block => .ok (if block &&& mask offset ≠ 0 then 1 else 0)

def set (map : Bytes) (offset : Nat) (value : BitValue) : Except CustomError Bytes :=
  match map[offset / 8]? with
  | none => .error .outOfIndex
  | some block =>
    match value with
    | .one => .ok (map.set (offset / 8) (block ||| mask offset))
    | .zero => .ok (map.set (offset / 8) (block &&& (mask offset ^^^ 255)))

def countOnes (b : UInt8) : Nat := (List.range 8).countP fun i => b.toNat.testBit i

def bitCount (map : Bytes) : Option BitRange → Nat
  | none => (map.map countOnes).sum
  | some range =>
    let len : Int := match range.unit with
      | .byte => map.length
      | .bit => map.length * 8
    let start := absIndex len range.start
    let stop := min (absIndex len range.stop) (len - 1)
    if len = 0 ∨ stop < start then 0
    else match range.unit with
      | .byte => (((map.take (stop.toNat + 1)).drop start.toNat).map countOnes).sum
      | .bit => (List.range' start.toNat (stop.toNat + 1 - start.toNat)).countP fun i =>
          match get map i with
          | .ok bit => decide (0 < bit)
          | .error _ => false

def combine (op : UInt8 → UInt8 → UInt8) (map1 map2 : Bytes) : Bytes :=
  (List.range (max map1.length map2.length)).map fun i => op (map1.getD i 0) (map2.getD i 0)

@[simp] theorem length_combine (op : UInt8 → UInt8 → UInt8) (map1 map2 : Bytes) :
    (combine op map1 map2).length = max map1.length map2.length := by simp [combine]

def and : Bytes → Bytes → Bytes := combine (· &&& ·)

def or : Bytes → Bytes → Bytes := combine (· ||| ·)

end BitOps

def divCeil (a b : Nat) : Nat := (a + b - 1) / b

namespace Bitmap

def new (length : Nat) : Bytes := List.replicate (divCeil length 8) 0

/-- Room for `offset`; `offset + 1` is computed in `usize`. -/
def extend (map : Bytes) (offset : Nat) : Bytes :=
  map ++ List.replicate (divCeil ((1 + offset) % 2 ^ 64) 8 - map.length) 0

end Bitmap

/-! ## Items -/

/-- Milliseconds and sequence number of a stream entry. -/
abbrev StreamId := Nat ×ₗ Nat

inductive StoreValue where
  | str (s : String)
  | list (items : List String)
  | set (items : HashSet String)
  | zSet (set : SortedSet)
  | hash (fields : HashMap String String)
  | stream (entries : OrdMap StreamId (List String))
  | vectorSet (s : String)
  | bitmap (map : Bytes)
  | none

def StoreValue.getType : StoreValue → String
  | str _ => "string"
  | list _ => "list"
  | set _ => "set"
  | zSet _ => "zset"
  | hash _ => "hash"
  | stream _ => "stream"
  | vectorSet _ => "vectorset"
  | bitmap _ => "bitmap"
  | none => "none"

structure StoreItem where
  value : StoreValue
  expiredAt : Option Nat

abbrev Data := HashMap String StoreItem

end Redis
