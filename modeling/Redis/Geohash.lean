import Redis.Platform
import Redis.Resp

/-!
# Geohash

Positions are 52 bits of interleaved longitude and latitude, on coordinates of
any type with the operations of `FloatOps`.
-/

namespace Redis

namespace Geohash

variable {F : Type} (ops : FloatOps F)

def latMin : F := ops.lit (-8505112878) 8

def latMax : F := ops.lit 8505112878 8

def longMin : F := ops.lit (-180) 0

def longMax : F := ops.lit 180 0

def latRange : F := ops.sub (latMax ops) (latMin ops)

def longRange : F := ops.sub (longMax ops) (longMin ops)

def step : Nat := 26

def cells : F := ops.lit (2 ^ step) 0

def radius : F := ops.lit 6372797560856 6

def shl (x n : Nat) : Nat := (x <<< n) % 2 ^ 64

def spreadU32ToU64 (x : Nat) : Nat :=
  let x := (x ||| shl x 16) &&& 0x0000FFFF0000FFFF
  let x := (x ||| shl x 8) &&& 0x00FF00FF00FF00FF
  let x := (x ||| shl x 4) &&& 0x0F0F0F0F0F0F0F0F
  let x := (x ||| shl x 2) &&& 0x3333333333333333
  (x ||| shl x 1) &&& 0x5555555555555555

def compactU64ToU32 (x : Nat) : Nat :=
  let x := x &&& 0x5555555555555555
  let x := (x ||| (x >>> 1)) &&& 0x3333333333333333
  let x := (x ||| (x >>> 2)) &&& 0x0F0F0F0F0F0F0F0F
  let x := (x ||| (x >>> 4)) &&& 0x00FF00FF00FF00FF
  let x := (x ||| (x >>> 8)) &&& 0x0000FFFF0000FFFF
  (x ||| (x >>> 16)) &&& 0x00000000FFFFFFFF

def interleave (long lat : Nat) : Nat := spreadU32ToU64 lat ||| shl (spreadU32ToU64 long) 1

def deinterleave (score : Nat) : Nat × Nat := (compactU64ToU32 (score >>> 1), compactU64ToU32 score)

def encode (long lat : F) : Except CustomError Nat :=
  if !(ops.le (latMin ops) lat && ops.le lat (latMax ops)) ||
      !(ops.le (longMin ops) long && ops.le long (longMax ops)) then
    .error (.unprocessableError
      ("ERR invalid longitude,latitude pair " ++ ops.fixed6 long ++ "," ++ ops.fixed6 lat))
  else
    let normLong := ops.mul (ops.div (ops.sub long (longMin ops)) (longRange ops)) (cells ops)
    let normLat := ops.mul (ops.div (ops.sub lat (latMin ops)) (latRange ops)) (cells ops)
    .ok (interleave (ops.toU32 normLong) (ops.toU32 normLat))

/-- The edge of cell `norm` of a range that starts at `start`. -/
def edge (norm : Nat) (range start : F) : F := ops.add (ops.mul (ops.div (ops.lit norm 0) (cells ops)) range) start

def decode (score : Nat) : F × F :=
  let norm := deinterleave score
  let longMin' := edge ops norm.1 (longRange ops) (longMin ops)
  let longMax' := edge ops (norm.1 + 1) (longRange ops) (longMin ops)
  let latMin' := edge ops norm.2 (latRange ops) (latMin ops)
  let latMax' := edge ops (norm.2 + 1) (latRange ops) (latMin ops)
  let two := ops.lit 2 0
  (ops.div (ops.add longMin' longMax') two, ops.div (ops.add latMin' latMax') two)

def distance (locations : List (F × F)) : Except CustomError F :=
  match locations.reverse with
  | (long1, lat1) :: (long2, lat2) :: _ =>
    let long1 := ops.toRadians long1
    let lat1 := ops.toRadians lat1
    let long2 := ops.toRadians long2
    let lat2 := ops.toRadians lat2
    let two := ops.lit 2 0
    let v := ops.sin (ops.div (ops.sub long2 long1) two)
    if ops.eq v (ops.lit 0 0) then .ok (ops.mul (radius ops) (ops.abs (ops.sub lat2 lat1)))
    else
      let u := ops.sin (ops.div (ops.sub lat2 lat1) two)
      let a := ops.add (ops.mul u u) (ops.mul (ops.mul (ops.mul (ops.cos lat1) (ops.cos lat2)) v) v)
      .ok (ops.mul (ops.mul two (radius ops)) (ops.asin (ops.sqrt a)))
  | _ => .error (.internalError "No location provided for distance calculation")

end Geohash

end Redis
