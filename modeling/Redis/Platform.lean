import Redis.Lib.F64

/-!
# What the platform provides

The operations of `f64` that are not comparisons, the conversion of numbers to
and from text, and SHA-256 come from outside the repository. A hash container
is read in an order of its own choosing: `IterOrder` is that choice.
-/

namespace Redis

open Lib

structure FloatOps (F : Type) where
  add : F → F → F
  sub : F → F → F
  mul : F → F → F
  div : F → F → F
  abs : F → F
  sqrt : F → F
  sin : F → F
  cos : F → F
  asin : F → F
  toRadians : F → F
  le : F → F → Bool
  eq : F → F → Bool
  /-- The nearest value to a decimal literal or to an integer: `m * 10 ^ -e`. -/
  lit : Int → Nat → F
  /-- `as u64`, which saturates -/
  toU64 : F → Nat
  toU32 : F → Nat
  /-- `{:.6}` -/
  fixed6 : F → String

structure Platform where
  f64 : FloatOps F64
  /-- `parse::<f64>` -/
  parseF64 : String → Option F64
  /-- `to_string` -/
  f64ToString : F64 → String
  /-- The hexadecimal SHA-256 digest of a text. -/
  sha256Hex : String → String

def parseFloatError (s : String) : String :=
  if s = "" then "cannot parse float from empty string" else "invalid float literal"

structure IterOrder where
  order : {α : Type} → List α → List α
  perm : ∀ {α : Type} (l : List α), (order l).Perm l

def Platform.blank : Platform where
  f64 :=
    { add := fun x _ => x, sub := fun x _ => x, mul := fun x _ => x, div := fun x _ => x, abs := id, sqrt := id,
      sin := id, cos := id, asin := id, toRadians := id, le := F64.le, eq := fun x y => F64.partialCmp x y == some .eq,
      lit := fun _ _ => ⟨0⟩, toU64 := fun _ => 0, toU32 := fun _ => 0, fixed6 := fun _ => "0.000000" }
  parseF64 := fun _ => none
  f64ToString := fun _ => "0"
  sha256Hex := id

def IterOrder.asIs : IterOrder := ⟨id, .refl⟩

end Redis
