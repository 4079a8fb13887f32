import Redis.Rdb

/-!
# The format of the database file

What a file is made of, and the bytes it is written in: lengths, strings and
integers with their encodings, and the sections and records between the header
and the end.
-/

namespace Redis

open Lib

/-- `to_le_bytes`, for so many bytes -/
def toLeBytes : Nat → Nat → Bytes
  | 0, _ => []
  | k + 1, n => UInt8.ofNat (n % 256) :: toLeBytes k (n / 256)

def toBeBytes (k n : Nat) : Bytes := (toLeBytes k n).reverse

def signedLeBytes (k : Nat) (i : Int) : Bytes := toLeBytes k (i % (2 ^ (8 * k) : Nat)).toNat

namespace Rdb

/-- A length in six bits, in 14, or in 32 bits behind a byte of which only the two upper
bits count. -/
inductive Length where
  | short (n : Fin (2 ^ 6))
  | medium (n : Fin (2 ^ 14))
  | long (pad : Fin (2 ^ 6)) (n : Fin (2 ^ 32))

def Length.value : Length → Nat
  | short n => n
  | medium n => n
  | long _ n => n

def Length.bytes : Length → Bytes
  | short n => [UInt8.ofNat n]
  | medium n => [UInt8.ofNat (0b01000000 + n / 256), UInt8.ofNat (n % 256)]
  | long pad n => UInt8.ofNat (0b10000000 + pad) :: toBeBytes 4 n

inductive Text where
  | raw (length : Length) (s : String) (h : (utf8 s).length = length.value)
  | int8 (i : Int) (h : -2 ^ 7 ≤ i ∧ i < 2 ^ 7)
  | int16 (i : Int) (h : -2 ^ 15 ≤ i ∧ i < 2 ^ 15)
  | int32 (i : Int) (h : -2 ^ 31 ≤ i ∧ i < 2 ^ 31)

def Text.string : Text → String
  | raw _ s _ => s
  | int8 i _ => toString i
  | int16 i _ => toString i
  | int32 i _ => toString i

def Text.bytes : Text → Bytes
  | raw length s _ => length.bytes ++ utf8 s
  | int8 i _ => 0xC0 :: signedLeBytes 1 i
  | int16 i _ => 0xC1 :: signedLeBytes 2 i
  | int32 i _ => 0xC2 :: signedLeBytes 4 i

/-- The encodings `parse_string` knows: a length of six bits, and an integer, but no
negative one of a single byte. -/
def Text.Known : Text → Prop
  | raw (.short _) _ _ => True
  | raw _ _ _ => False
  | int8 i _ => 0 ≤ i
  | int16 _ _ => True
  | int32 _ _ => True

structure ShortText where
  string : String
  short : (utf8 string).length < 2 ^ 6

def ShortText.text (t : ShortText) : Text := .raw (.short ⟨_, t.short⟩) t.string rfl

inductive Section where
  | aux (key : ShortText) (value : Text) (h : value.Known)
  | select (db : Length)
  | resize (size expires : Length)
  | plain (key value : ShortText)
  | expiring (ms : Fin (2 ^ 64)) (key value : ShortText)

def Section.bytes : Section → Bytes
  | aux key value _ => 0xFA :: (key.text.bytes ++ value.bytes)
  | select db => 0xFE :: db.bytes
  | resize size expires => 0xFB :: (size.bytes ++ expires.bytes)
  | plain key value => 0x00 :: (key.text.bytes ++ value.text.bytes)
  | expiring ms key value => 0xFC :: (toLeBytes 8 ms ++ 0x00 :: (key.text.bytes ++ value.text.bytes))

def Section.record : Section → Option Record
  | plain key value => some { key := key.string, value := value.string, expiry := .never }
  | expiring ms key value => some { key := key.string, value := value.string, expiry := .ms ms }
  | _ => none

structure File where
  magic : Bytes
  version : Bytes
  sections : List Section
  trailer : Bytes
  magicLength : magic.length = 5
  versionLength : version.length = 4

def File.bytes (f : File) : Bytes := f.magic ++ (f.version ++ (f.sections.flatMap Section.bytes ++ 0xFF :: f.trailer))

def File.records (f : File) : List Record := f.sections.filterMap Section.record

def lastRecord (rs : List Record) (key : String) : Option Record := (rs.filter fun r => r.key = key).getLast?

end Rdb

end Redis
