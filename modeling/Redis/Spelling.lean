import Redis.InstantSound
import Redis.Words

/-!
# Commands spelled out

A command that can be asked for has a plain spelling: the words of a request,
numbers without signs and zeroes in front, options in one order, nothing behind.
Whatever the words are that decode to it, its plain spelling does too.
-/

namespace Redis

open Lib Lib.Reader

/-! ## Options -/

namespace CmdArg

def words : CmdArg → List String
  | .ex (some x) => ["EX", toString x]
  | .px (some x) => ["PX", toString x]
  | .listeningPort port => ["listening-port", toString port]
  | .capa s => ["capa", s]
  | .getAck s => ["GETACK", s]
  | .ack offset => ["ACK", toString offset]
  | .get key => ["GET", key]
  | .whoAmI => ["WHOAMI"]
  | .getUser username => ["GETUSER", username]
  | .setUser username [.addPassword password] => ["SETUSER", username, ">" ++ password]
  | .setUser username [.noPass] => ["SETUSER", username, "nopass"]
  | .and dest key1 key2 => ["AND", dest, key1, key2]
  | .or dest key1 key2 => ["OR", dest, key1, key2]
  | _ => []

def Fits : CmdArg → Prop
  | .ex (some x) | .px (some x) => x ≤ u64Max
  | .listeningPort port => port < 2 ^ 16
  | .ack offset => -2 ^ 63 ≤ offset ∧ offset < 2 ^ 63
  | arg => arg.words ≠ []

/-- With empty words up to the number of them. -/
def padded (n : Nat) (arg : CmdArg) : List String := arg.words ++ List.replicate (n - arg.words.length) ""

theorem set_words {arg : CmdArg} {word : String} {values : List String} (hf : arg.Fits)
    (hw : arg.words = word :: values)
    (more : List String) : set word (values ++ more) = .ok arg := by
  have hnat : ∀ {max n : Nat} {f : Nat → CmdArg}, n ≤ max →
      ((parseUint max (toString n)).mapError CustomError.ofIntError).map f = .ok (f n) := by
    intro max n f hn
    rw [parseUint_toString hn]
    rfl
  cases arg with
  | ex x | px x =>
    cases x with
    | none => cases hw
    | some x =>
      cases hw
      exact hnat hf
  | listeningPort port =>
    cases hw
    exact hnat (Nat.le_pred_of_lt hf)
  | ack offset =>
    cases hw
    have hparse : parseInt (2 ^ 63) (toString offset) = .ok offset :=
      parseInt_toString (by exact_mod_cast hf.1) (by exact_mod_cast hf.2)
    have hset : set "ACK" ([toString offset] ++ more) =
        ((parseInt (2 ^ 63) (toString offset)).mapError CustomError.ofIntError).map .ack := rfl
    rw [hset, hparse]
    rfl
  | setUser username rules =>
    cases rules with
    | nil => cases hw
    | cons rule rules =>
      cases rules with
      | cons _ _ => cases rule <;> cases hw
      | nil =>
        cases rule with
        | addPassword password =>
          cases hw
          have hrule : AclRules.set ([">" ++ password] ++ more) = .ok (.addPassword password) := by
            simp [AclRules.set]
          have hset : set "SETUSER" (username :: ([">" ++ password] ++ more)) =
              (AclRules.set ([">" ++ password] ++ more)).map fun rule => .setUser username [rule] := rfl
          exact hset.trans (by rw [hrule]; rfl)
        | noPass =>
          cases hw
          rfl
  | capa | getAck | get | whoAmI | getUser | and | or =>
    cases hw
    rfl
  | fromLonLat | byRadius => cases hw

theorem Fits.words_ne_nil {arg : CmdArg} (hf : arg.Fits) : arg.words ≠ [] := by
  cases arg with
  | ex x | px x =>
    cases x with
    | none => exact hf
    | some x => exact List.cons_ne_nil _ _
  | listeningPort | ack => exact List.cons_ne_nil _ _
  | _ => exact hf

theorem padded_set {arg : CmdArg} {n : Nat} (hf : arg.Fits) (hn : arg.words.length ≤ n) :
    ∃ word values, arg.padded n = word :: values ∧ values.length + 1 = n ∧ set word values = .ok arg ∧
      arg.words.head? = some word := by
  obtain ⟨word, values, hw⟩ := List.exists_cons_of_ne_nil hf.words_ne_nil
  refine ⟨word, values ++ List.replicate (n - arg.words.length) "", ?_, ?_, set_words hf hw _, ?_⟩
  · rw [padded, hw, List.cons_append]
  · rw [hw, List.length_cons] at hn
    rw [List.length_append, List.length_replicate, hw, List.length_cons]
    omega
  · rw [hw, List.head?_cons]

theorem length_words_le (arg : CmdArg) : arg.words.length ≤ 4 := by
  unfold words
  split <;> simp

def Made (word : String) (values : List String) (arg : CmdArg) : Prop :=
  arg.Fits ∧ ∃ own, arg.words = word :: own ∧ own.length ≤ values.length

theorem made_first {word : String} {values : List String} {f : String → CmdArg} {arg : CmdArg}
    (h : (first values).map f = .ok arg) (hw : ∀ s, (f s).words = [word, s]) (hf : ∀ s, (f s).Fits) :
    Made word values arg := by
  obtain ⟨s, hs, rfl⟩ := Cmd.exists_of_map h
  cases values with
  | nil => cases hs
  | cons v values => exact ⟨hf s, [s], hw s, by simp⟩

theorem made_uint {word : String} {values : List String} {max : Nat} {f : Nat → CmdArg} {arg : CmdArg}
    (h : (firstUint max values).map f = .ok arg) (hw : ∀ n, (f n).words = [word, toString n])
    (hf : ∀ n, n ≤ max → (f n).Fits) : Made word values arg := by
  obtain ⟨n, hn, rfl⟩ := Cmd.exists_of_map h
  have hle : n ≤ max := Cmd.firstUint_le hn
  cases values with
  | nil => cases hn
  | cons v values => exact ⟨hf n hle, [toString n], hw n, by simp⟩

theorem set_made {word : String} {values : List String} {arg : CmdArg} (h : set word values = .ok arg) :
    Made word values arg := by
  unfold set at h
  split at h
  · exact made_uint h (fun _ => rfl) fun _ hn => hn
  · exact made_uint h (fun _ => rfl) fun _ hn => hn
  · exact made_uint h (fun _ => rfl) fun _ hn => Nat.lt_of_le_pred (by decide) hn
  · exact made_first h (fun _ => rfl) fun _ => List.cons_ne_nil _ _
  · exact made_first h (fun _ => rfl) fun _ => List.cons_ne_nil _ _
  · cases values with
    | nil => cases h
    | cons v values =>
      have hack : ((parseInt (2 ^ 63) v).mapError CustomError.ofIntError).map CmdArg.ack = .ok arg := h
      obtain ⟨offset, hparse, rfl⟩ := Cmd.exists_of_map hack
      cases hi : parseInt (2 ^ 63) v with
      | error e =>
        rw [hi] at hparse
        cases hparse
      | ok i =>
        rw [hi] at hparse
        cases hparse
        have hbounds := parseInt_bounds (by decide) hi
        exact ⟨⟨by exact_mod_cast hbounds.1, by exact_mod_cast hbounds.2⟩, [toString offset], rfl, by simp⟩
  · exact made_first h (fun _ => rfl) fun _ => List.cons_ne_nil _ _
  · cases h
    exact ⟨List.cons_ne_nil _ _, [], rfl, by simp⟩
  · exact made_first h (fun _ => rfl) fun _ => List.cons_ne_nil _ _
  · split at h
    · cases h
    · rename_i username values
      obtain ⟨rule, hrule, rfl⟩ := Cmd.exists_of_map h
      have hlength : 1 ≤ values.length := by
        cases values with
        | nil => cases hrule
        | cons => simp
      cases rule with
      | addPassword password => exact ⟨List.cons_ne_nil _ _, [username, ">" ++ password], rfl, by simpa using hlength⟩
      | noPass => exact ⟨List.cons_ne_nil _ _, [username, "nopass"], rfl, by simpa using hlength⟩
  · split at h
    · cases h
    · cases h
    · cases h
    · cases h
      exact ⟨List.cons_ne_nil _ _, _, rfl, by simp⟩
  · split at h
    · cases h
    · cases h
    · cases h
    · cases h
      exact ⟨List.cons_ne_nil _ _, _, rfl, by simp⟩
  · cases h

end CmdArg

/-! ## Requests -/

namespace Cmd

def idText (id : Nat × Nat) : String := toString id.1 ++ "-" ++ toString id.2

def idTextXadd : Option Nat × Option Nat → String
  | (some ts, some seq) => idText (ts, seq)
  | (some ts, none) => toString ts ++ "-" ++ "*"
  | (none, _) => "*"

def IdFits (id : Nat × Nat) : Prop := id.1 ≤ u64Max ∧ id.2 ≤ u64Max

def IdFitsXadd : Option Nat × Option Nat → Prop
  | (some ts, some seq) => IdFits (ts, seq)
  | (some ts, none) => ts ≤ u64Max
  | (none, seq) => seq = none

def FitsI64 (i : Int) : Prop := -2 ^ 63 ≤ i ∧ i < 2 ^ 63

def numberWords (word : String) : Option Nat → List String
  | none => []
  | some n => [word, toString n]

def unitWord : BitUnit → String
  | .byte => "BYTE"
  | .bit => "BIT"

/-- The words ask for the command. A number of an `f64` can be any text that is read as it. -/
def Spelled (P : Platform) : Cmd → List String → Prop
  | .ping, ws => ws = ["PING"]
  | .echo s, ws => ws = ["ECHO", s]
  | .set key value none, ws => ws = ["SET", key, value]
  | .set key value (some arg), ws => arg.Fits ∧ arg.words.length ≤ 2 ∧ ws = "SET" :: key :: value :: arg.padded 2
  | .get key, ws => ws = ["GET", key]
  | .rpush key value, ws => ws = "RPUSH" :: key :: value
  | .lrange key start stop, ws =>
    FitsI64 start ∧ FitsI64 stop ∧ ws = ["LRANGE", key, toString start, toString stop]
  | .lpush key value, ws => ws = "LPUSH" :: key :: value
  | .llen key, ws => ws = ["LLEN", key]
  | .lpop key none, ws => ws = ["LPOP", key]
  | .lpop key (some length), ws => length ≤ u64Max ∧ ws = ["LPOP", key, toString length]
  | .blpop key timeoutMs, ws => ∃ text seconds, P.parseF64 text = some seconds ∧ ws = ["BLPOP", key, text] ∧
      (P.f64.mul seconds (P.f64.lit 1000 0)).lt ⟨0⟩ = false ∧
      timeoutMs = if F64.partialCmp (P.f64.mul seconds (P.f64.lit 1000 0)) ⟨0⟩ = some .eq then none
        else some (P.f64.toU64 (P.f64.mul seconds (P.f64.lit 1000 0)))
  | .type key, ws => ws = ["TYPE", key]
  | .xadd key id value, ws => IdFitsXadd id ∧ ws = "XADD" :: key :: idTextXadd id :: value
  | .xrange key start stop, ws => IdFits start ∧ IdFits stop ∧ ws = ["XRANGE", key, idText start, idText stop]
  | .xread count blockMs stream, ws => (∀ n, count = some n → n ≤ u64Max) ∧ (∀ n, blockMs = some n → n ≤ u64Max) ∧
      (∀ s ∈ stream, IdFits s.2) ∧
      ws = "XREAD" :: (numberWords "COUNT" count ++ numberWords "BLOCK" blockMs ++
        "STREAMS" :: (stream.map (·.1) ++ stream.map fun s => idText s.2))
  | .incr key, ws => ws = ["INCR", key]
  | .multi, ws => ws = ["MULTI"]
  | .exec, ws => ws = ["EXEC"]
  | .discard, ws => ws = ["DISCARD"]
  | .watch names, ws => names ≠ [] ∧ ws = "WATCH" :: names
  | .unwatch, ws => ws = ["UNWATCH"]
  | .info key, ws => ws = ["INFO", key]
  | .replconf arg, ws => arg.Fits ∧ arg.words.length ≤ 2 ∧ ws = "REPLCONF" :: arg.padded 2
  | .psync id offset, ws => FitsI64 offset ∧ ws = ["PSYNC", id, toString offset]
  | .wait count none, ws => count ≤ u64Max ∧ ws = ["WAIT", toString count, toString 0]
  | .wait count (some timeoutMs), ws =>
    count ≤ u64Max ∧ 0 < timeoutMs ∧ timeoutMs ≤ u64Max ∧ ws = ["WAIT", toString count, toString timeoutMs]
  | .config arg, ws => arg.Fits ∧ arg.words.length ≤ 2 ∧ ws = "CONFIG" :: arg.padded 2
  | .keys arg, ws => ws = ["KEYS", arg]
  | .subscribe names, ws => ws = "SUBSCRIBE" :: names
  | .unsubscribe key, ws => ws = ["UNSUBSCRIBE", key]
  | .psubscribe, ws => ws = ["PSUBSCRIBE"]
  | .punsubscribe, ws => ws = ["PUNSUBSCRIBE"]
  | .quit, ws => ws = ["QUIT"]
  | .publish key message, ws => ws = ["PUBLISH", key, message]
  | .zadd key score member, ws => ∃ text, P.parseF64 text = some score ∧ ws = ["ZADD", key, text, member]
  | .zrank key member, ws => ws = ["ZRANK", key, member]
  | .zrange key start stop, ws => FitsI64 start ∧ FitsI64 stop ∧ ws = ["ZRANGE", key, toString start, toString stop]
  | .zcard key, ws => ws = ["ZCARD", key]
  | .zscore key member, ws => ws = ["ZSCORE", key, member]
  | .zrem key member, ws => ws = ["ZREM", key, member]
  | .geoadd key long lat member, ws => ∃ long' lat' x y, P.parseF64 long' = some x ∧ P.parseF64 lat' = some y ∧
      long = P.f64ToString x ∧ lat = P.f64ToString y ∧ ws = ["GEOADD", key, long', lat', member]
  | .geopos key members, ws => ws = "GEOPOS" :: key :: members
  | .geodist key members, ws => members.length = 2 ∧ ws = "GEODIST" :: key :: members
  | .geosearch key (.fromLonLat long lat) (.byRadius radius), ws => ∃ long' lat' radius',
      P.parseF64 long' = some long ∧ P.parseF64 lat' = some lat ∧ P.parseF64 radius' = some radius ∧
      ws = ["GEOSEARCH", key, "FROMLONLAT", long', lat', "BYRADIUS", radius', "m"]
  | .acl opt, ws => opt.Fits ∧ ws = "ACL" :: opt.words
  | .auth username password, ws => ws = ["AUTH", username, password]
  | .setbit key offset bit, ws => offset ≤ u64Max ∧ bit ≤ 255 ∧ ws = ["SETBIT", key, toString offset, toString bit]
  | .getbit key offset, ws => offset ≤ u64Max ∧ ws = ["GETBIT", key, toString offset]
  | .strlen key, ws => ws = ["STRLEN", key]
  | .bitcount key none, ws => ws = ["BITCOUNT", key]
  | .bitcount key (some range), ws => FitsI64 range.start ∧ FitsI64 range.stop ∧
      ws = ["BITCOUNT", key, toString range.start, toString range.stop, unitWord range.unit]
  | .bitop arg, ws => arg.Fits ∧ (∀ word ∈ arg.words.head?, asciiUpper word = word) ∧ ws = "BITOP" :: arg.padded 4
  | _, _ => False

/-! ## Arguments -/

section
variable {P : Platform} {s : String}

theorem takes_lift {α : Type} {r : Except CustomError α} {a : α} (h : r = .ok a) : Takes (Args.lift r) [] a := by
  intro rest
  rw [h]
  rfl

theorem takes_next (t : RespType) : Takes Args.next [t] (some t) := fun _ => rfl

theorem reads_next : Reads Args.next [] none := rfl

theorem takes_text (e : CustomError) (s : String) : Takes (Args.text e (.bulk s)) [] s := takes_lift rfl

theorem takes_respArg (msg s : String) : Takes (Args.respArg msg) [.bulk s] s := (takes_next _).map (takes_text _ s)

theorem takes_uint {n max : Nat} (h : n ≤ max) : Takes (Args.uint max (toString n)) [] n := by
  apply takes_lift
  rw [parseUint_toString h]
  rfl

theorem takes_int {i : Int} (h : FitsI64 i) : Takes (Args.int (toString i)) [] i := by
  have hparse : parseInt (2 ^ 63) (toString i) = .ok i :=
    parseInt_toString (by exact_mod_cast h.1) (by exact_mod_cast h.2)
  apply takes_lift
  rw [hparse]
  rfl

theorem takes_float {x : F64} (h : P.parseF64 s = some x) : Takes (Args.float P s) [] x := by
  apply takes_lift
  rw [h]
  rfl

theorem reads_drain (ts : List RespType) : Reads Args.drain ts ts := rfl

theorem reads_texts (e : CustomError) (ws : List String) : Reads (Args.texts e) (ws.map .bulk) ws := by
  have hall : List.Forall₂ (fun t w => Takes (Args.text e t) [] w) (ws.map .bulk) ws := by
    induction ws with
    | nil => exact .nil
    | cons w ws ih => exact .cons (takes_text e w) ih
  have hnone : (ws.map RespType.bulk).mapM (Args.text e) [] = some (.ok (ws, [])) := takes_mapM hall []
  exact (reads_drain _).bind hnone

theorem textsUntilError_bulks (ws : List String) : Args.textsUntilError (ws.map .bulk) = ws := by
  unfold Args.textsUntilError
  induction ws with
  | nil => rfl
  | cons w ws ih => exact congrArg (w :: ·) ih

/-! ## Stream ids -/

theorem splitOnChar_dash (n : Nat) {t : String} (ht : '-' ∉ t.toList) :
    splitOnChar '-' (toString n ++ "-" ++ t) = [toString n, t] := by
  have hdash : "-" = String.singleton '-' := by decide
  rw [hdash, splitOnChar_append, splitOnChar_of_not_mem (not_mem_toString (by decide) n), splitOnChar_of_not_mem ht]
  rfl

theorem splitOnChar_idText (id : Nat × Nat) : splitOnChar '-' (idText id) = [toString id.1, toString id.2] :=
  splitOnChar_dash id.1 (not_mem_toString (by decide) id.2)

/-- An id is none of the signs that stand for one. -/
theorem dashed_ne {n : Nat} {t sign : String} (hsign : sign.toList.head?.any Char.isDigit = false) :
    toString n ++ "-" ++ t ≠ sign := by
  intro heq
  obtain ⟨c, cs, hfront, hdigit⟩ := exists_toString n
  rw [← heq, String.toList_append, String.toList_append, hfront] at hsign
  simp [hdigit] at hsign

theorem idText_ne {id : Nat × Nat} {sign : String} (hsign : sign.toList.head?.any Char.isDigit = false) :
    idText id ≠ sign := dashed_ne hsign

theorem takes_parseStreamId {id : Nat × Nat} (h : IdFits id) (stop : Bool) :
    Takes (parseStreamId (idText id) stop) [] id := by
  unfold parseStreamId
  rw [splitOnChar_idText]
  exact (takes_uint h.1).map ((takes_uint h.2).map (takes_pure _))

theorem takes_parseStreamIdXrange {id : Nat × Nat} (h : IdFits id) (stop : Bool) :
    Takes (parseStreamIdXrange (idText id) stop) [] id := by
  unfold parseStreamIdXrange
  rw [if_neg (idText_ne (by decide)), if_neg (idText_ne (by decide))]
  exact takes_parseStreamId h stop

theorem takes_parseStreamIdXread {id : Nat × Nat} (h : IdFits id) : Takes (parseStreamIdXread (idText id)) [] id := by
  unfold parseStreamIdXread
  rw [if_neg (idText_ne (by decide))]
  exact takes_parseStreamId h false

theorem takes_parseStreamIdXadd {id : Option Nat × Option Nat} (h : IdFitsXadd id) :
    Takes (parseStreamIdXadd (idTextXadd id)) [] id := by
  obtain ⟨ts, seq⟩ := id
  unfold parseStreamIdXadd
  cases ts with
  | none =>
    have hseq : seq = none := h
    rw [hseq]
    exact takes_pure _
  | some ts =>
    cases seq with
    | none =>
      have hne : idTextXadd (some ts, none) ≠ "*" := dashed_ne (by decide)
      rw [if_neg hne, idTextXadd, splitOnChar_dash ts (by decide)]
      exact (takes_uint h).map (takes_pure _)
    | some seq =>
      have hne : idTextXadd (some ts, some seq) ≠ "*" := dashed_ne (by decide)
      have hstar : toString seq ≠ "*" := by
        intro heq
        obtain ⟨c, cs, hfront, hdigit⟩ := exists_toString seq
        rw [heq] at hfront
        cases hfront
        cases hdigit
      rw [if_neg hne, idTextXadd, splitOnChar_idText]
      simp only [if_neg hstar]
      exact (takes_uint h.1).map ((takes_uint h.2).map (takes_pure _))

/-! ## The options of XREAD -/

theorem takes_streams {count block : Option Nat} {fuel : Nat} (hfuel : 0 < fuel) :
    Takes (xreadOptions count block fuel) [.bulk "STREAMS"] (count, block) := by
  obtain ⟨fuel, rfl⟩ := Nat.exists_eq_succ_of_ne_zero (Nat.pos_iff_ne_zero.mp hfuel)
  have hupper : asciiUpper "STREAMS" = "STREAMS" := by decide
  refine (takes_respArg _ _).map ?_
  rw [hupper, if_neg (by decide), if_neg (by decide), if_pos rfl]
  exact takes_pure _

theorem takes_block {count block : Option Nat} {fuel : Nat} (hfits : ∀ n, block = some n → n ≤ u64Max)
    (hfuel : (numberWords "BLOCK" block).length < fuel) :
    Takes (xreadOptions count none fuel) ((numberWords "BLOCK" block ++ ["STREAMS"]).map .bulk) (count, block) := by
  cases block with
  | none => exact takes_streams (Nat.lt_of_le_of_lt (Nat.zero_le _) hfuel)
  | some n =>
    have hlength : 2 < fuel := hfuel
    obtain ⟨fuel, rfl⟩ : ∃ k, fuel = k + 1 := ⟨fuel - 1, by omega⟩
    have hupper : asciiUpper "BLOCK" = "BLOCK" := by decide
    refine Takes.cons (takes_respArg _ _) ?_
    rw [hupper, if_neg (by decide), if_pos rfl, if_neg (by simp)]
    refine Takes.cons (takes_respArg _ _) ?_
    have hstreams : Takes (xreadOptions count (some n) fuel) [.bulk "STREAMS"] (count, some n) :=
      takes_streams (by omega)
    exact Takes.bind (takes_uint (hfits n rfl)) hstreams

theorem takes_options {count block : Option Nat} {fuel : Nat} (hcount : ∀ n, count = some n → n ≤ u64Max)
    (hblock : ∀ n, block = some n → n ≤ u64Max)
    (hfuel : (numberWords "COUNT" count).length + (numberWords "BLOCK" block).length < fuel) :
    Takes (xreadOptions none none fuel)
      ((numberWords "COUNT" count ++ (numberWords "BLOCK" block ++ ["STREAMS"])).map .bulk) (count, block) := by
  cases count with
  | none => exact takes_block hblock (by simpa [numberWords] using hfuel)
  | some n =>
    have hlength : 2 + (numberWords "BLOCK" block).length < fuel := hfuel
    obtain ⟨fuel, rfl⟩ : ∃ k, fuel = k + 1 := ⟨fuel - 1, by omega⟩
    have hupper : asciiUpper "COUNT" = "COUNT" := by decide
    refine Takes.cons (takes_respArg _ _) ?_
    rw [hupper, if_pos rfl, if_neg (by simp)]
    refine Takes.cons (takes_respArg _ _) ?_
    exact Takes.bind (takes_uint (hcount n rfl)) (takes_block hblock (by omega))

theorem reads_remaining {α : Type} {f : Nat → Args α} {values : List RespType} {a : α}
    (h : Reads (f values.length) values a) : Reads (Args.remaining >>= f) values a := bind_eq_ok.mpr ⟨_, values, rfl, h⟩

theorem reads_buildXread {count block : Option Nat} {stream : List (String × Nat × Nat)}
    (hcount : ∀ n, count = some n → n ≤ u64Max) (hblock : ∀ n, block = some n → n ≤ u64Max)
    (hids : ∀ s ∈ stream, IdFits s.2) :
    Reads buildXread ((numberWords "COUNT" count ++ numberWords "BLOCK" block ++
      "STREAMS" :: (stream.map (·.1) ++ stream.map fun s => idText s.2)).map .bulk) (.xread count block stream) := by
  have hkeys : Takes (((stream.map (·.1)).map RespType.bulk).mapM (Args.text (.missingArgument "Key not provided"))) []
      (stream.map (·.1)) := by
    apply takes_mapM
    induction stream with
    | nil => exact .nil
    | cons s stream ih => exact .cons (takes_text _ _) (ih fun s hs => hids s (List.mem_cons_of_mem _ hs))
  have hvalues : Takes (((stream.map fun s => idText s.2).map RespType.bulk).mapM fun t => do
      parseStreamIdXread (← Args.text (.missingArgument "Value not provided") t)) [] (stream.map (·.2)) := by
    clear hkeys
    apply takes_mapM
    induction stream with
    | nil => exact .nil
    | cons s stream ih =>
      have hid : IdFits s.2 := hids s (List.mem_cons_self ..)
      exact .cons ((takes_text _ _).map (takes_parseStreamIdXread hid))
        (ih fun s hs => hids s (List.mem_cons_of_mem _ hs))
  have hwords : numberWords "COUNT" count ++ numberWords "BLOCK" block ++
      "STREAMS" :: (stream.map (·.1) ++ stream.map fun s => idText s.2) =
        (numberWords "COUNT" count ++ (numberWords "BLOCK" block ++ ["STREAMS"])) ++
          (stream.map (·.1) ++ stream.map fun s => idText s.2) := by simp
  rw [hwords, List.map_append]
  apply reads_remaining
  refine Reads.append (takes_options hcount hblock (by simp; omega)) ?_
  refine (reads_drain _).bind ?_
  have hzip : (stream.map (·.1)).zip (stream.map (·.2)) = stream := by
    rw [List.zip_map', List.map_id'']
    exact fun _ => rfl
  have hlength : ((stream.map (·.1) ++ stream.map fun s => idText s.2).map RespType.bulk).length =
      2 * stream.length := by
    simp
    omega
  have hhalf : 2 * stream.length / 2 = ((stream.map (·.1)).map RespType.bulk).length := by simp
  simp only [hlength]
  rw [if_neg (by omega), hhalf, List.map_append, List.take_left, List.drop_left]
  refine Reads.skip hkeys (Reads.skip hvalues ?_)
  rw [hzip]
  exact reads_pure _

/-! ## The builders -/

theorem commandWords : (builders P).map Prod.fst = (builders .blank).map Prod.fst := by
  simp only [builders, List.map_cons, List.map_nil]

theorem mem_commandWords {e : String × Args Cmd} (he : e ∈ builders P) : asciiUpper e.1 = e.1 ∧
    e.1.utf8ByteSize ≠ 0 := by
  have hall : ∀ word ∈ (builders .blank).map Prod.fst, asciiUpper word = word ∧ word.utf8ByteSize ≠ 0 := by decide
  rw [← commandWords (P := P)] at hall
  exact hall _ (List.mem_map_of_mem he)

theorem lookup_builders {e : String × Args Cmd} (he : e ∈ builders P) :
    (builders P).lookup (asciiUpper e.1) = some e.2 := by
  have hnodup : ((builders .blank).map Prod.fst).Nodup := by decide
  rw [← commandWords (P := P)] at hnodup
  rw [(mem_commandWords he).1, List.lookup_eq_some_iff]
  obtain ⟨pre, post, hsplit⟩ := List.append_of_mem he
  refine ⟨pre, post, hsplit, fun p hp => ?_⟩
  rw [hsplit, List.map_append, List.map_cons] at hnodup
  have hne : p.1 ≠ e.1 := by
    intro heq
    have hnot := List.disjoint_of_nodup_append hnodup (List.mem_map_of_mem hp)
    rw [heq] at hnot
    exact hnot (List.mem_cons_self ..)
  simpa using Ne.symm hne

theorem fromResp_reads {word : String} {args : List String} {b : Args Cmd} {cmd : Cmd} (hb : (word, b) ∈ builders P)
    (hr : Reads b (args.map .bulk) cmd) : fromResp P (.arrayOf ((word :: args).map .bulk)) = .ok (.ok cmd) := by
  have hread : b (args.map .bulk) = some (.ok (cmd, [])) := hr
  have hrun : runBuilder b (args.map .bulk) = .ok (.ok cmd) := by
    rw [runBuilder, hread]
    rfl
  exact (fromResp_bulks (mem_commandWords hb).2 (lookup_builders hb)).trans hrun

/-- A word of an option, and one value. -/
theorem reads_option {arg : CmdArg} {msg msg' : String} {f : CmdArg → Cmd} (hf : arg.Fits) (hw : arg.words.length ≤ 2) :
    Reads (do
      let word ← Args.respArg msg
      let value ← Args.respArg msg'
      return f (← Args.lift (CmdArg.set word [value])) : Args Cmd) ((arg.padded 2).map .bulk) (f arg) := by
  obtain ⟨word, values, hpadded, hlength, hset, _⟩ := CmdArg.padded_set hf hw
  obtain ⟨value, rfl⟩ := List.length_eq_one_iff.mp (Nat.succ.inj hlength)
  rw [hpadded]
  exact .cons (takes_respArg _ _) (.cons (takes_respArg _ _) (.skip (takes_lift hset) (reads_pure _)))

theorem reads_buildBitop {arg : CmdArg} (hf : arg.Fits) (hupper : ∀ word ∈ arg.words.head?, asciiUpper word = word) :
    Reads buildBitop ((arg.padded 4).map .bulk) (.bitop arg) := by
  obtain ⟨word, values, hpadded, hlength, hset, hhead⟩ := CmdArg.padded_set hf arg.length_words_le
  obtain ⟨dest, key1, key2, rfl⟩ := List.length_eq_three.mp (Nat.succ.inj hlength)
  have hsame : CmdArg.set (asciiUpper word) [dest, key1, key2] = .ok arg := by
    rw [hupper word hhead]
    exact hset
  rw [hpadded]
  exact .cons (takes_respArg _ _) (.cons (takes_respArg _ _) (.cons (takes_respArg _ _) (.cons (takes_respArg _ _)
    (.skip (takes_lift hsame) (reads_pure _)))))

theorem reads_buildBitcount {key : String} {range : BitRange} (hstart : FitsI64 range.start)
    (hstop : FitsI64 range.stop) :
    Reads buildBitcount ([key, toString range.start, toString range.stop, unitWord range.unit].map .bulk)
      (.bitcount key (some range)) := by
  have hunit : Takes (bitUnit (unitWord range.unit)) [] range.unit := by
    have hbyte : asciiUpper "BYTE" = "BYTE" := by decide
    have hbit : asciiUpper "BIT" = "BIT" := by decide
    unfold bitUnit
    cases range.unit with
    | byte =>
      rw [unitWord, hbyte, if_pos rfl]
      exact takes_pure _
    | bit =>
      rw [unitWord, hbit, if_neg (by decide), if_pos rfl]
      exact takes_pure _
  refine Reads.cons (takes_respArg _ _) (reads_remaining ?_)
  rw [if_neg (by simp)]
  refine Reads.cons (takes_respArg _ _)
    (.skip (takes_int hstart) (.cons (takes_respArg _ _) (.skip (takes_int hstop) ?_)))
  refine Reads.cons (takes_next _) (.skip (takes_text _ _) (.skip hunit (reads_remaining ?_)))
  exact reads_pure _

theorem one_word {msg s : String} {f : String → Cmd} :
    Reads (do return f (← Args.respArg msg) : Args Cmd) [.bulk s] (f s) :=
  .cons (takes_respArg _ _) (reads_pure _)

theorem two_words {msg msg' s t : String} {f : String → String → Cmd} :
    Reads (do
      let first ← Args.respArg msg
      return f first (← Args.respArg msg') : Args Cmd) [.bulk s, .bulk t] (f s t) :=
  .cons (takes_respArg _ _) one_word

theorem word_rest {msg s : String} {e : CustomError} {ws : List String} {f : String → List String → Cmd} :
    Reads (do
      let first ← Args.respArg msg
      return f first (← Args.texts e) : Args Cmd) (.bulk s :: ws.map .bulk) (f s ws) :=
  .cons (takes_respArg _ _) ((reads_texts _ _).bind (reads_pure _))

theorem two_ints {msg msg' msg'' key : String} {start stop : Int} {f : String → Int → Int → Cmd}
    (hstart : FitsI64 start)
    (hstop : FitsI64 stop) :
    Reads (do
      let key ← Args.respArg msg
      let start ← Args.int (← Args.respArg msg')
      return f key start (← Args.int (← Args.respArg msg'')) : Args Cmd)
      [.bulk key, .bulk (toString start), .bulk (toString stop)] (f key start stop) :=
  .cons (takes_respArg _ _) (.cons (takes_respArg _ _) (.skip (takes_int hstart) (.cons (takes_respArg _ _)
    (.skip (takes_int hstop) (reads_pure _)))))

/-- The words of a command are read as the command. -/
theorem Spelled.decodes {cmd : Cmd} {ws : List String} (h : cmd.Spelled P ws) :
    fromResp P (.arrayOf (ws.map .bulk)) = .ok (.ok cmd) := by
  cases cmd
  case ping | multi | exec | discard | unwatch | psubscribe | punsubscribe | quit =>
    obtain rfl := h
    exact fromResp_reads (by simp [builders]) (reads_pure _)
  case echo | get | llen | type | incr | info | keys | unsubscribe | zcard | strlen =>
    obtain rfl := h
    exact fromResp_reads (by simp [builders]; rfl) one_word
  case publish | zrank | zscore | zrem | auth =>
    obtain rfl := h
    exact fromResp_reads (by simp [builders]; rfl) two_words
  case rpush | lpush =>
    obtain rfl := h
    exact fromResp_reads (by simp [builders]; rfl) word_rest
  case lrange | zrange =>
    obtain ⟨hstart, hstop, rfl⟩ := h
    exact fromResp_reads (by simp [builders]; rfl) (two_ints hstart hstop)
  case replconf | config =>
    obtain ⟨hf, hw, rfl⟩ := h
    exact fromResp_reads (by simp [builders]; rfl) (reads_option hf hw)
  case set key value opt =>
    cases opt with
    | none =>
      obtain rfl := h
      exact fromResp_reads (b := buildSet) (by simp [builders])
        (.cons (takes_respArg _ _) (.cons (takes_respArg _ _) (reads_next.bind (reads_pure _))))
    | some arg =>
      obtain ⟨hf, hw, rfl⟩ := h
      obtain ⟨word, values, hpadded, hlength, hset, _⟩ := CmdArg.padded_set hf hw
      obtain ⟨v, rfl⟩ := List.length_eq_one_iff.mp (Nat.succ.inj hlength)
      rw [hpadded]
      exact fromResp_reads (b := buildSet) (by simp [builders])
        (.cons (takes_respArg _ _) (.cons (takes_respArg _ _) (.cons (takes_next _) (.skip (takes_text _ _)
          (.cons (takes_respArg _ _) (.skip (takes_lift hset) (reads_pure _)))))))
  case lpop key length =>
    cases length with
    | none =>
      obtain rfl := h
      exact fromResp_reads (b := buildLpop) (by simp [builders])
        (.cons (takes_respArg _ _) (reads_next.bind (reads_pure _)))
    | some length =>
      obtain ⟨hl, rfl⟩ := h
      exact fromResp_reads (b := buildLpop) (by simp [builders])
        (.cons (takes_respArg _ _)
          (.cons (takes_next _) (.skip (takes_text _ _) (.skip (takes_uint hl) (reads_pure _)))))
  case blpop key timeoutMs =>
    obtain ⟨text, seconds, hparse, rfl, hpositive, rfl⟩ := h
    refine fromResp_reads (b := buildBlpop P) (by simp [builders]) (.cons (takes_respArg _ _) (.cons (takes_respArg _ _)
      (.skip (takes_float hparse) ?_)))
    simp only [hpositive, Bool.false_eq_true, if_false]
    split <;> exact reads_pure _
  case xadd key id value =>
    obtain ⟨hid, rfl⟩ := h
    exact fromResp_reads (b := buildXadd) (by simp [builders]) (.cons (takes_respArg _ _) (.cons (takes_respArg _ _)
      (.skip (takes_parseStreamIdXadd hid) ((reads_texts _ _).bind (reads_pure _)))))
  case xrange key start stop =>
    obtain ⟨hstart, hstop, rfl⟩ := h
    exact fromResp_reads (b := buildXrange) (by simp [builders]) (.cons (takes_respArg _ _) (.cons (takes_respArg _ _)
      (.cons (takes_respArg _ _) (.skip (takes_parseStreamIdXrange hstart _) (.skip (takes_parseStreamIdXrange hstop _)
        (reads_pure _))))))
  case xread count block stream =>
    obtain ⟨hcount, hblock, hids, rfl⟩ := h
    exact fromResp_reads (b := buildXread) (by simp [builders]) (reads_buildXread hcount hblock hids)
  case watch names =>
    obtain ⟨hne, rfl⟩ := h
    refine fromResp_reads (b := buildWatch) (by simp [builders]) ((reads_drain _).bind ?_)
    rw [textsUntilError_bulks, if_neg (by simpa using hne)]
    exact reads_pure _
  case subscribe names =>
    obtain rfl := h
    refine fromResp_reads (b := buildSubscribe) (by simp [builders]) ((reads_drain _).bind ?_)
    rw [textsUntilError_bulks]
    exact reads_pure _
  case geopos key members =>
    obtain rfl := h
    refine fromResp_reads (b := buildGeopos) (by simp [builders]) (.cons (takes_respArg _ _) ((reads_drain _).bind ?_))
    rw [textsUntilError_bulks]
    exact reads_pure _
  case geodist key members =>
    obtain ⟨hlength, rfl⟩ := h
    have hdrain : Reads (Args.drainTo 2) (members.map .bulk) (members.map .bulk) := by
      unfold Reads Args.drainTo
      rw [if_pos (by simp [hlength]), List.take_of_length_le (by simp [hlength]),
        List.drop_of_length_le (by simp [hlength])]
    refine fromResp_reads (b := buildGeodist) (by simp [builders]) (.cons (takes_respArg _ _) (hdrain.bind ?_))
    rw [textsUntilError_bulks]
    exact reads_pure _
  case psync id offset =>
    obtain ⟨hoffset, rfl⟩ := h
    exact fromResp_reads (b := buildPsync) (by simp [builders])
      (.cons (takes_respArg _ _) (.cons (takes_respArg _ _) (.skip (takes_int hoffset) (reads_pure _))))
  case wait count timeoutMs =>
    have hwait : ∀ n, count ≤ u64Max → n ≤ u64Max → Reads buildWait ([toString count, toString n].map .bulk)
        (.wait count (if n = 0 then none else some n)) := fun n hcount hn =>
      .cons (takes_respArg _ _) (.skip (takes_uint hcount)
        (.cons (takes_respArg _ _) (.skip (takes_uint hn) (reads_pure _))))
    cases timeoutMs with
    | none =>
      obtain ⟨hcount, rfl⟩ := h
      exact fromResp_reads (by simp [builders]) (hwait 0 hcount (Nat.zero_le _))
    | some n =>
      obtain ⟨hcount, hpos, hn, rfl⟩ := h
      have hread := hwait n hcount hn
      rw [if_neg (by omega)] at hread
      exact fromResp_reads (by simp [builders]) hread
  case zadd key score member =>
    obtain ⟨text, hparse, rfl⟩ := h
    exact fromResp_reads (b := buildZadd P) (by simp [builders]) (.cons (takes_respArg _ _) (.cons (takes_respArg _ _)
      (.skip (takes_float hparse) (.cons (takes_respArg _ _) (reads_pure _)))))
  case geoadd key long lat member =>
    obtain ⟨long', lat', x, y, hx, hy, rfl, rfl, rfl⟩ := h
    exact fromResp_reads (b := buildGeoadd P) (by simp [builders]) (.cons (takes_respArg _ _) (.cons (takes_respArg _ _)
      (.skip (takes_float hx) (.cons (takes_respArg _ _) (.skip (takes_float hy) (.cons (takes_respArg _ _)
        (reads_pure _)))))))
  case geosearch key fromArg byArg =>
    cases fromArg <;> try exact h.elim
    cases byArg <;> try exact h.elim
    obtain ⟨long', lat', radius', hlong, hlat, hradius, rfl⟩ := h
    exact fromResp_reads (b := buildGeosearch P) (by simp [builders])
      (.cons (takes_respArg _ _) (.cons (takes_respArg _ _)
      (.cons (takes_respArg _ _) (.skip (takes_float hlong) (.cons (takes_respArg _ _) (.skip (takes_float hlat)
        (.cons (takes_respArg _ _) (.cons (takes_respArg _ _) (.skip (takes_float hradius) (.cons (takes_respArg _ _)
          (reads_pure _)))))))))))
  case acl opt =>
    obtain ⟨hf, rfl⟩ := h
    obtain ⟨word, values, hw⟩ := List.exists_cons_of_ne_nil hf.words_ne_nil
    have hset : CmdArg.set word values = .ok opt := by
      have hmore := CmdArg.set_words hf hw []
      rwa [List.append_nil] at hmore
    rw [hw]
    exact fromResp_reads (b := buildAcl) (by simp [builders]) (.cons (takes_respArg _ _) ((reads_texts _ _).bind
      (.skip (takes_lift hset) (reads_pure _))))
  case setbit key offset bit =>
    obtain ⟨hoffset, hbit, rfl⟩ := h
    exact fromResp_reads (b := buildSetbit) (by simp [builders]) (.cons (takes_respArg _ _) (.cons (takes_respArg _ _)
      (.skip (takes_uint hoffset) (.cons (takes_respArg _ _) (.skip (takes_uint hbit) (reads_pure _))))))
  case getbit key offset =>
    obtain ⟨hoffset, rfl⟩ := h
    exact fromResp_reads (b := buildGetbit) (by simp [builders])
      (.cons (takes_respArg _ _) (.cons (takes_respArg _ _) (.skip (takes_uint hoffset) (reads_pure _))))
  case bitcount key range =>
    cases range with
    | none =>
      obtain rfl := h
      exact fromResp_reads (b := buildBitcount) (by simp [builders])
        (.cons (takes_respArg _ _) (reads_remaining (reads_pure _)))
    | some range =>
      obtain ⟨hstart, hstop, rfl⟩ := h
      exact fromResp_reads (by simp [builders]) (reads_buildBitcount hstart hstop)
  case bitop arg =>
    obtain ⟨hf, hupper, rfl⟩ := h
    exact fromResp_reads (by simp [builders]) (reads_buildBitop hf hupper)
  all_goals exact h.elim

end

end Cmd

end Redis
