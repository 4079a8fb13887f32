import Redis.DataSound
import Redis.Lib.Footprint

/-!
# Commands on the key space

Many commands do nothing but read and change what their keys hold. `operate` is
such a command as an operation on the key space, with the footprint
`Cmd.footprint`. XREAD and WATCH are none: what they leave for their client is
beside the key space.
-/

namespace Redis

open Lib

/-- The keys a command names. KEYS names none, and answers from all of them. -/
def Cmd.footprint : Cmd → List String
  | .set key _ _ | .get key | .rpush key _ | .lrange key _ _ | .lpush key _ | .llen key | .lpop key _ | .blpop key _
  | .type key | .xadd key _ _ | .xrange key _ _ | .incr key | .zadd key _ _ | .zrank key _ | .zrange key _ _
  | .zcard key | .zscore key _ | .zrem key _ | .geoadd key _ _ _ | .geopos key _ | .geodist key _
  | .geosearch key _ _ | .setbit key _ _ | .getbit key _ | .strlen key | .bitcount key _ => [key]
  | .xread _ _ stream => stream.map Prod.fst
  | .watch names => names
  | .bitop (.and dest key1 key2) | .bitop (.or dest key1 key2) => [dest, key1, key2]
  | _ => []

namespace CmdHandler

/-- What the command does with the key space, when the clock says `now`. -/
def operate (P : Platform) (o : IterOrder) (now : Nat) : Cmd → Option (Data → Option (Data × CmdResult))
  | .set key value opt => some fun data => cmdSet data key value opt now
  | .get key => some fun data => some (data, cmdGet data key now)
  | .rpush key value => some fun data => some (cmdRpush data key value)
  | .lrange key start stop => some fun data => some (data, cmdLrange data key start stop)
  | .lpush key value => some fun data => some (cmdLpush data key value)
  | .llen key => some fun data => some (data, cmdLlen data key)
  | .lpop key length => some fun data => some (cmdLpop data key length)
  | .type key => some fun data => some (data, cmdType data key)
  | .xadd key id value => some fun data => some (cmdXadd data key id value now)
  | .xrange key start stop => some fun data => (cmdXrange data key start stop).map (data, ·)
  | .incr key => some fun data => some (cmdIncr data key)
  | .zadd key score member => some fun data => cmdZadd data key score member
  | .zrank key member => some fun data => (cmdZrank data key member).map (data, ·)
  | .zrange key start stop => some fun data => (cmdZrange data key start stop).map (data, ·)
  | .zcard key => some fun data => (cmdZcard data key).map (data, ·)
  | .zscore key member => some fun data => (cmdZscore P data key member).map (data, ·)
  | .zrem key member => some fun data => cmdZrem data key member
  | .geoadd key long lat member => some fun data => cmdGeoadd P data key long lat member
  | .geopos key members => some fun data => (cmdGeopos P data key members).map (data, ·)
  | .geodist key members => some fun data => (cmdGeodist P data key members).map (data, ·)
  | .geosearch key fromArg byArg => some fun data => some (data, cmdGeosearch P o data key fromArg byArg)
  | .setbit key offset bit => some fun data => some (cmdSetbit data key offset bit)
  | .getbit key offset => some fun data => some (data, cmdGetbit data key offset)
  | .strlen key => some fun data => some (data, cmdStrlen data key)
  | .bitcount key range => some fun data => some (data, cmdBitcount data key range)
  | .bitop args => some fun data => some (cmdBitop data args)
  | _ => none

section
variable {P : Platform} {o : IterOrder} {now clientId : Nat} {cmd : Cmd} {f : Data → Option (Data × CmdResult)}

theorem dispatch_operate {exec : CmdHandler → Nat → Option (CmdHandler × CmdResult)} {h : CmdHandler}
    {isSubscriber : Bool}
    {epollFd : Option Int} (hf : operate P o now cmd = some f) :
    dispatch P o exec h now isSubscriber clientId epollFd cmd = (f h.data).map h.withData := by
  have hread : ∀ x : Option CmdResult, x.map (Prod.mk h) = (x.map (h.data, ·)).map h.withData := by
    intro x
    cases x <;> rfl
  cases cmd <;> cases hf
  case xrange | zrank | zrange | zcard | zscore | geopos | geodist => exact hread _
  all_goals rfl

/-! ## Footprints -/

variable {F : Set String} {key : String}

theorem push_local (hk : key ∈ F) (extend : List String → List String) :
    HashMap.Local F fun data => some (push extend data key) := by
  intro m n h
  have hmade := (HashMap.Moves.refl h).orInsert hk { value := .list [], expiredAt := none }
  unfold push
  simp only
  rw [hmade.lookup hk]
  split
  · exact .some _ (hmade.modify hk _)
  · exact .some _ hmade

theorem cmdLpop_local (hk : key ∈ F) (length : Option Nat) :
    HashMap.Local F fun data => some (cmdLpop data key length) := by
  intro m n h
  have hstart := HashMap.Moves.refl h
  unfold cmdLpop
  simp only
  rw [hstart.lookup hk]
  split
  · split
    · split
      · exact .some _ (hstart.modify hk _)
      · split
        · exact .some _ (hstart.modify hk _)
        · exact .some _ hstart
    · exact .some _ hstart
  · exact .some _ hstart

theorem cmdIncr_local (hk : key ∈ F) : HashMap.Local F fun data => some (cmdIncr data key) := by
  intro m n h
  have hmade := (HashMap.Moves.refl h).orInsert hk { value := .str "0", expiredAt := none }
  unfold cmdIncr
  simp only
  rw [hmade.lookup hk]
  split
  · split
    · split
      · exact .some _ (hmade.modify hk _)
      · exact .some _ hmade
    · exact .some _ hmade
  · exact .some _ hmade

theorem cmdSet_local (hk : key ∈ F) (value : String) (opt : Option CmdArg) :
    HashMap.Local F fun data => cmdSet data key value opt now := by
  intro m n h
  unfold cmdSet
  cases extractDeadline opt now with
  | none => exact .none
  | some exp => exact .some _ ((HashMap.Moves.refl h).insert hk _)

theorem cmdXadd_local (hk : key ∈ F) (id : Option Nat × Option Nat) (value : List String) :
    HashMap.Local F fun data => some (cmdXadd data key id value now) := by
  intro m n h
  have hmade := (HashMap.Moves.refl h).orInsert hk { value := .stream .empty, expiredAt := none }
  unfold cmdXadd
  simp only
  rw [hmade.lookup hk]
  split
  · split
    · exact .some _ hmade
    · exact .some _ (hmade.modify hk _)
  · exact .some _ hmade

theorem cmdSetbit_local (hk : key ∈ F) (offset bit : Nat) :
    HashMap.Local F fun data => some (cmdSetbit data key offset bit) := by
  intro m n h
  have hmade := (HashMap.Moves.refl h).orInsert hk
    { value := .bitmap (Bitmap.new ((1 + offset) % 2 ^ 64)), expiredAt := none }
  unfold cmdSetbit
  simp only
  rw [hmade.lookup hk]
  split
  · split
    · split
      · exact .some _ (hmade.modify hk _)
      · exact .some _ hmade
    · exact .some _ hmade
  · exact .some _ hmade

theorem addMember_moves {m n m' n' : Data} (hmade : HashMap.Moves F m n m' n') (hk : key ∈ F) (score : F64)
    (member : String) :
    HashMap.Matched F m n (addMember m' key score member) (addMember n' key score member) := by
  unfold addMember
  rw [hmade.lookup hk]
  split
  · rename_i set expiredAt _
    cases set.add score member with
    | none => exact .none
    | some x => exact .some _ (hmade.modify hk _)
  · exact .some _ hmade

theorem cmdZadd_local (hk : key ∈ F) (score : F64) (member : String) :
    HashMap.Local F fun data => cmdZadd data key score member :=
  fun _ _ h => addMember_moves ((HashMap.Moves.refl h).orInsert hk _) hk score member

theorem cmdGeoadd_local (hk : key ∈ F) (long lat member : String) :
    HashMap.Local F fun data => cmdGeoadd P data key long lat member := by
  intro m n h
  have hmade : HashMap.Moves F m n (orNewZSet m key) (orNewZSet n key) := (HashMap.Moves.refl h).orInsert hk _
  unfold cmdGeoadd
  simp only
  split
  · exact .some _ hmade
  · exact addMember_moves hmade hk _ _

theorem cmdZrem_local (hk : key ∈ F) (member : String) : HashMap.Local F fun data => cmdZrem data key member := by
  intro m n h
  have hstart := HashMap.Moves.refl h
  unfold cmdZrem
  simp only
  rw [hstart.lookup hk]
  split
  · rename_i set expiredAt _
    cases set.remove member with
    | none => exact .none
    | some x => exact .some _ (hstart.modify hk _)
  · exact .some _ hstart
  · exact .some _ hstart

theorem bitop_local {dest key1 key2 : String} (hdest : dest ∈ F) (hkey1 : key1 ∈ F) (hkey2 : key2 ∈ F)
    (op : Bytes → Bytes → Bytes) : HashMap.Local F fun data => some (bitop op data dest key1 key2) := by
  intro m n h
  have hstart := HashMap.Moves.refl h
  have hsource : ∀ {k}, k ∈ F → bitopSource n k = bitopSource m k := by
    intro k hk
    unfold bitopSource
    rw [hstart.lookup hk]
  unfold bitop
  simp only
  rw [hsource hkey1, hsource hkey2]
  split
  · exact .some _ hstart
  · split
    · exact .some _ hstart
    · refine .some _ ?_
      split
      · exact hstart.erase hdest
      · exact hstart.insert hdest _

theorem read_local {g : Data → Option CmdResult} (hk : key ∈ F)
    (hg : ∀ m n : Data, n.lookup key = m.lookup key → g n = g m) : HashMap.Local F fun data => (g data).map (data, ·) :=
  HashMap.Local.read hk hg

theorem answer_local {g : Data → CmdResult} (hk : key ∈ F)
    (hg : ∀ m n : Data, n.lookup key = m.lookup key → g n = g m) : HashMap.Local F fun data => some (data, g data) :=
  read_local (g := fun data => some (g data)) hk fun m n h => congrArg some (hg m n h)

theorem operate_local (hf : operate P o now cmd = some f) (hF : ∀ key ∈ cmd.footprint, key ∈ F) :
    HashMap.Local F f := by
  cases cmd <;> cases hf
  case set => exact cmdSet_local (hF _ (List.mem_singleton_self _)) _ _
  case rpush | lpush => exact push_local (hF _ (List.mem_singleton_self _)) _
  case lpop => exact cmdLpop_local (hF _ (List.mem_singleton_self _)) _
  case xadd => exact cmdXadd_local (hF _ (List.mem_singleton_self _)) _ _
  case incr => exact cmdIncr_local (hF _ (List.mem_singleton_self _))
  case zadd => exact cmdZadd_local (hF _ (List.mem_singleton_self _)) _ _
  case zrem => exact cmdZrem_local (hF _ (List.mem_singleton_self _)) _
  case geoadd => exact cmdGeoadd_local (hF _ (List.mem_singleton_self _)) _ _ _
  case setbit => exact cmdSetbit_local (hF _ (List.mem_singleton_self _)) _ _
  case bitop args =>
    cases args with
    | and dest key1 key2 | or dest key1 key2 =>
      simp only [Cmd.footprint, List.forall_mem_cons] at hF
      exact bitop_local hF.1 hF.2.1 hF.2.2.1 _
    | _ => exact HashMap.Local.answer _
  case get | lrange | llen | type | geosearch | getbit | strlen | bitcount =>
    refine answer_local (hF _ (List.mem_singleton_self _)) fun m n h => ?_
    simp only [cmdGet, cmdLrange, cmdLlen, cmdType, cmdGeosearch, cmdGetbit, cmdStrlen, cmdBitcount, h]
  case xrange =>
    refine read_local (hF _ (List.mem_singleton_self _)) fun m n h => ?_
    simp only [cmdXrange, h]
  case zrank | zrange | zcard | zscore | geopos | geodist =>
    refine read_local (hF _ (List.mem_singleton_self _)) fun m n h => ?_
    simp only [cmdZrank, cmdZrange, cmdZcard, cmdZscore, cmdGeopos, cmdGeodist, withZSet, h]

end

end CmdHandler

end Redis
