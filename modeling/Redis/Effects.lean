import Redis.Executions
import Redis.RegistrySound

/-!
# What a command can do

The effects of the commands, with one constructor for each kind of change, so
that a proof about all commands goes through eight cases. `dispatch_effect`
puts every command in one of them.

A command that changes the key space changes one key, its `target`, and it is
propagated if it then answers with a value and is on the list of write
commands. `Escapes` are the commands that change a key and are not: ZADD, ZREM
and GEOADD are not on the list, and XADD and SETBIT can fail after they have
made the key.
-/

namespace Redis

open Lib RequestRegistry

def Cmd.target : Cmd → Option String
  | .zadd key .. | .zrem key _ | .geoadd key .. => some key
  | cmd => cmd.dirtyKey

namespace CmdHandler

/-! ## The key space -/

/-- Whether a member gets a new score, or a place in a new set. -/
def addChanges (data : Data) (key : String) (score : F64) (member : String) : Prop :=
  match data.lookup key with
  | some { value := .zSet set, .. } => set.add score member ≠ some (set, 0)
  | some _ => False
  | none => True

def Escapes (P : Platform) (data : Data) : Cmd → Prop
  | .zadd key score member => addChanges data key score member
  | .zrem key member => ∃ set x, data.lookup key = some ⟨.zSet set, x⟩ ∧ member ∈ set.members
  | .geoadd key long lat member =>
    key ∉ data ∨ ∃ score, geoScore P long lat = .ok score ∧ addChanges data key score member
  | .xadd key id _ => key ∉ data ∧ (id = (some 0, some 0) ∨ id.1 = none ∧ id.2.isSome)
  | .setbit key offset bit => key ∉ data ∧ bit ≠ 0 ∧ (1 < bit ∨ 2 ^ 64 ≤ 1 + offset)
  | _ => False

/-- Only the target changes; and if the change does not escape, it is logged. -/
def DataEffect (P : Platform) (data data' : Data) (cmd : Cmd) (r : CmdResult) : Prop :=
  ∀ key, data'.lookup key ≠ data.lookup key →
    cmd.target = some key ∧ (¬ Escapes P data cmd → cmd.toBeBroadcast = true ∧ ∃ resp, r = .ok (some resp))

section
variable {P : Platform} {o : IterOrder}

theorem DataEffect.same (data : Data) (cmd : Cmd) (r : CmdResult) : DataEffect P data data cmd r :=
  fun _ h => absurd rfl h

theorem DataEffect.write {data data' : Data} {cmd : Cmd} {r : CmdResult} {key : String} (ht : cmd.target = some key)
    (hother : ∀ k, k ≠ key → data'.lookup k = data.lookup k)
    (hkey : data'.lookup key = data.lookup key ∨ Escapes P data cmd ∨
      cmd.toBeBroadcast = true ∧ ∃ resp, r = .ok (some resp)) :
    DataEffect P data data' cmd r := by
  intro k hk
  have hkk : k = key := by
    by_contra hne
    exact hk (hother k hne)
  subst hkk
  refine ⟨ht, fun hesc => ?_⟩
  rcases hkey with h | h | h
  · exact absurd h hk
  · exact absurd h hesc
  · exact h

/-! ### Changes of one key -/

theorem lookup_modify_other {data : Data} {key k : String} (h : k ≠ key) (f : StoreItem → StoreItem) :
    (data.modify key f).lookup k = data.lookup k := HashMap.lookup_modify_ne h f data

theorem lookup_orInsert_other {data : Data} {key k : String} (h : k ≠ key) (item : StoreItem) :
    (HashMap.orInsert key item data).lookup k = data.lookup k := HashMap.lookup_orInsert_ne h item data

theorem orInsert_known {data : Data} {key : String} (h : key ∈ data) (item : StoreItem) :
    HashMap.orInsert key item data = data := by
  simp [HashMap.orInsert, h]

theorem cmdSet_effect {data data' : Data} {key value : String} {opt : Option CmdArg} {now : Nat} {r : CmdResult}
    (hs : cmdSet data key value opt now = some (data', r)) : DataEffect P data data' (.set key value opt) r := by
  obtain ⟨exp, _, he⟩ := Option.map_eq_some_iff.mp hs
  cases he
  refine .write rfl (fun k hk => AList.lookup_insert_ne hk) (Or.inr (Or.inr ⟨rfl, _, rfl⟩))

theorem lookup_orInsert_absent {data : Data} {key : String} (h : key ∉ data) (item : StoreItem) :
    (HashMap.orInsert key item data).lookup key = some item := by
  rw [HashMap.lookup_orInsert, AList.lookup_eq_none.mpr h, Option.getD_none]

/-- A list is made, and then the push cannot fail. -/
theorem push_effect {extend : List String → List String} {data data' : Data} {key : String} {cmd : Cmd} {r : CmdResult}
    (ht : cmd.target = some key) (hb : cmd.toBeBroadcast = true) (hp : push extend data key = (data', r)) :
    DataEffect P data data' cmd r := by
  unfold push at hp
  simp only at hp
  split at hp
  · cases hp
    refine .write ht (fun k hk => ?_) (Or.inr (Or.inr ⟨hb, _, rfl⟩))
    rw [lookup_modify_other hk, lookup_orInsert_other hk]
  · rename_i hfail
    cases hp
    refine .write ht (fun k hk => lookup_orInsert_other hk _) (Or.inl ?_)
    by_cases hk : key ∈ data
    · rw [orInsert_known hk]
    · exact absurd (lookup_orInsert_absent hk _) (hfail [] none)

theorem cmdLpop_effect {data data' : Data} {key : String} {length : Option Nat} {r : CmdResult}
    (hp : cmdLpop data key length = (data', r)) : DataEffect P data data' (.lpop key length) r := by
  have hset : ∀ items resp, DataEffect P data (setList data key items) (.lpop key length) (reply resp) :=
    fun items resp => .write rfl (fun k hk => lookup_modify_other hk _) (Or.inr (Or.inr ⟨rfl, _, rfl⟩))
  unfold cmdLpop at hp
  split at hp
  · split at hp
    · split at hp
      · cases hp
        exact hset _ _
      · split at hp
        · cases hp
          exact hset _ _
        · cases hp
          exact .same _ _ _
    · cases hp
      exact .same _ _ _
  · cases hp
    exact .same _ _ _

theorem cmdIncr_effect {data data' : Data} {key : String} {r : CmdResult}
    (hi : cmdIncr data key = (data', r)) : DataEffect P data data' (.incr key) r := by
  have hzero : parseInt (2 ^ 63) "0" = .ok 0 := by decide
  have hfail : ∀ e, (key ∉ data → False) → DataEffect P data
      (HashMap.orInsert key { value := .str "0", expiredAt := none } data) (.incr key) (.error e) := by
    intro e hk
    rw [orInsert_known (not_not.mp hk)]
    exact .same _ _ _
  unfold cmdIncr at hi
  simp only at hi
  split at hi
  · rename_i s x hl
    split at hi
    · rename_i i hs
      split at hi
      · cases hi
        refine .write rfl (fun k hk => ?_) (Or.inr (Or.inr ⟨rfl, _, rfl⟩))
        rw [lookup_modify_other hk, lookup_orInsert_other hk]
      · rename_i hlarge
        cases hi
        refine hfail _ fun hk => ?_
        rw [lookup_orInsert_absent hk] at hl
        cases hl
        rw [hzero] at hs
        cases hs
        exact hlarge (by decide)
    · rename_i e hs
      cases hi
      refine hfail _ fun hk => ?_
      rw [lookup_orInsert_absent hk] at hl
      cases hl
      rw [hzero] at hs
      cases hs
  · rename_i hl
    cases hi
    exact hfail _ fun hk => hl "0" none (lookup_orInsert_absent hk _)

/-- A new stream takes every id but `0-0` and those without milliseconds. -/
theorem nextStreamId_none {now : Nat} {id : Option Nat × Option Nat} {e : CustomError}
    (h : nextStreamId none now id = .error e) : id = (some 0, some 0) ∨ id.1 = none ∧ id.2.isSome := by
  obtain ⟨t, i⟩ := id
  cases t <;> cases i <;> simp only [nextStreamId] at h
  · cases h
  · exact Or.inr ⟨rfl, rfl⟩
  · split at h <;> cases h
  · split at h
    · rename_i h0
      rw [h0.1, h0.2]
      exact Or.inl rfl
    · cases h

theorem cmdXadd_effect {data data' : Data} {key : String} {id : Option Nat × Option Nat} {value : List String}
    {now : Nat} {r : CmdResult} (hx : cmdXadd data key id value now = (data', r)) :
    DataEffect P data data' (.xadd key id value) r := by
  unfold cmdXadd at hx
  simp only at hx
  split at hx
  · rename_i entries x hl
    split at hx
    · rename_i e he
      cases hx
      refine .write rfl (fun k hk => lookup_orInsert_other hk _) ?_
      by_cases hk : key ∈ data
      · exact Or.inl (by rw [orInsert_known hk])
      · rw [lookup_orInsert_absent hk] at hl
        cases hl
        exact Or.inr (Or.inl ⟨hk, nextStreamId_none he⟩)
    · cases hx
      refine .write rfl (fun k hk => ?_) (Or.inr (Or.inr ⟨rfl, _, rfl⟩))
      rw [lookup_modify_other hk, lookup_orInsert_other hk]
  · rename_i hfail
    cases hx
    refine .write rfl (fun k hk => lookup_orInsert_other hk _) (Or.inl ?_)
    by_cases hk : key ∈ data
    · rw [orInsert_known hk]
    · exact absurd (lookup_orInsert_absent hk _) (hfail _ none)

theorem bitOf_new (length offset : Nat) : bitOf (Bitmap.new length) offset = 0 := by
  unfold bitOf BitOps.get
  cases h : (Bitmap.new length)[offset / 8]? with
  | none => rfl
  | some block =>
    have hz : block = 0 := List.eq_of_mem_replicate (List.mem_of_getElem? h)
    subst hz
    simp

/-- A new bitmap has room for the bit it is made for, unless its length wraps. -/
theorem setBit_new (offset : Nat) (h : 1 + offset < 2 ^ 64) :
    ∃ map, setBit (Bitmap.new ((1 + offset) % 2 ^ 64)) offset 1 = .ok map := by
  have hlen : offset / 8 < (Bitmap.new ((1 + offset) % 2 ^ 64)).length := by
    rw [Nat.mod_eq_of_lt h, Bitmap.new, List.length_replicate]
    unfold divCeil
    omega
  have hset : ∃ map, BitOps.set (Bitmap.new ((1 + offset) % 2 ^ 64)) offset .one = .ok map := by
    unfold BitOps.set
    rw [List.getElem?_eq_getElem hlen]
    exact ⟨_, rfl⟩
  obtain ⟨map, hmap⟩ := hset
  refine ⟨map, ?_⟩
  have hbit : BitValue.tryFrom 1 = .ok .one := rfl
  unfold setBit
  rw [hbit]
  simp only [bind, Except.bind, hmap]
  rfl

theorem cmdSetbit_effect {data data' : Data} {key : String} {offset bit : Nat} {r : CmdResult}
    (hs : cmdSetbit data key offset bit = (data', r)) : DataEffect P data data' (.setbit key offset bit) r := by
  have hother : ∀ k, k ≠ key → ∀ item, (HashMap.orInsert key item data).lookup k = data.lookup k :=
    fun k hk item => lookup_orInsert_other hk item
  unfold cmdSetbit at hs
  simp only at hs
  split at hs
  · rename_i map x hl
    split at hs
    · rename_i hbit
      split at hs
      · cases hs
        refine .write rfl (fun k hk => ?_) (Or.inr (Or.inr ⟨rfl, _, rfl⟩))
        rw [lookup_modify_other hk, hother k hk]
      · rename_i e he
        cases hs
        refine .write rfl (fun k hk => hother k hk _) ?_
        by_cases hk : key ∈ data
        · exact Or.inl (by rw [orInsert_known hk])
        · rw [lookup_orInsert_absent hk] at hl
          cases hl
          rw [bitOf_new] at hbit
          refine Or.inr (Or.inl ⟨hk, Ne.symm hbit, ?_⟩)
          by_contra hno
          obtain ⟨map, hmap⟩ := setBit_new offset (by omega)
          have hone : bit = 1 := by omega
          rw [hone, hmap] at he
          cases he
    · cases hs
      exact .write rfl (fun k hk => hother k hk _) (Or.inr (Or.inr ⟨rfl, _, rfl⟩))
  · rename_i hfail
    cases hs
    refine .write rfl (fun k hk => hother k hk _) (Or.inl ?_)
    by_cases hk : key ∈ data
    · rw [orInsert_known hk]
    · exact absurd (lookup_orInsert_absent hk _) (hfail _ none)

theorem bitop_effect {op : Bytes → Bytes → Bytes} {data data' : Data} {dest key1 key2 : String} {args : CmdArg}
    {r : CmdResult} (ht : (Cmd.bitop args).target = some dest) (hb : bitop op data dest key1 key2 = (data', r)) :
    DataEffect P data data' (.bitop args) r := by
  unfold bitop at hb
  split at hb
  · cases hb
    exact .same _ _ _
  · split at hb
    · cases hb
      exact .same _ _ _
    · cases hb
      refine .write ht (fun k hk => ?_) (Or.inr (Or.inr ⟨rfl, _, rfl⟩))
      split
      · exact AList.lookup_erase_ne hk
      · exact AList.lookup_insert_ne hk

theorem cmdBitop_effect {data data' : Data} {args : CmdArg} {r : CmdResult} (hb : cmdBitop data args = (data', r)) :
    DataEffect P data data' (.bitop args) r := by
  cases args with
  | and => exact bitop_effect rfl hb
  | or => exact bitop_effect rfl hb
  | _ =>
    cases hb
    exact .same _ _ _

theorem addMember_effect {data data' : Data} {key member : String} {score : F64} {r : CmdResult}
    (ha : addMember data key score member = some (data', r)) :
    (∀ k, k ≠ key → data'.lookup k = data.lookup k) ∧
      (data'.lookup key = data.lookup key ∨ addChanges data key score member) := by
  unfold addMember at ha
  split at ha
  · rename_i set x hl
    obtain ⟨⟨set', count⟩, hadd, he⟩ := Option.map_eq_some_iff.mp ha
    cases he
    refine ⟨fun k hk => lookup_modify_other hk _, ?_⟩
    unfold addChanges
    rw [hl]
    by_cases hsame : set.add score member = some (set, 0)
    · rw [hsame] at hadd
      cases hadd
      exact Or.inl (by rw [HashMap.lookup_modify, hl]; rfl)
    · exact Or.inr hsame
  · cases ha
    exact ⟨fun _ _ => rfl, Or.inl rfl⟩

theorem addChanges_absent {data : Data} {key : String} (h : key ∉ data) (score : F64) (member : String) :
    addChanges data key score member := by
  unfold addChanges
  rw [AList.lookup_eq_none.mpr h]
  trivial

theorem cmdZadd_effect {data data' : Data} {key member : String} {score : F64} {r : CmdResult}
    (hz : cmdZadd data key score member = some (data', r)) : DataEffect P data data' (.zadd key score member) r := by
  obtain ⟨hother, hkey⟩ := addMember_effect hz
  refine .write rfl (fun k hk => by rw [hother k hk]; exact lookup_orInsert_other hk _) ?_
  by_cases hk : key ∈ data
  · rw [orNewZSet, orInsert_known hk] at hkey
    exact hkey.imp id Or.inl
  · exact Or.inr (Or.inl (addChanges_absent hk score member))

theorem cmdGeoadd_effect {data data' : Data} {key long lat member : String} {r : CmdResult}
    (hg : cmdGeoadd P data key long lat member = some (data', r)) :
    DataEffect P data data' (.geoadd key long lat member) r := by
  unfold cmdGeoadd at hg
  by_cases hk : key ∈ data
  · simp only [orNewZSet, orInsert_known hk] at hg
    split at hg
    · cases hg
      exact .same _ _ _
    · rename_i score hs
      obtain ⟨hother, hkey⟩ := addMember_effect hg
      exact .write rfl hother (hkey.imp id fun hc => Or.inl (Or.inr ⟨score, hs, hc⟩))
  · have hesc : Escapes P data (.geoadd key long lat member) := Or.inl hk
    refine .write rfl (fun k hne => ?_) (Or.inr (Or.inl hesc))
    simp only at hg
    split at hg
    · cases hg
      exact lookup_orInsert_other hne _
    · rw [(addMember_effect hg).1 k hne]
      exact lookup_orInsert_other hne _

theorem cmdZrem_effect {data data' : Data} {key member : String} {r : CmdResult}
    (hz : cmdZrem data key member = some (data', r)) : DataEffect P data data' (.zrem key member) r := by
  unfold cmdZrem at hz
  split at hz
  · rename_i set x hl
    obtain ⟨⟨set', count⟩, hrem, he⟩ := Option.map_eq_some_iff.mp hz
    cases he
    refine .write rfl (fun k hk => lookup_modify_other hk _) ?_
    by_cases hm : member ∈ set.members
    · exact Or.inr (Or.inl ⟨set, x, hl, hm⟩)
    · rw [SortedSet.remove, AList.lookup_eq_none.mpr hm] at hrem
      cases hrem
      exact Or.inl (by rw [HashMap.lookup_modify, hl]; rfl)
  · cases hz
    exact .same _ _ _
  · cases hz
    exact .same _ _ _

/-! ## All commands -/

/-- The request that a command leaves behind when it cannot answer, with its timeout. -/
def requestOf (o : IterOrder) (h : CmdHandler) (epollFd : Option Int) : Cmd → Option (RequestKind × Option Nat)
  | .blpop key timeoutMs =>
    match h.data.lookup key with
    | some item =>
      match item.value with
      | .list items =>
        if !items.isEmpty && h.registry.isBacklogListEmpty key then none else some (.list key, timeoutMs)
      | _ => none
    | none => some (.list key, timeoutMs)
  | .xread count (some ms) stream =>
    if stream.any fun s => notStream h.data s.1 then none
    else
      let stream := stream.map (resolveId h.data)
      if (readStreams h.data count stream).isSome then none
      else some (.stream stream count, if ms = 0 then none else some ms)
  | .wait count timeoutMs =>
    match h.appStates.hostStats with
    | some stats =>
      if count = 0 ∨ stats.offset = 0 then none
      else some (.wait count 0 stats.offset (o.order h.clientTable.listSlave) epollFd, timeoutMs)
    | none => none
  | _ => none

inductive Effect (P : Platform) (o : IterOrder) (h : CmdHandler) (now clientId : Nat) (epollFd : Option Int)
    (cmd : Cmd) : CmdHandler → CmdResult → Prop
  | value {data r} : DataEffect P h.data data cmd r → Effect P o h now clientId epollFd cmd { h with data } r
  | request {kind timeoutMs ids} : requestOf o h epollFd cmd = some (kind, timeoutMs) →
    (∀ id ∈ ids, id ∈ h.clientTable.listSlave) →
    Effect P o h now clientId epollFd cmd
      { h.pushAll ids getAck.frame with
        registry := h.registry.insert now (getDeadline timeoutMs now).2 clientId kind } (.ok none)
  | session {t w r} :
    (∀ key id b, (id = clientId → cmd ≠ .unwatch ∧ (cmd = .discard → h.registry.isTransaction id = false)) →
      watchFlag h.registry.watchlist key id = some b → watchFlag w key id = some b) →
    Effect P o h now clientId epollFd cmd (h.withSession t w) r
  | slave {r} : Effect P o h now clientId epollFd cmd { h with clientTable := h.clientTable.setSlave clientId } r
  | ack {offset h' r} : cmd = .replconf (.ack offset) → cmdAck h clientId offset epollFd = some (h', r) →
    Effect P o h now clientId epollFd cmd h' r
  | channels {subscribers channels r} :
    (∀ key set id, channels.lookup key = some set → id ∈ set →
      id = clientId ∨ ∃ set', h.channels.lookup key = some set' ∧ id ∈ set') →
    Effect P o h now clientId epollFd cmd { h with subscribers, channels } r
  | publish {key set ids m r} : h.channels.lookup key = some set → (∀ id ∈ ids, id ∈ set) →
    Effect P o h now clientId epollFd cmd (h.pushAll ids m) r
  | users {auth r} : Effect P o h now clientId epollFd cmd { h with auth } r

section
variable {P : Platform} {o : IterOrder} {h : CmdHandler} {now clientId : Nat} {epollFd : Option Int} {cmd : Cmd}

theorem Effect.read (r : CmdResult) : Effect P o h now clientId epollFd cmd h r := .value (.same h.data cmd r)

theorem Effect.write {r : Data × CmdResult} (hr : DataEffect P h.data r.1 cmd r.2) :
    Effect P o h now clientId epollFd cmd (h.withData r).1 (h.withData r).2 := .value hr

theorem Effect.of_eq {x : CmdHandler × CmdResult} {h' : CmdHandler} {r : CmdResult} (hx : x = (h', r))
    (he : Effect P o h now clientId epollFd cmd x.1 x.2) : Effect P o h now clientId epollFd cmd h' r := by
  rw [hx] at he
  exact he

theorem Effect.write? {w : Option (Data × CmdResult)} {h' : CmdHandler} {r : CmdResult}
    (hd : w.map h.withData = some (h', r)) (hw : ∀ d r, w = some (d, r) → DataEffect P h.data d cmd r) :
    Effect P o h now clientId epollFd cmd h' r := by
  obtain ⟨⟨d, r'⟩, hr, he⟩ := Option.map_eq_some_iff.mp hd
  cases he
  exact .value (hw d r' hr)

theorem Effect.read? {w : Option CmdResult} {h' : CmdHandler} {r : CmdResult}
    (hd : w.map (Prod.mk h) = some (h', r)) : Effect P o h now clientId epollFd cmd h' r := by
  obtain ⟨r', _, he⟩ := Option.map_eq_some_iff.mp hd
  cases he
  exact .read _

theorem Effect.asked {kind : RequestKind} {timeoutMs : Option Nat}
    (hr : requestOf o h epollFd cmd = some (kind, timeoutMs)) :
    Effect P o h now clientId epollFd cmd
      { h with registry := h.registry.insert now (getDeadline timeoutMs now).2 clientId kind } (.ok none) := by
  have hpush : Effect P o h now clientId epollFd cmd
      { h.pushAll [] getAck.frame with
        registry := h.registry.insert now (getDeadline timeoutMs now).2 clientId kind } (.ok none) :=
    .request hr (by simp)
  simpa [pushAll] using hpush

/-- BLPOP pops if nobody waits before it, fails on another type, and waits otherwise. -/
theorem cmdBlpop_cases {data data' : Data} {registry registry' : RequestRegistry} {key : String}
    {timeoutMs : Option Nat}
    {r : CmdResult} (hb : cmdBlpop data registry key timeoutMs clientId now = ((data', registry'), r)) :
    (∃ s items x, data.lookup key = some ⟨.list (s :: items), x⟩ ∧ registry.isBacklogListEmpty key = true ∧
      data' = setList data key items ∧ registry' = registry ∧ r = reply (poppedReply key s)) ∨
    (data' = data ∧ registry' = registry ∧ r = .error (unsupported key)) ∨
    ((∀ item, data.lookup key = some item → ∃ items, item.value = .list items ∧
        (items = [] ∨ registry.isBacklogListEmpty key = false)) ∧
      data' = data ∧ registry' = registry.insert now (getDeadline timeoutMs now).2 clientId (.list key) ∧
      r = .ok none) := by
  have hnow : (getDeadline timeoutMs now).1 = now := by cases timeoutMs <;> rfl
  unfold cmdBlpop at hb
  rw [show getDeadline timeoutMs now = (now, (getDeadline timeoutMs now).2) from Prod.ext hnow rfl] at hb
  simp only at hb
  cases hl : data.lookup key with
  | none =>
    rw [hl] at hb
    cases hb
    refine .inr (.inr ⟨fun item hitem => ?_, rfl, rfl, rfl⟩)
    cases hitem
  | some item =>
    obtain ⟨value, x⟩ := item
    rw [hl] at hb
    cases value with
    | list items =>
      cases items with
      | nil =>
        cases hb
        refine .inr (.inr ⟨fun item hitem => ?_, rfl, rfl, rfl⟩)
        cases hitem
        exact ⟨[], rfl, .inl rfl⟩
      | cons s items =>
        cases hq : registry.isBacklogListEmpty key with
        | true =>
          simp only [hq] at hb
          cases hb
          exact .inl ⟨s, items, x, rfl, rfl, rfl, rfl, rfl⟩
        | false =>
          simp only [hq] at hb
          cases hb
          refine .inr (.inr ⟨fun item hitem => ?_, rfl, rfl, rfl⟩)
          cases hitem
          exact ⟨s :: items, rfl, .inr rfl⟩
    | _ =>
      cases hb
      exact .inr (.inl ⟨rfl, rfl, rfl⟩)

theorem requestOf_blpop {key : String} {timeoutMs : Option Nat}
    (hwait : ∀ item, h.data.lookup key = some item → ∃ items, item.value = .list items ∧
      (items = [] ∨ h.registry.isBacklogListEmpty key = false)) :
    requestOf o h epollFd (.blpop key timeoutMs) = some (.list key, timeoutMs) := by
  cases hl : h.data.lookup key with
  | none => simp only [requestOf, hl]
  | some item =>
    obtain ⟨items, hvalue, hno⟩ := hwait item hl
    simp only [requestOf, hl, hvalue]
    refine if_neg fun hpop => ?_
    rw [Bool.and_eq_true, Bool.not_eq_true', List.isEmpty_eq_false_iff] at hpop
    rcases hno with hnil | hq
    · exact hpop.1 hnil
    · rw [hq] at hpop
      cases hpop.2

theorem cmdBlpop_effect {key : String} {timeoutMs : Option Nat} {data : Data} {registry : RequestRegistry}
    {r : CmdResult} (hb : cmdBlpop h.data h.registry key timeoutMs clientId now = ((data, registry), r)) :
    Effect P o h now clientId epollFd (.blpop key timeoutMs) { h with data, registry } r := by
  rcases cmdBlpop_cases hb with ⟨s, items, x, _, _, rfl, rfl, rfl⟩ | ⟨rfl, rfl, rfl⟩ | ⟨hwait, rfl, rfl, rfl⟩
  · exact .value (.write rfl (fun k hk => lookup_modify_other hk _) (Or.inr (Or.inr ⟨rfl, _, rfl⟩)))
  · exact .read _
  · exact .asked (requestOf_blpop hwait)

/-- XREAD reads, or it asks for what is to come. -/
theorem cmdXread_cases {count blockMs : Option Nat} {stream : List (String × Nat × Nat)} {registry : RequestRegistry}
    {r : CmdResult} (hx : cmdXread h.data h.registry count blockMs stream clientId now = (registry, r)) :
    registry = h.registry ∨
      ∃ kind timeoutMs, requestOf o h epollFd (.xread count blockMs stream) = some (kind, timeoutMs) ∧
        registry = h.registry.insert now (getDeadline timeoutMs now).2 clientId kind ∧ r = .ok none := by
  unfold cmdXread at hx
  split at hx
  · cases hx
    exact .inl rfl
  · rename_i hfind
    simp only at hx
    split at hx
    · cases hx
      exact .inl rfl
    · rename_i hnone
      split at hx
      · cases hx
        exact .inl rfl
      · rename_i ms
        have hnow : ∀ t, getDeadline t now = (now, (getDeadline t now).2) := by
          intro t
          cases t <;> rfl
        rw [hnow] at hx
        cases hx
        have hany : (stream.any fun s => notStream h.data s.1) = false := by
          simpa [List.find?_eq_none] using hfind
        have hreq : requestOf o h epollFd (.xread count (some ms) stream) =
            some (.stream (stream.map (resolveId h.data)) count, if ms = 0 then none else some ms) := by
          simp [requestOf, hany, hnone]
        exact .inr ⟨_, _, hreq, rfl, rfl⟩

theorem cmdXread_effect {count blockMs : Option Nat} {stream : List (String × Nat × Nat)} {registry : RequestRegistry}
    {r : CmdResult} (hx : cmdXread h.data h.registry count blockMs stream clientId now = (registry, r)) :
    Effect P o h now clientId epollFd (.xread count blockMs stream) { h with registry } r := by
  rcases cmdXread_cases hx with rfl | ⟨kind, timeoutMs, hreq, rfl, rfl⟩
  · exact .read _
  · exact .asked hreq

/-- WAIT answers, or it asks the slaves and waits for them. -/
theorem cmdWait_cases {count : Nat} {timeoutMs : Option Nat} {h' : CmdHandler} {r : CmdResult}
    (hw : cmdWait o h count timeoutMs clientId now epollFd = some (h', r)) :
    h' = h ∨
      ∃ kind, requestOf o h epollFd (.wait count timeoutMs) = some (kind, timeoutMs) ∧
        h' = { h.pushAll (o.order h.clientTable.listSlave) getAck.frame with
          registry := h.registry.insert now (getDeadline timeoutMs now).2 clientId kind } ∧ r = .ok none := by
  have hnow : getDeadline timeoutMs now = (now, (getDeadline timeoutMs now).2) := by cases timeoutMs <;> rfl
  unfold cmdWait at hw
  split at hw
  · cases hw
    exact .inl rfl
  · rename_i hcount
    split at hw
    · cases hw
      exact .inl rfl
    · rename_i stats hstats
      split at hw
      · cases hw
        exact .inl rfl
      · rename_i hoffset
        rw [hnow] at hw
        simp only at hw
        split at hw
        · cases hw
          refine .inr ⟨_, ?_, rfl, rfl⟩
          simp [requestOf, hstats, hcount, hoffset]
        · cases hw

theorem cmdWait_effect {count : Nat} {timeoutMs : Option Nat} {h' : CmdHandler} {r : CmdResult}
    (hw : cmdWait o h count timeoutMs clientId now epollFd = some (h', r)) :
    Effect P o h now clientId epollFd (.wait count timeoutMs) h' r := by
  rcases cmdWait_cases hw with rfl | ⟨kind, hreq, rfl, rfl⟩
  · exact .read _
  · exact .request hreq fun id hid => (o.perm _).mem_iff.mp hid

theorem mem_joinChannel {channels : HashMap String (HashSet Nat)} {key k : String} {set : HashSet Nat} {id : Nat}
    (hl : (joinChannel clientId channels key).lookup k = some set) (hid : id ∈ set) :
    id = clientId ∨ ∃ set', channels.lookup k = some set' ∧ id ∈ set' := by
  unfold joinChannel at hl
  by_cases hk : k = key
  · subst hk
    rw [HashMap.lookup_modify, HashMap.lookup_orInsert, Option.map_some, Option.some.injEq] at hl
    subst hl
    by_cases hc : id = clientId
    · exact Or.inl hc
    · refine Or.inr ?_
      have hid' : id ∈ (channels.lookup k).getD ∅ := by
        rwa [← AList.lookup_isSome, HashMap.lookup_put_ne hc, AList.lookup_isSome] at hid
      cases hs : channels.lookup k with
      | none =>
        rw [hs] at hid'
        exact absurd hid' (AList.notMem_empty id)
      | some set' =>
        rw [hs] at hid'
        exact ⟨set', rfl, hid'⟩
  · rw [HashMap.lookup_modify_ne hk, HashMap.lookup_orInsert_ne hk] at hl
    exact Or.inr ⟨set, hl, hid⟩

theorem cmdSubscribe_effect (keys : List String) :
    Effect P o h now clientId epollFd cmd (cmdSubscribe h keys clientId).1 (cmdSubscribe h keys clientId).2 := by
  unfold cmdSubscribe
  refine .channels ?_
  generalize h.isSubscriber clientId = known
  generalize hr : ([] : Bytes) = responses
  clear hr
  -- each name adds the client to one channel
  suffices hall : ∀ (keys : List String) (channels : HashMap String (HashSet Nat)) (responses : Bytes) key set id,
      (keys.foldl (fun (acc : HashMap String (HashSet Nat) × Bytes) key =>
        (joinChannel clientId acc.1 key,
          acc.2 ++ subscribeReply known acc.1 (joinChannel clientId acc.1 key) clientId key))
        (channels, responses)).1.lookup key = some set → id ∈ set →
      id = clientId ∨ ∃ set', channels.lookup key = some set' ∧ id ∈ set' from
    hall keys h.channels responses
  intro keys
  induction keys with
  | nil => exact fun channels responses key set id hl hid => Or.inr ⟨set, hl, hid⟩
  | cons k keys ih =>
    intro channels responses key set id hl hid
    rcases ih _ _ key set id hl hid with hc | ⟨set', hl', hid'⟩
    · exact Or.inl hc
    · exact mem_joinChannel hl' hid'

theorem cmdUnsubscribe_frame (h : CmdHandler) (key : String) (clientId : Nat) :
    ∃ subscribers channels, (cmdUnsubscribe h key clientId).1 = { h with subscribers, channels } := by
  unfold cmdUnsubscribe
  split <;> exact ⟨_, _, rfl⟩

theorem cmdUnsubscribe_effect (key : String) :
    Effect P o h now clientId epollFd cmd (cmdUnsubscribe h key clientId).1 (cmdUnsubscribe h key clientId).2 := by
  unfold cmdUnsubscribe
  split
  · refine .channels fun k set id hl hid => Or.inr ?_
    by_cases hk : k = key
    · subst hk
      rw [HashMap.lookup_modify] at hl
      obtain ⟨set', hl', rfl⟩ := Option.map_eq_some_iff.mp hl
      exact ⟨set', hl', (AList.mem_erase.mp hid).2⟩
    · rw [HashMap.lookup_modify_ne hk] at hl
      exact ⟨set, hl, hid⟩
  · exact .read _

theorem cmdPublish_frame (o : IterOrder) (h : CmdHandler) (key message : String) :
    ∃ ids m, (cmdPublish o h key message).1 = h.pushAll ids m := by
  unfold cmdPublish
  split
  · exact ⟨_, _, rfl⟩
  · exact ⟨[], [], by simp [pushAll]⟩

theorem cmdPublish_effect (key message : String) :
    Effect P o h now clientId epollFd cmd (cmdPublish o h key message).1 (cmdPublish o h key message).2 := by
  unfold cmdPublish
  split
  · rename_i set hl
    exact .publish hl fun id hid => AList.mem_keys.mp ((o.perm _).mem_iff.mp hid)
  · exact .read _

theorem cmdReplconf_cases {arg : CmdArg} {h' : CmdHandler} {r : CmdResult}
    (hr : cmdReplconf h arg clientId epollFd = some (h', r)) :
    h' = h ∨ ∃ offset, arg = .ack offset ∧ cmdAck h clientId offset epollFd = some (h', r) := by
  unfold cmdReplconf at hr
  split at hr
  · split at hr
    · split at hr
      · cases hr
        exact .inl rfl
      · cases hr
        exact .inl rfl
    · cases hr
      exact .inl rfl
  · cases hr
    exact .inl rfl
  · cases hr
    exact .inl rfl
  · exact .inr ⟨_, rfl, hr⟩
  · cases hr
    exact .inl rfl

theorem cmdReplconf_effect {arg : CmdArg} {h' : CmdHandler} {r : CmdResult}
    (hr : cmdReplconf h arg clientId epollFd = some (h', r)) :
    Effect P o h now clientId epollFd (.replconf arg) h' r := by
  rcases cmdReplconf_cases hr with rfl | ⟨offset, rfl, ha⟩
  · exact .read _
  · exact .ack rfl ha

theorem cmdPsync_cases (h : CmdHandler) (id : String) (offset : Int) (clientId : Nat) :
    (cmdPsync h id offset clientId).1 = h ∨
      (cmdPsync h id offset clientId).1 = { h with clientTable := h.clientTable.setSlave clientId } := by
  unfold cmdPsync
  split
  · split
    · exact .inl rfl
    · exact .inr rfl
  · exact .inl rfl

theorem cmdPsync_effect (id : String) (offset : Int) :
    Effect P o h now clientId epollFd cmd (cmdPsync h id offset clientId).1 (cmdPsync h id offset clientId).2 := by
  rcases cmdPsync_cases h id offset clientId with heq | heq
  · rw [heq]
    exact .read _
  · rw [heq]
    exact .slave

theorem cmdMulti_effect : Effect P o h now clientId epollFd .multi
    (h.withRegistry (cmdMulti h.registry clientId)).1 (h.withRegistry (cmdMulti h.registry clientId)).2 := by
  unfold cmdMulti
  split
  · exact .read _
  · exact .session (t := h.registry.backlogTxn.insert clientId []) (w := h.registry.watchlist) fun _ _ _ _ hb => hb

theorem cmdDiscard_effect : Effect P o h now clientId epollFd .discard
    (h.withRegistry (cmdDiscard h.registry clientId)).1 (h.withRegistry (cmdDiscard h.registry clientId)).2 := by
  unfold cmdDiscard
  split
  · rename_i htxn
    refine .session (t := h.registry.backlogTxn.erase clientId) (w := (h.registry.unwatchAll clientId).watchlist) ?_
    intro key id b hid hb
    by_cases hc : id = clientId
    · rw [hc] at hid
      rw [(hid rfl).2 rfl] at htxn
      cases htxn
    · rw [watchFlag_unwatchAll hc]
      exact hb
  · exact .read _

def NotNested (exec : CmdHandler → Nat → Option (CmdHandler × CmdResult)) (h : CmdHandler) (clientId : Nat) : Prop :=
  ∀ h' r, exec h clientId = some (h', r) → h' = h

theorem dispatch_effect {exec : CmdHandler → Nat → Option (CmdHandler × CmdResult)} {isSubscriber : Bool}
    (hexec : NotNested exec h clientId) {h' : CmdHandler} {r : CmdResult}
    (hd : dispatch P o exec h now isSubscriber clientId epollFd cmd = some (h', r)) :
    Effect P o h now clientId epollFd cmd h' r := by
  cases cmd <;> simp only [dispatch, Option.some.injEq] at hd
  case set => exact .write? hd fun d r hs => cmdSet_effect hs
  case rpush | lpush => cases hd; exact .write (push_effect rfl rfl rfl)
  case lpop => cases hd; exact .write (cmdLpop_effect rfl)
  case blpop => cases hd; exact cmdBlpop_effect rfl
  case xadd => cases hd; exact .write (cmdXadd_effect rfl)
  case xread => cases hd; exact cmdXread_effect rfl
  case incr => cases hd; exact .write (cmdIncr_effect rfl)
  case zadd => exact .write? hd fun d r hz => cmdZadd_effect hz
  case zrem => exact .write? hd fun d r hz => cmdZrem_effect hz
  case geoadd => exact .write? hd fun d r hg => cmdGeoadd_effect hg
  case setbit => cases hd; exact .write (cmdSetbit_effect rfl)
  case bitop => cases hd; exact .write (cmdBitop_effect rfl)
  case multi => cases hd; exact cmdMulti_effect
  case discard => cases hd; exact cmdDiscard_effect
  case watch keys =>
    cases hd
    exact .session (t := h.registry.backlogTxn) (w := (h.registry.watch keys clientId).watchlist)
      fun _ _ _ _ hb => watchFlag_watch_some keys clientId hb
  case unwatch =>
    cases hd
    refine .session (t := h.registry.backlogTxn) (w := (h.registry.unwatchAll clientId).watchlist) ?_
    intro key id b hid hb
    rw [watchFlag_unwatchAll fun hc => (hid hc).1 rfl]
    exact hb
  case exec => rw [hexec h' r hd]; exact .read _
  case psync => exact .of_eq hd (cmdPsync_effect _ _)
  case replconf => exact cmdReplconf_effect hd
  case wait => exact cmdWait_effect hd
  case subscribe => exact .of_eq hd (cmdSubscribe_effect _)
  case unsubscribe => exact .of_eq hd (cmdUnsubscribe_effect _)
  case publish => exact .of_eq hd (cmdPublish_effect _ _)
  case acl | auth => cases hd; exact .users
  case xrange | zrank | zrange | zcard | zscore | geopos | geodist => exact .read? hd
  all_goals
    cases hd
    exact .read _

end

/-! ## Acknowledgements -/

section
variable {h : CmdHandler}

theorem ackClient_frame {offset : Int} {a a' : AckState} {id : Nat} (ha : ackClient offset a id = some a') :
    ∃ new store history, (∀ m ∈ new, m.1 = id) ∧
      a'.handler = { a.handler with
        responseQueue := a.handler.responseQueue ++ new
        registry := { a.handler.registry with store, history } } := by
  have hsame : ∃ new store history, (∀ m ∈ new, m.1 = id) ∧
      a.handler = { a.handler with
        responseQueue := a.handler.responseQueue ++ new
        registry := { a.handler.registry with store, history } } :=
    ⟨[], a.handler.registry.store, a.handler.registry.history, by simp, by simp⟩
  unfold ackClient at ha
  split at ha
  · cases ha
  · split at ha
    · split at ha
      · rename_i timestamp _ _ entry _ _ requiredCount actualCount offsetSnapshot _ _ _
        simp only at ha
        split at ha
        · cases ha
          exact ⟨[_], _, _, by simp, rfl⟩
        · cases ha
          exact ⟨[], a.handler.registry.store.modify timestamp
            (·.setCount (countAck offset offsetSnapshot actualCount)), a.handler.registry.history, by simp, by simp⟩
      · cases ha
        exact hsame
    · cases ha
      exact hsame

theorem foldl_remove_session (timestamps : List Nat) (r : RequestRegistry) :
    (timestamps.foldl (fun r t => (r.remove t).1) r).backlogTxn = r.backlogTxn ∧
      (timestamps.foldl (fun r t => (r.remove t).1) r).watchlist = r.watchlist := by
  induction timestamps generalizing r with
  | nil => exact ⟨rfl, rfl⟩
  | cons t ts ih =>
    obtain ⟨htxn, hwatch⟩ := ih (r.remove t).1
    obtain ⟨htxn', hwatch'⟩ := r.remove_session t
    exact ⟨htxn.trans htxn', hwatch.trans hwatch'⟩

/-- The parts of an acknowledgement: the clients that wait for the slave are
gone through, and then those that are done leave. -/
theorem cmdAck_cases {slaveId : Nat} {offset : Int} {epollFd : Option Int} {h' : CmdHandler} {r : CmdResult}
    (ha : cmdAck h slaveId offset epollFd = some (h', r)) :
    ∃ a timestamps,
      ((h.registry.backlogAck.lookup slaveId).getD []).foldlM (ackClient offset) { handler := h } = some a ∧
      (a.done.mapM fun id => a.handler.registry.backlogWait.lookup id) = some timestamps ∧
      r = .ok none ∧
      h' = { a.handler with
        registry := timestamps.foldl (fun r t => (r.remove t).1)
          { a.handler.registry with
            backlogAck := a.handler.registry.backlogAck.retain slaveId (· ∉ a.acked) } } := by
  unfold cmdAck at ha
  simp only [Option.bind_eq_bind, Option.bind_eq_some_iff] at ha
  obtain ⟨a, hfold, timestamps, hts, hlast⟩ := ha
  split at hlast
  · cases hlast
    exact ⟨a, timestamps, hfold, hts, rfl, rfl⟩
  · cases hlast

/-- The loop answers some of the clients, and marks their requests. -/
theorem ackClients_frame {offset : Int} {ids : List Nat} {a : AckState}
    (hfold : ids.foldlM (ackClient offset) { handler := h } = some a) :
    ∃ new store history, (∀ m ∈ new, m.1 ∈ ids) ∧
      a.handler = { h with
        responseQueue := h.responseQueue ++ new
        registry := { h.registry with store, history } } := by
  refine (Run.of_foldlM hfold).inv (I := fun a : AckState => ∃ new store history, (∀ m ∈ new, m.1 ∈ ids) ∧
    a.handler = { h with
      responseQueue := h.responseQueue ++ new
      registry := { h.registry with store, history } }) ?_ ⟨[], h.registry.store, h.registry.history, by simp, by simp⟩
  intro a id a' hid hsofar hstep
  obtain ⟨new, store, history, hnew, hframe⟩ := hsofar
  obtain ⟨new', store', history', hnew', hframe'⟩ := ackClient_frame hstep
  refine ⟨new ++ new', store', history', ?_, by simp [hframe', hframe]⟩
  intro m hm
  rcases List.mem_append.mp hm with hm | hm
  · exact hnew m hm
  · rw [hnew' m hm]
    exact hid

theorem cmdAck_frame {slaveId : Nat} {offset : Int} {epollFd : Option Int} {h' : CmdHandler} {r : CmdResult}
    (ha : cmdAck h slaveId offset epollFd = some (h', r)) :
    ∃ new registry, h' = { h with responseQueue := h.responseQueue ++ new, registry } ∧
      registry.backlogTxn = h.registry.backlogTxn ∧ registry.watchlist = h.registry.watchlist ∧
      ∀ m ∈ new, ∃ ids, h.registry.backlogAck.lookup slaveId = some ids ∧ m.1 ∈ ids := by
  obtain ⟨a, timestamps, hfold, _, _, rfl⟩ := cmdAck_cases ha
  obtain ⟨new, store, history, hnew, hframe⟩ := ackClients_frame hfold
  rw [hframe]
  refine ⟨new, _, rfl, (foldl_remove_session _ _).1, (foldl_remove_session _ _).2, fun m hm => ?_⟩
  have hmem := hnew m hm
  cases hids : h.registry.backlogAck.lookup slaveId with
  | none =>
    rw [hids] at hmem
    cases hmem
  | some ids =>
    rw [hids] at hmem
    exact ⟨ids, rfl, hmem⟩

end

/-! ## Executions -/

/-- The state a command is dispatched in; only the offset depends on more than the command. -/
def prepared (h : CmdHandler) (cmd : Cmd) (appStates : AppStates) : CmdHandler :=
  { h with registry := { h.registry.setDirty cmd with timer := h.registry.timer.tick }, appStates }

theorem requestOf_prepared {o : IterOrder} {h : CmdHandler} {epollFd : Option Int} {cmd : Cmd} {s : AppStates}
    (hs : cmd.toBeBroadcast = false → s = h.appStates) :
    requestOf o (h.prepared cmd s) epollFd cmd = requestOf o h epollFd cmd := by
  cases cmd with
  | wait =>
    rw [hs rfl]
    rfl
  | xread _ blockMs => cases blockMs <;> rfl
  | _ => rfl

theorem requestOf_wait {o : IterOrder} {h : CmdHandler} {epollFd : Option Int} {cmd : Cmd} {kind : RequestKind}
    {timeoutMs : Option Nat} (hr : requestOf o h epollFd cmd = some (kind, timeoutMs)) :
    (∃ key, kind = .list key) ∨ (∃ keyTs count, kind = .stream keyTs count) ∨
    ∃ count stats, cmd = .wait count timeoutMs ∧ h.appStates.hostStats = some stats ∧
      ¬ (count = 0 ∨ stats.offset = 0) ∧
      kind = .wait count 0 stats.offset (o.order h.clientTable.listSlave) epollFd := by
  cases cmd with
  | wait count timeout =>
    simp only [requestOf] at hr
    split at hr
    · rename_i stats hstats
      split at hr
      · cases hr
      · rename_i hno
        cases hr
        exact .inr (.inr ⟨count, stats, rfl, hstats, hno, rfl⟩)
    · cases hr
  | blpop key timeout =>
    refine .inl ⟨key, ?_⟩
    simp only [requestOf] at hr
    split at hr
    · split at hr
      · split at hr <;> cases hr
        rfl
      · cases hr
    · cases hr
      rfl
  | xread count blockMs stream =>
    cases blockMs with
    | none => cases hr
    | some ms =>
      simp only [requestOf] at hr
      split at hr
      · cases hr
      · split at hr <;> cases hr
        exact .inr (.inl ⟨_, _, rfl⟩)
  | _ => cases hr

variable {P : Platform}

/-- Outside a transaction EXEC is an error, and a transaction cannot hold EXEC. -/
theorem cmdExec_notNested {o : IterOrder} {h : CmdHandler} {clientId : Nat}
    (hn : h.registry.backlogTxn.lookup clientId = none) : NotNested (cmdExec P o) h clientId := by
  intro h' r he
  unfold cmdExec at he
  rw [hn] at he
  cases he
  rfl

theorem Executes.effect {h : CmdHandler} {label : IterOrder × Event} {x : Execution} (hx : Executes P h label x) :
    x.after = x.before ∨ ∃ appStates dispatched r epollFd isMaster serialized,
      Effect P label.1 (x.before.prepared x.cmd appStates) x.before.registry.timer.now x.clientId epollFd x.cmd
        dispatched r ∧
      dispatched.conclude label.1 x.cmd x.buf isMaster serialized r = some (x.after, x.output) ∧
      x.before.refuses x.clientId x.cmd = false ∧ (x.cmd.toBeBroadcast = false → appStates = x.before.appStates) := by
  cases hx with
  | @direct o cmd buf clientId epollFd after output htxn he =>
    rcases executeCmd_cases he with ⟨hsame, _⟩ | ⟨hno, g, dispatched, r, hp, hd, hc⟩
    · exact Or.inl hsame
    · obtain ⟨s, hs, rfl⟩ := prepare_frame hp
      have hopen : (h.prepared cmd s).registry.backlogTxn.lookup clientId = none :=
        AList.lookup_eq_none.mpr (of_decide_eq_false htxn)
      exact Or.inr ⟨s, dispatched, r, _, _, _, dispatch_effect (cmdExec_notNested hopen) hd, hc, hno, hs⟩
  | @queued o buf clientId epollFd pre q post before resps after output _ _ _ he =>
    rcases executeCmd_cases he with ⟨hsame, _⟩ | ⟨hno, g, dispatched, r, hp, hd, hc⟩
    · exact Or.inl hsame
    · obtain ⟨s, hs, rfl⟩ := prepare_frame hp
      exact Or.inr ⟨s, dispatched, r, _, _, _, dispatch_effect (fun _ _ h => by cases h) hd, hc, hno, hs⟩

end

end CmdHandler

end Redis
