import Redis.Calls

/-!
# Keys that have expired

An item with a deadline stays in the key space when the deadline has passed, and
only GET looks at it. In a run only strings have deadlines, so a command on an
expired key goes as if there were no key just where it does not tell the string
from nothing: `Overlooks`.
-/

namespace Redis

open Lib

namespace CmdHandler

def OnlyStringsExpire (data : Data) : Prop :=
  ∀ key item, data.lookup key = some item → item.expiredAt ≠ none → ∃ s, item.value = .str s

/-- As GET checks it. -/
def expired (now : Nat) (item : StoreItem) : Bool := item.expiredAt.any (· < now)

def live (data : Data) (now : Nat) (key : String) : Option StoreItem :=
  (data.lookup key).filter fun item => !expired now item

def shown (now : Nat) (key : String) (r : CmdHandler × CmdResult) : CmdResult × Option StoreItem :=
  (r.2, live r.1.data now key)

def without (h : CmdHandler) (key : String) : CmdHandler := { h with data := h.data.erase key }

/-- The answer and what is left of the key are as if it had been removed before. -/
def AsAbsent (P : Platform) (o : IterOrder) (exec : CmdHandler → Nat → Option (CmdHandler × CmdResult)) (h : CmdHandler)
    (now clientId : Nat) (epollFd : Option Int) (cmd : Cmd) (key : String) : Prop :=
  (dispatch P o exec h now (h.isSubscriber clientId) clientId epollFd cmd).map (shown now key) =
    (dispatch P o exec (h.without key) now (h.isSubscriber clientId) clientId epollFd cmd).map (shown now key)

def Touches (key : String) : Cmd → Prop
  | .keys _ => True
  | .xread _ _ stream => ∃ s ∈ stream, s.1 = key
  | .bitop (.and dest key1 key2) | .bitop (.or dest key1 key2) => dest = key ∨ key1 = key ∨ key2 = key
  | .set k .. | .get k | .rpush k _ | .lrange k .. | .lpush k _ | .llen k | .lpop k _ | .blpop k _ | .type k
  | .xadd k .. | .xrange k .. | .incr k | .zadd k .. | .zrank k _ | .zrange k .. | .zcard k | .zscore k _
  | .zrem k _ | .geoadd k .. | .geopos k _ | .geodist k _ | .geosearch k .. | .setbit k .. | .getbit k _
  | .strlen k | .bitcount k _ => k = key
  | _ => False

def bytesWithout (key source : String) (map : Bytes) : Bytes := if source = key then [] else map

/-- The sources are as long, and, if the key is overwritten, the same bytes come out. -/
def BitopOverlooks (op : UInt8 → UInt8 → UInt8) (data : Data) (key dest key1 key2 : String) : Prop :=
  ∀ map1, bitopSource data key1 = .ok map1 → ∀ map2, bitopSource data key2 = .ok map2 →
    max (bytesWithout key key1 map1).length (bytesWithout key key2 map2).length = max map1.length map2.length ∧
    (dest = key → ∀ i, op ((bytesWithout key key1 map1).getD i 0) ((bytesWithout key key2 map2).getD i 0) =
      op (map1.getD i 0) (map2.getD i 0))

/-- The command does not tell the string from a missing key: it checks the
deadline or overwrites the key, or it looks for bits and the string has none,
or it fails before it gets to the key. -/
def Overlooks (data : Data) (key s : String) : Cmd → Prop
  | .set .. | .get _ => True
  | .keys arg => arg ≠ "*"
  | .getbit _ offset => bitOf (utf8 s) offset = 0
  | .bitcount _ range => BitOps.bitCount (utf8 s) range = 0
  | .xread _ _ stream => ∃ s, stream.find? (fun s => notStream data s.1) = some s ∧ s.1 ≠ key
  | .bitop (.and dest key1 key2) => BitopOverlooks (· &&& ·) data key dest key1 key2
  | .bitop (.or dest key1 key2) => BitopOverlooks (· ||| ·) data key dest key1 key2
  | _ => False

/-! ## What expires in a run -/

section
variable {data : Data} {key : String}

namespace OnlyStringsExpire

theorem congr {data' : Data} (h : OnlyStringsExpire data) (hsame : ∀ key, data'.lookup key = data.lookup key) :
    OnlyStringsExpire data' := by
  intro key item hl
  rw [hsame] at hl
  exact h key item hl

theorem change {data' : Data} (h : OnlyStringsExpire data) (hother : ∀ k, k ≠ key → data'.lookup k = data.lookup k)
    (hkey : ∀ item, data'.lookup key = some item → item.expiredAt ≠ none → ∃ s, item.value = .str s) :
    OnlyStringsExpire data' := by
  intro k item hl
  by_cases hk : k = key
  · subst hk
    exact hkey item hl
  · rw [hother k hk] at hl
    exact h k item hl

theorem insert (h : OnlyStringsExpire data) {item : StoreItem}
    (hi : item.expiredAt ≠ none → ∃ s, item.value = .str s) : OnlyStringsExpire (data.insert key item) := by
  refine h.change (fun k hk => AList.lookup_insert_ne hk) fun item' hl => ?_
  rw [AList.lookup_insert] at hl
  cases hl
  exact hi

theorem erase (h : OnlyStringsExpire data) : OnlyStringsExpire (data.erase key) := by
  refine h.change (fun k hk => AList.lookup_erase_ne hk) fun item hl => ?_
  rw [AList.lookup_erase] at hl
  cases hl

theorem orInsert (h : OnlyStringsExpire data) (value : StoreValue) :
    OnlyStringsExpire (HashMap.orInsert key { value, expiredAt := none } data) := by
  unfold HashMap.orInsert
  split
  · exact h
  · exact h.insert fun hx => absurd rfl hx

theorem modify (h : OnlyStringsExpire data) {item : StoreItem} (hl : data.lookup key = some item)
    {f : StoreItem → StoreItem} (hx : (f item).expiredAt = item.expiredAt)
    (hv : (∃ s, item.value = .str s) → ∃ s, (f item).value = .str s) : OnlyStringsExpire (data.modify key f) := by
  refine h.change (fun k hk => HashMap.lookup_modify_ne hk _ _) fun item' hl' hx' => ?_
  rw [HashMap.lookup_modify, hl] at hl'
  cases hl'
  rw [hx] at hx'
  exact hv (h key item hl hx')

theorem setList (h : OnlyStringsExpire data) {list items : List String} {x : Option Nat}
    (hl : data.lookup key = some ⟨.list list, x⟩) : OnlyStringsExpire (setList data key items) :=
  h.modify hl rfl fun ⟨_, hs⟩ => by cases hs

theorem push (h : OnlyStringsExpire data) (extend : List String → List String) :
    OnlyStringsExpire (push extend data key).1 := by
  unfold CmdHandler.push
  simp only
  split
  · rename_i hl
    exact (h.orInsert _).modify hl rfl fun ⟨_, hs⟩ => by cases hs
  · exact h.orInsert _

theorem lpop (h : OnlyStringsExpire data) (length : Option Nat) : OnlyStringsExpire (cmdLpop data key length).1 := by
  unfold cmdLpop
  split
  · rename_i item hl
    split
    · rename_i items hv
      obtain ⟨value, x⟩ := item
      obtain rfl : value = .list items := hv
      split
      · exact h.setList hl
      · split
        · exact h.setList hl
        · exact h
    · exact h
  · exact h

theorem blpop (h : OnlyStringsExpire data) (registry : RequestRegistry) (timeoutMs : Option Nat) (clientId now : Nat) :
    OnlyStringsExpire (cmdBlpop data registry key timeoutMs clientId now).1.1 := by
  generalize hb : cmdBlpop data registry key timeoutMs clientId now = b
  obtain ⟨⟨data', registry'⟩, r⟩ := b
  rcases cmdBlpop_cases hb with ⟨s, items, x, hl, _, rfl, _⟩ | ⟨rfl, _⟩ | ⟨_, rfl, _⟩
  · exact h.setList hl
  · exact h
  · exact h

theorem incr (h : OnlyStringsExpire data) : OnlyStringsExpire (cmdIncr data key).1 := by
  unfold cmdIncr
  simp only
  split
  · rename_i hl
    split
    · split
      · exact (h.orInsert _).modify hl rfl fun _ => ⟨_, rfl⟩
      · exact h.orInsert _
    · exact h.orInsert _
  · exact h.orInsert _

theorem xadd (h : OnlyStringsExpire data) (id : Option Nat × Option Nat) (value : List String) (now : Nat) :
    OnlyStringsExpire (cmdXadd data key id value now).1 := by
  unfold cmdXadd
  simp only
  split
  · rename_i hl
    split
    · exact h.orInsert _
    · exact (h.orInsert _).modify hl rfl fun ⟨_, hs⟩ => by cases hs
  · exact h.orInsert _

theorem addMember (h : OnlyStringsExpire data) {score : F64} {member : String} {data' : Data} {r : CmdResult}
    (ha : addMember data key score member = some (data', r)) : OnlyStringsExpire data' := by
  unfold CmdHandler.addMember at ha
  split at ha
  · rename_i hl
    obtain ⟨_, _, hset⟩ := Option.map_eq_some_iff.mp ha
    cases hset
    exact h.modify hl rfl fun ⟨_, hs⟩ => by cases hs
  · cases ha
    exact h

theorem zrem (h : OnlyStringsExpire data) {member : String} {data' : Data} {r : CmdResult}
    (hz : cmdZrem data key member = some (data', r)) : OnlyStringsExpire data' := by
  unfold cmdZrem at hz
  split at hz
  · rename_i hl
    obtain ⟨_, _, hset⟩ := Option.map_eq_some_iff.mp hz
    cases hset
    exact h.modify hl rfl fun ⟨_, hs⟩ => by cases hs
  · cases hz
    exact h
  · cases hz
    exact h

theorem geoadd (h : OnlyStringsExpire data) {P : Platform} {long lat member : String} {data' : Data} {r : CmdResult}
    (hg : cmdGeoadd P data key long lat member = some (data', r)) : OnlyStringsExpire data' := by
  unfold cmdGeoadd at hg
  simp only at hg
  split at hg
  · cases hg
    exact h.orInsert _
  · exact (h.orInsert _).addMember hg

theorem setbit (h : OnlyStringsExpire data) (offset bit : Nat) :
    OnlyStringsExpire (cmdSetbit data key offset bit).1 := by
  unfold cmdSetbit
  simp only
  split
  · rename_i hl
    split
    · split
      · exact (h.orInsert _).modify hl rfl fun ⟨_, hs⟩ => by cases hs
      · exact h.orInsert _
    · exact h.orInsert _
  · exact h.orInsert _

theorem bitop (h : OnlyStringsExpire data) (args : CmdArg) : OnlyStringsExpire (cmdBitop data args).1 := by
  have hone : ∀ op dest key1 key2, OnlyStringsExpire (CmdHandler.bitop op data dest key1 key2).1 := by
    intro op dest key1 key2
    unfold CmdHandler.bitop
    split
    · exact h
    · split
      · exact h
      · simp only
        split
        · exact h.erase
        · exact h.insert fun hx => absurd rfl hx
  cases args with
  | and | or => exact hone _ _ _ _
  | _ => exact h

end OnlyStringsExpire

end

section
variable {P : Platform} {o : IterOrder}

theorem dispatch_expiring {exec : CmdHandler → Nat → Option (CmdHandler × CmdResult)} {h h' : CmdHandler} {now : Nat}
    {isSubscriber : Bool} {clientId : Nat} {epollFd : Option Int} {cmd : Cmd} {r : CmdResult}
    (hexec : NotNested exec h clientId)
    (hd : dispatch P o exec h now isSubscriber clientId epollFd cmd = some (h', r)) (he : OnlyStringsExpire h.data) :
    OnlyStringsExpire h'.data := by
  have hread : cmd.target = none → OnlyStringsExpire h'.data := by
    intro hno
    refine he.congr fun key => by_contra fun hne => ?_
    have hkey := ((dispatch_effect hexec hd).data key hne).1
    rw [hno] at hkey
    cases hkey
  cases cmd with
  | set =>
    obtain ⟨_, hs, hset⟩ := Option.map_eq_some_iff.mp hd
    cases hset
    obtain ⟨_, _, hset⟩ := Option.map_eq_some_iff.mp hs
    cases hset
    exact he.insert fun _ => ⟨_, rfl⟩
  | rpush | lpush =>
    cases hd
    exact he.push _
  | lpop =>
    cases hd
    exact he.lpop _
  | blpop =>
    cases hd
    exact he.blpop _ _ _ _
  | incr =>
    cases hd
    exact he.incr
  | xadd =>
    cases hd
    exact he.xadd _ _ _
  | zadd =>
    obtain ⟨_, hz, hset⟩ := Option.map_eq_some_iff.mp hd
    cases hset
    exact (he.orInsert _).addMember hz
  | zrem =>
    obtain ⟨_, hz, hset⟩ := Option.map_eq_some_iff.mp hd
    cases hset
    exact he.zrem hz
  | geoadd =>
    obtain ⟨_, hg, hset⟩ := Option.map_eq_some_iff.mp hd
    cases hset
    exact he.geoadd hg
  | setbit =>
    cases hd
    exact he.setbit _ _
  | bitop =>
    cases hd
    exact he.bitop _
  | _ => exact hread rfl

theorem executeCmd_expiring {exec : CmdHandler → Nat → Option (CmdHandler × CmdResult)} {h h' : CmdHandler} {cmd : Cmd}
    {buf : Bytes} {clientId : Nat} {epollFd : Option Int} {serialized : Bool} {out : Except CmdOutput CmdOutput}
    (hexec : ∀ s, NotNested exec (h.prepared cmd s) clientId)
    (hc : h.executeCmd P o exec cmd buf clientId epollFd serialized = some (h', out)) (he : OnlyStringsExpire h.data) :
    OnlyStringsExpire h'.data := by
  rcases executeCmd_cases hc with ⟨rfl, _⟩ | ⟨_, g, dispatched, r, hp, hd, hlast⟩
  · exact he
  · obtain ⟨s, _, rfl⟩ := prepare_frame hp
    rw [conclude_data hlast]
    exact dispatch_expiring (hexec s) hd he

theorem expiring_records (rs : List Rdb.Record) {data : Data} (he : OnlyStringsExpire data) :
    OnlyStringsExpire (rs.foldl Rdb.insertRecord data) := by
  induction rs generalizing data with
  | nil => exact he
  | cons r rs ih => exact ih (he.insert fun _ => ⟨r.value, rfl⟩)

theorem backlogTask_expiring {h : CmdHandler} (entry : RequestEntry) (he : OnlyStringsExpire h.data) :
    OnlyStringsExpire (h.backlogTask entry).data := by
  unfold backlogTask
  split
  · split
    · rename_i hl
      exact he.setList hl
    · exact he
  · split <;> exact he
  · exact he

theorem step_expiring {h h' : CmdHandler} {label : IterOrder × Event} (hs : Steps P h label h')
    (he : OnlyStringsExpire h.data) : OnlyStringsExpire h'.data := by
  obtain ⟨o, e⟩ := label
  have hserve : ∀ served ts, OnlyStringsExpire (h.serve served ts).data := fun served ts =>
    serve_inv (I := fun g => OnlyStringsExpire g.data) he fun _ _ entry _ _ hg => backlogTask_expiring entry hg
  cases e with
  | handle cmd buf clientId epollFd =>
    obtain ⟨⟨g, out⟩, hh, rfl⟩ := Option.map_eq_some_iff.mp hs
    refine handle_inv (I := fun g => OnlyStringsExpire g.data) (fun _ _ _ hg => hg) (fun x hx hg => ?_) hh he
    cases hx with
    | direct hclosed hd =>
      exact executeCmd_expiring
        (fun _ => cmdExec_notNested (AList.lookup_eq_none.mpr (of_decide_eq_false hclosed))) hd hg
    | queued _ _ _ hq => exact executeCmd_expiring (fun _ _ _ hno => by cases hno) hq hg
  | serveBacklogList =>
    cases hs
    unfold serveBacklogList
    split
    · exact hserve _ _
    · exact he
  | serveBacklogStream =>
    cases hs
    rw [serveBacklogStream_data]
    exact he
  | expire =>
    rw [callbackDeadlineExpire_data (step_expire hs).2]
    exact he
  | process =>
    cases hs
    exact he

end

/-! ## One command on an expired string -/

section
variable {P : Platform} {o : IterOrder} {h : CmdHandler} {data : Data} {key s : String} {x now : Nat}

theorem live_expired (hl : data.lookup key = some ⟨.str s, some x⟩) (hx : x < now) : live data now key = none := by
  simp [live, hl, expired, hx]

theorem live_absent (hl : data.lookup key = none) : live data now key = none := by
  simp [live, hl]

theorem live_fresh {value : StoreValue} (hl : data.lookup key = some ⟨value, none⟩) :
    live data now key = some ⟨value, none⟩ := by
  simp [live, hl, expired]

theorem unsupported_inj {k k' : String} : unsupported k = unsupported k' ↔ k = k' := by
  simp [unsupported]

theorem shown_read (hl : h.data.lookup key = some ⟨.str s, some x⟩) (hx : x < now) (r r' : CmdResult) :
    shown now key (h, r) = shown now key (h.without key, r') ↔ r = r' := by
  simp [shown, live_expired hl hx, without, live_absent (AList.lookup_erase _ _)]

theorem shown_made (hl : h.data.lookup key = some ⟨.str s, some x⟩) (hx : x < now) {h' : CmdHandler} {r r' : CmdResult}
    {value : StoreValue} (hm : h'.data.lookup key = some ⟨value, none⟩) :
    shown now key (h, r) ≠ shown now key (h', r') := by
  intro heq
  have hlive := congrArg Prod.snd heq
  simp only [shown, live_expired hl hx, live_fresh hm] at hlive
  cases hlive

theorem keys_shorter (hl : data.lookup key = some ⟨.str s, some x⟩) :
    reply (.arrayOf ((o.order data.keys).map .bulk)) ≠
      reply (.arrayOf ((o.order (data.erase key).keys).map .bulk)) := by
  have hin : key ∈ data.keys := AList.mem_keys.mp (HashMap.mem_of_lookup hl)
  have hlen : (data.erase key).keys.length < data.keys.length := by
    rw [AList.keys_erase, List.length_erase_of_mem hin]
    have := List.length_pos_of_mem hin
    omega
  intro heq
  simp only [reply, RespType.arrayOf, Except.ok.injEq, Option.some.injEq, RespType.array.injEq, List.length_map] at heq
  have hsame := heq.1
  rw [(o.perm _).length_eq, (o.perm _).length_eq] at hsame
  omega

/-- A stream command that reads the key fails on the string, or on a key before it. -/
theorem xread_overlooks (now : Nat) (hl : data.lookup key = some ⟨.str s, some x⟩) {stream : List (String × Nat × Nat)}
    (ht : ∃ s ∈ stream, s.1 = key) (registry : RequestRegistry) (count block : Option Nat) (clientId : Nat) :
    (cmdXread data registry count block stream clientId now).2 =
      (cmdXread (data.erase key) registry count block stream clientId now).2 ↔
    ∃ s, stream.find? (fun s => notStream data s.1) = some s ∧ s.1 ≠ key := by
  have hkey : notStream data key = true := by simp [notStream, hl]
  have hgone : notStream (data.erase key) key = false := by simp [notStream, AList.lookup_erase]
  have hother : ∀ k, k ≠ key → notStream (data.erase key) k = notStream data k := fun k hk => by
    simp [notStream, AList.lookup_erase_ne hk]
  have herr : ∀ {d : Data} {first}, stream.find? (fun s => notStream d s.1) = some first →
      (cmdXread d registry count block stream clientId now).2 = .error (unsupported first.1) := by
    intro d first hf
    simp [cmdXread, hf]
  obtain ⟨first, hf⟩ : ∃ first, stream.find? (fun s => notStream data s.1) = some first := by
    obtain ⟨e, he, hek⟩ := ht
    refine Option.isSome_iff_exists.mp (List.find?_isSome.mpr ⟨e, he, ?_⟩)
    rw [hek, hkey]
  rw [herr hf]
  constructor
  · intro heq
    refine ⟨first, hf, fun hfirst => ?_⟩
    rw [hfirst] at heq
    cases hf' : stream.find? (fun s => notStream (data.erase key) s.1) with
    | some next =>
      rw [herr hf'] at heq
      have hnext : next.1 = key := by simpa [unsupported_inj, eq_comm] using heq
      have := List.find?_some hf'
      rw [hnext, hgone] at this
      cases this
    | none =>
      unfold cmdXread at heq
      rw [hf'] at heq
      simp only at heq
      split at heq
      · cases heq
      · split at heq <;> cases heq
  · rintro ⟨e, he, hne⟩
    obtain rfl : first = e := Option.some.inj (hf.symm.trans he)
    have hsame : stream.find? (fun s => notStream (data.erase key) s.1) = some first := by
      obtain ⟨hp, pre, post, rfl, hpre⟩ := List.find?_eq_some_iff_append.mp hf
      refine List.find?_eq_some_iff_append.mpr ⟨by rw [hother _ hne]; exact hp, pre, post, rfl, fun a ha => ?_⟩
      by_cases hak : a.1 = key
      · rw [hak, hgone]
        rfl
      · rw [hother _ hak]
        exact hpre a ha
    rw [herr hsame]

theorem bitopSource_erase {source : String} (hl : data.lookup key = some ⟨.str s, some x⟩) :
    bitopSource (data.erase key) source = (bitopSource data source).map (bytesWithout key source) := by
  by_cases hk : source = key
  · subst hk
    simp [bitopSource, AList.lookup_erase, hl, bytesOf, Except.map, bytesWithout]
  · have hsame : bitopSource (data.erase key) source = bitopSource data source := by
      simp [bitopSource, AList.lookup_erase_ne hk]
    rw [hsame]
    cases bitopSource data source <;> simp [Except.map, bytesWithout, hk]

theorem combine_eq (op : UInt8 → UInt8 → UInt8) {map1 map2 map1' map2' : Bytes}
    (hlen : max map1'.length map2'.length = max map1.length map2.length) :
    BitOps.combine op map1 map2 = BitOps.combine op map1' map2' ↔
      ∀ i, op (map1'.getD i 0) (map2'.getD i 0) = op (map1.getD i 0) (map2.getD i 0) := by
  simp only [BitOps.combine, hlen]
  constructor
  · intro heq i
    by_cases hi : i < max map1.length map2.length
    · exact (List.map_inj_left.mp heq i (List.mem_range.mpr hi)).symm
    · have hout : ∀ {m : Bytes}, m.length ≤ i → m.getD i 0 = 0 := fun h => by simp [List.getElem?_eq_none h]
      rw [hout (by omega), hout (by omega), hout (by omega), hout (by omega)]
  · intro heq
    exact List.map_inj_left.mpr fun i _ => (heq i).symm

theorem bitmapItem_inj {map map' : Bytes} :
    ((if map.isEmpty then none else some (⟨.bitmap map, none⟩ : StoreItem)) =
      if map'.isEmpty then none else some ⟨.bitmap map', none⟩) ↔ map = map' := by
  cases map <;> cases map' <;> simp

theorem live_bitop (data : Data) (dest : String) (output : Bytes) :
    live (if output.isEmpty then data.erase dest else data.insert dest { value := .bitmap output, expiredAt := none })
      now key = if dest = key then
          (if output.isEmpty then none else some ⟨.bitmap output, none⟩) else live data now key := by
  by_cases hk : dest = key
  · subst hk
    rw [if_pos rfl]
    split
    · exact live_absent (AList.lookup_erase _ _)
    · exact live_fresh (AList.lookup_insert _)
  · rw [if_neg hk]
    unfold live
    split
    · rw [AList.lookup_erase_ne (Ne.symm hk)]
    · rw [AList.lookup_insert_ne (Ne.symm hk)]

theorem bitop_overlooks (op : UInt8 → UInt8 → UInt8) (hl : h.data.lookup key = some ⟨.str s, some x⟩) (hx : x < now)
    (dest key1 key2 : String) :
    shown now key (h.withData (bitop (BitOps.combine op) h.data dest key1 key2)) =
      shown now key ((h.without key).withData (bitop (BitOps.combine op) (h.without key).data dest key1 key2)) ↔
    BitopOverlooks op h.data key dest key1 key2 := by
  have hgone : live (h.data.erase key) now key = none := live_absent (AList.lookup_erase _ _)
  unfold BitopOverlooks bitop
  simp only [without, bitopSource_erase hl]
  cases h1 : bitopSource h.data key1 with
  | error e => simp [Except.map, shown, withData, live_expired hl hx, hgone]
  | ok map1 =>
    cases h2 : bitopSource h.data key2 with
    | error e => simp [Except.map, shown, withData, live_expired hl hx, hgone]
    | ok map2 =>
      simp only [Except.map, shown, withData, live_bitop, BitOps.length_combine, reply, Prod.mk.injEq, Except.ok.injEq,
        Option.some.injEq, RespType.integer.injEq, Int.ofNat_inj, live_expired hl hx, hgone, forall_eq']
      rw [eq_comm (a := max map1.length map2.length)]
      refine and_congr_right fun hlen => ?_
      by_cases hk : dest = key
      · rw [if_pos hk, if_pos hk, bitmapItem_inj, combine_eq op hlen]
        simp only [hk, forall_const]
      · simp [hk]

/-! ### Commands that make a missing key -/

section
variable {value : StoreValue} {f : StoreItem → StoreItem}

theorem orInsert_expired (hl : data.lookup key = some ⟨.str s, some x⟩) (item : StoreItem) :
    HashMap.orInsert key item data = data :=
  orInsert_known (HashMap.mem_of_lookup hl) item

theorem orInsert_made (hl : data.lookup key = none) (value : StoreValue) :
    (HashMap.orInsert key { value, expiredAt := none } data).lookup key = some ⟨value, none⟩ :=
  lookup_orInsert_absent (AList.lookup_eq_none.mp hl) _

theorem modify_made {item : StoreItem} (hl : data.lookup key = some item) (hf : (f item).expiredAt = none) :
    ∃ value, (data.modify key f).lookup key = some ⟨value, none⟩ :=
  ⟨(f item).value, by rw [HashMap.lookup_modify, hl, Option.map_some, ← hf]⟩

theorem push_expired (hl : data.lookup key = some ⟨.str s, some x⟩) (extend : List String → List String) :
    push extend data key = (data, .error (unsupported key)) := by
  simp [push, orInsert_expired hl, hl]

theorem push_made (hl : data.lookup key = none) (extend : List String → List String) :
    ∃ value, (push extend data key).1.lookup key = some ⟨value, none⟩ := by
  simp only [push, orInsert_made hl]
  exact modify_made (orInsert_made hl _) rfl

theorem incr_expired (hl : data.lookup key = some ⟨.str s, some x⟩) :
    ∃ s', (cmdIncr data key).1.lookup key = some ⟨.str s', some x⟩ := by
  simp only [cmdIncr, orInsert_expired hl, hl]
  split
  · split
    · exact ⟨_, by rw [HashMap.lookup_modify, hl]; rfl⟩
    · exact ⟨s, hl⟩
  · exact ⟨s, hl⟩

theorem incr_made (hl : data.lookup key = none) :
    ∃ value, (cmdIncr data key).1.lookup key = some ⟨value, none⟩ := by
  simp only [cmdIncr, orInsert_made hl]
  split
  · split
    · exact modify_made (orInsert_made hl _) rfl
    · exact ⟨_, orInsert_made hl _⟩
  · exact ⟨_, orInsert_made hl _⟩

theorem xadd_expired (hl : data.lookup key = some ⟨.str s, some x⟩) (id : Option Nat × Option Nat)
    (value : List String) :
    cmdXadd data key id value now = (data, .error (unsupported key)) := by
  simp [cmdXadd, orInsert_expired hl, hl]

theorem xadd_made (now : Nat) (hl : data.lookup key = none) (id : Option Nat × Option Nat) (value : List String) :
    ∃ value', (cmdXadd data key id value now).1.lookup key = some ⟨value', none⟩ := by
  simp only [cmdXadd, orInsert_made hl]
  split
  · exact ⟨_, orInsert_made hl _⟩
  · exact modify_made (orInsert_made hl _) rfl

theorem addMember_expired (hl : data.lookup key = some ⟨.str s, some x⟩) (score : F64) (member : String) :
    addMember (orNewZSet data key) key score member = some (data, .error wrongType) := by
  simp [addMember, orNewZSet, orInsert_expired hl, hl]

theorem addMember_made (hl : data.lookup key = none) {score : F64} {member : String} {data' : Data} {r : CmdResult}
    (ha : addMember (orNewZSet data key) key score member = some (data', r)) :
    ∃ value, data'.lookup key = some ⟨value, none⟩ := by
  simp only [addMember, orNewZSet, orInsert_made hl] at ha
  obtain ⟨_, _, hset⟩ := Option.map_eq_some_iff.mp ha
  cases hset
  exact modify_made (orInsert_made hl _) rfl

theorem geoadd_expired (hl : data.lookup key = some ⟨.str s, some x⟩) (long lat member : String) :
    ∃ e, cmdGeoadd P data key long lat member = some (data, .error e) := by
  unfold cmdGeoadd
  simp only
  split
  · rename_i e _
    exact ⟨e, by rw [orNewZSet, orInsert_expired hl]⟩
  · exact ⟨wrongType, addMember_expired hl _ _⟩

theorem geoadd_made (hl : data.lookup key = none) {long lat member : String} {data' : Data} {r : CmdResult}
    (hg : cmdGeoadd P data key long lat member = some (data', r)) : ∃ value, data'.lookup key = some ⟨value, none⟩ := by
  unfold cmdGeoadd at hg
  simp only at hg
  split at hg
  · cases hg
    exact ⟨_, orInsert_made hl _⟩
  · exact addMember_made hl hg

theorem setbit_expired (hl : data.lookup key = some ⟨.str s, some x⟩) (offset bit : Nat) :
    cmdSetbit data key offset bit = (data, .error .dummy) := by
  simp [cmdSetbit, orInsert_expired hl, hl]

theorem setbit_made (hl : data.lookup key = none) (offset bit : Nat) :
    ∃ value, (cmdSetbit data key offset bit).1.lookup key = some ⟨value, none⟩ := by
  simp only [cmdSetbit, orInsert_made hl]
  split
  · split
    · exact modify_made (orInsert_made hl _) rfl
    · exact ⟨_, orInsert_made hl _⟩
  · exact ⟨_, orInsert_made hl _⟩

end

/-- The command answers and leaves the same as if the expired string were not there. -/
theorem asAbsent_iff {exec : CmdHandler → Nat → Option (CmdHandler × CmdResult)} {clientId : Nat} {epollFd : Option Int}
    {cmd : Cmd} (hl : h.data.lookup key = some ⟨.str s, some x⟩) (hx : x < now) (ht : Touches key cmd) :
    AsAbsent P o exec h now clientId epollFd cmd key ↔ Overlooks h.data key s cmd := by
  unfold AsAbsent
  have hgone : (h.data.erase key).lookup key = none := AList.lookup_erase _ _
  have hdata : (h.without key).data = h.data.erase key := rfl
  cases cmd with
  | set k value opt =>
    obtain rfl : k = key := ht
    simp only [dispatch, cmdSet, hdata, Overlooks, iff_true]
    cases extractDeadline opt now with
    | none => rfl
    | some exp => simp [withData, shown, live]
  | get k =>
    obtain rfl : k = key := ht
    simp only [dispatch, Option.map_some, Option.some.injEq, shown_read hl hx]
    simp [cmdGet, hl, hgone, hdata, hx, Overlooks]
  | keys arg =>
    simp only [dispatch, Option.map_some, Option.some.injEq, shown_read hl hx, hdata, cmdKeys, Overlooks]
    by_cases ha : arg = "*"
    · simpa [ha] using keys_shorter hl
    · simp [ha]
  | xread count block stream =>
    have hother := xread_overlooks now hl ht h.registry count block clientId
    simp only [Overlooks, ← hother]
    simp only [dispatch, Option.map_some, Option.some.injEq, shown, withRegistry, live_expired hl hx, hdata,
      live_absent hgone, Prod.mk.injEq, and_true]
    rfl
  | bitop args =>
    cases args with
    | and dest key1 key2 =>
      simp only [dispatch, Option.map_some, Option.some.injEq]
      exact bitop_overlooks _ hl hx dest key1 key2
    | or dest key1 key2 =>
      simp only [dispatch, Option.map_some, Option.some.injEq]
      exact bitop_overlooks _ hl hx dest key1 key2
    | _ => exact ht.elim
  | lrange k | llen k | type k | geosearch k | getbit k | strlen k | bitcount k =>
    obtain rfl : k = key := ht
    simp only [dispatch, Option.map_some, Option.some.injEq, shown_read hl hx]
    simp [cmdLrange, cmdLlen, cmdType, cmdGeosearch, cmdGetbit, cmdStrlen, cmdBitcount, hl, hgone, hdata, Overlooks,
      reply, bytesOf, StoreValue.getType]
  | xrange k | zrank k | zrange k | zcard k | zscore k | geopos k | geodist k =>
    obtain rfl : k = key := ht
    simp [dispatch, shown_read hl hx, cmdXrange, cmdZrank, cmdZrange, cmdZcard, cmdZscore, cmdGeopos, cmdGeodist,
      withZSet, hl, hgone, hdata, Overlooks, reply]
  | lpop k | blpop k =>
    obtain rfl : k = key := ht
    simp [dispatch, shown, withData, cmdLpop, cmdBlpop, hl, hgone, hdata, Overlooks, reply]
  | rpush k | lpush k =>
    obtain rfl : k = key := ht
    refine iff_of_false (fun heq => ?_) id
    obtain ⟨_, hm⟩ := push_made hgone _
    simp only [dispatch, Option.map_some, Option.some.injEq, cmdRpush, cmdLpush, push_expired hl] at heq
    exact shown_made hl hx hm heq
  | xadd k given value =>
    obtain rfl : k = key := ht
    refine iff_of_false (fun heq => ?_) id
    obtain ⟨_, hm⟩ := xadd_made now hgone given value
    simp only [dispatch, Option.map_some, Option.some.injEq, xadd_expired hl] at heq
    exact shown_made hl hx hm heq
  | incr k =>
    obtain rfl : k = key := ht
    refine iff_of_false (fun heq => ?_) id
    obtain ⟨_, hstill⟩ := incr_expired hl
    obtain ⟨_, hm⟩ := incr_made hgone
    exact shown_made (h := (h.withData (cmdIncr h.data k)).1) hstill hx hm (Option.some.inj heq)
  | setbit k offset bit =>
    obtain rfl : k = key := ht
    refine iff_of_false (fun heq => ?_) id
    obtain ⟨_, hm⟩ := setbit_made hgone offset bit
    simp only [dispatch, Option.map_some, Option.some.injEq, setbit_expired hl] at heq
    exact shown_made hl hx hm heq
  | zadd k score member =>
    obtain rfl : k = key := ht
    refine iff_of_false (fun heq => ?_) id
    simp only [dispatch, cmdZadd, addMember_expired hl, hdata] at heq
    cases ha : addMember (orNewZSet (h.data.erase k) k) k score member with
    | none =>
      rw [ha] at heq
      cases heq
    | some r =>
      obtain ⟨_, hm⟩ := addMember_made hgone ha
      rw [ha] at heq
      exact shown_made hl hx hm (Option.some.inj heq)
  | zrem k =>
    obtain rfl : k = key := ht
    simp [dispatch, shown, withData, cmdZrem, hl, hgone, hdata, Overlooks, reply]
  | geoadd k long lat member =>
    obtain rfl : k = key := ht
    refine iff_of_false (fun heq => ?_) id
    obtain ⟨e, he⟩ := geoadd_expired (P := P) hl long lat member
    simp only [dispatch, he, hdata] at heq
    cases hg : cmdGeoadd P (h.data.erase k) k long lat member with
    | none =>
      rw [hg] at heq
      cases heq
    | some r =>
      obtain ⟨_, hm⟩ := geoadd_made hgone hg
      rw [hg] at heq
      exact shown_made hl hx hm (Option.some.inj heq)
  | _ => exact ht.elim

theorem Executing.expiring {start h : CmdHandler} (hr : Executing P start h) (he : OnlyStringsExpire start.data) :
    OnlyStringsExpire h.data :=
  hr.inv (I := fun h => OnlyStringsExpire h.data) (fun _ _ _ he hs => step_expiring hs he) (fun _ _ he => he)
    (fun _ _ _ _ _ _ he hq => executeCmd_expiring (fun _ _ _ hno => by cases hno) hq he) he

/-- A file gives deadlines to strings only, too. -/
theorem Begun.expiring {Good : CmdHandler → IterOrder × Event → Prop} {timer : Timer} {appStates : AppStates}
    {h : CmdHandler} (hb : Begun P Good timer appStates h) : OnlyStringsExpire h.data := by
  induction hb with
  | new => exact fun _ _ hl => by cases hl
  | replayed _ _ hs ih => exact step_expiring hs.2 ih
  | loaded _ hl ih =>
    rcases loadRdb_cases hl with rfl | ⟨_, _, _, hread, rfl⟩
    · exact ih
    · obtain ⟨rs, _, rfl⟩ := Rdb.holds_of_read hread
      exact expiring_records rs fun _ _ hl => by cases hl
  | opened _ _ _ ih => exact ih

/-- In a run of what is handed to the loop, a command on a key that has expired goes
as without the key if and only if it overlooks the string. -/
theorem run_asAbsent_iff {Good : CmdHandler → IterOrder × Event → Prop} {timer : Timer} {appStates : AppStates}
    {start h : CmdHandler} (hb : Begun P Good timer appStates start) (hr : Executing P start h) {key : String}
    {item : StoreItem} (hl : h.data.lookup key = some item)
    (hx : expired h.registry.timer.now item = true) {cmd : Cmd} (ht : Touches key cmd)
    (exec : CmdHandler → Nat → Option (CmdHandler × CmdResult)) (counted : AppStates) (clientId : Nat)
    (epollFd : Option Int) :
    AsAbsent P o exec (h.prepared cmd counted) h.registry.timer.now clientId epollFd cmd key ↔
      ∃ s, item.value = .str s ∧ Overlooks h.data key s cmd := by
  obtain ⟨value, expiredAt⟩ := item
  obtain ⟨x, rfl⟩ : ∃ x, expiredAt = some x := by
    cases expiredAt with
    | none => cases hx
    | some x => exact ⟨x, rfl⟩
  obtain ⟨s, rfl⟩ : ∃ s, value = .str s := hr.expiring hb.expiring key _ hl nofun
  rw [asAbsent_iff (h := h.prepared cmd counted) hl (of_decide_eq_true hx) ht]
  constructor
  · exact fun ho => ⟨s, rfl, ho⟩
  · rintro ⟨_, hs, ho⟩
    cases hs
    exact ho

def setBriefly : List (IterOrder × Event) := [ask 1 (.set "k" "v" (some (.px (some 1)))), ask 1 .ping]

def afterwards : CmdHandler := play (.new { clock := fun n => n } startup.appStates) setBriefly

theorem afterwards_run : Run (Steps .blank) (.new { clock := fun n => n } startup.appStates) setBriefly afterwards :=
  .cons rfl (.cons rfl .nil)

theorem run_asAbsent_get : AsAbsent .blank .asIs (cmdExec .blank .asIs)
    (afterwards.prepared (.get "k") afterwards.appStates) afterwards.registry.timer.now 1 (some 0) (.get "k") "k" := by
  have hb : Begun .blank (fun _ _ => True) { clock := fun n => n } startup.appStates
      (.new { clock := fun n => n } startup.appStates) := .new {}
  have ht : Touches "k" (.get "k") := rfl
  exact (run_asAbsent_iff hb (.between afterwards_run) rfl rfl ht _ _ _ _).mpr ⟨"v", rfl, trivial⟩

theorem expired_type : Run (Steps .blank) (.new { clock := fun n => n } startup.appStates) setBriefly afterwards ∧
    afterwards.data.lookup "k" = some ⟨.str "v", some 1⟩ ∧ 1 < afterwards.registry.timer.now ∧ Touches "k" (.type "k") ∧
    ¬ AsAbsent .blank .asIs (cmdExec .blank .asIs) (afterwards.prepared (.type "k") afterwards.appStates)
      afterwards.registry.timer.now 1 (some 0) (.type "k") "k" := by
  have hl : (afterwards.prepared (.type "k") afterwards.appStates).data.lookup "k" = some ⟨.str "v", some 1⟩ := rfl
  have ht : Touches "k" (.type "k") := rfl
  exact ⟨afterwards_run, rfl, by decide, ht, (asAbsent_iff hl (by decide) ht).mp⟩

end

end CmdHandler

end Redis
