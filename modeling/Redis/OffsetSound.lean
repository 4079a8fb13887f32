import Redis.Calls
import Redis.AnswerSound
import Redis.PropagationSound

/-!
# The offset of the host

A write command is counted before it is dispatched, and its frame is appended
after it has answered with a value. So the offset is ahead of the frames by the
commands that fail or block. `Writes` says in the state before a write command
whether it will answer with a value.
-/

namespace Redis

open Lib

namespace CmdHandler

/-! ## Write commands that answer with a value -/

def valueOr (data : Data) (key : String) (new : StoreValue) : StoreValue :=
  ((data.lookup key).getD { value := new, expiredAt := none }).value

/-- The write command finds what it is for: it neither fails nor blocks. -/
def Writes (data : Data) (registry : RequestRegistry) (now : Nat) : Cmd → Prop
  | .rpush key _ | .lpush key _ | .lpop key _ => holdsOther data key isListValue = false
  | .blpop key _ =>
    (∃ s items x, data.lookup key = some ⟨.list (s :: items), x⟩) ∧ registry.isBacklogListEmpty key = true
  | .incr key => ∃ s i, valueOr data key (.str "0") = .str s ∧ parseInt (2 ^ 63) s = .ok i ∧ i < 2 ^ 63 - 1
  | .xadd key id _ => ∃ entries next, valueOr data key (.stream .empty) = .stream entries ∧
      nextStreamId (lastId entries) now id = .ok next
  | .setbit key offset bit => ∃ map, valueOr data key (.bitmap (Bitmap.new ((1 + offset) % 2 ^ 64))) = .bitmap map ∧
      (bitOf map offset ≠ bit → ∃ map', setBit map offset bit = .ok map')
  | .bitop (.and _ key1 key2) | .bitop (.or _ key1 key2) =>
    (∃ map, bitopSource data key1 = .ok map) ∧ ∃ map, bitopSource data key2 = .ok map
  | .bitop _ => False
  | _ => True

def Valued (r : CmdResult) : Prop := ∃ resp, r = .ok (some resp)

section
variable {data : Data} {key : String}

@[simp] theorem valued_reply (t : RespType) : Valued (reply t) := ⟨t, rfl⟩

@[simp] theorem not_valued_error (e : CustomError) : ¬ Valued (.error e) := fun ⟨_, h⟩ => by cases h

@[simp] theorem not_valued_none : ¬ Valued (.ok none) := fun ⟨_, h⟩ => by cases h

theorem lookup_orInsert_valueOr (data : Data) (key : String) (new : StoreValue) :
    ∃ x, (HashMap.orInsert key { value := new, expiredAt := none } data).lookup key =
      some ⟨valueOr data key new, x⟩ :=
  ⟨_, HashMap.lookup_orInsert _ _ _⟩

theorem push_valued {extend : List String → List String} :
    Valued (push extend data key).2 ↔ holdsOther data key isListValue = false := by
  unfold push
  cases hl : data.lookup key with
  | none =>
    simp [lookup_orInsert_absent (AList.lookup_eq_none.mp hl), holdsOther_false hl]
  | some item =>
    have hk : key ∈ data := HashMap.mem_of_lookup hl
    rw [orInsert_known hk, holdsOther_some hl]
    obtain ⟨value, x⟩ := item
    cases value <;> simp [hl, isListValue]

theorem cmdLpop_valued {length : Option Nat} :
    Valued (cmdLpop data key length).2 ↔ holdsOther data key isListValue = false := by
  unfold cmdLpop
  cases hl : data.lookup key with
  | none => simp [holdsOther_false hl]
  | some item =>
    rw [holdsOther_some hl]
    obtain ⟨value, x⟩ := item
    cases value with
    | list items =>
      cases length with
      | some n => simp [isListValue]
      | none => cases items <;> simp [isListValue]
    | _ => simp [isListValue]

theorem cmdBlpop_valued {registry : RequestRegistry} {timeoutMs : Option Nat} {clientId now : Nat} :
    Valued (cmdBlpop data registry key timeoutMs clientId now).2 ↔
      (∃ s items x, data.lookup key = some ⟨.list (s :: items), x⟩) ∧ registry.isBacklogListEmpty key = true := by
  unfold cmdBlpop
  cases hl : data.lookup key with
  | none => simp
  | some item =>
    obtain ⟨value, x⟩ := item
    cases value with
    | list items =>
      cases items with
      | nil => simp
      | cons s items => cases hq : registry.isBacklogListEmpty key <;> simp
    | _ => simp

theorem cmdIncr_valued : Valued (cmdIncr data key).2 ↔
    ∃ s i, valueOr data key (.str "0") = .str s ∧ parseInt (2 ^ 63) s = .ok i ∧ i < 2 ^ 63 - 1 := by
  obtain ⟨x, hl⟩ := lookup_orInsert_valueOr data key (.str "0")
  unfold cmdIncr
  simp only [hl]
  cases valueOr data key (.str "0") with
  | str s =>
    cases hs : parseInt (2 ^ 63) s with
    | error e => simp [-Nat.reducePow, hs]
    | ok i => by_cases hi : i < 2 ^ 63 - 1 <;> simp [-Nat.reducePow, -Int.reducePow, hs, hi]
  | _ => simp

theorem cmdXadd_valued {id : Option Nat × Option Nat} {value : List String} {now : Nat} :
    Valued (cmdXadd data key id value now).2 ↔ ∃ entries next, valueOr data key (.stream .empty) = .stream entries ∧
      nextStreamId (lastId entries) now id = .ok next := by
  obtain ⟨x, hl⟩ := lookup_orInsert_valueOr data key (.stream .empty)
  unfold cmdXadd
  simp only [hl]
  cases valueOr data key (.stream .empty) with
  | stream entries => cases hn : nextStreamId (lastId entries) now id <;> simp [-Prod.exists, hn]
  | _ => simp

theorem cmdSetbit_valued {offset bit : Nat} : Valued (cmdSetbit data key offset bit).2 ↔
    ∃ map, valueOr data key (.bitmap (Bitmap.new ((1 + offset) % 2 ^ 64))) = .bitmap map ∧
      (bitOf map offset ≠ bit → ∃ map', setBit map offset bit = .ok map') := by
  obtain ⟨x, hl⟩ := lookup_orInsert_valueOr data key
    (.bitmap (Bitmap.new ((1 + offset) % 2 ^ 64)))
  unfold cmdSetbit
  simp only [hl]
  cases valueOr data key (.bitmap (Bitmap.new ((1 + offset) % 2 ^ 64))) with
  | bitmap map =>
    by_cases hb : bitOf map offset = bit
    · simp [hb]
    · cases hs : setBit map offset bit <;> simp [hb, hs]
  | _ => simp

theorem bitop_valued {op : Bytes → Bytes → Bytes} {dest key1 key2 : String} :
    Valued (bitop op data dest key1 key2).2 ↔
      (∃ map, bitopSource data key1 = .ok map) ∧ ∃ map, bitopSource data key2 = .ok map := by
  unfold bitop
  cases h1 : bitopSource data key1 with
  | error e => simp
  | ok map1 => cases h2 : bitopSource data key2 <;> simp

end

section
variable {P : Platform} {o : IterOrder} {h h' : CmdHandler}

theorem dispatch_valued {exec : CmdHandler → Nat → Option (CmdHandler × CmdResult)} {now clientId : Nat}
    {isSubscriber : Bool} {epollFd : Option Int} {cmd : Cmd} {r : CmdResult} (hb : cmd.toBeBroadcast = true)
    (hd : dispatch P o exec h now isSubscriber clientId epollFd cmd = some (h', r)) :
    Valued r ↔ Writes h.data h.registry now cmd := by
  cases cmd <;> simp only [Cmd.toBeBroadcast, Bool.false_eq_true] at hb
  case set =>
    obtain ⟨⟨d, r'⟩, hs, he⟩ := Option.map_eq_some_iff.mp hd
    cases he
    obtain ⟨exp, _, hx⟩ := Option.map_eq_some_iff.mp hs
    cases hx
    simp [Writes, responseOk]
  case rpush | lpush =>
    cases hd
    exact push_valued
  case lpop =>
    cases hd
    exact cmdLpop_valued
  case blpop =>
    cases hd
    exact cmdBlpop_valued
  case xadd =>
    cases hd
    exact cmdXadd_valued
  case incr =>
    cases hd
    exact cmdIncr_valued
  case setbit =>
    cases hd
    exact cmdSetbit_valued
  case bitop args =>
    cases hd
    cases args with
    | and => exact bitop_valued
    | or => exact bitop_valued
    | _ => simp [cmdBitop, Writes]

/-! ## One call -/

def hostOffset (h : CmdHandler) : Option Int := h.appStates.hostStats.map (·.offset)

/-- What a call appends to the log, and to the queue of every slave. -/
def Call.frames (c : Call) : List Bytes :=
  match c.result with
  | .ok (some _) => if c.cmd.toBeBroadcast then [c.buf] else []
  | _ => []

def appended (made : List Call) : List Bytes := made.flatMap Call.frames

def byteLength (frames : List Bytes) : Nat := (frames.map List.length).sum

@[simp] theorem byteLength_append (l l' : List Bytes) : byteLength (l ++ l') = byteLength l + byteLength l' := by
  simp [byteLength]

theorem Effect.statics {now clientId : Nat} {epollFd : Option Int} {cmd : Cmd} {r : CmdResult}
    (he : Effect P o h now clientId epollFd cmd h' r) : h'.appStates = h.appStates ∧ h'.aof = h.aof := by
  cases he with
  | ack _ ha =>
    obtain ⟨_, _, rfl, _⟩ := cmdAck_frame ha
    exact ⟨rfl, rfl⟩
  | _ => exact ⟨rfl, rfl⟩

def Call.counted (c : Call) : List Bytes := if c.cmd.toBeBroadcast then [c.buf] else []

def countAll (start : Int) (frames : List Bytes) : Int := frames.foldl (fun x buf => countUp x buf.length) start

theorem countAll_append (start : Int) (l l' : List Bytes) : countAll start (l ++ l') = countAll (countAll start l) l' :=
  List.foldl_append

/-- As long as the count fits an `i64`, it is the length of what is counted. -/
theorem countAll_eq {start : Int} {frames : List Bytes} (h0 : 0 ≤ start) (hfits : start + byteLength frames < 2 ^ 63) :
    countAll start frames = start + byteLength frames := by
  induction frames generalizing start with
  | nil => simp [countAll, byteLength]
  | cons buf frames ih =>
    have hlen : byteLength (buf :: frames) = buf.length + byteLength frames := rfl
    rw [hlen] at hfits ⊢
    have hstep : countUp start buf.length = start + buf.length := countUp_of_lt h0 (by omega)
    have hrest : countAll (start + buf.length) frames = start + buf.length + byteLength frames :=
      ih (by omega) (by omega)
    rw [countAll, List.foldl_cons, hstep]
    rw [countAll] at hrest
    omega

theorem countAll_lt {start : Int} (h : start < 2 ^ 63) (frames : List Bytes) : countAll start frames < 2 ^ 63 := by
  induction frames generalizing start with
  | nil => exact h
  | cons buf frames ih => exact ih (countUp_lt h _)

theorem prepare_offset {cmd : Cmd} {buf : Bytes} (hp : h.prepare cmd buf false = some h') {x : Int}
    (hx : h.hostOffset = some x) :
    h'.hostOffset = some (if cmd.toBeBroadcast then countUp x buf.length else x) := by
  obtain ⟨stats, hs, rfl⟩ := Option.map_eq_some_iff.mp hx
  unfold prepare countWrite at hp
  cases hb : cmd.toBeBroadcast with
  | true =>
    simp only [hb, Bool.not_false, Bool.and_self, if_true] at hp
    obtain ⟨_, _, rfl⟩ := Option.map_eq_some_iff.mp hp
    simp [hostOffset, AppStates.hostAddBytesCount, hs, ReplStats.addBytesCount_eq]
  | false =>
    simp only [hb, Bool.false_and, Bool.false_eq_true, if_false, Option.some.injEq] at hp
    simp [← hp, hostOffset, hs]

theorem conclude_statics {cmd : Cmd} {buf : Bytes} {serialized : Bool} {r : CmdResult}
    {out : Except CmdOutput CmdOutput} (hc : h.conclude o cmd buf false serialized r = some (h', out)) :
    h'.appStates = h.appStates := by
  cases r with
  | error e =>
    cases hc
    rfl
  | ok resp =>
    cases resp with
    | none =>
      cases hc
      rfl
    | some resp =>
      have hprop : ∀ g : CmdHandler, (g.propagate o cmd buf).appStates = g.appStates := by
        intro g
        obtain ⟨_, _, _, hg⟩ := propagate_frame (o := o) g cmd buf
        rw [hg]
        rfl
      simp only [conclude, Bool.not_false, Bool.true_or, if_true, countFromMaster, Bool.false_eq_true, if_false] at hc
      split at hc
      · obtain ⟨b, _, hb⟩ := Option.map_eq_some_iff.mp hc
        rw [← (Prod.mk.inj hb).1]
        exact hprop _
      · cases hc
        exact hprop _

theorem propagate_log (cmd : Cmd) (buf : Bytes) :
    (h.propagate o cmd buf).log = h.log.map (· ++ if cmd.toBeBroadcast then [buf] else []) := by
  unfold propagate log
  split
  · cases ha : h.aof with
    | none => simp [pushAll]
    | some a => cases hw : a.written <;> simp [pushAll, Aof.write, hw]
  · simp

theorem conclude_log {cmd : Cmd} {buf : Bytes} {isMaster serialized : Bool} {r : CmdResult}
    {out : Except CmdOutput CmdOutput} (hc : h.conclude o cmd buf isMaster serialized r = some (h', out)) :
    (∀ resp, r = .ok (some resp) → h'.log = h.log.map (· ++ if cmd.toBeBroadcast then [buf] else [])) ∧
      ((∀ resp, r ≠ .ok (some resp)) → h'.log = h.log) := by
  refine ⟨?_, fun hno => ?_⟩
  · rintro resp rfl
    obtain ⟨s, rfl⟩ := conclude_some hc
    exact propagate_log cmd buf
  · cases r with
    | error e =>
      cases hc
      obtain ⟨s, hs⟩ := countFromMaster_frame h buf isMaster
      rw [hs]
      rfl
    | ok resp =>
      cases resp with
      | none =>
        cases hc
        rfl
      | some resp => exact absurd rfl (hno resp)

theorem Call.Made.log {c : Call} (hm : Call.Made P o c) : c.after.log = c.before.log.map (· ++ c.frames) := by
  obtain ⟨_, _, exec, s, d, fd, ser, out, _, _, hexec, hd, hc⟩ := hm
  have hlog : d.log = c.before.log := by
    unfold CmdHandler.log
    rw [(dispatch_effect hexec hd).statics.2]
    rfl
  unfold Call.frames
  rw [← hlog]
  split
  · rename_i resp hr
    exact (conclude_log hc).1 resp hr
  · rename_i hno
    rw [(conclude_log hc).2 hno]
    simp

theorem Call.Made.offset {c : Call} (hm : Call.Made P o c) (hother : c.before.clientTable.isMaster c.clientId = false)
    {x : Int} (hx : c.before.hostOffset = some x) :
    c.after.clientTable.master = c.before.clientTable.master ∧ c.after.hostOffset = some (countAll x c.counted) := by
  obtain ⟨_, _, exec, s, d, fd, ser, out, hp, _, hexec, hd, hc⟩ := hm
  have heff := dispatch_effect hexec hd
  rw [hother] at hp hc
  constructor
  · obtain ⟨_, _, _, _, _, _, hf⟩ := conclude_frame hc
    rw [hf]
    exact heff.master
  · have hprep := prepare_offset hp hx
    unfold hostOffset at hprep ⊢
    rw [conclude_statics hc, heff.statics.1, hprep, Call.counted]
    split <;> rfl

theorem Call.Made.valued {c : Call} (hm : Call.Made P o c) (hb : c.cmd.toBeBroadcast = true) :
    Valued c.result ↔ Writes c.before.data c.before.registry c.before.registry.timer.now c.cmd := by
  obtain ⟨_, _, exec, s, d, fd, ser, out, _, _, _, hd, _⟩ := hm
  rw [dispatch_valued hb hd]
  cases c.cmd with
  | bitop args => cases args <;> rfl
  | _ => rfl

/-! ## Runs of a master -/

/-- There is no connection to a master, and nobody else sets the offset. -/
def StaysMaster (h : CmdHandler) (label : IterOrder × Event) : Prop :=
  ∀ clientTable appStates auth, label.2 = .process clientTable appStates auth →
    clientTable.master = none ∧ appStates = h.appStates

/-- After every command, and at the end, the offset is what it was at the start
and the length of what was appended; what fails or blocks leaves it. -/
structure OffsetExact (start : Int) (h : CmdHandler) (made : List Call) : Prop where
  final : h.hostOffset = some (start + byteLength (appended made))
  each : ∀ pre c post, made = pre ++ c :: post →
    c.after.hostOffset = some (start + byteLength (appended (pre ++ [c])))
  unchanged : ∀ c ∈ made, ¬ Valued c.result → c.after.hostOffset = c.before.hostOffset

def Call.Keeps (c : Call) : Prop :=
  c.cmd.toBeBroadcast = true →
    Writes c.before.data c.before.registry c.before.registry.timer.now c.cmd ∨ c.buf = []

/-! ### The count -/

def counted (made : List Call) : List Bytes := made.flatMap Call.counted

theorem counted_snoc (made : List Call) (c : Call) : counted (made ++ [c]) = counted made ++ c.counted := by
  simp [counted]

theorem appended_snoc (made : List Call) (c : Call) : appended (made ++ [c]) = appended made ++ c.frames := by
  simp [appended]

theorem Call.frames_length {c : Call} (hvalued : c.cmd.toBeBroadcast = true →
    (Valued c.result ↔ Writes c.before.data c.before.registry c.before.registry.timer.now c.cmd)) (hk : c.Keeps) :
    byteLength c.frames = byteLength c.counted := by
  unfold Call.frames Call.counted
  cases hb : c.cmd.toBeBroadcast with
  | false => split <;> simp [byteLength]
  | true =>
    rcases hk hb with hw | hnil
    · obtain ⟨resp, hr⟩ := (hvalued hb).mpr hw
      simp [hr, byteLength]
    · split <;> simp [hnil, byteLength]

structure Counted (start : Int) (log : Option (List Bytes)) (h : CmdHandler) (made : List Call) : Prop where
  master : h.clientTable.master = none
  offset : h.hostOffset = some (countAll start (counted made))
  log : h.log = log.map (· ++ appended made)
  valued : ∀ c ∈ made, c.cmd.toBeBroadcast = true →
    (Valued c.result ↔ Writes c.before.data c.before.registry c.before.registry.timer.now c.cmd)
  each : ∀ pre c post, made = pre ++ c :: post → c.before.hostOffset = some (countAll start (counted pre)) ∧
    c.after.hostOffset = some (countAll start (counted (pre ++ [c])))

theorem Counted.call {start : Int} {log : Option (List Bytes)} {made : List Call} {c : Call} (hm : Call.Made P o c)
    (hc : Counted start log c.before made) : Counted start log c.after (made ++ [c]) := by
  have hother : c.before.clientTable.isMaster c.clientId = false := by simp [ClientTable.isMaster, hc.master]
  obtain ⟨hsame, hoffset⟩ := hm.offset hother hc.offset
  rw [← countAll_append, ← counted_snoc] at hoffset
  refine ⟨hsame.trans hc.master, hoffset, ?_, ?_, fun pre c' post hsplit => ?_⟩
  · rw [hm.log, hc.log, appended_snoc]
    simp [Function.comp_def]
  · intro c' hin
    rcases List.mem_append.mp hin with hin | hin
    · exact hc.valued c' hin
    · rw [List.mem_singleton.mp hin]
      exact hm.valued
  · rcases List.eq_nil_or_concat post with rfl | ⟨post, last, rfl⟩
    · obtain ⟨rfl, hc'⟩ := List.append_inj' hsplit rfl
      rw [List.cons.injEq] at hc'
      rw [← hc'.1]
      exact ⟨hc.offset, hoffset⟩
    · rw [List.concat_eq_append, ← List.cons_append, ← List.append_assoc] at hsplit
      obtain ⟨rfl, _⟩ := List.append_inj' hsplit rfl
      exact hc.each pre c' post rfl

theorem Counted.step {start : Int} {log : Option (List Bytes)} {label : IterOrder × Event} {made : List Call}
    (hg : StaysMaster h label) (hs : Steps P h label h') (hc : Counted start log h made) :
    Counted start log h' (made ++ h.calls P label) := by
  refine step_calls (I := Counted start log) hs ?_ ?_ ?_ ?_ hc
  · exact fun g tx cs hg => ⟨hg.master, hg.offset, hg.log, hg.valued, hg.each⟩
  · exact fun _ _ _ _ _ _ _ g cs hg => ⟨hg.master, hg.offset, hg.log, hg.valued, hg.each⟩
  · exact fun c cs _ hm hbefore => hbefore.call hm
  · intro hno hbefore
    obtain ⟨o, e⟩ := label
    by_cases hp : ∃ clientTable appStates auth, e = .process clientTable appStates auth
    · obtain ⟨clientTable, appStates, auth, rfl⟩ := hp
      obtain ⟨hmaster, rfl⟩ := hg _ _ _ rfl
      cases hs
      exact ⟨hmaster, hbefore.offset, hbefore.log, hbefore.valued, hbefore.each⟩
    · obtain ⟨_, _, _, _, _, rfl⟩ := step_frame hs hno fun ct as au h => hp ⟨ct, as, au, h⟩
      exact ⟨hbefore.master, hbefore.offset, hbefore.log, hbefore.valued, hbefore.each⟩

theorem counted_nil (hm : h.clientTable.master = none) {x : Int} (hx : h.hostOffset = some x) :
    Counted x h.log h [] :=
  ⟨hm, hx, by simp [appended], by simp, by simp⟩

theorem keeps_length {made : List Call} (hvalued : ∀ c ∈ made, c.cmd.toBeBroadcast = true →
    (Valued c.result ↔ Writes c.before.data c.before.registry c.before.registry.timer.now c.cmd))
    (hkeep : ∀ c ∈ made, c.Keeps) : byteLength (appended made) = byteLength (counted made) := by
  induction made using List.reverseRecOn with
  | nil => rfl
  | append_singleton made c ih =>
    rw [appended_snoc, counted_snoc, byteLength_append, byteLength_append,
      ih (fun c hc => hvalued c (List.mem_append_left _ hc)) (fun c hc => hkeep c (List.mem_append_left _ hc)),
      c.frames_length (hvalued c (by simp)) (hkeep c (by simp))]

section
variable {start : Int} {log : Option (List Bytes)} {made : List Call}

theorem Counted.keeps (hc : Counted start log h made) (h0 : 0 ≤ start) (hi64 : start < 2 ^ 63)
    (hexact : OffsetExact start h made) (hsize : ∀ c ∈ made, c.buf.length < 2 ^ 63) : ∀ c ∈ made, c.Keeps := by
  intro c hin hb
  by_contra hno
  rw [not_or] at hno
  obtain ⟨pre, post, rfl⟩ := List.append_of_mem hin
  obtain ⟨hbefore, hafter⟩ := hc.each pre c post rfl
  have hsame := hexact.unchanged c hin (hno.1 ∘ (hc.valued c hin hb).mp)
  rw [hbefore, hafter, Option.some.injEq, counted_snoc, countAll_append, Call.counted, if_pos hb] at hsame
  have hpos : 0 ≤ countAll start (counted pre) := by
    rcases List.eq_nil_or_concat pre with rfl | ⟨pre, last, rfl⟩
    · exact h0
    · rw [List.concat_eq_append] at hexact hc ⊢
      rw [List.append_assoc] at hexact hc
      have hlast := hexact.each pre last (c :: post) rfl
      rw [(hc.each pre last (c :: post) rfl).2, Option.some.injEq] at hlast
      omega
  have hlen := (countUp_eq_self hpos (countAll_lt hi64 (counted pre)) (hsize c hin)).mp hsame
  exact hno.2 (List.eq_nil_of_length_eq_zero hlen)

theorem Counted.exact (hc : Counted start log h made) (h0 : 0 ≤ start)
    (hfits : start + byteLength (counted made) < 2 ^ 63) (hkeep : ∀ c ∈ made, c.Keeps) : OffsetExact start h made := by
  have hprefix : ∀ pre post, made = pre ++ post →
      countAll start (counted pre) = start + byteLength (appended pre) := by
    rintro pre post rfl
    have hlen : byteLength ((pre ++ post).flatMap Call.counted) =
        byteLength (pre.flatMap Call.counted) + byteLength (post.flatMap Call.counted) := by
      rw [List.flatMap_append, byteLength_append]
    rw [keeps_length (fun c hin => hc.valued c (List.mem_append_left _ hin))
      (fun c hin => hkeep c (List.mem_append_left _ hin))]
    refine countAll_eq h0 ?_
    unfold counted at hfits ⊢
    omega
  refine ⟨?_, fun pre c post hsplit => ?_, fun c hin hfail => ?_⟩
  · rw [hc.offset, hprefix made [] (List.append_nil made).symm]
  · rw [(hc.each pre c post hsplit).2, hprefix (pre ++ [c]) post (by rw [hsplit, List.append_assoc]; rfl)]
  · obtain ⟨pre, post, hsplit⟩ := List.append_of_mem hin
    obtain ⟨hbefore, hafter⟩ := hc.each pre c post hsplit
    have hframes : byteLength c.frames = 0 := by
      unfold Call.frames
      split
      · rename_i resp hr
        exact absurd ⟨resp, hr⟩ hfail
      · rfl
    rw [hbefore, hafter, hprefix pre (c :: post) hsplit,
      hprefix (pre ++ [c]) post (by rw [hsplit, List.append_assoc]; rfl), appended_snoc, byteLength_append, hframes]
    rfl

end

/-- What is appended is what is logged; the offset follows it if and only if no
write command fails or blocks, and what is counted fits an `i64`. No buffer has
2^63 bytes. -/
theorem run_offset {h₀ : CmdHandler} {labels : List (IterOrder × Event)} {stats : ReplStats}
    (hmaster : h₀.clientTable.master = none) (hstats : h₀.appStates.hostStats = some stats) (hstart : 0 ≤ stats.offset)
    (hi64 : stats.offset < 2 ^ 63) (hr : Run (guarded StaysMaster (Steps P)) h₀ labels h)
    (hsize : ∀ c ∈ runCalls P h₀ labels, c.buf.length < 2 ^ 63) :
    h.log = h₀.log.map (· ++ appended (runCalls P h₀ labels)) ∧
      (OffsetExact stats.offset h (runCalls P h₀ labels) ↔
        stats.offset + byteLength (counted (runCalls P h₀ labels)) < 2 ^ 63 ∧
        ∀ c ∈ runCalls P h₀ labels, c.cmd.toBeBroadcast = true →
          Writes c.before.data c.before.registry c.before.registry.timer.now c.cmd ∨ c.buf = []) := by
  have hoffset : h₀.hostOffset = some stats.offset := by rw [hostOffset, hstats]; rfl
  have hc : Counted stats.offset h₀.log h (runCalls P h₀ labels) :=
    collect_inv hr (fun _ _ _ _ hg hs hc => hc.step hg hs) (counted_nil hmaster hoffset)
  refine ⟨hc.log, fun hexact => ?_, fun ⟨hfits, hkeep⟩ => hc.exact hstart hfits hkeep⟩
  have hkeep := hc.keeps hstart hi64 hexact hsize
  refine ⟨?_, hkeep⟩
  have hfinal := hexact.final
  have hlt := countAll_lt hi64 (counted (runCalls P h₀ labels))
  rw [hc.offset, Option.some.injEq] at hfinal
  rw [← keeps_length hc.valued hkeep]
  omega

theorem run_offset_push : OffsetExact 0 (play startup [ask 1 (.rpush "k" ["a"]), ask 2 (.lpop "k" none)])
    (runCalls .blank startup [ask 1 (.rpush "k" ["a"]), ask 2 (.lpop "k" none)]) := by
  have hrun : Run (guarded StaysMaster (Steps .blank)) startup [ask 1 (.rpush "k" ["a"]), ask 2 (.lpop "k" none)]
      (play startup [ask 1 (.rpush "k" ["a"]), ask 2 (.lpop "k" none)]) :=
    .cons ⟨fun _ _ _ h => (by cases h), rfl⟩ (.cons ⟨fun _ _ _ h => (by cases h), rfl⟩ .nil)
  have hcases : ∀ {Q : Call → Prop}, (∀ c ∈ startup.calls .blank (ask 1 (.rpush "k" ["a"])), Q c) →
      (∀ c ∈ (play startup [ask 1 (.rpush "k" ["a"])]).calls .blank (ask 2 (.lpop "k" none)), Q c) →
      ∀ c ∈ runCalls .blank startup [ask 1 (.rpush "k" ["a"]), ask 2 (.lpop "k" none)], Q c := by
    intro Q h₁ h₂ c hc
    simp only [runCalls, collect, List.append_nil] at hc
    rcases List.mem_append.mp hc with hc | hc
    · exact h₁ c hc
    · exact h₂ c hc
  refine (run_offset rfl rfl (Int.le_refl 0) (by decide) hrun (hcases ?_ ?_)).2.mpr ⟨by decide, hcases ?_ ?_⟩
  · decide
  · decide
  all_goals
    intro c hc _
    obtain rfl := List.mem_singleton.mp hc
    exact .inl rfl

/-- A BLPOP that blocks is counted and not appended. -/
theorem blpop_counted : Run (guarded StaysMaster (Steps .blank)) startup [ask 1 (.blpop "k" none)]
      (play startup [ask 1 (.blpop "k" none)]) ∧
    ¬ OffsetExact 0 (play startup [ask 1 (.blpop "k" none)]) (runCalls .blank startup [ask 1 (.blpop "k" none)]) := by
  refine ⟨.cons ⟨fun _ _ _ h => (by cases h), rfl⟩ .nil, fun hexact => ?_⟩
  have hfinal : (play startup [ask 1 (.blpop "k" none)]).hostOffset = some 1 := rfl
  have hwritten : byteLength (appended (runCalls .blank startup [ask 1 (.blpop "k" none)])) = 0 := rfl
  have hsame := hexact.final
  rw [hfinal, hwritten] at hsame
  cases hsame

end

end CmdHandler

end Redis
