import Redis.Effects
import Redis.Lib.Frame

/-!
# What a command answers

The dispatch of a command ends in one of few ways (`Replies`): a value whose
serialization is one frame, an error, or nothing. The exceptions are named:
the key a command refuses ends up in the text of the error, LRANGE announces an
item of an empty list, and some commands fall through without an answer.
-/

namespace Redis

open Lib

mutual
def RespType.Framed : RespType → Prop
  | .simpleStr (some s) | .error (some s) => ¬ delimiter <:+: utf8 s
  | .integer (some _) => True
  | .bulkStr n (some s) => n = s.utf8ByteSize
  | .bulkStr _ none | .nullBulkStr | .array _ none => True
  | .array n (some v) => n = v.length ∧ RespType.AllFramed v
  | .bytes (some b) => Frame b
  | _ => False
def RespType.AllFramed : List RespType → Prop
  | [] => True
  | t :: ts => t.Framed ∧ RespType.AllFramed ts
end

namespace RespType

theorem allFramed_iff {ts : List RespType} : AllFramed ts ↔ ∀ t ∈ ts, t.Framed := by
  induction ts with
  | nil => simp [AllFramed]
  | cons t ts ih => simp [AllFramed, ih]

mutual
theorem Framed.serialize : ∀ {t : RespType}, t.Framed → ∃ b, t.serialize = some b ∧ Frame b
  | .simpleStr (some s), h => by
    rw [Framed] at h
    have hb : utf8 "+" ++ utf8 s ++ delimiter = 43 :: (utf8 s ++ crlf) := by
      rw [show utf8 "+" = [43] by decide]
      rfl
    exact ⟨_, by rw [RespType.serialize, RespType.getPrefix, hb], .simple h⟩
  | .error (some s), h => by
    rw [Framed] at h
    have hb : utf8 "-" ++ utf8 s ++ delimiter = 45 :: (utf8 s ++ crlf) := by
      rw [show utf8 "-" = [45] by decide]
      rfl
    exact ⟨_, by rw [RespType.serialize, RespType.getPrefix, hb], .error h⟩
  | .integer (some x), _ => by
    have hb : utf8 ":" ++ utf8 (toString x) ++ delimiter = 58 :: (utf8 (toString x) ++ crlf) := by
      rw [show utf8 ":" = [58] by decide]
      rfl
    exact ⟨_, by rw [RespType.serialize, RespType.getPrefix, hb], .integer x⟩
  | .bulkStr n (some s), h => by
    rw [Framed, ← length_utf8] at h
    subst h
    have hb : utf8 "$" ++ utf8 (toString (utf8 s).length) ++ delimiter ++ utf8 s ++ delimiter =
        36 :: (utf8 (toString (utf8 s).length) ++ (crlf ++ (utf8 s ++ crlf))) := by
      simp [show utf8 "$" = [36] by decide, delimiter, crlf]
    exact ⟨_, by rw [RespType.serialize, RespType.getPrefix, hb], .bulk _⟩
  | .bulkStr _ none, _ => ⟨_, by rw [RespType.serialize, RespType.getPrefix]; decide, .nullBulk⟩
  | .nullBulkStr, _ => ⟨_, by rw [RespType.serialize]; decide, .nullBulk⟩
  | .array _ none, _ => ⟨_, by rw [RespType.serialize, RespType.getPrefix]; decide, .nullArray⟩
  | .array n (some v), h => by
    rw [Framed] at h
    obtain ⟨bs, hbs, hlen, hall⟩ := AllFramed.serialize h.2
    have hb : utf8 "*" ++ utf8 (toString n) ++ delimiter ++ bs.flatten =
        42 :: (utf8 (toString bs.length) ++ (crlf ++ bs.flatten)) := by
      rw [show utf8 "*" = [42] by decide, h.1, ← hlen]
      simp [delimiter, crlf]
    exact ⟨_, by rw [RespType.serialize, hbs]; exact congrArg some hb, .array hall⟩
  | .bytes (some b), h => ⟨b, by rw [RespType.serialize], by rwa [Framed] at h⟩
theorem AllFramed.serialize : ∀ {ts : List RespType}, AllFramed ts →
    ∃ bs : List Bytes, serializeAll ts = some bs.flatten ∧ bs.length = ts.length ∧ ∀ b ∈ bs, Frame b
  | [], _ => ⟨[], rfl, rfl, by simp⟩
  | t :: ts, h => by
    rw [AllFramed] at h
    obtain ⟨b, hb, hf⟩ := Framed.serialize h.1
    obtain ⟨bs, hbs, hlen, hall⟩ := AllFramed.serialize h.2
    refine ⟨b :: bs, by rw [serializeAll, hb, hbs]; rfl, by simp [hlen], fun c hc => ?_⟩
    cases hc with
    | head => exact hf
    | tail _ hc => exact hall c hc
end

@[simp] theorem framed_bulk (s : String) : (bulk s).Framed := by rw [bulk, Framed]

@[simp] theorem framed_nullBulk : nullBulk.Framed := by rw [nullBulk, Framed]; trivial

@[simp] theorem framed_emptyArray : emptyArray.Framed := by simp [emptyArray, Framed, AllFramed]

@[simp] theorem framed_nullArray : nullArray.Framed := by rw [nullArray, Framed]; trivial

@[simp] theorem framed_integer (x : Int) : (integer (some x)).Framed := by rw [Framed]; trivial

theorem framed_array {ts : List RespType} (h : ∀ t ∈ ts, t.Framed) : (array ts.length (some ts)).Framed := by
  rw [Framed]
  exact ⟨rfl, allFramed_iff.mpr h⟩

theorem framed_array_map {α : Type} {f : α → RespType} {l : List α} (h : ∀ x ∈ l, (f x).Framed) :
    (array l.length (some (l.map f))).Framed := by
  have := @framed_array (l.map f) fun t ht => by
    obtain ⟨x, hx, rfl⟩ := List.mem_map.mp ht
    exact h x hx
  rwa [List.length_map] at this

theorem framed_arrayOf {ts : List RespType} (h : ∀ t ∈ ts, t.Framed) : (arrayOf ts).Framed := by
  unfold arrayOf
  split
  · rw [Framed]
    trivial
  · exact framed_array h

theorem framed_bulks (l : List String) : (arrayOf (l.map bulk)).Framed := by
  apply framed_arrayOf
  simp

theorem framed_bulkBytes (v : Bytes) : (bulkBytes v).Framed := by
  have hb : utf8 "$" ++ utf8 (toString v.length) ++ delimiter ++ v ++ delimiter =
      36 :: (utf8 (toString v.length) ++ (crlf ++ (v ++ crlf))) := by
    simp [show utf8 "$" = [36] by decide, delimiter, crlf]
  rw [bulkBytes, Framed, hb]
  exact .bulk v

end RespType

namespace CustomError

def Framed (e : CustomError) : Prop := e.intoResp.Framed

theorem framed_text {e : CustomError} {s : String} (he : e.intoResp = .error (some s))
    (hs : (utf8 s).all (· != 13) = true) : e.Framed := by
  rw [Framed, he, RespType.Framed]
  exact crlf_not_infix_of_all hs

end CustomError

namespace CmdHandler

/-! ## The exceptions -/

def holdsOther (data : Data) (key : String) (ok : StoreValue → Bool) : Bool :=
  match data.lookup key with
  | some item => !ok item.value
  | none => false

def isText : StoreValue → Bool
  | .str _ | .bitmap _ => true
  | _ => false

def isListValue : StoreValue → Bool
  | .list _ => true
  | _ => false

def isStreamValue : StoreValue → Bool
  | .stream _ => true
  | _ => false

def isZSet : StoreValue → Bool
  | .zSet _ => true
  | _ => false

/-- The key that is named in the error of a command on the wrong type. -/
def refusedKey (data : Data) : Cmd → Option String
  | .get key => if holdsOther data key isText then some key else none
  | .rpush key _ | .lpush key _ | .lrange key .. | .llen key | .lpop key _ | .blpop key _ =>
    if holdsOther data key isListValue then some key else none
  | .xadd key .. | .xrange key .. => if holdsOther data key isStreamValue then some key else none
  | .xread _ _ stream => (stream.find? fun s => holdsOther data s.1 isStreamValue).map Prod.fst
  | _ => none

/-- LRANGE on a list without items, unless both indexes are positive and the
wrong way round. -/
def ShortRange (data : Data) : Cmd → Prop
  | .lrange key start stop => (∃ x, data.lookup key = some ⟨.list [], x⟩) ∧ ¬ (stop < start ∧ 0 < start ∧ 0 < stop)
  | _ => False

def Silent (h : CmdHandler) (clientId : Nat) : Cmd → Prop
  | .pong | .ok | .fullresync .. | .rdb _ | .psubscribe | .punsubscribe | .quit => True
  | .info key => String.ofList (key.toList.map Char.toUpper) ≠ "REPLICATION"
  | .psync id offset => ¬ (id = "?" ∧ offset = -1)
  | .replconf (.getAck s) => s ≠ "*"
  | .replconf (.listeningPort _) | .replconf (.capa _) => False
  | .replconf _ => True
  | .subscribe keys => keys = []
  | .unsubscribe _ => h.isSubscriber clientId = false
  | .publish key _ => key ∉ h.channels
  | .geosearch key .. => holdsOther h.data key isZSet = true
  | _ => False

/-- Commands that answer later, or never: BLPOP, XREAD BLOCK, WAIT, REPLCONF ACK. -/
def Deferred : Cmd → Prop
  | .blpop .. | .xread _ (some _) _ | .wait .. | .replconf (.ack _) => True
  | _ => False

def Streams : Cmd → Prop
  | .psync .. | .subscribe _ => True
  | _ => False

def PrintsPlain (P : Platform) : Prop := ∀ x, (13 : UInt8) ∉ utf8 (P.f64.fixed6 x)

inductive Replies (P : Platform) (h : CmdHandler) (clientId : Nat) (cmd : Cmd) : CmdResult → Prop
  | frame {t : RespType} : t.Framed → refusedKey h.data cmd = none → ¬ ShortRange h.data cmd →
      ¬ Silent h clientId cmd → Replies P h clientId cmd (.ok (some t))
  | short : ShortRange h.data cmd → Replies P h clientId cmd (.ok (some (.array 1 (some []))))
  | stream {b : Bytes} : Streams cmd → (b = [] ↔ Silent h clientId cmd) →
      Replies P h clientId cmd (.ok (some (.bytes (some b))))
  | refused {key : String} : refusedKey h.data cmd = some key → ¬ ShortRange h.data cmd →
      Replies P h clientId cmd (.error (unsupported key))
  | failed {e : CustomError} : (PrintsPlain P → e.Framed) → refusedKey h.data cmd = none → ¬ ShortRange h.data cmd →
      ¬ Silent h clientId cmd → Replies P h clientId cmd (.error e)
  | nothing : Silent h clientId cmd ∨ Deferred cmd → refusedKey h.data cmd = none → Replies P h clientId cmd (.ok none)

/-! ## Commands on values -/

section
variable {P : Platform} {h : CmdHandler} {clientId : Nat} {data : Data} {key : String}

theorem holdsOther_false {ok : StoreValue → Bool} (hl : data.lookup key = none) : holdsOther data key ok = false := by
  simp [holdsOther, hl]

theorem holdsOther_some {ok : StoreValue → Bool} {item : StoreItem} (hl : data.lookup key = some item) :
    holdsOther data key ok = !ok item.value := by
  simp [holdsOther, hl]

theorem framed_ok : (RespType.simpleStr (some "OK")).Framed := by
  rw [RespType.Framed]
  decide

theorem framed_outOfRange : (CustomError.unprocessableError "ERR value is not an integer or out of range").Framed :=
  CustomError.framed_text rfl rfl

theorem framed_overflow : (CustomError.unprocessableError "Integer overflow").Framed :=
  CustomError.framed_text rfl rfl

theorem framed_wrongType : wrongType.Framed :=
  CustomError.framed_text rfl rfl

theorem framed_wrongDataType : wrongDataType.Framed :=
  CustomError.framed_text rfl rfl

theorem replies_get (now : Nat) : Replies P h clientId (.get key) (cmdGet h.data key now) := by
  unfold cmdGet
  split
  · rename_i item hl
    have hother : holdsOther h.data key isText = !isText item.value := holdsOther_some hl
    split
    · rename_i s hv
      rw [hv] at hother
      have hkey : refusedKey h.data (.get key) = none := by simp [refusedKey, hother, isText]
      split
      · exact .frame (by simp) hkey id id
      · exact .frame (by simp) hkey id id
    · rename_i map hv
      rw [hv] at hother
      exact .frame (RespType.framed_bulkBytes map) (by simp [refusedKey, hother, isText]) id id
    · rename_i hs hb
      refine .refused ?_ id
      have : isText item.value = false := by
        cases hv : item.value <;> simp_all [isText]
      simp [refusedKey, hother, this]
  · rename_i hl
    exact .frame (by simp) (by simp [refusedKey, holdsOther_false hl]) id id

theorem replies_list_other {cmd : Cmd} {item : StoreItem} (hl : h.data.lookup key = some item)
    (hno : ∀ items, item.value ≠ .list items)
    (hkey : refusedKey h.data cmd = if holdsOther h.data key isListValue then some key else none)
    (hshort : ¬ ShortRange h.data cmd) : Replies P h clientId cmd (.error (unsupported key)) := by
  refine .refused ?_ hshort
  have : isListValue item.value = false := by
    cases hv : item.value with
    | list items => exact absurd hv (hno items)
    | _ => rfl
  rw [hkey, holdsOther_some hl, this]
  rfl

theorem refusedKey_list {cmd : Cmd} {item : StoreItem} {items : List String} (hl : h.data.lookup key = some item)
    (hv : item.value = .list items)
    (hkey : refusedKey h.data cmd = if holdsOther h.data key isListValue then some key else none) :
    refusedKey h.data cmd = none := by
  rw [hkey, holdsOther_some hl, hv]
  rfl

theorem refusedKey_absent {cmd : Cmd} {ok : StoreValue → Bool} (hl : h.data.lookup key = none)
    (hkey : refusedKey h.data cmd = if holdsOther h.data key ok then some key else none) :
    refusedKey h.data cmd = none := by
  rw [hkey, holdsOther_false hl]
  rfl

theorem replies_llen : Replies P h clientId (.llen key) (cmdLlen h.data key) := by
  unfold cmdLlen
  split
  · rename_i item hl
    split
    · rename_i items hv
      exact .frame (by simp) (refusedKey_list hl hv rfl) id id
    · rename_i hno
      exact replies_list_other hl hno rfl id
  · rename_i hl
    exact .frame (by simp) (refusedKey_absent hl rfl) id id

theorem replies_lpop {length : Option Nat} : Replies P h clientId (.lpop key length) (cmdLpop h.data key length).2 := by
  unfold cmdLpop
  split
  · rename_i item hl
    split
    · rename_i items hv
      have hkey : refusedKey h.data (.lpop key length) = none := refusedKey_list hl hv rfl
      split
      · exact .frame (RespType.framed_bulks _) hkey id id
      · split
        · exact .frame (by simp) hkey id id
        · exact .frame (by simp) hkey id id
    · rename_i hno
      exact replies_list_other hl hno rfl id
  · rename_i hl
    exact .frame (by simp) (refusedKey_absent hl rfl) id id

theorem replies_push {extend : List String → List String} {cmd : Cmd}
    (hkey : refusedKey h.data cmd = if holdsOther h.data key isListValue then some key else none)
    (hshort : ¬ ShortRange h.data cmd) (hsilent : ¬ Silent h clientId cmd) :
    Replies P h clientId cmd (push extend h.data key).2 := by
  by_cases hk : key ∈ h.data
  · unfold push
    rw [orInsert_known hk]
    simp only
    split
    · rename_i items x hl
      exact .frame (by simp) (refusedKey_list hl rfl hkey) hshort hsilent
    · rename_i hno
      obtain ⟨item, hl⟩ := HashMap.exists_lookup hk
      refine replies_list_other hl (fun items hv => ?_) hkey hshort
      obtain ⟨value, x⟩ := item
      cases hv
      exact hno items x hl
  · have hl : h.data.lookup key = none := AList.lookup_eq_none.mpr hk
    unfold push
    simp only [lookup_orInsert_absent hk]
    exact .frame (by simp) (refusedKey_absent hl hkey) hshort hsilent

theorem replies_blpop {registry : RequestRegistry} {timeoutMs : Option Nat} {now : Nat} :
    Replies P h clientId (.blpop key timeoutMs) (cmdBlpop h.data registry key timeoutMs clientId now).2 := by
  unfold cmdBlpop
  simp only
  split
  · rename_i item hl
    split
    · rename_i items hv
      split
      · refine .frame ?_ (refusedKey_list hl hv rfl) id id
        exact RespType.framed_bulks [key, _]
      · exact .nothing (.inr trivial) (refusedKey_list hl hv rfl)
    · rename_i hno
      exact replies_list_other hl hno rfl id
  · rename_i hl
    exact .nothing (.inr trivial) (refusedKey_absent hl rfl)

theorem asUsize_le {x : Int} {n : Nat} (h0 : 0 ≤ x) (hn : x ≤ n) : asUsize x ≤ n := by
  unfold asUsize
  omega

theorem asUsize_lt (x : Int) : asUsize x < 2 ^ 64 := by
  unfold asUsize
  omega

/-- Both ends of a range are cut to the last index. -/
theorem rangeIndex_le {len : Nat} (hlen : 0 < len) (index : Int) :
    asUsize (min (absIndex len index) (len - 1)) ≤ len - 1 := by
  have h0 := absIndex_nonneg len index
  have hlast : ((len - 1 : Nat) : Int) = len - 1 := Int.natCast_pred_of_pos hlen
  apply asUsize_le
  · omega
  · omega

/-- In an empty list they wrap. -/
theorem rangeIndex_empty (index : Int) : asUsize (min (absIndex (0 : Nat) index) ((0 : Nat) - 1)) = 2 ^ 64 - 1 := by
  have h0 := absIndex_nonneg (0 : Nat) index
  have hmin : min (absIndex (0 : Nat) index) ((0 : Nat) - 1) = -1 := by omega
  rw [hmin]
  decide

theorem framed_range (items : List String) {m n : Nat} (h : n ≤ items.length - m) :
    (RespType.array n (some (((items.drop m).take n).map .bulk))).Framed := by
  rw [RespType.Framed, RespType.allFramed_iff]
  constructor
  · simp only [List.length_map, List.length_take, List.length_drop]
    omega
  · intro t ht
    obtain ⟨s, -, rfl⟩ := List.mem_map.mp ht
    exact RespType.framed_bulk s

/-- The items of a range are as many as are announced, unless the list is empty. -/
theorem replies_lrange {start stop : Int} :
    Replies P h clientId (.lrange key start stop) (cmdLrange h.data key start stop) := by
  unfold cmdLrange
  split
  · rename_i item hl
    split
    · rename_i items hv
      have hkey : refusedKey h.data (.lrange key start stop) = none := refusedKey_list hl hv rfl
      have hshort : ShortRange h.data (.lrange key start stop) ↔ items = [] ∧
          ¬ (stop < start ∧ 0 < start ∧ 0 < stop) := by
        obtain ⟨value, x⟩ := item
        cases hv
        simp [ShortRange, hl]
      simp only
      split
      · rename_i hwrong
        exact .frame (by simp) hkey (fun hs => (hshort.mp hs).2 hwrong) id
      · rename_i hwrong
        split
        · rename_i hstart
          refine .frame (by simp) hkey (fun hs => ?_) id
          -- the last index of an empty list wraps to the largest `usize`
          rw [(hshort.mp hs).1] at hstart
          have hlast : asUsize (((([] : List String).length : Int)) - 1) = 2 ^ 64 - 1 := by decide
          have := asUsize_lt start
          omega
        · cases hne : items with
          | nil =>
            simp only [List.length_nil, rangeIndex_empty]
            exact .short (hshort.mpr ⟨hne, hwrong⟩)
          | cons a as =>
            have hno : ¬ ShortRange h.data (.lrange key start stop) := by
              rw [hshort, hne]
              simp
            rw [← hne]
            have hpos : 0 < items.length := by rw [hne]; simp
            have hmax := rangeIndex_le hpos stop
            split
            · exact .frame (by simp) hkey hno id
            · refine .frame (framed_range items ?_) hkey hno id
              omega
    · rename_i hno
      refine replies_list_other hl hno rfl ?_
      rintro ⟨⟨x, hx⟩, -⟩
      rw [hl] at hx
      cases hx
      exact hno [] rfl
  · rename_i hl
    refine .frame (by simp) (refusedKey_absent hl rfl) ?_ id
    rintro ⟨⟨x, hx⟩, -⟩
    rw [hl] at hx
    cases hx

/-! ## Streams -/

theorem framed_idError {e : CustomError} {last : Option (Nat × Nat)} {now : Nat} {id : Option Nat × Option Nat}
    (he : nextStreamId last now id = .error e) : e.Framed := by
  have h₁ : (CustomError.invalidArgument "ERR The ID specified in XADD must be greater than 0-0").Framed :=
    CustomError.framed_text rfl rfl
  have h₂ : (CustomError.invalidArgument
      "ERR The ID specified in XADD is equal or smaller than the target stream top item").Framed :=
    CustomError.framed_text rfl rfl
  have h₃ : (CustomError.invalidArgument "ERR Invalid stream id format").Framed :=
    CustomError.framed_text rfl rfl
  unfold nextStreamId at he
  split at he
  · split at he
    · cases he
      exact h₁
    · split at he
      · split at he
        · cases he
        · cases he
          exact h₂
      · cases he
  · split at he
    · split at he
      · cases he
      · split at he
        · cases he
        · cases he
          exact h₃
    · split at he <;> cases he
  · cases he
  · cases he
    exact h₃

theorem refusedKey_stream {cmd : Cmd} {item : StoreItem} {entries : OrdMap StreamId (List String)}
    (hl : h.data.lookup key = some item) (hv : item.value = .stream entries)
    (hkey : refusedKey h.data cmd = if holdsOther h.data key isStreamValue then some key else none) :
    refusedKey h.data cmd = none := by
  rw [hkey, holdsOther_some hl, hv]
  rfl

theorem replies_stream_other {cmd : Cmd} {item : StoreItem} (hl : h.data.lookup key = some item)
    (hno : ∀ entries, item.value ≠ .stream entries)
    (hkey : refusedKey h.data cmd = if holdsOther h.data key isStreamValue then some key else none)
    (hshort : ¬ ShortRange h.data cmd) : Replies P h clientId cmd (.error (unsupported key)) := by
  refine .refused ?_ hshort
  have : isStreamValue item.value = false := by
    cases hv : item.value with
    | stream entries => exact absurd hv (hno entries)
    | _ => rfl
  rw [hkey, holdsOther_some hl, this]
  rfl

theorem replies_xadd {streamId : Option Nat × Option Nat} {value : List String} {now : Nat} :
    Replies P h clientId (.xadd key streamId value) (cmdXadd h.data key streamId value now).2 := by
  by_cases hk : key ∈ h.data
  · unfold cmdXadd
    rw [orInsert_known hk]
    simp only
    split
    · rename_i entries x hl
      have hkey : refusedKey h.data (.xadd key streamId value) = none := refusedKey_stream hl rfl rfl
      split
      · rename_i e he
        exact .failed (fun _ => framed_idError he) hkey id id
      · exact .frame (by simp) hkey id id
    · rename_i hno
      obtain ⟨item, hl⟩ := HashMap.exists_lookup hk
      refine replies_stream_other hl (fun entries hv => ?_) rfl id
      obtain ⟨value, x⟩ := item
      cases hv
      exact hno entries x hl
  · have hl : h.data.lookup key = none := AList.lookup_eq_none.mpr hk
    have hkey : refusedKey h.data (.xadd key streamId value) = none := refusedKey_absent hl rfl
    unfold cmdXadd
    simp only [lookup_orInsert_absent hk]
    split
    · rename_i e he
      exact .failed (fun _ => framed_idError he) hkey id id
    · exact .frame (by simp) hkey id id

theorem framed_streamEntity (e : StreamId × List String) : (streamEntity e).Framed := by
  have hfields : (RespType.array e.2.length (some (e.2.map .bulk))).Framed :=
    RespType.framed_array_map fun s _ => RespType.framed_bulk s
  rw [streamEntity, RespType.Framed]
  simp [RespType.AllFramed, hfields]

theorem replies_xrange {start stop : Nat × Nat} {r : CmdResult} (hr : cmdXrange h.data key start stop = some r) :
    Replies P h clientId (.xrange key start stop) r := by
  unfold cmdXrange at hr
  split at hr
  · rename_i item hl
    split at hr
    · rename_i entries hv
      split at hr
      · cases hr
      · cases hr
        exact .frame (RespType.framed_array_map fun e _ => framed_streamEntity e) (refusedKey_stream hl hv rfl) id id
    · rename_i hno
      cases hr
      exact replies_stream_other hl hno rfl id
  · rename_i hl
    cases hr
    exact .frame (by simp) (refusedKey_absent hl rfl) id id

theorem framed_streamEntries {count : Nat} {id : Nat × Nat} {t : RespType}
    (he : extractStreamEntries data key count id = some t) : t.Framed := by
  unfold extractStreamEntries at he
  simp only at he
  split at he
  · cases he
  · cases he
    apply RespType.framed_array_map
    intro e _
    apply RespType.framed_arrayOf
    have := RespType.framed_bulks e.2
    simp [this]

theorem framed_readStreams {count : Option Nat} {stream : List (String × Nat × Nat)} {t : RespType}
    (hr : readStreams data count stream = some t) : t.Framed := by
  unfold readStreams at hr
  simp only at hr
  split at hr
  · cases hr
  · cases hr
    apply RespType.framed_arrayOf
    intro t ht
    obtain ⟨⟨key, entries⟩, hmem, rfl⟩ := List.mem_map.mp ht
    obtain ⟨⟨key', id⟩, -, he⟩ := List.mem_filterMap.mp hmem
    obtain ⟨u, hex, heq⟩ := Option.map_eq_some_iff.mp he
    obtain ⟨-, rfl⟩ := Prod.mk.inj heq
    have hentries := framed_streamEntries hex
    apply RespType.framed_arrayOf
    simp [hentries]

theorem replies_xread {registry : RequestRegistry} {count block : Option Nat} {stream : List (String × Nat × Nat)}
    {now : Nat} : Replies P h clientId (.xread count block stream)
      (cmdXread h.data registry count block stream clientId now).2 := by
  have hother : (fun s : String × Nat × Nat => notStream h.data s.1) = fun s =>
      holdsOther h.data s.1 isStreamValue := by
    funext s
    unfold notStream holdsOther
    cases h.data.lookup s.1 with
    | none => rfl
    | some item =>
      obtain ⟨value, x⟩ := item
      cases value <;> rfl
  unfold cmdXread
  split
  · rename_i key rest hf
    refine .refused ?_ id
    rw [refusedKey, ← hother, hf]
    rfl
  · rename_i hf
    have hkey : refusedKey h.data (.xread count block stream) = none := by
      rw [refusedKey, ← hother, hf]
      rfl
    simp only
    split
    · rename_i t ht
      exact .frame (framed_readStreams ht) hkey id id
    · split
      · exact .frame (by simp) hkey id id
      · exact .nothing (.inr trivial) hkey

/-! ## Commands without exceptions -/

structure Plain (h : CmdHandler) (clientId : Nat) (cmd : Cmd) : Prop where
  key : refusedKey h.data cmd = none
  range : ¬ ShortRange h.data cmd
  answers : ¬ Silent h clientId cmd

variable {cmd : Cmd} {o : IterOrder}

theorem Plain.frame (hp : Plain h clientId cmd) {t : RespType} (ht : t.Framed) : Replies P h clientId cmd (reply t) :=
  .frame ht hp.key hp.range hp.answers

theorem Plain.failed (hp : Plain h clientId cmd) {e : CustomError} (he : e.Framed) :
    Replies P h clientId cmd (.error e) :=
  .failed (fun _ => he) hp.key hp.range hp.answers

theorem Plain.ok (hp : Plain h clientId cmd) : Replies P h clientId cmd responseOk := hp.frame framed_ok

theorem replies_incr (hp : Plain h clientId cmd) : Replies P h clientId cmd (cmdIncr data key).2 := by
  unfold cmdIncr
  simp only
  split
  · split
    · split
      · exact hp.frame (by simp)
      · exact hp.failed framed_overflow
    · exact hp.failed framed_outOfRange
  · exact hp.failed framed_outOfRange

theorem framed_getType (value : StoreValue) : (RespType.simpleStr (some value.getType)).Framed := by
  rw [RespType.Framed]
  apply crlf_not_infix_of_all
  cases value <;> rfl

theorem replies_type (hp : Plain h clientId cmd) : Replies P h clientId cmd (cmdType data key) := by
  unfold cmdType
  split
  · exact hp.frame (framed_getType _)
  · apply hp.frame
    rw [RespType.Framed]
    exact crlf_not_infix_of_all rfl

/-! ## Sorted sets and positions -/

theorem replies_addMember (hp : Plain h clientId cmd) {score : F64} {member : String} {r : Data × CmdResult}
    (hr : addMember data key score member = some r) : Replies P h clientId cmd r.2 := by
  unfold addMember at hr
  split at hr
  · obtain ⟨_, _, rfl⟩ := Option.map_eq_some_iff.mp hr
    exact hp.frame (by simp)
  · cases hr
    exact hp.failed framed_wrongType

theorem replies_withZSet (hp : Plain h clientId cmd) {absent : CmdResult} {found : SortedSet → Option CmdResult}
    {r : CmdResult} (hr : withZSet data key absent found = some r) (habsent : Replies P h clientId cmd absent)
    (hfound : ∀ set r, found set = some r → Replies P h clientId cmd r) : Replies P h clientId cmd r := by
  unfold withZSet at hr
  split at hr
  · split at hr
    · exact hfound _ _ hr
    · cases hr
      exact hp.failed framed_wrongType
  · cases hr
    exact habsent

theorem replies_zrank (hp : Plain h clientId cmd) {member : String} {r : CmdResult}
    (hr : cmdZrank data key member = some r) : Replies P h clientId cmd r := by
  refine replies_withZSet hp hr (hp.frame (by simp)) fun set r hf => ?_
  obtain ⟨rank, -, rfl⟩ := Option.map_eq_some_iff.mp hf
  cases rank with
  | none => exact hp.frame (by simp)
  | some rank => exact hp.frame (by simp)

theorem replies_zrange (hp : Plain h clientId cmd) {start stop : Int} {r : CmdResult}
    (hr : cmdZrange data key start stop = some r) : Replies P h clientId cmd r := by
  refine replies_withZSet hp hr (hp.frame (by simp)) fun set r hf => ?_
  cases hf
  split
  · exact hp.frame (by simp)
  · exact hp.frame (RespType.framed_bulks _)

theorem replies_zcard (hp : Plain h clientId cmd) {r : CmdResult} (hr : cmdZcard data key = some r) :
    Replies P h clientId cmd r := by
  refine replies_withZSet hp hr (hp.frame (by simp)) fun set r hf => ?_
  cases hf
  exact hp.frame (by simp)

theorem replies_zscore (hp : Plain h clientId cmd) {member : String} {r : CmdResult}
    (hr : cmdZscore P data key member = some r) : Replies P h clientId cmd r := by
  refine replies_withZSet hp hr (hp.frame (by simp)) fun set r hf => ?_
  cases hf
  split
  · exact hp.frame (by simp)
  · exact hp.frame (by simp)

theorem replies_zrem (hp : Plain h clientId cmd) {member : String} {r : Data × CmdResult}
    (hr : cmdZrem data key member = some r) : Replies P h clientId cmd r.2 := by
  unfold cmdZrem at hr
  split at hr
  · obtain ⟨_, _, rfl⟩ := Option.map_eq_some_iff.mp hr
    exact hp.frame (by simp)
  · cases hr
    exact hp.failed framed_wrongType
  · cases hr
    exact hp.frame (by simp)

theorem framed_geoError (hP : PrintsPlain P) {long lat : String} {e : CustomError}
    (he : geoScore P long lat = .error e) :
    e.Framed := by
  have hfloat : ∀ s, (CustomError.parseError (parseFloatError s)).Framed := by
    intro s
    apply CustomError.framed_text rfl
    unfold parseFloatError
    split <;> rfl
  unfold geoScore at he
  split at he
  · cases he
    exact hfloat _
  · split at he
    · cases he
      exact hfloat _
    · rename_i x y
      unfold Geohash.encode at he
      split at he
      · cases he
        apply CustomError.framed_text rfl
        have hfixed : ∀ x, (utf8 (P.f64.fixed6 x)).all (· != 13) = true := by
          intro x
          apply all_ne_cr (hP x)
        simp only [utf8_append, List.all_append, hfixed, Bool.and_true]
        rfl
      · cases he

theorem replies_geoadd (hp : Plain h clientId cmd) {long lat member : String} {r : Data × CmdResult}
    (hr : cmdGeoadd P data key long lat member = some r) : Replies P h clientId cmd r.2 := by
  unfold cmdGeoadd at hr
  simp only at hr
  split at hr
  · rename_i e he
    cases hr
    exact .failed (fun hP => framed_geoError hP he) hp.key hp.range hp.answers
  · exact replies_addMember hp hr

theorem replies_geopos (hp : Plain h clientId cmd) {members : List String} {r : CmdResult}
    (hr : cmdGeopos P data key members = some r) : Replies P h clientId cmd r := by
  refine replies_withZSet hp hr (hp.frame ?_) fun set r hf => ?_
  · apply RespType.framed_arrayOf
    simp
  · cases hf
    apply hp.frame
    apply RespType.framed_arrayOf
    intro t ht
    obtain ⟨m, -, rfl⟩ := List.mem_map.mp ht
    split
    · apply RespType.framed_arrayOf
      simp
    · simp

theorem framed_distanceError {locations : List (F64 × F64)} {e : CustomError}
    (he : Geohash.distance P.f64 locations = .error e) : e.Framed := by
  unfold Geohash.distance at he
  split at he
  · simp only at he
    split at he <;> cases he
  · cases he
    exact CustomError.framed_text rfl rfl

theorem replies_geodist (hp : Plain h clientId cmd) {members : List String} {r : CmdResult}
    (hr : cmdGeodist P data key members = some r) : Replies P h clientId cmd r := by
  refine replies_withZSet hp hr (hp.frame (by simp)) fun set r hf => ?_
  cases hf
  cases hd : Geohash.distance P.f64 (locations P set members) with
  | ok d => exact hp.frame (by simp)
  | error e => exact hp.failed (framed_distanceError hd)

theorem framed_mapM_error {α β : Type} {f : α → Except CustomError β} (hf : ∀ x e, f x = .error e → e.Framed)
    {l : List α} {e : CustomError} (he : l.mapM f = .error e) : e.Framed := by
  induction l with
  | nil => cases he
  | cons x l ih =>
    rw [List.mapM_cons] at he
    cases hx : f x with
    | error e' =>
      rw [hx] at he
      cases he
      exact hf x _ hx
    | ok y =>
      rw [hx] at he
      cases hl : l.mapM f with
      | error e' =>
        have he' : (Except.error e' : Except CustomError (List β)) = .error e := by rw [← he, hl]; rfl
        cases he'
        exact ih hl
      | ok ys =>
        have he' : (Except.ok (y :: ys) : Except CustomError (List β)) = .error e := by rw [← he, hl]; rfl
        cases he'

theorem Plain.bind (hp : Plain h clientId cmd) {α : Type} {x : Except CustomError α} {f : α → CmdResult}
    (hx : ∀ e, x = .error e → e.Framed) (hf : ∀ a, Replies P h clientId cmd (f a)) :
    Replies P h clientId cmd (x >>= f) := by
  cases x with
  | error e => exact hp.failed (hx e rfl)
  | ok a => exact hf a

theorem replies_geosearch {fromArg byArg : CmdArg} :
    Replies P h clientId (.geosearch key fromArg byArg) (cmdGeosearch P o h.data key fromArg byArg) := by
  unfold cmdGeosearch
  split
  · rename_i hl
    have hp : Plain h clientId (.geosearch key fromArg byArg) :=
      ⟨rfl, id, by simp [Silent, holdsOther_false hl]⟩
    exact hp.frame (by simp)
  · rename_i item hl
    split
    · rename_i set hv
      have hp : Plain h clientId (.geosearch key fromArg byArg) :=
        ⟨rfl, id, by simp [Silent, holdsOther_some hl, hv, isZSet]⟩
      split
      · split
        · refine hp.bind (fun e he => framed_mapM_error ?_ he) fun near => ?_
          · intro x e hx
            simp only at hx
            cases hd : Geohash.distance P.f64 _ with
            | error e' =>
              rw [hd] at hx
              cases hx
              exact framed_distanceError hd
            | ok d =>
              rw [hd] at hx
              cases hx
          · simp only
            split
            · exact hp.frame (by simp)
            · exact hp.frame (RespType.framed_bulks _)
        · exact hp.failed (CustomError.framed_text rfl rfl)
      · exact hp.failed (CustomError.framed_text rfl rfl)
    · rename_i hno
      refine .nothing (.inl ?_) rfl
      have : isZSet item.value = false := by
        cases hv : item.value with
        | zSet set => exact absurd hv (hno set)
        | _ => rfl
      simp [Silent, holdsOther_some hl, this]

/-! ## Bitmaps -/

theorem replies_setbit (hp : Plain h clientId cmd) {offset bit : Nat} :
    Replies P h clientId cmd (cmdSetbit data key offset bit).2 := by
  have hset : ∀ map e, setBit map offset bit = .error e → e.Framed := by
    intro map e he
    unfold setBit at he
    cases hb : BitValue.tryFrom bit with
    | error e' =>
      rw [hb] at he
      cases he
      unfold BitValue.tryFrom at hb
      split at hb
      · cases hb
      · split at hb
        · cases hb
        · cases hb
          exact CustomError.framed_text rfl rfl
    | ok value =>
      rw [hb] at he
      simp only [bind, Except.bind] at he
      split at he
      · cases he
      · unfold BitOps.set at he
        split at he
        · cases he
          rw [CustomError.Framed, CustomError.intoResp, RespType.Framed]
          trivial
        · split at he <;> cases he
  unfold cmdSetbit
  simp only
  split
  · split
    · split
      · exact hp.frame (by simp)
      · rename_i e he
        exact hp.failed (hset _ _ he)
    · exact hp.frame (by simp)
  · apply hp.failed
    rw [CustomError.Framed, CustomError.intoResp, RespType.Framed]
    trivial

theorem replies_getbit (hp : Plain h clientId cmd) {offset : Nat} :
    Replies P h clientId cmd (cmdGetbit data key offset) := by
  unfold cmdGetbit
  split
  · split
    · exact hp.frame (by simp)
    · exact hp.failed framed_wrongDataType
  · exact hp.frame (by simp)

theorem replies_strlen (hp : Plain h clientId cmd) : Replies P h clientId cmd (cmdStrlen data key) := by
  unfold cmdStrlen
  split
  · split
    · exact hp.frame (by simp)
    · exact hp.failed framed_wrongDataType
  · exact hp.frame (by simp)

theorem replies_bitcount (hp : Plain h clientId cmd) {range : Option BitRange} :
    Replies P h clientId cmd (cmdBitcount data key range) := by
  unfold cmdBitcount
  split
  · split
    · exact hp.frame (by simp)
    · exact hp.failed framed_wrongDataType
  · exact hp.frame (by simp)

theorem framed_bitopSource {e : CustomError} (he : bitopSource data key = .error e) : e.Framed := by
  unfold bitopSource at he
  split at he
  · split at he
    · cases he
    · cases he
      exact framed_wrongDataType
  · cases he

theorem replies_bitop (hp : Plain h clientId cmd) {args : CmdArg} :
    Replies P h clientId cmd (cmdBitop data args).2 := by
  have hop : ∀ op dest key1 key2, Replies P h clientId cmd (bitop op data dest key1 key2).2 := by
    intro op dest key1 key2
    unfold bitop
    split
    · rename_i e he
      exact hp.failed (framed_bitopSource he)
    · split
      · rename_i e he
        exact hp.failed (framed_bitopSource he)
      · exact hp.frame (by simp)
  cases args with
  | and => exact hop ..
  | or => exact hop ..
  | _ => exact hp.failed (CustomError.framed_text rfl rfl)

theorem replies_keys (hp : Plain h clientId cmd) {arg : String} : Replies P h clientId cmd (cmdKeys o data arg) := by
  unfold cmdKeys
  split
  · exact hp.frame (RespType.framed_bulks _)
  · exact hp.failed (CustomError.framed_text rfl rfl)

/-! ## The session -/

theorem replies_ping (hp : Plain h clientId cmd) {isSubscriber : Bool} :
    Replies P h clientId cmd (cmdPing isSubscriber) := by
  unfold cmdPing
  split
  · apply hp.frame
    apply RespType.framed_arrayOf
    simp
  · apply hp.frame
    rw [RespType.Framed]
    exact crlf_not_infix_of_all rfl

theorem replies_set (hp : Plain h clientId cmd) {value : String} {opt : Option CmdArg} {now : Nat}
    {r : Data × CmdResult}
    (hr : cmdSet data key value opt now = some r) : Replies P h clientId cmd r.2 := by
  obtain ⟨_, _, rfl⟩ := Option.map_eq_some_iff.mp hr
  exact hp.ok

theorem replies_multi (hp : Plain h clientId cmd) {registry : RequestRegistry} :
    Replies P h clientId cmd (cmdMulti registry clientId).2 := by
  unfold cmdMulti
  split
  · exact hp.failed (CustomError.framed_text rfl rfl)
  · exact hp.ok

theorem replies_discard (hp : Plain h clientId cmd) {registry : RequestRegistry} :
    Replies P h clientId cmd (cmdDiscard registry clientId).2 := by
  unfold cmdDiscard
  split
  · exact hp.ok
  · exact hp.failed (CustomError.framed_text rfl rfl)

theorem replies_info {appStates : AppStates} : Replies P h clientId (.info key) (cmdInfo appStates key) := by
  unfold cmdInfo
  split
  · rename_i hup
    have hp : Plain h clientId (.info key) := ⟨rfl, id, fun hs => hs hup⟩
    split
    · split
      · exact hp.failed (CustomError.framed_text rfl rfl)
      · split
        · exact hp.failed (CustomError.framed_text rfl rfl)
        · split
          · exact hp.failed (CustomError.framed_text rfl rfl)
          · exact hp.frame (by simp)
    · split
      · exact hp.failed (CustomError.framed_text rfl rfl)
      · exact hp.frame (by simp)
  · rename_i hup
    exact .nothing (.inl hup) rfl

theorem replies_psync {id : String} {offset : Int} :
    Replies P h clientId (.psync id offset) (cmdPsync h id offset clientId).2 := by
  unfold cmdPsync
  split
  · rename_i hask
    split
    · exact .failed (fun _ => CustomError.framed_text rfl rfl) rfl (fun hs => hs) fun hs => hs hask
    · refine .stream trivial ?_
      have hne : ¬ Silent h clientId (.psync id offset) := fun hs => hs hask
      simp only [hne, iff_false, List.append_eq_nil_iff, not_and]
      intro hnil
      rw [RespType.frame, RespType.serialize] at hnil
      simp [delimiter] at hnil
  · rename_i hask
    exact .nothing (.inl hask) rfl

theorem replies_replconf {arg : CmdArg} {epollFd : Option Int} {h' : CmdHandler} {r : CmdResult}
    (hr : cmdReplconf h arg clientId epollFd = some (h', r)) : Replies P h clientId (.replconf arg) r := by
  unfold cmdReplconf at hr
  split at hr
  · rename_i s
    split at hr
    · rename_i hs
      have hp : Plain h clientId (.replconf (.getAck s)) := ⟨rfl, id, fun hn => hn hs⟩
      split at hr
      · cases hr
        exact hp.failed (CustomError.framed_text rfl rfl)
      · cases hr
        apply hp.frame
        apply RespType.framed_arrayOf
        simp
    · rename_i hs
      cases hr
      exact .nothing (.inl hs) rfl
  · cases hr
    exact .frame framed_ok rfl id id
  · cases hr
    exact .frame framed_ok rfl id id
  · obtain ⟨_, _, _, _, rfl, _⟩ := cmdAck_cases hr
    exact .nothing (.inr trivial) rfl
  · rename_i h₁ h₂ h₃ h₄
    cases hr
    refine .nothing (.inl ?_) rfl
    cases arg with
    | getAck s => exact absurd rfl (h₁ s)
    | listeningPort n => exact absurd rfl (h₂ n)
    | capa s => exact absurd rfl (h₃ s)
    | _ => trivial

theorem replies_wait {count : Nat} {timeoutMs : Option Nat} {now : Nat} {epollFd : Option Int} {h' : CmdHandler}
    {r : CmdResult} (hr : cmdWait o h count timeoutMs clientId now epollFd = some (h', r)) :
    Replies P h clientId (.wait count timeoutMs) r := by
  have hp : Plain h clientId (.wait count timeoutMs) := ⟨rfl, id, id⟩
  unfold cmdWait at hr
  split at hr
  · cases hr
    exact hp.frame (by simp)
  · split at hr
    · cases hr
      exact hp.failed (CustomError.framed_text rfl rfl)
    · split at hr
      · cases hr
        exact hp.frame (by simp)
      · simp only at hr
        split at hr
        · cases hr
          exact .nothing (.inr trivial) rfl
        · cases hr

theorem replies_config (hp : Plain h clientId cmd) {configs : Configs} {arg : CmdArg} :
    Replies P h clientId cmd (cmdConfig configs arg) := by
  cases arg with
  | get key =>
    simp only [cmdConfig]
    cases hg : configs.getAttr key with
    | ok value =>
      apply hp.frame
      apply RespType.framed_arrayOf
      simp
    | error e =>
      apply hp.failed
      unfold Configs.getAttr at hg
      repeat' split at hg
      all_goals first
        | cases hg; exact CustomError.framed_text rfl rfl
        | cases hg
  | _ => exact hp.failed (CustomError.framed_text rfl rfl)

theorem subscribeReply_ne_nil (known : Bool) (before after : HashMap String (HashSet Nat)) :
    subscribeReply known before after clientId key ≠ [] := by
  have hframed : ∀ n : Nat, (channelReply "subscribe" key n).Framed := by
    intro n
    apply RespType.framed_arrayOf
    simp
  obtain ⟨b, hb, hf⟩ := (hframed _).serialize
  unfold subscribeReply RespType.frame
  rw [hb]
  exact hf.ne_nil

theorem replies_subscribe {keys : List String} :
    Replies P h clientId (.subscribe keys) (cmdSubscribe h keys clientId).2 := by
  refine .stream trivial ?_
  have hfold : ∀ (known : Bool) (keys : List String) (channels : HashMap String (HashSet Nat)) (responses : Bytes),
      (keys.foldl (fun (channels, responses) key =>
        let after := joinChannel clientId channels key
        (after, responses ++ subscribeReply known channels after clientId key)) (channels, responses)).2 = [] ↔
        keys = [] ∧ responses = [] := by
    intro known keys
    induction keys with
    | nil => simp
    | cons key keys ih =>
      intro channels responses
      rw [List.foldl_cons, ih]
      simp [subscribeReply_ne_nil]
  have := hfold (h.isSubscriber clientId) keys h.channels []
  simpa [Silent] using this

theorem replies_unsubscribe : Replies P h clientId (.unsubscribe key) (cmdUnsubscribe h key clientId).2 := by
  unfold cmdUnsubscribe
  split
  · rename_i hs
    have hp : Plain h clientId (.unsubscribe key) := ⟨rfl, id, by simp [Silent, hs]⟩
    apply hp.frame
    apply RespType.framed_arrayOf
    simp
  · rename_i hs
    exact .nothing (.inl (by simpa [Silent] using hs)) rfl

theorem replies_publish {message : String} :
    Replies P h clientId (.publish key message) (cmdPublish o h key message).2 := by
  unfold cmdPublish
  split
  · rename_i set hl
    have hk : key ∈ h.channels := HashMap.mem_of_lookup hl
    have hp : Plain h clientId (.publish key message) := ⟨rfl, id, by simp [Silent, hk]⟩
    exact hp.frame (by simp)
  · rename_i hl
    exact .nothing (.inl (AList.lookup_eq_none.mp hl)) rfl

theorem framed_getUsername {auth : Auth} {e : CustomError} (he : auth.getUsername clientId = .error e) : e.Framed := by
  unfold Auth.getUsername at he
  split at he
  · cases he
  · cases he
    exact CustomError.framed_text rfl rfl

theorem framed_wrongUsername : wrongUsername.Framed := CustomError.framed_text rfl rfl

theorem framed_bulksOrEmpty (l : List String) : (bulksOrEmpty l).Framed := by
  unfold bulksOrEmpty
  split
  · simp
  · exact RespType.framed_bulks l

theorem replies_acl (hp : Plain h clientId cmd) {auth : Auth} {arg : CmdArg} :
    Replies P h clientId cmd (cmdAcl P o auth clientId arg).2 := by
  cases arg with
  | whoAmI =>
    exact hp.bind (fun _ => framed_getUsername) fun username => hp.frame (by simp)
  | getUser username =>
    refine hp.bind (fun _ => framed_getUsername) fun stored => ?_
    split
    · exact hp.failed framed_wrongUsername
    · split
      · exact hp.failed framed_wrongUsername
      · rename_i credential _
        apply hp.frame
        apply RespType.framed_arrayOf
        simp [framed_bulksOrEmpty]
  | setUser key rules =>
    simp only [cmdAcl, cmdAclSetuser]
    split
    · exact hp.failed framed_wrongUsername
    · exact hp.ok
  | _ => exact hp.failed (CustomError.framed_text rfl rfl)

theorem replies_auth (hp : Plain h clientId cmd) {auth : Auth} {username password : String} :
    Replies P h clientId cmd (cmdAuth P auth username password clientId).2 := by
  unfold cmdAuth
  split
  · exact hp.ok
  · exact hp.failed (CustomError.framed_text rfl rfl)

theorem dispatch_replies {exec : CmdHandler → Nat → Option (CmdHandler × CmdResult)} {isSubscriber : Bool}
    {now : Nat} {epollFd : Option Int} {h' : CmdHandler} {r : CmdResult}
    (hexec : ∀ g r, exec h clientId = some (g, r) → Replies P h clientId .exec r)
    (hd : dispatch P o exec h now isSubscriber clientId epollFd cmd = some (h', r)) : Replies P h clientId cmd r := by
  have hdata : ∀ {x : CmdHandler × CmdResult}, x = (h', r) → Replies P h clientId cmd x.2 →
      Replies P h clientId cmd r := by
    intro x hx hr
    rw [hx] at hr
    exact hr
  have hdata? : ∀ {w : Option (Data × CmdResult)}, w.map h.withData = some (h', r) →
      (∀ x, w = some x → Replies P h clientId cmd x.2) → Replies P h clientId cmd r := by
    intro w hw hr
    obtain ⟨x, hx, heq⟩ := Option.map_eq_some_iff.mp hw
    exact hdata heq (hr x hx)
  have hread? : ∀ {w : Option CmdResult}, w.map (h, ·) = some (h', r) →
      (∀ x, w = some x → Replies P h clientId cmd x) → Replies P h clientId cmd r := by
    intro w hw hr
    obtain ⟨x, hx, heq⟩ := Option.map_eq_some_iff.mp hw
    cases heq
    exact hr _ hx
  cases cmd <;> simp only [dispatch, Option.some.injEq] at hd
  case exec => exact hexec h' r hd
  case ping => exact hdata hd (replies_ping ⟨rfl, id, id⟩)
  case pong | ok | fullresync | rdb | psubscribe | punsubscribe | quit => exact hdata hd (.nothing (.inl trivial) rfl)
  case echo s => exact hdata hd (Plain.frame ⟨rfl, id, id⟩ (by simp))
  case set => exact hdata? hd fun x hx => replies_set ⟨rfl, id, id⟩ hx
  case get => exact hdata hd (replies_get now)
  case rpush => exact hdata hd (replies_push rfl id id)
  case lpush => exact hdata hd (replies_push rfl id id)
  case lrange => exact hdata hd replies_lrange
  case llen => exact hdata hd replies_llen
  case lpop => exact hdata hd replies_lpop
  case blpop => exact hdata hd replies_blpop
  case type => exact hdata hd (replies_type ⟨rfl, id, id⟩)
  case xadd => exact hdata hd replies_xadd
  case xrange => exact hread? hd fun x hx => replies_xrange hx
  case xread => exact hdata hd replies_xread
  case incr => exact hdata hd (replies_incr ⟨rfl, id, id⟩)
  case multi => exact hdata hd (replies_multi ⟨rfl, id, id⟩)
  case discard => exact hdata hd (replies_discard ⟨rfl, id, id⟩)
  case watch => exact hdata hd (Plain.ok ⟨rfl, id, id⟩)
  case unwatch => exact hdata hd (Plain.ok ⟨rfl, id, id⟩)
  case info => exact hdata hd replies_info
  case psync => exact hdata hd replies_psync
  case replconf => exact replies_replconf hd
  case wait => exact replies_wait hd
  case config => exact hdata hd (replies_config ⟨rfl, id, id⟩)
  case keys => exact hdata hd (replies_keys ⟨rfl, id, id⟩)
  case subscribe => exact hdata hd replies_subscribe
  case unsubscribe => exact hdata hd replies_unsubscribe
  case publish => exact hdata hd replies_publish
  case zadd => exact hdata? hd fun x hx => replies_addMember ⟨rfl, id, id⟩ hx
  case zrank => exact hread? hd fun x hx => replies_zrank ⟨rfl, id, id⟩ hx
  case zrange => exact hread? hd fun x hx => replies_zrange ⟨rfl, id, id⟩ hx
  case zcard => exact hread? hd fun x hx => replies_zcard ⟨rfl, id, id⟩ hx
  case zscore => exact hread? hd fun x hx => replies_zscore ⟨rfl, id, id⟩ hx
  case zrem => exact hdata? hd fun x hx => replies_zrem ⟨rfl, id, id⟩ hx
  case geoadd => exact hdata? hd fun x hx => replies_geoadd ⟨rfl, id, id⟩ hx
  case geopos => exact hread? hd fun x hx => replies_geopos ⟨rfl, id, id⟩ hx
  case geodist => exact hread? hd fun x hx => replies_geodist ⟨rfl, id, id⟩ hx
  case geosearch => exact hdata hd replies_geosearch
  case acl => exact hdata hd (replies_acl ⟨rfl, id, id⟩)
  case auth => exact hdata hd (replies_auth ⟨rfl, id, id⟩)
  case setbit => exact hdata hd (replies_setbit ⟨rfl, id, id⟩)
  case getbit => exact hdata hd (replies_getbit ⟨rfl, id, id⟩)
  case strlen => exact hdata hd (replies_strlen ⟨rfl, id, id⟩)
  case bitcount => exact hdata hd (replies_bitcount ⟨rfl, id, id⟩)
  case bitop => exact hdata hd (replies_bitop ⟨rfl, id, id⟩)

theorem Replies.serialize {t : RespType} (hr : Replies P h clientId cmd (.ok (some t))) :
    ∃ b, t.serialize = some b := by
  cases hr with
  | frame ht =>
    obtain ⟨b, hb, -⟩ := ht.serialize
    exact ⟨b, hb⟩
  | short => exact ⟨_, rfl⟩
  | stream => exact ⟨_, rfl⟩

end

end CmdHandler

end Redis
