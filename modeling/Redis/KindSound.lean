import Redis.Calls

/-!
# The type of a key

SET and BITOP put something new under a key. Every other command, and the
service of the BLPOPs that wait, works on what is there: the key stays, with its
type and its expiry.
-/

namespace Redis

open Lib

def Cmd.replaces : Cmd → Option String
  | .set key .. => some key
  | .bitop (.and dest ..) | .bitop (.or dest ..) => some dest
  | _ => none

structure StoreItem.SameKind (a b : StoreItem) : Prop where
  type : b.value.getType = a.value.getType
  expiry : b.expiredAt = a.expiredAt

def Data.Keeps (data data' : Data) (key : String) : Prop :=
  ∀ item, data.lookup key = some item → ∃ item', data'.lookup key = some item' ∧ item.SameKind item'

namespace Data.Keeps

variable {data data' data'' : Data} {key : String}

theorem of_eq (h : data'.lookup key = data.lookup key) : Data.Keeps data data' key := by
  intro item hl
  exact ⟨item, h.trans hl, rfl, rfl⟩

theorem refl (data : Data) (key : String) : Data.Keeps data data key := of_eq rfl

theorem trans (h : Data.Keeps data data' key) (h' : Data.Keeps data' data'' key) : Data.Keeps data data'' key := by
  intro item hl
  obtain ⟨item', hl', hkind⟩ := h item hl
  obtain ⟨item'', hl'', hkind'⟩ := h' item' hl'
  exact ⟨item'', hl'', hkind'.type.trans hkind.type, hkind'.expiry.trans hkind.expiry⟩

theorem modify {value value' : StoreValue} {x : Option Nat} (hl : data.lookup key = some ⟨value, x⟩)
    (ht : value'.getType = value.getType) : Data.Keeps data (data.modify key fun _ => ⟨value', x⟩) key := by
  intro item hi
  rw [hl] at hi
  cases hi
  have hwritten : (data.modify key fun _ => ⟨value', x⟩).lookup key = some ⟨value', x⟩ := by
    rw [HashMap.lookup_modify, hl]
    rfl
  exact ⟨_, hwritten, ht, rfl⟩

theorem orInsert (data : Data) (key : String) (item : StoreItem) :
    Data.Keeps data (HashMap.orInsert key item data) key := by
  intro item' hl
  exact ⟨item', by rw [HashMap.lookup_orInsert, hl]; rfl, rfl, rfl⟩

end Data.Keeps

namespace CmdHandler

open Data

section
variable {P : Platform} {o : IterOrder} {data data' : Data} {key : String} {r : CmdResult}

/-! ## Commands on values -/

theorem push_keeps {extend : List String → List String} (hp : push extend data key = (data', r)) :
    Keeps data data' key := by
  have hmade := Keeps.orInsert data key { value := .list [], expiredAt := none }
  unfold push at hp
  simp only at hp
  split at hp
  · rename_i items x hl
    cases hp
    exact hmade.trans (.modify hl rfl)
  · cases hp
    exact hmade

theorem setList_keeps {items items' : List String} {x : Option Nat} (hl : data.lookup key = some ⟨.list items, x⟩) :
    Keeps data (setList data key items') key := by
  intro item hi
  rw [hl] at hi
  cases hi
  have hwritten : (setList data key items').lookup key = some ⟨.list items', x⟩ := by
    rw [setList, HashMap.lookup_modify, hl]
    rfl
  exact ⟨_, hwritten, rfl, rfl⟩

theorem cmdLpop_keeps {length : Option Nat} (hp : cmdLpop data key length = (data', r)) : Keeps data data' key := by
  unfold cmdLpop at hp
  split at hp
  · rename_i item hl
    obtain ⟨value, x⟩ := item
    cases value with
    | list items =>
      simp only at hp
      split at hp
      · cases hp
        exact setList_keeps hl
      · split at hp
        · cases hp
          exact setList_keeps hl
        · cases hp
          exact .refl data key
    | _ =>
      cases hp
      exact .refl data key
  · cases hp
    exact .refl data key

theorem cmdBlpop_keeps {registry registry' : RequestRegistry} {timeoutMs : Option Nat} {clientId now : Nat}
    (hb : cmdBlpop data registry key timeoutMs clientId now = ((data', registry'), r)) : Keeps data data' key := by
  rcases cmdBlpop_cases hb with ⟨s, items, x, hl, _, rfl, _⟩ | ⟨rfl, _⟩ | ⟨_, rfl, _⟩
  · exact setList_keeps hl
  · exact .refl _ key
  · exact .refl _ key

theorem cmdIncr_keeps (hi : cmdIncr data key = (data', r)) : Keeps data data' key := by
  have hmade := Keeps.orInsert data key { value := .str "0", expiredAt := none }
  unfold cmdIncr at hi
  simp only at hi
  split at hi
  · rename_i s x hl
    split at hi
    · split at hi
      · cases hi
        exact hmade.trans (.modify hl rfl)
      · cases hi
        exact hmade
    · cases hi
      exact hmade
  · cases hi
    exact hmade

theorem cmdXadd_keeps {id : Option Nat × Option Nat} {value : List String} {now : Nat}
    (hx : cmdXadd data key id value now = (data', r)) : Keeps data data' key := by
  have hmade := Keeps.orInsert data key { value := .stream .empty, expiredAt := none }
  unfold cmdXadd at hx
  simp only at hx
  split at hx
  · rename_i entries x hl
    split at hx
    · cases hx
      exact hmade
    · cases hx
      exact hmade.trans (.modify hl rfl)
  · cases hx
    exact hmade

theorem cmdSetbit_keeps {offset bit : Nat} (hs : cmdSetbit data key offset bit = (data', r)) :
    Keeps data data' key := by
  have hmade := Keeps.orInsert data key
    { value := .bitmap (Bitmap.new ((1 + offset) % 2 ^ 64)), expiredAt := none }
  unfold cmdSetbit at hs
  simp only at hs
  split at hs
  · rename_i map x hl
    split at hs
    · split at hs
      · cases hs
        exact hmade.trans (.modify hl rfl)
      · cases hs
        exact hmade
    · cases hs
      exact hmade
  · cases hs
    exact hmade

theorem addMember_keeps {score : F64} {member : String} (ha : addMember data key score member = some (data', r)) :
    Keeps data data' key := by
  unfold addMember at ha
  split at ha
  · rename_i set x hl
    obtain ⟨_, _, heq⟩ := Option.map_eq_some_iff.mp ha
    cases heq
    exact .modify hl rfl
  · cases ha
    exact .refl data key

theorem cmdZadd_keeps {score : F64} {member : String} (hz : cmdZadd data key score member = some (data', r)) :
    Keeps data data' key := (Keeps.orInsert data key _).trans (addMember_keeps hz)

theorem cmdGeoadd_keeps {long lat member : String} (hg : cmdGeoadd P data key long lat member = some (data', r)) :
    Keeps data data' key := by
  have hmade : Keeps data (orNewZSet data key) key := .orInsert data key _
  unfold cmdGeoadd at hg
  simp only at hg
  split at hg
  · cases hg
    exact hmade
  · exact hmade.trans (addMember_keeps hg)

theorem cmdZrem_keeps {member : String} (hz : cmdZrem data key member = some (data', r)) : Keeps data data' key := by
  unfold cmdZrem at hz
  split at hz
  · rename_i set x hl
    obtain ⟨_, _, heq⟩ := Option.map_eq_some_iff.mp hz
    cases heq
    exact .modify hl rfl
  · cases hz
    exact .refl data key
  · cases hz
    exact .refl data key

theorem bitop_replaces {args : CmdArg} (ht : (Cmd.bitop args).target = some key) :
    (Cmd.bitop args).replaces = some key := by
  cases args with
  | and | or => exact ht
  | _ => cases ht

/-! ## All commands -/

theorem dispatch_keeps {exec : CmdHandler → Nat → Option (CmdHandler × CmdResult)} {h h' : CmdHandler}
    {now clientId : Nat} {isSubscriber : Bool} {epollFd : Option Int} {cmd : Cmd} (hno : cmd.replaces ≠ some key)
    (ht : cmd.target = some key)
    (hd : dispatch P o exec h now isSubscriber clientId epollFd cmd = some (h', r)) : Keeps h.data h'.data key := by
  have hwrite : ∀ {w : Option (Data × CmdResult)}, (∀ d r, w = some (d, r) → Keeps h.data d key) →
      w.map h.withData = some (h', r) → Keeps h.data h'.data key := by
    intro w hw hd
    obtain ⟨⟨d, r⟩, hs, heq⟩ := Option.map_eq_some_iff.mp hd
    cases heq
    exact hw d r hs
  cases cmd <;> simp only [Cmd.target, Cmd.dirtyKey, reduceCtorEq, Option.some.injEq] at ht <;>
    simp only [dispatch, Option.some.injEq] at hd
  case set => exact absurd (congrArg some ht) hno
  case bitop => exact absurd (bitop_replaces ht) hno
  all_goals subst ht
  case rpush | lpush =>
    cases hd
    exact push_keeps rfl
  case lpop =>
    cases hd
    exact cmdLpop_keeps rfl
  case blpop =>
    cases hd
    exact cmdBlpop_keeps rfl
  case incr =>
    cases hd
    exact cmdIncr_keeps rfl
  case xadd =>
    cases hd
    exact cmdXadd_keeps rfl
  case setbit =>
    cases hd
    exact cmdSetbit_keeps rfl
  case zadd => exact hwrite (fun d r => cmdZadd_keeps) hd
  case zrem => exact hwrite (fun d r => cmdZrem_keeps) hd
  case geoadd => exact hwrite (fun d r => cmdGeoadd_keeps) hd

theorem Call.Made.keeps {c : Call} (hm : Call.Made P o c) (hno : c.cmd.replaces ≠ some key) :
    Keeps c.before.data c.after.data key := by
  by_cases ht : c.cmd.target = some key
  · obtain ⟨_, _, exec, s, d, fd, ser, out, _, _, _, hd, hc⟩ := hm
    have hdata : Keeps (c.before.prepared c.cmd s).data d.data key := dispatch_keeps hno ht hd
    rw [conclude_data hc]
    exact hdata
  · exact .of_eq (hm.elsewhere ht)

/-! ## Runs -/

/-- A BLPOP that is served takes an item out of the list it waits for. -/
theorem backlogTask_keeps (h : CmdHandler) (entry : RequestEntry) : Keeps h.data (h.backlogTask entry).data key := by
  unfold backlogTask
  split
  · rename_i k hk
    split
    · rename_i item items x hl
      by_cases hkk : key = k
      · subst hkk
        exact setList_keeps hl
      · exact .of_eq (HashMap.lookup_modify_ne hkk _ _)
    · exact .refl h.data key
  · split <;> exact .refl h.data key
  · exact .refl h.data key

theorem step_keeps {h h' : CmdHandler} {e : Event} (hs : Steps P h (o, e) h')
    (hh : ∀ cmd buf clientId epollFd, e ≠ .handle cmd buf clientId epollFd) : Keeps h.data h'.data key := by
  cases e with
  | handle cmd buf clientId epollFd => exact absurd rfl (hh cmd buf clientId epollFd)
  | serveBacklogList =>
    cases hs
    unfold serveBacklogList
    split
    · exact serve_inv (I := fun g => Keeps h.data g.data key) (.refl h.data key)
        fun g t entry _ _ hg => hg.trans (backlogTask_keeps g entry)
    · exact .refl h.data key
  | serveBacklogStream =>
    cases hs
    rw [serveBacklogStream_data]
    exact .refl h.data key
  | expire =>
    rw [callbackDeadlineExpire_data (step_expire hs).2]
    exact .refl h.data key
  | process =>
    cases hs
    exact .refl h.data key

theorem runCalls_cons {h h' : CmdHandler} {label : IterOrder × Event} (hs : Steps P h label h')
    (labels : List (IterOrder × Event)) : runCalls P h (label :: labels) = h.calls P label ++ runCalls P h' labels := by
  rw [runCalls, collect, hs]
  rfl

/-- A key that is there stays, with its type and its expiry, as long as no SET and
no BITOP writes it. -/
theorem run_keeps_kind {h g : CmdHandler} {labels : List (IterOrder × Event)} (hr : Run (Steps P) h labels g)
    (hno : ∀ c ∈ runCalls P h labels, c.cmd.replaces ≠ some key) : Keeps h.data g.data key := by
  induction hr with
  | nil => exact .refl _ key
  | @cons h label h' labels g hs _ ih =>
    rw [runCalls_cons hs] at hno
    have hrest := ih fun c hc => hno c (List.mem_append_right _ hc)
    refine Keeps.trans ?_ hrest
    refine step_calls_only (I := fun g _ => Keeps h.data g.data key) hs (fun g t cs hg => hg) (fun _ _ _ hg => hg)
      (fun c cs hc hm hg => ?_) (fun hhandle hg => ?_) (.refl h.data key)
    · exact hg.trans (hm.keeps (hno c (List.mem_append_left _ hc)))
    · exact step_keeps hs hhandle

end

theorem run_keeps_kind_lpop : Keeps (play startup [ask 1 (.rpush "k" ["a"])]).data
    (play startup [ask 1 (.rpush "k" ["a"]), ask 2 (.lpop "k" none)]).data "k" := by
  have hr : Run (Steps .blank) (play startup [ask 1 (.rpush "k" ["a"])]) [ask 2 (.lpop "k" none)]
      (play startup [ask 1 (.rpush "k" ["a"]), ask 2 (.lpop "k" none)]) := .cons rfl .nil
  refine run_keeps_kind hr fun c hc => ?_
  have hlist : runCalls .blank (play startup [ask 1 (.rpush "k" ["a"])]) [ask 2 (.lpop "k" none)] =
      (play startup [ask 1 (.rpush "k" ["a"])]).calls .blank (ask 2 (.lpop "k" none)) := rfl
  rw [hlist] at hc
  rw [(calls_direct (by simp) hc).2]
  simp [Cmd.replaces]

end CmdHandler

end Redis
