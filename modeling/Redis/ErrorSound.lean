import Redis.Effects

/-!
# Failed commands

A command that fails leaves the key space as it is, unless it has made its key
before it looked at its arguments: XADD, SETBIT and GEOADD on a missing key.
Every other command checks first, or cannot fail once the key is made.
-/

namespace Redis

open Lib

namespace CmdHandler

def Leaves (P : Platform) (data : Data) : Cmd → Prop
  | .xadd key id _ => key ∉ data ∧ (id = (some 0, some 0) ∨ id.1 = none ∧ id.2.isSome)
  | .setbit key offset bit => key ∉ data ∧ bit ≠ 0 ∧ (1 < bit ∨ 2 ^ 64 ≤ 1 + offset)
  | .geoadd key long lat _ => key ∉ data ∧ ∃ e, geoScore P long lat = .error e
  | _ => False

section
variable {P : Platform} {o : IterOrder} {data data' : Data} {key : String} {e : CustomError}

/-! ## Commands on the key space -/

theorem orInsert_ne {item : StoreItem} (h : key ∉ data) : HashMap.orInsert key item data ≠ data := by
  intro heq
  have hl := lookup_orInsert_absent h item
  rw [heq, AList.lookup_eq_none.mpr h] at hl
  cases hl

theorem push_error {extend : List String → List String} (hp : push extend data key = (data', .error e)) :
    data' = data := by
  by_cases hk : key ∈ data
  · unfold push at hp
    rw [orInsert_known hk] at hp
    simp only at hp
    split at hp
    · cases hp
    · exact (Prod.mk.inj hp).1.symm
  · unfold push at hp
    simp only [lookup_orInsert_absent hk] at hp
    cases hp

theorem cmdLpop_error {length : Option Nat} (hp : cmdLpop data key length = (data', .error e)) : data' = data := by
  unfold cmdLpop at hp
  split at hp
  · split at hp
    · split at hp
      · cases hp
      · split at hp
        · cases hp
        · cases hp
    · exact (Prod.mk.inj hp).1.symm
  · cases hp

theorem cmdIncr_error (hi : cmdIncr data key = (data', .error e)) : data' = data := by
  by_cases hk : key ∈ data
  · unfold cmdIncr at hi
    rw [orInsert_known hk] at hi
    simp only at hi
    split at hi
    · split at hi
      · split at hi
        · cases hi
        · exact (Prod.mk.inj hi).1.symm
      · exact (Prod.mk.inj hi).1.symm
    · exact (Prod.mk.inj hi).1.symm
  · -- a new counter can be counted up
    have hzero : parseInt (2 ^ 63) "0" = .ok 0 := by decide
    unfold cmdIncr at hi
    simp only [lookup_orInsert_absent hk, hzero] at hi
    cases hi

theorem bitop_error {op : Bytes → Bytes → Bytes} {key1 key2 : String}
    (hb : bitop op data key key1 key2 = (data', .error e)) : data' = data := by
  unfold bitop at hb
  split at hb
  · exact (Prod.mk.inj hb).1.symm
  · split at hb
    · exact (Prod.mk.inj hb).1.symm
    · cases hb

theorem cmdBitop_error {args : CmdArg} (hb : cmdBitop data args = (data', .error e)) : data' = data := by
  cases args with
  | and => exact bitop_error hb
  | or => exact bitop_error hb
  | _ => exact (Prod.mk.inj hb).1.symm

theorem addMember_error {score : F64} {member : String}
    (ha : addMember data key score member = some (data', .error e)) :
    data' = data ∧ ∀ set x, data.lookup key ≠ some ⟨.zSet set, x⟩ := by
  unfold addMember at ha
  split at ha
  · obtain ⟨_, _, he⟩ := Option.map_eq_some_iff.mp ha
    cases he
  · rename_i hno
    cases ha
    exact ⟨rfl, hno⟩

theorem cmdZadd_error {score : F64} {member : String} (hz : cmdZadd data key score member = some (data', .error e)) :
    data' = data := by
  obtain ⟨hsame, hno⟩ := addMember_error hz
  by_cases hk : key ∈ data
  · rw [hsame, orNewZSet, orInsert_known hk]
  · exact absurd (lookup_orInsert_absent hk _) (hno _ _)

theorem cmdZrem_error {member : String} (hz : cmdZrem data key member = some (data', .error e)) : data' = data := by
  unfold cmdZrem at hz
  split at hz
  · obtain ⟨_, _, he⟩ := Option.map_eq_some_iff.mp hz
    cases he
  · cases hz
    rfl
  · cases hz

/-! ## Commands that can leave a key behind -/

theorem cmdXadd_error {id : Option Nat × Option Nat} {value : List String} {now : Nat}
    (hx : cmdXadd data key id value now = (data', .error e)) : data' = data ↔ ¬ Leaves P data (.xadd key id value) := by
  unfold cmdXadd at hx
  simp only at hx
  by_cases hk : key ∈ data
  · have hsame : data' = data := by
      rw [orInsert_known hk] at hx
      split at hx
      · split at hx
        · exact (Prod.mk.inj hx).1.symm
        · cases hx
      · exact (Prod.mk.inj hx).1.symm
    simp [hsame, Leaves, hk]
  · rw [lookup_orInsert_absent hk] at hx
    simp only at hx
    split at hx
    · rename_i e' he
      have hid := nextStreamId_none he
      cases hx
      simp [orInsert_ne hk, Leaves, hk, hid]
    · cases hx

theorem cmdSetbit_error {offset bit : Nat} (hs : cmdSetbit data key offset bit = (data', .error e)) :
    data' = data ↔ ¬ Leaves P data (.setbit key offset bit) := by
  unfold cmdSetbit at hs
  simp only at hs
  by_cases hk : key ∈ data
  · have hsame : data' = data := by
      rw [orInsert_known hk] at hs
      split at hs
      · split at hs
        · split at hs
          · cases hs
          · exact (Prod.mk.inj hs).1.symm
        · cases hs
      · exact (Prod.mk.inj hs).1.symm
    simp [hsame, Leaves, hk]
  · rw [lookup_orInsert_absent hk] at hs
    simp only at hs
    split at hs
    · rename_i hbit
      split at hs
      · cases hs
      · rename_i e' he
        rw [bitOf_new] at hbit
        have hbad : 1 < bit ∨ 2 ^ 64 ≤ 1 + offset := by
          by_contra hno
          obtain ⟨map, hmap⟩ := setBit_new offset (by omega)
          have hone : bit = 1 := by omega
          rw [hone, hmap] at he
          cases he
        have hleaves : Leaves P data (.setbit key offset bit) := ⟨hk, Ne.symm hbit, hbad⟩
        cases hs
        exact ⟨fun heq => absurd heq (orInsert_ne hk), fun hno => absurd hleaves hno⟩
    · cases hs

theorem cmdGeoadd_error {long lat member : String}
    (hg : cmdGeoadd P data key long lat member = some (data', .error e)) :
    data' = data ↔ ¬ Leaves P data (.geoadd key long lat member) := by
  unfold cmdGeoadd at hg
  simp only at hg
  split at hg
  · rename_i e' he
    cases hg
    by_cases hk : key ∈ data
    · simp [orNewZSet, orInsert_known hk, Leaves, hk]
    · simp [orNewZSet, orInsert_ne hk, Leaves, hk, he]
  · rename_i score hs
    have hsame : data' = data := cmdZadd_error hg
    simp [hsame, Leaves, hs]

/-! ## All commands -/

section
variable {h h' : CmdHandler} {now clientId : Nat} {epollFd : Option Int} {cmd : Cmd}

theorem cmdBlpop_error {timeoutMs : Option Nat} {registry : RequestRegistry}
    (hb : cmdBlpop h.data h.registry key timeoutMs clientId now = ((data', registry), .error e)) : data' = h.data := by
  rcases cmdBlpop_cases hb with ⟨_, _, _, _, _, _, _, heq⟩ | ⟨rfl, _⟩ | ⟨_, rfl, _⟩
  · cases heq
  · rfl
  · rfl

theorem cmdAck_ok {slaveId : Nat} {offset : Int} {r : CmdResult}
    (ha : cmdAck h slaveId offset epollFd = some (h', r)) : r = .ok none := by
  obtain ⟨_, _, _, _, hr, _⟩ := cmdAck_cases ha
  exact hr

/-- A failed command either is one of the three that can leave a key behind, or it changes no value. -/
theorem dispatch_error {exec : CmdHandler → Nat → Option (CmdHandler × CmdResult)} {isSubscriber : Bool}
    (hexec : ∀ g e, exec h clientId = some (g, .error e) → g = h)
    (hd : dispatch P o exec h now isSubscriber clientId epollFd cmd = some (h', .error e)) :
    h'.data = h.data ↔ ¬ Leaves P h.data cmd := by
  have hdata : ∀ {r : Data × CmdResult}, h.withData r = (h', .error e) → r = (h'.data, .error e) := by
    intro r hr
    have h₁ := congrArg (fun x => x.1.data) hr
    have h₂ := congrArg Prod.snd hr
    exact Prod.ext h₁ h₂
  have hdata? : ∀ {w : Option (Data × CmdResult)}, w.map h.withData = some (h', .error e) →
      w = some (h'.data, .error e) := by
    intro w hw
    obtain ⟨r, rfl, hr⟩ := Option.map_eq_some_iff.mp hw
    rw [hdata hr]
  have hsame : h'.data = h.data → (∀ data, ¬ Leaves P data cmd) → (h'.data = h.data ↔ ¬ Leaves P h.data cmd) :=
    fun hs hl => ⟨fun _ => hl h.data, fun _ => hs⟩
  cases cmd <;> simp only [dispatch, Option.some.injEq] at hd
  case xadd => exact cmdXadd_error (hdata hd)
  case setbit => exact cmdSetbit_error (hdata hd)
  case geoadd => exact cmdGeoadd_error (hdata? hd)
  case set =>
    obtain ⟨_, _, hr⟩ := Option.map_eq_some_iff.mp (hdata? hd)
    cases (Prod.mk.inj hr).2
  case rpush | lpush => exact hsame (push_error (hdata hd)) fun _ => id
  case lpop => exact hsame (cmdLpop_error (hdata hd)) fun _ => id
  case incr => exact hsame (cmdIncr_error (hdata hd)) fun _ => id
  case zadd => exact hsame (cmdZadd_error (hdata? hd)) fun _ => id
  case zrem => exact hsame (cmdZrem_error (hdata? hd)) fun _ => id
  case bitop => exact hsame (cmdBitop_error (hdata hd)) fun _ => id
  case blpop key timeoutMs =>
    generalize hb : cmdBlpop h.data h.registry key timeoutMs clientId now = b at hd
    obtain ⟨⟨data, registry⟩, r⟩ := b
    obtain ⟨rfl, rfl⟩ := Prod.mk.inj hd
    exact hsame (cmdBlpop_error hb) fun _ => id
  case exec => exact hsame (by rw [hexec h' e hd]) fun _ => id
  case replconf arg =>
    refine hsame ?_ fun _ => id
    rcases cmdReplconf_cases hd with rfl | ⟨_, rfl, ha⟩
    · rfl
    · cases cmdAck_ok ha
  case wait =>
    refine hsame ?_ fun _ => id
    rcases cmdWait_cases hd with rfl | ⟨_, _, _, hr⟩
    · rfl
    · cases hr
  case psync id offset =>
    refine hsame ?_ fun _ => fun hl => hl
    obtain rfl : (cmdPsync h id offset clientId).1 = h' := congrArg Prod.fst hd
    rcases cmdPsync_cases h id offset clientId with heq | heq <;> rw [heq]
  case subscribe => cases hd
  case unsubscribe key =>
    refine hsame ?_ fun _ => fun hl => hl
    obtain rfl : (cmdUnsubscribe h key clientId).1 = h' := congrArg Prod.fst hd
    obtain ⟨_, _, heq⟩ := cmdUnsubscribe_frame h key clientId
    rw [heq]
  case publish key message =>
    refine hsame ?_ fun _ => fun hl => hl
    obtain rfl : (cmdPublish o h key message).1 = h' := congrArg Prod.fst hd
    obtain ⟨_, _, heq⟩ := cmdPublish_frame o h key message
    rw [heq]
    rfl
  case xrange | zrank | zrange | zcard | zscore | geopos | geodist =>
    obtain ⟨_, _, hr⟩ := Option.map_eq_some_iff.mp hd
    cases hr
    exact hsame rfl fun _ => id
  all_goals
    have hfst := congrArg (fun x => x.1.data) hd
    exact hsame hfst.symm fun _ hl => hl

/-! ## Calls of `_execute_cmd` -/

theorem executeCmd_error {exec : CmdHandler → Nat → Option (CmdHandler × CmdResult)} {buf : Bytes} {serialized : Bool}
    {out : CmdOutput} (hexec : ∀ g g' e, exec g clientId = some (g', .error e) → g' = g)
    (he : h.executeCmd P o exec cmd buf clientId epollFd serialized = some (h', .error out)) :
    h'.data = h.data ↔ (h.refuses clientId cmd = true ∨ ¬ Leaves P h.data cmd) := by
  rcases executeCmd_cases he with ⟨rfl, _, hrefused⟩ | ⟨hno, prepared, dispatched, r, hp, hd, hc⟩
  · simp [hrefused]
  · have hafter : h'.data = dispatched.data := conclude_data hc
    have hbefore : prepared.data = h.data := by
      obtain ⟨_, _, rfl⟩ := prepare_frame hp
      rfl
    have hfailed : ∃ e, r = .error e := by
      cases r with
      | error e => exact ⟨e, rfl⟩
      | ok resp =>
        cases resp with
        | none =>
          simp [conclude] at hc
        | some resp =>
          simp only [conclude] at hc
          split at hc
          · split at hc
            · obtain ⟨_, _, hb⟩ := Option.map_eq_some_iff.mp hc
              cases hb
            · cases hc
          · cases hc
    obtain ⟨e, rfl⟩ := hfailed
    rw [hafter, ← hbefore, dispatch_error (hexec prepared) hd]
    simp [hno]

theorem cmdExec_error {g g' : CmdHandler} (he : cmdExec P o g clientId = some (g', .error e)) : g' = g := by
  unfold cmdExec at he
  split at he
  · cases he
    rfl
  · split at he
    · cases he
    · simp only [Option.bind_eq_bind, Option.bind_eq_some_iff] at he
      obtain ⟨_, _, hlast⟩ := he
      cases hlast

end

/-- When a command fails, directly or inside a transaction, the key space is
what it was before unless a key was left behind. -/
theorem error_atomic_iff {h h' : CmdHandler} {cmd : Cmd} {buf : Bytes} {clientId : Nat} {out : CmdOutput}
    (he : (∃ epollFd, h.execute P o cmd buf clientId epollFd = some (h', .error out)) ∨
      ∃ hq, h.executeQueued P o clientId ⟨cmd, buf, hq⟩ = some (h', .error out)) :
    h'.data = h.data ↔ (h.refuses clientId cmd = true ∨ ¬ Leaves P h.data cmd) := by
  rcases he with ⟨epollFd, he⟩ | ⟨hq, he⟩
  · exact executeCmd_error (fun _ _ _ => cmdExec_error) he
  · exact executeCmd_error (fun _ _ _ hn => by cases hn) he

end

theorem error_atomic_iff_incr :
    let h := play startup [ask 1 (.rpush "k" ["a"])]
    ∃ h' out, h.execute .blank .asIs (.incr "k") [] 1 0 = some (h', .error out) ∧
      (h'.data = h.data ↔ (h.refuses 1 (.incr "k") = true ∨ ¬ Leaves .blank h.data (.incr "k"))) :=
  ⟨_, _, rfl, error_atomic_iff (o := .asIs) (Or.inl ⟨0, rfl⟩)⟩

theorem xadd_leaves : ∃ h' out,
    startup.execute .blank .asIs (.xadd "s" (some 0, some 0) ["f", "v"]) [] 1 0 = some (h', .error out) ∧
      h'.data ≠ startup.data :=
  ⟨_, _, rfl, fun heq => absurd (congrArg (fun d => (AList.lookup "s" d).isSome) heq) (by decide)⟩

end CmdHandler

end Redis
