import Redis.Calls
import Redis.Rdb

/-!
# How long a value is seen

An expiry comes from EX or PX, or from one of two opcodes of the database file,
and GET compares it with the clock, which counts milliseconds. A string stays
where it is until its key is written. So the value is seen up to the number
that was stored, and that is the instant that was asked for if it was asked for
in milliseconds.
-/

namespace Redis

open Lib

namespace CmdHandler

/-! ## What stays -/

/-- The call writes the key, and something else is there then. -/
def Call.Overwrites (c : Call) (key : String) : Prop := c.cmd.target = some key ∧ Changes c.before c.after key

def dataAfter (h : CmdHandler) (cs : List Call) : Data := ((cs.getLast?.map Call.after).getD h).data

section
variable {P : Platform} {o : IterOrder} {h g : CmdHandler} {key : String}

@[simp] theorem dataAfter_nil (h : CmdHandler) : h.dataAfter [] = h.data := rfl

@[simp] theorem dataAfter_concat (h : CmdHandler) (cs : List Call) (c : Call) :
    h.dataAfter (cs ++ [c]) = c.after.data := by simp [dataAfter]

theorem Call.Made.stays {c : Call} (hm : Call.Made P o c) (hno : ¬ c.Overwrites key) :
    c.after.data.lookup key = c.before.data.lookup key := by
  by_cases ht : c.cmd.target = some key
  · by_contra hne
    exact hno ⟨ht, Ne.symm hne⟩
  · exact hm.elsewhere ht

theorem step_string {h' : CmdHandler} {e : Event} {s : String} {x : Option Nat} (hs : Steps P h (o, e) h')
    (hh : ∀ cmd buf clientId epollFd, e ≠ .handle cmd buf clientId epollFd)
    (hl : h.data.lookup key = some ⟨.str s, x⟩) : h'.data.lookup key = some ⟨.str s, x⟩ := by
  have hitems : listItems h.data key = [] := by
    unfold listItems
    rw [hl]
  have hsame : h.data.lookup key = h'.data.lookup key := not_not.mp (step_data hs hh fun _ _ _ => hitems)
  rw [← hsame]
  exact hl

/-- What a key holds after some calls, it holds until a call writes it. -/
theorem Visits.stays {pre post : List Call} {s : String} {x : Option Nat} (hv : Visits P h (pre ++ post) g)
    (hl : (h.dataAfter pre).lookup key = some ⟨.str s, x⟩) (hno : ∀ d ∈ post, ¬ d.Overwrites key) :
    g.data.lookup key = some ⟨.str s, x⟩ := by
  refine hv.inv (I := fun g cs => ∀ pre post, cs = pre ++ post → (h.dataAfter pre).lookup key = some ⟨.str s, x⟩ →
    (∀ d ∈ post, ¬ d.Overwrites key) → g.data.lookup key = some ⟨.str s, x⟩) (fun _ _ _ _ hg => hg) ?_ ?_ ?_
    pre post rfl hl hno
  · intro o c cs hm hg pre post heq hl hno
    rcases List.eq_nil_or_concat post with rfl | ⟨post, d, rfl⟩
    · rw [List.append_nil] at heq
      rw [← heq, dataAfter_concat] at hl
      exact hl
    · rw [List.concat_eq_append, ← List.append_assoc] at heq
      obtain ⟨rfl, hlast⟩ := List.append_inj' heq rfl
      cases hlast
      rw [hm.stays (hno c (by simp))]
      exact hg pre post rfl hl fun d hd => hno d (by simp [hd])
  · exact fun g o e g' cs hs hh hg pre post heq hl hno => step_string hs hh (hg pre post heq hl hno)
  · intro pre post heq hl _
    obtain ⟨rfl, rfl⟩ := List.append_eq_nil_iff.mp heq.symm
    exact hl

end

/-! ## Where expiries come from -/

inductive Origin where
  | ex (now x : Nat)
  | px (now x : Nat)
  | rdbMs (m : Nat)
  | rdbSec (s : Nat)

namespace Origin

def lastMs : Origin → Nat
  | ex now x => now + 1000 * x
  | px now x => now + x
  | rdbMs m => m
  | rdbSec s => 1000 * s

def stored : Origin → Nat
  | ex now x => now / 1000 + x
  | px now x => now + x
  | rdbMs m => m
  | rdbSec s => s

def Fits : Origin → Prop
  | ex now x => now + 1000 * x < 2 ^ 64
  | px now x => now + x < 2 ^ 64
  | rdbMs _ | rdbSec _ => True

/-- The amount is in milliseconds, or there is nothing to convert. -/
def InMilliseconds : Origin → Prop
  | ex now x => now = 0 ∧ x = 0
  | rdbSec s => s = 0
  | px _ _ | rdbMs _ => True

theorem stored_eq_iff (o : Origin) : o.stored = o.lastMs ↔ o.InMilliseconds := by
  cases o with
  | ex now x =>
    simp only [stored, lastMs, InMilliseconds]
    omega
  | px now x => exact iff_of_true rfl trivial
  | rdbMs m => exact iff_of_true rfl trivial
  | rdbSec s =>
    simp only [stored, lastMs, InMilliseconds]
    omega

end Origin

/-- The key got the value with this expiry, and has not been written since. -/
inductive Kept (P : Platform) (key value : String) : Origin → CmdHandler → Prop
  | ex {h g pre c post x} (hv : Visits P h (pre ++ c :: post) g) (hc : c.cmd = .set key value (some (.ex (some x))))
    (hno : ∀ d ∈ post, ¬ d.Overwrites key) : Kept P key value (.ex c.before.registry.timer.now x) g
  | px {h g pre c post x} (hv : Visits P h (pre ++ c :: post) g) (hc : c.cmd = .set key value (some (.px (some x))))
    (hno : ∀ d ∈ post, ¬ d.Overwrites key) : Kept P key value (.px c.before.registry.timer.now x) g
  | rdbMs {h : CmdHandler} {file start g cs pre post m} (hf : Rdb.Holds file (pre ++ ⟨key, value, .ms m⟩ :: post))
    (hlast : ∀ r ∈ post, r.key ≠ key) (hl : h.loadRdb (some file) = some start) (hv : Visits P start cs g)
    (hno : ∀ d ∈ cs, ¬ d.Overwrites key) : Kept P key value (.rdbMs m) g
  | rdbSec {h : CmdHandler} {file start g cs pre post s} (hf : Rdb.Holds file (pre ++ ⟨key, value, .sec s⟩ :: post))
    (hlast : ∀ r ∈ post, r.key ≠ key) (hl : h.loadRdb (some file) = some start) (hv : Visits P start cs g)
    (hno : ∀ d ∈ cs, ¬ d.Overwrites key) : Kept P key value (.rdbSec s) g

section
variable {P : Platform} {o : Origin} {h g : CmdHandler} {key value : String}

/-! ## What is stored -/

theorem Call.Made.set {order : IterOrder} {c : Call} (hm : Call.Made P order c) {opt : Option CmdArg}
    (hc : c.cmd = .set key value opt) : c.after.data.lookup key =
      some ⟨.str value, (extractDeadline opt c.before.registry.timer.now).join⟩ := by
  obtain ⟨_, _, exec, s, d, fd, ser, out, _, _, _, hd, hcon⟩ := hm
  rw [hc] at hd
  rw [conclude_data hcon]
  simp only [dispatch, cmdSet] at hd
  cases hx : extractDeadline opt c.before.registry.timer.now with
  | none =>
    rw [hx] at hd
    cases hd
  | some exp =>
    rw [hx] at hd
    generalize c.result = r at hd
    cases hd
    exact AList.lookup_insert _

theorem Visits.set {pre post : List Call} {c : Call} {opt : Option CmdArg} (hv : Visits P h (pre ++ c :: post) g)
    (hc : c.cmd = .set key value opt) (hno : ∀ d ∈ post, ¬ d.Overwrites key) :
    g.data.lookup key = some ⟨.str value, (extractDeadline opt c.before.registry.timer.now).join⟩ := by
  obtain ⟨order, hm⟩ := hv.made c (by simp)
  rw [List.append_cons] at hv
  refine hv.stays ?_ hno
  rw [dataAfter_concat]
  exact hm.set hc

theorem lookup_foldl_insertRecord {pre post : List Rdb.Record} {r : Rdb.Record} (hlast : ∀ r' ∈ post, r'.key ≠ r.key)
    (data : Data) : ((pre ++ r :: post).foldl Rdb.insertRecord data).lookup r.key = some r.item := by
  rw [List.foldl_append, List.foldl_cons]
  refine List.foldlRecOn post Rdb.insertRecord (motive := fun data => data.lookup r.key = some r.item)
    (AList.lookup_insert _) fun data hd r' hr' => ?_
  have hother : (Rdb.insertRecord data r').lookup r.key = data.lookup r.key :=
    AList.lookup_insert_ne (Ne.symm (hlast r' hr'))
  rw [hother]
  exact hd

theorem Visits.loaded {file : Bytes} {start : CmdHandler} {cs : List Call} {pre post : List Rdb.Record} {r : Rdb.Record}
    (hf : Rdb.Holds file (pre ++ r :: post)) (hlast : ∀ r' ∈ post, r'.key ≠ r.key)
    (hl : h.loadRdb (some file) = some start) (hv : Visits P start cs g) (hno : ∀ d ∈ cs, ¬ d.Overwrites r.key) :
    g.data.lookup r.key = some r.item := by
  have hstart : start.data = (pre ++ r :: post).foldl Rdb.insertRecord ∅ := by
    rw [loadRdb, hf.read] at hl
    cases hl
    rfl
  have hloaded : (start.dataAfter []).lookup r.key = some r.item := by
    rw [dataAfter_nil, hstart]
    exact lookup_foldl_insertRecord hlast ∅
  exact Visits.stays hv hloaded hno

theorem Kept.stored (hk : Kept P key value o g) (hfits : o.Fits) :
    g.data.lookup key = some ⟨.str value, some o.stored⟩ := by
  cases hk with
  | ex hv hc hno =>
    rw [hv.set hc hno, Origin.stored, extractDeadline, Option.map_some, Option.join_some, Nat.mod_eq_of_lt]
    simp only [Origin.Fits] at hfits
    omega
  | px hv hc hno =>
    rw [hv.set hc hno, Origin.stored, extractDeadline, Option.map_some, Option.join_some, Nat.mod_eq_of_lt hfits]
  | rdbMs hf hlast hl hv hno => exact Visits.loaded hf hlast hl hv hno
  | rdbSec hf hlast hl hv hno => exact Visits.loaded hf hlast hl hv hno

/-! ## What GET sees -/

theorem cmdGet_value {data : Data} {x now : Nat} (hl : data.lookup key = some ⟨.str value, some x⟩) :
    cmdGet data key now = reply (.bulk value) ↔ now ≤ x := by
  simp only [cmdGet, hl, Option.any_some]
  by_cases hlate : x < now
  · rw [if_pos (decide_eq_true hlate)]
    refine iff_of_false (fun h => ?_) (by omega)
    simp [reply, RespType.nullBulk, RespType.bulk] at h
  · rw [if_neg (by simp [hlate])]
    exact iff_of_true rfl (by omega)

/-- GET sees the value for the time that is asked for, if and only if that is
in milliseconds. -/
theorem ttl_iff (hk : Kept P key value o g) (hfits : o.Fits) :
    (∀ now, cmdGet g.data key now = reply (.bulk value) ↔ now ≤ o.lastMs) ↔ o.InMilliseconds := by
  have hl := hk.stored hfits
  rw [← o.stored_eq_iff]
  constructor
  · intro hall
    have hlow : o.stored ≤ o.lastMs := (hall o.stored).mp ((cmdGet_value hl).mpr (Nat.le_refl _))
    have hhigh : o.lastMs ≤ o.stored := (cmdGet_value hl).mp ((hall o.lastMs).mpr (Nat.le_refl _))
    exact Nat.le_antisymm hlow hhigh
  · intro heq now
    rw [cmdGet_value hl, heq]

end

def oneRecord : Bytes :=
  [82, 69, 68, 73, 83, 48, 48, 49, 49, 0xFC, 0xE8, 3, 0, 0, 0, 0, 0, 0, 0, 1, 107, 1, 118, 0xFF]

theorem ttl_record : ∃ start, startup.loadRdb (some oneRecord) = some start ∧
    ∀ now, cmdGet start.data "k" now = reply (.bulk "v") ↔ now ≤ 1000 := by
  have hholds : Rdb.Holds oneRecord ([] ++ ⟨"k", "v", .ms 1000⟩ :: []) := ⟨[], rfl⟩
  refine ⟨_, rfl, ?_⟩
  have hkept : Kept .blank "k" "v" (.rdbMs 1000) _ :=
    .rdbMs hholds (fun r hr => by cases hr) (h := startup) rfl (.done .nil) (fun d hd => by cases hd)
  exact (ttl_iff hkept trivial).mpr trivial

def setForASecond : List (IterOrder × Event) := [ask 1 (.set "k" "v" (some (.ex (some 1))))]

/-- After half of a second the value is gone. -/
theorem second_too_short : Kept .blank "k" "v" (.ex 0 1) (play startup setForASecond) ∧
    ¬ (cmdGet (play startup setForASecond).data "k" 500 = reply (.bulk "v") ↔ 500 ≤ 0 + 1000 * 1) := by
  have hr : Run (Steps .blank) startup setForASecond (play startup setForASecond) := .cons rfl .nil
  have hv : Visits .blank startup ([] ++ ⟨startup, .set "k" "v" (some (.ex (some 1))), [42], 1, responseOk,
      play startup setForASecond⟩ :: []) (play startup setForASecond) := .done hr
  refine ⟨?_, fun h => ?_⟩
  · exact .ex hv rfl fun d hd => by cases hd
  · have hgone : cmdGet (play startup setForASecond).data "k" 500 = reply .nullBulk := rfl
    rw [hgone] at h
    cases h.mpr (by decide)

end CmdHandler

end Redis
