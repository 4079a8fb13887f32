import Redis.DecodeSound
import Redis.Dispatch

/-!
# XRANGE

XRANGE answers with the entries between its two ids. A start behind the end is
not looked for before `BTreeMap::range`, which panics on it unless the stream
has no entries.
-/

namespace Redis

open Lib

namespace Cmd

variable (P : Platform) {key startId stopId : String} {start stop : Nat × Nat}

def xrangeRequest (key startId stopId : String) : RespType :=
  .arrayOf [.bulk "XRANGE", .bulk key, .bulk startId, .bulk stopId]

def XrangeIds (startId stopId : String) (start stop : Nat × Nat) : Prop :=
  parseStreamIdXrange startId false [] = some (.ok (start, [])) ∧
    parseStreamIdXrange stopId true [] = some (.ok (stop, []))

theorem fromResp_xrange (h : XrangeIds startId stopId start stop) :
    fromResp P (xrangeRequest key startId stopId) = .ok (.ok (.xrange key start stop)) := by
  have hb : buildXrange [.bulk key, .bulk startId, .bulk stopId] = some (.ok (.xrange key start stop, [])) := by
    unfold buildXrange
    simp only [Reader.bind_apply, respArg_cons, RespType.bulk, RespType.getStr, h.1, h.2]
    rfl
  have hl : (builders P).lookup "XRANGE" = some buildXrange := rfl
  have hword : asciiUpper "XRANGE" = "XRANGE" := by decide
  have hrun : runBuilder buildXrange [.bulk key, .bulk startId, .bulk stopId] = .ok (.ok (.xrange key start stop)) := by
    rw [runBuilder, hb]
    rfl
  unfold xrangeRequest fromResp
  simpa [RespType.arrayOf, RespType.bulk, hword, hl] using hrun

end Cmd

namespace CmdHandler

/-- The entries whose ids lie between two ids, in increasing order. -/
structure Between (entries : OrdMap StreamId (List String)) (start stop : StreamId)
    (found : List (StreamId × List String)) : Prop where
  increasing : found.Pairwise fun a b => a.1 < b.1
  exactly : ∀ id value, (id, value) ∈ found ↔ entries.lookup id = some value ∧ start ≤ id ∧ id ≤ stop
  reversed : stop < start → found = []

theorem between_range (entries : OrdMap StreamId (List String)) (start stop : StreamId) :
    Between entries start stop (entries.range start stop) :=
  ⟨OrdMap.range_sorted start stop entries, fun _ _ => OrdMap.mem_range, OrdMap.range_of_lt⟩

section
variable {P : Platform} {o : IterOrder} {exec : CmdHandler → Nat → Option (CmdHandler × CmdResult)} {h : CmdHandler}
variable {entries : OrdMap StreamId (List String)} {x : Option Nat}
variable {key startId stopId : String} {start stop : Nat × Nat}

def AnswersBetween (P : Platform) (o : IterOrder) (exec : CmdHandler → Nat → Option (CmdHandler × CmdResult))
    (h : CmdHandler) (entries : OrdMap StreamId (List String)) (request : RespType) (start stop : Nat × Nat) : Prop :=
  ∃ cmd found, Cmd.fromResp P request = .ok (.ok cmd) ∧ Between entries (toLex start) (toLex stop) found ∧
    ∀ now isSubscriber clientId epollFd, dispatch P o exec h now isSubscriber clientId epollFd cmd =
      some (h, reply (.array found.length (some (found.map streamEntity))))

/-- XRANGE answers with the closed interval exactly when the start is not behind the
end, or there are no entries. -/
theorem xrange_between_iff (hids : Cmd.XrangeIds startId stopId start stop)
    (hl : h.data.lookup key = some ⟨.stream entries, x⟩) :
    AnswersBetween P o exec h entries (Cmd.xrangeRequest key startId stopId) start stop ↔
      ¬ (entries.entries ≠ [] ∧ toLex stop < toLex start) := by
  have hdecoded : Cmd.fromResp P (Cmd.xrangeRequest key startId stopId) = .ok (.ok (.xrange key start stop)) :=
    Cmd.fromResp_xrange P hids
  constructor
  · rintro ⟨cmd, found, hcmd, _, hanswer⟩ hpanic
    rw [hdecoded] at hcmd
    cases hcmd
    have := hanswer 0 false 0 none
    simp [dispatch, cmdXrange, hl, hpanic] at this
  · intro hno
    refine ⟨_, _, hdecoded, between_range entries (toLex start) (toLex stop),
      fun now isSubscriber clientId epollFd => ?_⟩
    simp [dispatch, cmdXrange, hl, hno]

end

def fourEntries : OrdMap StreamId (List String) :=
  (((OrdMap.empty.insert (toLex (1, 0)) ["a", "b"]).insert (toLex (1, 5)) ["c", "d"]).insert (toLex (2, 0))
    ["e", "f"]).insert (toLex (3, 1)) ["g", "h"]

def streaming : CmdHandler := { startup with data := AList.insert "k" ⟨.stream fourEntries, none⟩ ∅ }

/-- The second and the third entry: an id without a number ends with the largest. -/
theorem xrange_between_two : AnswersBetween .blank .asIs (fun h _ => some (h, .ok none)) streaming fourEntries
    (Cmd.xrangeRequest "k" "1-1" "2") (1, 1) (2, u64Max) :=
  (xrange_between_iff ⟨by rfl, by rfl⟩ (AList.lookup_insert _)).mpr (by decide +kernel)

theorem xrange_reversed_panics : Cmd.XrangeIds "+" "-" (u64Max, u64Max) (0, 0) ∧
    ¬ AnswersBetween .blank .asIs (fun h _ => some (h, .ok none)) streaming fourEntries
      (Cmd.xrangeRequest "k" "+" "-") (u64Max, u64Max) (0, 0) := by
  have hids : Cmd.XrangeIds "+" "-" (u64Max, u64Max) (0, 0) := ⟨by rfl, by rfl⟩
  refine ⟨hids, ?_⟩
  rintro ⟨cmd, found, hcmd, _, hanswer⟩
  rw [Cmd.fromResp_xrange .blank hids] at hcmd
  cases hcmd
  have hpanic : cmdXrange streaming.data "k" (u64Max, u64Max) (0, 0) = none := by decide +kernel
  have := hanswer 0 false 0 none
  simp [dispatch, hpanic] at this

end CmdHandler

end Redis
