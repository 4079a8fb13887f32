import Redis.ChunkSound
import Mathlib.Data.List.TakeWhile

/-!
# Empty arrays between messages

A message is an array of bulk strings. The array of an empty one is on the
stack with length zero and no items, and is complete only when it has an item
list of that length, which the first item makes too long. So it stays
(`Sunk`), takes every later message as an item, and the read loop hands over
the messages before the first empty one only.
-/

namespace Redis

open Lib

def message (args : List String) : RespType := .array args.length (some (args.map .bulk))

structure Fits (args : List String) : Prop where
  length_le : args.length ≤ isizeMax
  size_le : ∀ s ∈ args, s.utf8ByteSize ≤ isizeMax

theorem Fits.wellFormed {args : List String} (h : Fits args) (hne : args ≠ []) : (message args).WellFormed := by
  rw [message, RespType.WellFormed]
  exact ⟨by simp, h.length_le, by simp [hne], allWellFormed_bulk args h.size_le⟩

namespace RespParser

def Sunk (stack : List RespType) : Prop :=
  stack ≠ [] ∧ ∀ t ∈ stack, ∃ acc, t = .array 0 acc ∧ acc ≠ some []

theorem Sunk.waiting {stack : List RespType} (h : Sunk stack) : Waiting stack := by
  cases stack with
  | nil => trivial
  | cons t stack =>
    obtain ⟨acc, rfl, hne⟩ := h.2 t (List.mem_cons_self ..)
    cases acc with
    | none => rfl
    | some v =>
      have hv : v ≠ [] := fun h => hne (congrArg some h)
      simpa [Waiting, RespType.isCompleted] using hv

theorem Sunk.addItem {stack : List RespType} {a t : RespType} (h : Sunk (a :: stack)) :
    Sunk (a.addItem t :: stack) := by
  obtain ⟨acc, rfl, -⟩ := h.2 a (List.mem_cons_self ..)
  refine ⟨by simp, fun u hu => ?_⟩
  cases hu with
  | head => exact ⟨_, rfl, by simp⟩
  | tail _ hu => exact h.2 u (List.mem_cons_of_mem _ hu)

theorem serialize_empty : (message []).serialize = some (42 :: (utf8 (toString 0) ++ delimiter)) := by decide

theorem leads_empty {stack : List RespType} (h : Waiting stack) (rest : Bytes) :
    Leads false (between stack (42 :: (utf8 (toString 0) ++ delimiter) ++ rest) .type)
      (between (.array 0 none :: stack) rest .type) := by
  have hread : Leads false _ _ := Headed.array.leads h (Nat.zero_le u64Max) rest
  simpa [RespType.setLength] using hread

theorem reads_sunk (ms : List (List String)) (hfit : ∀ m ∈ ms, Fits m) :
    ∀ stack, Sunk stack → ∃ b q, RespType.serializeAll (ms.map message) = some b ∧
      Reads (between stack b .type) q [] ∧ q.stack ≠ [] := by
  induction ms with
  | nil =>
    intro stack h
    exact ⟨[], _, rfl, reads_stop h.waiting rfl (Nat.le_refl _), h.1⟩
  | cons m ms ih =>
    intro stack h
    have hms : ∀ m ∈ ms, Fits m := fun n hn => hfit n (List.mem_cons_of_mem _ hn)
    by_cases hm : m = []
    · subst hm
      have hsunk : Sunk (.array 0 none :: stack) := by
        refine ⟨by simp, fun t ht => ?_⟩
        cases ht with
        | head => exact ⟨none, rfl, by simp⟩
        | tail _ ht => exact h.2 t ht
      obtain ⟨bs, q, hbs, hq, hne⟩ := ih hms _ hsunk
      refine ⟨42 :: (utf8 (toString 0) ++ delimiter) ++ bs, q, ?_, ?_, hne⟩
      · rw [List.map_cons, RespType.serializeAll, serialize_empty, hbs]
        rfl
      · exact (leads_empty h.waiting bs).reads hq
    · obtain ⟨a, below, rfl⟩ := List.exists_cons_of_ne_nil h.1
      have hwf := (hfit m (List.mem_cons_self ..)).wellFormed hm
      obtain ⟨bs, q, hbs, hq, hne⟩ := ih hms _ (h.addItem (t := message m))
      obtain ⟨b, hb, hl⟩ := leads_value (message m) (a :: below) bs hwf h.waiting
      refine ⟨b ++ bs, q, ?_, ?_, hne⟩
      · rw [List.map_cons, RespType.serializeAll, hb, hbs]
        rfl
      · have habs := leads_absorb false (isCompleted_of_wellFormed hwf) (a := a) below bs .type
        exact (hl.trans habs).reads hq

theorem reads_messages (ms : List (List String)) (hfit : ∀ m ∈ ms, Fits m) :
    ∃ b q, RespType.serializeAll (ms.map message) = some b ∧
      Reads (between [] b .type) q ((ms.takeWhile (· ≠ [])).map message) ∧
      (q.stack = [] ↔ [] ∉ ms) := by
  induction ms with
  | nil => exact ⟨[], _, rfl, reads_stop trivial rfl (Nat.le_refl _), by simp [between]⟩
  | cons m ms ih =>
    have hms : ∀ m ∈ ms, Fits m := fun n hn => hfit n (List.mem_cons_of_mem _ hn)
    by_cases hm : m = []
    · subst hm
      have hsunk : Sunk [.array 0 none] := ⟨by simp, by simp⟩
      obtain ⟨bs, q, hbs, hq, hne⟩ := reads_sunk ms hms _ hsunk
      refine ⟨42 :: (utf8 (toString 0) ++ delimiter) ++ bs, q, ?_, ?_, by simp [hne]⟩
      · rw [List.map_cons, RespType.serializeAll, serialize_empty, hbs]
        rfl
      · have hw : Waiting [] := trivial
        exact (leads_empty hw bs).reads hq
    · have hwf := (hfit m (List.mem_cons_self ..)).wellFormed hm
      obtain ⟨bs, q, hbs, hq, hiff⟩ := ih hms
      obtain ⟨b, hb, hl⟩ := leads_value (message m) [] bs hwf trivial
      refine ⟨b ++ bs, q, ?_, ?_, ?_⟩
      · rw [List.map_cons, RespType.serializeAll, hb, hbs]
        rfl
      · rw [List.takeWhile_cons_of_pos (by simpa using hm), List.map_cons]
        exact hl.reads (reads_deliver (isCompleted_of_wellFormed hwf) hq)
      · rw [hiff, List.mem_cons, not_or]
        exact ⟨fun h => ⟨Ne.symm hm, h⟩, fun h => h.2⟩

theorem takeWhile_eq_self_iff_nil (ms : List (List String)) : ms.takeWhile (· ≠ []) = ms ↔ [] ∉ ms := by
  rw [List.takeWhile_eq_self_iff]
  constructor
  · intro h hm
    exact absurd (h [] hm) (by simp)
  · intro h m hm
    simpa using fun he : m = [] => h (he ▸ hm)

/-- A pipeline of messages comes back whole, and nothing is left on the stack to
absorb what follows, exactly if none of them is empty. -/
theorem messages_deliver_iff (ms : List (List String)) (hfit : ∀ m ∈ ms, Fits m) :
    ∃ b p out fuel₀, RespType.serializeAll (ms.map message) = some b ∧
      (∀ fuel, fuel₀ ≤ fuel → (new.feedBuf b).readLoop false fuel = some (p, out, .ok ())) ∧
      (out = ms.map message ↔ [] ∉ ms) ∧ (out.length = ms.length ↔ [] ∉ ms) ∧ (p.stack = [] ↔ [] ∉ ms) := by
  obtain ⟨b, q, hb, ⟨fuel₀, h₀⟩, hiff⟩ := reads_messages ms hfit
  have hpre : ms.takeWhile (· ≠ []) <+: ms := List.takeWhile_prefix _
  have hlen : (ms.takeWhile (· ≠ [])).length = ms.length ↔ [] ∉ ms := by
    rw [← takeWhile_eq_self_iff_nil]
    exact ⟨hpre.eq_of_length, fun h => by rw [h]⟩
  refine ⟨b, q, _, fuel₀, hb, fun fuel hle => h₀ fuel hle, ?_, ?_, hiff⟩
  · rw [← hlen]
    constructor
    · intro h
      simpa using congrArg List.length h
    · intro h
      rw [hpre.eq_of_length h]
  · rw [List.length_map]
    exact hlen

theorem fits_ping : ∀ m ∈ [["PING"], ["GET", "a\r\n"]], Fits m := by
  intro m hm
  simp only [List.mem_cons, List.not_mem_nil, or_false] at hm
  obtain rfl | rfl := hm
  · exact ⟨by decide, by decide⟩
  · exact ⟨by decide, by decide⟩

theorem messages_deliver_iff_ping :
    ∃ b p out fuel₀, RespType.serializeAll ([["PING"], ["GET", "a\r\n"]].map message) = some b ∧
      (∀ fuel, fuel₀ ≤ fuel → (new.feedBuf b).readLoop false fuel = some (p, out, .ok ())) ∧
      (out = [["PING"], ["GET", "a\r\n"]].map message ↔ [] ∉ [["PING"], ["GET", "a\r\n"]]) ∧
      (out.length = 2 ↔ [] ∉ [["PING"], ["GET", "a\r\n"]]) ∧ (p.stack = [] ↔ [] ∉ [["PING"], ["GET", "a\r\n"]]) :=
  messages_deliver_iff _ fits_ping

/-- An empty array and a PING in one chunk: nothing is handed over. -/
theorem ping_absorbed :
    ∃ b p, RespType.serializeAll ([[], ["PING"]].map message) = some b ∧
      ∀ fuel, 9 ≤ fuel → (new.feedBuf b).readLoop false fuel = some (p, [], .ok ()) := by
  have hrun : ((new.feedBuf (utf8 "*0\r\n*1\r\n$4\r\nPING\r\n")).readLoop false 9).map
      (fun r => (r.2.1.length, decide (r.2.2.toOption = some ()))) = some (0, true) := by decide +kernel
  obtain ⟨p, hp⟩ := readLoop_silent hrun
  exact ⟨_, p, by decide, hp⟩

end RespParser

end Redis
