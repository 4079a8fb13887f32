import Redis.Handler
import Redis.Lib.Positions
import Redis.SortedSetSound

/-!
# LRANGE and ZRANGE

Both answer with the elements between two indexes, of which the negative ones
count from the end. An end before the first element is moved to it, so that the
first element is shown where nothing should be; and the bounds are those of a
list that has a last element.
-/

namespace Redis

open Lib

/-- The position that an index denotes. It may lie before the first element. -/
def position (len index : Int) : Int := if index < 0 then len + index else index

def indexRange {α : Type} (start stop : Int) (l : List α) : List α :=
  window (position l.length start) (position l.length stop) l

/-- An end before the first element, and a start that is not behind it. -/
def EndsBefore (len start stop : Int) : Prop := stop < -len ∧ position len start ≤ 0

instance (len start stop : Int) : Decidable (EndsBefore len start stop) := inferInstanceAs (Decidable (_ ∧ _))

section
variable {α : Type} {start stop len : Int}

theorem absIndex_eq (len index : Int) : absIndex len index = max (position len index) 0 := by
  unfold absIndex position
  by_cases hneg : index < 0
  · rw [if_pos hneg, if_pos hneg]
  · rw [if_neg hneg, if_neg hneg]
    omega

/-- The code moves positions before the first element to it. -/
theorem window_absIndex {l : List α} (h : ¬ (l ≠ [] ∧ EndsBefore l.length start stop)) :
    window (absIndex l.length start) (absIndex l.length stop) l = indexRange start stop l := by
  have hsame : (max (position l.length start) 0).toNat = (position l.length start).toNat := by omega
  rw [indexRange, absIndex_eq, absIndex_eq]
  by_cases hstop : position l.length stop < 0
  · -- then the start lies behind the first element, or there is none
    have hbefore : stop < -l.length := by
      unfold position at hstop
      split at hstop <;> omega
    rw [window_of_neg l hstop, max_eq_right (le_of_lt hstop)]
    by_cases hnil : l = []
    · rw [hnil, window_nil]
    · have hbehind : 0 < position l.length start := by
        by_contra hno
        exact h ⟨hnil, hbefore, by omega⟩
      exact window_of_lt l (lt_of_lt_of_le hbehind (le_max_left _ _))
  · rw [max_eq_left (by omega : 0 ≤ position l.length stop), window_eq, window_eq, hsame]

theorem window_endsBefore {l : List α} (hne : l ≠ []) (h : EndsBefore l.length start stop) :
    (window (absIndex l.length start) (absIndex l.length stop) l).length = 1 ∧ indexRange start stop l = [] := by
  have hlen : 0 < l.length := List.length_pos_iff.mpr hne
  obtain ⟨hbefore, hstart⟩ := h
  have hstop : position l.length stop < 0 := by
    unfold position
    split <;> omega
  refine ⟨?_, window_of_neg l hstop⟩
  rw [length_window, absIndex_eq, absIndex_eq]
  omega

end

/-! ## LRANGE -/

namespace CmdHandler

variable {data : Data} {key : String} {items : List String} {x : Option Nat} {start stop : Int}

def listed (items : List String) : RespType := .array items.length (some (items.map .bulk))

theorem asUsize_of_nonneg {i : Int} (h : 0 ≤ i) (hlt : i < 2 ^ 64) : asUsize i = i.toNat := by
  rw [asUsize, Int.emod_eq_of_lt h hlt]

/-- The elements that are taken, and counted, from one position to another. -/
theorem taken_eq_window {low high : Int} {count : Nat} (hlow : 0 ≤ low) (hhigh : 0 ≤ high) (hlast : high < items.length)
    (hcount : count = if high.toNat < low.toNat then 0 else high.toNat - min low.toNat high.toNat + 1) :
    (if count = 0 then reply .emptyArray
      else reply (.array count (some (((items.drop low.toNat).take count).map .bulk)))) =
      reply (listed (window low high items)) := by
  by_cases hlt : high < low
  · have hzero : count = 0 := by
      rw [hcount, if_pos (by omega)]
    rw [if_pos hzero, window_of_lt items hlt]
    rfl
  · have hsome : count = (high - low + 1).toNat := by
      rw [hcount, if_neg (by omega)]
      omega
    have hfull : ((items.drop low.toNat).take (high - low + 1).toNat).length = (high - low + 1).toNat := by
      rw [List.length_take, List.length_drop]
      omega
    rw [if_neg (by omega), hsome, window_eq_take_drop items hlow, listed, hfull]

theorem lrange_stored (hl : data.lookup key = some ⟨.list items, x⟩) (hne : items ≠ []) (hlen : items.length < 2 ^ 64)
    (hstart : start < 2 ^ 63) :
    cmdLrange data key start stop =
      reply (listed (window (absIndex items.length start) (absIndex items.length stop) items)) := by
  have hpos : 0 < items.length := List.length_pos_iff.mpr hne
  have hempty : reply .emptyArray = reply (listed []) := rfl
  have hlow : 0 ≤ absIndex items.length start := absIndex_nonneg ..
  have hhigh : 0 ≤ absIndex items.length stop := absIndex_nonneg ..
  unfold cmdLrange
  rw [hl]
  simp only
  by_cases hrev : stop < start ∧ 0 < start ∧ 0 < stop
  · have hlt : absIndex items.length stop < absIndex items.length start := by
      unfold absIndex
      rw [if_neg (by omega), if_neg (by omega)]
      exact hrev.1
    rw [if_pos hrev, window_of_lt items hlt, hempty]
  · rw [if_neg hrev]
    by_cases hbehind : 0 ≤ start ∧ asUsize (items.length - 1) < asUsize start
    · have hle : (items.length : Int) ≤ absIndex items.length start := by
        have hlt := hbehind.2
        rw [asUsize_of_nonneg (by omega) (by omega), asUsize_of_nonneg hbehind.1 (by omega)] at hlt
        unfold absIndex
        rw [if_neg (by omega)]
        omega
      rw [if_pos hbehind, window_of_length_le hle, hempty]
    · have hin : absIndex items.length start ≤ items.length - 1 := by
        unfold absIndex
        split
        · omega
        · by_contra hno
          refine hbehind ⟨by omega, ?_⟩
          rw [asUsize_of_nonneg (by omega) (by omega), asUsize_of_nonneg (by omega) (by omega)]
          omega
      rw [if_neg hbehind, min_eq_left hin, asUsize_of_nonneg hlow (by omega), asUsize_of_nonneg (by omega) (by omega),
        ← window_clamp, max_eq_left hlow]
      exact taken_eq_window hlow (by omega) (by omega) rfl

/-- `list.len() - 1` is the largest `usize`, and both bounds are clamped to it. -/
theorem lrange_nil (hl : data.lookup key = some ⟨.list [], x⟩) (hstart : start < 2 ^ 63) :
    cmdLrange data key start stop =
      if stop < start ∧ 0 < start ∧ 0 < stop then reply .emptyArray else reply (.array 1 (some [])) := by
  have hlast : ∀ i : Int, min (absIndex ([] : List String).length i) (([] : List String).length - 1) = -1 := by
    intro i
    exact min_eq_right (le_trans (by decide) (absIndex_nonneg _ i))
  have hbehind : ¬ (0 ≤ start ∧ asUsize (([] : List String).length - 1) < asUsize start) := by
    intro hb
    rw [asUsize_of_nonneg hb.1 (by omega)] at hb
    have hmax : asUsize (([] : List String).length - 1) = 2 ^ 64 - 1 := rfl
    omega
  unfold cmdLrange
  rw [hl]
  simp only [hlast, if_neg hbehind]
  rfl

/-- LRANGE answers with the elements between its indexes, unless the end lies before the
first one and the start does not lie behind it, or there is no element at all. -/
theorem lrange_eq_iff (hl : data.lookup key = some ⟨.list items, x⟩) (hlen : items.length < 2 ^ 64)
    (hstart : start < 2 ^ 63) :
    cmdLrange data key start stop = reply (listed (indexRange start stop items)) ↔
      (items = [] → 0 < stop ∧ stop < start) ∧ ¬ (items ≠ [] ∧ EndsBefore items.length start stop) := by
  by_cases hne : items = []
  · subst hne
    have hshow : listed (indexRange start stop []) = .emptyArray := rfl
    rw [lrange_nil hl hstart, hshow]
    by_cases hrev : stop < start ∧ 0 < start ∧ 0 < stop
    · rw [if_pos hrev]
      exact iff_of_true rfl ⟨fun _ => ⟨hrev.2.2, hrev.1⟩, fun hends => hends.1 rfl⟩
    · rw [if_neg hrev]
      refine iff_of_false (fun heq => ?_)
        fun hboth => hrev ⟨(hboth.1 rfl).2, lt_trans (hboth.1 rfl).1 (hboth.1 rfl).2, (hboth.1 rfl).1⟩
      -- the header tells of one element, and there is none
      simp [reply, RespType.emptyArray] at heq
  · rw [lrange_stored hl hne hlen hstart]
    constructor
    · intro heq
      refine ⟨fun hnil => absurd hnil hne, fun hends => ?_⟩
      obtain ⟨hone, hnone⟩ := window_endsBefore hends.1 hends.2
      simp only [reply, listed, Except.ok.injEq, Option.some.injEq, RespType.array.injEq] at heq
      rw [hone, hnone] at heq
      cases heq.1
    · intro hno
      rw [window_absIndex hno.2]

def threeItems : Data := AList.insert "k" ⟨.list ["a", "b", "c"], none⟩ ∅

theorem lrange_eq_last : cmdLrange threeItems "k" (-2) 7 = reply (listed (indexRange (-2) 7 ["a", "b", "c"])) :=
  (lrange_eq_iff (AList.lookup_insert _) (by decide) (by decide)).mpr (by decide)

/-- An end before the first element shows it. -/
theorem lrange_shows_first : cmdLrange threeItems "k" 0 (-5) ≠ reply (listed (indexRange 0 (-5) ["a", "b", "c"])) := by
  intro h
  have hshown : cmdLrange threeItems "k" 0 (-5) = reply (listed ["a"]) := rfl
  have hnone : indexRange 0 (-5) ["a", "b", "c"] = [] := rfl
  rw [hshown, hnone] at h
  cases h

end CmdHandler

/-! ## ZRANGE -/

namespace SortedSet

variable {s : SortedSet} {l : List (F64 × String)} {start stop : Int}

structure Ordered (members : HashMap String F64) (l : List (F64 × String)) : Prop where
  increasing : l.Pairwise fun a b => rank a < rank b
  exactly : ∀ e, e ∈ l ↔ members.lookup e.2 = some e.1

theorem Ordered.nodup {members : HashMap String F64} (h : Ordered members l) : l.Nodup :=
  h.increasing.imp fun hlt heq => absurd (congrArg rank heq) (ne_of_lt hlt)

theorem Ordered.unique {members : HashMap String F64} {l' : List (F64 × String)} (h : Ordered members l)
    (h' : Ordered members l') : l = l' := by
  have hperm : l.Perm l' := (List.perm_ext_iff_of_nodup h.nodup h'.nodup).mpr fun e =>
    (h.exactly e).trans (h'.exactly e).symm
  exact hperm.eq_of_pairwise (fun a b _ _ hab hba => absurd (lt_trans hab hba) (lt_irrefl _)) h.increasing h'.increasing

theorem getMembers_eq (s : SortedSet) (start stop : Int) :
    s.getMembers start stop =
      (window (absIndex s.scores.length start) (absIndex s.scores.length stop) s.scores).map Prod.snd := by
  unfold getMembers
  simp only
  by_cases hlt : absIndex s.scores.length stop < absIndex s.scores.length start
  · rw [if_pos hlt, window_of_lt s.scores hlt, List.map_nil]
  · rw [if_neg hlt, window_eq_take_drop s.scores (absIndex_nonneg _ start)]

def i64 (x : Int) : Int := x.bmod (2 ^ 64)

/-- `get_members` with the arithmetic of a release build, which wraps. -/
def getMembersWrapping (s : SortedSet) (startIdx endIdx : Int) : List String :=
  let count := i64 s.scores.length
  let startIdx := if startIdx < 0 then max (i64 (count + startIdx)) 0 else startIdx
  let endIdx := if endIdx < 0 then max (i64 (count + endIdx)) 0 else endIdx
  if endIdx < startIdx then []
  else
    ((s.scores.drop (CmdHandler.asUsize startIdx)).take (CmdHandler.asUsize (i64 (i64 (endIdx - startIdx) + 1)))).map
      Prod.snd

theorem i64_of_fits {x : Int} (h : -2 ^ 63 ≤ x) (hlt : x < 2 ^ 63) : i64 x = x :=
  Int.bmod_eq_of_le (by omega) (by omega)

/-- The number of elements that are taken may be `2 ^ 63`, which the cast to `usize` recovers. -/
theorem getMembersWrapping_eq (hlen : s.scores.length < 2 ^ 63) (hstart : -2 ^ 63 ≤ start) (hstart' : start < 2 ^ 63)
    (hstop : -2 ^ 63 ≤ stop) (hstop' : stop < 2 ^ 63) :
    s.getMembersWrapping start stop = s.getMembers start stop := by
  have habs : ∀ i : Int, -2 ^ 63 ≤ i → i < 2 ^ 63 →
      (if i < 0 then max (i64 (i64 s.scores.length + i)) 0 else i) = absIndex s.scores.length i := by
    intro i hi hi'
    rw [i64_of_fits (x := s.scores.length) (by omega) (by omega)]
    unfold absIndex
    by_cases hneg : i < 0
    · rw [if_pos hneg, if_pos hneg, i64_of_fits (by omega) (by omega)]
    · rw [if_neg hneg, if_neg hneg]
  have hrange : ∀ i : Int, i < 2 ^ 63 → 0 ≤ absIndex s.scores.length i ∧ absIndex s.scores.length i < 2 ^ 63 := by
    intro i hi
    unfold absIndex
    split <;> omega
  obtain ⟨hlow, hlow'⟩ := hrange start hstart'
  obtain ⟨hhigh, hhigh'⟩ := hrange stop hstop'
  unfold getMembersWrapping getMembers
  simp only [habs start hstart hstart', habs stop hstop hstop']
  by_cases hlt : absIndex s.scores.length stop < absIndex s.scores.length start
  · rw [if_pos hlt, if_pos hlt]
  · have hcount : CmdHandler.asUsize
        (i64 (i64 (absIndex s.scores.length stop - absIndex s.scores.length start) + 1)) =
        (absIndex s.scores.length stop - absIndex s.scores.length start + 1).toNat := by
      rw [i64_of_fits (x := absIndex s.scores.length stop - absIndex s.scores.length start) (by omega) (by omega)]
      unfold CmdHandler.asUsize i64
      have hmod := Int.bmod_emod (x := absIndex s.scores.length stop - absIndex s.scores.length start + 1) (m := 2 ^ 64)
      have hpow : ((2 ^ 64 : Nat) : Int) = 2 ^ 64 := rfl
      rw [hpow] at hmod
      rw [hmod, Int.emod_eq_of_lt (by omega) (by omega)]
    rw [if_neg hlt, if_neg hlt, hcount, CmdHandler.asUsize_of_nonneg hlow (by omega)]

/-- ZRANGE shows the members between its indexes, unless the end lies before the first
one and the start does not lie behind it. -/
theorem getMembers_eq_iff (h : Ordered s.members s.scores) (hl : Ordered s.members l) (hlen : s.scores.length < 2 ^ 63)
    (hstart : -2 ^ 63 ≤ start ∧ start < 2 ^ 63) (hstop : -2 ^ 63 ≤ stop ∧ stop < 2 ^ 63) :
    s.getMembersWrapping start stop = s.getMembers start stop ∧
      (s.getMembers start stop = (indexRange start stop l).map Prod.snd ↔
        ¬ (l ≠ [] ∧ EndsBefore l.length start stop)) := by
  refine ⟨getMembersWrapping_eq hlen hstart.1 hstart.2 hstop.1 hstop.2, ?_⟩
  obtain rfl := h.unique hl
  rw [getMembers_eq]
  constructor
  · intro heq hends
    obtain ⟨hone, hnone⟩ := window_endsBefore hends.1 hends.2
    have hsame := congrArg List.length heq
    rw [List.length_map, List.length_map, hone, hnone] at hsame
    cases hsame
  · intro hno
    rw [window_absIndex hno]

def threeMembers : SortedSet :=
  { members := HashMap.put "c" two (HashMap.put "a" one (HashMap.put "b" two ∅)),
    scores := [(one, "a"), (two, "b"), (two, "c")] }

theorem threeMembers_ordered : Ordered threeMembers.members threeMembers.scores := by
  refine ⟨by decide +kernel, fun ⟨score, member⟩ => ?_⟩
  have hentries : threeMembers.members.entries = [⟨"c", two⟩, ⟨"a", one⟩, ⟨"b", two⟩] := rfl
  rw [← Option.mem_def, AList.mem_lookup_iff, hentries]
  simp only [threeMembers, List.mem_cons, List.not_mem_nil, or_false, Prod.mk.injEq, Sigma.mk.injEq, heq_eq_eq]
  tauto

theorem getMembers_eq_three : threeMembers.getMembersWrapping 1 (-2) = threeMembers.getMembers 1 (-2) ∧
    (threeMembers.getMembers 1 (-2) = (indexRange 1 (-2) [(one, "a"), (two, "b"), (two, "c")]).map Prod.snd ↔
      ¬ ([(one, "a"), (two, "b"), (two, "c")] ≠ [] ∧ EndsBefore 3 1 (-2))) :=
  getMembers_eq_iff threeMembers_ordered threeMembers_ordered (by decide) (by decide) (by decide)

theorem getMembers_shows_first : Ordered threeMembers.members [(one, "a"), (two, "b"), (two, "c")] ∧
    threeMembers.getMembers 0 (-5) ≠ (indexRange 0 (-5) [(one, "a"), (two, "b"), (two, "c")]).map Prod.snd := by
  refine ⟨threeMembers_ordered, fun h => ?_⟩
  have hshown : threeMembers.getMembers 0 (-5) = ["a"] := rfl
  have hnone : (indexRange 0 (-5) [(one, "a"), (two, "b"), (two, "c")]).map Prod.snd = [] := rfl
  rw [hshown, hnone] at h
  cases h

end SortedSet

end Redis
