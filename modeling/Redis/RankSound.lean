import Redis.RangeSound

/-!
# Ranks

ZRANK counts the keys below a member's in the tree, and ZRANGE walks the tree.
With the indexes in step, the rank of a member is its place in the walk, and
another member that comes or goes below it moves it by one.
-/

namespace Redis

open Lib

def PairBelow (a b : F64 × String) : Prop :=
  F64.partialCmp a.1 b.1 = some .lt ∨ F64.partialCmp a.1 b.1 = some .eq ∧ a.2 < b.2

instance (a b : F64 × String) : Decidable (PairBelow a b) := inferInstanceAs (Decidable (_ ∨ _))

theorem pairBelow_iff {a b : F64 × String} (ha : a.1.isNan = false) (hb : b.1.isNan = false) :
    PairBelow a b ↔ rank a < rank b := by
  unfold PairBelow
  rw [F64.partialCmp_of_not_nan ha hb, rank, rank, Prod.Lex.toLex_lt_toLex]
  simp only [Option.some.injEq, compare_lt_iff_lt, compare_eq_iff_eq]

theorem scoresRank_eq {k : F64 × String} (hk : k.1.isNan = false) {l : List (F64 × String)} (h : Tree l) :
    scoresRank k l = some (l.countP fun e => rank e < rank k) := by
  induction l with
  | nil => rfl
  | cons a l ih =>
    have ha : a.1.isNan = false := h.notNan a (List.mem_cons_self ..)
    have hal := (List.pairwise_cons.mp h.sorted).1
    rw [scoresRank, scoreCmp_eq hk ha]
    by_cases hlt : rank a < rank k
    · have hc : compare (rank k) (rank a) = .gt := compare_gt_iff_gt.mpr hlt
      rw [hc, ih h.tail, List.countP_cons]
      simp [hlt]
    · -- the rest lies above the first, and so above the key
      have hnone : ((a :: l).countP fun e => rank e < rank k) = 0 := by
        rw [List.countP_eq_zero]
        rintro e (_ | ⟨_, he⟩)
        · simpa using hlt
        · simpa using le_of_lt (lt_of_le_of_lt (le_of_not_gt hlt) (hal e he))
      have hc : compare (rank k) (rank a) ≠ .gt := fun hgt => hlt (compare_gt_iff_gt.mp hgt)
      rw [hnone]
      cases hcmp : compare (rank k) (rank a) with
      | gt => exact absurd hcmp hc
      | _ => rfl

namespace SortedSet

variable {s s' : SortedSet} {member : String} {score : F64}

theorem getMembers_all (s : SortedSet) : s.getMembers 0 (-1) = s.scores.map Prod.snd := by
  have hlow : (absIndex s.scores.length 0).toNat = 0 := rfl
  have hhigh : s.scores.length ≤ (absIndex s.scores.length (-1) + 1).toNat := by
    rw [absIndex_eq]
    unfold position
    rw [if_pos (by decide)]
    omega
  rw [getMembers_eq, window_eq, hlow, List.drop_zero, List.take_of_length_le hhigh]

theorem rankByScore_eq (h : s.Sound) (hm : s.members.lookup member = some score) :
    s.rankByScore member = some (some ((s.scores.countP fun e => rank e < rank (score, member) : Nat) : Int)) := by
  have hk : (score, member).1.isNan = false := h.notNan member score hm
  rw [rankByScore, hm]
  simp only [scoresRank_eq hk h.tree]
  rfl

theorem rankByScore_iff (h : s.Sound) (hk : s.Keyed) (member : String) (r : Int) :
    s.rankByScore member = some (some r) ↔
      member ∈ s.members ∧ 0 ≤ r ∧ (s.getMembers 0 (-1))[r.toNat]? = some member := by
  rw [getMembers_all, List.getElem?_map, Option.map_eq_some_iff]
  constructor
  · intro hr
    cases hm : s.members.lookup member with
    | none =>
      rw [rankByScore, hm] at hr
      cases hr
    | some score =>
      rw [rankByScore_eq h hm, Option.some.injEq, Option.some.injEq] at hr
      have hin : (score, member) ∈ s.scores := (hk _).mpr hm
      refine ⟨HashMap.mem_of_lookup hm, by omega, (score, member), ?_, rfl⟩
      rw [← hr, Int.toNat_natCast]
      exact getElem?_countP_lt h.tree.sorted hin
  · rintro ⟨_, hpos, e, he, rfl⟩
    have hm : s.members.lookup e.2 = some e.1 := (hk e).mp (List.mem_of_getElem? he)
    have hplace : (s.scores.countP fun b => rank b < rank e) = r.toNat := countP_lt_eq h.tree.sorted he
    rw [rankByScore_eq h hm, hplace, Int.toNat_of_nonneg hpos]

/-! ## All members -/

structure Walk (s : SortedSet) (l : List String) : Prop where
  once : l.Nodup
  every : ∀ m, m ∈ l ↔ m ∈ s.members
  ascending : l.Pairwise fun a b => ∃ x y, s.members.lookup a = some x ∧ s.members.lookup b = some y ∧
    PairBelow (x, a) (y, b)

theorem getMembers_walk (h : s.Sound) (hk : s.Keyed) : s.Walk (s.getMembers 0 (-1)) := by
  rw [getMembers_all]
  have hascending : (s.scores.map Prod.snd).Pairwise fun a b => ∃ x y,
      s.members.lookup a = some x ∧ s.members.lookup b = some y ∧ PairBelow (x, a) (y, b) := by
    refine List.pairwise_map.mpr (h.tree.sorted.imp_of_mem fun {a b} ha hb hlt => ?_)
    exact ⟨a.1, b.1, (hk a).mp ha, (hk b).mp hb, (pairBelow_iff (h.tree.notNan a ha) (h.tree.notNan b hb)).mpr hlt⟩
  refine ⟨hascending.imp ?_, fun m => ?_, hascending⟩
  · rintro a b ⟨x, y, hx, hy, hbelow⟩ rfl
    rw [hx] at hy
    cases hy
    rw [pairBelow_iff (h.notNan a x hx) (h.notNan a x hx)] at hbelow
    exact lt_irrefl _ hbelow
  · rw [List.mem_map, ← AList.lookup_isSome, Option.isSome_iff_exists]
    constructor
    · rintro ⟨e, he, rfl⟩
      exact ⟨e.1, (hk e).mp he⟩
    · rintro ⟨x, hx⟩
      exact ⟨(x, m), (hk _).mpr hx, rfl⟩

/-! ## A member comes or goes -/

theorem Tree.nodup {l : List (F64 × String)} (h : Tree l) : l.Nodup :=
  h.sorted.imp fun hlt heq => absurd (congrArg rank heq) (ne_of_lt hlt)

/-- `s'` is `s` with one more member: the ranks above it are one more. -/
theorem rank_gain (h : s.Sound) (h' : s'.Sound) (hscore : score.isNan = false) (hnew : (score, member) ∉ s.scores)
    (hgain : ∀ e, e ∈ s'.scores ↔ e ∈ s.scores ∨ e = (score, member)) {other : String} {x : F64}
    (hm : s.members.lookup other = some x) (hm' : s'.members.lookup other = some x) :
    ∃ r, s.rankByScore other = some (some r) ∧
      s'.rankByScore other = some (some (r + if PairBelow (score, member) (x, other) then 1 else 0)) := by
  refine ⟨_, rankByScore_eq h hm, ?_⟩
  have hbelow := pairBelow_iff (a := (score, member)) (b := (x, other)) hscore (h.notNan other x hm)
  rw [rankByScore_eq h' hm', countP_gain (Tree.nodup h.tree) (Tree.nodup h'.tree) hnew hgain, Int.natCast_add]
  simp only [decide_eq_true_eq, ← hbelow]
  split <;> rfl

/-- Another member that comes or goes moves the others by one, if it is below them. -/
structure Shifts (s : SortedSet) : Prop where
  add : ∀ score member, score.isNan = false → member ∉ s.members → ∃ s', s.add score member = some (s', 1) ∧
    ∀ other x, s.members.lookup other = some x → ∃ r, s.rankByScore other = some (some r) ∧
      s'.rankByScore other = some (some (r + if PairBelow (score, member) (x, other) then 1 else 0))
  remove : ∀ score member, s.members.lookup member = some score → ∃ s', s.remove member = some (s', 1) ∧
    ∀ other x, other ≠ member → s.members.lookup other = some x → ∃ r, s'.rankByScore other = some (some r) ∧
      s.rankByScore other = some (some (r + if PairBelow (score, member) (x, other) then 1 else 0))

theorem add_shifts (h : s.Sound) (hk : s.Keyed) (hscore : score.isNan = false) (hnew : member ∉ s.members) :
    ∃ s', s.add score member = some (s', 1) ∧
      ∀ other x, s.members.lookup other = some x → ∃ r, s.rankByScore other = some (some r) ∧
        s'.rankByScore other = some (some (r + if PairBelow (score, member) (x, other) then 1 else 0)) := by
  obtain ⟨s', hadd, hs', hmem, hsc⟩ := add_unknown h hscore hnew
  have hnone := AList.lookup_eq_none.mpr hnew
  have hfree : ∀ a ∈ s.scores, rank a ≠ rank (score, member) := by
    intro a ha hr
    rw [hk a, (rank_eq.mp hr).2, hnone] at ha
    cases ha
  refine ⟨s', hadd, fun other x hx => ?_⟩
  have hne : other ≠ member := by
    rintro rfl
    rw [hnone] at hx
    cases hx
  refine rank_gain h hs' hscore (fun hin => hfree _ hin rfl) (fun e => ?_) hx ?_
  · rw [hsc, and_iff_left hfree]
  · rw [hmem, HashMap.lookup_put_ne hne, hx]

theorem remove_shifts (h : s.Sound) (hk : s.Keyed) (hm : s.members.lookup member = some score) :
    ∃ s', s.remove member = some (s', 1) ∧
      ∀ other x, other ≠ member → s.members.lookup other = some x → ∃ r, s'.rankByScore other = some (some r) ∧
        s.rankByScore other = some (some (r + if PairBelow (score, member) (x, other) then 1 else 0)) := by
  have hscore := h.notNan member score hm
  obtain ⟨s', n, hr, hs', _⟩ := remove_keyed h hk member
  obtain ⟨l, hl, _, hsc⟩ := scoresRemove_spec (k := (score, member)) hscore h.tree
  have hs : s.remove member = some ({ members := s.members.erase member, scores := l }, 1) := by
    simp [remove, hm, hl]
  rw [hs] at hr
  cases hr
  refine ⟨_, hs, fun other x hne hx => ?_⟩
  refine rank_gain hs' h hscore (fun hin => ((hsc _).mp hin).2 rfl) (fun e => ?_) ?_ hx
  · rw [hsc]
    constructor
    · intro he
      by_cases hek : rank e = rank (score, member)
      · exact .inr (h.tree.eq_of_rank he ((hk _).mpr hm) hek)
      · exact .inl ⟨he, hek⟩
    · rintro (⟨he, _⟩ | rfl)
      · exact he
      · exact (hk _).mpr hm
  · rw [AList.lookup_erase_ne hne, hx]

/-- Ranks and ranges agree, and other members move a rank by one or not at all. -/
theorem rank_range (h : s.Sound) (hk : s.Keyed) :
    (∀ m r, s.rankByScore m = some (some r) ↔ m ∈ s.members ∧ 0 ≤ r ∧ (s.getMembers 0 (-1))[r.toNat]? = some m) ∧
      s.Walk (s.getMembers 0 (-1)) ∧ s.Shifts :=
  ⟨rankByScore_iff h hk, getMembers_walk h hk,
    ⟨fun _ _ hscore hnew => add_shifts h hk hscore hnew, fun _ _ hm => remove_shifts h hk hm⟩⟩

theorem threeMembers_sound : threeMembers.Sound :=
  ⟨⟨threeMembers_ordered.increasing, by decide⟩, fun m x hx =>
    (by decide : ∀ e ∈ threeMembers.scores, e.1.isNan = false) (x, m) ((threeMembers_ordered.exactly _).mpr hx)⟩

theorem rank_range_three :
    (∀ m r, threeMembers.rankByScore m = some (some r) ↔
      m ∈ threeMembers.members ∧ 0 ≤ r ∧ (threeMembers.getMembers 0 (-1))[r.toNat]? = some m) ∧
      threeMembers.Walk (threeMembers.getMembers 0 (-1)) ∧ threeMembers.Shifts :=
  rank_range threeMembers_sound threeMembers_ordered.exactly

end SortedSet

end Redis
