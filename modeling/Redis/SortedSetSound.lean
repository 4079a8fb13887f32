import Redis.DataTypes
import Mathlib.Data.List.Induction

/-!
# The two indexes of a sorted set

On scores that are not NaN the tree is a list in strictly increasing order of
`rank`, the order key of the score and the member, whatever is added
(`Tree`). The tree and the members say the same (`Keyed`) as long as no member
gets another score: `add` looks for the new pair and leaves the old one.
-/

namespace Redis

open Lib

/-! ## The tree of scores -/

def rank (k : F64 × String) : Int ×ₗ String := toLex (k.1.key, k.2)

theorem rank_eq {a b : F64 × String} : rank a = rank b ↔ a.1.key = b.1.key ∧ a.2 = b.2 := by
  unfold rank
  rw [toLex_inj, Prod.mk.injEq]

theorem scoreCmp_eq {a b : F64 × String} (ha : a.1.isNan = false) (hb : b.1.isNan = false) :
    scoreCmp a b = some (compare (rank a) (rank b)) := by
  unfold scoreCmp
  rw [F64.partialCmp_of_not_nan ha hb, Option.map_some, Prod.Lex.compare_def]
  rfl

structure Tree (l : List (F64 × String)) : Prop where
  sorted : l.Pairwise fun a b => rank a < rank b
  notNan : ∀ a ∈ l, a.1.isNan = false

theorem Tree.tail {a : F64 × String} {l : List (F64 × String)} (h : Tree (a :: l)) : Tree l :=
  ⟨(List.pairwise_cons.mp h.sorted).2, fun b hb => h.notNan b (List.mem_cons_of_mem _ hb)⟩

theorem Tree.cons {a : F64 × String} {l : List (F64 × String)} (ha : a.1.isNan = false)
    (hlt : ∀ b ∈ l, rank a < rank b) (h : Tree l) : Tree (a :: l) := by
  refine ⟨List.pairwise_cons.mpr ⟨hlt, h.sorted⟩, ?_⟩
  rintro b (_ | ⟨_, hb⟩)
  · exact ha
  · exact h.notNan b hb

theorem Tree.eq_of_rank {l : List (F64 × String)} (h : Tree l) {a b : F64 × String} (ha : a ∈ l) (hb : b ∈ l)
    (hr : rank a = rank b) : a = b := by
  have hall := List.Pairwise.forall_of_forall_of_flip (R := fun a b => rank a = rank b → a = b) (l := l)
    (fun _ _ _ => rfl) (h.sorted.imp fun hlt heq => absurd heq (ne_of_lt hlt))
    (h.sorted.imp fun hlt heq => absurd heq (ne_of_gt hlt))
  exact hall ha hb hr

theorem scoresInsert_spec {k : F64 × String} (hk : k.1.isNan = false) {l : List (F64 × String)} (h : Tree l) :
    ∃ l', scoresInsert k l = some l' ∧ Tree l' ∧
      ∀ e, e ∈ l' ↔ e ∈ l ∨ (e = k ∧ ∀ a ∈ l, rank a ≠ rank k) := by
  induction l with
  | nil => exact ⟨[k], rfl, Tree.cons hk (by simp) h, by simp⟩
  | cons a l ih =>
    have ha : a.1.isNan = false := h.notNan a (List.mem_cons_self ..)
    have hal := (List.pairwise_cons.mp h.sorted).1
    rw [scoresInsert, scoreCmp_eq hk ha]
    cases hc : compare (rank k) (rank a) with
    | lt =>
      have hlt := compare_lt_iff_lt.mp hc
      have hall : ∀ b ∈ a :: l, rank k < rank b := by
        rintro b (_ | ⟨_, hb⟩)
        · exact hlt
        · exact lt_trans hlt (hal b hb)
      refine ⟨k :: a :: l, rfl, h.cons hk hall, fun e => ?_⟩
      rw [List.mem_cons, or_comm]
      have hne : ∀ b ∈ a :: l, rank b ≠ rank k := fun b hb => ne_of_gt (hall b hb)
      simp only [and_iff_left hne]
    | eq =>
      have heq := compare_eq_iff_eq.mp hc
      refine ⟨a :: l, rfl, h, fun e => ⟨Or.inl, ?_⟩⟩
      rintro (he | ⟨_, hne⟩)
      · exact he
      · exact absurd heq.symm (hne a (List.mem_cons_self ..))
    | gt =>
      have hgt := compare_gt_iff_gt.mp hc
      obtain ⟨l', hl', ht, hm⟩ := ih h.tail
      refine ⟨a :: l', by rw [hl']; rfl, ht.cons ha fun b hb => ?_, fun e => ?_⟩
      · rcases (hm b).mp hb with hb | ⟨rfl, _⟩
        · exact hal b hb
        · exact hgt
      · have hne : (∀ b ∈ a :: l, rank b ≠ rank k) ↔ ∀ b ∈ l, rank b ≠ rank k := by
          simp [ne_of_lt hgt]
        rw [List.mem_cons, hm, List.mem_cons, hne, or_assoc]

theorem scoresRemove_spec {k : F64 × String} (hk : k.1.isNan = false) {l : List (F64 × String)} (h : Tree l) :
    ∃ l', scoresRemove k l = some l' ∧ Tree l' ∧ ∀ e, e ∈ l' ↔ e ∈ l ∧ rank e ≠ rank k := by
  induction l with
  | nil => exact ⟨[], rfl, h, by simp⟩
  | cons a l ih =>
    have ha : a.1.isNan = false := h.notNan a (List.mem_cons_self ..)
    have hal := (List.pairwise_cons.mp h.sorted).1
    rw [scoresRemove, scoreCmp_eq hk ha]
    cases hc : compare (rank k) (rank a) with
    | lt =>
      have hlt := compare_lt_iff_lt.mp hc
      refine ⟨a :: l, rfl, h, fun e => ⟨fun he => ⟨he, ?_⟩, And.left⟩⟩
      rcases List.mem_cons.mp he with rfl | he
      · exact ne_of_gt hlt
      · exact ne_of_gt (lt_trans hlt (hal e he))
    | eq =>
      have heq := compare_eq_iff_eq.mp hc
      refine ⟨l, rfl, h.tail, fun e => ⟨fun he => ?_, ?_⟩⟩
      · exact ⟨List.mem_cons_of_mem _ he, heq ▸ ne_of_gt (hal e he)⟩
      · rintro ⟨he, hne⟩
        rcases List.mem_cons.mp he with rfl | he
        · exact absurd heq.symm hne
        · exact he
    | gt =>
      have hgt := compare_gt_iff_gt.mp hc
      obtain ⟨l', hl', ht, hm⟩ := ih h.tail
      refine ⟨a :: l', by rw [hl']; rfl, ht.cons ha fun b hb => hal b ((hm b).mp hb).1, fun e => ?_⟩
      rw [List.mem_cons, hm, List.mem_cons]
      constructor
      · rintro (rfl | ⟨he, hne⟩)
        · exact ⟨Or.inl rfl, ne_of_lt hgt⟩
        · exact ⟨Or.inr he, hne⟩
      · rintro ⟨rfl | he, hne⟩
        · exact Or.inl rfl
        · exact Or.inr ⟨he, hne⟩

namespace SortedSet

/-! ## The two indexes -/

structure Sound (s : SortedSet) : Prop where
  tree : Tree s.scores
  notNan : ∀ m score, s.members.lookup m = some score → score.isNan = false

def Keyed (s : SortedSet) : Prop := ∀ e, e ∈ s.scores ↔ s.members.lookup e.2 = some e.1

/-- The tree has each member once, with the score it has in `members`. -/
structure InStep (s : SortedSet) : Prop where
  keyed : s.Keyed
  once : ∀ m ∈ s.members, (s.scores.countP fun e => e.2 = m) = 1
  length : s.scores.length = s.len

theorem Sound.inStep {s : SortedSet} (h : s.Sound) (hk : s.Keyed) : s.InStep := by
  have hinj : ∀ a ∈ s.scores, ∀ b ∈ s.scores, a.2 = b.2 → a = b := by
    intro a ha b hb hab
    have h1 := (hk a).mp ha
    have h2 := (hk b).mp hb
    rw [hab] at h1
    exact Prod.ext (Option.some.inj (h1.symm.trans h2)) hab
  have hnodup : (s.scores.map Prod.snd).Nodup :=
    List.Nodup.map_on hinj (h.tree.sorted.imp fun hlt heq => absurd (congrArg rank heq) (ne_of_lt hlt))
  have hmem : ∀ m, m ∈ s.scores.map Prod.snd ↔ m ∈ s.members.keys := by
    intro m
    rw [List.mem_map, ← AList.mem_keys, ← AList.lookup_isSome, Option.isSome_iff_exists]
    constructor
    · rintro ⟨e, he, rfl⟩
      exact ⟨e.1, (hk e).mp he⟩
    · rintro ⟨score, hs⟩
      exact ⟨(score, m), (hk _).mpr hs, rfl⟩
  refine ⟨hk, fun m hm => ?_, ?_⟩
  · have := List.count_eq_one_of_mem hnodup ((hmem m).mpr (AList.mem_keys.mp hm))
    rw [List.count, List.countP_map] at this
    refine Eq.trans (List.countP_congr fun e _ => ?_) this
    simp
  · have hperm := (List.perm_ext_iff_of_nodup hnodup s.members.keys_nodup).mpr hmem
    rw [← List.length_map (f := Prod.snd), hperm.length_eq, len]

theorem sound_new : Sound new := ⟨⟨.nil, by simp [new]⟩, by simp [new]⟩

theorem keyed_new : Keyed new := by simp [Keyed, new]

/-- The score a member has is not the one it gets. -/
def Rescored (s : SortedSet) (score : F64) (member : String) : Prop :=
  ∃ old, s.members.lookup member = some old ∧ F64.partialCmp old score ≠ some .eq

theorem rescored_iff {s : SortedSet} (h : s.Sound) {score : F64} (hn : score.isNan = false) (member : String) :
    s.Rescored score member ↔ ∃ old, s.members.lookup member = some old ∧
    rank (old, member) ≠ rank (score, member) := by
  have hcmp : ∀ old, s.members.lookup member = some old →
      (F64.partialCmp old score ≠ some .eq ↔ rank (old, member) ≠ rank (score, member)) := by
    intro old ho
    rw [F64.partialCmp_of_not_nan (h.notNan _ _ ho) hn, ne_eq, Option.some.injEq, compare_eq_iff_eq, ne_eq, rank_eq]
    simp
  constructor
  · rintro ⟨old, ho, hne⟩
    exact ⟨old, ho, (hcmp old ho).mp hne⟩
  · rintro ⟨old, ho, hne⟩
    exact ⟨old, ho, (hcmp old ho).mpr hne⟩

theorem notNan_insert {s : SortedSet} (h : s.Sound) {score : F64} (hn : score.isNan = false) (member : String) :
    ∀ m x, (HashMap.put member score s.members).lookup m = some x → x.isNan = false := by
  intro m x hx
  by_cases hm : m = member
  · subst hm
    rw [HashMap.lookup_put, Option.some.injEq] at hx
    exact hx ▸ hn
  · rw [HashMap.lookup_put_ne hm] at hx
    exact h.notNan m x hx

theorem add_known {s : SortedSet} (h : s.Sound) {score : F64} (hn : score.isNan = false) {member : String}
    (hm : member ∈ s.members) :
    ∃ s', s.add score member = some (s', 0) ∧ s'.Sound ∧ s'.members = HashMap.put member score s.members ∧
      ∀ e, e ∈ s'.scores ↔ e = (score, member) ∨ (e ∈ s.scores ∧ rank e ≠ rank (score, member)) := by
  obtain ⟨l₁, hl₁, ht₁, hm₁⟩ := scoresRemove_spec (k := (score, member)) hn h.tree
  obtain ⟨l₂, hl₂, ht₂, hm₂⟩ := scoresInsert_spec (k := (score, member)) hn ht₁
  have hfree : ∀ a ∈ l₁, rank a ≠ rank (score, member) := fun a ha => ((hm₁ a).mp ha).2
  refine ⟨⟨HashMap.put member score s.members, l₂⟩, ?_, ⟨ht₂, notNan_insert h hn member⟩, rfl, fun e => ?_⟩
  · simp [add, hm, hl₁, hl₂]
  · rw [hm₂ e, hm₁ e, or_comm, and_iff_left hfree]

theorem add_unknown {s : SortedSet} (h : s.Sound) {score : F64} (hn : score.isNan = false) {member : String}
    (hm : member ∉ s.members) :
    ∃ s', s.add score member = some (s', 1) ∧ s'.Sound ∧ s'.members = HashMap.put member score s.members ∧
      ∀ e, e ∈ s'.scores ↔ e ∈ s.scores ∨ (e = (score, member) ∧ ∀ a ∈ s.scores, rank a ≠ rank (score, member)) := by
  obtain ⟨l, hl, ht, hml⟩ := scoresInsert_spec (k := (score, member)) hn h.tree
  refine ⟨⟨HashMap.put member score s.members, l⟩, ?_, ⟨ht, notNan_insert h hn member⟩, rfl, hml⟩
  simp [add, hm, hl]

/-- One addition keeps the indexes in step exactly if the member is new or has that score. -/
theorem add_keyed {s : SortedSet} (h : s.Sound) (hk : s.Keyed) {score : F64} (hn : score.isNan = false)
    (member : String) :
    ∃ s' n, s.add score member = some (s', n) ∧ s'.Sound ∧ (s'.Keyed ↔ ¬ s.Rescored score member) := by
  rw [rescored_iff h hn]
  by_cases hm : member ∈ s.members
  · obtain ⟨s', ha, hs', hmem, hsc⟩ := add_known h hn hm
    obtain ⟨old, ho⟩ := HashMap.exists_lookup hm
    refine ⟨s', 0, ha, hs', ?_⟩
    constructor
    · rintro hk' ⟨old', ho', hne⟩
      -- the pair with the old score is still in the tree
      have hold : (old', member) ∈ s'.scores := (hsc _).mpr (Or.inr ⟨(hk _).mpr ho', hne⟩)
      have := (hk' _).mp hold
      rw [hmem, HashMap.lookup_put, Option.some.injEq] at this
      exact hne (by rw [this])
    · intro hno e
      have hrank : rank (old, member) = rank (score, member) := by
        by_contra hne
        exact hno ⟨old, ho, hne⟩
      rw [hsc, hmem]
      by_cases he : e.2 = member
      · subst he
        rw [HashMap.lookup_put, Option.some.injEq]
        constructor
        · rintro (hek | ⟨hes, hne⟩)
          · rw [hek]
          · have := (hk e).mp hes
            rw [ho, Option.some.injEq] at this
            rw [this] at hrank
            exact absurd hrank hne
        · rintro rfl
          exact Or.inl rfl
      · have hne : rank e ≠ rank (score, member) := fun hr => he (rank_eq.mp hr).2
        rw [HashMap.lookup_put_ne he, ← hk e]
        constructor
        · rintro (rfl | ⟨hes, _⟩)
          · exact absurd rfl he
          · exact hes
        · exact fun hes => Or.inr ⟨hes, hne⟩
  · obtain ⟨s', ha, hs', hmem, hsc⟩ := add_unknown h hn hm
    have hnone := AList.lookup_eq_none.mpr hm
    have hfree : ∀ a ∈ s.scores, a.2 ≠ member := by
      intro a hmem hma
      rw [hk a, hma, hnone] at hmem
      cases hmem
    refine ⟨s', 1, ha, hs', iff_of_true (fun e => ?_) ?_⟩
    · rw [hsc, hmem]
      by_cases he : e.2 = member
      · subst he
        rw [HashMap.lookup_put, Option.some.injEq]
        constructor
        · rintro (hes | ⟨hek, _⟩)
          · exact absurd rfl (hfree e hes)
          · rw [hek]
        · rintro rfl
          exact Or.inr ⟨rfl, fun a ha hr => hfree a ha (rank_eq.mp hr).2⟩
      · rw [HashMap.lookup_put_ne he, ← hk e]
        constructor
        · rintro (hes | ⟨rfl, _⟩)
          · exact hes
          · exact absurd rfl he
        · exact Or.inl
    · rintro ⟨old, ho, _⟩
      rw [hnone] at ho
      cases ho

theorem remove_keyed {s : SortedSet} (h : s.Sound) (hk : s.Keyed) (member : String) :
    ∃ s' n, s.remove member = some (s', n) ∧ s'.Sound ∧ s'.Keyed := by
  cases hl : s.members.lookup member with
  | none => exact ⟨s, 0, by simp [remove, hl], h, hk⟩
  | some score =>
    obtain ⟨l, hr, ht, hm⟩ := scoresRemove_spec (k := (score, member)) (h.notNan _ _ hl) h.tree
    refine ⟨⟨s.members.erase member, l⟩, 1, by simp [remove, hl, hr], ⟨ht, fun m x hx => ?_⟩, fun e => ?_⟩
    · by_cases hmm : m = member
      · subst hmm
        rw [AList.lookup_erase] at hx
        cases hx
      · rw [AList.lookup_erase_ne hmm] at hx
        exact h.notNan m x hx
    · rw [hm]
      by_cases he : e.2 = member
      · subst he
        rw [AList.lookup_erase, hk e, hl]
        constructor
        · rintro ⟨hs, hne⟩
          exact absurd (by rw [Option.some.inj hs]) hne
        · rintro ⟨⟩
      · have hne : rank e ≠ rank (score, member) := fun hr => he (rank_eq.mp hr).2
        rw [AList.lookup_erase_ne he, ← hk e, and_iff_left hne]

/-! ## Sequences of operations -/

inductive Op where
  | add (score : F64) (member : String)
  | remove (member : String)

def apply (s : SortedSet) : Op → Option SortedSet
  | .add score member => (s.add score member).map Prod.fst
  | .remove member => (s.remove member).map Prod.fst

def applyAll : SortedSet → List Op → Option SortedSet
  | s, [] => some s
  | s, op :: ops => (s.apply op).bind fun s => s.applyAll ops

theorem applyAll_append (s : SortedSet) (ops ops' : List Op) :
    s.applyAll (ops ++ ops') = (s.applyAll ops).bind fun s => s.applyAll ops' := by
  induction ops generalizing s with
  | nil => rfl
  | cons op ops ih =>
    rw [List.cons_append, applyAll, applyAll]
    cases s.apply op with
    | none => rfl
    | some t => exact ih t

/-- After every operation of the sequence the indexes are in step, if and only
if no `add` gives a member another score than it has. -/
theorem inStep_iff (ops : List Op) (hnan : ∀ score member, Op.add score member ∈ ops → score.isNan = false) :
    (∀ pre rest, ops = pre ++ rest → ∃ s, new.applyAll pre = some s ∧ s.InStep) ↔
      ∀ pre score member rest s, ops = pre ++ Op.add score member :: rest → new.applyAll pre = some s →
        ¬ s.Rescored score member := by
  -- forwards, every prefix leads to a sound set, and to the first one not in step
  have hsound : ∀ pre rest, ops = pre ++ rest →
      (∀ p score member r s, ops = p ++ Op.add score member :: r → new.applyAll p = some s →
        p.length < pre.length → ¬ s.Rescored score member) →
      ∃ s, new.applyAll pre = some s ∧ s.Sound ∧ s.Keyed := by
    intro pre
    induction pre using List.reverseRecOn with
    | nil => exact fun _ _ _ => ⟨new, rfl, sound_new, keyed_new⟩
    | append_singleton pre op ih =>
      intro rest hops hcond
      rw [List.append_assoc, List.singleton_append] at hops
      obtain ⟨s, hs, hsd, hk⟩ := ih (op :: rest) hops fun p score member r t hp ht hlt =>
        hcond p score member r t hp ht (by rw [List.length_append]; omega)
      cases op with
      | add score member =>
        have hn := hnan score member (by rw [hops]; simp)
        obtain ⟨s', n, ha, hsd', hiff⟩ := add_keyed hsd hk hn member
        have hno := hcond pre score member rest s hops hs (by simp)
        refine ⟨s', ?_, hsd', hiff.mpr hno⟩
        rw [applyAll_append, hs]
        simp [applyAll, apply, ha]
      | remove member =>
        obtain ⟨s', n, hr, hsd', hk'⟩ := remove_keyed hsd hk member
        refine ⟨s', ?_, hsd', hk'⟩
        rw [applyAll_append, hs]
        simp [applyAll, apply, hr]
  constructor
  · intro hall pre
    -- by induction on the length of what comes before the addition
    induction hlen : pre.length using Nat.strong_induction_on generalizing pre with
    | _ k ih =>
      intro score member rest s hops hs
      obtain ⟨s₀, hs₀, hsd, hk⟩ := hsound pre _ hops fun p score' member' r t hp ht hlt =>
        ih p.length (hlen ▸ hlt) p rfl score' member' r t hp ht
      obtain rfl : s₀ = s := Option.some.inj (hs₀.symm.trans hs)
      have hn := hnan score member (by rw [hops]; simp)
      obtain ⟨s', n, ha, _, hiff⟩ := add_keyed hsd hk hn member
      obtain ⟨s'', hs'', hin⟩ := hall (pre ++ [Op.add score member]) rest (by rw [hops]; simp)
      rw [applyAll_append, hs] at hs''
      simp only [applyAll, apply, ha, Option.map_some, Option.bind_some, Option.some.injEq] at hs''
      subst hs''
      exact hiff.mp hin.keyed
  · intro hcond pre rest hops
    obtain ⟨s, hs, hsd, hk⟩ := hsound pre rest hops fun p score member r t hp ht _ => hcond p score member r t hp ht
    exact ⟨s, hs, hsd.inStep hk⟩

def one : F64 := ⟨0x3FF0000000000000⟩

def two : F64 := ⟨0x4000000000000000⟩

theorem inStep_iff_scored :
    (∀ pre rest, [Op.add one "a", .add two "b", .remove "a", .add two "b"] = pre ++ rest →
      ∃ s, new.applyAll pre = some s ∧ s.InStep) ↔
      ∀ pre score member rest s, [Op.add one "a", .add two "b", .remove "a", .add two "b"] =
        pre ++ Op.add score member :: rest → new.applyAll pre = some s → ¬ s.Rescored score member :=
  inStep_iff _ (by
    intro score member h
    simp only [List.mem_cons, Op.add.injEq, reduceCtorEq, List.not_mem_nil, or_false, false_or] at h
    rcases h with ⟨rfl, _⟩ | ⟨rfl, _⟩ | ⟨rfl, _⟩ <;> decide)

/-- The old score of a member stays in the tree. -/
theorem rescored_twice :
    ∃ s, new.applyAll [.add one "a", .add two "a"] = some s ∧ s.scores = [(one, "a"), (two, "a")] ∧
      s.members.lookup "a" = some two ∧ ¬ s.InStep := by
  refine ⟨⟨(∅ : HashMap String F64).insert "a" two, [(one, "a"), (two, "a")]⟩, ?_, rfl, ?_, ?_⟩
  · rfl
  · exact AList.lookup_insert _
  · intro h
    have := (h.keyed (one, "a")).mp (List.mem_cons_self ..)
    rw [AList.lookup_insert] at this
    exact absurd this (by decide)

end SortedSet

end Redis
