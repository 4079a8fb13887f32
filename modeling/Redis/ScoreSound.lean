import Redis.AnswerSound
import Redis.CmdBuilder
import Redis.SortedSetSound

/-!
# Scores that are not a number

ZADD accepts a NaN, and the tree of scores unwraps the comparison with it. The
first one that gets into an empty tree is compared with nothing; it is then the
only key there is, and whatever is looked for next is compared with it
(`Calm`).
-/

namespace Redis

open Lib

section
variable {k : F64 × String} {l : List (F64 × String)}

/-- Among scores that are not NaN only a NaN goes wrong, at the first key. -/
theorem meetsNan_iff (hl : ∀ a ∈ l, a.1.isNan = false) : MeetsNan k l ↔ l ≠ [] ∧ k.1.isNan = true := by
  induction l with
  | nil => simp [MeetsNan]
  | cons a l ih =>
    have ha : a.1.isNan = false := hl a (List.mem_cons_self ..)
    have ih := ih fun b hb => hl b (List.mem_cons_of_mem a hb)
    rw [MeetsNan, ha, ih]
    simp only [Bool.false_eq_true, false_or, ne_eq, reduceCtorEq, not_false_eq_true, true_and]
    constructor
    · rintro (hk | ⟨_, _, hk⟩)
      · exact hk
      · exact hk
    · exact Or.inl

end

namespace SortedSet

variable {s s' : SortedSet} {score : F64} {member : String} {n : Int}

/-- Members are in the tree, and a NaN is alone there. -/
structure Calm (s : SortedSet) : Prop where
  kept : ∀ m x, s.members.lookup m = some x → ∃ e ∈ s.scores, e.2 = m ∧ e.1.isNan = x.isNan
  tree : Tree s.scores ∨ ∃ e, s.scores = [e] ∧ e.1.isNan = true

def InvolvesNan (s : SortedSet) (score : F64) : Prop :=
  s.scores ≠ [] ∧ (score.isNan = true ∨ ∃ e ∈ s.scores, e.1.isNan = true)

theorem calm_new : Calm new := ⟨fun m x hx => by simp [new] at hx, .inl ⟨.nil, by simp [new]⟩⟩

theorem Calm.meetsNan_iff (h : s.Calm) (member : String) : MeetsNan (score, member) s.scores ↔ s.InvolvesNan score := by
  unfold InvolvesNan
  rcases h.tree with ht | ⟨e, he, hnan⟩
  · have hnone : ¬ ∃ e ∈ s.scores, e.1.isNan = true := by
      rintro ⟨e, he, hnan⟩
      rw [ht.notNan e he] at hnan
      cases hnan
    rw [Redis.meetsNan_iff ht.notNan]
    simp only [hnone, or_false]
  · rw [he]
    simp [MeetsNan, hnan]

theorem Calm.sound (h : s.Calm) (ht : Tree s.scores) : s.Sound := by
  refine ⟨ht, fun m x hx => ?_⟩
  obtain ⟨e, he, _, hnan⟩ := h.kept m x hx
  rw [← hnan]
  exact ht.notNan e he

theorem Calm.no_members (h : s.Calm) (hnil : s.scores = []) : member ∉ s.members := by
  intro hm
  obtain ⟨x, hx⟩ := HashMap.exists_lookup hm
  obtain ⟨e, he, _⟩ := h.kept member x hx
  rw [hnil] at he
  cases he

theorem Calm.tree_of_not (h : s.Calm) (hno : ¬ s.InvolvesNan score) : Tree s.scores := by
  rcases h.tree with ht | ⟨e, he, hnan⟩
  · exact ht
  · refine absurd ⟨?_, .inr ⟨e, ?_, hnan⟩⟩ hno
    · rw [he]
      exact List.cons_ne_nil _ _
    · rw [he]
      exact List.mem_singleton_self e

theorem Calm.notNan_of_not (hno : ¬ s.InvolvesNan score) (hne : s.scores ≠ []) : score.isNan = false :=
  Bool.eq_false_iff.mpr fun hnan => hno ⟨hne, .inl hnan⟩

theorem add_first (hm : member ∉ s.members) (hnil : s.scores = []) :
    s.add score member = some ({ members := HashMap.put member score s.members, scores := [(score, member)] }, 1) := by
  simp [add, hm, hnil, scoresInsert]

theorem Calm.add_eq_none (h : s.Calm) : s.add score member = none ↔ s.InvolvesNan score := by
  constructor
  · intro hadd
    by_contra hno
    by_cases hnil : s.scores = []
    · rw [add_first (h.no_members hnil) hnil] at hadd
      cases hadd
    · have hs := h.sound (h.tree_of_not hno)
      have hscore := Calm.notNan_of_not hno hnil
      by_cases hm : member ∈ s.members
      · obtain ⟨s', hadd', _⟩ := add_known hs hscore hm
        rw [hadd'] at hadd
        cases hadd
      · obtain ⟨s', hadd', _⟩ := add_unknown hs hscore hm
        rw [hadd'] at hadd
        cases hadd
  · intro hinv
    exact SortedSet.add_eq_none.mpr (.inl ((h.meetsNan_iff member).mpr hinv))

theorem Calm.memberMeetsNan_iff (h : s.Calm) :
    CmdHandler.MemberMeetsNan member s ↔ ∃ x, s.members.lookup member = some x ∧ x.isNan = true := by
  unfold CmdHandler.MemberMeetsNan
  refine exists_congr fun x => and_congr_right fun hx => ?_
  obtain ⟨e, he, _, hnan⟩ := h.kept member x hx
  rw [h.meetsNan_iff]
  constructor
  · rintro ⟨_, hxn | ⟨e', he', hnan'⟩⟩
    · exact hxn
    · rcases h.tree with ht | ⟨a, ha, han⟩
      · rw [ht.notNan e' he'] at hnan'
        cases hnan'
      · rw [ha, List.mem_singleton] at he
        rw [← hnan, he, han]
  · exact fun hxn => ⟨List.ne_nil_of_mem he, .inl hxn⟩

/-- A member gets a score, and is in the tree with it or with another that is not
a NaN; the others stay. -/
theorem calm_put (hmem : s'.members = HashMap.put member score s.members)
    (htree : Tree s'.scores ∨ ∃ e, s'.scores = [e] ∧ e.1.isNan = true)
    (hnew : ∃ e ∈ s'.scores, e.2 = member ∧ e.1.isNan = score.isNan)
    (hother : ∀ m x, m ≠ member → s.members.lookup m = some x → ∃ e ∈ s'.scores, e.2 = m ∧ e.1.isNan = x.isNan) :
    s'.Calm := by
  refine ⟨fun m x hx => ?_, htree⟩
  rw [hmem] at hx
  by_cases hm : m = member
  · subst hm
    rw [HashMap.lookup_put] at hx
    cases hx
    exact hnew
  · rw [HashMap.lookup_put_ne hm] at hx
    exact hother m x hm hx

theorem Calm.kept_other (h : s.Calm) {m : String} {x : F64} (hm : m ≠ member) (hx : s.members.lookup m = some x) :
    ∃ e ∈ s.scores, e.2 = m ∧ e.1.isNan = x.isNan ∧ rank e ≠ rank (score, member) := by
  obtain ⟨e, he, hem, hnan⟩ := h.kept m x hx
  exact ⟨e, he, hem, hnan, fun hr => hm (hem.symm.trans (rank_eq.mp hr).2)⟩

theorem Calm.add (h : s.Calm) (hadd : s.add score member = some (s', n)) : s'.Calm := by
  have hno : ¬ s.InvolvesNan score := by
    intro hnan
    have hnone : s.add score member = none := h.add_eq_none.mpr hnan
    rw [hadd] at hnone
    cases hnone
  by_cases hnil : s.scores = []
  · rw [add_first (h.no_members hnil) hnil] at hadd
    cases hadd
    refine calm_put rfl ?_ ⟨(score, member), List.mem_singleton_self _, rfl, rfl⟩ fun m x _ hx => ?_
    · cases hscore : score.isNan with
      | true => exact .inr ⟨(score, member), rfl, hscore⟩
      | false => exact .inl (Tree.cons hscore (by simp) ⟨.nil, by simp⟩)
    · rw [AList.lookup_eq_none.mpr (h.no_members hnil)] at hx
      cases hx
  · have hs := h.sound (h.tree_of_not hno)
    have hscore := Calm.notNan_of_not hno hnil
    by_cases hm : member ∈ s.members
    · obtain ⟨t, hadd', ht, hmem, hsc⟩ := add_known hs hscore hm
      rw [hadd'] at hadd
      cases hadd
      refine calm_put hmem (.inl ht.tree) ⟨_, (hsc _).mpr (.inl rfl), rfl, rfl⟩ fun m x hmm hx => ?_
      obtain ⟨e, he, hem, hnan, hr⟩ := h.kept_other hmm hx
      exact ⟨e, (hsc e).mpr (.inr ⟨he, hr⟩), hem, hnan⟩
    · obtain ⟨t, hadd', ht, hmem, hsc⟩ := add_unknown hs hscore hm
      rw [hadd'] at hadd
      cases hadd
      refine calm_put hmem (.inl ht.tree) ?_ fun m x hmm hx => ?_
      · -- an old pair of the member, if there is one of that rank, stays in its place
        by_cases hfree : ∀ a ∈ s.scores, rank a ≠ rank (score, member)
        · exact ⟨_, (hsc _).mpr (.inr ⟨rfl, hfree⟩), rfl, rfl⟩
        · push Not at hfree
          obtain ⟨a, ha, hr⟩ := hfree
          refine ⟨a, (hsc a).mpr (.inl ha), (rank_eq.mp hr).2, ?_⟩
          rw [hs.tree.notNan a ha, hscore]
      · obtain ⟨e, he, hem, hnan⟩ := h.kept m x hx
        exact ⟨e, (hsc e).mpr (.inl he), hem, hnan⟩

theorem Calm.remove (h : s.Calm) (hrem : s.remove member = some (s', n)) : s'.Calm := by
  cases hl : s.members.lookup member with
  | none =>
    simp only [SortedSet.remove, hl, Option.some.injEq, Prod.mk.injEq] at hrem
    rw [← hrem.1]
    exact h
  | some x =>
    have hno : ¬ CmdHandler.MemberMeetsNan member s := by
      rw [← CmdHandler.remove_eq_none, hrem]
      exact Option.some_ne_none _
    have hx : x.isNan = false := Bool.eq_false_iff.mpr fun hnan => hno (h.memberMeetsNan_iff.mpr ⟨x, hl, hnan⟩)
    have ht : Tree s.scores := by
      rcases h.tree with ht | ⟨e, he, hnan⟩
      · exact ht
      · obtain ⟨e', he', _, hsame⟩ := h.kept member x hl
        rw [he, List.mem_singleton] at he'
        rw [he', hnan, hx] at hsame
        cases hsame
    obtain ⟨l, hr, hl', hsc⟩ := scoresRemove_spec (k := (x, member)) hx ht
    simp only [SortedSet.remove, hl, hr] at hrem
    cases hrem
    refine ⟨fun m y hy => ?_, .inl hl'⟩
    by_cases hm : m = member
    · subst hm
      rw [AList.lookup_erase] at hy
      cases hy
    · rw [AList.lookup_erase_ne hm] at hy
      obtain ⟨e, he, hem, hnan⟩ := h.kept m y hy
      exact ⟨e, (hsc e).mpr ⟨he, fun hrank => hm (hem.symm.trans (rank_eq.mp hrank).2)⟩, hem, hnan⟩

end SortedSet

/-! ## Commands on sorted sets -/

namespace CmdHandler

def OnSortedSet : Cmd → Prop
  | .zadd .. | .zrem .. | .zrank .. | .zrange .. | .zscore .. | .geoadd .. => True
  | _ => False

structure SetCall where
  cmd : Cmd
  onSortedSet : OnSortedSet cmd
  now : Nat := 0
  isSubscriber : Bool := false
  clientId : Nat := 0
  epollFd : Option Int := none

def CalmData (data : Data) : Prop := ∀ key, ¬ HasZSet data key fun set => ¬ set.Calm

/-- The search of the command compares with a NaN: its score is one, or one is there. -/
def ComparesNan (P : Platform) (data : Data) : Cmd → Prop
  | .zadd key score _ => HasZSet data key fun set => set.InvolvesNan score
  | .geoadd key long lat _ =>
    ∃ score, geoScore P long lat = .ok score ∧ HasZSet data key fun set => set.InvolvesNan score
  | .zrem key member | .zrank key member =>
    HasZSet data key fun set => ∃ x, set.members.lookup member = some x ∧ x.isNan = true
  | _ => False

section
variable {P : Platform} {o : IterOrder} {exec : CmdHandler → Nat → Option (CmdHandler × CmdResult)} {h h' : CmdHandler}
variable {data data' : Data} {key member : String} {r : CmdResult}

theorem CalmData.calm (h : CalmData data) {set : SortedSet} {x : Option Nat}
    (hl : data.lookup key = some ⟨.zSet set, x⟩) : set.Calm := by
  by_contra hno
  exact h key ⟨set, x, hl, hno⟩

theorem hasZSet_congr {p q : SortedSet → Prop}
    (hpq : ∀ set x, data.lookup key = some ⟨.zSet set, x⟩ → (p set ↔ q set)) :
    HasZSet data key p ↔ HasZSet data key q :=
  exists_congr fun set => exists_congr fun x => and_congr_right fun hl => hpq set x hl

theorem CalmData.panics_iff (hc : CalmData h.data) {cmd : Cmd} (hcmd : OnSortedSet cmd) {clientId : Nat}
    {epollFd : Option Int} : Panics P h clientId epollFd cmd ↔ ComparesNan P h.data cmd := by
  have hadd : ∀ {key member : String} {score : F64}, HasZSet h.data key (fun set => set.AddMeetsNan score member) ↔
      HasZSet h.data key fun set => set.InvolvesNan score := fun {key member score} =>
    hasZSet_congr fun set x hl => by rw [← SortedSet.add_eq_none, (hc.calm hl).add_eq_none]
  have hmember : ∀ {key member : String}, HasZSet h.data key (MemberMeetsNan member) ↔
      HasZSet h.data key fun set => ∃ x, set.members.lookup member = some x ∧ x.isNan = true := fun {key member} =>
    hasZSet_congr fun set x hl => (hc.calm hl).memberMeetsNan_iff
  cases cmd with
  | zadd key score member => exact hadd
  | geoadd key long lat member => exact exists_congr fun score => and_congr_right fun _ => hadd
  | zrem key member => exact hmember
  | zrank key member => exact hmember
  | zrange | zscore => exact Iff.rfl
  | _ => exact hcmd.elim

/-! ## What stays calm -/

theorem CalmData.set (hc : CalmData data) {set : SortedSet} {x : Option Nat} (hset : set.Calm) (key : String) :
    CalmData (data.modify key fun _ => ⟨.zSet set, x⟩) := by
  rintro k ⟨set', x', hl, hno⟩
  by_cases hk : k = key
  · subst hk
    rw [HashMap.lookup_modify, Option.map_eq_some_iff] at hl
    obtain ⟨_, _, heq⟩ := hl
    cases heq
    exact hno hset
  · rw [HashMap.lookup_modify_ne hk] at hl
    exact hno (hc.calm hl)

theorem CalmData.orNewZSet (hc : CalmData data) (key : String) : CalmData (orNewZSet data key) := by
  rintro k ⟨set, x, hl, hno⟩
  rw [CmdHandler.orNewZSet] at hl
  by_cases hk : k = key
  · subst hk
    rw [HashMap.lookup_orInsert] at hl
    cases hd : data.lookup k with
    | none =>
      rw [hd] at hl
      cases hl
      exact hno SortedSet.calm_new
    | some item =>
      rw [hd] at hl
      cases hl
      exact hno (hc.calm hd)
  · rw [HashMap.lookup_orInsert_ne hk] at hl
    exact hno (hc.calm hl)

theorem CalmData.addMember (hc : CalmData data) {score : F64}
    (ha : addMember data key score member = some (data', r)) : CalmData data' := by
  unfold CmdHandler.addMember at ha
  split at ha
  · rename_i set x hl
    obtain ⟨e, hadd, heq⟩ := Option.map_eq_some_iff.mp ha
    cases heq
    exact hc.set ((hc.calm hl).add hadd) key
  · cases ha
    exact hc

theorem CalmData.zrem (hc : CalmData data) (hz : cmdZrem data key member = some (data', r)) : CalmData data' := by
  unfold cmdZrem at hz
  split at hz
  · rename_i set x hl
    obtain ⟨e, hrem, heq⟩ := Option.map_eq_some_iff.mp hz
    cases heq
    exact hc.set ((hc.calm hl).remove hrem) key
  · cases hz
    exact hc
  · cases hz
    exact hc

theorem CalmData.geoadd (hc : CalmData data) {long lat : String}
    (hg : cmdGeoadd P data key long lat member = some (data', r)) : CalmData data' := by
  unfold cmdGeoadd at hg
  simp only at hg
  split at hg
  · cases hg
    exact hc.orNewZSet key
  · exact (hc.orNewZSet key).addMember hg

def SetCall.run (P : Platform) (o : IterOrder) (exec : CmdHandler → Nat → Option (CmdHandler × CmdResult))
    (h : CmdHandler) (c : SetCall) : Option CmdHandler :=
  (dispatch P o exec h c.now c.isSubscriber c.clientId c.epollFd c.cmd).map Prod.fst

theorem SetCall.run_eq_none {c : SetCall} (hc : CalmData h.data) :
    c.run P o exec h = none ↔ ComparesNan P h.data c.cmd := by
  have hexec : c.cmd = .exec → exec h c.clientId ≠ none := fun hcmd => by
    have hon := c.onSortedSet
    rw [hcmd] at hon
    exact hon.elim
  rw [SetCall.run, Option.map_eq_none_iff, dispatch_eq_none hexec, hc.panics_iff c.onSortedSet]

theorem SetCall.run_calm {c : SetCall} (hc : CalmData h.data) (hr : c.run P o exec h = some h') : CalmData h'.data := by
  obtain ⟨cmd, hcmd, now, isSubscriber, clientId, epollFd⟩ := c
  obtain ⟨out, hd, rfl⟩ := Option.map_eq_some_iff.mp hr
  simp only at hd
  have hread : ∀ {g : Option CmdResult}, g.map (h, ·) = some out → CalmData out.1.data := by
    intro g hg
    obtain ⟨r, -, rfl⟩ := Option.map_eq_some_iff.mp hg
    exact hc
  have hwrite : ∀ {g : Option (Data × CmdResult)}, g.map h.withData = some out →
      (∀ data r, g = some (data, r) → CalmData data) → CalmData out.1.data := by
    intro g hg hcalm
    obtain ⟨e, he, rfl⟩ := Option.map_eq_some_iff.mp hg
    exact hcalm e.1 e.2 he
  cases cmd with
  | zadd key score member => exact hwrite hd fun data r ha => (hc.orNewZSet key).addMember ha
  | geoadd key long lat member => exact hwrite hd fun data r hg => hc.geoadd hg
  | zrem key member => exact hwrite hd fun data r hz => hc.zrem hz
  | zrank | zrange | zscore => exact hread hd
  | _ => exact hcmd.elim

theorem run_calm (calls : List SetCall) (hc : CalmData h.data)
    (hr : calls.foldlM (SetCall.run P o exec) h = some h') : CalmData h'.data :=
  (Run.of_foldlM hr).inv (I := fun h => CalmData h.data) (fun _ _ _ _ hc hr => SetCall.run_calm hc hr) hc

/-- A sequence of commands on sorted sets never unwraps an undefined comparison exactly
when none of them compares with a NaN in the state before it. -/
theorem sortedSet_total_iff (calls : List SetCall) (hstart : ∀ key, ¬ HasZSet h.data key fun _ => True) :
    (∃ h', calls.foldlM (SetCall.run P o exec) h = some h') ↔
      ∀ pre c post g, calls = pre ++ c :: post → pre.foldlM (SetCall.run P o exec) h = some g →
        ¬ ComparesNan P g.data c.cmd := by
  have hcalm : CalmData h.data := by
    rintro key ⟨set, x, hl, _⟩
    exact hstart key ⟨set, x, hl, trivial⟩
  rw [foldlM_isSome_iff]
  constructor
  · intro hall pre c post g heq hpre
    rw [← SetCall.run_eq_none (run_calm pre hcalm hpre)]
    exact hall pre c post g heq hpre
  · intro hall pre c post g heq hpre
    rw [Ne, SetCall.run_eq_none (run_calm pre hcalm hpre)]
    exact hall pre c post g heq hpre

end

def readsNan : Platform :=
  { Platform.blank with parseF64 := fun s => if s = "nan" then some ⟨0x7FF8000000000000⟩ else none }

def addOne : SetCall := { cmd := .zadd "k" SortedSet.one "a", onSortedSet := trivial }

def addNan : SetCall := { cmd := .zadd "k" ⟨0x7FF8000000000000⟩ "a", onSortedSet := trivial }

def noExec (_ : CmdHandler) (_ : Nat) : Option (CmdHandler × CmdResult) := none

theorem startup_no_sets (key : String) : ¬ HasZSet startup.data key fun _ => True := by
  rintro ⟨set, x, hl, _⟩
  cases hl

theorem sortedSet_total_two : (∃ h', [addOne, addNan].foldlM (SetCall.run readsNan .asIs noExec) startup = some h') ↔
    ∀ pre c post g, [addOne, addNan] = pre ++ c :: post →
      pre.foldlM (SetCall.run readsNan .asIs noExec) startup = some g → ¬ ComparesNan readsNan g.data c.cmd :=
  sortedSet_total_iff _ startup_no_sets

theorem nan_twice_panics :
    Cmd.fromResp readsNan (.arrayOf [.bulk "ZADD", .bulk "k", .bulk "nan", .bulk "a"]) = .ok (.ok addNan.cmd) ∧
      ¬ ∃ h', [addNan, addNan].foldlM (SetCall.run readsNan .asIs noExec) startup = some h' := by
  constructor
  · rfl
  · have hpanic : ([addNan, addNan].foldlM (SetCall.run readsNan .asIs noExec) startup).isSome = false := by
      decide +kernel
    rintro ⟨h', hr⟩
    rw [hr] at hpanic
    cases hpanic

end CmdHandler

end Redis
