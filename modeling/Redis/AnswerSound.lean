import Redis.ReplySound

/-!
# Every command is answered

A command is left without an answer when it panics, and the server with it, or
when it falls through. Both are conditions on the state before the command
(`Unanswered`). A pipeline gets a reply for each of its commands, in their
order, if and only if none of them is unanswered at its turn.
-/

namespace Redis

open Lib

/-! ## Searches that meet a NaN -/

/-- The search in the tree of scores compares with a NaN. -/
def MeetsNan (k : F64 × String) : List (F64 × String) → Prop
  | [] => False
  | a :: as => k.1.isNan = true ∨ a.1.isNan = true ∨ scoreCmp k a = some .gt ∧ MeetsNan k as

theorem scoreCmp_eq_none {k a : F64 × String} : scoreCmp k a = none ↔ k.1.isNan = true ∨ a.1.isNan = true := by
  rw [scoreCmp, Option.map_eq_none_iff]
  exact F64.partialCmp_eq_none

/-- A search that panics when it compares with a NaN, and goes on past smaller keys. -/
theorem search_eq_none {α : Type} {search : List (F64 × String) → Option α} {k : F64 × String} (hnil : search [] ≠ none)
    (hcons : ∀ a as, search (a :: as) = none ↔
      scoreCmp k a = none ∨ scoreCmp k a = some .gt ∧ search as = none) (l : List (F64 × String)) :
    search l = none ↔ MeetsNan k l := by
  induction l with
  | nil => simpa [MeetsNan] using hnil
  | cons a as ih => rw [hcons, ih, scoreCmp_eq_none, MeetsNan, or_assoc]

theorem scoresInsert_eq_none {k : F64 × String} {l : List (F64 × String)} : scoresInsert k l = none ↔ MeetsNan k l := by
  apply search_eq_none
  · simp [scoresInsert]
  · intro a as
    rw [scoresInsert]
    cases hc : scoreCmp k a with
    | none => simp
    | some c => cases c <;> simp

theorem scoresRemove_eq_none {k : F64 × String} {l : List (F64 × String)} : scoresRemove k l = none ↔ MeetsNan k l := by
  apply search_eq_none
  · simp [scoresRemove]
  · intro a as
    rw [scoresRemove]
    cases hc : scoreCmp k a with
    | none => simp
    | some c => cases c <;> simp

theorem scoresRank_eq_none {k : F64 × String} {l : List (F64 × String)} : scoresRank k l = none ↔ MeetsNan k l := by
  apply search_eq_none
  · simp [scoresRank]
  · intro a as
    rw [scoresRank]
    cases hc : scoreCmp k a with
    | none => simp
    | some c => cases c <;> simp

namespace SortedSet

/-- Adding looks for the new score, removes it if the member is known, and looks again. -/
def AddMeetsNan (s : SortedSet) (score : F64) (member : String) : Prop :=
  MeetsNan (score, member) s.scores ∨
    member ∈ s.members ∧ ∃ l, scoresRemove (score, member) s.scores = some l ∧ MeetsNan (score, member) l

theorem add_eq_none {s : SortedSet} {score : F64} {member : String} :
    s.add score member = none ↔ s.AddMeetsNan score member := by
  unfold add AddMeetsNan
  by_cases hk : member ∈ s.members
  · cases hr : scoresRemove (score, member) s.scores with
    | none =>
      have := scoresRemove_eq_none.mp hr
      simp [hk, this]
    | some l =>
      have hno : ¬ MeetsNan (score, member) s.scores := by
        rw [← scoresRemove_eq_none, hr]
        simp
      cases hi : scoresInsert (score, member) l with
      | none => simp [hk, hi, scoresInsert_eq_none.mp hi]
      | some l' =>
        have hno' : ¬ MeetsNan (score, member) l := by
          rw [← scoresInsert_eq_none, hi]
          simp
        simp [hk, hi, hno, hno']
  · cases hi : scoresInsert (score, member) s.scores with
    | none => simp [hk, hi, scoresInsert_eq_none.mp hi]
    | some l =>
      have hno : ¬ MeetsNan (score, member) s.scores := by
        rw [← scoresInsert_eq_none, hi]
        simp
      simp [hk, hi, hno]

end SortedSet

namespace CmdHandler

/-! ## What panics -/

def HasZSet (data : Data) (key : String) (p : SortedSet → Prop) : Prop :=
  ∃ set x, data.lookup key = some ⟨.zSet set, x⟩ ∧ p set

def MemberMeetsNan (member : String) (set : SortedSet) : Prop :=
  ∃ score, set.members.lookup member = some score ∧ MeetsNan (score, member) set.scores

def NoExpiry : Option CmdArg → Prop
  | some (.ex none) | some (.px none) => True
  | _ => False

def Panics (P : Platform) (h : CmdHandler) (clientId : Nat) (epollFd : Option Int) : Cmd → Prop
  | .set _ _ opt => NoExpiry opt
  | .xrange key start stop =>
    (∃ entries x, h.data.lookup key = some ⟨.stream entries, x⟩ ∧ entries.entries ≠ []) ∧ toLex stop < toLex start
  | .zadd key score member => HasZSet h.data key fun set => set.AddMeetsNan score member
  | .geoadd key long lat member =>
    ∃ score, geoScore P long lat = .ok score ∧ HasZSet h.data key fun set => set.AddMeetsNan score member
  | .zrem key member | .zrank key member => HasZSet h.data key (MemberMeetsNan member)
  | .wait count _ => epollFd = none ∧ count ≠ 0 ∧ ∃ stats, h.appStates.hostStats = some stats ∧ stats.offset ≠ 0
  | .replconf (.ack offset) => cmdAck h clientId offset epollFd = none
  | _ => False

section
variable {P : Platform} {o : IterOrder} {h h' : CmdHandler} {data : Data} {clientId : Nat} {epollFd : Option Int}
variable {key member : String}

theorem cmdSet_eq_none {value : String} {opt : Option CmdArg} {now : Nat} :
    cmdSet data key value opt now = none ↔ NoExpiry opt := by
  unfold cmdSet
  rw [Option.map_eq_none_iff]
  cases opt with
  | none => simp [extractDeadline, NoExpiry]
  | some arg =>
    cases arg with
    | ex x => cases x <;> simp [extractDeadline, NoExpiry]
    | px x => cases x <;> simp [extractDeadline, NoExpiry]
    | _ => simp [extractDeadline, NoExpiry]

theorem cmdXrange_eq_none {start stop : Nat × Nat} :
    cmdXrange data key start stop = none ↔
      (∃ entries x, data.lookup key = some ⟨.stream entries, x⟩ ∧ entries.entries ≠ []) ∧ toLex stop < toLex start := by
  unfold cmdXrange
  cases hl : data.lookup key with
  | none => simp
  | some item =>
    obtain ⟨value, x⟩ := item
    cases value with
    | stream entries =>
      by_cases hlt : entries.entries ≠ [] ∧ toLex stop < toLex start
      · simp [hlt]
      · simp [hlt]
    | _ => simp

theorem addMember_eq_none {score : F64} :
    addMember data key score member = none ↔ HasZSet data key fun set => set.AddMeetsNan score member := by
  unfold addMember HasZSet
  cases hl : data.lookup key with
  | none => simp
  | some item =>
    obtain ⟨value, x⟩ := item
    cases value with
    | zSet set => simp [SortedSet.add_eq_none]
    | _ => simp

/-- In a set that was just made no score is met. -/
theorem hasZSet_orNewZSet {score : F64} :
    HasZSet (orNewZSet data key) key (fun set => set.AddMeetsNan score member) ↔
      HasZSet data key fun set => set.AddMeetsNan score member := by
  by_cases hk : key ∈ data
  · rw [orNewZSet, orInsert_known hk]
  · have hnew : ¬ SortedSet.new.AddMeetsNan score member := by
      rw [← SortedSet.add_eq_none]
      simp [SortedSet.new, SortedSet.add, scoresInsert]
    unfold HasZSet
    rw [orNewZSet, lookup_orInsert_absent hk, AList.lookup_eq_none.mpr hk]
    constructor
    · rintro ⟨set, x, hset, hmeets⟩
      cases hset
      exact absurd hmeets hnew
    · rintro ⟨set, x, hset, -⟩
      cases hset

theorem cmdZadd_eq_none {score : F64} :
    cmdZadd data key score member = none ↔ HasZSet data key fun set => set.AddMeetsNan score member := by
  rw [cmdZadd, addMember_eq_none, hasZSet_orNewZSet]

theorem cmdGeoadd_eq_none {long lat : String} : cmdGeoadd P data key long lat member = none ↔
    ∃ score, geoScore P long lat = .ok score ∧ HasZSet data key fun set => set.AddMeetsNan score member := by
  unfold cmdGeoadd
  simp only
  cases hs : geoScore P long lat with
  | error e => simp
  | ok score => simp [addMember_eq_none, hasZSet_orNewZSet]

theorem rankByScore_eq_none {set : SortedSet} : set.rankByScore member = none ↔ MemberMeetsNan member set := by
  unfold SortedSet.rankByScore MemberMeetsNan
  cases hl : set.members.lookup member with
  | none => simp
  | some score => simp [← Option.eq_none_iff_forall_ne_some, scoresRank_eq_none]

theorem remove_eq_none {set : SortedSet} : set.remove member = none ↔ MemberMeetsNan member set := by
  unfold SortedSet.remove MemberMeetsNan
  cases hl : set.members.lookup member with
  | none => simp
  | some score => simp [← Option.eq_none_iff_forall_ne_some, scoresRemove_eq_none]

theorem withZSet_eq_none {absent : CmdResult} {found : SortedSet → Option CmdResult} :
    withZSet data key absent found = none ↔ HasZSet data key fun set => found set = none := by
  unfold withZSet HasZSet
  cases hl : data.lookup key with
  | none => simp
  | some item =>
    obtain ⟨value, x⟩ := item
    cases value with
    | zSet set => simp
    | _ => simp

theorem cmdZrank_eq_none : cmdZrank data key member = none ↔ HasZSet data key (MemberMeetsNan member) := by
  rw [cmdZrank, withZSet_eq_none]
  simp only [Option.map_eq_none_iff, rankByScore_eq_none]

theorem cmdZrem_eq_none : cmdZrem data key member = none ↔ HasZSet data key (MemberMeetsNan member) := by
  unfold cmdZrem HasZSet
  cases hl : data.lookup key with
  | none => simp
  | some item =>
    obtain ⟨value, x⟩ := item
    cases value with
    | zSet set => simp [remove_eq_none]
    | _ => simp

theorem withZSet_ne_none {absent : CmdResult} {found : SortedSet → CmdResult} :
    withZSet data key absent (fun set => some (found set)) ≠ none := by
  rw [Ne, withZSet_eq_none]
  simp [HasZSet]

theorem cmdWait_eq_none {count : Nat} {timeoutMs : Option Nat} {now : Nat} :
    cmdWait o h count timeoutMs clientId now epollFd = none ↔ Panics P h clientId epollFd (.wait count timeoutMs) := by
  unfold cmdWait Panics
  by_cases hc : count = 0
  · simp [hc]
  · cases hs : h.appStates.hostStats with
    | none => simp [hc]
    | some stats =>
      by_cases ho : stats.offset = 0
      · simp [hc, ho]
      · cases epollFd <;> simp [hc, ho]

/-- The dispatch has no result if and only if the handler panics. -/
theorem dispatch_eq_none {exec : CmdHandler → Nat → Option (CmdHandler × CmdResult)} {now : Nat} {isSubscriber : Bool}
    {cmd : Cmd} (hexec : cmd = .exec → exec h clientId ≠ none) :
    dispatch P o exec h now isSubscriber clientId epollFd cmd = none ↔ Panics P h clientId epollFd cmd := by
  cases cmd <;> simp only [dispatch, Option.map_eq_none_iff]
  case set => exact cmdSet_eq_none
  case xrange => exact cmdXrange_eq_none
  case zadd => exact cmdZadd_eq_none
  case geoadd => exact cmdGeoadd_eq_none
  case zrank => exact cmdZrank_eq_none
  case zrem => exact cmdZrem_eq_none
  case wait => exact cmdWait_eq_none
  case exec => simpa [Panics] using hexec rfl
  case zrange => exact iff_of_false withZSet_ne_none id
  case zcard => exact iff_of_false withZSet_ne_none id
  case zscore => exact iff_of_false withZSet_ne_none id
  case geopos => exact iff_of_false withZSet_ne_none id
  case geodist => exact iff_of_false withZSet_ne_none id
  case replconf arg =>
    cases arg with
    | ack => rfl
    | getAck s =>
      simp only [cmdReplconf, Panics]
      split
      · split <;> simp
      · simp
    | _ => simp [cmdReplconf, Panics]
  all_goals simp [Panics]

/-! ## One command -/

def clocked (h : CmdHandler) : CmdHandler :=
  { h with registry := { h.registry with timer := h.registry.timer.tick } }

def Crashes (P : Platform) (h : CmdHandler) (clientId : Nat) (epollFd : Option Int) (cmd : Cmd) : Prop :=
  h.refuses clientId cmd = false ∧
    (cmd.toBeBroadcast = true ∧ h.clientTable.isMaster clientId = false ∧ h.appStates.hostStats = none ∨
      Panics P h.clocked clientId epollFd cmd)

theorem prepare_eq_none {cmd : Cmd} {buf : Bytes} {isMaster : Bool} : h.prepare cmd buf isMaster = none ↔
    cmd.toBeBroadcast = true ∧ isMaster = false ∧ h.appStates.hostStats = none := by
  unfold prepare countWrite
  cases cmd.toBeBroadcast <;> cases isMaster <;> simp

theorem prepare_panics {cmd : Cmd} {buf : Bytes} {isMaster : Bool} {prepared : CmdHandler}
    (hp : h.prepare cmd buf isMaster = some prepared) :
    Panics P prepared clientId epollFd cmd ↔ Panics P h.clocked clientId epollFd cmd := by
  obtain ⟨s, hs, rfl⟩ := prepare_frame hp
  cases cmd with
  | wait | replconf =>
    rw [hs rfl]
    exact Iff.rfl
  | _ => exact Iff.rfl

theorem conclude_ne_none {d : CmdHandler} {cmd : Cmd} {buf : Bytes} {isMaster serialized : Bool} {r : CmdResult}
    (hr : Replies P h clientId cmd r) : d.conclude o cmd buf isMaster serialized r ≠ none := by
  cases r with
  | error e => simp [conclude]
  | ok r =>
    cases r with
    | none => simp [conclude]
    | some t =>
      obtain ⟨b, hb⟩ := hr.serialize
      simp only [conclude, hb]
      split
      · split <;> simp
      · simp

theorem refusedKey_not_silent {cmd : Cmd} (hk : refusedKey h.data cmd = some key) : ¬ Silent h clientId cmd := by
  intro hs
  cases cmd <;> first | exact hs | cases hk

theorem conclude_answers_iff {d : CmdHandler} {cmd : Cmd} {buf : Bytes} {r : CmdResult}
    {out : Except CmdOutput CmdOutput}
    (hr : Replies P h clientId cmd r) (hdeferred : ¬ Deferred cmd)
    (hc : d.conclude o cmd buf false true r = some (h', out)) :
    (outputOf out).extractBytes.getD [] ≠ [] ↔ ¬ Silent h clientId cmd := by
  cases hr with
  | frame ht _ _ hsilent =>
    obtain ⟨b, hb, hf⟩ := ht.serialize
    simp only [conclude, hb] at hc
    cases hc
    exact iff_of_true hf.ne_nil hsilent
  | short hs =>
    cases hc
    refine iff_of_true (by simp [outputOf, CmdOutput.extractBytes, delimiter]) ?_
    cases cmd with
    | lrange => exact id
    | _ => exact hs.elim
  | stream _ hb =>
    cases hc
    exact not_congr hb
  | refused hk =>
    cases hc
    exact iff_of_true (intoErrorBytes_ne_nil (unsupported _)) (refusedKey_not_silent hk)
  | @failed e _ _ _ hsilent =>
    cases hc
    exact iff_of_true (intoErrorBytes_ne_nil e) hsilent
  | nothing hno =>
    cases hc
    exact iff_of_false (fun hne => hne rfl) (not_not.mpr (hno.resolve_right hdeferred))

theorem executeCmd_of_allowed {exec : CmdHandler → Nat → Option (CmdHandler × CmdResult)} {cmd : Cmd} {buf : Bytes}
    {serialized : Bool} (hno : h.refuses clientId cmd = false)
    (htotal : cmd = .exec → ∀ g, g.registry.backlogTxn = h.registry.backlogTxn → exec g clientId ≠ none)
    (hexec : ∀ g, g.registry.backlogTxn = h.registry.backlogTxn →
      ∀ g' r, exec g clientId = some (g', r) → Replies P g clientId .exec r) :
    (h.executeCmd P o exec cmd buf clientId epollFd serialized = none ∧ Crashes P h clientId epollFd cmd) ∨
    (¬ Crashes P h clientId epollFd cmd ∧ ∃ d r h' out, Replies P h clientId cmd r ∧
      conclude o d cmd buf (h.clientTable.isMaster clientId) serialized r = some (h', out) ∧
      h.executeCmd P o exec cmd buf clientId epollFd serialized = some (h', out)) := by
  unfold executeCmd
  rw [if_neg (by simp [hno])]
  simp only [Option.bind_eq_bind]
  cases hp : h.prepare cmd buf (h.clientTable.isMaster clientId) with
  | none => exact .inl ⟨rfl, hno, .inl (prepare_eq_none.mp hp)⟩
  | some prepared =>
    have htxn : prepared.registry.backlogTxn = h.registry.backlogTxn := by
      obtain ⟨s, -, rfl⟩ := prepare_frame hp
      rfl
    have hpanics :
        dispatch P o exec prepared h.registry.timer.now (h.isSubscriber clientId) clientId epollFd cmd = none ↔
          Panics P h.clocked clientId epollFd cmd :=
      (dispatch_eq_none fun hc => htotal hc prepared htxn).trans (prepare_panics hp)
    simp only [Option.bind_some]
    cases hd : dispatch P o exec prepared h.registry.timer.now (h.isSubscriber clientId) clientId epollFd cmd with
    | none => exact .inl ⟨rfl, hno, .inr (hpanics.mp hd)⟩
    | some x =>
      obtain ⟨d, r⟩ := x
      have hr := prepare_replies hp (dispatch_replies (hexec prepared htxn) hd)
      have hno' : ¬ Crashes P h clientId epollFd cmd := by
        rintro ⟨-, hmissing | hp'⟩
        · rw [prepare_eq_none.mpr hmissing] at hp
          cases hp
        · rw [hpanics.mpr hp'] at hd
          cases hd
      have hne : d.conclude o cmd buf (h.clientTable.isMaster clientId) serialized r ≠ none := conclude_ne_none hr
      obtain ⟨⟨h', out⟩, hout⟩ := Option.ne_none_iff_exists'.mp hne
      exact .inr ⟨hno', d, r, h', out, hr, hout, hout⟩

theorem execute_of_allowed {cmd : Cmd} {buf : Bytes} {epollFd : Int} (hno : h.refuses clientId cmd = false)
    (htxn : h.registry.isTransaction clientId = false) :
    (h.execute P o cmd buf clientId epollFd = none ∧ Crashes P h clientId (some epollFd) cmd) ∨
    (¬ Crashes P h clientId (some epollFd) cmd ∧ ∃ d r h' out, Replies P h clientId cmd r ∧
      conclude o d cmd buf (h.clientTable.isMaster clientId) true r = some (h', out) ∧
      h.execute P o cmd buf clientId epollFd = some (h', out)) := by
  have hopen : ∀ g : CmdHandler, g.registry.backlogTxn = h.registry.backlogTxn →
      g.registry.isTransaction clientId = false := by
    intro g hg
    rw [← htxn, RequestRegistry.isTransaction, RequestRegistry.isTransaction, hg]
  refine executeCmd_of_allowed hno (fun _ g hg => ?_) fun g hg g' r he => cmdExec_replies (hopen g hg) he
  have hl : g.registry.backlogTxn.lookup clientId = none :=
    AList.lookup_eq_none.mpr (by simpa [RequestRegistry.isTransaction] using hopen g hg)
  simp [cmdExec, hl]

theorem execute_answers_iff {cmd : Cmd} {buf : Bytes} {epollFd : Int} (htxn : h.registry.isTransaction clientId = false)
    (hmaster : h.clientTable.isMaster clientId = false) (hdeferred : ¬ Deferred cmd) :
    (∃ h' out, h.execute P o cmd buf clientId epollFd = some (h', out) ∧ (outputOf out).extractBytes.getD [] ≠ []) ↔
      ¬ (Crashes P h clientId (some epollFd) cmd ∨ h.refuses clientId cmd = false ∧ Silent h clientId cmd) := by
  cases hrefused : h.refuses clientId cmd with
  | true =>
    constructor
    · rintro - (⟨hno, -⟩ | ⟨hno, -⟩)
      · rw [hrefused] at hno
        cases hno
      · cases hno
    · intro _
      refine ⟨h, .error (.bytes (subscriberError cmd).intoErrorBytes), ?_, intoErrorBytes_ne_nil (subscriberError cmd)⟩
      rw [execute, executeCmd, if_pos hrefused]
  | false =>
    have hcases : (h.execute P o cmd buf clientId epollFd = none ∧ Crashes P h clientId (some epollFd) cmd) ∨
        (¬ Crashes P h clientId (some epollFd) cmd ∧ ∃ d r h' out, Replies P h clientId cmd r ∧
          conclude o d cmd buf (h.clientTable.isMaster clientId) true r = some (h', out) ∧
          h.execute P o cmd buf clientId epollFd = some (h', out)) := execute_of_allowed hrefused htxn
    obtain ⟨hnone, hcrash⟩ | ⟨hno, d, r, h', out, hr, hc, hout⟩ := hcases
    · refine iff_of_false ?_ fun hn => hn (.inl hcrash)
      rintro ⟨h', out, he, -⟩
      rw [hnone] at he
      cases he
    · rw [hmaster] at hc
      have hiff := conclude_answers_iff hr hdeferred hc
      constructor
      · rintro ⟨h₁, out₁, he, hne⟩ (hcrash | ⟨-, hsilent⟩)
        · exact hno hcrash
        · rw [hout] at he
          cases he
          exact hiff.mp hne hsilent
      · intro hn
        exact ⟨h', out, hout, hiff.mpr fun hs => hn (.inr ⟨rfl, hs⟩)⟩

/-! ## A transaction -/

def QueueCrashes (P : Platform) (o : IterOrder) (h : CmdHandler) (clientId : Nat) (queue : List Queued) : Prop :=
  ∃ pre q post before resps, queue = pre ++ q :: post ∧ runQueue P o clientId h pre = some (before, resps) ∧
    Crashes P before clientId none q.cmd

theorem executeQueued_eq_none {q : Queued} :
    h.executeQueued P o clientId q = none ↔ Crashes P h clientId none q.cmd := by
  have hexec : q.cmd ≠ .exec := by
    intro hq
    have := q.queueable
    rw [hq] at this
    cases this
  cases hrefused : h.refuses clientId q.cmd with
  | true => simp [executeQueued, executeCmd, hrefused, Crashes]
  | false =>
    have hcases : (h.executeQueued P o clientId q = none ∧ Crashes P h clientId none q.cmd) ∨
        (¬ Crashes P h clientId none q.cmd ∧ ∃ d r h' out, Replies P h clientId q.cmd r ∧
          conclude o d q.cmd q.buf (h.clientTable.isMaster clientId) false r = some (h', out) ∧
          h.executeQueued P o clientId q = some (h', out)) :=
      executeCmd_of_allowed hrefused (fun hq => absurd hq hexec) fun _ _ _ _ he => by cases he
    obtain ⟨hnone, hcrash⟩ | ⟨hno, d, r, h', out, -, -, hout⟩ := hcases
    · exact iff_of_true hnone hcrash
    · exact iff_of_false (by simp [hout]) hno

theorem runQueue_eq_none {queue : List Queued} :
    runQueue P o clientId h queue = none ↔ QueueCrashes P o h clientId queue := by
  induction queue generalizing h with
  | nil => simp [runQueue, QueueCrashes]
  | cons q qs ih =>
    cases he : h.executeQueued P o clientId q with
    | none =>
      refine iff_of_true (by simp [runQueue, he]) ⟨[], q, qs, h, [], rfl, rfl, executeQueued_eq_none.mp he⟩
    | some x =>
      obtain ⟨g, out⟩ := x
      have hrun : runQueue P o clientId h (q :: qs) = none ↔ runQueue P o clientId g qs = none := by
        cases hg : runQueue P o clientId g qs <;> simp [runQueue, he, hg]
      have hone : runQueue P o clientId h [q] = some (g, (outputOf out).extractResp.toList) := by simp [runQueue, he]
      rw [hrun, ih]
      constructor
      · rintro ⟨pre, q', post, before, resps, rfl, hpre, hcrash⟩
        exact ⟨q :: pre, q', post, before, _, rfl, runQueue_append hone hpre, hcrash⟩
      · rintro ⟨pre, q', post, before, resps, hq, hpre, hcrash⟩
        cases pre with
        | nil =>
          cases hq
          cases hpre
          rw [← executeQueued_eq_none, he] at hcrash
          cases hcrash
        | cons q₀ pre =>
          cases hq
          simp only [runQueue, Option.bind_eq_bind, Option.bind_eq_some_iff] at hpre
          obtain ⟨⟨g', out'⟩, he', ⟨before', resps'⟩, hpre', hlast⟩ := hpre
          rw [he] at he'
          cases he'
          cases hlast
          exact ⟨pre, q', post, before', resps', rfl, hpre', hcrash⟩

theorem serialize_arrayOf {ts : List RespType} (hts : ∀ t ∈ ts, ∃ b, t.serialize = some b) :
    ∃ b, (RespType.arrayOf ts).serialize = some b ∧ b ≠ [] := by
  have hall : ∀ ts : List RespType, (∀ t ∈ ts, ∃ b, t.serialize = some b) → ∃ b, RespType.serializeAll ts = some b := by
    intro ts hts
    induction ts with
    | nil => exact ⟨[], rfl⟩
    | cons t ts ih =>
      obtain ⟨b, hb⟩ := hts t (List.mem_cons_self ..)
      obtain ⟨bs, hbs⟩ := ih fun u hu => hts u (List.mem_cons_of_mem _ hu)
      exact ⟨b ++ bs, by rw [RespType.serializeAll, hb, hbs]; rfl⟩
  unfold RespType.arrayOf
  split
  · exact ⟨_, by rw [RespType.serialize], by simp [delimiter]⟩
  · obtain ⟨b, hb⟩ := hall ts hts
    exact ⟨_, by rw [RespType.serialize, hb]; rfl, by simp [delimiter]⟩

theorem executeQueued_serializes {q : Queued} {out : Except CmdOutput CmdOutput}
    (he : h.executeQueued P o clientId q = some (h', out)) :
    ∀ t ∈ (outputOf out).extractResp, ∃ b, t.serialize = some b := by
  cases hrefused : h.refuses clientId q.cmd with
  | true =>
    rw [executeQueued, executeCmd, if_pos hrefused] at he
    cases he
    simp [outputOf, CmdOutput.extractResp]
  | false =>
    unfold executeQueued executeCmd at he
    rw [if_neg (by simp [hrefused])] at he
    simp only [Option.bind_eq_bind, Option.bind_eq_some_iff] at he
    obtain ⟨prepared, hp, ⟨dispatched, r⟩, hd, hc⟩ := he
    have hr : Replies P prepared clientId q.cmd r := dispatch_replies (fun _ _ hg => by cases hg) hd
    cases r with
    | error e =>
      cases hc
      simpa [outputOf, CmdOutput.extractResp] using e.serialize_intoResp
    | ok r =>
      cases r with
      | none =>
        cases hc
        simp [outputOf, CmdOutput.extractResp]
      | some t =>
        obtain ⟨b, hb⟩ := hr.serialize
        simp only [conclude] at hc
        split at hc
        · cases hc
          simp [outputOf, CmdOutput.extractResp, hb]
        · cases hc
          simp [outputOf, CmdOutput.extractResp]

/-! ## A call of `handle` -/

/-- The command panics or falls through; EXEC panics when a command of its
queue does. -/
def Unanswered (P : Platform) (o : IterOrder) (h : CmdHandler) (clientId : Nat) (epollFd : Int) (cmd : Cmd) : Prop :=
  if h.registry.isTransaction clientId then
    cmd = .exec ∧ h.registry.isAnyDirty clientId = false ∧ ∃ queue, h.registry.backlogTxn.lookup clientId = some queue ∧
      QueueCrashes P o (h.drainTxn clientId) clientId queue
  else Crashes P h clientId (some epollFd) cmd ∨ h.refuses clientId cmd = false ∧ Silent h clientId cmd

/-- EXEC in a transaction answers unless a command of the queue panics. -/
theorem exec_answers_iff {queue : List Queued} (hqueue : h.registry.backlogTxn.lookup clientId = some queue) :
    (∃ h' out, (cmdExec P o h clientId).bind orEmpty = some (h', out) ∧ returned out ≠ []) ↔
      ¬ (h.registry.isAnyDirty clientId = false ∧ QueueCrashes P o (h.drainTxn clientId) clientId queue) := by
  unfold cmdExec
  rw [hqueue]
  simp only
  cases hdirty : h.registry.isAnyDirty clientId with
  | true =>
    refine iff_of_true ⟨h.closeTxn clientId, .ok (utf8 "*" ++ utf8 "-1" ++ delimiter),
      ?_, by simp [returned, delimiter]⟩ (by simp)
    simp [orEmpty, reply, RespType.nullArray, RespType.serialize]
  | false =>
    cases hrun : runQueue P o clientId (h.drainTxn clientId) queue with
    | none => simp [runQueue_eq_none.mp hrun]
    | some x =>
      obtain ⟨g, resps⟩ := x
      have hno : ¬ QueueCrashes P o (h.drainTxn clientId) clientId queue := by
        rw [← runQueue_eq_none, hrun]
        simp
      have hall : ∀ t ∈ resps, ∃ b, t.serialize = some b :=
        runQueue_answers (Q := fun t => ∃ b, t.serialize = some b)
          (fun _ _ _ _ _ _ _ _ _ he => executeQueued_serializes he) hrun
      have hreply : ∃ b, (if resps.isEmpty then RespType.emptyArray else .arrayOf resps).serialize =
          some b ∧ b ≠ [] := by
        split
        · exact ⟨_, by rw [RespType.emptyArray, RespType.serialize]; rfl, by simp [delimiter]⟩
        · exact serialize_arrayOf hall
      obtain ⟨b, hb, hne⟩ := hreply
      refine iff_of_true ⟨g.closeTxn clientId, .ok b, ?_, hne⟩ (by simp [hno])
      simpa [orEmpty, reply] using hb

theorem handle_answers_iff {cmd : Cmd} {buf : Bytes} {epollFd : Int} (hmaster : h.clientTable.isMaster clientId = false)
    (hdeferred : ¬ Deferred cmd) :
    (∃ h' out, h.handle P o (.ok cmd) buf clientId epollFd = some (h', out) ∧ returned out ≠ []) ↔
      ¬ Unanswered P o h clientId epollFd cmd := by
  unfold handle Unanswered
  simp only
  cases htxn : h.registry.isTransaction clientId with
  | false =>
    simp only [Bool.not_false, if_true, Bool.false_eq_true, if_false]
    rw [← execute_answers_iff htxn hmaster hdeferred]
    constructor
    · rintro ⟨h', out, hh, hne⟩
      obtain ⟨⟨g, r⟩, he, hg⟩ := Option.map_eq_some_iff.mp hh
      cases hg
      refine ⟨g, r, he, ?_⟩
      cases r <;> exact hne
    · rintro ⟨h', out, he, hne⟩
      refine ⟨h', _, by rw [he]; rfl, ?_⟩
      cases out <;> exact hne
  | true =>
    simp only [Bool.not_true, Bool.false_eq_true, if_false, if_true]
    have hne_exec : ∀ out : Bytes, cmd ≠ .exec → out ≠ [] → ∀ g : CmdHandler,
        ((∃ h' out', some (g, (Except.ok out : Except Bytes Bytes)) = some (h', out') ∧ returned out' ≠ []) ↔
          ¬ (cmd = .exec ∧ h.registry.isAnyDirty clientId = false ∧ ∃ queue,
            h.registry.backlogTxn.lookup clientId = some queue ∧
                QueueCrashes P o (h.drainTxn clientId) clientId queue)) :=
      fun out hcmd hout g => iff_of_true ⟨g, .ok out, rfl, hout⟩ fun hno => hcmd hno.1
    split
    · rename_i hq
      refine hne_exec _ ?_ (by decide) _
      rintro rfl
      cases hq
    · split
      · obtain ⟨queue, hqueue⟩ := Option.isSome_iff_exists.mp
          (AList.lookup_isSome.mpr (of_decide_eq_true htxn))
        rw [exec_answers_iff hqueue]
        simp [hqueue]
      · rw [cmdDiscard, if_pos htxn]
        exact hne_exec (utf8 "+OK" ++ delimiter) (by simp) (by decide) _
      · rename_i hexec _
        refine hne_exec _ ?_ (by decide) _
        rintro rfl
        exact hexec (by decide) rfl HEq.rfl

/-! ## A pipeline -/

theorem Effect.master {now : Nat} {cmd : Cmd} {r : CmdResult} (he : Effect P o h now clientId epollFd cmd h' r) :
    h'.clientTable.master = h.clientTable.master := by
  cases he with
  | ack _ ha =>
    obtain ⟨_, _, rfl, _⟩ := cmdAck_frame ha
    rfl
  | _ => rfl

theorem Executes.master {label : IterOrder × Event} {x : Execution} (hx : Executes P h label x) :
    x.after.clientTable.master = x.before.clientTable.master := by
  obtain hsame | ⟨s, d, r, fd, m, ser, heff, hcon, -, -⟩ := hx.effect
  · rw [hsame]
  · have hd := heff.master
    obtain ⟨_, _, _, _, _, _, hf⟩ := conclude_frame hcon
    rw [hf]
    exact hd

theorem handle_master {cmd : Except CustomError Cmd} {buf : Bytes} {epollFd : Int} {out : Except Bytes Bytes}
    (hh : h.handle P o cmd buf clientId epollFd = some (h', out)) : h'.clientTable.master = h.clientTable.master := by
  refine handle_inv (I := fun g => g.clientTable.master = h.clientTable.master) ?_ ?_ hh rfl
  · intro g t w hg
    exact hg
  · intro x hx hg
    rw [hx.master, hg]

structure Piped where
  order : IterOrder
  cmd : Cmd
  buf : Bytes

def pipeline (P : Platform) (clientId : Nat) (epollFd : Int) (h : CmdHandler) :
    List Piped → Option (CmdHandler × List Bytes)
  | [] => some (h, [])
  | c :: cmds => do
    let (h, out) ← h.handle P c.order (.ok c.cmd) c.buf clientId epollFd
    let (h, outs) ← pipeline P clientId epollFd h cmds
    some (h, returned out :: outs)

/-- Each command of a pipeline gets a reply, at its place, if and only if none
is unanswered at its turn. -/
theorem pipeline_answered_iff {epollFd : Int} {cmds : List Piped} (hmaster : h.clientTable.isMaster clientId = false)
    (hdeferred : ∀ c ∈ cmds, ¬ Deferred c.cmd) :
    (∃ h' outs, pipeline P clientId epollFd h cmds = some (h', outs) ∧ ∀ b ∈ outs, b ≠ []) ↔
      ∀ pre c post g outs, cmds = pre ++ c :: post → pipeline P clientId epollFd h pre = some (g, outs) →
        ¬ Unanswered P c.order g clientId epollFd c.cmd := by
  induction cmds generalizing h with
  | nil => simp [pipeline]
  | cons c cmds ih =>
    have hone : (∃ h' out, h.handle P c.order (.ok c.cmd) c.buf clientId epollFd = some (h', out) ∧ returned out ≠ []) ↔
        ¬ Unanswered P c.order h clientId epollFd c.cmd :=
      handle_answers_iff hmaster (hdeferred c (List.mem_cons_self ..))
    have hrest : ∀ d ∈ cmds, ¬ Deferred d.cmd := fun d hd => hdeferred d (List.mem_cons_of_mem _ hd)
    constructor
    · rintro ⟨h', outs, hrun, hne⟩
      simp only [pipeline, Option.bind_eq_bind, Option.bind_eq_some_iff] at hrun
      obtain ⟨⟨g, out⟩, hh, ⟨g', outs'⟩, hcmds, hlast⟩ := hrun
      cases hlast
      have hg : g.clientTable.isMaster clientId = false := by
        rw [ClientTable.isMaster, handle_master hh]
        exact hmaster
      have htail := (ih hg hrest).mp ⟨g', outs', hcmds, fun b hb => hne b (List.mem_cons_of_mem _ hb)⟩
      intro pre d post g₁ outs₁ hsplit hpre
      cases pre with
      | nil =>
        cases hsplit
        cases hpre
        exact hone.mp ⟨g, out, hh, hne _ (List.mem_cons_self ..)⟩
      | cons c' pre =>
        cases hsplit
        simp only [pipeline, hh, Option.bind_eq_bind, Option.bind_some, Option.bind_eq_some_iff] at hpre
        obtain ⟨⟨g₂, outs₂⟩, hpre', hlast⟩ := hpre
        cases hlast
        exact htail pre d post _ outs₂ rfl hpre'
    · intro hno
      obtain ⟨g, out, hh, hout⟩ := hone.mpr (hno [] c cmds h [] rfl rfl)
      have hg : g.clientTable.isMaster clientId = false := by
        rw [ClientTable.isMaster, handle_master hh]
        exact hmaster
      have htail : ∀ pre d post g₁ outs₁, cmds = pre ++ d :: post →
        pipeline P clientId epollFd g pre = some (g₁, outs₁) →
          ¬ Unanswered P d.order g₁ clientId epollFd d.cmd := by
        intro pre d post g₁ outs₁ hsplit hpre
        apply hno (c :: pre) d post g₁ (returned out :: outs₁)
        · rw [hsplit]
          rfl
        · simp [pipeline, hh, hpre]
      obtain ⟨h', outs, hcmds, hne⟩ := (ih hg hrest).mpr htail
      refine ⟨h', returned out :: outs, by simp [pipeline, hh, hcmds], ?_⟩
      simpa [hout] using hne

end

theorem pipeline_answered_iff_ping :
    let cmds : List Piped := [⟨.asIs, .ping, []⟩, ⟨.asIs, .get "k", []⟩]
    (∃ h' outs, pipeline .blank 1 0 startup cmds = some (h', outs) ∧ ∀ b ∈ outs, b ≠ []) ↔
      ∀ pre c post g outs, cmds = pre ++ c :: post → pipeline .blank 1 0 startup pre = some (g, outs) →
        ¬ Unanswered .blank c.order g 1 0 c.cmd :=
  pipeline_answered_iff rfl (by simp [Deferred])

/-- PUBLISH on a channel without subscribers answers nothing, so the reply to
PING is the first one. -/
theorem publish_unanswered : ¬ Deferred (.publish "c" "m") ∧ startup.clientTable.isMaster 1 = false ∧
    ∃ h', pipeline .blank 1 0 startup [⟨.asIs, .publish "c" "m", []⟩, ⟨.asIs, .ping, []⟩] =
      some (h', [[], utf8 "+PONG\r\n"]) :=
  ⟨id, rfl, _, rfl⟩

end CmdHandler

end Redis
