import Redis.Sessions
import Redis.Lib.Frame

/-!
# When EXEC runs nothing

The flags of a client tell its history: a key has one if the client has watched
it since it last gave its watches up, and the flag is set if a command that
`set_dirty` knows has named the key since then. EXEC reads the flags, and no
other client touches them but by such commands.
-/

namespace Redis

open Lib RequestRegistry

namespace CmdHandler

namespace SessionEvent

def Watches (clientId : Nat) (key : String) : SessionEvent → Prop
  | .call c => c.clientId = clientId ∧ ∃ keys, c.cmd = .watch keys ∧ key ∈ keys
  | .closed _ => False

def Drops (clientId : Nat) : SessionEvent → Prop
  | .call c => c.clientId = clientId ∧ c.cmd = .unwatch
  | .closed id => id = clientId

/-- The command is one of those `set_dirty` knows, on the key. -/
def Names (key : String) : SessionEvent → Prop
  | .call c => c.cmd.dirtyKey = some key
  | .closed _ => False

end SessionEvent

open SessionEvent

def WatchedSince (clientId : Nat) (key : String) (trace : List SessionEvent) : Prop :=
  Since (Watches clientId key) (fun e => ¬ e.Drops clientId) trace

def MarkedSince (clientId : Nat) (key : String) (trace : List SessionEvent) : Prop :=
  SinceSeen (Watches clientId key) (fun e => ¬ e.Drops clientId) (Names key) trace

def Aborts (P : Platform) (o : IterOrder) (h : CmdHandler) (buf : Bytes) (clientId : Nat) (epollFd : Int) : Prop :=
  ∃ h', h.handle P o (.ok .exec) buf clientId epollFd = some (h', .ok RespType.nullArray.frame)

section
variable {P : Platform} {o : IterOrder} {clientId : Nat} {key : String}

/-! ## The flag after a call -/

theorem Call.Made.flag_watch {c : Call} (hm : Call.Made P o c) {keys : List String} (hcmd : c.cmd = .watch keys) :
    watchFlag c.after.registry.watchlist key clientId =
      if clientId = c.clientId ∧ key ∈ keys then some ((watchFlag c.before.registry.watchlist key clientId).getD false)
      else watchFlag c.before.registry.watchlist key clientId := by
  rw [hm.session.2, hcmd]
  exact watchFlag_watch _ keys c.clientId clientId key

theorem Call.Made.flag_unwatch {c : Call} (hm : Call.Made P o c) (hcmd : c.cmd = .unwatch) :
    watchFlag c.after.registry.watchlist key clientId =
      if clientId = c.clientId then none else watchFlag c.before.registry.watchlist key clientId := by
  rw [hm.session.2, hcmd]
  simp only [watchesAfter]
  split
  · rename_i hid
    rw [hid]
    exact watchFlag_unwatchAll_self _ _ _
  · rename_i hid
    exact watchFlag_unwatchAll hid

theorem Call.Made.flag_other {c : Call} (hm : Call.Made P o c) (hwatch : ∀ keys, c.cmd ≠ .watch keys)
    (hunwatch : c.cmd ≠ .unwatch) :
    watchFlag c.after.registry.watchlist key clientId =
      if c.cmd.dirtyKey = some key then (watchFlag c.before.registry.watchlist key clientId).map fun _ => true
      else watchFlag c.before.registry.watchlist key clientId := by
  have hsame : watchesAfter (c.before.registry.setDirty c.cmd) c.clientId c.cmd =
      (c.before.registry.setDirty c.cmd).watchlist := by
    unfold watchesAfter
    split
    · rename_i keys hcmd
      exact absurd hcmd (hwatch keys)
    · rename_i hcmd
      exact absurd hcmd hunwatch
    · rfl
  rw [hm.session.2, hsame, watchFlag_setDirty]

/-! ## The flags tell the history -/

def FlagsTell (clientId : Nat) (h : CmdHandler) (trace : List SessionEvent) : Prop :=
  ∀ key, ((watchFlag h.registry.watchlist key clientId).isSome = true ↔ WatchedSince clientId key trace) ∧
    (watchFlag h.registry.watchlist key clientId = some true ↔ MarkedSince clientId key trace)

theorem FlagsTell.call {c : Call} {trace : List SessionEvent} (hm : Call.Made P o c)
    (hI : FlagsTell clientId c.before trace) : FlagsTell clientId c.after (trace ++ [.call c]) := by
  intro key
  obtain ⟨hsome, hdirty⟩ := hI key
  unfold WatchedSince MarkedSince at *
  rw [since_snoc, sinceSeen_snoc]
  by_cases hwatch : ∃ keys, c.cmd = .watch keys
  · obtain ⟨keys, hcmd⟩ := hwatch
    have hdrops : ¬ Drops clientId (.call c) := fun h => by simp [Drops, hcmd] at h
    have hnames : ¬ Names key (.call c) := by simp [Names, hcmd, Cmd.dirtyKey]
    have hwatches : Watches clientId key (.call c) ↔ clientId = c.clientId ∧ key ∈ keys := by
      simp [Watches, hcmd, eq_comm]
    rw [hm.flag_watch hcmd, ← hsome, ← hdirty]
    split
    · rename_i hself
      have hyes : Watches clientId key (.call c) := hwatches.mpr hself
      cases watchFlag c.before.registry.watchlist key clientId <;> simp [hyes, hdrops, hnames]
    · rename_i hself
      have hno : ¬ Watches clientId key (.call c) := mt hwatches.mp hself
      simp [hno, hdrops, hnames]
  · have hwatches : ¬ Watches clientId key (.call c) := fun ⟨_, keys, hcmd, _⟩ => hwatch ⟨keys, hcmd⟩
    by_cases hunwatch : c.cmd = .unwatch
    · have hdrops : Drops clientId (.call c) ↔ clientId = c.clientId := by simp [Drops, hunwatch, eq_comm]
      have hnames : ¬ Names key (.call c) := by simp [Names, hunwatch, Cmd.dirtyKey]
      rw [hm.flag_unwatch hunwatch, ← hsome, ← hdirty]
      split
      · rename_i hself
        have hyes : Drops clientId (.call c) := hdrops.mpr hself
        simp [hyes, hwatches]
      · rename_i hself
        have hno : ¬ Drops clientId (.call c) := mt hdrops.mp hself
        simp [hno, hwatches, hnames]
    · have hdrops : ¬ Drops clientId (.call c) := fun h => hunwatch h.2
      have hnames : Names key (.call c) ↔ c.cmd.dirtyKey = some key := Iff.rfl
      rw [hm.flag_other (fun keys hcmd => hwatch ⟨keys, hcmd⟩) hunwatch, hnames, ← hsome, ← hdirty]
      split
      · rename_i hkey
        cases watchFlag c.before.registry.watchlist key clientId <;> simp [hkey, hwatches, hdrops]
      · rename_i hkey
        simp [hkey, hwatches, hdrops]

theorem FlagsTell.close {h : CmdHandler} {trace : List SessionEvent} {id : Nat} (hI : FlagsTell clientId h trace) :
    FlagsTell clientId (h.closeTxn id) (trace ++ [.closed id]) := by
  intro key
  obtain ⟨hsome, hdirty⟩ := hI key
  unfold WatchedSince MarkedSince at *
  have hwatches : ¬ Watches clientId key (.closed id) := fun h => h
  have hnames : ¬ Names key (.closed id) := fun h => h
  have hdrops : Drops clientId (.closed id) ↔ id = clientId := Iff.rfl
  rw [since_snoc, sinceSeen_snoc, hdrops, ← hsome, ← hdirty]
  by_cases hid : id = clientId
  · subst hid
    have hflag : watchFlag (h.closeTxn id).registry.watchlist key id = none := watchFlag_unwatchAll_self _ _ _
    simp [hflag, hwatches]
  · have hflag : watchFlag (h.closeTxn id).registry.watchlist key clientId =
        watchFlag h.registry.watchlist key clientId := watchFlag_unwatchAll (Ne.symm hid)
    simp [hflag, hwatches, hnames, hid]

theorem step_flagsTell {h h' : CmdHandler} {label : IterOrder × Event} {trace : List SessionEvent}
    (hs : Steps P h label h') (hI : FlagsTell clientId h trace) :
    FlagsTell clientId h' (trace ++ h.sessionEvents P label) := by
  refine step_events (I := FlagsTell clientId) hs (fun _ _ _ hg => hg) (fun c es _ hm hg => hg.call hm)
    (fun g es id _ hg => hg.close) (fun hother hg => ?_) hI
  obtain ⟨o, e⟩ := label
  intro key
  rw [(step_session hs hother).2]
  exact hg key

/-! ## EXEC -/

theorem array_ne_null {n : Nat} {items : List RespType} {b : Bytes}
    (hb : (RespType.array n (some items)).serialize = some b) : b ≠ RespType.nullArray.frame := by
  rintro rfl
  rw [RespType.serialize, Option.bind_eq_bind, Option.bind_eq_some_iff] at hb
  obtain ⟨rest, _, hb⟩ := hb
  have hcons : 42 :: utf8 (toString n) ++ (crlf ++ rest) = 42 :: utf8 "-1" ++ (crlf ++ []) := by
    have hnull : RespType.nullArray.frame = 42 :: utf8 "-1" ++ (crlf ++ []) := by decide
    rw [← hnull, ← Option.some.inj hb, List.append_assoc, List.append_assoc]
    rfl
  have hline := (cons_append_inj hcons).2
  exact minus_one_ne_nat n (line_unique (crlf_not_infix_nat n) crlf_not_infix_minus_one hline).1.symm

theorem aborts_iff {h : CmdHandler} {buf : Bytes} {epollFd : Int} (htxn : h.registry.isTransaction clientId = true) :
    Aborts P o h buf clientId epollFd ↔ h.registry.isAnyDirty clientId = true := by
  obtain ⟨queue, hq⟩ := HashMap.exists_lookup (of_decide_eq_true htxn)
  unfold Aborts
  rw [handle_exec_open htxn, cmdExec, hq]
  cases hdirty : h.registry.isAnyDirty clientId with
  | true => exact ⟨fun _ => rfl, fun _ => ⟨h.closeTxn clientId, rfl⟩⟩
  | false =>
    refine ⟨fun habort => ?_, (by cases ·)⟩
    obtain ⟨h', hrun⟩ := habort
    simp only [Bool.false_eq_true, if_false, Option.bind_eq_bind, Option.bind_eq_some_iff] at hrun
    obtain ⟨⟨g, r⟩, ⟨⟨g', resps⟩, _, hlast⟩, hout⟩ := hrun
    cases hlast
    unfold orEmpty reply at hout
    obtain ⟨b, hb, heq⟩ := Option.map_eq_some_iff.mp hout
    have hnull : b = RespType.nullArray.frame := Except.ok.inj (Prod.mk.inj heq).2
    cases resps with
    | nil => exact absurd hnull (array_ne_null hb)
    | cons t ts => exact absurd hnull (array_ne_null hb)

/-! ## Steps that leave the marks of a client alone -/

def markedBy (key : String) (cs : List Call) (flag : Option Bool) : Option Bool :=
  if ∃ c ∈ cs, c.cmd.dirtyKey = some key then flag.map fun _ => true else flag

theorem markedBy_snoc (cs : List Call) (c : Call) (flag : Option Bool) :
    markedBy key (cs ++ [c]) flag =
      if c.cmd.dirtyKey = some key then (markedBy key cs flag).map fun _ => true else markedBy key cs flag := by
  unfold markedBy
  by_cases hcs : ∃ c ∈ cs, c.cmd.dirtyKey = some key <;> by_cases hc : c.cmd.dirtyKey = some key <;>
    simp [hcs, hc, or_and_right, exists_or]

theorem handle_flag_other {h h' : CmdHandler} {cmd : Except CustomError Cmd} {buf : Bytes} {id : Nat} {epollFd : Int}
    {out : Except Bytes Bytes} (hid : id ≠ clientId) (hh : h.handle P o cmd buf id epollFd = some (h', out)) :
    watchFlag h'.registry.watchlist key clientId =
      markedBy key (h.calls P (o, .handle cmd buf id epollFd)) (watchFlag h.registry.watchlist key clientId) := by
  have hcall : ∀ c cs, c ∈ h.calls P (o, .handle cmd buf id epollFd) → Call.Made P o c → c.clientId = id →
      watchFlag c.before.registry.watchlist key clientId =
        markedBy key cs (watchFlag h.registry.watchlist key clientId) →
      watchFlag c.after.registry.watchlist key clientId =
        markedBy key (cs ++ [c]) (watchFlag h.registry.watchlist key clientId) := by
    rintro c cs _ hm rfl hI
    rw [markedBy_snoc, ← hI]
    by_cases hwatch : ∃ keys, c.cmd = .watch keys
    · obtain ⟨keys, hcmd⟩ := hwatch
      rw [hm.flag_watch hcmd, if_neg fun h => hid h.1.symm, if_neg (by simp [hcmd, Cmd.dirtyKey])]
    · by_cases hunwatch : c.cmd = .unwatch
      · rw [hm.flag_unwatch hunwatch, if_neg hid.symm, if_neg (by simp [hunwatch, Cmd.dirtyKey])]
      · exact hm.flag_other (fun keys hcmd => hwatch ⟨keys, hcmd⟩) hunwatch
  obtain ⟨g, hg, rfl⟩ := handle_calls_close (I := fun g cs => watchFlag g.registry.watchlist key clientId =
    markedBy key cs (watchFlag h.registry.watchlist key clientId)) (fun _ _ _ hg => hg) hcall hh (by simp [markedBy])
  cases hclosed : h.closedBy (.handle cmd buf id epollFd) with
  | none => exact hg
  | some id' =>
    obtain ⟨rfl, _⟩ := closedBy_some.mp hclosed
    exact (watchFlag_unwatchAll hid.symm).trans hg

theorem handle_rewatch {h h' : CmdHandler} {keys : List String} {buf : Bytes} {epollFd : Int}
    {out : Except Bytes Bytes} (hh : h.handle P o (.ok (.watch keys)) buf clientId epollFd = some (h', out))
    (hflag : watchFlag h.registry.watchlist key clientId = some true) :
    watchFlag h'.registry.watchlist key clientId = some true := by
  have hcall : ∀ c (cs : List Call), c ∈ h.calls P (o, .handle (.ok (.watch keys)) buf clientId epollFd) →
      Call.Made P o c → c.clientId = clientId → watchFlag c.before.registry.watchlist key clientId = some true →
      watchFlag c.after.registry.watchlist key clientId = some true := by
    intro c _ hc hm _ hI
    rw [hm.flag_watch ((calls_direct (fun h => by cases h) hc).2), hI, Option.getD_some, ite_self]
  obtain ⟨g, hg, rfl⟩ := handle_calls_close (I := fun g _ => watchFlag g.registry.watchlist key clientId = some true)
    (fun _ _ _ hg => hg) hcall hh hflag
  exact hg

/-- From a start where the client watches nothing: EXEC aborts if and only if a
key has been watched, and since then named and not given up. Watching again keeps
a mark, and another client changes marks only by commands that name the key. -/
theorem exec_aborts_iff {h₀ h : CmdHandler} {labels : List (IterOrder × Event)}
    (hstart : ∀ key, watchFlag h₀.registry.watchlist key clientId = none) (hr : Run (Steps P) h₀ labels h) :
    (h.registry.isTransaction clientId = true → ∀ o buf epollFd,
      (Aborts P o h buf clientId epollFd ↔ ∃ key, MarkedSince clientId key (sessionTrace P h₀ labels)) ∧
      (Aborts P o h buf clientId epollFd →
        h.handle P o (.ok .exec) buf clientId epollFd = some (h.closeTxn clientId, .ok RespType.nullArray.frame) ∧
        h.calls P (o, .handle (.ok .exec) buf clientId epollFd) = [])) ∧
    (∀ o buf epollFd key h',
      (∀ keys, Steps P h (o, .handle (.ok (.watch keys)) buf clientId epollFd) h' →
        watchFlag h.registry.watchlist key clientId = some true →
        watchFlag h'.registry.watchlist key clientId = some true) ∧
      (∀ id cmd, id ≠ clientId → Steps P h (o, .handle (.ok cmd) buf id epollFd) h' →
        watchFlag h'.registry.watchlist key clientId =
          markedBy key (h.calls P (o, .handle (.ok cmd) buf id epollFd)) (watchFlag h.registry.watchlist key clientId) ∧
        ((∃ keys, cmd = .watch keys) ∨ cmd = .unwatch ∨ cmd = .discard →
          watchFlag h'.registry.watchlist key clientId = watchFlag h.registry.watchlist key clientId))) := by
  refine ⟨fun htxn o buf epollFd => ?_, fun o buf epollFd key h' => ⟨?_, ?_⟩⟩
  · have hnil : FlagsTell clientId h₀ [] := fun key => by
      rw [hstart]
      exact ⟨iff_of_false Bool.false_ne_true not_since_nil, iff_of_false (fun heq => by cases heq) not_sinceSeen_nil⟩
    have hrun : Run (guarded (fun _ _ => True) (Steps P)) h₀ labels h := hr.mono fun _ _ _ hs => ⟨trivial, hs⟩
    have htell : FlagsTell clientId h (sessionTrace P h₀ labels) :=
      collect_inv hrun (fun _ _ _ _ _ hs hI => step_flagsTell hs hI) hnil
    have hdirty : Aborts P o h buf clientId epollFd ↔ h.registry.isAnyDirty clientId = true := aborts_iff htxn
    refine ⟨?_, fun hab => ?_⟩
    · rw [hdirty, isAnyDirty_iff]
      exact exists_congr fun key => (htell key).2
    · have hany := hdirty.mp hab
      exact ⟨handle_exec_dirty htxn hany, by simp [calls, htxn, hany]⟩
  · intro keys hs hflag
    obtain ⟨⟨g, out⟩, hh, rfl⟩ := Option.map_eq_some_iff.mp hs
    exact handle_rewatch hh hflag
  · intro id cmd hid hs
    obtain ⟨⟨g, out⟩, hh, rfl⟩ := Option.map_eq_some_iff.mp hs
    have hflag : watchFlag g.registry.watchlist key clientId =
        markedBy key (h.calls P (o, .handle (.ok cmd) buf id epollFd)) (watchFlag h.registry.watchlist key clientId) :=
      handle_flag_other hid hh
    refine ⟨hflag, fun hcmd => hflag.trans ?_⟩
    unfold markedBy
    rw [if_neg]
    rintro ⟨c, hc, hname⟩
    have hne : cmd ≠ .exec := by
      rcases hcmd with ⟨keys, rfl⟩ | rfl | rfl <;> simp
    rw [(calls_direct hne hc).2] at hname
    rcases hcmd with ⟨keys, rfl⟩ | rfl | rfl <;> cases hname

end

theorem exec_aborts_iff_set :
    ∃ key, MarkedSince 1 key (sessionTrace .blank startup
      [ask 1 (.watch ["k"]), ask 1 .multi, ask 2 (.set "k" "v" none)]) := by
  have hstart : ∀ key, watchFlag startup.registry.watchlist key 1 = none := fun _ => rfl
  have hr : Run (Steps .blank) startup [ask 1 (.watch ["k"]), ask 1 .multi, ask 2 (.set "k" "v" none)]
      (play startup [ask 1 (.watch ["k"]), ask 1 .multi, ask 2 (.set "k" "v" none)]) :=
    .cons rfl (.cons rfl (.cons rfl .nil))
  have habort : Aborts .blank .asIs (play startup [ask 1 (.watch ["k"]), ask 1 .multi, ask 2 (.set "k" "v" none)])
      [] 1 0 := ⟨_, rfl⟩
  exact ((exec_aborts_iff hstart hr).1 rfl .asIs [] 0).1.mp habort

end CmdHandler

end Redis
