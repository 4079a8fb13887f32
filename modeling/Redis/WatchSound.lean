import Redis.Sessions

/-!
# Watched keys

Between WATCH and EXEC the watch of the client stays in force, and what is
dirty stays dirty: the other clients only add watches, mark keys, and drop
watches of their own. A step that changes a watched key marks it, except for
the commands that `set_dirty` does not know and the BLPOPs that are served. So
EXEC finds a dirty key, and runs nothing.
-/

namespace Redis

open Lib RequestRegistry

namespace CmdHandler

def KeepsWatch (clientId : Nat) (h : CmdHandler) (label : IterOrder × Event) : Prop :=
  ∀ cmd buf epollFd, label.2 = .handle (.ok cmd) buf clientId epollFd →
    if h.registry.isTransaction clientId then cmd ≠ .exec ∧ cmd ≠ .discard else cmd ≠ .unwatch

/-- The step changes the key by no command that is missing in `set_dirty`, and
by no BLPOP that has waited. -/
structure Marks (P : Platform) (key : String) (h : CmdHandler) (label : IterOrder × Event) : Prop where
  command : ∀ x, Executes P h label x → x.before.refuses x.clientId x.cmd = false → x.cmd.target = some key →
    x.cmd.dirtyKey = none → ¬ Escapes P x.before.data x.cmd
  serve : label.2 = .serveBacklogList → h.flagBacklogList = true → Waits h key → listItems h.data key = []

section
variable {P : Platform} {clientId : Nat} {key : String}

/-! ## One execution -/

theorem Effect.watchFlag {o : IterOrder} {h : CmdHandler} {now id : Nat} {epollFd : Option Int} {cmd : Cmd}
    {h' : CmdHandler} {r : CmdResult} (he : Effect P o h now id epollFd cmd h' r)
    (hkeep : clientId = id → cmd ≠ .unwatch ∧ (cmd = .discard → h.registry.isTransaction clientId = false)) {b : Bool}
    (hb : watchFlag h.registry.watchlist key clientId = some b) :
    watchFlag h'.registry.watchlist key clientId = some b := by
  cases he with
  | value | slave | channels | publish | users => exact hb
  | request =>
    rw [(insert_session _ _ _ _ _).2]
    exact hb
  | session hw => exact hw key clientId b hkeep hb
  | ack _ ha =>
    obtain ⟨_, registry, rfl, _, hw, _⟩ := cmdAck_frame ha
    simp only
    rw [hw]
    exact hb

/-- A command that changes its target and is not missing in `set_dirty` marks it. -/
theorem Executes.marks {h : CmdHandler} {label : IterOrder × Event} {x : Execution} (hx : Executes P h label x)
    (hm : x.before.refuses x.clientId x.cmd = false → x.cmd.target = some key → x.cmd.dirtyKey = none →
      ¬ Escapes P x.before.data x.cmd)
    (hc : Changes x.before x.after key) : x.cmd.dirtyKey = some key := by
  have ht := hx.target hc
  rcases hx.effect with hsame | ⟨s, dispatched, r, fd, m, ser, heff, hcon, hno, _⟩
  · exact absurd rfl (hsame ▸ hc : Changes x.before x.before key)
  · by_contra hne
    have hunlisted : x.cmd.dirtyKey = none ∧ x.cmd.toBeBroadcast = false := by
      revert ht hne
      cases x.cmd <;> simp [Cmd.target, Cmd.dirtyKey, Cmd.toBeBroadcast]
    have hb := ((heff.data key (by rw [← conclude_data hcon]; exact Ne.symm hc)).2 (hm hno ht hunlisted.1)).1
    rw [hunlisted.2] at hb
    cases hb

theorem Executes.watchFlag {h : CmdHandler} {label : IterOrder × Event} {x : Execution} (hx : Executes P h label x)
    (hkeep : clientId = x.clientId →
      x.cmd ≠ .unwatch ∧ (x.cmd = .discard → x.before.registry.isTransaction clientId = false))
    (hm : x.before.refuses x.clientId x.cmd = false → x.cmd.target = some key → x.cmd.dirtyKey = none →
      ¬ Escapes P x.before.data x.cmd) {b : Bool}
    (hb : watchFlag x.before.registry.watchlist key clientId = some b) :
    ∃ b', watchFlag x.after.registry.watchlist key clientId = some b' ∧
      (b = true ∨ Changes x.before x.after key → b' = true) := by
  rcases hx.effect with hsame | ⟨s, dispatched, r, fd, m, ser, heff, hcon, hno, _⟩
  · rw [hsame]
    exact ⟨b, hb, fun h => h.elim (fun hb => hb) fun hne => absurd rfl hne⟩
  · -- marked before it is dispatched
    have hprep := watchFlag_setDirty x.before.registry x.cmd key clientId
    rw [hb] at hprep
    have hafter : x.after.registry = dispatched.registry := conclude_registry hcon
    rw [hafter]
    by_cases hd : x.cmd.dirtyKey = some key
    · rw [if_pos hd] at hprep
      exact ⟨true, heff.watchFlag hkeep hprep, fun _ => rfl⟩
    · rw [if_neg hd] at hprep
      exact ⟨b, heff.watchFlag hkeep hprep, fun h => h.elim (fun hb => hb) fun hne => absurd (hx.marks hm hne) hd⟩

theorem KeepsWatch.execution {h : CmdHandler} {label : IterOrder × Event} (hk : KeepsWatch clientId h label)
    {x : Execution} (hx : Executes P h label x) :
    clientId = x.clientId →
      x.cmd ≠ .unwatch ∧ (x.cmd = .discard → x.before.registry.isTransaction clientId = false) := by
  intro hid
  cases hx with
  | direct htxn he =>
    subst hid
    have hcmd := hk _ _ _ rfl
    simp only [htxn] at hcmd
    exact ⟨hcmd, fun _ => htxn⟩
  | @queued o buf id epollFd pre q post before resps after output hl hdirty hpre he =>
    subst hid
    have hcmd := hk _ _ _ rfl
    have htxn : h.registry.isTransaction clientId = true := by
      unfold isTransaction
      rw [decide_eq_true_eq, ← AList.lookup_isSome, hl]
      rfl
    simp [htxn] at hcmd

/-! ## One step -/

/-- The watch stays in force, and is dirty once the key has changed. -/
theorem step_watchFlag {h h' : CmdHandler} {label : IterOrder × Event} (hs : Steps P h label h')
    (hk : KeepsWatch clientId h label) (hm : Marks P key h label) {b : Bool}
    (hb : watchFlag h.registry.watchlist key clientId = some b) :
    ∃ b', watchFlag h'.registry.watchlist key clientId = some b' ∧ (b = true ∨ Changes h h' key → b' = true) := by
  obtain ⟨o, e⟩ := label
  by_cases he : ∃ cmd buf id epollFd, e = .handle cmd buf id epollFd
  · obtain ⟨cmd, buf, id, epollFd, rfl⟩ := he
    obtain ⟨⟨g, out⟩, hh, rfl⟩ := Option.map_eq_some_iff.mp hs
    refine handle_inv_close (I := fun g => ∃ b', watchFlag g.registry.watchlist key clientId = some b' ∧
      (b = true ∨ Changes h g key → b' = true)) (fun g t hg => hg) ?_ ?_ hh
      ⟨b, hb, fun h => h.elim (fun hb => hb) fun hne => absurd rfl hne⟩
    · rintro htxn hcmd g ⟨b', hb', hd⟩
      refine ⟨b', ?_, hd⟩
      have hne : clientId ≠ id := by
        rintro rfl
        rcases hcmd with rfl | rfl
        · have := hk _ _ _ rfl
          simp [htxn] at this
        · have := hk _ _ _ rfl
          simp [htxn] at this
      exact (watchFlag_unwatchAll hne).trans hb'
    · rintro x hx ⟨b', hb', hd⟩
      obtain ⟨b'', hb'', hd'⟩ := hx.watchFlag (hk.execution hx) (hm.command x hx) hb'
      refine ⟨b'', hb'', fun hor => hd' ?_⟩
      by_cases hc : Changes x.before x.after key
      · exact Or.inr hc
      · refine Or.inl (hd (hor.imp_right fun hne heq => hne (heq.trans (not_not.mp hc))))
  · have hno : ∀ cmd buf id epollFd, e ≠ .handle cmd buf id epollFd :=
      fun cmd buf id epollFd heq => he ⟨cmd, buf, id, epollFd, heq⟩
    rw [(step_session hs hno).2]
    exact ⟨b, hb, fun h => h.elim (fun hb => hb) fun hc => absurd hc (step_data hs hno hm.serve)⟩

/-! ## Between WATCH and EXEC -/

theorem run_watchFlag {h h' : CmdHandler} {labels : List (IterOrder × Event)}
    (hr : Run (guarded (fun h label => KeepsWatch clientId h label ∧ Marks P key h label) (Steps P)) h labels h')
    {b : Bool} (hb : watchFlag h.registry.watchlist key clientId = some b) :
    ∃ b', watchFlag h'.registry.watchlist key clientId = some b' ∧ (b = true → b' = true) := by
  refine hr.inv (I := fun g => ∃ b', watchFlag g.registry.watchlist key clientId = some b' ∧ (b = true → b' = true))
    ?_ ⟨b, hb, id⟩
  rintro s label t _ ⟨b', hb', hd⟩ ⟨⟨hk, hm⟩, hs⟩
  obtain ⟨b'', hb'', hd'⟩ := step_watchFlag hs hk hm hb'
  exact ⟨b'', hb'', fun hb => hd' (Or.inl (hd hb))⟩

theorem handle_watch {o : IterOrder} {h h' : CmdHandler} {keys : List String} {buf : Bytes} {epollFd : Int} {v : Bytes}
    (htxn : h.registry.isTransaction clientId = false) (hkey : key ∈ keys)
    (hh : h.handle P o (.ok (.watch keys)) buf clientId epollFd = some (h', .ok v)) :
    ∃ b, watchFlag h'.registry.watchlist key clientId = some b := by
  obtain ⟨out, he, hout⟩ := handle_closed htxn hh
  rcases executeCmd_cases he with ⟨_, ⟨b, rfl⟩, _⟩ | ⟨_, prepared, dispatched, r, _, hd, hc⟩
  · cases hout
  · obtain ⟨_, _, _, _, _, _, hf⟩ := conclude_frame hc
    cases hd
    have hreg : h'.registry = prepared.registry.watch keys clientId := by
      rw [hf]
      rfl
    rw [hreg]
    exact ⟨_, by rw [watchFlag_watch, if_pos ⟨rfl, hkey⟩]⟩

theorem not_executes_dirty {o : IterOrder} {h : CmdHandler} {buf : Bytes} {epollFd : Int}
    (hopen : h.registry.isTransaction clientId = true) (hdirty : h.registry.isAnyDirty clientId = true)
    (x : Execution) : ¬ Executes P h (o, .handle (.ok .exec) buf clientId epollFd) x := by
  intro hx
  cases hx with
  | direct hno _ =>
    rw [hopen] at hno
    cases hno
  | queued _ hno _ _ =>
    rw [hdirty] at hno
    cases hno

/-- Between WATCH and EXEC the client keeps its watch, every step that changes
the key marks it, and one changes it: EXEC runs nothing. -/
theorem exec_refused {h₀ h₁ s s' h₂ : CmdHandler} {o : IterOrder} {keys : List String} {buf : Bytes} {epollFd : Int}
    {v : Bytes} {before after : List (IterOrder × Event)} {label : IterOrder × Event}
    (htxn : h₀.registry.isTransaction clientId = false) (hkey : key ∈ keys)
    (hwatch : h₀.handle P o (.ok (.watch keys)) buf clientId epollFd = some (h₁, .ok v))
    (hbefore : Run (guarded (fun h label => KeepsWatch clientId h label ∧ Marks P key h label) (Steps P)) h₁ before s)
    (hstep : guarded (fun h label => KeepsWatch clientId h label ∧ Marks P key h label) (Steps P) s label s')
    (hchange : Changes s s' key)
    (hafter : Run (guarded (fun h label => KeepsWatch clientId h label ∧ Marks P key h label) (Steps P)) s' after h₂)
    (hmulti : h₂.registry.isTransaction clientId = true) (o' : IterOrder) (buf' : Bytes) (epollFd' : Int) :
    h₂.handle P o' (.ok .exec) buf' clientId epollFd' = some (h₂.closeTxn clientId, .ok RespType.nullArray.frame) ∧
      ∀ x, ¬ Executes P h₂ (o', .handle (.ok .exec) buf' clientId epollFd') x := by
  obtain ⟨b₁, hb₁⟩ := handle_watch htxn hkey hwatch
  obtain ⟨b₂, hb₂, _⟩ := run_watchFlag hbefore hb₁
  obtain ⟨b₃, hb₃, hd₃⟩ := step_watchFlag hstep.2 hstep.1.1 hstep.1.2 hb₂
  obtain ⟨b₄, hb₄, hd₄⟩ := run_watchFlag hafter hb₃
  rw [hd₄ (hd₃ (Or.inr hchange))] at hb₄
  have hdirty : h₂.registry.isAnyDirty clientId = true := isAnyDirty_iff.mpr ⟨key, hb₄⟩
  exact ⟨handle_exec_dirty hmulti hdirty, not_executes_dirty hmulti hdirty⟩

end

def watchAndOpen (key : String) : List (IterOrder × Event) := [ask 1 (.watch [key]), ask 1 .multi, ask 1 .ping]

theorem exec_refused_set :
    ∃ h, (play startup (watchAndOpen "k" ++ [ask 2 (.set "k" "v" none)])).handle .blank .asIs (.ok .exec) [] 1 0 =
      some (h, .ok RespType.nullArray.frame) := by
  have hother : ∀ h id cmd, cmd ≠ Cmd.exec → (∀ data, ¬ Escapes .blank data cmd) → Marks .blank "k" h (ask id cmd) := by
    refine fun h id cmd hne hesc => ⟨fun x hx _ _ _ => ?_, fun h => by cases h⟩
    cases hx with
    | direct => exact hesc _
    | queued => exact absurd rfl hne
  let G := guarded (fun h label => KeepsWatch 1 h label ∧ Marks .blank "k" h label) (Steps .blank)
  have hwatch : startup.handle .blank .asIs (.ok (.watch ["k"])) [42] 1 0 =
      some (play startup [ask 1 (.watch ["k"])], .ok (utf8 "+OK\r\n")) := rfl
  have hmulti : G (play startup [ask 1 (.watch ["k"])]) (ask 1 .multi)
      (play startup [ask 1 (.watch ["k"]), ask 1 .multi]) := by
    refine ⟨⟨?_, hother _ 1 .multi nofun fun _ => id⟩, rfl⟩
    rintro _ _ _ ⟨⟩
    decide
  have hping : G (play startup [ask 1 (.watch ["k"]), ask 1 .multi]) (ask 1 .ping)
      (play startup (watchAndOpen "k")) := by
    refine ⟨⟨?_, hother _ 1 .ping nofun fun _ => id⟩, rfl⟩
    rintro _ _ _ ⟨⟩
    decide
  have hset : G (play startup (watchAndOpen "k")) (ask 2 (.set "k" "v" none))
      (play startup (watchAndOpen "k" ++ [ask 2 (.set "k" "v" none)])) := by
    refine ⟨⟨?_, hother _ 2 (.set "k" "v" none) nofun fun _ => id⟩, rfl⟩
    rintro _ _ _ ⟨⟩
  have hchange : Changes (play startup (watchAndOpen "k"))
    (play startup (watchAndOpen "k" ++ [ask 2 (.set "k" "v" none)]))
      "k" := fun heq => absurd (congrArg Option.isSome heq) (by decide)
  exact ⟨_, (exec_refused rfl (List.mem_singleton_self _) hwatch (.cons hmulti (.cons hping .nil)) hset hchange .nil rfl
    .asIs [] 0).1⟩

/-- ZADD does not mark the key: the transaction runs, though the key has changed. -/
theorem zadd_unmarked :
    let h := play startup (watchAndOpen "z")
    let h' := play startup (watchAndOpen "z" ++ [ask 2 (.zadd "z" ⟨0x3FF0000000000000⟩ "a")])
    Run (Steps .blank) startup (watchAndOpen "z") h ∧ Steps .blank h (ask 2 (.zadd "z" ⟨0x3FF0000000000000⟩ "a")) h' ∧
      Changes h h' "z" ∧
      ∃ h'', h'.handle .blank .asIs (.ok .exec) [] 1 0 = some (h'', .ok (utf8 "*1\r\n+PONG\r\n")) := by
  refine ⟨.cons rfl (.cons rfl (.cons rfl .nil)), rfl, ?_, _, rfl⟩
  exact fun heq => absurd (congrArg Option.isSome heq) (by decide)

end CmdHandler

end Redis
