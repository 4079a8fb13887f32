import Redis.Deadlines
import Redis.Events

/-!
# The timer stays registered until it fires

The timer is armed for the nearest deadline, or later. Its registration with
epoll is one-shot and only the branch of the listener and that of a client
renew theirs, so the first firing is the last one that is noticed.
-/

namespace Redis

open Lib

namespace Server

open RequestRegistry

/-- Epoll reports the timer, and it is going to fire. -/
def Watched (s : Server) : Prop := s.timerEnabled = true ∧ s.handler.registry.timer.armed.isSome = true

section
variable {P : Platform} {s s' : Server}

structure Keeps (s s' : Server) : Prop where
  deadlines : Reschedules true true s.handler.registry s'.handler.registry
  enabled : s'.timerEnabled = s.timerEnabled

theorem Keeps.of_registry (hr : s'.handler.registry = s.handler.registry) (ht : s'.timerEnabled = s.timerEnabled) :
    Keeps s s' := by
  refine ⟨.same (by rw [hr]) (by rw [hr]) ?_, ht⟩
  rw [hr]
  exact .refl _

theorem handle_reschedules {h h' : CmdHandler} {o : IterOrder} {cmd : Except CustomError Cmd} {buf : Bytes}
    {clientId : Nat} {epollFd : Int} {out : Except Bytes Bytes}
    (hh : h.handle P o cmd buf clientId epollFd = some (h', out)) : Reschedules true true h.registry h'.registry := by
  rcases CmdHandler.handle_reschedules hh with hstore | ⟨_, htake⟩
  · exact hstore.mono (fun _ => rfl) (fun _ => rfl)
  · exact htake.mono (fun _ => rfl) (fun _ => rfl)

theorem respond_keeps {o : IterOrder} {fd : Nat} {client client' : TcpClient} {t : RespType} {h' : CmdHandler}
    {reply : Bytes} (hrespond : client.respond P o s.handler fd s.epollFd t = some (client', h', reply))
    (written : Bool) :
    Keeps s ({ s with clients := s.clients.insert fd client', handler := h' }.writeReply fd reply written) := by
  have hhandled : Reschedules true true s.handler.registry h'.registry := by
    rcases TcpClient.respond_cases hrespond with ⟨_, _, _, rfl⟩ | ⟨_, _, _, _, hh⟩
    · exact .same rfl rfl (.refl _)
    · exact handle_reschedules hh
  rcases writeReply_cases { s with clients := s.clients.insert fd client', handler := h' } fd reply written with
    hends | ⟨_, hwritten⟩
  · rw [hends]
    exact ⟨hhandled, rfl⟩
  · rw [hwritten]
    exact ⟨hhandled, rfl⟩

theorem step_keeps {e : Event} (hs : s.Steps P e s') (he : e ≠ .timer) : Keeps s s' := by
  cases step_happens hs with
  | accepted | nobody | read | failed | waits | gone | hungUp => exact .of_registry rfl rfl
  | turned _ _ _ _ hrespond => exact respond_keeps hrespond _
  | expired => exact absurd rfl he
  | @ended o o' handler _ hserve _ =>
    subst hserve
    have htakes := (CmdHandler.serveBacklogList_takes o s.handler).trans (CmdHandler.serveBacklogStream_takes o' _)
    exact ⟨htakes.reschedules rfl, rfl⟩

theorem step_timer (hs : s.Steps P .timer s') : s'.timerEnabled = false := by
  cases step_happens hs with
  | expired => rfl

theorem run_disabled {es : List Event} (h : Run (Steps P) s es s') (hs : s.timerEnabled = false) :
    s'.timerEnabled = false := by
  refine h.inv (I := fun s => s.timerEnabled = false) (fun u e v _ hu hstep => ?_) hs
  by_cases he : e = .timer
  · subst he
    exact step_timer hstep
  · exact (step_keeps hstep he).enabled.trans hu

/-- The registration lasts until the timer fires. -/
theorem run_enabled_iff {es : List Event} (h : Run (Steps P) s es s') (hs : s.timerEnabled = true) :
    s'.timerEnabled = true ↔ .timer ∉ es := by
  induction h with
  | nil => exact ⟨fun _ hm => (List.not_mem_nil hm), fun _ => hs⟩
  | @cons s e u es s' hstep hrest ih =>
    rw [List.mem_cons, not_or]
    by_cases he : e = .timer
    · subst he
      have hoff := run_disabled hrest (step_timer hstep)
      exact ⟨fun hon => absurd (hoff.symm.trans hon) (by simp), fun hno => absurd rfl hno.1⟩
    · rw [ih ((step_keeps hstep he).enabled.trans hs)]
      exact ⟨fun h => ⟨fun h' => he h'.symm, h⟩, fun h => h.2⟩

/-- As long as it has not fired, the timer is armed for the nearest deadline or later. -/
theorem run_nearArmed {es : List Event} (h : Run (Steps P) s es s') (hes : .timer ∉ es)
    {timer : Timer} (hs : NearArmed timer s.handler.registry) : NearArmed timer s'.handler.registry := by
  refine h.inv (I := fun s => NearArmed timer s.handler.registry) (fun u e v he hu hstep => ?_) hs
  exact (step_keeps hstep fun heq => hes (heq ▸ he)).deadlines.nearArmed hu

/-- While a deadline is stored that the timer can be set to, epoll reports the
timer and it is going to fire, if it has not fired in the loop yet, and only then. -/
theorem run_watched_iff {Good : CmdHandler → IterOrder × CmdHandler.Event → Prop} {timer : Timer}
    {appStates : AppStates}
    {start : Server} (hb : CmdHandler.Begun P Good timer appStates start.handler) (hstart : start.timerEnabled = true)
    {es : List Event} (h : Run (Steps P) start es s) {d t : Nat}
    (hd : s.handler.registry.deadline.first? = some (d, t)) (hnear : timer.Reaches d) : s.Watched ↔ .timer ∉ es := by
  have henabled := run_enabled_iff h hstart
  refine ⟨fun hw => henabled.mp hw.1, fun hes => ⟨henabled.mpr hes, ?_⟩⟩
  obtain ⟨a, ha, _⟩ := (run_nearArmed h hes hb.nearArmed).armed d t hd hnear
  exact Option.isSome_iff_exists.mpr ⟨a, ha⟩

end

/-! ### A concrete run -/

def fresh : Server := { handler := .new { clock := fun n => 1000 * n } CmdHandler.startup.appStates }

/-- Two clients wait for a stream, one for a millisecond and one for a hundred seconds. -/
def twoTimeouts : List Event :=
  [.accept 5, .accept 6,
    .read 5 (utf8 "*6\r\n$5\r\nXREAD\r\n$5\r\nBLOCK\r\n$1\r\n1\r\n$7\r\nSTREAMS\r\n$1\r\ns\r\n$1\r\n0\r\n"),
    .turn .asIs 40 true, .turn .asIs 40 true,
    .read 6 (utf8 "*6\r\n$5\r\nXREAD\r\n$5\r\nBLOCK\r\n$6\r\n100000\r\n$7\r\nSTREAMS\r\n$1\r\ns\r\n$1\r\n0\r\n"),
    .turn .asIs 40 true, .turn .asIs 40 true, .endOfCycle .asIs .asIs]

def firstFired : List Event := twoTimeouts ++ [.timer, .endOfCycle .asIs .asIs]

theorem run_watched_twoTimeouts : ∃ s, Run (Steps .blank) fresh twoTimeouts s ∧ s.reading = none ∧ s.Watched := by
  have hafter : (twoTimeouts.foldlM (step .blank) fresh).map (fun s =>
      (s.reading, s.handler.registry.deadline.first?)) = some (none, some (1, 0)) := by decide +kernel
  obtain ⟨s, hs, hv⟩ := Option.map_eq_some_iff.mp hafter
  rw [Prod.mk.injEq] at hv
  have hrun : Run (Steps .blank) fresh twoTimeouts s := .of_foldlM hs
  have hno : Event.timer ∉ twoTimeouts := by simp [twoTimeouts]
  have hb : CmdHandler.Begun .blank (fun _ _ => True) { clock := fun n => 1000 * n } CmdHandler.startup.appStates
      fresh.handler := .new {}
  have hnear : Timer.Reaches { clock := fun n => 1000 * n } 1 := by
    intro n
    simp only
    omega
  exact ⟨s, hrun, hv.1, (run_watched_iff hb rfl hrun hv.2 hnear).mpr hno⟩

/-- After it the other deadline is stored, and nothing reports the timer. -/
theorem firing_unwatched : ∃ s, Run (Steps .blank) fresh firstFired s ∧ s.reading = none ∧
    s.handler.registry.deadline.first? = some (102000, 2000) ∧ ¬ s.Watched := by
  have hafter : (firstFired.foldlM (step .blank) fresh).map (fun s =>
      (s.reading, s.handler.registry.deadline.first?, s.timerEnabled)) = some (none, some (102000, 2000), false) := by
    decide +kernel
  obtain ⟨s, hs, hv⟩ := Option.map_eq_some_iff.mp hafter
  rw [Prod.mk.injEq, Prod.mk.injEq] at hv
  obtain ⟨hreading, hfirst, hoff⟩ := hv
  refine ⟨s, .of_foldlM hs, hreading, hfirst, fun hw => ?_⟩
  rw [hw.1] at hoff
  cases hoff

end Server

end Redis
