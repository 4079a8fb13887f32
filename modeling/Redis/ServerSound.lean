import Redis.AuthSound
import Redis.QueueFrame

/-!
# The main loop on the handler

The loop asks the handler for one thing after the other: for a command that has
been decoded, for what the timer is armed for, and for the backlogs at the end of
a cycle. Between these it changes the statics and writes out the queue, and
nothing else. So a run of the loop is a run of the handler whose queue is what
has been written out and what is queued still.
-/

namespace Redis

universe u

open Lib

namespace Server

variable (P : Platform)

def asks (s : Server) (e : Event) : List (IterOrder × CmdHandler.Event) :=
  match e, s.takenUp e with
  | .turn o .., some (fd, client, t) =>
    match client.handsOver P s.handler fd t with
    | some (cmd, raw) => [(o, .handle cmd raw fd s.epollFd)]
    | none => []
  | .timer, _ => [(.asIs, .expire)]
  | .endOfCycle o o', _ => [(o, .serveBacklogList), (o', .serveBacklogStream)]
  | _, _ => []

def settles (s' : Server) : IterOrder × CmdHandler.Event :=
  (.asIs, .process s'.handler.clientTable s'.handler.appStates s'.handler.auth)

def writes (s : Server) : Event → List (Nat × Bytes)
  | .endOfCycle o o' => ((s.handler.serveBacklogList o).serveBacklogStream o').responseQueue
  | _ => []

def along {α : Type u} (f : Server → Event → Server → List α) : Server → List Event → List α
  | _, [] => []
  | s, e :: es =>
    match s.step P e with
    | some s' => f s e s' ++ along f s' es
    | none => []

def runAsks (s : Server) (es : List Event) : List (IterOrder × CmdHandler.Event) :=
  along P (fun s e s' => s.asks P e ++ [s'.settles]) s es

def runWrites (s : Server) (es : List Event) : List (Nat × Bytes) := along P (fun s e _ => s.writes e) s es

section
variable {P} {s s' : Server} {e : Event}

theorem along_cons {α : Type u} {f : Server → Event → Server → List α} {es : List Event} (hs : s.step P e = some s') :
    along P f s (e :: es) = f s e s' ++ along P f s' es := by
  rw [along, hs]

/-- All but the statics is as it was. -/
theorem settles_step {h : CmdHandler} {q : List (Nat × Bytes)} (ht : ∃ clientTable appStates auth,
    s'.handler.behind q = { h with clientTable, appStates, auth }) : CmdHandler.Steps P h s'.settles
      (s'.handler.behind q) := by
  obtain ⟨clientTable, appStates, auth, heq⟩ := ht
  have htable : s'.handler.clientTable = clientTable := congrArg CmdHandler.clientTable heq
  have hstates : s'.handler.appStates = appStates := congrArg CmdHandler.appStates heq
  have hauth : s'.handler.auth = auth := congrArg CmdHandler.auth heq
  rw [heq, settles, htable, hstates, hauth]
  rfl

theorem settles_run {h : CmdHandler} {labels : List (IterOrder × CmdHandler.Event)} {q : List (Nat × Bytes)}
    {g : CmdHandler} (hr : Run (CmdHandler.Steps P) h labels g)
    (ht : ∃ clientTable appStates auth, s'.handler.behind q = { g with clientTable, appStates, auth }) :
    Run (CmdHandler.Steps P) h (labels ++ [s'.settles]) (s'.handler.behind q) :=
  hr.append (.cons (settles_step ht) .nil)

theorem writeReply_handler (s : Server) (fd : Nat) (reply : Bytes) (written : Bool) :
    ∃ clientTable appStates auth, (s.writeReply fd reply written).handler.behind [] =
      { s.handler with clientTable, appStates, auth } := by
  rcases writeReply_cases s fd reply written with heq | ⟨sent, heq⟩
  · rw [heq]
    exact ⟨_, _, _, rfl⟩
  · rw [heq]
    exact ⟨_, _, _, rfl⟩

/-- An event is what the handler is asked for, what becomes of the statics, and what
is written out. -/
theorem step_refines (hs : s.step P e = some s') :
    Run (CmdHandler.Steps P) s.handler (s.asks P e ++ [s'.settles]) (s'.handler.behind (s.writes e)) := by
  cases step_happens hs with
  | accepted | nobody | read | gone | hungUp => exact settles_run .nil ⟨_, _, _, rfl⟩
  | @failed o fuel written fd hreading htaken =>
    have hasks : s.asks P (.turn o fuel written) = [] := by simp only [asks, htaken]
    rw [hasks]
    exact settles_run .nil ⟨_, _, _, rfl⟩
  | @waits o fuel written fd client hreading htaken =>
    have hasks : s.asks P (.turn o fuel written) = [] := by simp only [asks, htaken]
    rw [hasks]
    exact settles_run .nil ⟨_, _, _, rfl⟩
  | @turned o fuel written fd client₀ client t client' handler reply hreading hclient hcomp htaken hr =>
    have hwrites : s.writes (.turn o fuel written) = [] := rfl
    rw [hwrites]
    rcases respond_handed hr with ⟨⟨clientTable, appStates, rfl⟩, hnone⟩ | ⟨cmd, raw, out, hsome, hh⟩
    · have hasks : s.asks P (.turn o fuel written) = [] := by simp only [asks, htaken, hnone]
      rw [hasks]
      obtain ⟨ct, as, au, heq⟩ := writeReply_handler
        { s with
          clients := s.clients.insert fd client'
          handler := { s.handler with clientTable, appStates } } fd reply written
      exact settles_run .nil ⟨ct, as, au, heq⟩
    · have hasks : s.asks P (.turn o fuel written) = [(o, .handle cmd raw fd s.epollFd)] := by
        simp only [asks, htaken, hsome]
      have hstep : CmdHandler.Steps P s.handler (o, .handle cmd raw fd s.epollFd) handler :=
        congrArg (Option.map Prod.fst) hh
      rw [hasks]
      exact settles_run (.cons hstep .nil) (writeReply_handler _ fd reply written)
  | @expired handler hreading henabled hfires hc =>
    have hstep : CmdHandler.Steps P s.handler (.asIs, .expire) handler :=
      (if_pos hfires).trans hc
    exact settles_run (.cons hstep .nil) ⟨_, _, _, rfl⟩
  | @ended o o' handler hreading hhandler hall =>
    have hlists : CmdHandler.Steps P s.handler (o, .serveBacklogList) (s.handler.serveBacklogList o) := rfl
    have hstreams : CmdHandler.Steps P (s.handler.serveBacklogList o) (o', .serveBacklogStream) handler := by
      rw [hhandler]
      rfl
    refine settles_run (.cons hlists (.cons hstreams .nil)) ⟨handler.clientTable, handler.appStates, handler.auth, ?_⟩
    have hqueue : s.writes (.endOfCycle o o') = handler.responseQueue := by rw [hhandler]; rfl
    rw [hqueue]
    simp [CmdHandler.behind]

/-- A run of the main loop is a run of the handler: it goes through what the handler
is asked for, and its queue is what was written out, in this order, before what is
queued still. -/
theorem run_refines {es : List Event} (hr : Run (Steps P) s es s') :
    Run (CmdHandler.Steps P) s.handler (runAsks P s es) (s'.handler.behind (runWrites P s es)) := by
  induction hr with
  | nil => exact .nil
  | @cons s e t es s' hs _ ih =>
    have hfirst : Run (CmdHandler.Steps P) s.handler (s.asks P e ++ [t.settles]) (t.handler.behind (s.writes e)) :=
      step_refines hs
    have hrest : Run (CmdHandler.Steps P) (t.handler.behind (s.writes e)) (runAsks P t es)
        ((s'.handler.behind (runWrites P t es)).behind (s.writes e)) := CmdHandler.run_behind ih
    rw [CmdHandler.behind_behind] at hrest
    rw [runAsks, runWrites, along_cons hs, along_cons hs]
    exact hfirst.append hrest

end

/-- Client 8 publishes on a channel that client 7 has subscribed to. -/
def publishing : List Event :=
  [.accept 7, .accept 8, .read 7 (RespType.arrayOf (["SUBSCRIBE", "c"].map .bulk)).frame, .turn .asIs 20 true,
    .turn .asIs 20 true, .read 8 (RespType.arrayOf (["PUBLISH", "c", "m"].map .bulk)).frame, .turn .asIs 20 true,
    .turn .asIs 20 true, .endOfCycle .asIs .asIs]

theorem run_refines_publish : ∃ s : Server, s.sent.map Prod.fst = [7, 8, 7] ∧
    (runWrites .blank { handler := .startup } publishing).map Prod.fst = [7] ∧
    Run (CmdHandler.Steps .blank) .startup (runAsks .blank { handler := .startup } publishing)
      (s.handler.behind (runWrites .blank { handler := .startup } publishing)) := by
  have hsent : (publishing.foldlM (step .blank) { handler := .startup }).map (fun s => s.sent.map Prod.fst) =
      some [7, 8, 7] := by decide +kernel
  have hwritten : (runWrites .blank { handler := .startup } publishing).map Prod.fst = [7] := by decide +kernel
  obtain ⟨s, hs, hr⟩ := Option.map_eq_some_iff.mp hsent
  exact ⟨s, hr, hwritten, run_refines (.of_foldlM hs)⟩

end Server

end Redis
