import Redis.SessionFrame

/-!
# What is queued already

Nothing looks at the queue of responses, and what is new comes last. So a step
does the same behind messages that are queued already.
-/

namespace Redis

open Lib RequestRegistry

namespace CmdHandler

/-- These messages are queued before its own. -/
def behind (q : List (Nat × Bytes)) (h : CmdHandler) : CmdHandler := { h with responseQueue := q ++ h.responseQueue }

section
variable {P : Platform} {o : IterOrder} {clientId : Nat} {q : List (Nat × Bytes)} {h h' : CmdHandler}

theorem behind_behind (w : List (Nat × Bytes)) : (h.behind w).behind q = h.behind (q ++ w) := by
  unfold behind
  rw [List.append_assoc]

theorem map_behind {α : Type} {f : CmdHandler → Option (CmdHandler × α)}
    (hf : ∀ X, f (h.inSession X) = (f h).map (Prod.map (inSession X) id)) :
    f (h.behind q) = (f h).map (Prod.map (behind q) id) := by
  have hself : f h = (f h).map (Prod.map (inSession h.sessions) id) := hf h.sessions
  calc f (h.behind q) = (f h).map (Prod.map (inSession { h.sessions with queue := q }) id) :=
        hf { h.sessions with queue := q }
    _ = ((f h).map (Prod.map (inSession h.sessions) id)).map (Prod.map (behind q) id) := by
      rw [Option.map_map]
      rfl
    _ = (f h).map (Prod.map (behind q) id) := by rw [← hself]

theorem map_behind_only {f : CmdHandler → Option CmdHandler} (hf : ∀ X, f (h.inSession X) = (f h).map (inSession X)) :
    f (h.behind q) = (f h).map (behind q) := by
  have hpaired : ∀ X, (f (h.inSession X)).map (·, ()) = ((f h).map (·, ())).map (Prod.map (inSession X) id) := by
    intro X
    rw [hf X, Option.map_map, Option.map_map]
    rfl
  have hbehind := congrArg (Option.map Prod.fst) (map_behind (f := fun g => (f g).map (·, ())) (q := q) hpaired)
  simpa [Function.comp_def] using hbehind

theorem apply_behind {f : CmdHandler → CmdHandler} (hf : ∀ X, f (h.inSession X) = (f h).inSession X) :
    f (h.behind q) = (f h).behind q := by
  have hsome := map_behind_only (f := fun g => some (f g)) (q := q) fun X => congrArg some (hf X)
  exact Option.some.inj hsome

/-! ## Commands -/

theorem dispatch_behind {exec : CmdHandler → Nat → Option (CmdHandler × CmdResult)} {now : Nat} {isSubscriber : Bool}
    {epollFd : Option Int} (cmd : Cmd)
    (hexec : exec (h.behind q) clientId = (exec h clientId).map (Prod.map (behind q) id)) :
    dispatch P o exec (h.behind q) now isSubscriber clientId epollFd cmd =
      (dispatch P o exec h now isSubscriber clientId epollFd cmd).map (Prod.map (behind q) id) := by
  cases hc : cmd.ofSession with
  | false =>
    exact map_behind (f := fun g => dispatch P o exec g now isSubscriber clientId epollFd cmd)
      fun X => dispatch_inSession hc
  | true =>
    cases cmd <;> simp only [Cmd.ofSession, Bool.false_eq_true] at hc <;> simp only [dispatch]
    case multi | discard | watch | unwatch | subscribe => rfl
    case exec => exact hexec
    case unsubscribe key =>
      have hsub : (h.behind q).isSubscriber clientId = h.isSubscriber clientId := rfl
      unfold cmdUnsubscribe
      rw [hsub]
      split <;> rfl
    case publish key message =>
      have hchannels : (h.behind q).channels = h.channels := rfl
      unfold cmdPublish
      rw [hchannels]
      cases h.channels.lookup key with
      | none => rfl
      | some set => simp [pushAll, behind]

theorem prepare_behind {cmd : Cmd} {buf : Bytes} {isMaster : Bool} :
    (h.behind q).prepare cmd buf isMaster = (h.prepare cmd buf isMaster).map (behind q) := by
  have hstats : (h.behind q).appStates = h.appStates := rfl
  unfold prepare countWrite
  split
  · simp only [hstats]
    cases h.appStates.hostStats <;> rfl
  · rfl

theorem executeCmd_behind {exec : CmdHandler → Nat → Option (CmdHandler × CmdResult)} {cmd : Cmd} {buf : Bytes}
    {epollFd : Option Int} {serialized : Bool}
    (hexec : ∀ g : CmdHandler, exec (g.behind q) clientId = (exec g clientId).map (Prod.map (behind q) id)) :
    (h.behind q).executeCmd P o exec cmd buf clientId epollFd serialized =
      (h.executeCmd P o exec cmd buf clientId epollFd serialized).map (Prod.map (behind q) id) := by
  have hrefuses : (h.behind q).refuses clientId cmd = h.refuses clientId cmd := rfl
  have hmaster : (h.behind q).clientTable.isMaster clientId = h.clientTable.isMaster clientId := rfl
  have hnow : (h.behind q).registry.timer.now = h.registry.timer.now := rfl
  have hsub : (h.behind q).isSubscriber clientId = h.isSubscriber clientId := rfl
  unfold executeCmd
  rw [hrefuses, hmaster, hnow, hsub]
  simp only [prepare_behind]
  by_cases hno : h.refuses clientId cmd = true
  · rw [if_pos hno, if_pos hno]
    rfl
  · rw [if_neg hno, if_neg hno]
    cases h.prepare cmd buf (h.clientTable.isMaster clientId) with
    | none => rfl
    | some g =>
      simp only [Option.map_some, Option.bind_eq_bind, Option.bind_some, dispatch_behind cmd (hexec g)]
      cases dispatch P o exec g h.registry.timer.now (h.isSubscriber clientId) clientId epollFd cmd with
      | none => rfl
      | some x =>
        exact map_behind (f := fun g => g.conclude o cmd buf (h.clientTable.isMaster clientId) serialized x.2)
          fun X => conclude_inSession ..

/-! ## Transactions -/

theorem runQueue_behind (queue : List Queued) :
    runQueue P o clientId (h.behind q) queue = (runQueue P o clientId h queue).map (Prod.map (behind q) id) := by
  induction queue generalizing h with
  | nil => rfl
  | cons x xs ih =>
    have hfirst : (h.behind q).executeQueued P o clientId x =
        (h.executeQueued P o clientId x).map (Prod.map (behind q) id) :=
      executeCmd_behind fun _ => rfl
    simp only [runQueue, hfirst]
    cases h.executeQueued P o clientId x with
    | none => rfl
    | some y =>
      simp only [Option.map_some, Option.bind_eq_bind, Option.bind_some, Prod.map_fst, ih]
      cases runQueue P o clientId y.1 xs <;> rfl

theorem cmdExec_behind : cmdExec P o (h.behind q) clientId = (cmdExec P o h clientId).map (Prod.map (behind q) id) := by
  have htxns : (h.behind q).registry = h.registry := rfl
  unfold cmdExec
  rw [htxns]
  cases h.registry.backlogTxn.lookup clientId with
  | none => rfl
  | some queue =>
    simp only
    by_cases hdirty : h.registry.isAnyDirty clientId = true
    · rw [if_pos hdirty, if_pos hdirty]
      rfl
    · have hrun : runQueue P o clientId ((h.behind q).drainTxn clientId) queue =
          (runQueue P o clientId (h.drainTxn clientId) queue).map (Prod.map (behind q) id) :=
        runQueue_behind (h := h.drainTxn clientId) queue
      rw [if_neg hdirty, if_neg hdirty, hrun]
      cases runQueue P o clientId (h.drainTxn clientId) queue <;> rfl

theorem handle_behind {cmd : Except CustomError Cmd} {buf : Bytes} {epollFd : Int} :
    (h.behind q).handle P o cmd buf clientId epollFd =
      (h.handle P o cmd buf clientId epollFd).map (Prod.map (behind q) id) := by
  have hopen : (h.behind q).registry = h.registry := rfl
  cases cmd with
  | error e => rfl
  | ok c =>
    unfold handle
    simp only [hopen]
    split
    · have hexecute : (h.behind q).execute P o c buf clientId epollFd =
          (h.execute P o c buf clientId epollFd).map (Prod.map (behind q) id) :=
        executeCmd_behind fun _ => cmdExec_behind
      rw [hexecute, Option.map_map, Option.map_map]
      rfl
    · split
      · rfl
      · split
        · rw [cmdExec_behind]
          cases cmdExec P o h clientId with
          | none => rfl
          | some x =>
            simp only [Option.map_some, Option.bind_some, orEmpty, Prod.map_fst, Prod.map_snd, id]
            split
            · rw [Option.map_map]
              rfl
            · rfl
        · simp only [orEmpty, withRegistry]
          split
          · rw [Option.map_map]
            rfl
          · rfl
        · rfl

/-! ## Steps -/

theorem step_behind {label : IterOrder × Event} : (h.behind q).step P label = (h.step P label).map (behind q) := by
  obtain ⟨o, e⟩ := label
  cases e with
  | handle cmd buf clientId epollFd =>
    simp only [step, handle_behind, Option.map_map]
    rfl
  | serveBacklogList => exact congrArg some (apply_behind fun _ => serveBacklogList_inSession h)
  | serveBacklogStream => exact congrArg some (apply_behind fun _ => serveBacklogStream_inSession h)
  | expire =>
    have hfires : (h.behind q).fires = h.fires := rfl
    simp only [step, hfires]
    split
    · exact map_behind_only (h := h.disarm) fun _ => callbackDeadlineExpire_inSession h.disarm
    · rfl
  | process => rfl

theorem run_behind {labels : List (IterOrder × Event)} (hr : Run (Steps P) h labels h') :
    Run (Steps P) (h.behind q) labels (h'.behind q) := by
  induction hr with
  | nil => exact .nil
  | @cons h label g labels h' hs _ ih =>
    have hstep : Steps P (h.behind q) label (g.behind q) := by
      rw [Steps, step_behind, hs]
      rfl
    exact .cons hstep ih

end

end CmdHandler

end Redis
