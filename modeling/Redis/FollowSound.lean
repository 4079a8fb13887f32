import Redis.Admission
import Redis.SameWrites
import Redis.Unblocked
import Redis.Wire
import Redis.Words

/-!
# A replica follows its master

What a master ships to a slave is taken up one message after the other, while
the master goes on. A write does the same on the same content, so the replica
always has what the master had between two of its calls; and it has what the
master has once nothing is under way.
-/

namespace Redis

open Lib RequestRegistry

theorem wellFormed_getAck : CmdHandler.getAck.WellFormed := by
  have hwords : (RespType.arrayOf (["REPLCONF", "GETACK", "*"].map .bulk)).WellFormed :=
    wellFormed_bulks (by simp) (by decide) (by decide)
  exact hwords

namespace CmdHandler

structure Follows (m : Nat) (h : CmdHandler) : Prop where
  table : h.clientTable.master = some m
  lists : h.registry.backlogList = ∅

/-- A write is what its frame says, and neither reads the clock nor blocks nor
changes a key unnoticed. -/
structure Call.Repeats (P : Platform) (c : Call) : Prop where
  frame : c.cmd.toBeBroadcast = true → ∃ t, t.WellFormed ∧ t.serialize = some c.buf ∧ Cmd.fromResp P t = .ok (.ok c.cmd)
  untimed : ¬ Timed c.cmd
  blocks : ∀ key timeoutMs, c.cmd ≠ .blpop key timeoutMs
  escapes : ¬ Escapes P c.before.data c.cmd

section
variable {P : Platform} {o : IterOrder} {m clientId now : Nat} {epollFd : Option Int} {h h' : CmdHandler}

/-! ## The master -/

theorem calls_buf {cmd : Cmd} {buf : Bytes} {fd : Int} {c : Call} (hclosed : h.registry.isTransaction clientId = false)
    (hc : c ∈ h.calls P (o, .handle (.ok cmd) buf clientId fd)) : c.buf = buf := by
  simp only [calls, hclosed, Bool.not_false, if_true] at hc
  exact (callOf_asked (Option.mem_toList.mp hc)).2.1

def Links (data : Data) (c : Call) (data' : Data) : Prop := c.before.data = data ∧ c.after.data = data'

theorem Call.Made.unsent {c : Call} (hm : Call.Made P o c) (hescapes : ¬ Escapes P c.before.data c.cmd)
    (hframes : c.frames = []) : Data.Same c.before.data c.after.data := by
  obtain ⟨_, _, exec, s, d, fd, ser, out, _, _, hexec, hd, hc⟩ := hm
  intro key
  rw [conclude_data hc]
  by_contra hne
  obtain ⟨_, hlogged⟩ := (dispatch_effect hexec hd).data key (Ne.symm hne)
  obtain ⟨hkind, resp, hresp⟩ := hlogged hescapes
  unfold Call.frames at hframes
  rw [hresp] at hframes
  simp [hkind] at hframes

/-- A call sends one message at most: GETACK, or its own frame. -/
theorem Call.sent_cases (c : Call) :
    c.sent = [] ∧ c.frames = [] ∨ c.sent = [getAck.frame] ∧ c.frames = [] ∨
      ∃ resp, c.sent = [c.buf] ∧ c.cmd.toBeBroadcast = true ∧ c.result = .ok (some resp) := by
  unfold Call.sent Call.frames asked
  cases hr : c.result with
  | error e => exact .inl ⟨rfl, rfl⟩
  | ok r =>
    cases r with
    | none =>
      cases c.cmd with
      | wait => exact .inr (.inl ⟨rfl, rfl⟩)
      | _ => exact .inl ⟨rfl, rfl⟩
    | some resp =>
      by_cases hkind : c.cmd.toBeBroadcast = true
      · refine .inr (.inr ⟨resp, ?_, hkind, rfl⟩)
        simp [hkind]
      · refine .inl ?_
        simp [hkind]

theorem step_links {label : IterOrder × Event} (hs : Steps P h label h') (hrepeats : ∀ c ∈ h.calls P label, c.Repeats P)
    (hno : h.registry.backlogList = ∅) : Run Links h.data (h.calls P label) h'.data ∧ h'.registry.backlogList = ∅ :=
  step_chain hs (fun c hc => (hrepeats c hc).blocks) (fun _ _ _ => ⟨rfl, rfl⟩) hno

theorem step_made {label : IterOrder × Event} (hs : Steps P h label h') : ∀ c ∈ h.calls P label,
    Call.Made P label.1 c := by
  refine step_calls_only (I := fun _ cs => ∀ c ∈ cs, Call.Made P label.1 c) hs (fun _ _ _ hg => hg)
    (fun _ _ _ hg => hg) (fun c cs _ hm hg => ?_) (fun _ hg => hg) (fun c hc => by cases hc)
  intro d hd
  rcases List.mem_append.mp hd with hd | hd
  · exact hg d hd
  · rw [List.mem_singleton.mp hd]
    exact hm

/-! ## The clients of the replica -/

/-- What a call that writes nothing keeps. -/
theorem Call.Made.reads {c : Call} (hm : Call.Made P o c) (hreads : c.cmd.target = none) (hf : Follows m c.before) :
    Follows m c.after ∧ Data.Same c.before.data c.after.data := by
  have hblocks : ∀ key timeoutMs, c.cmd ≠ .blpop key timeoutMs := by
    intro key timeoutMs heq
    rw [heq] at hreads
    cases hreads
  have hlists := hm.noLists hblocks hf.lists
  have hdata : Data.Same c.before.data c.after.data := fun key => (hm.elsewhere (by rw [hreads]; simp)).symm
  obtain ⟨_, _, exec, s, d, fd, ser, out, _, _, hexec, hd, hc⟩ := hm
  have hmaster := (dispatch_effect hexec hd).master
  obtain ⟨_, _, _, _, _, _, hafter⟩ := conclude_frame hc
  refine ⟨⟨?_, hlists⟩, hdata⟩
  rw [hafter]
  exact hmaster.trans hf.table

structure Aside (P : Platform) (m : Nat) (h : CmdHandler) (label : IterOrder × Event) : Prop where
  others : ∀ cmd buf id fd, label.2 = .handle cmd buf id fd → id ≠ m
  reads : ∀ c ∈ h.calls P label, c.cmd.target = none
  stays : ∀ clientTable appStates auth, label.2 = .process clientTable appStates auth →
    clientTable.master = some m ∧ m ∈ auth.clients

theorem Follows.step {label : IterOrder × Event} (hs : Steps P h label h') (haside : Aside P m h label)
    (hf : Follows m h) : Follows m h' ∧ Data.Same h.data h'.data := by
  have hstart : Follows m h ∧ Data.Same h.data h.data := ⟨hf, .refl _⟩
  refine step_calls_only (I := fun g _ => Follows m g ∧ Data.Same h.data g.data) hs ?_ ?_ ?_ ?_ hstart
  · exact fun g t cs hg => ⟨⟨hg.1.table, hg.1.lists⟩, hg.2⟩
  · exact fun g clientId cs hg => ⟨⟨hg.1.table, hg.1.lists⟩, hg.2⟩
  · intro c cs hc hm hg
    obtain ⟨hafter, hdata⟩ := hm.reads (haside.reads c hc) hg.1
    exact ⟨hafter, hg.2.trans hdata⟩
  · intro hhandle hg
    obtain ⟨o, e⟩ := label
    obtain ⟨hdata, hlists⟩ := step_idle hs hhandle hg.1.lists
    refine ⟨?_, by rw [hdata]; exact hg.2⟩
    by_cases hprocess : ∃ clientTable appStates auth, e = .process clientTable appStates auth
    · obtain ⟨clientTable, appStates, auth, rfl⟩ := hprocess
      have hmaster := (haside.stays _ _ _ rfl).1
      cases hs
      exact ⟨hmaster, hlists⟩
    · obtain ⟨_, _, _, _, _, rfl⟩ := step_frame hs hhandle fun ct as au heq => hprocess ⟨ct, as, au, heq⟩
      exact ⟨hg.1.table, hlists⟩

end

end CmdHandler

namespace Replica

open CmdHandler Server Data

structure Following (m : Nat) (r : Replica) : Prop where
  status : r.link.replState.status = some .master
  established : r.link.handshakeState = .established
  follows : Follows m r.handler
  admitted : Admitted m r.handler

section
variable {P : Platform} {o : IterOrder} {m : Nat} {fd : Int} {r r' : Replica} {t : RespType} {cmd : Cmd} {raw : Bytes}

/-! ## What comes from the master -/

theorem Following.execute_eq (hf : Following m r) (cmd : Cmd) (buf : Bytes) :
    r.handler.execute P o cmd buf m fd =
      (dispatch P o (cmdExec P o) (r.handler.prepared cmd r.handler.appStates) r.handler.registry.timer.now false m
        (some fd) cmd).bind fun x => x.1.conclude o cmd buf true true x.2 := by
  have hmaster : r.handler.clientTable.isMaster m = true := decide_eq_true hf.follows.table
  rw [hf.admitted.execute_eq (by rw [hmaster, Bool.not_true, Bool.and_false]), hmaster]

theorem Following.step_frame (hf : Following m r) (ht : t.serialize = some raw)
    (hcmd : Cmd.fromResp P t = .ok (.ok cmd))
    (hrdb : ∀ b, cmd ≠ .rdb b) :
    r.step P m fd (.frame o t) = (r.handler.execute P o cmd raw m fd).map fun x =>
      ({ r with handler := x.1 }, (outputOf x.2).extractBytes.getD []) := by
  have hauth : r.handler.auth.checkAuth m = true := decide_eq_true hf.admitted.auth
  have hreturned : (r.handler.handle P o (.ok cmd) raw m fd).map (fun x => (x.1, returned x.2)) =
      (r.handler.execute P o cmd raw m fd).map fun x => (x.1, (outputOf x.2).extractBytes.getD []) :=
    hf.admitted.handle_returned
  have hmapped := congrArg (Option.map fun x => ({ r with handler := x.1 }, x.2)) hreturned
  simp only [Option.map_map] at hmapped
  simp only [step, TcpClient.respond, ht, hcmd]
  rw [if_neg (by rw [hauth]; simp), hf.status]
  simp only
  rw [handshakeToMaster_established hf.established hrdb]
  simp only [Option.map_map]
  exact hmapped

/-- A command that leaves all but the key space is concluded. -/
theorem Following.concluded {data : Data} {x : CmdResult} {h' : CmdHandler} {out : Except CmdOutput CmdOutput}
    (hf : Following m r)
    (hc : conclude o { r.handler.prepared cmd r.handler.appStates with data } cmd raw true true x = some (h', out)) :
    Following m { r with handler := h' } ∧ h'.data = data := by
  obtain ⟨_, _, _, _, _, _, rfl⟩ := conclude_frame hc
  exact ⟨⟨hf.status, hf.established, ⟨hf.follows.table, hf.follows.lists⟩,
    ⟨hf.admitted.auth, hf.admitted.idle, hf.admitted.allowed⟩⟩, rfl⟩

/-- A write of the master is done again, and nothing is sent back. -/
theorem Following.write (hf : Following m r) {c : Call} {o' : IterOrder} (hm : Call.Made P o' c)
    (hrepeats : c.Repeats P)
    (hkind : c.cmd.toBeBroadcast = true) {resp : RespType} (hresp : c.result = .ok (some resp))
    (hsame : Same c.before.data r.handler.data) : ∃ t r', Yields false c.buf t [] ∧
      r.step P m fd (.frame o t) = some (r', []) ∧ Following m r' ∧ Same c.after.data r'.handler.data := by
  obtain ⟨t, hwell, hserialize, hcmd⟩ := hrepeats.frame hkind
  obtain ⟨_, _, exec, s, d, fd', ser, out, _, _, hexec, hd, hc⟩ := hm
  have hrdb : ∀ b, c.cmd ≠ .rdb b := by
    intro b heq
    rw [heq] at hkind
    cases hkind
  have hprepared : Same (c.before.prepared c.cmd s).data (r.handler.prepared c.cmd r.handler.appStates).data := hsame
  have hagain : ∃ data, Same d.data data ∧ dispatch P o (cmdExec P o) (r.handler.prepared c.cmd r.handler.appStates)
      r.handler.registry.timer.now false m (some fd) c.cmd =
        some ({ r.handler.prepared c.cmd r.handler.appStates with data }, c.result) :=
    dispatch_same hprepared hkind hrepeats.untimed hrepeats.blocks hd
  obtain ⟨data, hdata, hd'⟩ := hagain
  have hsilent : (!true || c.cmd.alwaysResponse) = false := by
    cases hcase : c.cmd <;> rw [hcase] at hkind <;> first | rfl | cases hkind
  have hconclude : ∃ h', conclude o { r.handler.prepared c.cmd r.handler.appStates with data } c.cmd c.buf true true
      c.result = some (h', .ok .none) := by
    rw [hresp]
    simp only [conclude, hsilent, Bool.false_eq_true, if_false]
    exact ⟨_, rfl⟩
  obtain ⟨h', hc'⟩ := hconclude
  obtain ⟨hfollowing, hafter⟩ := hf.concluded hc'
  refine ⟨t, { r with handler := h' }, hwell.yieldsAlone hserialize, ?_, hfollowing, ?_⟩
  · rw [hf.step_frame hserialize hcmd hrdb, hf.execute_eq, hd', Option.bind_some, hc']
    rfl
  · rw [conclude_data hc, hafter]
    exact hdata

/-- GETACK leaves the key space. -/
theorem Following.asked (hf : Following m r) : ∃ r' reply,
    r.step P m fd (.frame o getAck) = some (r', reply) ∧ Following m r' ∧ r'.handler.data = r.handler.data := by
  have hdispatch : ∃ x, dispatch P o (cmdExec P o) (r.handler.prepared (.replconf (.getAck "*")) r.handler.appStates)
      r.handler.registry.timer.now false m (some fd) (.replconf (.getAck "*")) =
        some (r.handler.prepared (.replconf (.getAck "*")) r.handler.appStates, x) ∧
      ∀ u, x = .ok (some u) → ∃ b, u.serialize = some b := by
    simp only [dispatch, cmdReplconf, if_true]
    cases (r.handler.prepared (.replconf (.getAck "*")) r.handler.appStates).appStates.hostStats with
    | none => exact ⟨_, rfl, fun u hu => by cases hu⟩
    | some stats =>
      refine ⟨_, rfl, fun u hu => ?_⟩
      cases hu
      exact ⟨_, rfl⟩
  obtain ⟨x, hd, hserialize⟩ := hdispatch
  have hconclude : ∃ h' out, conclude o { r.handler.prepared (.replconf (.getAck "*")) r.handler.appStates with
      data := r.handler.data } (.replconf (.getAck "*")) getAck.frame true true x = some (h', out) := by
    cases x with
    | error e => exact ⟨_, _, rfl⟩
    | ok x =>
      cases x with
      | none => exact ⟨_, _, rfl⟩
      | some u =>
        obtain ⟨b, hb⟩ := hserialize u rfl
        simp only [conclude, hb, if_true]
        exact ⟨_, _, rfl⟩
  obtain ⟨h', out, hc⟩ := hconclude
  obtain ⟨hfollowing, hafter⟩ := hf.concluded hc
  have hc' : conclude o (r.handler.prepared (.replconf (.getAck "*")) r.handler.appStates) (.replconf (.getAck "*"))
      getAck.frame true true x = some (h', out) := hc
  refine ⟨{ r with handler := h' }, (outputOf out).extractBytes.getD [], ?_, hfollowing, hafter⟩
  rw [hf.step_frame wellFormed_getAck.serialize Cmd.fromResp_getAck (by simp), hf.execute_eq, hd, Option.bind_some, hc']
  rfl

/-- The clients of the replica leave the key space if they do not write. -/
theorem Following.other {label : IterOrder × CmdHandler.Event} (hf : Following m r) (haside : Aside P m r.handler label)
    (hs : Steps P m fd r (.other label) r') : Following m r' ∧ Same r.handler.data r'.handler.data := by
  obtain ⟨reply, hstep⟩ := hs
  obtain ⟨h', hh, heq⟩ := Option.map_eq_some_iff.mp hstep
  cases heq
  obtain ⟨hfollows, hdata⟩ := hf.follows.step hh haside
  have hadmitted := hf.admitted.step hh haside.others fun _ _ _ heq => (haside.stays _ _ _ heq).2
  exact ⟨⟨hf.status, hf.established, hfollows, hadmitted⟩, hdata⟩

end

end Replica

/-- A master, a replica that is its client `s`, and how many of the messages to it
the replica has taken up. -/
structure Feed where
  master : CmdHandler
  replica : Replica
  taken : Nat

namespace Feed

open CmdHandler Data

inductive Event where
  | master (label : IterOrder × CmdHandler.Event)
  /-- The next message reaches the replica. -/
  | deliver (o : IterOrder)
  | replica (label : IterOrder × CmdHandler.Event)

inductive Steps (P : Platform) (s m : Nat) (fd : Int) (f : Feed) : Event → Feed → Prop
  | master {label h'} : f.master.Steps P label h' → Steps P s m fd f (.master label) { f with master := h' }
  | deliver {o message t r' reply} : (f.master.messagesTo s)[f.taken]? = some message → Yields false message t [] →
    f.replica.step P m fd (.frame o t) = some (r', reply) →
    Steps P s m fd f (.deliver o) { f with replica := r', taken := f.taken + 1 }
  | replica {label r'} : f.replica.Steps P m fd (.other label) r' →
    Steps P s m fd f (.replica label) { f with replica := r' }

/-- The two stay connected, the calls of the master can be repeated, and the
clients of the replica do not write. -/
structure Kept (P : Platform) (s m : Nat) (f : Feed) (e : Event) : Prop where
  serves : ∀ label, e = .master label → Serves P s f.master label
  repeats : ∀ label, e = .master label → ∀ c ∈ f.master.calls P label, c.Repeats P
  aside : ∀ label, e = .replica label → Aside P m f.replica.handler label

/-- The replica starts with what the master has, and nothing under way. -/
structure Attached (s m : Nat) (f : Feed) : Prop where
  apart : Apart s f.master
  lists : f.master.registry.backlogList = ∅
  following : f.replica.Following m
  same : Same f.master.data f.replica.handler.data
  taken : f.taken = (f.master.messagesTo s).length

def masterLabels (es : List Event) : List (IterOrder × CmdHandler.Event) :=
  es.filterMap fun
    | .master label => some label
    | _ => none

/-- The calls of the master are those the replica has taken up, `pre`, and those
whose messages are under way, `post`. Between the two the master had what the
replica has. -/
structure Splits (P : Platform) (s m : Nat) (start : Data) (pre post : List Call) (f : Feed) : Prop where
  apart : Apart s f.master
  lists : f.master.registry.backlogList = ∅
  following : f.replica.Following m
  repeats : ∀ c ∈ post, (∃ o, Call.Made P o c) ∧ c.Repeats P
  reached : ∃ data, Run Links start pre data ∧ Same data f.replica.handler.data ∧ Run Links data post f.master.data
  under : (f.master.messagesTo s).drop f.taken = post.flatMap Call.sent
  taken : f.taken ≤ (f.master.messagesTo s).length

section
variable {P : Platform} {s m : Nat} {fd : Int} {f f' : Feed} {start data data' : Data} {pre post : List Call}

/-! ## What is under way -/

theorem first_sent {message : Bytes} {rest : List Bytes} (h : post.flatMap Call.sent = message :: rest) :
    ∃ silent c later, post = silent ++ c :: later ∧ (∀ x ∈ silent, x.sent = []) ∧ c.sent = [message] ∧
      later.flatMap Call.sent = rest := by
  induction post with
  | nil => cases h
  | cons c post ih =>
    rw [List.flatMap_cons] at h
    have hone : ∀ own, c.sent = [own] → ∃ silent d later, c :: post = silent ++ d :: later ∧
        (∀ x ∈ silent, x.sent = []) ∧ d.sent = [message] ∧ later.flatMap Call.sent = rest := by
      intro own hown
      rw [hown, List.singleton_append, List.cons.injEq] at h
      refine ⟨[], c, post, rfl, fun x hx => (by cases hx), ?_, h.2⟩
      rw [hown, h.1]
    rcases c.sent_cases with ⟨hnil, _⟩ | ⟨hown, _⟩ | ⟨_, hown, _⟩
    · rw [hnil, List.nil_append] at h
      obtain ⟨silent, d, later, rfl, hsilent, hd, hlater⟩ := ih h
      refine ⟨c :: silent, d, later, rfl, fun x hx => ?_, hd, hlater⟩
      rcases List.mem_cons.mp hx with rfl | hx
      · exact hnil
      · exact hsilent x hx
    · exact hone _ hown
    · exact hone _ hown

/-- Calls that send nothing leave the key space. -/
theorem silent_same (hr : Run Links data post data') (hrepeats : ∀ c ∈ post, (∃ o, Call.Made P o c) ∧ c.Repeats P)
    (hsilent : ∀ c ∈ post, c.frames = []) : Same data data' := by
  induction hr with
  | nil => exact .refl _
  | @cons _ c _ _ _ hlink _ ih =>
    obtain ⟨rfl, rfl⟩ := hlink
    obtain ⟨⟨o, hm⟩, hc⟩ := hrepeats c (List.mem_cons_self ..)
    have hfirst := hm.unsent hc.escapes (hsilent c (List.mem_cons_self ..))
    exact hfirst.trans (ih (fun d hd => hrepeats d (List.mem_cons_of_mem _ hd))
      fun d hd => hsilent d (List.mem_cons_of_mem _ hd))

theorem frames_nil {c : Call} (h : c.sent = []) : c.frames = [] := (List.append_eq_nil_iff.mp h).2

theorem Splits.deliver (hs : Splits P s m start pre post f) (o : IterOrder) {message : Bytes}
    (hmessage : (f.master.messagesTo s)[f.taken]? = some message) : ∃ t r' reply pre' post', Yields false message t [] ∧
      f.replica.step P m fd (.frame o t) = some (r', reply) ∧ pre ++ post = pre' ++ post' ∧
      Splits P s m start pre' post' { f with replica := r', taken := f.taken + 1 } := by
  obtain ⟨hlt, hget⟩ := List.getElem?_eq_some_iff.mp hmessage
  have hunder := hs.under
  rw [List.drop_eq_getElem_cons hlt, hget] at hunder
  obtain ⟨silent, c, later, rfl, hsilent, hc, hlater⟩ := first_sent hunder.symm
  obtain ⟨data, hpre, hsame, hpost⟩ := hs.reached
  obtain ⟨data₁, hbefore, hfrom⟩ := hpost.split
  cases hfrom with
  | cons hlink hrest =>
    obtain ⟨rfl, rfl⟩ := hlink
    have hquiet : Same data c.before.data := silent_same hbefore (fun x hx => hs.repeats x (List.mem_append_left _ hx))
      fun x hx => frames_nil (hsilent x hx)
    have hcame : Same c.before.data f.replica.handler.data := hquiet.symm.trans hsame
    obtain ⟨⟨o', hm⟩, hrepeats⟩ := hs.repeats c (by simp)
    have hafter : ∃ t r' reply, Yields false message t [] ∧ f.replica.step P m fd (.frame o t) = some (r', reply) ∧
        r'.Following m ∧ Same c.after.data r'.handler.data := by
      rcases c.sent_cases with ⟨hnil, _⟩ | ⟨hask, hframes⟩ | ⟨resp, hown, hkind, hresp⟩
      · rw [hnil] at hc
        cases hc
      · rw [hask, List.cons.injEq] at hc
        have hasked : ∃ r' reply, f.replica.step P m fd (.frame o getAck) = some (r', reply) ∧ r'.Following m ∧
            r'.handler.data = f.replica.handler.data := hs.following.asked
        obtain ⟨r', reply, hstep, hfollowing, hdata⟩ := hasked
        refine ⟨getAck, r', reply, ?_, hstep, hfollowing, ?_⟩
        · rw [← hc.1]
          exact wellFormed_getAck.yieldsAlone wellFormed_getAck.serialize
        · rw [hdata]
          exact (hm.unsent hrepeats.escapes hframes).symm.trans hcame
      · rw [hown, List.cons.injEq] at hc
        rw [← hc.1]
        obtain ⟨t, r', hreads, hstep, hfollowing, hdata⟩ := hs.following.write hm hrepeats hkind hresp hcame
        exact ⟨t, r', [], hreads, hstep, hfollowing, hdata⟩
    obtain ⟨t, r', reply, hreads, hstep, hfollowing, hdata⟩ := hafter
    have htaken : Run Links start (pre ++ (silent ++ [c])) c.after.data :=
      hpre.append (hbefore.append (.cons ⟨rfl, rfl⟩ .nil))
    refine ⟨t, r', reply, pre ++ (silent ++ [c]), later, hreads, hstep, by simp, ?_⟩
    exact ⟨hs.apart, hs.lists, hfollowing, fun x hx => hs.repeats x (by simp [hx]), ⟨_, htaken, hdata, hrest⟩,
      hlater.symm, hlt⟩

/-! ## Runs -/

/-- The master goes on. -/
theorem Splits.master {label : IterOrder × CmdHandler.Event} {h' : CmdHandler} (hs : Splits P s m start pre post f)
    (hstep : f.master.Steps P label h') (hserves : Serves P s f.master label)
    (hrepeats : ∀ c ∈ f.master.calls P label, c.Repeats P) :
    Splits P s m start pre (post ++ f.master.calls P label) { f with master := h' } := by
  obtain ⟨happart, hmessages⟩ := step_ships hstep hserves hs.apart
  obtain ⟨hlinks, hlists⟩ := step_links hstep hrepeats hs.lists
  obtain ⟨data, hpre, hsame, hpost⟩ := hs.reached
  refine ⟨happart, hlists, hs.following, fun c hc => ?_, ⟨data, hpre, hsame, hpost.append hlinks⟩, ?_, ?_⟩
  · rcases List.mem_append.mp hc with hc | hc
    · exact hs.repeats c hc
    · exact ⟨⟨_, step_made hstep c hc⟩, hrepeats c hc⟩
  · rw [hmessages, List.drop_append_of_le_length hs.taken, hs.under, List.flatMap_append]
  · rw [hmessages, List.length_append]
    exact Nat.le_add_right_of_le hs.taken

theorem Splits.step {e : Event} (hs : Splits P s m start pre post f) (hkept : Kept P s m f e)
    (hstep : Steps P s m fd f e f') : ∃ pre' post', Splits P s m start pre' post' f' ∧
      pre' ++ post' = pre ++ post ++ runCalls P f.master (masterLabels [e]) := by
  cases hstep with
  | @master label h' hmaster =>
    have hcalls : runCalls P f.master (masterLabels [.master label]) = f.master.calls P label := by
      have hone : masterLabels [.master label] = [label] := rfl
      rw [hone, runCalls_cons hmaster]
      exact List.append_nil _
    refine ⟨pre, post ++ f.master.calls P label, hs.master hmaster (hkept.serves _ rfl) (hkept.repeats _ rfl), ?_⟩
    rw [hcalls, List.append_assoc]
  | @deliver o message t r' reply hmessage hreads hreplica =>
    have hnext : ∃ t r' reply pre' post', Yields false message t [] ∧
        f.replica.step P m fd (.frame o t) = some (r', reply) ∧
        pre ++ post = pre' ++ post' ∧ Splits P s m start pre' post' { f with replica := r', taken := f.taken + 1 } :=
      hs.deliver o hmessage
    obtain ⟨t', r'', reply', pre', post', hreads', hstep', hsame, hsplits⟩ := hnext
    rw [(hreads'.unique hreads).1, hreplica] at hstep'
    cases hstep'
    refine ⟨pre', post', hsplits, ?_⟩
    rw [hsame]
    exact (List.append_nil _).symm
  | @replica label r' hother =>
    obtain ⟨data, hpre, hsame, hpost⟩ := hs.reached
    obtain ⟨hfollowing, hdata⟩ := hs.following.other (hkept.aside _ rfl) hother
    refine ⟨pre, post, ⟨hs.apart, hs.lists, hfollowing, hs.repeats, ⟨data, hpre, hsame.trans hdata, hpost⟩, hs.under,
      hs.taken⟩, (List.append_nil _).symm⟩

theorem runCalls_step {e : Event} (hstep : Steps P s m fd f e f') (es : List Event) :
    runCalls P f.master (masterLabels (e :: es)) =
      runCalls P f.master (masterLabels [e]) ++ runCalls P f'.master (masterLabels es) := by
  cases hstep with
  | @master label h' hmaster =>
    have hone : masterLabels [.master label] = [label] := rfl
    have hmore : masterLabels (.master label :: es) = label :: masterLabels es := rfl
    rw [hone, hmore, runCalls_cons hmaster, runCalls_cons hmaster, List.append_assoc]
    rfl
  | deliver => rfl
  | replica => rfl

theorem run_splits {es : List Event} (hr : Run (guarded (Kept P s m) (Steps P s m fd)) f es f')
    (hs : Splits P s m start pre post f) : ∃ pre' post', Splits P s m start pre' post' f' ∧
      pre' ++ post' = pre ++ post ++ runCalls P f.master (masterLabels es) := by
  induction hr generalizing pre post with
  | nil => exact ⟨pre, post, hs, (List.append_nil _).symm⟩
  | @cons g e g' es u hstep _ ih =>
    obtain ⟨pre₁, post₁, hs₁, hmade₁⟩ := hs.step hstep.1 hstep.2
    obtain ⟨pre₂, post₂, hs₂, hmade₂⟩ := ih hs₁
    refine ⟨pre₂, post₂, hs₂, ?_⟩
    rw [hmade₂, hmade₁, List.append_assoc, ← runCalls_step hstep.2]

theorem Attached.splits (ha : Attached s m f) : Splits P s m f.master.data [] [] f := by
  refine ⟨ha.apart, ha.lists, ha.following, fun _ hc => (by cases hc), ⟨_, .nil, ha.same, .nil⟩, ?_, ha.taken.le⟩
  rw [ha.taken, List.drop_length]
  rfl

theorem Splits.caught_up (hs : Splits P s m start pre post f) (hall : f.taken = (f.master.messagesTo s).length) :
    Same f.master.data f.replica.handler.data := by
  obtain ⟨data, _, hsame, hpost⟩ := hs.reached
  have hnone : post.flatMap Call.sent = [] := by
    rw [← hs.under, hall, List.drop_length]
  have hquiet : Same data f.master.data := silent_same hpost hs.repeats fun c hc =>
    frames_nil (List.flatMap_eq_nil_iff.mp hnone c hc)
  exact hquiet.symm.trans hsame

/-- What is under way can be taken up, whatever it is; then the replica has what
the master has. -/
theorem Splits.drains (hs : Splits P s m start pre post f) (o : IterOrder) {n : Nat}
    (hn : f.taken + n = (f.master.messagesTo s).length) :
    ∃ f', Run (Steps P s m fd) f (List.replicate n (.deliver o)) f' ∧ f'.master = f.master ∧
      Same f.master.data f'.replica.handler.data := by
  induction n generalizing f pre post with
  | zero => exact ⟨f, .nil, rfl, hs.caught_up hn⟩
  | succ n ih =>
    have hlt : f.taken < (f.master.messagesTo s).length := by omega
    have hnext : ∃ t r' reply pre' post', Yields false (f.master.messagesTo s)[f.taken] t [] ∧
        f.replica.step P m fd (.frame o t) = some (r', reply) ∧ pre ++ post = pre' ++ post' ∧
        Splits P s m start pre' post' { f with replica := r', taken := f.taken + 1 } :=
      hs.deliver o (List.getElem?_eq_getElem hlt)
    obtain ⟨t, r', reply, pre', post', hreads, hstep, _, hs'⟩ := hnext
    obtain ⟨f', hr, hmaster, hsame⟩ := ih hs' (by simp only; omega)
    refine ⟨f', ?_, hmaster, hsame⟩
    rw [List.replicate_succ]
    exact .cons (.deliver (List.getElem?_eq_getElem hlt) hreads hstep) hr

/-- The replica has what the master had between two of its calls: after those whose
messages were taken up, and before those whose messages are under way. -/
theorem run_mirrors {es : List Event} (ha : Attached s m f)
    (hr : Run (guarded (Kept P s m) (Steps P s m fd)) f es f') :
    (∃ pre post data, runCalls P f.master (masterLabels es) = pre ++ post ∧ Run Links f.master.data pre data ∧
      Same data f'.replica.handler.data ∧ Run Links data post f'.master.data ∧
      (f'.master.messagesTo s).drop f'.taken = post.flatMap Call.sent) ∧
    (f'.taken = (f'.master.messagesTo s).length → Same f'.master.data f'.replica.handler.data) := by
  have hsplits : ∃ pre post, Splits P s m f.master.data pre post f' ∧
      pre ++ post = [] ++ [] ++ runCalls P f.master (masterLabels es) := run_splits hr ha.splits
  obtain ⟨pre, post, hs, hmade⟩ := hsplits
  obtain ⟨data, hpre, hsame, hpost⟩ := hs.reached
  exact ⟨⟨pre, post, data, hmade.symm, hpre, hsame, hpost, hs.under⟩, hs.caught_up⟩

/-- At any time the replica can catch up, and the master need not do anything for it. -/
theorem run_converges {es : List Event} (ha : Attached s m f)
    (hr : Run (guarded (Kept P s m) (Steps P s m fd)) f es f') (o : IterOrder) :
    ∃ f'', Run (Steps P s m fd) f' (List.replicate ((f'.master.messagesTo s).length - f'.taken) (.deliver o)) f'' ∧
      f''.master = f'.master ∧ Same f'.master.data f''.replica.handler.data := by
  have hsplits : ∃ pre post, Splits P s m f.master.data pre post f' ∧
      pre ++ post = [] ++ [] ++ runCalls P f.master (masterLabels es) := run_splits hr ha.splits
  obtain ⟨pre, post, hs, _⟩ := hsplits
  exact hs.drains o (Nat.add_sub_cancel' hs.taken)

end

/-! ### A concrete run -/

def pushFrame : RespType := .arrayOf (["RPUSH", "k", "a"].map .bulk)

def pushed : IterOrder × CmdHandler.Event := (.asIs, .handle (.ok (.rpush "k" ["a"])) pushFrame.frame 1 0)

def feed : Feed := { master := shipping, replica := Replica.attached, taken := 0 }

theorem feed_attached : Attached 7 9 feed :=
  ⟨shipping_apart (by decide), rfl, ⟨rfl, rfl, ⟨rfl, rfl⟩, ⟨by decide, rfl, by decide⟩⟩, fun _ => rfl, rfl⟩

theorem pushed_kept : Kept .blank 7 9 feed (.master pushed) := by
  have hwell : pushFrame.WellFormed := wellFormed_bulks (by simp) (by decide) (by decide)
  have hcall : ∀ c ∈ shipping.calls .blank pushed,
      c.before = shipping ∧ c.cmd = .rpush "k" ["a"] ∧ c.buf = pushFrame.frame ∧ c.clientId = 1 := by
    intro c hc
    obtain ⟨hbefore, hcmd⟩ := calls_direct (by simp) hc
    exact ⟨hbefore, hcmd, calls_buf rfl hc, calls_client hc⟩
  refine ⟨fun label heq => ?_, fun label heq => ?_, fun _ heq => (by cases heq)⟩
  · cases heq
    refine ⟨fun c hc hown => ?_, fun _ _ _ heq => (by cases heq)⟩
    rw [(hcall c hc).2.2.2] at hown
    cases hown
  · cases heq
    intro c hc
    obtain ⟨_, hcmd, hbuf, _⟩ := hcall c hc
    refine ⟨fun _ => ⟨pushFrame, hwell, ?_, ?_⟩, ?_, ?_, ?_⟩
    · rw [hbuf]
      exact hwell.serialize
    · rw [hcmd]
      rfl
    · rw [hcmd]
      exact id
    · rw [hcmd]
      exact fun _ _ h => by cases h
    · rw [hcmd]
      exact id

theorem run_mirrors_push : ∃ f', Run (guarded (Kept .blank 7 9) (Steps .blank 7 9 0)) feed
    [.master pushed, .deliver .asIs] f' ∧ Same f'.master.data f'.replica.handler.data := by
  have hpushed : shipping.Steps .blank pushed (play shipping [pushed]) := rfl
  have hmessages : (play shipping [pushed]).messagesTo 7 = [pushFrame.frame] := rfl
  have hafter : Splits .blank 7 9 shipping.data [] ([] ++ shipping.calls .blank pushed)
      { feed with master := play shipping [pushed] } :=
    feed_attached.splits.master hpushed (pushed_kept.serves _ rfl) (pushed_kept.repeats _ rfl)
  have hfirst : ((play shipping [pushed]).messagesTo 7)[0]? = some pushFrame.frame := by rw [hmessages]; rfl
  have hnext : ∃ t r' reply pre' post', Yields false pushFrame.frame t [] ∧
      Replica.attached.step .blank 9 0 (.frame .asIs t) = some (r', reply) ∧
      [] ++ ([] ++ shipping.calls .blank pushed) = pre' ++ post' ∧
      Splits .blank 7 9 shipping.data pre' post' ⟨play shipping [pushed], r', 1⟩ := hafter.deliver .asIs hfirst
  obtain ⟨t, r', reply, _, _, hreads, hstep, _, _⟩ := hnext
  have hdelivered : Kept .blank 7 9 { feed with master := play shipping [pushed] } (.deliver .asIs) :=
    ⟨fun _ heq => (by cases heq), fun _ heq => (by cases heq), fun _ heq => (by cases heq)⟩
  have hr : Run (guarded (Kept .blank 7 9) (Steps .blank 7 9 0)) feed [.master pushed, .deliver .asIs]
      ⟨play shipping [pushed], r', 1⟩ :=
    .cons ⟨pushed_kept, .master hpushed⟩ (.cons ⟨hdelivered, .deliver hfirst hreads hstep⟩ .nil)
  refine ⟨_, hr, (run_mirrors feed_attached hr).2 ?_⟩
  rw [hmessages]
  rfl

theorem run_converges_push : ∃ f', Run (Steps .blank 7 9 0) { feed with master := play shipping [pushed] }
    [.deliver .asIs] f' ∧ Same (play shipping [pushed]).data f'.replica.handler.data := by
  have hmessages : (play shipping [pushed]).messagesTo 7 = [pushFrame.frame] := rfl
  have hr : Run (guarded (Kept .blank 7 9) (Steps .blank 7 9 0)) feed [.master pushed]
      { feed with master := play shipping [pushed] } := .cons ⟨pushed_kept, .master rfl⟩ .nil
  obtain ⟨f', hdelivered, _, hsame⟩ := run_converges feed_attached hr .asIs
  rw [hmessages] at hdelivered
  exact ⟨f', hdelivered, hsame⟩

end Feed

end Redis
