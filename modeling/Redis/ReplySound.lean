import Redis.Replies

/-!
# One frame a reply

What `handle` returns is empty or one value of the protocol when each command it
executes is clean: the key it refuses holds no CRLF, and it is no LRANGE that
announces an item of an empty list. Outside a transaction the converse holds,
so the two exceptions are exact.
-/

namespace Redis

open Lib

namespace CmdHandler

def OneFrame (b : Bytes) : Prop := b = [] ∨ Frame b

/-- No text of the client and no wrong count gets into the reply. A master is
not answered, unless with an error. -/
def Clean (h : CmdHandler) (clientId : Nat) (cmd : Cmd) : Prop :=
  h.refuses clientId cmd = true ∨
    (∀ key, refusedKey h.data cmd = some key → ¬ delimiter <:+: utf8 key) ∧
      (ShortRange h.data cmd → h.clientTable.isMaster clientId = true) ∧ ¬ Streams cmd

section
variable {P : Platform} {o : IterOrder} {h h' : CmdHandler} {clientId : Nat} {cmd : Cmd}

/-! ## Errors -/

theorem framed_subscriberError : (subscriberError cmd).Framed := by
  have hname : (utf8 (String.ofList (cmd.getName.toList.map Char.toLower))).all (· != 13) = true := by
    cases cmd <;> simp only [Cmd.getName] <;> rfl
  apply CustomError.framed_text rfl
  simp only [utf8_append, List.all_append, hname, Bool.and_true]
  rfl

theorem intoErrorBytes_framed {e : CustomError} (he : e.Framed) : Frame e.intoErrorBytes := by
  obtain ⟨b, hb, hf⟩ := RespType.Framed.serialize he
  rw [CustomError.intoErrorBytes, hb]
  exact hf

theorem intoErrorBytes_ne_nil (e : CustomError) : e.intoErrorBytes ≠ [] := by
  cases e <;> simp [CustomError.intoErrorBytes, CustomError.intoResp, RespType.serialize, delimiter]

theorem crlf_unsupported (key : String) : crlf <:+: utf8 ("Unsupported command " ++ key) ↔ crlf <:+: utf8 key := by
  rw [utf8_append]
  constructor
  · intro hi
    exact crlf_infix_append rfl hi
  · intro hi
    exact hi.trans (List.suffix_append ..).isInfix

theorem framed_unsupported {key : String} : (unsupported key).Framed ↔ ¬ delimiter <:+: utf8 key := by
  rw [CustomError.Framed, unsupported, CustomError.intoResp, RespType.Framed]
  exact not_congr (crlf_unsupported key)

theorem frame_unsupported_iff {key : String} : Frame (unsupported key).intoErrorBytes ↔ ¬ delimiter <:+: utf8 key := by
  constructor
  · intro hf
    have hb : (unsupported key).intoErrorBytes = 45 :: (utf8 ("Unsupported command " ++ key) ++ crlf) := by
      rw [CustomError.intoErrorBytes, unsupported, CustomError.intoResp, RespType.serialize, RespType.getPrefix,
        show utf8 "-" = [45] by decide]
      rfl
    rw [hb] at hf
    exact fun hi => hf.of_error ((crlf_unsupported key).mpr hi)
  · exact fun hk => intoErrorBytes_framed (framed_unsupported.mpr hk)

/-! ## One command -/

theorem shortRange_alwaysResponse {data : Data} (hs : ShortRange data cmd) : cmd.alwaysResponse = false := by
  cases cmd <;> first | rfl | exact hs.elim

theorem refusedKey_some_range {data : Data} {key : String} (hk : refusedKey data cmd = some key) :
    ¬ ShortRange data cmd := by
  intro hs
  cases cmd with
  | lrange =>
    obtain ⟨⟨x, hx⟩, -⟩ := hs
    simp [refusedKey, holdsOther_some hx, isListValue] at hk
  | _ => exact hs

theorem conclude_answers (hP : PrintsPlain P) {d : CmdHandler} {buf : Bytes} {isMaster : Bool} {r : CmdResult}
    {out : Except CmdOutput CmdOutput}
    (hr : Replies P h clientId cmd r) (hmaster : h.clientTable.isMaster clientId = isMaster)
    (hclean : (∀ key, refusedKey h.data cmd = some key → ¬ delimiter <:+: utf8 key) ∧
      (ShortRange h.data cmd → h.clientTable.isMaster clientId = true) ∧ ¬ Streams cmd)
    (hc : d.conclude o cmd buf isMaster false r = some (h', out)) : ∀ t ∈ (outputOf out).extractResp, t.Framed := by
  obtain ⟨hkey, hshort, hstream⟩ := hclean
  cases hr with
  | @frame t ht =>
    simp only [conclude] at hc
    split at hc
    · cases hc
      simpa [outputOf, CmdOutput.extractResp] using ht
    · cases hc
      simp [outputOf, CmdOutput.extractResp]
  | short hs =>
    have hm := hshort hs
    rw [hmaster] at hm
    simp only [conclude, hm, shortRange_alwaysResponse hs] at hc
    cases hc
    simp [outputOf, CmdOutput.extractResp]
  | stream hs => exact absurd hs hstream
  | refused hk =>
    cases hc
    have : (unsupported _).Framed := framed_unsupported.mpr (hkey _ hk)
    simpa [outputOf, CmdOutput.extractResp, CustomError.Framed] using this
  | failed he =>
    cases hc
    simpa [outputOf, CmdOutput.extractResp, CustomError.Framed] using he hP
  | nothing =>
    cases hc
    simp [outputOf, CmdOutput.extractResp]

theorem conclude_oneFrame (hP : PrintsPlain P) {d : CmdHandler} {buf : Bytes} {isMaster : Bool} {r : CmdResult}
    {out : Except CmdOutput CmdOutput} (hr : Replies P h clientId cmd r)
    (hmaster : h.clientTable.isMaster clientId = isMaster) (hstream : ¬ Streams cmd)
    (hc : d.conclude o cmd buf isMaster true r = some (h', out)) :
    OneFrame ((outputOf out).extractBytes.getD []) ↔
      (∀ key, refusedKey h.data cmd = some key → ¬ delimiter <:+: utf8 key) ∧
        (ShortRange h.data cmd → h.clientTable.isMaster clientId = true) ∧ ¬ Streams cmd := by
  cases hr with
  | @frame t ht hkey hshort =>
    obtain ⟨b, hb, hf⟩ := ht.serialize
    have hright : OneFrame ((outputOf out).extractBytes.getD []) := by
      simp only [conclude, hb, Option.map_some] at hc
      split at hc
      · cases hc
        exact .inr hf
      · cases hc
        exact .inl rfl
    exact ⟨fun _ => ⟨by simp [hkey], fun hs => absurd hs hshort, hstream⟩, fun _ => hright⟩
  | short hs =>
    rw [hmaster]
    simp only [conclude, shortRange_alwaysResponse hs] at hc
    cases isMaster with
    | true =>
      cases hc
      refine ⟨fun _ => ⟨fun key hk => absurd hs (refusedKey_some_range hk), fun _ => rfl, hstream⟩, fun _ => .inl rfl⟩
    | false =>
      cases hc
      refine ⟨?_, fun hno => by cases hno.2.1 hs⟩
      rintro (hnil | hf)
      · cases hnil
      · exact absurd hf (not_frame_empty (n := 1) (by decide))
  | stream hs => exact absurd hs hstream
  | @refused key hk hshort =>
    cases hc
    constructor
    · rintro (hnil | hf)
      · exact absurd hnil (intoErrorBytes_ne_nil (unsupported key))
      · refine ⟨fun key' hk' => ?_, fun hs => absurd hs hshort, hstream⟩
        rw [hk] at hk'
        cases hk'
        exact frame_unsupported_iff.mp hf
    · intro hno
      exact .inr (frame_unsupported_iff.mpr (hno.1 key hk))
  | @failed e he hkey hshort =>
    cases hc
    exact ⟨fun _ => ⟨by simp [hkey], fun hs => absurd hs hshort, hstream⟩,
      fun _ => .inr (intoErrorBytes_framed (he hP))⟩
  | nothing hno hkey =>
    cases hc
    refine ⟨fun _ => ⟨by simp [hkey], fun hs => absurd hs ?_, hstream⟩, fun _ => .inl rfl⟩
    intro hs
    cases cmd with
    | lrange => exact hno.elim id id
    | _ => exact hs

theorem prepare_replies {prepared : CmdHandler} {buf : Bytes} {isMaster : Bool} {r : CmdResult}
    (hp : h.prepare cmd buf isMaster = some prepared) (hr : Replies P prepared clientId cmd r) :
    Replies P h clientId cmd r := by
  obtain ⟨s, -, rfl⟩ := prepare_frame hp
  cases hr with
  | frame ht hkey hshort hsilent => exact .frame ht hkey hshort hsilent
  | short hs => exact .short hs
  | stream hs hb => exact .stream hs hb
  | refused hk hshort => exact .refused hk hshort
  | failed he hkey hshort hsilent => exact .failed he hkey hshort hsilent
  | nothing hno hkey => exact .nothing hno hkey

theorem cmdExec_replies (htxn : h.registry.isTransaction clientId = false) {g : CmdHandler} {r : CmdResult}
    (he : cmdExec P o h clientId = some (g, r)) : Replies P h clientId .exec r := by
  have hl : h.registry.backlogTxn.lookup clientId = none :=
    AList.lookup_eq_none.mpr (by simpa [RequestRegistry.isTransaction] using htxn)
  unfold cmdExec at he
  rw [hl] at he
  cases he
  exact .failed (fun _ => CustomError.framed_text rfl rfl) rfl id id

theorem execute_oneFrame_iff (hP : PrintsPlain P) (htxn : h.registry.isTransaction clientId = false)
    (hstream : ¬ Streams cmd) {buf : Bytes} {epollFd : Int} {out : Except CmdOutput CmdOutput}
    (he : h.execute P o cmd buf clientId epollFd = some (h', out)) :
    OneFrame ((outputOf out).extractBytes.getD []) ↔ Clean h clientId cmd := by
  unfold execute executeCmd at he
  split at he
  · rename_i hrefused
    cases he
    exact ⟨fun _ => .inl hrefused, fun _ => .inr (intoErrorBytes_framed framed_subscriberError)⟩
  · rename_i hno
    simp only [Option.bind_eq_bind, Option.bind_eq_some_iff] at he
    obtain ⟨prepared, hp, ⟨dispatched, r⟩, hd, hc⟩ := he
    have hexec : ∀ g r, cmdExec P o prepared clientId = some (g, r) → Replies P prepared clientId .exec r := by
      intro g r hg
      apply cmdExec_replies _ hg
      obtain ⟨s, -, rfl⟩ := prepare_frame hp
      exact htxn
    have hr := prepare_replies hp (dispatch_replies hexec hd)
    rw [conclude_oneFrame hP hr rfl hstream hc]
    simp [Clean, hno]

theorem executeQueued_answers (hP : PrintsPlain P) {q : Queued} {out : Except CmdOutput CmdOutput}
    (hclean : Clean h clientId q.cmd) (he : h.executeQueued P o clientId q = some (h', out)) :
    ∀ t ∈ (outputOf out).extractResp, t.Framed := by
  unfold executeQueued executeCmd at he
  split at he
  · cases he
    simp [outputOf, CmdOutput.extractResp]
  · rename_i hno
    simp only [Option.bind_eq_bind, Option.bind_eq_some_iff] at he
    obtain ⟨prepared, hp, ⟨dispatched, r⟩, hd, hc⟩ := he
    have hr := prepare_replies hp (dispatch_replies (fun _ _ hg => by cases hg) hd)
    exact conclude_answers hP hr rfl (hclean.resolve_left hno) hc

/-! ## A call of `handle` -/

theorem cmdExec_oneFrame (hP : PrintsPlain P) {buf : Bytes} {epollFd : Int} {g : CmdHandler} {r : CmdResult}
    {out : Except Bytes Bytes}
    (hclean : ∀ x, Executes P h (o, .handle (.ok .exec) buf clientId epollFd) x → Clean x.before x.clientId x.cmd)
    (he : cmdExec P o h clientId = some (g, r)) (ho : orEmpty (g, r) = some (h', out)) : OneFrame (returned out) := by
  have hvalue : ∀ t : RespType, t.Framed → r = reply t → OneFrame (returned out) := by
    rintro t ht rfl
    obtain ⟨b, hb, hf⟩ := ht.serialize
    simp only [orEmpty, reply, hb, Option.map_some] at ho
    cases ho
    exact .inr hf
  unfold cmdExec at he
  split at he
  · cases he
    cases ho
    exact .inl rfl
  · rename_i queue hqueue
    split at he
    · cases he
      exact hvalue .nullArray (by simp) rfl
    · rename_i hdirty
      simp only [Option.bind_eq_bind, Option.bind_eq_some_iff] at he
      obtain ⟨⟨g, resps⟩, hrun, hg⟩ := he
      cases hg
      have hall : ∀ t ∈ resps, t.Framed := by
        refine runQueue_answers (Q := RespType.Framed) ?_ hrun
        intro pre q post before r after out hq hpre hq'
        apply executeQueued_answers hP _ hq'
        exact hclean _ (.queued (hq ▸ hqueue) (by simpa using hdirty) hpre hq')
      refine hvalue _ ?_ rfl
      split
      · simp
      · exact RespType.framed_arrayOf hall

theorem frame_line {t : RespType} (ht : t.Framed) : OneFrame t.frame := by
  obtain ⟨b, hb, hf⟩ := ht.serialize
  rw [RespType.frame, hb]
  exact .inr hf

/-- What `handle` returns is empty or one value if each command it executes is
clean, and only then when the command is not EXEC. -/
theorem handle_oneFrame (hP : PrintsPlain P) (hstream : ¬ Streams cmd) {buf : Bytes} {epollFd : Int}
    {out : Except Bytes Bytes} (hh : h.handle P o (.ok cmd) buf clientId epollFd = some (h', out)) :
    ((∀ x, Executes P h (o, .handle (.ok cmd) buf clientId epollFd) x → Clean x.before x.clientId x.cmd) →
      OneFrame (returned out)) ∧
    (cmd ≠ .exec → OneFrame (returned out) →
      ∀ x, Executes P h (o, .handle (.ok cmd) buf clientId epollFd) x → Clean x.before x.clientId x.cmd) := by
  cases htxn : h.registry.isTransaction clientId with
  | false =>
    obtain ⟨r, he, rfl⟩ := handle_closed htxn hh
    have hiff := execute_oneFrame_iff hP htxn hstream he
    have hout : returned ((r.map fun a => a.extractBytes.getD []).mapError fun e => e.extractBytes.getD []) =
        (outputOf r).extractBytes.getD [] := by
      cases r <;> rfl
    rw [hout]
    refine ⟨fun hclean => hiff.mpr (hclean _ (.direct htxn he)), fun hexec hone x hx => ?_⟩
    cases hx with
    | direct => exact hiff.mp hone
    | queued => exact absurd rfl hexec
  | true =>
    unfold handle at hh
    simp only [htxn, Bool.not_true, Bool.false_eq_true, if_false] at hh
    have hnone : cmd ≠ .exec → ∀ x, Executes P h (o, .handle (.ok cmd) buf clientId epollFd) x →
        Clean x.before x.clientId x.cmd := by
      intro hexec x hx
      cases hx with
      | direct hno =>
        rw [htxn] at hno
        cases hno
      | queued => exact absurd rfl hexec
    refine ⟨fun hclean => ?_, fun hexec _ => hnone hexec⟩
    split at hh
    · cases hh
      exact frame_line (crlf_not_infix_of_all rfl)
    · split at hh
      · obtain ⟨⟨g, r⟩, he, ho⟩ := Option.bind_eq_some_iff.mp hh
        exact cmdExec_oneFrame hP hclean he ho
      · rw [cmdDiscard, if_pos htxn] at hh
        cases hh
        exact frame_line framed_ok
      · cases hh
        exact frame_line (crlf_not_infix_of_all rfl)

end

theorem printsPlain_blank : PrintsPlain .blank := by
  intro x
  exact (by decide : (13 : UInt8) ∉ utf8 "0.000000")

theorem handle_oneFrame_get : ∃ h' out, startup.handle .blank .asIs (.ok (.get "k")) [] 1 0 = some (h', out) ∧
    ((∀ x, Executes .blank startup (.asIs, .handle (.ok (.get "k")) [] 1 0) x → Clean x.before x.clientId x.cmd) →
      OneFrame (returned out)) ∧
    (Cmd.get "k" ≠ .exec → OneFrame (returned out) →
      ∀ x, Executes .blank startup (.asIs, .handle (.ok (.get "k")) [] 1 0) x → Clean x.before x.clientId x.cmd) :=
  ⟨_, _, rfl, handle_oneFrame (o := .asIs) printsPlain_blank id rfl⟩

/-- The key of the client ends the error and starts a second value. -/
theorem get_second_value :
    let pushed := ask 1 (.rpush "a\r\n+OK" ["x"])
    ∃ h' out, Run (Steps .blank) startup [pushed] (play startup [pushed]) ∧
      (play startup [pushed]).handle .blank .asIs (.ok (.get "a\r\n+OK")) [] 1 0 = some (h', out) ∧
        ¬ OneFrame (returned out) := by
  refine ⟨_, .error (unsupported "a\r\n+OK").intoErrorBytes, .cons rfl .nil, rfl, ?_⟩
  rintro (hnil | hf)
  · exact intoErrorBytes_ne_nil _ hnil
  · exact frame_unsupported_iff.mp hf (by decide)

end CmdHandler

end Redis
