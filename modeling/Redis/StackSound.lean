import Redis.FormSound
import Redis.ChunkSound

/-!
# No completed value is dropped

A completed value that is popped goes into the value below it, which keeps it
only if it is an array. Three branches of `parse` leave something else there,
or an array that is never complete: a prefix that is not implemented, a body
whose error is ignored, and the header of an empty array. On runs that meet
none of them (`Smooth`) everything below the top of the stack is an array that
misses items, so that a command that comes next is handed over or stored, if it
is not cut up as `chunks_deliver_iff` says.
-/

namespace Redis

open Lib

def RespType.missing : RespType → Bool
  | .array length value => decide ((value.getD []).length < length)
  | _ => false

theorem RespType.missing_addItem {a : RespType} (h : a.missing = true) (t : RespType) :
    (a.addItem t).isCompleted = true ∨ (a.addItem t).missing = true := by
  cases a with
  | array n value =>
    simp only [missing, decide_eq_true_eq] at h
    simp only [addItem, isCompleted, missing, beq_iff_eq, decide_eq_true_eq, Option.getD_some, List.length_append,
      List.length_cons, List.length_nil]
    omega
  | _ => cases h

def Stores : RespType → List RespType → Prop
  | top, below =>
    if top.isCompleted then
      match below with
      | [] => True
      | next :: rest => next.missing = true ∧ Stores (next.addItem top) rest
    else True

theorem popStack_stored (completed : List RespType) :
    ∀ (below : List RespType) (top : RespType), (∀ t ∈ below, t.missing = true) →
      (top.isCompleted = true ∨ top.missing = true) →
      Stores top below ∧ ∀ t ∈ (popStack top below completed).1, t.missing = true := by
  intro below
  induction below with
  | nil =>
    intro top _ htop
    rw [Stores, popStack]
    split
    · exact ⟨trivial, by simp⟩
    · rename_i hc
      exact ⟨trivial, by simpa [hc] using htop⟩
  | cons next rest ih =>
    intro top hbelow htop
    have hnext := hbelow next (List.mem_cons_self ..)
    have hrest : ∀ t ∈ rest, t.missing = true := fun t ht => hbelow t (List.mem_cons_of_mem _ ht)
    rw [Stores, popStack]
    split
    · obtain ⟨hs, hpop⟩ := ih (next.addItem top) hrest (RespType.missing_addItem hnext top)
      exact ⟨⟨hnext, hs⟩, hpop⟩
    · rename_i hc
      refine ⟨trivial, fun t ht => ?_⟩
      cases ht with
      | head => simpa [hc] using htop
      | tail _ ht => exact hbelow t ht

namespace RespParser

/-- What `pop_completed` does here loses nothing. -/
def PopsStored (p : RespParser) : Prop :=
  match p.stack with
  | [] => True
  | top :: below => Stores top below

/-- A turn from here takes none of the branches that leave something on the
stack for good. -/
def Smooth (p : RespParser) : Prop :=
  match p.status with
  | .type => ∀ pre b rest t, p.buf.drop p.bufCur = pre ++ b :: rest →
      (∀ x ∈ pre, RespType.matchPrefix x false = none) → RespType.matchPrefix b false = some t → t.opened ≠ .type
  | .header => ∀ n value below cur s, p.stack = .array n value :: below →
      findCrlf (p.buf.drop p.bufCur) p.bufCur = (cur, true) → slice p.buf p.tmpStart cur = some (utf8 s) →
      parseUint u64Max s ≠ .ok 0
  | .bulk n => ∀ body rest, p.buf = body ++ rest → body.length = n + 2 → ∃ s, body = utf8 s ++ delimiter
  | _ => True

/-- What happens to the parser of a client as long as `parse` succeeds: bytes
come in, `parse` takes a turn, a completed value is taken out. -/
inductive Move where
  | feed (data : Bytes)
  | turn
  | take

def Moves (p : RespParser) : Move → RespParser → Prop
  | .feed data, q => (p.buf ++ data).length ≤ isizeMax ∧ q = p.feedBuf data
  | .turn, q => p.turn false = .again q ∨ p.turn false = .ret q (.ok ())
  | .take, q => ∃ t, p.getCompleted = some (t, q)

def SmoothMove (p : RespParser) (m : Move) : Prop := m = .turn → p.Smooth

theorem parse_moves (fuel : Nat) : ∀ {p q : RespParser}, p.parse false fuel = some (q, .ok ()) →
    ∃ n, Run Moves p (List.replicate n .turn) q := by
  induction fuel with
  | zero => exact fun h => by cases h
  | succ fuel ih =>
    intro p q h
    rw [parse] at h
    cases ht : p.turn false with
    | again s =>
      rw [ht] at h
      obtain ⟨n, hn⟩ := ih h
      exact ⟨n + 1, .cons (.inl ht) hn⟩
    | ret s e =>
      rw [ht] at h
      cases h
      exact ⟨1, .cons (.inr ht) .nil⟩
    | crash =>
      rw [ht] at h
      cases h

/-! ## The invariant -/

structure Stacked (p : RespParser) : Prop where
  formed : p.Formed
  size : p.buf.length ≤ isizeMax
  below : ∀ t ∈ p.stack.tail, t.missing = true
  top : p.status = .type → ∀ t, p.stack.head? = some t → t.isCompleted = true ∨ t.missing = true
  live : p.status ≠ .none
  cursor : p.status = .type → p.bufCur ≤ p.buf.length

theorem stacked_new : new.Stacked where
  formed := formed_new
  size := by simp [new]
  below := by simp [new]
  top := by simp [new]
  live := by simp [new]
  cursor := by simp [new]

theorem Stacked.waiting {p : RespParser} (h : p.Stacked) (hs : p.status ≠ .type) : Waiting p.stack :=
  h.formed.expecting.waiting hs h.live

theorem Stacked.popsStored {p : RespParser} (h : p.Stacked) : p.PopsStored := by
  unfold PopsStored
  cases hst : p.stack with
  | nil => trivial
  | cons top below =>
    have hbelow := h.below
    rw [hst] at hbelow
    by_cases hs : p.status = .type
    · have htop := h.top hs top (by rw [hst]; rfl)
      exact (popStack_stored p.completed below top hbelow htop).1
    · have hw := h.waiting hs
      rw [hst] at hw
      simp only
      unfold Stores
      rw [show top.isCompleted = false from hw]
      trivial

theorem Stacked.popCompleted {p : RespParser} (h : p.Stacked) :
    p.popCompleted.Stacked ∧ (p.status = .type → ∀ t ∈ p.popCompleted.stack, t.missing = true) := by
  by_cases hs : p.status = .type
  · have hpop : p.popCompleted.status = p.status ∧ p.popCompleted.buf = p.buf ∧ p.popCompleted.bufCur = p.bufCur ∧
        ∀ t ∈ p.popCompleted.stack, t.missing = true := by
      unfold RespParser.popCompleted
      cases hst : p.stack with
      | nil => simp [hst]
      | cons top below =>
        have hbelow := h.below
        rw [hst] at hbelow
        have htop := h.top hs top (by rw [hst]; rfl)
        exact ⟨rfl, rfl, rfl, (popStack_stored p.completed below top hbelow htop).2⟩
    obtain ⟨hstatus, hbuf, hcur, hall⟩ := hpop
    refine ⟨⟨h.formed.popCompleted, by rw [hbuf]; exact h.size, fun t ht => hall t (List.mem_of_mem_tail ht), ?_,
      by rw [hstatus]; exact h.live, fun _ => by rw [hcur, hbuf]; exact h.cursor hs⟩, fun _ => hall⟩
    intro _ t ht
    exact .inr (hall t (List.mem_of_mem_head? ht))
  · rw [popCompleted_of_waiting (h.waiting hs)]
    exact ⟨h, fun h => absurd h hs⟩

theorem Stacked.feedBuf {p : RespParser} (h : p.Stacked) {data : Bytes} (hd : (p.buf ++ data).length ≤ isizeMax) :
    (p.feedBuf data).Stacked := by
  refine ⟨h.formed.feedBuf data, hd, h.below, h.top, h.live, fun hs => ?_⟩
  have := h.cursor hs
  simp only [RespParser.feedBuf, List.length_append]
  omega

theorem Stacked.getCompleted {p q : RespParser} {t : RespType} (h : p.Stacked) (hg : p.getCompleted = some (t, q)) :
    q.Stacked := by
  have hf := h.formed.getCompleted hg
  unfold RespParser.getCompleted at hg
  split at hg
  · cases hg
  · cases hg
    exact ⟨hf, h.size, h.below, h.top, h.live, h.cursor⟩

/-- A body that is there is read, if its end is good. -/
theorem body_read {buf : Bytes} {n cur : Nat} (hsize : buf.length ≤ isizeMax) (hn : n ≤ u64Max)
    (hbody : ∀ body rest, buf = body ++ rest → body.length = n + 2 → ∃ s, body = utf8 s ++ delimiter)
    (hcur : cur ≤ buf.length) (hw : wrappingSub cur 0 = wrappingAdd n 2) (hsome : buf[wrappingAdd 0 n]?.isSome) :
    ∃ s, buf[wrappingAdd 0 n]? = some 13 ∧ buf[wrappingAdd (wrappingAdd 0 n) 1]? = some 10 ∧
      slice buf 0 (wrappingSub cur 2) = some (utf8 s) := by
  have hadd : wrappingAdd 0 n = n := by unfold wrappingAdd u64Max at *; omega
  rw [hadd] at hsome ⊢
  have hlt : n < buf.length := by simpa using hsome
  have hn64 : n + 2 < 2 ^ 64 := by unfold isizeMax at hsize; omega
  have hcn : cur = n + 2 := by
    rw [wrappingSub_eq (Nat.zero_le _) (by unfold isizeMax at hsize; omega), wrappingAdd_eq hn64] at hw
    omega
  subst hcn
  obtain ⟨s, hs⟩ := hbody (buf.take (n + 2)) (buf.drop (n + 2)) (by simp) (by simp only [List.length_take]; omega)
  have hb : buf = utf8 s ++ delimiter ++ buf.drop (n + 2) := by rw [← hs, List.take_append_drop]
  have hlen : (utf8 s).length = n := by
    have := congrArg List.length hs
    simp only [List.length_take, List.length_append, delimiter, List.length_cons, List.length_nil] at this
    omega
  refine ⟨s, ?_, ?_, ?_⟩
  · rw [hb, ← hlen]
    exact getElem?_mid (utf8 s) delimiter _ 0 (by decide)
  · rw [wrappingAdd_eq (by omega), hb, ← hlen]
    exact getElem?_mid (utf8 s) delimiter _ 1 (by decide)
  · rw [length_body hw hn]
    have := slice_mid [] (utf8 s) (delimiter ++ buf.drop (n + 2))
    rw [List.nil_append, List.length_nil, Nat.zero_add, hlen, ← List.append_assoc, ← hb] at this
    exact this

theorem opened_ne_none (t : RespType) : t.opened ≠ .none := by
  cases t <;> exact ParseStatus.noConfusion

theorem completed_of_setValue {v : ReadBytesOutput} {t u : RespType} (h : t.setValue v = .ok u) :
    u.isCompleted = true := by
  cases v <;> cases t <;> cases h <;> rfl

theorem Stacked.setTop {q : RespParser} (h : q.Stacked) {v : ReadBytesOutput} {t u : RespType} {below : List RespType}
    {k : Nat} (hst : q.stack = t :: below) (hset : t.setValue v = .ok u)
    (hf : { q with buf := q.buf.drop k, bufCur := 0, tmpStart := 0, stack := u :: below, status := .type }.Formed) :
    { q with buf := q.buf.drop k, bufCur := 0, tmpStart := 0, stack := u :: below, status := .type }.Stacked := by
  have hbelow := h.below
  have hsize := h.size
  rw [hst] at hbelow
  refine ⟨hf, by simp only [List.length_drop]; omega, hbelow, ?_, ParseStatus.noConfusion, fun _ => Nat.zero_le _⟩
  intro _ t ht
  cases ht
  exact .inl (completed_of_setValue hset)

def OutcomeStacked : Turn → Prop
  | .again p => p.Stacked
  | .ret p (.ok ()) => p.Stacked
  | _ => True

/-- Every branch of a turn but the three keeps the invariant. -/
theorem Stacked.turned {q : RespParser} {r : Turn} (h : q.Stacked)
    (hall : q.status = .type → ∀ t ∈ q.stack, t.missing = true) (hsm : q.Smooth) (ht : Turned false q r) :
    OutcomeStacked r := by
  have hf := h.formed.turned ht
  have he := h.formed.expecting
  unfold Expecting at he
  unfold Smooth at hsm
  cases ht with
  | idle => exact h
  | opens hs hd hpre hb _ =>
    rw [hs] at hsm
    have hop := hsm _ _ _ _ hd hpre hb
    exact ⟨hf, h.size, hall hs, fun hs' => absurd hs' hop, opened_ne_none _, fun hs' => absurd hs' hop⟩
  | skips hs hcur =>
    refine ⟨hf, h.size, h.below, h.top, h.live, fun _ => ?_⟩
    have := h.cursor hs
    simp only [hcur, List.length_drop]
    omega
  | waits hs =>
    refine ⟨hf, h.size, h.below, h.top, h.live, fun hs' => ?_⟩
    obtain hs | hs := hs <;> rw [hs] at hs' <;> cases hs'
  | fails => trivial
  | header hs hst hcrlf hv hn =>
    rw [hs] at he hsm
    obtain ⟨u, below, hst', hu⟩ := he
    obtain ⟨rfl, rfl⟩ := List.cons.inj (hst.symm.trans hst')
    have hbelow := h.below
    rw [hst] at hbelow
    have hsize := h.size
    refine ⟨hf, by simp only [List.length_drop]; omega, hbelow, ?_, ?_, fun _ => Nat.zero_le _⟩
    · intro hs' t ht
      obtain rfl | rfl | rfl := hu
      · cases ht
        -- the number is not zero, so the array misses items
        have hz := hsm 0 none _ _ _ hst hcrlf hv
        rw [hn] at hz
        refine .inr ?_
        simp only [RespType.setLength, RespType.missing, Option.getD_none, List.length_nil, decide_eq_true_eq]
        exact Nat.pos_of_ne_zero fun h0 => hz (by rw [h0])
      · cases hs'
      · cases hs'
    · obtain rfl | rfl | rfl := hu <;> exact ParseStatus.noConfusion
  | line _ hst hset => exact h.setTop hst hset hf
  | bulk _ hst hset => exact h.setTop hst hset hf
  | rdb _ hst hset => exact h.setTop hst hset hf
  | more hs =>
    refine ⟨hf, h.size, h.below, h.top, h.live, fun hs' => ?_⟩
    obtain ⟨n, hs | hs⟩ := hs <;> rw [hs] at hs' <;> cases hs'
  | dropped hs hcur hw hbad hsome =>
    rw [hs] at he hsm
    obtain ⟨-, hzero, hn⟩ := he
    rw [hzero] at hw hbad hsome
    obtain ⟨s, hcr, hlf, hv⟩ := body_read h.size hn hsm hcur hw hsome
    exact absurd hv (hbad s hcr hlf)
  | unstacked hst =>
    have hsize := h.size
    refine ⟨hf, by simp only [List.length_drop]; omega, h.below, ?_, ParseStatus.noConfusion, fun _ => Nat.zero_le _⟩
    intro _ t ht
    rw [hst] at ht
    cases ht
  | none hs => exact absurd hs h.live
  | crash => trivial

theorem Stacked.smooth {p : RespParser} (h : p.Stacked) (hsm : p.Smooth) : p.popCompleted.Smooth := by
  by_cases hs : p.status = .type
  · have hpop : p.popCompleted.status = .type ∧ p.popCompleted.buf = p.buf ∧ p.popCompleted.bufCur = p.bufCur := by
      unfold RespParser.popCompleted
      cases p.stack <;> exact ⟨hs, rfl, rfl⟩
    unfold Smooth at hsm ⊢
    rw [hs] at hsm
    rw [hpop.1, hpop.2.1, hpop.2.2]
    exact hsm
  · rw [popCompleted_of_waiting (h.waiting hs)]
    exact hsm

theorem Stacked.move {p q : RespParser} {m : Move} (h : p.Stacked) (hsm : SmoothMove p m) (hm : Moves p m q) :
    q.Stacked := by
  cases m with
  | feed data =>
    obtain ⟨hsize, rfl⟩ := hm
    exact h.feedBuf hsize
  | turn =>
    obtain ⟨hpop, hall⟩ := h.popCompleted
    have hall' : p.popCompleted.status = .type → ∀ t ∈ p.popCompleted.stack, t.missing = true := by
      intro hs
      by_cases hp : p.status = .type
      · exact hall hp
      · rw [popCompleted_of_waiting (h.waiting hp)] at hs
        exact absurd hs hp
    have hout := hpop.turned hall' (h.smooth (hsm rfl)) (turn_cases p false)
    obtain ht | ht := hm
    · rw [ht] at hout
      exact hout
    · rw [ht] at hout
      exact hout
  | take =>
    obtain ⟨t, hg⟩ := hm
    exact h.getCompleted hg

theorem run_stacked {moves : List Move} {p : RespParser} (h : Run (guarded SmoothMove Moves) new moves p) : p.Stacked :=
  h.inv (fun _ _ _ _ hp hs => hp.move hs.1 hs.2) stacked_new

/-! ## The command that comes next -/

/-- Nothing is left to do: every value is taken and every byte is looked at. -/
structure AtBoundary (p : RespParser) : Prop where
  taken : p.completed = []
  popped : Waiting p.stack
  read : p.buf.length ≤ p.bufCur
  status : p.status = .type

/-! ### What has been passed over -/

theorem findType_add (isRdb : Bool) (k : Nat) (b : Bytes) :
    ∀ cur, findType isRdb b (k + cur) = (k + (findType isRdb b cur).1, (findType isRdb b cur).2) := by
  induction b with
  | nil => exact fun _ => rfl
  | cons x b ih =>
    intro cur
    rw [findType, findType]
    cases RespType.matchPrefix x isRdb with
    | some t => rfl
    | none => exact ih (cur + 1)

theorem findCrlf_add (k : Nat) (b : Bytes) :
    ∀ cur, findCrlf b (k + cur) = (k + (findCrlf b cur).1, (findCrlf b cur).2) := by
  induction b with
  | nil => exact fun _ => rfl
  | cons x b ih =>
    intro cur
    cases b with
    | nil => rfl
    | cons y b =>
      rw [findCrlf, findCrlf]
      split
      · rfl
      · exact ih (cur + 1)

theorem slice_add (j b : Bytes) (x y : Nat) : slice (j ++ b) (j.length + x) (j.length + y) = slice b x y := by
  have hdrop : (j ++ b).drop (j.length + x) = b.drop x := by rw [List.drop_append]; simp
  unfold slice
  rw [hdrop, List.length_append, Nat.add_sub_add_left]
  simp only [Nat.add_le_add_iff_left]

/-- The parser with bytes before the buffer that it has passed over. -/
def shifted (p : RespParser) (j : Bytes) (tmpStart : Nat) : RespParser :=
  { p with buf := j ++ p.buf, bufCur := j.length + p.bufCur, tmpStart }

/-- As long as no body is read; once a line or a header is, the bytes are gone. -/
inductive Shifts (j : Bytes) (p : RespParser) : RespParser → Prop
  | same : Shifts j p p
  | passed {tmpStart} : (∀ n, p.status ≠ .bulk n) → (∀ n, p.status ≠ .rdb n) →
      (p.status = .type ∨ tmpStart = j.length + p.tmpStart) → Shifts j p (p.shifted j tmpStart)

def ShiftsTurn (j : Bytes) : Turn → Turn → Prop
  | .again p, .again q => Shifts j p q
  | .ret p r, .ret q r' => r = r' ∧ Shifts j p q
  | .crash, .crash => True
  | _, _ => False

section
variable {j : Bytes} {p q : RespParser} {tmpStart : Nat}

theorem ShiftsTurn.refl : ∀ t, ShiftsTurn j t t
  | .again _ => .same
  | .ret _ _ => ⟨rfl, .same⟩
  | .crash => trivial

theorem shifted_drop (p : RespParser) :
    (p.shifted j tmpStart).buf.drop (p.shifted j tmpStart).bufCur = p.buf.drop p.bufCur := by
  simp only [shifted]
  rw [List.drop_append]
  simp

theorem shifted_drainTillBuf (p : RespParser) : (p.shifted j tmpStart).drainTillBuf = p.drainTillBuf := by
  have hdrop : (p.shifted j tmpStart).buf.drop (p.shifted j tmpStart).bufCur = p.buf.drop p.bufCur := p.shifted_drop
  unfold drainTillBuf
  rw [hdrop]
  simp [shifted]

theorem shifted_popCompleted (p : RespParser) :
    (p.shifted j tmpStart).popCompleted = p.popCompleted.shifted j tmpStart := by
  obtain ⟨buf, bufCur, start, stack, completed, status⟩ := p
  cases stack <;> rfl

theorem shifted_parseType {isRdb : Bool} (hs : p.status = .type) :
    ShiftsTurn j (p.parseType isRdb) ((p.shifted j tmpStart).parseType isRdb) := by
  have hfind : findType isRdb ((p.shifted j tmpStart).buf.drop (p.shifted j tmpStart).bufCur) (j.length + p.bufCur) =
      (j.length + (findType isRdb (p.buf.drop p.bufCur) p.bufCur).1,
        (findType isRdb (p.buf.drop p.bufCur) p.bufCur).2) := by
    rw [shifted_drop]
    exact findType_add isRdb j.length _ _
  have hcur : (p.shifted j tmpStart).bufCur = j.length + p.bufCur := rfl
  unfold parseType nextTillType
  rw [hcur] at hfind ⊢
  rw [hfind]
  obtain ⟨cur, found⟩ := findType isRdb (p.buf.drop p.bufCur) p.bufCur
  cases found with
  | none => exact .passed (fun _ => ParseStatus.noConfusion) (fun _ => ParseStatus.noConfusion) (.inl rfl)
  | some t => cases t <;> refine .passed (fun n => ?_) (fun n => ?_) (.inr rfl) <;> simp [hs]

theorem shifted_nextTillNewLine (p : RespParser) : (p.shifted j (j.length + p.tmpStart)).nextTillNewLine =
    p.nextTillNewLine.map fun r => (r.1.shifted j (j.length + r.1.tmpStart), r.2) := by
  generalize hq : p.shifted j (j.length + p.tmpStart) = q
  have hcur : q.bufCur = j.length + p.bufCur := by rw [← hq]; rfl
  have hfind : findCrlf (q.buf.drop q.bufCur) q.bufCur =
      (j.length + (findCrlf (p.buf.drop p.bufCur) p.bufCur).1, (findCrlf (p.buf.drop p.bufCur) p.bufCur).2) := by
    rw [← hq, shifted_drop]
    exact findCrlf_add j.length _ _
  have hlen : q.buf.length < q.bufCur ↔ p.buf.length < p.bufCur := by
    simp [← hq, shifted]
  unfold nextTillNewLine
  rw [hfind]
  by_cases hcrash : p.buf.length < p.bufCur
  · rw [if_pos hcrash, if_pos (hlen.mpr hcrash)]
    rfl
  · rw [if_neg hcrash, if_neg fun h => hcrash (hlen.mp h)]
    obtain ⟨cur, found⟩ := findCrlf (p.buf.drop p.bufCur) p.bufCur
    cases found with
    | false =>
      rw [← hq]
      rfl
    | true =>
      have hslice : slice q.buf q.tmpStart (j.length + cur) = slice p.buf p.tmpStart cur := by
        rw [← hq]
        exact slice_add j p.buf p.tmpStart cur
      simp only [hslice, Option.bind_eq_bind]
      cases slice p.buf p.tmpStart cur with
      | none => rfl
      | some s => cases hv : fromUtf8 s <;> simp [hv, ← hq, shifted, Nat.add_assoc]

theorem nextTillNewLine_status {r : RespParser × Except ParseError (Option ReadBytesOutput)}
    (h : p.nextTillNewLine = some r) : r.1.status = p.status := by
  unfold nextTillNewLine at h
  split at h
  · cases h
  · split at h
    · cases h
      rfl
    · obtain ⟨s, _, hv⟩ := Option.bind_eq_some_iff.mp h
      split at hv <;> cases hv <;> rfl

/-- A turn that reads up to the end of a line and goes on with what it read. -/
def afterLine (status : ParseStatus) (read : RespParser → ReadBytesOutput → Turn) (p : RespParser) : Turn :=
  match p.nextTillNewLine with
  | none => .crash
  | some (p, .ok (some s)) => read p s
  | some (p, .ok none) => .ret { p with status } (.ok ())
  | some (p, .error e) => .ret p (.error e)

theorem shifted_afterLine {status : ParseStatus} {read : RespParser → ReadBytesOutput → Turn} (hs : p.status = .type)
    (hbulk : ∀ n, status ≠ .bulk n) (hrdb : ∀ n, status ≠ .rdb n)
    (hread : ∀ (r : RespParser) tmpStart s, read (r.shifted j tmpStart) s = read r s) :
    ShiftsTurn j (p.afterLine status read) ((p.shifted j (j.length + p.tmpStart)).afterLine status read) := by
  unfold afterLine
  rw [shifted_nextTillNewLine]
  cases hn : p.nextTillNewLine with
  | none => trivial
  | some r =>
    obtain ⟨r, v⟩ := r
    have hstatus : r.status = .type := (nextTillNewLine_status hn).trans hs
    cases v with
    | error e => exact ⟨rfl, .passed (by simp [hstatus]) (by simp [hstatus]) (.inl hstatus)⟩
    | ok v =>
      cases v with
      | none => exact ⟨rfl, .passed hbulk hrdb (.inr rfl)⟩
      | some v =>
        simp only [Option.map_some, hread]
        exact .refl _

theorem shifted_parseHeader (hs : p.status = .type) :
    ShiftsTurn j p.parseHeader (p.shifted j (j.length + p.tmpStart)).parseHeader := by
  refine shifted_afterLine hs (fun _ => ParseStatus.noConfusion) (fun _ => ParseStatus.noConfusion)
    fun r tmpStart s => ?_
  simp only [shifted_drainTillBuf]

theorem shifted_parseLine (hs : p.status = .type) :
    ShiftsTurn j p.parseLine (p.shifted j (j.length + p.tmpStart)).parseLine := by
  refine shifted_afterLine hs (fun _ => ParseStatus.noConfusion) (fun _ => ParseStatus.noConfusion)
    fun r tmpStart s => ?_
  simp only [setTop, shifted_drainTillBuf]

theorem Shifts.turn (h : Shifts j p q) : ShiftsTurn j (p.turn false) (q.turn false) := by
  cases h with
  | same => exact .refl _
  | @passed tmpStart hbulk hrdb htmp =>
    rw [← popCompleted_status p] at hbulk hrdb htmp
    have hstart : p.popCompleted.tmpStart = p.tmpStart := by
      unfold RespParser.popCompleted
      cases p.stack <;> rfl
    rw [← hstart] at htmp
    unfold RespParser.turn
    rw [shifted_popCompleted]
    generalize p.popCompleted = r at *
    have hstays : Shifts j r (r.shifted j tmpStart) := .passed hbulk hrdb htmp
    have hend : (r.shifted j tmpStart).buf = [] ∨ (r.shifted j tmpStart).buf.length ≤ (r.shifted j tmpStart).bufCur ↔
        r.buf = [] ∨ r.buf.length ≤ r.bufCur := by
      have hlen : (r.shifted j tmpStart).buf.length ≤ (r.shifted j tmpStart).bufCur ↔ r.buf.length ≤ r.bufCur := by
        simp [shifted]
      rw [hlen]
      refine or_congr_left' fun hno => ?_
      have hne : r.buf ≠ [] := fun h => hno (by simp [h])
      exact iff_of_false (by simp [shifted, hne]) hne
    have hsame : (r.shifted j tmpStart).completed = r.completed := rfl
    have hstatus : (r.shifted j tmpStart).status = r.status := rfl
    dsimp only
    rw [hsame, hstatus]
    by_cases hdone : r.completed ≠ []
    · rw [if_pos hdone, if_pos hdone]
      exact ⟨rfl, hstays⟩
    · rw [if_neg hdone, if_neg hdone]
      by_cases hread : r.buf = [] ∨ r.buf.length ≤ r.bufCur
      · rw [if_pos hread, if_pos (hend.mpr hread)]
        exact ⟨rfl, hstays⟩
      · rw [if_neg hread, if_neg fun h => hread (hend.mp h)]
        cases hs : r.status with
        | type => exact shifted_parseType (p := { r with status := .type }) rfl
        | header =>
          obtain rfl := htmp.resolve_left (by simp [hs])
          exact shifted_parseHeader (p := { r with status := .type }) rfl
        | line =>
          obtain rfl := htmp.resolve_left (by simp [hs])
          exact shifted_parseLine (p := { r with status := .type }) rfl
        | bulk n => exact absurd hs (hbulk n)
        | rdb n => exact absurd hs (hrdb n)
        | none =>
          obtain rfl := htmp.resolve_left (by simp [hs])
          exact .passed (fun _ => ParseStatus.noConfusion) (fun _ => ParseStatus.noConfusion) (.inr rfl)

theorem Shifts.parse {fuel : Nat} {p' : RespParser} {r : Except ParseError Unit} (h : Shifts j p q)
    (hp : p.parse false fuel = some (p', r)) : ∃ q', q.parse false fuel = some (q', r) ∧ Shifts j p' q' := by
  induction fuel generalizing p q with
  | zero => cases hp
  | succ fuel ih =>
    have hturn := h.turn
    rw [RespParser.parse] at hp ⊢
    cases hpt : p.turn false with
    | again s =>
      cases hqt : q.turn false with
      | again s' =>
        rw [hpt, hqt] at hturn
        rw [hpt] at hp
        exact ih hturn hp
      | ret | crash =>
        rw [hpt, hqt] at hturn
        cases hturn
    | ret s e =>
      cases hqt : q.turn false with
      | ret s' e' =>
        rw [hpt, hqt] at hturn
        rw [hpt] at hp
        cases hp
        exact ⟨s', by rw [hturn.1], hturn.2⟩
      | again | crash =>
        rw [hpt, hqt] at hturn
        cases hturn
    | crash =>
      rw [hpt] at hp
      cases hp

theorem Shifts.getCompleted {p' : RespParser} {t : RespType} (h : Shifts j p q) (hp : p.getCompleted = some (t, p')) :
    ∃ q', q.getCompleted = some (t, q') ∧ Shifts j p' q' := by
  cases h with
  | same => exact ⟨p', hp, .same⟩
  | @passed tmpStart hbulk hrdb htmp =>
    unfold RespParser.getCompleted at hp ⊢
    cases hc : p.completed with
    | nil =>
      rw [hc] at hp
      cases hp
    | cons u us =>
      rw [hc] at hp
      cases hp
      have hc' : (p.shifted j tmpStart).completed = t :: us := hc
      rw [hc']
      exact ⟨_, rfl, .passed hbulk hrdb htmp⟩

theorem Shifts.completed (h : Shifts j p q) : q.completed = p.completed := by
  cases h <;> rfl

theorem Shifts.readLoop {fuel : Nat} {p' : RespParser} {out : List RespType} {r : Except ParseError Unit}
    (h : Shifts j p q) (hp : p.readLoop false fuel = some (p', out, r)) :
    ∃ q', q.readLoop false fuel = some (q', out, r) ∧ Shifts j p' q' := by
  induction fuel generalizing p q out with
  | zero => cases hp
  | succ fuel ih =>
    rw [RespParser.readLoop] at hp ⊢
    cases hparse : p.parse false fuel with
    | none =>
      rw [hparse] at hp
      cases hp
    | some x =>
      obtain ⟨s, e⟩ := x
      rw [hparse] at hp
      obtain ⟨s', hs', hshifts⟩ := h.parse hparse
      rw [hs']
      cases e with
      | error e =>
        cases hp
        exact ⟨s', rfl, hshifts⟩
      | ok =>
        simp only at hp ⊢
        cases hc : s.getCompleted with
        | none =>
          rw [hc] at hp
          cases hp
          have hnone : s'.getCompleted = none := by
            have hcomp := hshifts.completed
            unfold RespParser.getCompleted at hc ⊢
            split at hc
            · rename_i hnil
              rw [hcomp, hnil]
            · cases hc
          rw [hnone]
          exact ⟨s', rfl, hshifts⟩
        | some y =>
          obtain ⟨t, u⟩ := y
          rw [hc] at hp
          obtain ⟨⟨u', rest, e⟩, hloop, heq⟩ := Option.map_eq_some_iff.mp hp
          cases heq
          obtain ⟨v, hv, hnext⟩ := hshifts.getCompleted hc
          obtain ⟨w, hw, hlast⟩ := ih hnext hloop
          rw [hv]
          exact ⟨w, by simp only [hw, Option.map_some], hlast⟩

theorem Shifts.feedBuf (h : Shifts j p q) (b : Bytes) : Shifts j (p.feedBuf b) (q.feedBuf b) := by
  cases h with
  | same => exact .same
  | @passed tmpStart hbulk hrdb htmp =>
    have heq : (p.shifted j tmpStart).feedBuf b = (p.feedBuf b).shifted j tmpStart := by
      simp [shifted, RespParser.feedBuf]
    rw [heq]
    exact .passed hbulk hrdb htmp

theorem Shifts.reads {p' : RespParser} {out : List RespType} (h : Shifts j p q) (hp : Reads p p' out) :
    ∃ q', Reads q q' out ∧ Shifts j p' q' := by
  obtain ⟨fuel₀, h₀⟩ := hp
  obtain ⟨q', hq', hshifts⟩ := h.readLoop (h₀ fuel₀ (Nat.le_refl _))
  exact ⟨q', ⟨fuel₀, fun fuel hle => readLoop_mono hle hq'⟩, hshifts⟩

theorem Shifts.readsAll {chunks : List Bytes} {p' : RespParser} {out : List RespType} (hp : ReadsAll p chunks p' out)
    (h : Shifts j p q) : ∃ q', ReadsAll q chunks q' out ∧ Shifts j p' q' := by
  induction hp generalizing q with
  | nil => exact ⟨q, .nil, h⟩
  | @cons p s p' chunk chunks out out' hr _ ih =>
    obtain ⟨s', hs', hshifts⟩ := (h.feedBuf chunk).reads hr
    obtain ⟨q', hq', hlast⟩ := ih hshifts
    exact ⟨q', .cons hs' hq', hlast⟩

end

/-! ### The command -/

theorem waiting_popStack (completed : List RespType) :
    ∀ (below : List RespType) (top : RespType), Waiting (popStack top below completed).1 := by
  intro below
  induction below with
  | nil =>
    intro top
    rw [popStack]
    split
    · trivial
    · rename_i hc
      exact eq_false_of_ne_true hc
  | cons next rest ih =>
    intro top
    rw [popStack]
    split
    · exact ih _
    · rename_i hc
      exact eq_false_of_ne_true hc

/-- When nothing is left on the stack, something is handed over. -/
theorem popStack_ne_nil (completed : List RespType) :
    ∀ (below : List RespType) (top : RespType), (popStack top below completed).1 = [] →
      (popStack top below completed).2 ≠ [] := by
  intro below
  induction below with
  | nil =>
    intro top
    rw [popStack]
    split <;> simp
  | cons next rest ih =>
    intro top
    rw [popStack]
    split
    · exact ih _
    · simp

theorem reads_popStack {rest : Bytes} {q : RespParser} {out : List RespType} :
    ∀ (below : List RespType) (top : RespType), Reads (between (popStack top below []).1 rest .type) q out →
      Reads (between (top :: below) rest .type) q ((popStack top below []).2 ++ out) := by
  intro below
  induction below with
  | nil =>
    intro top h
    rw [popStack] at h ⊢
    by_cases hc : top.isCompleted = true
    · rw [if_pos hc] at h ⊢
      exact reads_deliver hc h
    · rw [if_neg hc] at h ⊢
      exact h
  | cons next below ih =>
    intro top h
    rw [popStack] at h ⊢
    by_cases hc : top.isCompleted = true
    · rw [if_pos hc] at h ⊢
      exact (leads_absorb false hc below rest .type).reads (ih (next.addItem top) h)
    · rw [if_neg hc] at h ⊢
      exact h

/-- The value is handed over, or it is an item of the array on top, which is
handed over in turn if it misses no more. -/
structure TakenIn (t : RespType) (p q : RespParser) (out : List RespType) : Prop where
  read : q.AtBoundary
  popped : (q.stack, out) = popStack t p.stack []

theorem Shifts.atBoundary {j : Bytes} {p q : RespParser} (h : Shifts j p q) : q.AtBoundary ↔ p.AtBoundary := by
  cases h with
  | same => rfl
  | @passed tmpStart =>
    have hlen : (p.shifted j tmpStart).buf.length ≤ (p.shifted j tmpStart).bufCur ↔ p.buf.length ≤ p.bufCur := by
      simp [shifted]
    exact ⟨fun hb => ⟨hb.taken, hb.popped, hlen.mp hb.read, hb.status⟩,
      fun hb => ⟨hb.taken, hb.popped, hlen.mpr hb.read, hb.status⟩⟩

theorem Shifts.stack {j : Bytes} {p q : RespParser} (h : Shifts j p q) : q.stack = p.stack := by
  cases h <;> rfl

theorem Stacked.shifts {p : RespParser} (h : p.Stacked) (hb : p.AtBoundary) :
    Shifts p.buf (between p.stack [] .type) p := by
  have hcur : p.bufCur = p.buf.length := Nat.le_antisymm (h.cursor hb.status) hb.read
  have heq : p = (between p.stack [] .type).shifted p.buf p.tmpStart := by
    obtain ⟨buf, bufCur, tmpStart, stack, completed, status⟩ := p
    obtain rfl : completed = [] := hb.taken
    obtain rfl : status = .type := hb.status
    obtain rfl : bufCur = buf.length := hcur
    simp [shifted, between]
  have hpassed : Shifts p.buf (between p.stack [] .type) ((between p.stack [] .type).shifted p.buf p.tmpStart) :=
    .passed (fun _ => ParseStatus.noConfusion) (fun _ => ParseStatus.noConfusion) (.inl rfl)
  rwa [← heq] at hpassed

theorem Inside.status_ne {g : Seg} {w : Bytes} {cur : Nat} {p : RespParser} (h : Inside g w cur p) (hw : w ≠ []) :
    p.status ≠ .type := by
  cases h with
  | start => exact absurd rfl hw
  | header => exact ParseStatus.noConfusion
  | body => exact ParseStatus.noConfusion

/-- At a boundary the whole stack misses items. -/
theorem Stacked.missing {p : RespParser} (h : p.Stacked) (hb : p.AtBoundary) : ∀ t ∈ p.stack, t.missing = true := by
  have hbelow := h.below
  have htop := h.top hb.status
  have hw := hb.popped
  cases hst : p.stack with
  | nil => simp
  | cons a below =>
    rw [hst] at hbelow htop hw
    intro t ht
    rcases List.mem_cons.mp ht with rfl | ht
    · exact (htop t rfl).resolve_left fun hc => by rw [show t.isCompleted = false from hw] at hc; cases hc
    · exact hbelow t ht

/-- A command that comes after a smooth run, in whatever chunks, is handed over or
stored by the array it is an item of, if the cursor of its last body has not
reached the end before its last bytes come. -/
theorem Stacked.next {p : RespParser} (h : p.Stacked) (hb : p.AtBoundary) (c : Command) {chunks : List Bytes}
    (hne : ∀ b ∈ chunks, b ≠ []) (hser : c.value.serialize = some chunks.flatten) :
    ∃ q out, ReadsAll p chunks q out ∧
      (TakenIn c.value p q out ↔ cursorAfter (cutsIn c.bodyLength chunks) < c.bodyLength) := by
  have hbase : Waiting (popStack c.value p.stack []).1 := waiting_popStack [] p.stack c.value
  have hstream : Stream (popStack c.value p.stack []).1 (segsOn p.stack c) (popStack c.value p.stack []).2 := by
    have hs := stream_segsOn (.nil hbase) (fun _ => popStack_ne_nil [] p.stack c.value) hb.popped c
      fun rest q out h => reads_popStack p.stack c.value h
    rwa [List.append_nil, List.append_nil] at hs
  rw [serialize_value p.stack c, Option.some.injEq] at hser
  have htext : [] ++ chunks.flatten = textOf (segsOn p.stack c) := hser.symm
  have hchunks : chunks ≠ [] := by
    rintro rfl
    exact textOf_ne_nil (by simp [segsOn]) htext.symm
  have hcur : tailCur (segsOn p.stack c) 0 = min (lastLength (segsOn p.stack c)) 0 := by
    rw [tailCur_zero, Nat.min_zero]
  obtain ⟨q, out, segs', vals', cur', hall, hs', hat, hout, hiff⟩ :=
    reads_chunks chunks hne hchunks hstream (.start _) htext hcur
  rw [lastLength_segsOn] at hiff
  obtain ⟨q', hall', hshifts⟩ := (h.shifts hb).readsAll hall
  refine ⟨q', out, hall', Iff.trans ⟨fun hl => ?_, fun hnil => ?_⟩ hiff⟩
  · by_contra hne'
    have hstatus : q.status = .type := (hshifts.atBoundary.mp hl.read).status
    cases hat with
    | done => exact hne' rfl
    | inside hi => exact hi.status_ne (textOf_ne_nil hne') hstatus
  · subst hnil
    cases hs'
    rw [List.append_nil] at hout
    cases hat
    refine ⟨hshifts.atBoundary.mpr ⟨rfl, hbase, Nat.le_refl _, rfl⟩, ?_⟩
    rw [hshifts.stack, hout]
    rfl

/-- On smooth runs every popped value is stored. The next command is stored or handed
over as well, in whatever chunks it comes, exactly if the cursor of its last body has
not reached the end before its last bytes come. -/
theorem run_stored (moves : List Move) (p : RespParser) (h : Run (guarded SmoothMove Moves) new moves p) :
    p.PopsStored ∧
    (p.AtBoundary → ∀ (c : Command) (chunks : List Bytes), (∀ b ∈ chunks, b ≠ []) →
      c.value.serialize = some chunks.flatten → Stores c.value p.stack ∧
        ∃ q out, ReadsAll p chunks q out ∧
          (TakenIn c.value p q out ↔ cursorAfter (cutsIn c.bodyLength chunks) < c.bodyLength)) := by
  have hstacked := run_stacked h
  refine ⟨hstacked.popsStored, fun hb c chunks hne hser => ⟨?_, hstacked.next hb c hne hser⟩⟩
  exact (popStack_stored [] p.stack c.value (hstacked.missing hb) (.inl (Command.completed c))).1

def itemMoves : List Move := [.feed (utf8 "*2\r\n+a\r\n"), .turn, .turn, .turn, .turn, .turn]

def oneItem : RespParser := between [.array 2 (some [.simpleStr (some "a")])] [] .type

theorem smooth_type {p : RespParser} {x : UInt8} {b : Bytes} {t : RespType} (hs : p.status = .type)
    (hb : p.buf.drop p.bufCur = x :: b) (hx : RespType.matchPrefix x false = some t) (ht : t.opened ≠ .type) :
    p.Smooth := by
  unfold Smooth
  rw [hs]
  intro pre y rest u hd hpre hy
  rw [hb] at hd
  cases pre with
  | nil =>
    obtain ⟨rfl, -⟩ := List.cons.inj hd
    rw [hx] at hy
    cases hy
    exact ht
  | cons z pre =>
    obtain ⟨rfl, -⟩ := List.cons.inj hd
    rw [hpre _ (List.mem_cons_self ..)] at hx
    cases hx

theorem oneItem_run : Run (guarded SmoothMove Moves) new itemMoves oneItem := by
  have hfeed : Moves new (.feed (utf8 "*2\r\n+a\r\n")) (between [] (utf8 "*2\r\n+a\r\n") .type) := ⟨by decide, rfl⟩
  have hstart : Moves (between [] (utf8 "*2\r\n+a\r\n") .type) .turn
      { between [.array 0 none] (utf8 "*2\r\n+a\r\n") .header with bufCur := 1, tmpStart := 1 } := .inl rfl
  have hheader : Moves { between [.array 0 none] (utf8 "*2\r\n+a\r\n") .header with bufCur := 1, tmpStart := 1 } .turn
      (between [.array 2 none] (utf8 "+a\r\n") .type) :=
    .inl (Headed.turn_header (n := 2) (k := 0) .array (by decide) (Nat.zero_le _))
  have hopen : Moves (between [.array 2 none] (utf8 "+a\r\n") .type) .turn
      { between [.simpleStr none, .array 2 none] (utf8 "+a\r\n") .line with bufCur := 1, tmpStart := 1 } := .inl rfl
  have hline : Moves
      { between [.simpleStr none, .array 2 none] (utf8 "+a\r\n") .line with bufCur := 1, tmpStart := 1 } .turn
      (between [.simpleStr (some "a"), .array 2 none] [] .type) := .inl rfl
  have hpop : Moves (between [.simpleStr (some "a"), .array 2 none] [] .type) .turn oneItem := .inr rfl
  have hnonzero :
      { between [.array 0 none] (utf8 "*2\r\n+a\r\n") .header with bufCur := 1, tmpStart := 1 }.Smooth := by
    intro n value below cur s _ hcrlf hslice hzero
    cases hcrlf
    have hs : utf8 s = utf8 "2" := (Option.some.inj hslice).symm
    rw [utf8_inj hs] at hzero
    exact absurd hzero (by decide)
  have hempty : (between [.simpleStr (some "a"), .array 2 none] [] .type).Smooth := by
    intro pre b rest t hd
    cases pre <;> cases hd
  exact .cons ⟨nofun, hfeed⟩ (.cons ⟨fun _ => smooth_type rfl rfl rfl ParseStatus.noConfusion, hstart⟩
    (.cons ⟨fun _ => hnonzero, hheader⟩ (.cons ⟨fun _ => smooth_type rfl rfl rfl ParseStatus.noConfusion, hopen⟩
      (.cons ⟨fun _ => trivial, hline⟩ (.cons ⟨fun _ => hempty, hpop⟩ .nil)))))

/-- A PING in three chunks is the second item, and the array is handed over. -/
theorem run_stored_item : oneItem.PopsStored ∧
    ∃ q, ReadsAll oneItem [utf8 "*1\r\n$4\r\n", utf8 "PI", utf8 "NG\r\n"] q
      [.array 2 (some [.simpleStr (some "a"), ping.value])] := by
  obtain ⟨hstored, hnext⟩ := run_stored itemMoves oneItem oneItem_run
  obtain ⟨_, q, out, hall, hiff⟩ := hnext ⟨rfl, rfl, Nat.le_refl _, rfl⟩ ping
    [utf8 "*1\r\n$4\r\n", utf8 "PI", utf8 "NG\r\n"] (by decide) (by decide)
  have htaken := hiff.mpr (by decide)
  have hpopped : (q.stack, out) = ([], [.array 2 (some [.simpleStr (some "a"), ping.value])]) := htaken.popped
  obtain ⟨_, rfl⟩ := Prod.mk.inj hpopped
  exact ⟨hstored, q, hall⟩

/-- A prefix that is not implemented stays on the stack: the line that follows is
dropped, and so is a PING, without an error. -/
theorem ping_dropped :
    (∃ moves p, Run Moves new moves p ∧ ¬ p.PopsStored) ∧
    ∃ p, ∀ fuel, 16 ≤ fuel →
      (new.feedBuf (utf8 "-" ++ utf8 "*1\r\n$4\r\nPING\r\n")).readLoop false fuel = some (p, [], .ok ()) := by
  constructor
  · refine ⟨[.feed (utf8 "-+a\r\n"), .turn, .turn, .turn],
      between [.simpleStr (some "a"), .error none] [] .type, ?_, ?_⟩
    · have hfeed : Moves new (.feed (utf8 "-+a\r\n")) (between [] (utf8 "-+a\r\n") .type) := ⟨by decide, rfl⟩
      have herror : Moves (between [] (utf8 "-+a\r\n") .type) .turn
          { between [.error none] (utf8 "-+a\r\n") .type with bufCur := 1, tmpStart := 1 } := .inl rfl
      have hopen : Moves { between [.error none] (utf8 "-+a\r\n") .type with bufCur := 1, tmpStart := 1 } .turn
          { between [.simpleStr none, .error none] (utf8 "-+a\r\n") .line with bufCur := 2, tmpStart := 2 } := .inl rfl
      have hline : Moves
          { between [.simpleStr none, .error none] (utf8 "-+a\r\n") .line with bufCur := 2, tmpStart := 2 } .turn
          (between [.simpleStr (some "a"), .error none] [] .type) := .inl rfl
      exact .cons hfeed (.cons herror (.cons hopen (.cons hline .nil)))
    · intro h
      have hs : Stores (.simpleStr (some "a")) [.error none] := h
      unfold Stores at hs
      have hm := (if_pos (show (RespType.simpleStr (some "a")).isCompleted = true from rfl)).mp hs
      cases hm.1
  · exact readLoop_silent (by decide +kernel)

end RespParser

end Redis
