import Redis.BoundsSound

/-!
# The loop of `parse` ends

A turn that does not return consumes a byte, or it leaves the status `Type` behind. So
twice the bytes that are not consumed yet, and one more while the status is another
one, is less after each turn.
-/

namespace Redis

open Lib

namespace RespParser

def unread (p : RespParser) : Nat := p.buf.length - p.bufCur

/-- 1 while something other than the type of a value is waited for -/
def owed (p : RespParser) : Nat := if p.status = .type then 0 else 1

def work (p : RespParser) : Nat := 2 * p.unread + p.owed

theorem owed_le (p : RespParser) : p.owed ≤ 1 := by
  unfold owed
  split <;> omega

theorem owed_type {p : RespParser} (hs : p.status = .type) : p.owed = 0 := if_pos hs

theorem owed_other {p : RespParser} (hs : p.status ≠ .type) : p.owed = 1 := if_neg hs

theorem work_lt_of_consumed {p q : RespParser} (h : q.unread < p.unread) : q.work < p.work := by
  have hq := q.owed_le
  unfold work
  omega

theorem work_lt_of_type {p q : RespParser} (hle : q.unread ≤ p.unread) (hp : p.status ≠ .type) (hq : q.status = .type) :
    q.work < p.work := by
  unfold work
  rw [owed_type hq, owed_other hp]
  omega

@[simp] theorem work_popCompleted (p : RespParser) : p.popCompleted.work = p.work := by
  unfold work unread owed
  rw [popCompleted_buf, popCompleted_bufCur, popCompleted_status]

/-! ## One turn -/

section
variable {p q r : RespParser} {isRdb : Bool}

theorem parseType_work (hlt : p.bufCur < p.buf.length) (h : p.parseType isRdb = .again q) : q.work < p.work := by
  apply work_lt_of_consumed
  have hf := findType_spec isRdb (p.buf.drop p.bufCur) p.bufCur _ _ rfl
  unfold parseType nextTillType at h
  cases hfind : findType isRdb (p.buf.drop p.bufCur) p.bufCur with
  | mk cur o =>
    rw [hfind] at hf h
    have hcur : q.buf = p.buf ∧ q.bufCur = cur := by
      cases o with
      | none =>
        cases h
        exact ⟨rfl, rfl⟩
      | some t => cases t <;> (cases h; exact ⟨rfl, rfl⟩)
    have hgt : p.bufCur < cur := by
      cases o with
      | none =>
        have hlen := hf.1
        rw [List.length_drop] at hlen
        omega
      | some t =>
        obtain ⟨pre, b, rest, _, _, _, hlen⟩ := hf
        omega
    unfold unread
    rw [hcur.1, hcur.2]
    omega

theorem drainTillBuf_unread (h : p.drainTillBuf = some q) : q.unread = p.unread ∧ q.status = p.status := by
  unfold drainTillBuf at h
  split at h
  · cases h
    refine ⟨?_, rfl⟩
    simp [unread]
  · cases h

theorem setTop_unread {v : ReadBytesOutput} (hs : p.status = .type) (h : p.setTop v = .again q) :
    q.unread = p.unread ∧ q.status = .type := by
  unfold setTop at h
  cases hd : p.drainTillBuf with
  | none =>
    rw [hd] at h
    cases h
  | some drained =>
    obtain ⟨hunread, hstatus⟩ := drainTillBuf_unread hd
    rw [hd] at h
    simp only at h
    split at h
    · cases h
      exact ⟨hunread, hstatus.trans hs⟩
    · split at h
      · cases h
      · cases h
        exact ⟨hunread, rfl⟩

theorem nextTillNewLine_unread {v : ReadBytesOutput} (hle : p.bufCur ≤ p.buf.length)
    (h : p.nextTillNewLine = some (q, .ok (some v))) : q.unread < p.unread ∧ q.status = p.status := by
  obtain ⟨_, cur, _, hf, _, rfl, _⟩ := nextTillNewLine_spec h
  obtain ⟨hge, hin⟩ := findCrlf_bounds hle hf
  simp only [if_true] at hin
  refine ⟨?_, rfl⟩
  simp only [unread]
  omega

theorem parseLine_work (hs : p.status = .type) (hle : p.bufCur ≤ p.buf.length) (h : p.parseLine = .again q) :
    q.unread < p.unread := by
  unfold parseLine at h
  split at h
  · cases h
  · rename_i hnext
    obtain ⟨hlt, hstatus⟩ := nextTillNewLine_unread hle hnext
    rw [(setTop_unread (hstatus.trans hs) h).1]
    exact hlt
  · cases h
  · cases h

theorem parseHeader_work (hle : p.bufCur ≤ p.buf.length) (h : p.parseHeader = .again q) : q.unread < p.unread := by
  unfold parseHeader at h
  split at h
  · cases h
  · rename_i hnext
    obtain ⟨hlt, _⟩ := nextTillNewLine_unread hle hnext
    split at h
    · cases h
    · rename_i drained hd
      obtain ⟨hunread, _⟩ := drainTillBuf_unread hd
      have hq : q.unread = drained.unread := by
        split at h
        · cases h
          rfl
        · split at h
          · cases h
          · split at h
            · cases h
            · cases h
              rfl
      rw [hq, hunread]
      exact hlt
  · cases h
  · cases h

theorem readBytes_none {n size : Nat} (hadd : wrappingAdd n (if isRdb then 0 else 2) = size)
    (h : p.readBytes n isRdb = some (q, .ok none)) :
    (q = if 0 < min (size - wrappingSub p.bufCur p.tmpStart) p.buf.length then
        { p with bufCur := wrappingAdd p.bufCur (min (size - wrappingSub p.bufCur p.tmpStart) p.buf.length) } else p) ∧
      ¬ (q.bufCur ≤ q.buf.length ∧ wrappingSub q.bufCur q.tmpStart = size) := by
  unfold readBytes at h
  simp only [hadd, Option.bind_eq_bind] at h
  generalize (if 0 < min (size - wrappingSub p.bufCur p.tmpStart) p.buf.length then
      { p with bufCur := wrappingAdd p.bufCur (min (size - wrappingSub p.bufCur p.tmpStart) p.buf.length) } else p) =
    moved at h ⊢
  split at h
  · exfalso
    split at h
    · rw [Option.bind_eq_some_iff] at h
      obtain ⟨_, _, h⟩ := h
      cases h
    · rw [Option.bind_eq_some_iff] at h
      obtain ⟨_, _, h⟩ := h
      split at h
      · rw [Option.bind_eq_some_iff] at h
        obtain ⟨_, _, h⟩ := h
        split at h
        · rw [Option.bind_eq_some_iff] at h
          obtain ⟨_, _, h⟩ := h
          split at h <;> cases h
        · cases h
      · cases h
  · rename_i hshort
    cases h
    exact ⟨rfl, hshort⟩

/-- While a byte is there, the cursor moves as long as the body is not complete. -/
theorem readBytes_moves {n size : Nat} (hsize : size = n + if isRdb then 0 else 2) (hmax : size < 2 ^ 64)
    (hstart : p.tmpStart = 0) (hcur : p.bufCur ≤ size) (hlt : p.bufCur < p.buf.length)
    (h : p.readBytes n isRdb = some (q, .ok none)) : p.bufCur < q.bufCur := by
  have hadd : wrappingAdd n (if isRdb then 0 else 2) = size := by rw [wrappingAdd_eq (by omega), hsize]
  have hsub : wrappingSub p.bufCur p.tmpStart = p.bufCur := by
    rw [hstart, wrappingSub_eq (Nat.zero_le _) (by omega), Nat.sub_zero]
  obtain ⟨hq, hshort⟩ := readBytes_none hadd h
  rw [hsub] at hq
  by_cases hmore : p.bufCur < size
  · rw [if_pos (by omega), wrappingAdd_eq (by omega)] at hq
    rw [hq]
    simp only
    omega
  · rw [if_neg (by omega)] at hq
    rw [hq, hsub] at hshort
    exact absurd ⟨Nat.le_of_lt hlt, by omega⟩ hshort

theorem Cursors.parseBulk_work {n : Nat} (hp : p.Cursors) (hs : p.status = if isRdb then .rdb n else .bulk n)
    (hlt : p.bufCur < p.buf.length) (h : { p with status := .type }.parseBulk n isRdb = .again q) :
    q.work < p.work := by
  obtain ⟨hstart, hcur, hmax⟩ := hp.body hs
  have hother : p.status ≠ .type := by
    rw [hs]
    cases isRdb <;> simp
  obtain ⟨cur, r, hread, hge, _, _⟩ := @readBytes_inside { p with status := .type } n _ isRdb rfl hmax hstart hcur
  unfold parseBulk at h
  rw [hread] at h
  cases r with
  | error e =>
    cases h
    apply work_lt_of_type _ hother rfl
    simp only [unread] at hge ⊢
    omega
  | ok o =>
    cases o with
    | none =>
      have hmoves := @readBytes_moves { p with status := .type } _ isRdb n _ rfl hmax hstart hcur hlt hread
      cases h
      apply work_lt_of_consumed
      simp only [unread] at hmoves ⊢
      omega
    | some v =>
      obtain ⟨hunread, hstatus⟩ := @setTop_unread { p with bufCur := cur, status := .type } q v rfl h
      apply work_lt_of_type _ hother hstatus
      rw [hunread]
      simp only [unread] at hge ⊢
      omega

/-- A turn that does not return leaves less to be done. -/
theorem Cursors.turn_work (h : p.Cursors) (hagain : p.turn isRdb = .again q) : q.work < p.work := by
  have hpop := h.popCompleted
  rw [← work_popCompleted p]
  unfold RespParser.turn at hagain
  simp only at hagain
  generalize p.popCompleted = p' at hpop hagain ⊢
  split at hagain
  · cases hagain
  · split at hagain
    · cases hagain
    · rename_i hbuf
      have hlt : p'.bufCur < p'.buf.length := by
        apply Nat.lt_of_not_le
        intro hle
        exact hbuf (.inr hle)
      split at hagain
      · rename_i hs
        have hwork := @parseType_work { p' with status := .type } q isRdb hlt hagain
        have hsame : ({ p' with status := .type } : RespParser).work = p'.work := by
          unfold work owed
          rw [hs]
          rfl
        rwa [hsame] at hwork
      · have hless := @parseHeader_work { p' with status := .type } q (Nat.le_of_lt hlt) hagain
        exact work_lt_of_consumed hless
      · have hless := @parseLine_work { p' with status := .type } q rfl (Nat.le_of_lt hlt) hagain
        exact work_lt_of_consumed hless
      · rename_i n hs
        exact @Cursors.parseBulk_work p' q false n hpop hs hlt hagain
      · rename_i n hs
        exact @Cursors.parseBulk_work p' q true n hpop hs hlt hagain
      · rename_i hs
        cases hagain
        exact work_lt_of_type (Nat.le_refl _) (by rw [hs]; simp) rfl

/-! ## The loop -/

def SmallBodies (isRdb : Bool) (p : RespParser) : Prop :=
  ∀ n q, Run Acts p (List.replicate n (.turn isRdb)) q → q.SmallBody

theorem SmallBodies.now (h : p.SmallBodies isRdb) : p.SmallBody := h 0 p .nil

theorem SmallBodies.later (h : p.SmallBodies isRdb) (hagain : p.turn isRdb = .again q) : q.SmallBodies isRdb :=
  fun n r hr => h (n + 1) r (.cons (.inl hagain) hr)

/-- As many turns are enough as there is work, and one to return. -/
theorem Cursors.parse_ends {fuel : Nat} (h : p.Cursors) (hsmall : p.SmallBodies isRdb) (hfuel : p.work < fuel) :
    ∃ q r, p.parse isRdb fuel = some (q, r) := by
  induction fuel generalizing p with
  | zero => omega
  | succ fuel ih =>
    have hlands := @Cursors.turn p isRdb h hsmall.now
    unfold parse
    cases ht : p.turn isRdb with
    | crash =>
      rw [ht] at hlands
      cases hlands
    | ret q r => exact ⟨q, r, rfl⟩
    | again q =>
      rw [ht] at hlands
      have hless := h.turn_work ht
      apply ih hlands (hsmall.later ht)
      omega

/-- Whatever comes in, as long as no body is announced that is too long, `parse`
returns after at most two turns for each byte that is not consumed yet, and two more. -/
theorem run_parse_ends {acts : List Act} (h : Run (guarded SmallAct Acts) new acts p) (hsmall : p.SmallBodies isRdb) :
    ∃ q r, p.parse isRdb (2 * (p.buf.length - p.bufCur) + 2) = some (q, r) := by
  have hp : p.Cursors := h.inv (fun _ _ _ _ hp hs => hp.act hs) cursors_new
  apply hp.parse_ends hsmall
  have howed := p.owed_le
  unfold work unread
  omega

theorem SmallBodies.of_again (hsmall : p.SmallBody) (hagain : p.turn isRdb = .again q) (h : q.SmallBodies isRdb) :
    p.SmallBodies isRdb := by
  intro n r hr
  cases n with
  | zero =>
    cases hr
    exact hsmall
  | succ n =>
    cases hr with
    | cons hs hr =>
      rcases hs with hs | ⟨_, hs⟩
      · rw [hagain] at hs
        cases hs
        exact h n r hr
      · rw [hagain] at hs
        cases hs

theorem SmallBodies.of_ret {o : Except ParseError Unit} (hsmall : p.SmallBody) (hret : p.turn isRdb = .ret p o) :
    p.SmallBodies isRdb := by
  intro n r hr
  have hstays : r = p := by
    apply hr.inv (I := (· = p)) _ rfl
    intro s e t he hs hact
    obtain rfl := List.eq_of_mem_replicate he
    subst hs
    rcases hact with hact | ⟨_, hact⟩
    · rw [hret] at hact
      cases hact
    · rw [hret] at hact
      cases hact
      rfl
  rwa [hstays]

theorem run_parse_ends_short : ∃ p, Run (guarded SmallAct Acts) new
      [.feed (36 :: (utf8 (toString 9) ++ delimiter ++ [97, 98]))] p ∧
    ∃ q r, p.parse false (2 * (p.buf.length - p.bufCur) + 2) = some (q, r) := by
  have hheaded : Headed false 36 (.bulkStr 0 none) .bulk := .bulkStr rfl
  have hopen := @Headed.turn_type false [] _ _ _ hheaded trivial (utf8 (toString 9) ++ delimiter ++ [97, 98])
  have hheader := @Headed.turn_header false [] 36 [97, 98] _ _ 9 0 hheaded (by decide) (Nat.zero_le _)
  have hbody : (between [.bulkStr 9 none] [97, 98] (.bulk 9)).turn false =
      .again { between [.bulkStr 9 none] [97, 98] (.bulk 9) with bufCur := 2 } := rfl
  have hwaits : SmallBodies false { between [.bulkStr 9 none] [97, 98] (.bulk 9) with bufCur := 2 } := by
    apply SmallBodies.of_ret (smallBody_of_status ParseStatus.noConfusion)
    rfl
  have hstarted := SmallBodies.of_again (smallBody_of_status ParseStatus.noConfusion) hbody hwaits
  have hannounced := SmallBodies.of_again (fun n hn => by cases hn.turn hheader; decide) hheader hstarted
  have hsmall := SmallBodies.of_again (smallBody_of_status ParseStatus.noConfusion) hopen hannounced
  have hr : Run (guarded SmallAct Acts) new [.feed (36 :: (utf8 (toString 9) ++ delimiter ++ [97, 98]))]
      (between [] (36 :: (utf8 (toString 9) ++ delimiter ++ [97, 98])) .type) := by
    apply Run.cons _ .nil
    refine ⟨?_, rfl⟩
    intro isRdb hact
    cases hact
  exact ⟨_, hr, run_parse_ends hr hsmall⟩

end

end RespParser

end Redis
