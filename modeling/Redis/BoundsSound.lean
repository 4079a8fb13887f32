import Redis.Lib.Runs
import Redis.Turns

/-!
# The cursors of the parser

The cursors stay inside the buffer, or inside the body that is read, which may be
longer than what has come in. So nothing is out of range, unless the length of a
body is so large that adding the two bytes of its CRLF wraps around.
-/

namespace Redis

open Lib

namespace RespParser

/-! ## The invariant -/

/-- In a body the cursor may be past the buffer, but not past the body. -/
structure Cursors (p : RespParser) : Prop where
  start : p.tmpStart ≤ p.bufCur
  inside : match p.status with
    | .bulk n => p.tmpStart = 0 ∧ p.bufCur ≤ n + 2 ∧ n + 2 < 2 ^ 64
    | .rdb n => p.tmpStart = 0 ∧ p.bufCur ≤ n ∧ n < 2 ^ 64
    | _ => p.bufCur ≤ p.buf.length

theorem cursors_new : new.Cursors := ⟨Nat.le_refl 0, Nat.le_refl 0⟩

theorem Cursors.congr {p q : RespParser} (h : p.Cursors) (hcur : q.bufCur = p.bufCur) (hstart : q.tmpStart = p.tmpStart)
    (hs : q.status = p.status) (hbuf : p.buf.length ≤ q.buf.length) : q.Cursors := by
  refine ⟨by rw [hcur, hstart]; exact h.start, ?_⟩
  have hin := h.inside
  rw [hs, hcur, hstart]
  cases hst : p.status with
  | bulk n => rwa [hst] at hin
  | rdb n => rwa [hst] at hin
  | _ =>
    rw [hst] at hin
    exact Nat.le_trans hin hbuf

theorem Cursors.feedBuf {p : RespParser} (h : p.Cursors) (data : Bytes) : (p.feedBuf data).Cursors :=
  h.congr rfl rfl rfl (by simp [RespParser.feedBuf])

theorem Cursors.getCompleted {p q : RespParser} {t : RespType} (h : p.Cursors) (hg : p.getCompleted = some (t, q)) :
    q.Cursors := by
  unfold RespParser.getCompleted at hg
  split at hg
  · cases hg
  · cases hg
    exact h.congr rfl rfl rfl (Nat.le_refl _)

theorem Cursors.popCompleted {p : RespParser} (h : p.Cursors) : p.popCompleted.Cursors := by
  unfold RespParser.popCompleted
  split
  · exact h
  · exact h.congr rfl rfl rfl (Nat.le_refl _)

/-! ## Lines -/

theorem findCrlf_bounds {buf : Bytes} {cur cur' : Nat} {found : Bool} (hle : cur ≤ buf.length)
    (hf : findCrlf (buf.drop cur) cur = (cur', found)) :
    cur ≤ cur' ∧ (if found then cur' + 2 else cur') ≤ buf.length := by
  have hshort : ¬ delimiter <:+: [] ++ (buf.drop cur).take 1 := by
    intro h
    have := h.length_le
    simp only [delimiter, List.nil_append, List.length_cons, List.length_nil, List.length_take] at this
    omega
  obtain ⟨more, tail, hsplit, hcur, _, _, hfound⟩ := findCrlf_spec (buf.drop cur) [] cur cur' found hshort hf
  have hlength := congrArg List.length hsplit
  rw [List.length_drop, List.length_append] at hlength
  refine ⟨by omega, ?_⟩
  cases found with
  | false =>
    simp only [Bool.false_eq_true, if_false]
    omega
  | true =>
    obtain ⟨rest, rfl⟩ := hfound
    simp only [if_true, delimiter, List.length_append, List.length_cons, List.length_nil] at hlength ⊢
    omega

theorem nextTillNewLine_inside {p : RespParser} (hstart : p.tmpStart ≤ p.bufCur) (hle : p.bufCur ≤ p.buf.length) :
    ∃ cur start r, p.nextTillNewLine = some ({ p with bufCur := cur, tmpStart := start }, r) ∧ start ≤ cur ∧
      cur ≤ p.buf.length ∧ ∀ v, r = .ok (some v) → ∃ s, v = .string s := by
  unfold nextTillNewLine
  rw [if_neg (Nat.not_lt.mpr hle)]
  cases hf : findCrlf (p.buf.drop p.bufCur) p.bufCur with
  | mk cur found =>
    obtain ⟨hge, hin⟩ := findCrlf_bounds hle hf
    cases found with
    | false => exact ⟨cur, p.tmpStart, .ok none, rfl, by omega, hin, fun v hv => by cases hv⟩
    | true =>
      simp only [if_true] at hin
      have hslice : slice p.buf p.tmpStart cur = some ((p.buf.drop p.tmpStart).take (cur - p.tmpStart)) := by
        unfold slice
        rw [if_pos ⟨by omega, by omega⟩]
      simp only [hslice, Option.bind_eq_bind, Option.bind_some]
      cases hs : fromUtf8 ((p.buf.drop p.tmpStart).take (cur - p.tmpStart)) with
      | none => exact ⟨cur, p.tmpStart, .error .utf8, rfl, by omega, by omega, fun v hv => by cases hv⟩
      | some s =>
        refine ⟨cur + 2, cur + 2, .ok (some (.string s)), rfl, Nat.le_refl _, hin, ?_⟩
        rintro v hv
        cases hv
        exact ⟨s, rfl⟩

/-! ## Bodies -/

/-- Reading a body stays in it, and is out of range of nothing. -/
theorem readBytes_inside {p : RespParser} {n size : Nat} {isRdb : Bool} (hsize : size = n + if isRdb then 0 else 2)
    (hmax : size < 2 ^ 64) (hstart : p.tmpStart = 0) (hcur : p.bufCur ≤ size) :
    ∃ cur r, p.readBytes n isRdb = some ({ p with bufCur := cur }, r) ∧ p.bufCur ≤ cur ∧ cur ≤ size ∧
      (r ≠ .ok none → cur ≤ p.buf.length ∧ cur = size) := by
  have hadd : wrappingAdd n (if isRdb then 0 else 2) = size := by rw [wrappingAdd_eq (by omega), hsize]
  have hsub : ∀ k, k ≤ size → wrappingSub k p.tmpStart = k := fun k hk => by
    rw [hstart, wrappingSub_eq (Nat.zero_le k) (by omega), Nat.sub_zero]
  generalize hnext : min (size - p.bufCur) p.buf.length = next
  have hforward : (if 0 < next then { p with bufCur := wrappingAdd p.bufCur next } else p) =
      { p with bufCur := p.bufCur + next } := by
    split
    · rw [wrappingAdd_eq (by omega)]
    · have hzero : next = 0 := by omega
      rw [hzero, Nat.add_zero]
  have hle : p.bufCur + next ≤ size := by omega
  unfold readBytes
  simp only [hadd, hsub p.bufCur hcur, hnext, hforward, hsub _ hle]
  by_cases hdone : p.bufCur + next ≤ p.buf.length ∧ p.bufCur + next = size
  · rw [if_pos hdone]
    have hslice : ∀ stop, stop ≤ p.buf.length → ∃ v, slice p.buf p.tmpStart stop = some v := by
      intro stop hstop
      unfold slice
      rw [if_pos ⟨by omega, hstop⟩]
      exact ⟨_, rfl⟩
    cases isRdb with
    | true =>
      obtain ⟨v, hv⟩ := hslice _ hdone.1
      simp only [if_true, hv, Option.bind_eq_bind, Option.bind_some]
      exact ⟨_, _, rfl, Nat.le_add_right .., hle, fun _ => hdone⟩
    | false =>
      simp only [Bool.false_eq_true, if_false] at hsize hadd ⊢
      have hfirst : wrappingAdd p.tmpStart n = n := by rw [hstart, wrappingAdd_eq (by omega), Nat.zero_add]
      have hsecond : wrappingAdd n 1 = n + 1 := wrappingAdd_eq (by omega)
      have hback : wrappingSub (p.bufCur + next) 2 = n := by rw [wrappingSub_eq (by omega) (by omega)]; omega
      have hn : n < p.buf.length := by omega
      have hn1 : n + 1 < p.buf.length := by omega
      obtain ⟨v, hv⟩ := hslice n (by omega)
      simp only [hfirst, hsecond, hback, List.getElem?_eq_getElem hn, List.getElem?_eq_getElem hn1, hv,
        Option.bind_eq_bind, Option.bind_some]
      split
      · split
        · split
          · exact ⟨_, _, rfl, Nat.le_add_right .., hle, fun _ => hdone⟩
          · exact ⟨_, _, rfl, Nat.le_add_right .., hle, fun _ => hdone⟩
        · exact ⟨_, _, rfl, Nat.le_add_right .., hle, fun _ => hdone⟩
      · exact ⟨_, _, rfl, Nat.le_add_right .., hle, fun _ => hdone⟩
  · rw [if_neg hdone]
    exact ⟨_, _, rfl, Nat.le_add_right .., hle, fun hne => absurd rfl hne⟩

/-! ## A turn -/

def Lands : Turn → Prop
  | .again p | .ret p _ => p.Cursors
  | .crash => False

/-- The header that is read announces a body of `n` bytes and its CRLF. -/
def Announces (q : RespParser) (n : Nat) : Prop :=
  ∃ t below s m cur, q.status = .header ∧ q.stack = t :: below ∧
    findCrlf (q.buf.drop q.bufCur) q.bufCur = (cur, true) ∧ slice q.buf q.tmpStart cur = some (utf8 s) ∧
    parseUint u64Max s = .ok m ∧ (t.setLength m).headed m = .bulk n

theorem parseType_lands {q : RespParser} {isRdb : Bool} (hs : q.status = .type) (h : q.Cursors) :
    Lands (q.parseType isRdb) := by
  have hin := h.inside
  rw [hs] at hin
  simp only at hin
  have hf := findType_spec isRdb (q.buf.drop q.bufCur) q.bufCur _ _ rfl
  unfold parseType nextTillType
  cases hfind : findType isRdb (q.buf.drop q.bufCur) q.bufCur with
  | mk cur o =>
    rw [hfind] at hf
    cases o with
    | none =>
      obtain ⟨hcur, _⟩ := hf
      rw [List.length_drop] at hcur
      have hstart := h.start
      refine ⟨?_, ?_⟩ <;> simp only <;> omega
    | some t =>
      obtain ⟨pre, b, rest, hd, _, _, hcur⟩ := hf
      have hlength := congrArg List.length hd
      rw [List.length_drop, List.length_append, List.length_cons] at hlength
      have hle : cur ≤ q.buf.length := by omega
      simp only
      split
      · exact ⟨Nat.le_refl cur, hle⟩
      · exact ⟨Nat.le_refl cur, hle⟩
      · exact ⟨Nat.le_refl cur, hle⟩
      · exact ⟨Nat.le_refl cur, hle⟩
      · exact ⟨Nat.le_refl cur, hle⟩
      · exact ⟨Nat.le_refl cur, by rw [hs]; exact hle⟩

theorem cursors_drained {p : RespParser} (hcur : p.bufCur = 0) (hstart : p.tmpStart = 0) (hs : p.status = .type) :
    p.Cursors :=
  ⟨by omega, by rw [hs]; simp [hcur]⟩

theorem setTop_lands {p : RespParser} (v : ReadBytesOutput) (hs : p.status = .type) (hle : p.bufCur ≤ p.buf.length) :
    Lands (p.setTop v) := by
  unfold setTop drainTillBuf
  simp only [if_pos hle]
  split
  · exact cursors_drained rfl rfl hs
  · split
    · exact cursors_drained rfl rfl hs
    · exact cursors_drained rfl rfl rfl

theorem headed_rdb {t : RespType} {m n : Nat} (h : t.headed m = .rdb n) : m = n := by
  cases t <;> first | exact ParseStatus.rdb.inj h | cases h

theorem parseHeader_lands {q : RespParser} (hs : q.status = .header) (h : q.Cursors)
    (hsmall : ∀ n, q.Announces n → n + 2 < 2 ^ 64) : Lands { q with status := .type }.parseHeader := by
  have hin := h.inside
  rw [hs] at hin
  obtain ⟨cur, start, r, hnext, hsc, hle, hstr⟩ := @nextTillNewLine_inside { q with status := .type } h.start hin
  have hspec := nextTillNewLine_spec hnext
  unfold parseHeader
  rw [hnext]
  cases r with
  | error e => exact ⟨hsc, hle⟩
  | ok o =>
    cases o with
    | none => exact ⟨hsc, hle⟩
    | some v =>
      obtain ⟨str, k, rfl, hf, hv, _, _⟩ := hspec
      unfold drainTillBuf
      simp only [if_pos hle]
      split
      · exact cursors_drained rfl rfl rfl
      · rename_i t below hstack
        simp only [ReadBytesOutput.str]
        split
        · exact cursors_drained rfl rfl rfl
        · rename_i m hm
          have hlands : Cursors { q with
              buf := q.buf.drop cur, bufCur := 0, tmpStart := 0
              stack := t.setLength m :: below, status := (t.setLength m).headed m } := by
            refine ⟨Nat.le_refl 0, ?_⟩
            cases hst : (t.setLength m).headed m with
            | bulk n => exact ⟨rfl, Nat.zero_le _, hsmall n ⟨t, below, str, m, k, hs, hstack, hf, hv, hm, hst⟩⟩
            | rdb n =>
              have hmax := parseUint_le hm
              unfold u64Max at hmax
              obtain rfl := headed_rdb hst
              exact ⟨rfl, Nat.zero_le _, by omega⟩
            | _ => exact Nat.zero_le _
          cases t <;> exact hlands

theorem parseLine_lands {q : RespParser} (hs : q.status = .line) (h : q.Cursors) :
    Lands { q with status := .type }.parseLine := by
  have hin := h.inside
  rw [hs] at hin
  obtain ⟨cur, start, r, hnext, hsc, hle, _⟩ := @nextTillNewLine_inside { q with status := .type } h.start hin
  unfold parseLine
  rw [hnext]
  cases r with
  | error e => exact ⟨hsc, hle⟩
  | ok o =>
    cases o with
    | none => exact ⟨hsc, hle⟩
    | some v => exact setTop_lands v rfl hle

theorem Cursors.body {q : RespParser} {n : Nat} {isRdb : Bool} (h : q.Cursors)
    (hs : q.status = if isRdb then .rdb n else .bulk n) :
    q.tmpStart = 0 ∧ q.bufCur ≤ (n + if isRdb then 0 else 2) ∧ (n + if isRdb then 0 else 2) < 2 ^ 64 := by
  have hin := h.inside
  rw [hs] at hin
  cases isRdb <;> exact hin

theorem parseBulk_lands {q : RespParser} {n : Nat} {isRdb : Bool} (hs : q.status = if isRdb then .rdb n else .bulk n)
    (h : q.Cursors) : Lands ({ q with status := .type }.parseBulk n isRdb) := by
  obtain ⟨hstart, hcur, hmax⟩ := h.body hs
  obtain ⟨cur, r, hread, _, hle, hdone⟩ := @readBytes_inside { q with status := .type } n _ isRdb rfl hmax hstart hcur
  unfold parseBulk
  rw [hread]
  cases r with
  | error e => exact ⟨by simp only [hstart]; exact Nat.zero_le _, (hdone (by simp)).1⟩
  | ok o =>
    cases o with
    | none =>
      refine ⟨by simp only [hstart]; exact Nat.zero_le _, ?_⟩
      cases isRdb <;> exact ⟨hstart, hle, hmax⟩
    | some v => exact setTop_lands v rfl (hdone (by simp)).1

/-- A turn lands if it does not read the header of a body that is too long. -/
theorem Cursors.turn {p : RespParser} {isRdb : Bool} (h : p.Cursors)
    (hsmall : ∀ n, p.popCompleted.Announces n → n + 2 < 2 ^ 64) : Lands (p.turn isRdb) := by
  have hpop := h.popCompleted
  unfold RespParser.turn
  simp only
  split
  · exact hpop
  · split
    · exact hpop
    · split
      · rename_i hs
        exact parseType_lands rfl ⟨hpop.start, by have hin := hpop.inside; rwa [hs] at hin⟩
      · rename_i hs
        exact parseHeader_lands hs hpop hsmall
      · rename_i hs
        exact parseLine_lands hs hpop
      · rename_i n hs
        exact @parseBulk_lands _ n false hs hpop
      · rename_i n hs
        exact @parseBulk_lands _ n true hs hpop
      · rename_i hs
        exact ⟨hpop.start, by have hin := hpop.inside; rwa [hs] at hin⟩

/-! ## Runs -/

/-- Bytes come in, `parse` takes a turn, with either flag, a completed value is taken out. -/
inductive Act where
  | feed (data : Bytes)
  | turn (isRdb : Bool)
  | take

def Acts (p : RespParser) : Act → RespParser → Prop
  | .feed data, q => q = p.feedBuf data
  | .turn isRdb, q => p.turn isRdb = .again q ∨ ∃ r, p.turn isRdb = .ret q r
  | .take, q => ∃ t, p.getCompleted = some (t, q)

inductive Crashes (isRdb : Bool) : RespParser → Prop
  | now {p} : p.turn isRdb = .crash → Crashes isRdb p
  | later {p q} : p.turn isRdb = .again q → Crashes isRdb q → Crashes isRdb p

/-- No body that is announced is so long that the length of its CRLF wraps around. -/
def SmallBody (p : RespParser) : Prop := ∀ n, p.popCompleted.Announces n → n + 2 < 2 ^ 64

def SmallAct (p : RespParser) (a : Act) : Prop := ∀ isRdb, a = .turn isRdb → p.SmallBody

/-- The differences of cursors that the next turn takes are not negative. -/
def InOrder (q : RespParser) : Prop :=
  q.tmpStart ≤ q.bufCur ∧
    match q.status with
    | .bulk n => ∀ q' r, q.readBytes n false = some (q', r) → q.tmpStart ≤ q'.bufCur ∧ (r ≠ .ok none → 2 ≤ q'.bufCur)
    | .rdb n => ∀ q' r, q.readBytes n true = some (q', r) → q.tmpStart ≤ q'.bufCur
    | _ => q.bufCur ≤ q.buf.length

theorem Cursors.inOrder {q : RespParser} (h : q.Cursors) : q.InOrder := by
  refine ⟨h.start, ?_⟩
  have hin := h.inside
  cases hs : q.status with
  | bulk n =>
    rw [hs] at hin
    obtain ⟨hstart, hcur, hmax⟩ := hin
    obtain ⟨cur, r, hread, _, _, hdone⟩ := @readBytes_inside q n (n + 2) false rfl hmax hstart hcur
    intro q' r' hq'
    cases hread.symm.trans hq'
    exact ⟨by simp [hstart], fun hne => by have := (hdone hne).2; simp only; omega⟩
  | rdb n =>
    rw [hs] at hin
    obtain ⟨hstart, hcur, hmax⟩ := hin
    intro q' r' _
    rw [hstart]
    exact Nat.zero_le _
  | _ =>
    rw [hs] at hin
    exact hin

theorem Cursors.act {p q : RespParser} {a : Act} (h : p.Cursors) (hs : guarded SmallAct Acts p a q) : q.Cursors := by
  obtain ⟨hsmall, hs⟩ := hs
  cases a with
  | feed data =>
    cases hs
    exact h.feedBuf data
  | take =>
    obtain ⟨t, ht⟩ := hs
    exact h.getCompleted ht
  | turn isRdb =>
    have hlands := @Cursors.turn p isRdb h (hsmall isRdb rfl)
    rcases hs with ht | ⟨r, ht⟩
    · rw [ht] at hlands
      exact hlands
    · rw [ht] at hlands
      exact hlands

/-- A call of `parse` crashes only if one of its turns reads the header of a body
that is too long. -/
theorem Cursors.crashes {p : RespParser} {isRdb : Bool} (h : p.Cursors) (hc : p.Crashes isRdb) :
    ∃ n q, Run Acts p (List.replicate n (.turn isRdb)) q ∧ ¬ q.SmallBody := by
  induction hc with
  | @now p hcrash =>
    refine ⟨0, p, .nil, fun hsmall => ?_⟩
    have hlands := @Cursors.turn p isRdb h hsmall
    rw [hcrash] at hlands
    exact hlands
  | @later p q hagain _ ih =>
    by_cases hsmall : p.SmallBody
    · have hlands := @Cursors.turn p isRdb h hsmall
      rw [hagain] at hlands
      obtain ⟨n, r, hr, hbig⟩ := ih hlands
      exact ⟨n + 1, r, .cons (.inl hagain) hr, hbig⟩
    · exact ⟨0, p, .nil, hsmall⟩

theorem smallBody_of_status {p : RespParser} (hs : p.status ≠ .header) : p.SmallBody := by
  rintro n ⟨_, _, _, _, _, hstatus, _⟩
  rw [popCompleted_status] at hstatus
  exact absurd hstatus hs

theorem Announces.turn {p q : RespParser} {isRdb : Bool} {n : Nat} (h : p.popCompleted.Announces n)
    (hagain : p.turn isRdb = .again q) :
    q.status = .bulk n := by
  obtain ⟨t, below, s, m, cur, hs, hstack, hfind, hslice, hparse, hheaded⟩ := h
  have hturned := turn_cases p isRdb
  rw [hagain] at hturned
  cases hturned with
  | header _ hstack' hfind' hslice' hparse' =>
    rw [hstack] at hstack'
    cases hstack'
    rw [hfind] at hfind'
    cases hfind'
    rw [hslice] at hslice'
    obtain rfl := utf8_inj (Option.some.inj hslice')
    rw [hparse] at hparse'
    cases hparse'
    exact hheaded
  | more hbody =>
    obtain ⟨k, hk | hk⟩ := hbody
    · rw [hs] at hk
      cases hk
    · rw [hs] at hk
      cases hk
  | unstacked hnil =>
    rw [hstack] at hnil
    cases hnil
  | opens hother | skips hother | line hother | bulk hother | rdb hother | dropped hother | none hother =>
    rw [hs] at hother
    cases hother

/-- Whatever comes in, as long as no body is announced that is too long, `parse`
is out of range of nothing and subtracts no cursor from a smaller one. -/
theorem run_in_range {acts : List Act} {p : RespParser} (h : Run (guarded SmallAct Acts) new acts p) :
    p.popCompleted.InOrder ∧
      ∀ isRdb, p.Crashes isRdb → ∃ n q, Run Acts p (List.replicate n (.turn isRdb)) q ∧ ¬ q.SmallBody := by
  have hp : p.Cursors := h.inv (fun _ _ _ _ hp hs => hp.act hs) cursors_new
  exact ⟨hp.popCompleted.inOrder, fun _ hc => hp.crashes hc⟩

def pingBulk : Bytes := 36 :: (utf8 (toString 4) ++ delimiter ++ (utf8 "PING" ++ delimiter))

theorem run_in_range_ping : ∃ p, Run (guarded SmallAct Acts) new
      [.feed pingBulk, .turn false, .turn false, .turn false, .turn false, .take] p ∧ p.popCompleted.InOrder ∧
    ∀ isRdb, p.Crashes isRdb → ∃ n q, Run Acts p (List.replicate n (.turn isRdb)) q ∧ ¬ q.SmallBody := by
  have hheaded : Headed false 36 (.bulkStr 0 none) .bulk := .bulkStr rfl
  have hopen := @Headed.turn_type false [] _ _ _ hheaded trivial
    (utf8 (toString 4) ++ delimiter ++ (utf8 "PING" ++ delimiter))
  have hheader := @Headed.turn_header false [] 36 (utf8 "PING" ++ delimiter) _ _ 4 0 hheaded (by decide) (Nat.zero_le _)
  have hbody := turn_bulk false [] [] (s := "PING") (n := 4) (k := 0) (by decide) (by decide) (by decide) (by decide)
  have hpopped : (between [.bulkStr 4 (some "PING")] [] .type).turn false =
      .ret { between [] [] .type with completed := [.bulkStr 4 (some "PING")] } (.ok ()) := rfl
  have hsmall : SmallAct new (.feed pingBulk) := fun _ hact => by cases hact
  have hother : ∀ {p : RespParser}, p.status ≠ .header → SmallAct p (.turn false) :=
    fun hs _ _ => smallBody_of_status hs
  have hr : Run (guarded SmallAct Acts) new [.feed pingBulk, .turn false, .turn false, .turn false, .turn false, .take]
      (between [] [] .type) := by
    refine .cons ⟨hsmall, rfl⟩ (.cons ⟨hother ParseStatus.noConfusion, .inl hopen⟩ ?_)
    -- the header announces a body of four bytes
    refine .cons ⟨fun _ _ n hn => by cases hn.turn hheader; decide, .inl hheader⟩ ?_
    refine .cons ⟨hother ParseStatus.noConfusion, .inl hbody⟩ ?_
    refine .cons ⟨hother ParseStatus.noConfusion, .inr ⟨_, hpopped⟩⟩ (.cons ⟨fun _ hact => ?_, ⟨_, rfl⟩⟩ .nil)
    cases hact
  exact ⟨_, hr, run_in_range hr⟩

/-- The lengths that are left out make `parse` crash as soon as a byte of the body is there. -/
theorem huge_body {stack : List RespType} {buf : Bytes} {n : Nat} (hw : Waiting stack) (hbuf : buf ≠ [])
    (hsize : buf.length ≤ isizeMax) (hn : n ≤ u64Max) (hhuge : 2 ^ 64 ≤ n + 2) :
    (between stack buf (.bulk n)).turn false = .crash := by
  have hpos : 0 < buf.length := List.length_pos_iff.mpr hbuf
  have hmax : isizeMax < n := by
    unfold isizeMax
    omega
  have hmem : isizeMax < 2 ^ 64 := by decide
  unfold u64Max at hn
  have hadd : wrappingAdd n 2 = n + 2 - 2 ^ 64 := by
    unfold wrappingAdd
    omega
  have hzero : wrappingSub 0 0 = 0 := by decide
  have hnone : buf[n]? = none := List.getElem?_eq_none (by omega)
  have hindex : wrappingAdd 0 n = n := by rw [wrappingAdd_eq (by omega), Nat.zero_add]
  rw [turn_of_waiting hw rfl hpos]
  simp only [between, parseBulk, readBytes, Bool.false_eq_true, if_false, hadd, hzero, Nat.sub_zero]
  generalize hk : min (n + 2 - 2 ^ 64) buf.length = k
  have hforward : (if 0 < k then ({ buf, bufCur := wrappingAdd 0 k, stack } : RespParser) else { buf, stack }) =
      { buf, bufCur := k, stack } := by
    split
    · rw [wrappingAdd_eq (by omega), Nat.zero_add]
    · have hk0 : k = 0 := by omega
      rw [hk0]
  have hdone : k ≤ buf.length ∧ wrappingSub k 0 = n + 2 - 2 ^ 64 := by
    rw [wrappingSub_eq (Nat.zero_le k) (by omega)]
    omega
  simp only [hforward, if_pos hdone, hindex, hnone, Option.bind_eq_bind, Option.bind_none]

theorem huge_body_crashes : ∃ p,
    Run Acts new [.feed (36 :: (utf8 (toString 18446744073709551614) ++ delimiter ++ [120]))] p ∧ p.Crashes false := by
  have hheaded : Headed false 36 (.bulkStr 0 none) .bulk := .bulkStr rfl
  have hn : 18446744073709551614 ≤ u64Max := by decide
  have hopen := @Headed.turn_type false [] _ _ _ hheaded trivial
    (utf8 (toString 18446744073709551614) ++ delimiter ++ [120])
  exact ⟨_, .cons rfl .nil, .later hopen
    (.later (hheaded.turn_header (k := 0) hn (Nat.zero_le _))
      (.now (huge_body rfl (List.cons_ne_nil _ _) (by decide) hn (by decide))))⟩

end RespParser

end Redis
