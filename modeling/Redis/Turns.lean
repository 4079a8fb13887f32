import Redis.ParserSound

/-!
# What a turn of the parser can do

`Turned isRdb q r` lists the outcomes of one turn of the loop of `parse` once
the completed values are popped, each with what it finds in the buffer. The
invariants of the parser are derived from it, branch by branch.
-/

namespace Redis

open Lib

def RespType.opened : RespType → ParseStatus
  | .array .. | .bulkStr .. | .rdb _ => .header
  | .simpleStr _ | .integer _ => .line
  | _ => .type

def RespType.headed (n : Nat) : RespType → ParseStatus
  | .array .. => .type
  | .bulkStr length _ | .bulkError length _ | .verbatimStr length _ => .bulk length
  | .rdb _ => .rdb n
  | _ => .type

theorem length_of_slice {buf v : Bytes} {start stop : Nat} (h : slice buf start stop = some v) :
    v.length = stop - start ∧ stop ≤ buf.length := by
  unfold slice at h
  split at h
  · rename_i hle
    cases h
    simp only [List.length_take, List.length_drop]
    omega
  · cases h

/-! ## Scanning -/

theorem findType_spec (isRdb : Bool) (bs : Bytes) :
    ∀ cur cur' o, findType isRdb bs cur = (cur', o) →
      match o with
      | none => cur' = cur + bs.length ∧ ∀ b ∈ bs, RespType.matchPrefix b isRdb = none
      | some t => ∃ pre b rest, bs = pre ++ b :: rest ∧ (∀ x ∈ pre, RespType.matchPrefix x isRdb = none) ∧
          RespType.matchPrefix b isRdb = some t ∧ cur' = cur + pre.length + 1 := by
  induction bs with
  | nil =>
    intro cur cur' o h
    cases h
    simp
  | cons b bs ih =>
    intro cur cur' o h
    rw [findType] at h
    cases hb : RespType.matchPrefix b isRdb with
    | some t =>
      rw [hb] at h
      cases h
      exact ⟨[], b, bs, rfl, by simp, hb, rfl⟩
    | none =>
      rw [hb] at h
      have := ih (cur + 1) cur' o h
      cases o with
      | none =>
        refine ⟨by simp only [List.length_cons]; omega, ?_⟩
        intro x hx
        cases hx with
        | head => exact hb
        | tail _ hx => exact this.2 x hx
      | some t =>
        obtain ⟨pre, c, rest, rfl, hpre, hc, hcur⟩ := this
        refine ⟨b :: pre, c, rest, rfl, ?_, hc, by simp only [List.length_cons]; omega⟩
        intro x hx
        cases hx with
        | head => exact hb
        | tail _ hx => exact hpre x hx

theorem delimiter_infix_snoc (l : Bytes) (b c : UInt8) :
    delimiter <:+: l ++ [b] ++ [c] ↔ delimiter <:+: l ++ [b] ∨ (b = 13 ∧ c = 10) := by
  rw [List.infix_concat_iff, or_comm]
  refine or_congr Iff.rfl ?_
  rw [← List.reverse_prefix]
  simp [delimiter, and_comm, eq_comm]

/-- The scan goes over bytes that end no line together with what was read before. -/
theorem findCrlf_spec (bs : Bytes) :
    ∀ line cur cur' found, ¬ delimiter <:+: line ++ bs.take 1 → findCrlf bs cur = (cur', found) →
      ∃ more tail, bs = more ++ tail ∧ cur' = cur + more.length ∧ ¬ delimiter <:+: line ++ more ++ tail.take 1 ∧
        (tail = [] → more = []) ∧ if found then ∃ rest, tail = delimiter ++ rest else tail.length ≤ 1 := by
  induction bs with
  | nil =>
    intro line cur cur' found hno h
    cases h
    exact ⟨[], [], rfl, rfl, by simpa using hno, fun _ => rfl, by simp⟩
  | cons b bs ih =>
    intro line cur cur' found hno h
    cases bs with
    | nil =>
      cases h
      exact ⟨[], [b], rfl, rfl, by simpa using hno, fun _ => rfl, by simp⟩
    | cons c bs =>
      rw [findCrlf] at h
      by_cases hb : b = 13 ∧ c = 10
      · rw [if_pos hb] at h
        cases h
        exact ⟨[], b :: c :: bs, rfl, rfl, by simpa using hno, fun _ => rfl, bs, by simp [delimiter, hb]⟩
      · rw [if_neg hb] at h
        have hno' : ¬ delimiter <:+: line ++ [b] ++ [c] := by
          rw [delimiter_infix_snoc]
          rintro (h | h)
          · exact hno (by simpa using h)
          · exact hb h
        obtain ⟨more, tail, hbs, hcur, hmore, hne, hfound⟩ :=
          ih (line ++ [b]) (cur + 1) cur' found (by simpa using hno') h
        refine ⟨b :: more, tail, by rw [hbs]; rfl, by simp only [List.length_cons]; omega, by simpa using hmore, ?_,
          hfound⟩
        intro ht
        rw [ht, hne ht] at hbs
        cases hbs

namespace RespParser

/-- All of the line that was looked at holds no CRLF, its last byte together
with the next one included. -/
def Scanned (p : RespParser) : Prop :=
  ∃ pre line rest, p.buf = pre ++ line ++ rest ∧ p.tmpStart = pre.length ∧ p.bufCur = pre.length + line.length ∧
    ¬ delimiter <:+: line ++ rest.take 1 ∧ (rest = [] → line = [])

theorem Scanned.feedBuf {p : RespParser} (h : p.Scanned) (data : Bytes) : (p.feedBuf data).Scanned := by
  obtain ⟨pre, line, rest, hbuf, hstart, hcur, hno, hne⟩ := h
  refine ⟨pre, line, rest ++ data, by simp [RespParser.feedBuf, hbuf], hstart, hcur, ?_, ?_⟩
  · cases rest with
    | nil =>
      rw [hne rfl]
      intro h
      have := h.length_le
      simp only [delimiter, List.nil_append, List.length_cons, List.length_nil, List.length_take] at this
      omega
    | cons b rest => simpa using hno
  · intro h
    exact hne (List.append_eq_nil_iff.mp h).1

theorem Scanned.start {p : RespParser} (h : p.bufCur ≤ p.buf.length) (hs : p.tmpStart = p.bufCur) : p.Scanned := by
  refine ⟨p.buf.take p.bufCur, [], p.buf.drop p.bufCur, by simp, ?_, ?_, ?_, fun _ => rfl⟩
  · rw [hs, List.length_take, Nat.min_eq_left h]
  · rw [List.length_nil, List.length_take, Nat.min_eq_left h, Nat.add_zero]
  · intro h
    have := h.length_le
    simp only [delimiter, List.nil_append, List.length_cons, List.length_nil, List.length_take] at this
    omega

inductive Turned (isRdb : Bool) (q : RespParser) : Turn → Prop
  | idle : q.completed ≠ [] ∨ q.buf.length ≤ q.bufCur → Turned isRdb q (.ret q (.ok ()))
  | opens {pre rest : Bytes} {b : UInt8} {t : RespType} {cur : Nat} : q.status = .type →
      q.buf.drop q.bufCur = pre ++ b :: rest → (∀ x ∈ pre, RespType.matchPrefix x isRdb = none) →
      RespType.matchPrefix b isRdb = some t → cur = q.bufCur + pre.length + 1 →
      Turned isRdb q (.again { q with bufCur := cur, tmpStart := cur, stack := t :: q.stack, status := t.opened })
  | skips {cur : Nat} : q.status = .type → cur = q.bufCur + (q.buf.drop q.bufCur).length →
      Turned isRdb q (.again { q with bufCur := cur })
  | waits {cur : Nat} : q.status = .header ∨ q.status = .line → (q.Scanned → { q with bufCur := cur }.Scanned) →
      Turned isRdb q (.ret { q with bufCur := cur } (.ok ()))
  | fails {p : RespParser} {e : ParseError} : p.stack = q.stack → p.completed = q.completed → p.status = .type →
      Turned isRdb q (.ret p (.error e))
  | header {t : RespType} {below : List RespType} {s : String} {n cur : Nat} : q.status = .header →
      q.stack = t :: below → findCrlf (q.buf.drop q.bufCur) q.bufCur = (cur, true) →
      slice q.buf q.tmpStart cur = some (utf8 s) → parseUint u64Max s = .ok n →
      Turned isRdb q (.again { q with
        buf := q.buf.drop (cur + 2), bufCur := 0, tmpStart := 0
        stack := t.setLength n :: below, status := (t.setLength n).headed n })
  | line {t u : RespType} {below : List RespType} {s : String} {k : Nat} : q.status = .line →
      q.stack = t :: below → t.setValue (.string s) = .ok u → (q.Scanned → ¬ delimiter <:+: utf8 s) →
      Turned isRdb q (.again { q with
        buf := q.buf.drop k, bufCur := 0, tmpStart := 0, stack := u :: below, status := .type })
  | bulk {t u : RespType} {below : List RespType} {s : String} {n cur : Nat} : q.status = .bulk n →
      q.stack = t :: below → t.setValue (.string s) = .ok u →
      wrappingSub cur q.tmpStart = wrappingAdd n 2 → slice q.buf q.tmpStart (wrappingSub cur 2) = some (utf8 s) →
      Turned isRdb q (.again { q with
        buf := q.buf.drop cur, bufCur := 0, tmpStart := 0, stack := u :: below, status := .type })
  | rdb {t u : RespType} {below : List RespType} {v : Bytes} {n cur : Nat} : q.status = .rdb n →
      q.stack = t :: below → t.setValue (.bytes v) = .ok u →
      Turned isRdb q (.again { q with
        buf := q.buf.drop cur, bufCur := 0, tmpStart := 0, stack := u :: below, status := .type })
  | more {cur : Nat} : (∃ n, q.status = .bulk n ∨ q.status = .rdb n) → Turned isRdb q (.again { q with bufCur := cur })
  | dropped {n cur : Nat} : q.status = .bulk n → cur ≤ q.buf.length →
      wrappingSub cur q.tmpStart = wrappingAdd n 2 →
      (∀ s, q.buf[wrappingAdd q.tmpStart n]? = some 13 → q.buf[wrappingAdd (wrappingAdd q.tmpStart n) 1]? = some 10 →
        slice q.buf q.tmpStart (wrappingSub cur 2) ≠ some (utf8 s)) →
      q.buf[wrappingAdd q.tmpStart n]?.isSome →
      Turned isRdb q (.again { q with bufCur := cur, status := .type })
  | unstacked {cur : Nat} : q.stack = [] → Turned isRdb q (.again { q with
      buf := q.buf.drop cur, bufCur := 0, tmpStart := 0, status := .type })
  | none : q.status = .none → Turned isRdb q (.again { q with status := .type })
  | crash : Turned isRdb q .crash

/-! ## The scanners -/

theorem Scanned.drop {p : RespParser} {pre line rest : Bytes} (hbuf : p.buf = pre ++ line ++ rest)
    (hcur : p.bufCur = pre.length + line.length) : p.buf.drop p.bufCur = rest := by
  rw [hbuf, hcur, ← List.length_append, List.drop_left]

theorem Scanned.forward {p : RespParser} (h : p.Scanned) {cur : Nat}
    (hf : findCrlf (p.buf.drop p.bufCur) p.bufCur = (cur, false)) : { p with bufCur := cur }.Scanned := by
  obtain ⟨pre, line, rest, hbuf, hstart, hcur, hno, hline⟩ := h
  rw [Scanned.drop hbuf hcur] at hf
  obtain ⟨more, tail, rfl, hcur', hmore, hne, -⟩ := findCrlf_spec rest line _ _ _ hno hf
  refine ⟨pre, line ++ more, tail, by simp [hbuf], hstart, ?_, by simpa using hmore, ?_⟩
  · simp only [hcur', hcur, List.length_append]
    omega
  · intro ht
    rw [hne ht, List.append_nil]
    exact hline (by rw [hne ht, ht]; rfl)

theorem Scanned.line {p : RespParser} (h : p.Scanned) {cur : Nat} {v : Bytes}
    (hf : findCrlf (p.buf.drop p.bufCur) p.bufCur = (cur, true)) (hv : slice p.buf p.tmpStart cur = some v) :
    ¬ delimiter <:+: v := by
  obtain ⟨pre, line, rest, hbuf, hstart, hcur, hno, -⟩ := h
  rw [Scanned.drop hbuf hcur] at hf
  obtain ⟨more, tail, rfl, hcur', hmore, -, -⟩ := findCrlf_spec rest line _ _ _ hno hf
  have hmid := slice_mid pre (line ++ more) tail
  rw [show pre.length + (line ++ more).length = cur by rw [hcur', hcur, List.length_append]; omega, ← hstart,
    show pre ++ (line ++ more) ++ tail = p.buf by simp [hbuf], hv, Option.some.injEq] at hmid
  rw [hmid]
  intro hi
  exact hmore (hi.trans (List.prefix_append _ _).isInfix)

theorem nextTillNewLine_spec {p q : RespParser} {r : Except ParseError (Option ReadBytesOutput)}
    (h : p.nextTillNewLine = some (q, r)) :
    match r with
    | .ok none => ∃ cur, q = { p with bufCur := cur } ∧ (p.Scanned → q.Scanned)
    | .ok (some s) => ∃ str cur, s = .string str ∧ findCrlf (p.buf.drop p.bufCur) p.bufCur = (cur, true) ∧
        slice p.buf p.tmpStart cur = some (utf8 str) ∧
        q = { p with bufCur := cur + 2, tmpStart := cur + 2 } ∧ (p.Scanned → ¬ delimiter <:+: utf8 str)
    | .error _ => ∃ cur, q = { p with bufCur := cur } := by
  unfold nextTillNewLine at h
  split at h
  · cases h
  · split at h
    · rename_i cur hf
      cases h
      exact ⟨cur, rfl, fun hs => hs.forward hf⟩
    · rename_i cur hf
      rw [Option.bind_eq_bind, Option.bind_eq_some_iff] at h
      obtain ⟨v, hv, h⟩ := h
      split at h
      · rename_i str hstr
        cases h
        obtain rfl := utf8_of_fromUtf8 hstr
        exact ⟨str, cur, rfl, hf, hv, rfl, fun hs => hs.line hf hv⟩
      · cases h
        exact ⟨cur, rfl⟩

theorem forward_eq (p : RespParser) (k : Nat) :
    ∃ cur, (if 0 < k then { p with bufCur := wrappingAdd p.bufCur k } else p) = { p with bufCur := cur } := by
  split
  · exact ⟨_, rfl⟩
  · exact ⟨p.bufCur, rfl⟩

theorem readBytes_spec {p q : RespParser} {n : Nat} {isRdb : Bool} {r : Except ParseError (Option ReadBytesOutput)}
    (h : p.readBytes n isRdb = some (q, r)) :
    ∃ cur, q = { p with bufCur := cur } ∧
      match r with
      | .ok none => True
      | .ok (some (.string s)) => isRdb = false ∧ wrappingSub cur p.tmpStart = wrappingAdd n 2 ∧
          slice p.buf p.tmpStart (wrappingSub cur 2) = some (utf8 s)
      | .ok (some (.bytes _)) => isRdb = true
      | .error _ => isRdb = false ∧ cur ≤ p.buf.length ∧ wrappingSub cur p.tmpStart = wrappingAdd n 2 ∧
          (∀ s, p.buf[wrappingAdd p.tmpStart n]? = some 13 →
            p.buf[wrappingAdd (wrappingAdd p.tmpStart n) 1]? = some 10 →
            slice p.buf p.tmpStart (wrappingSub cur 2) ≠ some (utf8 s)) ∧
          p.buf[wrappingAdd p.tmpStart n]?.isSome := by
  unfold readBytes at h
  cases isRdb with
  | true =>
    simp only [ite_true] at h
    obtain ⟨cur, hcur⟩ := forward_eq p (min (wrappingAdd n 0 - wrappingSub p.bufCur p.tmpStart) p.buf.length)
    rw [hcur] at h
    refine ⟨cur, ?_⟩
    by_cases hdone : cur ≤ p.buf.length ∧ wrappingSub cur p.tmpStart = wrappingAdd n 0
    · rw [if_pos hdone, Option.bind_eq_bind, Option.bind_eq_some_iff] at h
      obtain ⟨v, -, h⟩ := h
      cases h
      exact ⟨rfl, rfl⟩
    · rw [if_neg hdone] at h
      cases h
      exact ⟨rfl, trivial⟩
  | false =>
    simp only [Bool.false_eq_true, ite_false] at h
    obtain ⟨cur, hcur⟩ := forward_eq p (min (wrappingAdd n 2 - wrappingSub p.bufCur p.tmpStart) p.buf.length)
    rw [hcur] at h
    refine ⟨cur, ?_⟩
    by_cases hdone : cur ≤ p.buf.length ∧ wrappingSub cur p.tmpStart = wrappingAdd n 2
    · rw [if_pos hdone, Option.bind_eq_bind, Option.bind_eq_some_iff] at h
      obtain ⟨b, hb, h⟩ := h
      have hsome : p.buf[wrappingAdd p.tmpStart n]?.isSome := by rw [hb]; rfl
      split at h
      · obtain ⟨c, hc, h⟩ := Option.bind_eq_some_iff.mp h
        split at h
        · obtain ⟨v, hv, h⟩ := Option.bind_eq_some_iff.mp h
          split at h
          · rename_i s hs
            cases h
            obtain rfl := utf8_of_fromUtf8 hs
            exact ⟨rfl, rfl, hdone.2, hv⟩
          · rename_i hs
            cases h
            refine ⟨rfl, rfl, hdone.1, hdone.2, fun s _ _ hv' => ?_, hsome⟩
            rw [hv, Option.some.injEq] at hv'
            rw [hv', fromUtf8_utf8] at hs
            cases hs
        · rename_i hne
          cases h
          refine ⟨rfl, rfl, hdone.1, hdone.2, fun s _ hc' => ?_, hsome⟩
          rw [hc, Option.some.injEq] at hc'
          exact absurd hc' hne
      · rename_i hne
        cases h
        refine ⟨rfl, rfl, hdone.1, hdone.2, fun s hb' => ?_, hsome⟩
        rw [hb, Option.some.injEq] at hb'
        exact absurd hb' hne
    · rw [if_neg hdone] at h
      cases h
      exact ⟨rfl, trivial⟩

/-! ## Case analysis -/

variable {isRdb : Bool}

theorem drainTillBuf_spec {p q : RespParser} (h : p.drainTillBuf = some q) :
    q = { p with buf := p.buf.drop p.bufCur, bufCur := 0, tmpStart := 0 } := by
  unfold drainTillBuf at h
  split at h
  · cases h
    rfl
  · cases h

theorem parseType_cases {q : RespParser} (hs : q.status = .type) : Turned isRdb q (q.parseType isRdb) := by
  have hf := findType_spec isRdb (q.buf.drop q.bufCur) q.bufCur _ _ rfl
  unfold parseType nextTillType
  cases h : findType isRdb (q.buf.drop q.bufCur) q.bufCur with
  | mk cur o =>
    rw [h] at hf
    cases o with
    | none =>
      simp only
      rw [← hs]
      exact .skips hs hf.1
    | some t =>
      obtain ⟨pre, b, rest, hd, hpre, hb, hcur⟩ := hf
      have := Turned.opens hs hd hpre hb hcur
      cases t <;> simp only [RespType.opened] at this ⊢ <;> first | exact this | (rw [← hs] at this; exact this)

theorem parseHeader_cases {q : RespParser} (hs : q.status = .header) :
    Turned isRdb q { q with status := .type }.parseHeader := by
  unfold parseHeader
  cases h : { q with status := .type }.nextTillNewLine with
  | none => exact .crash
  | some x =>
    obtain ⟨p, r⟩ := x
    have hspec := nextTillNewLine_spec h
    cases r with
    | error e =>
      obtain ⟨cur, rfl⟩ := hspec
      exact .fails rfl rfl rfl
    | ok r =>
      cases r with
      | none =>
        obtain ⟨cur, rfl, hscan⟩ := hspec
        have := @Turned.waits isRdb q cur (.inl hs) hscan
        rw [← hs]
        exact this
      | some s =>
        obtain ⟨str, cur, rfl, hf, hv, rfl, -⟩ := hspec
        simp only
        split
        · exact .crash
        · rename_i p hp
          obtain rfl := drainTillBuf_spec hp
          simp only
          split
          · rename_i hst
            exact .unstacked hst
          · rename_i t below hst
            simp only [ReadBytesOutput.str]
            split
            · exact .fails rfl rfl rfl
            · rename_i n hn
              have : Turned isRdb q _ := .header hs hst hf hv hn
              cases t <;> exact this

theorem setTop_cases {q : RespParser} {cur start : Nat} {v : ReadBytesOutput} {out : Turn → Prop}
    (hcrash : out .crash)
    (hempty : q.stack = [] → out (.again { q with
      buf := q.buf.drop cur, bufCur := 0, tmpStart := 0, status := .type }))
    (hfail : ∀ (p : RespParser) e, p.stack = q.stack → p.completed = q.completed → p.status = .type →
      out (.ret p (.error e)))
    (hset : ∀ t u below, q.stack = t :: below → t.setValue v = .ok u → out (.again { q with
      buf := q.buf.drop cur, bufCur := 0, tmpStart := 0, stack := u :: below, status := .type })) :
    out ({ q with bufCur := cur, tmpStart := start, status := .type }.setTop v) := by
  unfold setTop
  split
  · exact hcrash
  · rename_i p hp
    obtain rfl := drainTillBuf_spec hp
    simp only
    split
    · rename_i hst
      exact hempty hst
    · rename_i t below hst
      split
      · exact hfail _ _ rfl rfl rfl
      · rename_i u hu
        exact hset t u below hst hu

theorem parseLine_cases {q : RespParser} (hs : q.status = .line) :
    Turned isRdb q { q with status := .type }.parseLine := by
  unfold parseLine
  cases h : { q with status := .type }.nextTillNewLine with
  | none => exact .crash
  | some x =>
    obtain ⟨p, r⟩ := x
    have hspec := nextTillNewLine_spec h
    cases r with
    | error e =>
      obtain ⟨cur, rfl⟩ := hspec
      exact .fails rfl rfl rfl
    | ok r =>
      cases r with
      | none =>
        obtain ⟨cur, rfl, hscan⟩ := hspec
        have := @Turned.waits isRdb q cur (.inr hs) hscan
        rw [← hs]
        exact this
      | some s =>
        obtain ⟨str, cur, rfl, -, -, rfl, hno⟩ := hspec
        apply setTop_cases
        · exact .crash
        · exact fun h => .unstacked h
        · exact fun p e h₁ h₂ h₃ => .fails h₁ h₂ h₃
        · exact fun t u below hst hu => .line hs hst hu hno

theorem parseBulk_cases {q : RespParser} {n : Nat} {b : Bool} (hs : q.status = if b then .rdb n else .bulk n) :
    Turned isRdb q ({ q with status := .type }.parseBulk n b) := by
  unfold parseBulk
  cases h : { q with status := .type }.readBytes n b with
  | none => exact .crash
  | some x =>
    obtain ⟨p, r⟩ := x
    obtain ⟨cur, rfl, hspec⟩ := readBytes_spec h
    cases r with
    | error e =>
      obtain ⟨rfl, hcur, hn, hbad, hsome⟩ := hspec
      exact .dropped hs hcur hn hbad hsome
    | ok r =>
      cases r with
      | none =>
        have : ∃ n, q.status = .bulk n ∨ q.status = .rdb n := by
          cases b with
          | false => exact ⟨n, .inl hs⟩
          | true => exact ⟨n, .inr hs⟩
        have := @Turned.more isRdb q cur this
        simp only
        rw [← hs]
        exact this
      | some s =>
        apply setTop_cases
        · exact .crash
        · exact fun h => .unstacked h
        · exact fun p e h₁ h₂ h₃ => .fails h₁ h₂ h₃
        · intro t u below hst hu
          cases s with
          | string s =>
            obtain ⟨rfl, hn, hv⟩ := hspec
            exact .bulk hs hst hu hn hv
          | bytes v =>
            obtain rfl : b = true := hspec
            exact .rdb hs hst hu

@[simp] theorem popCompleted_buf (p : RespParser) : p.popCompleted.buf = p.buf := by
  unfold popCompleted
  split <;> rfl

@[simp] theorem popCompleted_bufCur (p : RespParser) : p.popCompleted.bufCur = p.bufCur := by
  unfold popCompleted
  split <;> rfl

@[simp] theorem popCompleted_status (p : RespParser) : p.popCompleted.status = p.status := by
  unfold popCompleted
  split <;> rfl

theorem turn_cases (p : RespParser) (isRdb : Bool) : Turned isRdb p.popCompleted (p.turn isRdb) := by
  generalize hq : p.popCompleted = q
  unfold turn
  rw [hq]
  simp only
  split
  · rename_i hc
    exact .idle (.inl hc)
  · split
    · rename_i hb
      refine .idle (.inr ?_)
      obtain hb | hb := hb
      · rw [hb]
        exact Nat.zero_le _
      · exact hb
    · split
      · rename_i hs
        have : { q with status := .type } = q := by rw [← hs]
        rw [this]
        exact parseType_cases hs
      · rename_i hs
        exact parseHeader_cases hs
      · rename_i hs
        exact parseLine_cases hs
      · rename_i n hs
        exact parseBulk_cases (b := false) hs
      · rename_i n hs
        exact parseBulk_cases (b := true) hs
      · rename_i hs
        exact .none hs

end RespParser

end Redis
