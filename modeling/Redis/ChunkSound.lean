import Redis.ParserSound

/-!
# Cutting a stream of commands into chunks

A stream of commands is a list of segments, headers and bodies, each with the
stack it is read on (`Stream`). After every chunk the parser stands inside one
of them (`At`); `reads_chunk` says what one more chunk does. A header can be
cut anywhere. In a body the cursor goes forward by the length of the whole
buffer, so that after two cuts it may stand at the end of the body before the
bytes are there; a chunk that then ends exactly at that end is not looked at.
This is lost only if nothing follows (`chunks_deliver_iff`).
-/

namespace Redis

open Lib

structure Command where
  args : List String
  nonempty : args ≠ []
  length_le : args.length ≤ isizeMax
  size_le : ∀ s ∈ args, s.utf8ByteSize ≤ isizeMax

namespace Command

def value (c : Command) : RespType := .array c.args.length (some (c.args.map .bulk))

def bodyLength (c : Command) : Nat := (c.args.getLast c.nonempty).utf8ByteSize + 2

end Command

/-- The positions inside the last `n` bytes of the stream at which a chunk ends. -/
def cutsIn (n : Nat) : List Bytes → List Nat
  | [] => []
  | _ :: chunks =>
    if 0 < chunks.flatten.length ∧ chunks.flatten.length < n then
      (n - chunks.flatten.length) :: cutsIn n chunks
    else cutsIn n chunks

def advance (cur cut : Nat) : Nat := if cur < cut then cur + cut else cur

/-- Where the cursor stands in a body that was cut there: a cut it has not yet
passed is added to it. -/
def cursorAfter (cuts : List Nat) : Nat := cuts.foldl advance 0

namespace RespParser

/-! ## Runs of the read loop -/

/-- `readLoop` stops at `q` after handing over `out`, given fuel. -/
def Reads (p q : RespParser) (out : List RespType) : Prop :=
  ∃ fuel₀, ∀ fuel, fuel₀ ≤ fuel → p.readLoop false fuel = some (q, out, .ok ())

theorem reads_of_ret {p q : RespParser} (h : p.turn false = .ret q (.ok ())) (hq : q.completed = []) :
    Reads p q [] := by
  refine ⟨2, fun fuel hle => ?_⟩
  obtain ⟨fuel, rfl⟩ : ∃ k, fuel = k + 2 := ⟨fuel - 2, by omega⟩
  have hp : p.parse false (fuel + 1) = some (q, .ok ()) := by rw [parse, h]
  rw [readLoop, hp]
  simp only [getCompleted, hq]

theorem Leads.reads {p q r : RespParser} {out : List RespType} (h : Leads false p q) (hq : Reads q r out) :
    Reads p r out := by
  obtain ⟨fuel₀, h₀⟩ := hq
  -- the first `parse` of `q` succeeds with enough fuel, so it is also what `p` gives
  obtain ⟨x, hx⟩ : ∃ x, q.parse false fuel₀ = some x := by
    have := h₀ (fuel₀ + 1) (by omega)
    rw [readLoop] at this
    cases hx : q.parse false fuel₀ with
    | none => rw [hx] at this; cases this
    | some x => exact ⟨x, rfl⟩
  obtain ⟨fuel₁, h₁⟩ := h fuel₀ x hx
  refine ⟨max fuel₀ fuel₁ + 1, fun fuel hle => ?_⟩
  obtain ⟨fuel, rfl⟩ : ∃ k, fuel = k + 1 := ⟨fuel - 1, by omega⟩
  have hq := h₀ (fuel + 1) (by omega)
  rw [readLoop, parse_mono (by omega) hx] at hq
  rw [readLoop, parse_mono (by omega) h₁]
  exact hq

theorem reads_deliver {t : RespType} (ht : t.isCompleted = true) {rest : Bytes} {q : RespParser}
    {out : List RespType} (h : Reads (between [] rest .type) q out) :
    Reads (between [t] rest .type) q (t :: out) := by
  obtain ⟨fuel₀, h₀⟩ := h
  refine ⟨fuel₀ + 2, fun fuel hle => ?_⟩
  obtain ⟨fuel, rfl⟩ : ∃ k, fuel = k + 2 := ⟨fuel - 2, by omega⟩
  rw [readLoop, parse_mono (by omega) (parse_handover ht rest)]
  have := h₀ (fuel + 1) (by omega)
  simp only [getCompleted, between] at this ⊢
  rw [this]
  rfl

theorem reads_stop {p : RespParser} (hw : Waiting p.stack) (hc : p.completed = [])
    (hl : p.buf.length ≤ p.bufCur) : Reads p p [] := by
  refine reads_of_ret ?_ hc
  unfold turn
  rw [popCompleted_of_waiting hw]
  simp only [hc, hl, ne_eq, not_true_eq_false, ite_false, or_true, ite_true]

/-! ## Segments -/

inductive Seg where
  | header (stack : List RespType) (c : UInt8) (t : RespType) (st : Nat → ParseStatus) (n : Nat)
  | body (stack : List RespType) (s : String)

namespace Seg

def text : Seg → Bytes
  | header _ c _ _ n => c :: (utf8 (toString n) ++ delimiter)
  | body _ s => utf8 s ++ delimiter

def isBody : Seg → Bool
  | header .. => false
  | body .. => true

def start : Seg → Bytes → RespParser
  | header stack _ _ _ _, rest => between stack rest .type
  | body stack s, rest => between (.bulkStr s.utf8ByteSize none :: stack) rest (.bulk s.utf8ByteSize)

def done : Seg → Bytes → RespParser
  | header stack _ t st n, rest => between (t.setLength n :: stack) rest (st n)
  | body stack s, rest => between (.bulk s :: stack) rest .type

inductive Ok : Seg → Prop
  | header {stack c t st n} : Headed false c t st → Waiting stack → n ≤ u64Max → Ok (.header stack c t st n)
  | body {stack s} : s.utf8ByteSize ≤ isizeMax → Ok (.body stack s)

theorem text_ne_nil (g : Seg) : g.text ≠ [] := by
  cases g <;> simp [text, delimiter]

theorem length_text_body (stack : List RespType) (s : String) :
    (body stack s).text.length = s.utf8ByteSize + 2 := by
  simp [text, delimiter, length_utf8]

theorem Ok.waiting_start {g : Seg} (h : g.Ok) (rest : Bytes) : Waiting (g.start rest).stack := by
  cases h with
  | header _ hw _ => exact hw
  | body _ => rfl

end Seg

/-- The parser has read `w` of the segment and waits for more. -/
inductive Inside : Seg → Bytes → Nat → RespParser → Prop
  | start {g} : Inside g [] 0 (g.start [])
  | header {stack c t st n w k} : 0 < w.length → k ≤ (utf8 (toString n)).length →
      w.length < (Seg.header stack c t st n).text.length →
      Inside (.header stack c t st n) w 0 { between (t :: stack) w .header with bufCur := 1 + k, tmpStart := 1 }
  | body {stack s w cur} : w.length ≤ cur → cur ≤ s.utf8ByteSize + 2 →
      Inside (.body stack s) w cur { Seg.start (.body stack s) w with bufCur := cur }

theorem Inside.cur_le {g : Seg} {w : Bytes} {cur : Nat} {p : RespParser} (h : Inside g w cur p) :
    cur ≤ g.text.length := by
  cases h with
  | start => exact Nat.zero_le _
  | header => exact Nat.zero_le _
  | body _ hc => rw [Seg.length_text_body]; exact hc

/-- One cut in a body moves the cursor by the length of the buffer. -/
def moved (size cur cut : Nat) : Nat := if cur < cut then cur + min (size - cur) cut else cur

/-! ## A chunk that ends inside the segment -/

theorem findCrlf_none (b : Bytes) (h : (10 : UInt8) ∉ b) (hb : b ≠ []) :
    ∀ cur, findCrlf b cur = (cur + b.length - 1, false) := by
  induction b with
  | nil => exact absurd rfl hb
  | cons x b ih =>
    intro cur
    cases b with
    | nil => simp [findCrlf]
    | cons y b =>
      have hy : ¬ (x = 13 ∧ y = 10) := by
        rintro ⟨_, rfl⟩
        exact h (by simp)
      have hm : (10 : UInt8) ∉ y :: b := fun hm => h (List.mem_cons_of_mem _ hm)
      rw [findCrlf, if_neg hy, ih hm (by simp)]
      simp only [List.length_cons, Prod.mk.injEq, and_true]
      omega

theorem not_mem_of_append_eq {b more line : Bytes} (h : b ++ more = line ++ delimiter)
    (hl : (10 : UInt8) ∉ line) (hm : more ≠ []) : (10 : UInt8) ∉ b := by
  -- the only 10 is the last byte
  have hlast : b ++ more.dropLast = line ++ [13] := by
    have := congrArg List.dropLast h
    rw [List.dropLast_append_of_ne_nil hm, List.dropLast_append_of_ne_nil (by simp [delimiter])] at this
    exact this
  intro hb
  have : (10 : UInt8) ∈ line ++ [13] := by rw [← hlast]; exact List.mem_append_left _ hb
  simp [hl] at this

theorem ten_not_mem_toString (n : Nat) : (10 : UInt8) ∉ utf8 (toString n) := by
  intro h
  have := (digit_of_mem_utf8_toString h).1
  exact absurd this (by decide)

theorem reads_header_part {stack : List RespType} {c : UInt8} {t : RespType} {st : Nat → ParseStatus} {n k : Nat}
    {b more : Bytes} (hh : Headed false c t st) (h : b ++ more = (Seg.header stack c t st n).text)
    (hb : b ≠ []) (hm : more ≠ []) (hk : k ≤ (utf8 (toString n)).length) :
    ∃ p, Reads { between (t :: stack) b .header with bufCur := 1 + k, tmpStart := 1 } p [] ∧
      Inside (.header stack c t st n) b 0 p := by
  have hlen : b.length + more.length = (utf8 (toString n)).length + 3 := by
    have := congrArg List.length h
    simpa [Seg.text, delimiter] using this
  have hmore := List.length_pos_of_ne_nil hm
  have hlt : b.length < (Seg.header stack c t st n).text.length := by
    rw [← h, List.length_append]
    omega
  have hw : Waiting (t :: stack) := by cases hh <;> rfl
  by_cases hle : b.length ≤ 1 + k
  · exact ⟨_, reads_stop hw rfl hle, .header (List.length_pos_of_ne_nil hb) hk hlt⟩
  · -- the scan stops at the last byte
    have hno : (10 : UInt8) ∉ b.drop (1 + k) := by
      cases b with
      | nil => exact absurd rfl hb
      | cons x b =>
        rw [Seg.text, List.cons_append] at h
        have := not_mem_of_append_eq (List.cons.inj h).2 (ten_not_mem_toString n) hm
        rw [Nat.add_comm, List.drop_succ_cons]
        exact fun hd => this (List.mem_of_mem_drop hd)
    have hne : b.drop (1 + k) ≠ [] := by
      intro h0
      have := congrArg List.length h0
      rw [List.length_drop, List.length_nil] at this
      omega
    have hf := findCrlf_none _ hno hne (1 + k)
    have hcur : 1 + k + (b.drop (1 + k)).length - 1 = 1 + (b.length - 2) := by
      rw [List.length_drop]
      omega
    rw [hcur] at hf
    refine ⟨{ between (t :: stack) b .header with bufCur := 1 + (b.length - 2), tmpStart := 1 }, ?_, ?_⟩
    · refine reads_of_ret ?_ rfl
      rw [turn_of_waiting hw rfl (by simp only [between]; omega)]
      have hn : ¬ b.length < 1 + k := by omega
      simp only [between, parseHeader, nextTillNewLine, hn, hf, ite_false]
    · exact .header (List.length_pos_of_ne_nil hb) (by omega) hlt

theorem readBytes_part (p : RespParser) {n : Nat} (hmax : n ≤ isizeMax) (ht : p.tmpStart = 0)
    (hl : p.buf.length < n + 2) (hc : p.bufCur < p.buf.length) :
    p.readBytes n false = some ({ p with bufCur := moved (n + 2) p.bufCur p.buf.length }, .ok none) := by
  have hn2 : n + 2 < 2 ^ 64 := by unfold isizeMax at hmax; omega
  have hadd : wrappingAdd n 2 = n + 2 := wrappingAdd_eq hn2
  have hsub : wrappingSub p.bufCur p.tmpStart = p.bufCur := by
    rw [ht]
    exact wrappingSub_eq (Nat.zero_le _) (by omega)
  have hpos : 0 < min (n + 2 - p.bufCur) p.buf.length := by omega
  have hcur : wrappingAdd p.bufCur (min (n + 2 - p.bufCur) p.buf.length) = moved (n + 2) p.bufCur p.buf.length := by
    unfold moved
    rw [if_pos hc]
    exact wrappingAdd_eq (by omega)
  have hsub' : wrappingSub (moved (n + 2) p.bufCur p.buf.length) 0 = moved (n + 2) p.bufCur p.buf.length := by
    refine wrappingSub_eq (Nat.zero_le _) ?_
    unfold moved
    split <;> omega
  have hno : ¬ (moved (n + 2) p.bufCur p.buf.length ≤ p.buf.length ∧
      moved (n + 2) p.bufCur p.buf.length = n + 2) := by omega
  unfold readBytes
  simp only [Bool.false_eq_true, ite_false, hadd, hsub, hpos, ite_true, hcur]
  simp only [ht, hsub', hno, ite_false]

theorem reads_body_part {stack : List RespType} {s : String} {b : Bytes} {cur : Nat}
    (hmax : s.utf8ByteSize ≤ isizeMax) (hb : b.length < s.utf8ByteSize + 2) (hc : cur ≤ s.utf8ByteSize + 2) :
    ∃ p, Reads { Seg.start (.body stack s) b with bufCur := cur } p [] ∧
      Inside (.body stack s) b (moved (s.utf8ByteSize + 2) cur b.length) p := by
  have hw : Waiting (.bulkStr s.utf8ByteSize none :: stack) := rfl
  by_cases hle : b.length ≤ cur
  · have hm : moved (s.utf8ByteSize + 2) cur b.length = cur := by unfold moved; rw [if_neg (by omega)]
    rw [hm]
    exact ⟨_, reads_stop hw rfl hle, .body hle hc⟩
  · have hge : b.length ≤ moved (s.utf8ByteSize + 2) cur b.length := by
      unfold moved
      rw [if_pos (by omega)]
      omega
    have hmc : moved (s.utf8ByteSize + 2) cur b.length ≤ s.utf8ByteSize + 2 := by
      unfold moved
      rw [if_pos (by omega)]
      omega
    refine ⟨{ Seg.start (.body stack s) b with bufCur := moved (s.utf8ByteSize + 2) cur b.length }, ?_, .body hge hmc⟩
    have hr := readBytes_part { between (.bulkStr s.utf8ByteSize none :: stack) b .type with bufCur := cur }
      hmax rfl hb (by simp only [between]; omega)
    have hturn : { Seg.start (.body stack s) b with bufCur := cur }.turn false =
        .again { Seg.start (.body stack s) b with bufCur := moved (s.utf8ByteSize + 2) cur b.length } := by
      rw [turn_of_waiting hw rfl (by simp only [Seg.start, between]; omega)]
      simp only [between] at hr
      simp only [Seg.start, between, parseBulk, hr]
      rfl
    exact (leads_again hturn).reads (reads_stop hw rfl hge)

theorem reads_part {g : Seg} (hg : g.Ok) {w c more : Bytes} {cur : Nat} {p : RespParser} (h : Inside g w cur p)
    (htext : w ++ c ++ more = g.text) (hc : c ≠ []) (hm : more ≠ []) :
    ∃ p', Reads (p.feedBuf c) p' [] ∧
      Inside g (w ++ c) (if g.isBody then moved g.text.length cur (w ++ c).length else 0) p' := by
  have hwc : w ++ c ≠ [] := by simp [hc]
  cases hg with
  | @header stack x t st n hh hw hn =>
    simp only [Seg.isBody, Bool.false_eq_true, ite_false]
    cases h with
    | start =>
      obtain ⟨p', hr, hi⟩ := reads_header_part (k := 0) hh htext hwc hm (Nat.zero_le _)
      refine ⟨p', ?_, hi⟩
      -- the prefix byte is read first
      obtain ⟨c', rfl⟩ : ∃ c', c = x :: c' := by
        cases c with
        | nil => exact absurd rfl hc
        | cons y c' =>
          rw [Seg.text, List.nil_append, List.cons_append] at htext
          exact ⟨c', by rw [(List.cons.inj htext).1]⟩
      exact (leads_again (hh.turn_type hw c')).reads hr
    | header h0 hk hl => exact reads_header_part hh htext hwc hm hk
  | @body stack s hmax =>
    simp only [Seg.isBody, ite_true]
    have hlen : (w ++ c).length < s.utf8ByteSize + 2 := by
      rw [← Seg.length_text_body stack, ← htext, @List.length_append _ _ more]
      have := List.length_pos_of_ne_nil hm
      omega
    rw [Seg.length_text_body]
    cases h with
    | start => exact reads_body_part hmax hlen (Nat.zero_le _)
    | body h0 hcur => exact reads_body_part hmax hlen hcur

/-! ## A chunk that reaches the end of the segment -/

/-- The bytes up to the end of a body are there, but the cursor does not see them. -/
theorem reads_stuck {g : Seg} {w c : Bytes} {p : RespParser} (h : Inside g w g.text.length p)
    (htext : w ++ c = g.text) :
    ∃ p', Reads (p.feedBuf c) p' [] ∧ Inside g (w ++ c) g.text.length p' := by
  cases g with
  | header stack x t st n => cases h
  | body stack s =>
    rw [Seg.length_text_body] at h ⊢
    cases h with
    | body h0 hcur =>
      have hlen : (w ++ c).length ≤ s.utf8ByteSize + 2 := by
        rw [htext, Seg.length_text_body]
      exact ⟨{ Seg.start (.body stack s) (w ++ c) with bufCur := s.utf8ByteSize + 2 },
        reads_stop rfl rfl hlen, .body hlen (Nat.le_refl _)⟩

theorem leads_done {g : Seg} (hg : g.Ok) {w c rest : Bytes} {cur : Nat} {p : RespParser} (h : Inside g w cur p)
    (htext : w ++ c = g.text ++ rest) (hrest : cur < g.text.length ∨ rest ≠ []) :
    Leads false (p.feedBuf c) (g.done rest) := by
  cases hg with
  | @header stack x t st n hh hw hn =>
    have htext' : w ++ c = x :: (utf8 (toString n) ++ delimiter ++ rest) := by
      rw [htext, Seg.text, List.cons_append]
    cases h with
    | start =>
      rw [List.nil_append] at htext'
      rw [htext']
      exact hh.leads hw hn rest
    | @header _ _ _ _ _ _ k h0 hk hl =>
      have hb : (RespParser.feedBuf
          { between (t :: stack) w .header with bufCur := 1 + k, tmpStart := 1 } c) =
          { between (t :: stack) (x :: (utf8 (toString n) ++ delimiter ++ rest)) .header with
            bufCur := 1 + k, tmpStart := 1 } := by
        simp only [feedBuf, between, htext']
      rw [hb]
      exact leads_again (hh.turn_header hn hk)
  | @body stack s hmax =>
    have hstep : ∀ k, k ≤ s.utf8ByteSize + 2 → (k < s.utf8ByteSize + 2 ∨ rest ≠ []) →
        Leads false { Seg.start (.body stack s) (w ++ c) with bufCur := k } (Seg.done (.body stack s) rest) := by
      intro k hk hkr
      rw [htext]
      refine leads_again (turn_bulk _ _ _ rfl hmax hk ?_)
      rcases hkr with hkr | hkr
      · omega
      · have := List.length_pos_of_ne_nil hkr
        omega
    rw [Seg.length_text_body] at hrest
    cases h with
    | start => exact hstep 0 (Nat.zero_le _) (Or.inl (by omega))
    | body h0 hcur => exact hstep cur hcur hrest

/-! ## Streams -/

def startOf (base : List RespType) : List Seg → Bytes → RespParser
  | [], rest => between base rest .type
  | g :: _, rest => g.start rest

/-- Segments that follow each other and leave the stack `base`: what is handed
over at the end of one comes before what the next ones hand over. The last one
is a body, and hands over if it leaves nothing on the stack. -/
inductive Stream (base : List RespType) : List Seg → List RespType → Prop
  | nil : Waiting base → Stream base [] []
  | cons {g segs d vals} : g.Ok →
      (∀ rest q out, Reads (startOf base segs rest) q out → Reads (g.done rest) q (d ++ out)) →
      (segs = [] → g.isBody = true ∧ (base = [] → d ≠ [])) → Stream base segs vals → Stream base (g :: segs) (d ++ vals)

def textOf (segs : List Seg) : Bytes := segs.flatMap Seg.text

def lastLength (segs : List Seg) : Nat := (segs.getLast?.map fun g => g.text.length).getD 0

def tailCur : List Seg → Nat → Nat
  | [_], cur => cur
  | _, _ => 0

inductive At (base : List RespType) : List Seg → Bytes → Nat → RespParser → Prop
  | done : At base [] [] 0 (between base [] .type)
  | inside {g segs w cur p} : Inside g w cur p → At base (g :: segs) w cur p

theorem Stream.ne_nil {segs : List Seg} {vals : List RespType} (h : Stream [] segs vals) (hs : segs ≠ []) :
    vals ≠ [] := by
  induction h with
  | nil => exact absurd rfl hs
  | @cons g segs d vals _ _ hlast _ ih =>
    by_cases hnil : segs = []
    · have := (hlast hnil).2 rfl
      simp [this]
    · simp [ih hnil]

theorem textOf_ne_nil {segs : List Seg} (h : segs ≠ []) : textOf segs ≠ [] := by
  cases segs with
  | nil => exact absurd rfl h
  | cons g segs => simp [textOf, g.text_ne_nil]

theorem lastLength_cons {g : Seg} {segs : List Seg} (h : segs ≠ []) : lastLength (g :: segs) = lastLength segs := by
  cases segs with
  | nil => exact absurd rfl h
  | cons g' segs => simp [lastLength, List.getLast?_cons_cons]

theorem lastLength_singleton (g : Seg) : lastLength [g] = g.text.length := rfl

theorem tailCur_of_ne_nil {g : Seg} {segs : List Seg} (h : segs ≠ []) (cur : Nat) :
    tailCur (g :: segs) cur = 0 := by
  cases segs with
  | nil => exact absurd rfl h
  | cons g' segs => rfl

theorem tailCur_zero (segs : List Seg) : tailCur segs 0 = 0 := by
  unfold tailCur
  split <;> rfl

theorem lastLength_le (segs : List Seg) : lastLength segs ≤ (textOf segs).length := by
  induction segs with
  | nil => simp [lastLength]
  | cons g segs ih =>
    by_cases h : segs = []
    · subst h
      simp [lastLength, textOf]
    · rw [lastLength_cons h, textOf, List.flatMap_cons, List.length_append]
      exact ih.trans (Nat.le_add_left _ _)

theorem At.cur_le {base : List RespType} {segs : List Seg} {w : Bytes} {cur : Nat} {p : RespParser}
    (h : At base segs w cur p) :
    tailCur segs cur ≤ lastLength segs := by
  cases h with
  | done => exact Nat.zero_le _
  | @inside g segs _ _ _ h =>
    cases segs with
    | nil => exact h.cur_le
    | cons g' segs => exact Nat.zero_le _

def Progress (segs : List Seg) (cur : Nat) (rest : Bytes) (segs' : List Seg) (cur' : Nat) : Prop :=
  if rest = [] then segs' = [] ↔ segs = [] ∨ tailCur segs cur < lastLength segs
  else lastLength segs' = lastLength segs ∧
    tailCur segs' cur' = if rest.length < lastLength segs then
      moved (lastLength segs) (tailCur segs cur) (lastLength segs - rest.length) else tailCur segs cur

theorem Progress.cons {g : Seg} {segs segs' : List Seg} {cur cur' : Nat} {rest : Bytes} (hne : segs ≠ [])
    (h : Progress segs 0 rest segs' cur') : Progress (g :: segs) cur rest segs' cur' := by
  unfold Progress at h ⊢
  rw [tailCur_zero] at h
  rw [lastLength_cons hne, tailCur_of_ne_nil hne]
  simpa [hne] using h

/-- Nothing happens to the last body as long as it is not reached. -/
theorem Progress.far {segs segs' : List Seg} {cur cur' : Nat} {rest : Bytes}
    (hlast : lastLength segs' = lastLength segs) (hcur : tailCur segs' cur' = tailCur segs cur) (hr : rest ≠ [])
    (hrest : lastLength segs ≤ rest.length) : Progress segs cur rest segs' cur' := by
  unfold Progress
  rw [if_neg hr, if_neg (by omega)]
  exact ⟨hlast, hcur⟩

/-- What comes next ends inside the first segment. -/
theorem Progress.inside {g : Seg} {segs : List Seg} {w more : Bytes} {cur cur' : Nat} (hw : w ≠ []) (hm : more ≠ [])
    (hmore : w ++ more = g.text) (hcur : segs = [] → cur' = moved g.text.length cur w.length) :
    Progress (g :: segs) cur (more ++ textOf segs) (g :: segs) cur' := by
  have hrest : more ++ textOf segs ≠ [] := by simp [hm]
  by_cases hnil : segs = []
  · subst hnil
    have hlen : g.text.length = w.length + more.length := by rw [← hmore, List.length_append]
    have hpos : 0 < w.length := List.length_pos_of_ne_nil hw
    have hlt : (more ++ textOf []).length < g.text.length := by
      rw [textOf, List.flatMap_nil, List.append_nil]
      omega
    have hcut : g.text.length - (more ++ textOf []).length = w.length := by
      rw [textOf, List.flatMap_nil, List.append_nil]
      omega
    unfold Progress
    rw [if_neg hrest, lastLength_singleton, if_pos hlt, hcut]
    exact ⟨rfl, hcur rfl⟩
  · refine .far rfl (by rw [tailCur_of_ne_nil hnil, tailCur_of_ne_nil hnil]) hrest ?_
    rw [lastLength_cons hnil, List.length_append]
    exact (lastLength_le segs).trans (Nat.le_add_left _ _)

/-- The cursor is at the end of the first segment, and so is what has come. -/
theorem Progress.stuck (g : Seg) (segs : List Seg) :
    Progress (g :: segs) g.text.length (textOf segs) (g :: segs) g.text.length := by
  by_cases hnil : segs = []
  · subst hnil
    simp [Progress, textOf, tailCur, lastLength]
  · refine .far rfl (by rw [tailCur_of_ne_nil hnil]) (textOf_ne_nil hnil) ?_
    rw [lastLength_cons hnil]
    exact lastLength_le segs

/-- The first segment has been read, and nothing behind it. -/
theorem Progress.between {g : Seg} {segs : List Seg} {cur : Nat} (hcur : cur < g.text.length) :
    Progress (g :: segs) cur (textOf segs) segs 0 := by
  by_cases hnil : segs = []
  · subst hnil
    simp [Progress, textOf, tailCur, lastLength, hcur]
  · refine .far (lastLength_cons hnil).symm ?_ (textOf_ne_nil hnil) ?_
    · rw [tailCur_zero, tailCur_of_ne_nil hnil]
    · rw [lastLength_cons hnil]
      exact lastLength_le segs

section
variable {base : List RespType}

theorem At.start (segs : List Seg) : At base segs [] 0 (startOf base segs []) := by
  cases segs with
  | nil => exact .done
  | cons g segs => exact .inside .start

theorem Stream.reads_start {segs : List Seg} {vals : List RespType} (h : Stream base segs vals) :
    Reads (startOf base segs []) (startOf base segs []) [] := by
  cases h with
  | nil hw => exact reads_stop hw rfl (Nat.le_refl _)
  | @cons g _ _ _ hg _ _ _ =>
    refine reads_stop (hg.waiting_start []) ?_ ?_ <;> cases g <;> rfl

theorem feedBuf_startOf (segs : List Seg) (b : Bytes) : (startOf base segs []).feedBuf b = startOf base segs b := by
  cases segs with
  | nil => rfl
  | cons g segs => cases g <;> rfl

/-- One chunk: what has been read and what is still to come make up the stream. -/
theorem reads_chunk {segs : List Seg} {vals : List RespType} (hs : Stream base segs vals) :
    ∀ {w c rest : Bytes} {cur : Nat} {p : RespParser}, At base segs w cur p → c ≠ [] →
      w ++ c ++ rest = textOf segs →
      ∃ segs' vals' w' cur' p' out, Stream base segs' vals' ∧ At base segs' w' cur' p' ∧ Reads (p.feedBuf c) p' out ∧
        out ++ vals' = vals ∧ w' ++ rest = textOf segs' ∧ Progress segs cur rest segs' cur' ∧ segs' <:+ segs := by
  induction hs with
  | nil =>
    intro w c rest cur p _ hc htext
    exact absurd htext (by simp [textOf, hc])
  | @cons g segs d vals hg hnext hlast hs ih =>
    intro w c rest cur p h hc htext
    have h : Inside g w cur p := by cases h with | inside h => exact h
    have hall : Stream base (g :: segs) (d ++ vals) := .cons hg hnext hlast hs
    rw [textOf, List.flatMap_cons] at htext
    by_cases hlt : (w ++ c).length < g.text.length
    · -- the chunk ends inside this segment
      obtain ⟨more, hmore⟩ : ∃ more, w ++ c ++ more = g.text :=
        List.prefix_of_prefix_length_le (htext ▸ List.prefix_append _ rest) (List.prefix_append _ _) hlt.le
      have hm : more ≠ [] := by
        rintro rfl
        rw [List.append_nil] at hmore
        rw [hmore] at hlt
        exact Nat.lt_irrefl _ hlt
      have hrest : rest = more ++ textOf segs := by
        rw [← hmore, List.append_assoc (w ++ c)] at htext
        exact List.append_cancel_left htext
      obtain ⟨p', hr, hi⟩ := reads_part hg h hmore hc hm
      refine ⟨g :: segs, d ++ vals, w ++ c, _, p', [], hall, .inside hi, hr, rfl, htext, ?_, List.suffix_refl _⟩
      rw [hrest]
      have hwc : w ++ c ≠ [] := by simp [hc]
      exact .inside hwc hm hmore fun hnil => if_pos (hlast hnil).1
    · obtain ⟨b, hb⟩ : ∃ b, g.text ++ b = w ++ c :=
        List.prefix_of_prefix_length_le (List.prefix_append _ _) (htext ▸ List.prefix_append _ rest)
          (Nat.le_of_not_lt hlt)
      have hrest : b ++ rest = textOf segs := by
        rw [← hb, List.append_assoc] at htext
        exact List.append_cancel_left htext
      by_cases hstuck : cur = g.text.length ∧ b = []
      · -- the chunk ends at the end of the body, and so does the cursor
        obtain ⟨rfl, rfl⟩ := hstuck
        rw [List.nil_append] at hrest
        rw [List.append_nil] at hb
        obtain ⟨p', hr, hi⟩ := reads_stuck h hb.symm
        refine ⟨g :: segs, d ++ vals, w ++ c, _, p', [], hall, .inside hi, hr, rfl, htext, ?_, List.suffix_refl _⟩
        rw [hrest]
        exact .stuck g segs
      · have hlead : cur < g.text.length ∨ b ≠ [] := by
          by_cases hbnil : b = []
          · have := h.cur_le
            have hne : cur ≠ g.text.length := fun h => hstuck ⟨h, hbnil⟩
            exact Or.inl (by omega)
          · exact Or.inr hbnil
        have hdone := leads_done hg h hb.symm hlead
        by_cases hbnil : b = []
        · -- the chunk ends between two segments
          subst hbnil
          rw [List.nil_append] at hrest
          refine ⟨segs, vals, [], 0, startOf base segs [], d ++ [], hs, .start segs, ?_, by simp, hrest, ?_,
            List.suffix_cons g segs⟩
          · exact hdone.reads (hnext _ _ _ hs.reads_start)
          · rw [hrest]
            exact .between (hlead.resolve_right (by simp))
        · have hnil : segs ≠ [] := by
            rintro rfl
            exact hbnil (List.append_eq_nil_iff.mp hrest).1
          obtain ⟨segs', vals', w', cur', p', out, hs', hat, hr, hout, hw', hprog, hsuffix⟩ :=
            ih (At.start segs) hbnil (by rw [List.nil_append]; exact hrest)
          rw [feedBuf_startOf] at hr
          refine ⟨segs', vals', w', cur', p', d ++ out, hs', hat, hdone.reads (hnext _ _ _ hr), ?_, hw',
            hprog.cons hnil, hsuffix.trans (List.suffix_cons g segs)⟩
          rw [List.append_assoc, hout]

/-! ## All chunks -/

theorem moved_min {size cut : Nat} (cur : Nat) (h : cut < size) :
    moved size (min size cur) cut = min size (advance cur cut) := by
  unfold moved advance
  split <;> split <;> omega

inductive ReadsAll : RespParser → List Bytes → RespParser → List RespType → Prop
  | nil {p} : ReadsAll p [] p []
  | cons {p p' q chunk chunks out out'} : Reads (p.feedBuf chunk) p' out → ReadsAll p' chunks q out' →
      ReadsAll p (chunk :: chunks) q (out ++ out')

theorem ReadsAll.readChunks {p q : RespParser} {chunks : List Bytes} {out : List RespType}
    (h : ReadsAll p chunks q out) :
    ∃ fuel₀, ∀ fuel, fuel₀ ≤ fuel → p.readChunks false fuel chunks = some (q, out) := by
  induction h with
  | nil => exact ⟨0, fun _ _ => by rw [RespParser.readChunks]⟩
  | cons hr _ ih =>
    obtain ⟨fuel₀, h₀⟩ := hr
    obtain ⟨fuel₁, h₁⟩ := ih
    refine ⟨max fuel₀ fuel₁, fun fuel hle => ?_⟩
    rw [RespParser.readChunks, h₀ fuel (by omega)]
    simp only [h₁ fuel (by omega), Option.map_some]

/-- `cur` is the cursor in the last body without the bound of its length. -/
theorem reads_chunks (chunks : List Bytes) (hne : ∀ c ∈ chunks, c ≠ []) (hchunks : chunks ≠ []) :
    ∀ {segs : List Seg} {vals : List RespType} {w : Bytes} {cur₀ cur : Nat} {p : RespParser}, Stream base segs vals →
      At base segs w cur₀ p → w ++ chunks.flatten = textOf segs → tailCur segs cur₀ = min (lastLength segs) cur →
      ∃ q out segs' vals' cur', ReadsAll p chunks q out ∧ Stream base segs' vals' ∧
      At base segs' (textOf segs') cur' q ∧
        out ++ vals' = vals ∧ (segs' = [] ↔ (cutsIn (lastLength segs) chunks).foldl advance cur < lastLength segs) := by
  induction chunks with
  | nil => exact absurd rfl hchunks
  | cons c chunks ih =>
    intro segs vals w cur₀ cur p hs hat htext hcur
    have hc : c ≠ [] := hne c (List.mem_cons_self ..)
    rw [List.flatten_cons, ← List.append_assoc] at htext
    obtain ⟨segs', vals', w', cur', p', out, hs', hat', hr, hout, hw', hprog, -⟩ := reads_chunk hs hat hc htext
    by_cases hnil : chunks = []
    · subst hnil
      rw [List.flatten_nil, List.append_nil] at hw'
      subst hw'
      refine ⟨p', out ++ [], segs', vals', cur', .cons hr .nil, hs', hat', by rw [List.append_nil, hout], ?_⟩
      have hsegs : segs ≠ [] := by
        rintro rfl
        exact hc (List.append_eq_nil_iff.mp (List.append_eq_nil_iff.mp htext).1).2
      unfold Progress at hprog
      simp only [List.flatten_nil, ite_true, hsegs, false_or, hcur] at hprog
      rw [hprog]
      simp only [cutsIn, List.flatten_nil, List.length_nil, Nat.lt_irrefl, false_and, if_false, List.foldl_nil]
      omega
    · have hrest : chunks.flatten ≠ [] := by
        cases chunks with
        | nil => exact absurd rfl hnil
        | cons c' chunks => simp [hne c' (by simp)]
      unfold Progress at hprog
      rw [if_neg hrest] at hprog
      obtain ⟨hlast, hcur'⟩ := hprog
      have hpos := List.length_pos_of_ne_nil hrest
      -- the cuts of the remaining chunks start from the moved cursor
      have hfold : ∃ cur₁, tailCur segs' cur' = min (lastLength segs') cur₁ ∧
          (cutsIn (lastLength segs) (c :: chunks)).foldl advance cur =
            (cutsIn (lastLength segs') chunks).foldl advance cur₁ := by
        rw [hlast, cutsIn, hcur', hcur]
        by_cases hin : chunks.flatten.length < lastLength segs
        · refine ⟨advance cur (lastLength segs - chunks.flatten.length), ?_, ?_⟩
          · rw [if_pos hin, moved_min _ (by omega)]
          · rw [if_pos ⟨hpos, hin⟩, List.foldl_cons]
        · refine ⟨cur, by rw [if_neg hin], ?_⟩
          rw [if_neg fun h => hin h.2]
      obtain ⟨cur₁, hcur₁, hfold⟩ := hfold
      obtain ⟨q, out', segs'', vals'', cur'', hall, hs'', hat'', hout', hiff⟩ :=
        ih (fun c hc => hne c (List.mem_cons_of_mem _ hc)) hnil hs' hat' hw' hcur₁
      refine ⟨q, out ++ out', segs'', vals'', cur'', .cons hr hall, hs'', hat'', ?_, ?_⟩
      · rw [List.append_assoc, hout', hout]
      · rw [hfold, ← hlast, ← hiff]

end

/-! ## Commands -/

def segsOfArgs (stack : List RespType) (n : Nat) : Option (List RespType) → List String → List Seg
  | _, [] => []
  | acc, s :: args =>
    .header (.array n acc :: stack) 36 (.bulkStr 0 none) .bulk s.utf8ByteSize :: .body (.array n acc :: stack) s ::
      segsOfArgs stack n (some (acc.getD [] ++ [.bulk s])) args

def segsOn (stack : List RespType) (c : Command) : List Seg :=
  .header stack 42 (.array 0 none) (fun _ => .type) c.args.length :: segsOfArgs stack c.args.length none c.args

def segsOf (c : Command) : List Seg := segsOn [] c

/-- The items of an array whose end hands over `d`. -/
theorem stream_segsOfArgs {base stack : List RespType} {segs : List Seg} {vals d : List RespType} {n : Nat}
    (hs : Stream base segs vals) (hlast : segs = [] → base = [] → d ≠ []) (args : List String) :
    ∀ acc : Option (List RespType), args ≠ [] → (∀ s ∈ args, s.utf8ByteSize ≤ isizeMax) →
      (acc.getD []).length + args.length = n →
      (∀ rest q out, Reads (startOf base segs rest) q out →
        Reads (between (.array n (some (acc.getD [] ++ args.map .bulk)) :: stack) rest .type) q (d ++ out)) →
      Stream base (segsOfArgs stack n acc args ++ segs) (d ++ vals) := by
  induction args with
  | nil => exact fun _ h => absurd rfl h
  | cons s args ih =>
    intro acc _ hsize hn hend
    have hsz : s.utf8ByteSize ≤ isizeMax := hsize s (List.mem_cons_self ..)
    have hw : Waiting (.array n acc :: stack) := waiting_array hn
    -- a finished body is absorbed by the array below it
    have habs : ∀ rest q out, Reads (between (.array n (some (acc.getD [] ++ [.bulk s])) :: stack) rest .type) q out →
        Reads ((Seg.body (.array n acc :: stack) s).done rest) q out := by
      intro rest q out h
      have := leads_absorb false (t := .bulk s) (a := .array n acc) rfl stack rest .type
      exact this.reads h
    have hbody : Stream base (.body (.array n acc :: stack) s ::
        (segsOfArgs stack n (some (acc.getD [] ++ [.bulk s])) args ++ segs)) (d ++ vals) := by
      cases args with
      | nil =>
        exact .cons (.body hsz) (fun rest q out h => habs rest q _ (hend rest q out h)) (fun h => ⟨rfl, hlast h⟩) hs
      | cons u args =>
        have htail := ih (some (acc.getD [] ++ [.bulk s])) (by simp)
          (fun t ht => hsize t (List.mem_cons_of_mem _ ht))
          (by simp only [Option.getD_some, List.length_append, List.length_cons, List.length_nil] at hn ⊢; omega)
        simp only [Option.getD_some, List.append_assoc] at htail
        exact .cons (d := []) (.body hsz) habs (fun h => by simp [segsOfArgs] at h) (htail hend)
    rw [segsOfArgs, List.cons_append, List.cons_append]
    exact .cons (d := []) (.header (.bulkStr rfl) hw (hsz.trans isizeMax_le_u64Max)) (fun _ _ _ h => h)
      (fun h => by simp at h) hbody

theorem stream_segsOn {base stack : List RespType} {segs : List Seg} {vals d : List RespType}
    (hs : Stream base segs vals)
    (hlast : segs = [] → base = [] → d ≠ []) (hw : Waiting stack) (c : Command)
    (hend : ∀ rest q out, Reads (startOf base segs rest) q out →
      Reads (between (c.value :: stack) rest .type) q (d ++ out)) :
    Stream base (segsOn stack c ++ segs) (d ++ vals) := by
  have hargs : Stream base (segsOfArgs stack c.args.length none c.args ++ segs) (d ++ vals) :=
    stream_segsOfArgs hs hlast c.args none c.nonempty c.size_le (by simp) hend
  obtain ⟨s, args, hsa⟩ : ∃ s args, c.args = s :: args := List.exists_cons_of_ne_nil c.nonempty
  rw [segsOn, List.cons_append]
  refine .cons (d := []) (.header .array hw (c.length_le.trans isizeMax_le_u64Max)) (fun rest q out h => ?_)
    (fun h => by simp [hsa, segsOfArgs] at h) hargs
  rw [hsa] at h ⊢
  exact h

theorem Command.completed (c : Command) : c.value.isCompleted = true := by
  simp [Command.value, RespType.isCompleted]

theorem startOf_segsOf (cmds : List Command) (rest : Bytes) :
    startOf [] (cmds.flatMap segsOf) rest = between [] rest .type := by
  cases cmds with
  | nil => rfl
  | cons c cmds => rfl

theorem stream_segsOf (cmds : List Command) : Stream [] (cmds.flatMap segsOf) (cmds.map Command.value) := by
  induction cmds with
  | nil => exact .nil trivial
  | cons c cmds ih =>
    have hend : ∀ rest q out, Reads (startOf [] (cmds.flatMap segsOf) rest) q out →
        Reads (between [c.value] rest .type) q ([c.value] ++ out) := by
      intro rest q out h
      rw [startOf_segsOf] at h
      exact reads_deliver (Command.completed c) h
    have hstack : Waiting [] := trivial
    exact stream_segsOn ih (fun _ _ => by simp) hstack c hend

theorem serializeAll_bulk (stack : List RespType) (args : List String) (n : Nat) (acc : Option (List RespType)) :
    RespType.serializeAll (args.map .bulk) = some (textOf (segsOfArgs stack n acc args)) := by
  induction args generalizing acc with
  | nil => rfl
  | cons s args ih =>
    rw [List.map_cons, RespType.serializeAll, ih (some (acc.getD [] ++ [.bulk s]))]
    have h36 : utf8 "$" = [36] := by decide
    simp [RespType.bulk, RespType.serialize, segsOfArgs, textOf, Seg.text, h36]

theorem serialize_value (stack : List RespType) (c : Command) : c.value.serialize = some (textOf (segsOn stack c)) := by
  rw [Command.value, RespType.serialize, serializeAll_bulk stack c.args c.args.length none]
  have h42 : utf8 "*" = [42] := by decide
  simp [segsOn, textOf, Seg.text, h42]

theorem serializeAll_value (cmds : List Command) :
    RespType.serializeAll (cmds.map Command.value) = some (textOf (cmds.flatMap segsOf)) := by
  induction cmds with
  | nil => rfl
  | cons c cmds ih =>
    rw [List.map_cons, RespType.serializeAll, ih, serialize_value [] c]
    simp [segsOf, textOf]

theorem lastLength_segsOfArgs (stack : List RespType) (n : Nat) (args : List String) (h : args ≠ []) :
    ∀ acc, lastLength (segsOfArgs stack n acc args) = (args.getLast h).utf8ByteSize + 2 := by
  induction args with
  | nil => exact absurd rfl h
  | cons s args ih =>
    intro acc
    rw [segsOfArgs, lastLength_cons (by simp)]
    cases args with
    | nil => exact Seg.length_text_body _ s
    | cons u args =>
      rw [lastLength_cons (by simp [segsOfArgs]), ih (by simp)]
      rfl

theorem lastLength_append (segs : List Seg) {segs' : List Seg} (h : segs' ≠ []) :
    lastLength (segs ++ segs') = lastLength segs' := by
  unfold lastLength
  rw [List.getLast?_append_of_ne_nil _ h]

theorem lastLength_segsOn (stack : List RespType) (c : Command) : lastLength (segsOn stack c) = c.bodyLength := by
  obtain ⟨s, args, hsa⟩ : ∃ s args, c.args = s :: args := List.exists_cons_of_ne_nil c.nonempty
  rw [segsOn, lastLength_cons (by simp [hsa, segsOfArgs]), lastLength_segsOfArgs _ _ _ c.nonempty, Command.bodyLength]

theorem lastLength_segsOf {cmds : List Command} {c : Command} (h : cmds.getLast? = some c) :
    lastLength (cmds.flatMap segsOf) = c.bodyLength := by
  have happ : cmds = cmds.dropLast ++ [c] := (List.dropLast_append_getLast? c h).symm
  rw [happ, List.flatMap_append, lastLength_append _ (by simp [segsOf, segsOn])]
  simp only [List.flatMap_cons, List.flatMap_nil, List.append_nil, segsOf]
  exact lastLength_segsOn [] c

theorem at_segsOf (cmds : List Command) : At [] (cmds.flatMap segsOf) [] 0 new := by
  have hat : At [] (cmds.flatMap segsOf) [] 0 (startOf [] (cmds.flatMap segsOf) []) := .start _
  rwa [startOf_segsOf] at hat

/-- What is handed over is all the commands exactly if the cursor of the last
body has not reached the end before its last bytes come. -/
theorem readsAll_iff (cmds : List Command) (chunks : List Bytes) (hne : ∀ c ∈ chunks, c ≠ [])
    (hser : RespType.serializeAll (cmds.map Command.value) = some chunks.flatten) :
    ∃ q out, ReadsAll new chunks q out ∧ (out = cmds.map Command.value ↔
      ∀ c, cmds.getLast? = some c → cursorAfter (cutsIn c.bodyLength chunks) < c.bodyLength) := by
  rw [serializeAll_value, Option.some.injEq] at hser
  by_cases hchunks : chunks = []
  · subst hchunks
    obtain rfl : cmds = [] := by
      cases cmds with
      | nil => rfl
      | cons c cmds => exact absurd hser (textOf_ne_nil (by simp [segsOf, segsOn]))
    exact ⟨new, [], .nil, by simp⟩
  · have hnil : cmds ≠ [] := by
      rintro rfl
      obtain ⟨c, chunks, rfl⟩ := List.exists_cons_of_ne_nil hchunks
      exact hne c (List.mem_cons_self ..) (List.append_eq_nil_iff.mp hser.symm).1
    obtain ⟨c, hc⟩ : ∃ c, cmds.getLast? = some c := ⟨_, List.getLast?_eq_some_getLast hnil⟩
    have hcur : tailCur (cmds.flatMap segsOf) 0 = min (lastLength (cmds.flatMap segsOf)) 0 := by
      rw [tailCur_zero, Nat.min_zero]
    obtain ⟨q, out, segs', vals', _, hall, hs', _, hout, hiff⟩ :=
      reads_chunks chunks hne hchunks (stream_segsOf cmds) (at_segsOf cmds) hser.symm hcur
    have hvals : out = cmds.map Command.value ↔ segs' = [] := by
      rw [← hout]
      constructor
      · intro h
        by_contra hne'
        exact hs'.ne_nil hne' (List.self_eq_append_right.mp h)
      · rintro rfl
        cases hs'
        simp
    refine ⟨q, out, hall, (hvals.trans hiff).trans ?_⟩
    rw [lastLength_segsOf hc]
    constructor
    · intro h d hd
      obtain rfl : c = d := Option.some.inj (hc.symm.trans hd)
      exact h
    · intro h
      exact h c hc

/-- A stream of commands fed in chunks gives what it gives when fed at once, all
the commands, exactly if the cursor of the last body has not reached the end
before its last bytes come. -/
theorem chunks_deliver_iff (cmds : List Command) (chunks : List Bytes) (hne : ∀ c ∈ chunks, c ≠ [])
    (hser : RespType.serializeAll (cmds.map Command.value) = some chunks.flatten) :
    ∃ p q out fuel₀, (∀ fuel, fuel₀ ≤ fuel → new.readChunks false fuel chunks = some (p, out) ∧
        new.readChunks false fuel [chunks.flatten] = some (q, cmds.map Command.value)) ∧
      (out = cmds.map Command.value ↔
        ∀ c, cmds.getLast? = some c → cursorAfter (cutsIn c.bodyLength chunks) < c.bodyLength) := by
  obtain ⟨p, out, hcut, hiff⟩ := readsAll_iff cmds chunks hne hser
  obtain ⟨q, hwhole⟩ : ∃ q, ReadsAll new [chunks.flatten] q (cmds.map Command.value) := by
    by_cases hflat : chunks.flatten = []
    · -- there is no command
      have hnil : cmds = [] := by
        rw [serializeAll_value, Option.some.injEq, hflat] at hser
        cases cmds with
        | nil => rfl
        | cons c cmds => exact absurd hser (textOf_ne_nil (by simp [segsOf, segsOn]))
      subst hnil
      rw [hflat]
      have hstop : Reads (new.feedBuf []) new [] := reads_stop trivial rfl (Nat.le_refl _)
      exact ⟨new, .cons hstop .nil⟩
    · obtain ⟨q, whole, hwhole, hall⟩ := readsAll_iff cmds [chunks.flatten] (by simpa using hflat) (by simpa using hser)
      obtain rfl := hall.mpr fun c _ => by simp [cutsIn, cursorAfter, Command.bodyLength]
      exact ⟨q, hwhole⟩
  obtain ⟨fuel₀, h₀⟩ := hcut.readChunks
  obtain ⟨fuel₁, h₁⟩ := hwhole.readChunks
  exact ⟨p, q, out, max fuel₀ fuel₁, fun fuel hle => ⟨h₀ fuel (by omega), h₁ fuel (by omega)⟩, hiff⟩

def ping : Command where
  args := ["PING"]
  nonempty := by decide
  length_le := by decide
  size_le := by decide

theorem chunks_deliver_iff_ping :
    ∃ p q out fuel₀, (∀ fuel, fuel₀ ≤ fuel →
        new.readChunks false fuel ((utf8 "*1\r\n$4\r\nPING\r\n").map fun b => [b]) = some (p, out) ∧
        new.readChunks false fuel [((utf8 "*1\r\n$4\r\nPING\r\n").map fun b => [b]).flatten] = some (q, [ping.value])) ∧
      (out = [ping.value] ↔ ∀ c, [ping].getLast? = some c →
        cursorAfter (cutsIn c.bodyLength ((utf8 "*1\r\n$4\r\nPING\r\n").map fun b => [b])) < c.bodyLength) :=
  chunks_deliver_iff [ping] _ (by decide) (by decide)

/-! ## A command that is not delivered -/

theorem readLoop_mono {isRdb : Bool} {fuel fuel' : Nat} (hle : fuel ≤ fuel') :
    ∀ {p : RespParser} {r : RespParser × List RespType × Except ParseError Unit},
      p.readLoop isRdb fuel = some r → p.readLoop isRdb fuel' = some r := by
  induction fuel generalizing fuel' with
  | zero => exact fun h => by cases h
  | succ fuel ih =>
    intro p r h
    obtain ⟨fuel', rfl⟩ : ∃ k, fuel' = k + 1 := ⟨fuel' - 1, by omega⟩
    rw [readLoop] at h ⊢
    cases hp : p.parse isRdb fuel with
    | none => rw [hp] at h; cases h
    | some x =>
      rw [hp] at h
      rw [parse_mono (by omega) hp]
      obtain ⟨q, e⟩ := x
      cases e with
      | error e => exact h
      | ok =>
        simp only at h ⊢
        cases hc : q.getCompleted with
        | none => rw [hc] at h; exact h
        | some y =>
          rw [hc] at h
          simp only [Option.map_eq_some_iff] at h ⊢
          obtain ⟨z, hz, hr⟩ := h
          exact ⟨z, ih (by omega) hz, hr⟩

theorem readLoop_silent {isRdb : Bool} {p : RespParser} {fuel : Nat}
    (h : (p.readLoop isRdb fuel).map (fun r => (r.2.1.length, decide (r.2.2.toOption = some ()))) = some (0, true)) :
    ∃ q, ∀ fuel', fuel ≤ fuel' → p.readLoop isRdb fuel' = some (q, [], .ok ()) := by
  obtain ⟨⟨q, out, r⟩, hp, hr⟩ := Option.map_eq_some_iff.mp h
  rw [Prod.mk.injEq] at hr
  obtain rfl := List.length_eq_zero_iff.mp hr.1
  obtain rfl : r = .ok () := by
    cases r with
    | ok => rfl
    | error e => exact absurd hr.2 (by simp [Except.toOption])
  exact ⟨q, fun _ hle => readLoop_mono hle hp⟩

theorem readChunks_mono {isRdb : Bool} {fuel fuel' : Nat} (hle : fuel ≤ fuel') (chunks : List Bytes) :
    ∀ {p : RespParser} {r : RespParser × List RespType},
      p.readChunks isRdb fuel chunks = some r → p.readChunks isRdb fuel' chunks = some r := by
  induction chunks with
  | nil => exact fun h => h
  | cons c chunks ih =>
    intro p r h
    rw [readChunks] at h ⊢
    cases hl : (p.feedBuf c).readLoop isRdb fuel with
    | none => rw [hl] at h; cases h
    | some x =>
      obtain ⟨q, ts, e⟩ := x
      rw [hl] at h
      rw [readLoop_mono hle hl]
      cases e with
      | error e => exact h
      | ok =>
        simp only [Option.map_eq_some_iff] at h ⊢
        obtain ⟨z, hz, hr⟩ := h
        exact ⟨z, ih hz, hr⟩

/-- The body in three reads, the last one its CRLF. -/
def pingChunks : List Bytes := [utf8 "*1\r\n$4\r\n", utf8 "PI", utf8 "NG", utf8 "\r\n"]

theorem ping_lost :
    (∀ c ∈ pingChunks, c ≠ []) ∧ RespType.serializeAll [ping.value] = some pingChunks.flatten ∧
    ∃ p q v, ∀ fuel, 12 ≤ fuel → new.readChunks false fuel pingChunks = some (p, []) ∧
      new.readChunks false fuel [pingChunks.flatten] = some (q, [v]) := by
  have hcut : (new.readChunks false 12 pingChunks).map (fun r => r.2.length) = some 0 := by decide +kernel
  have hwhole : (new.readChunks false 12 [pingChunks.flatten]).map (fun r => r.2.length) = some 1 := by
    decide +kernel
  obtain ⟨⟨p, out⟩, hp, hout⟩ := Option.map_eq_some_iff.mp hcut
  obtain ⟨⟨q, whole⟩, hq, hone⟩ := Option.map_eq_some_iff.mp hwhole
  obtain rfl := List.length_eq_zero_iff.mp hout
  obtain ⟨v, rfl⟩ := List.length_eq_one_iff.mp hone
  exact ⟨by decide, by decide, p, q, v, fun _ hle => ⟨readChunks_mono hle _ hp, readChunks_mono hle _ hq⟩⟩

end RespParser

end Redis
