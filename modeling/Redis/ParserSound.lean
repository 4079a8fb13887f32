import Redis.Parser
import Mathlib.Data.List.Infix

/-!
# Round trip of the parser on complete input

`Leads p q` says that whatever `parse` returns from `q` it returns from `p`.
From a parser that waits for a type with an empty or unfinished top of stack,
the bytes of a well-formed value lead to the same parser with that value on
the stack and the rest of the buffer (`leads_value`); the induction is on the
value, and an array item is absorbed by `popStack`.
-/

namespace Redis

open Lib

/-- No `String`, `Vec` or `VecDeque` is longer than `isize::MAX`. -/
def isizeMax : Nat := 2 ^ 63 - 1

theorem isizeMax_le_u64Max : isizeMax ≤ u64Max := by unfold isizeMax u64Max; omega

mutual
def RespType.WellFormed : RespType → Prop
  | .simpleStr (some s) => ¬ delimiter <:+: utf8 s
  | .bulkStr n (some s) => n = s.utf8ByteSize ∧ n ≤ isizeMax
  | .array n (some v) => n = v.length ∧ n ≤ isizeMax ∧ v ≠ [] ∧ RespType.AllWellFormed v
  | _ => False
def RespType.AllWellFormed : List RespType → Prop
  | [] => True
  | t :: ts => t.WellFormed ∧ RespType.AllWellFormed ts
end

theorem allWellFormed_bulk (args : List String) (h : ∀ s ∈ args, s.utf8ByteSize ≤ isizeMax) :
    RespType.AllWellFormed (args.map .bulk) := by
  induction args with
  | nil => simp [RespType.AllWellFormed]
  | cons s args ih =>
    have hs := h s (List.mem_cons_self ..)
    have hargs := ih fun t ht => h t (List.mem_cons_of_mem _ ht)
    simpa [RespType.AllWellFormed, RespType.bulk, RespType.WellFormed, hs] using hargs

/-! ## Scanning a line -/

theorem findCrlf_line (line rest : Bytes) (h : ¬ delimiter <:+: line) :
    ∀ cur, findCrlf (line ++ delimiter ++ rest) cur = (cur + line.length, true) := by
  induction line with
  | nil => intro cur; simp [delimiter, findCrlf]
  | cons b line ih =>
    intro cur
    have hl : ¬ delimiter <:+: line := fun hi => h (hi.trans (List.suffix_cons b line).isInfix)
    cases line with
    | nil => simp [delimiter, findCrlf]
    | cons c line =>
      have hb : ¬ (b = 13 ∧ c = 10) := by
        rintro ⟨rfl, rfl⟩
        exact h (List.prefix_append [13, 10] line).isInfix
      have := ih hl (cur + 1)
      simp only [List.cons_append] at this ⊢
      rw [findCrlf, if_neg hb, this]
      simp only [List.length_cons, Prod.mk.injEq, and_true]
      omega

theorem delimiter_not_infix_utf8_toString (n : Nat) : ¬ delimiter <:+: utf8 (toString n) := by
  intro h
  have := (digit_of_mem_utf8_toString (h.subset (show (13 : UInt8) ∈ delimiter by simp [delimiter]))).1
  exact absurd this (by decide)

theorem slice_mid (pre mid rest : Bytes) :
    slice (pre ++ mid ++ rest) pre.length (pre.length + mid.length) = some mid := by
  unfold slice
  rw [if_pos (by simp)]
  simp

namespace RespParser

variable {isRdb : Bool}

theorem nextTillNewLine_line (p : RespParser) (pre line rest : Bytes) {s : String} {k : Nat}
    (hb : p.buf = pre ++ line ++ delimiter ++ rest) (ht : p.tmpStart = pre.length)
    (hc : p.bufCur = pre.length + k) (hk : k ≤ line.length) (hno : ¬ delimiter <:+: line)
    (hs : fromUtf8 line = some s) :
    p.nextTillNewLine = some ({ p with
      bufCur := pre.length + line.length + 2
      tmpStart := pre.length + line.length + 2 }, .ok (some (.string s))) := by
  have hlen : ¬ p.buf.length < p.bufCur := by
    rw [hb, hc]
    simp only [List.length_append]
    omega
  have hd : p.buf.drop p.bufCur = line.drop k ++ delimiter ++ rest := by
    rw [hb, hc, List.append_assoc pre, List.append_assoc pre, List.drop_length_add_append, List.append_assoc line,
      List.drop_append_of_le_length hk, List.append_assoc]
  have hno' : ¬ delimiter <:+: line.drop k := fun hi => hno (hi.trans (List.drop_suffix k line).isInfix)
  have hf := findCrlf_line (line.drop k) rest hno' p.bufCur
  have hcur : p.bufCur + (line.drop k).length = pre.length + line.length := by
    rw [hc, List.length_drop]; omega
  have hsl : slice p.buf p.tmpStart (pre.length + line.length) = some line := by
    rw [hb, ht, List.append_assoc (pre ++ line)]
    exact slice_mid pre line _
  unfold nextTillNewLine
  rw [if_neg hlen, hd, hf, hcur]
  simp only [hsl, hs, Option.bind_eq_bind, Option.bind_some]

theorem drainTillBuf_eq (p : RespParser) (pre rest : Bytes) (hb : p.buf = pre ++ rest)
    (hc : p.bufCur = pre.length) :
    p.drainTillBuf = some { p with buf := rest, bufCur := 0, tmpStart := 0 } := by
  unfold drainTillBuf
  rw [if_pos (by rw [hb, hc]; simp), hb, hc, List.drop_left]

/-! ## Leading to the same outcome -/

def Leads (isRdb : Bool) (p q : RespParser) : Prop :=
  ∀ fuel r, q.parse isRdb fuel = some r → ∃ fuel, p.parse isRdb fuel = some r

theorem Leads.refl (p : RespParser) : Leads isRdb p p := fun fuel _ h => ⟨fuel, h⟩

theorem Leads.trans {p q r : RespParser} (h₁ : Leads isRdb p q) (h₂ : Leads isRdb q r) :
    Leads isRdb p r := by
  intro fuel x hx
  obtain ⟨fuel', h'⟩ := h₂ fuel x hx
  exact h₁ fuel' x h'

theorem leads_again {p q : RespParser} (h : p.turn isRdb = .again q) : Leads isRdb p q := by
  intro fuel r hr
  refine ⟨fuel + 1, ?_⟩
  rw [parse, h]
  exact hr

/-- `turn` starts with `popCompleted`, so it cannot tell the two apart. -/
theorem leads_pop {p q : RespParser} (h : p.popCompleted = q.popCompleted) : Leads isRdb p q := by
  intro fuel r hr
  have ht : p.turn isRdb = q.turn isRdb := by unfold turn; rw [h]
  cases fuel with
  | zero => cases hr
  | succ fuel =>
    refine ⟨fuel + 1, ?_⟩
    rw [parse] at hr ⊢
    rw [ht]
    exact hr

theorem parse_mono {fuel fuel' : Nat} (hle : fuel ≤ fuel') {p : RespParser}
    {r : RespParser × Except ParseError Unit} (h : p.parse isRdb fuel = some r) :
    p.parse isRdb fuel' = some r := by
  induction fuel generalizing fuel' p with
  | zero => cases h
  | succ fuel ih =>
    cases fuel' with
    | zero => omega
    | succ fuel' =>
      rw [parse] at h ⊢
      cases ht : p.turn isRdb with
      | again q =>
        rw [ht] at h
        exact ih (by omega) h
      | ret q r' => rw [ht] at h; exact h
      | crash => rw [ht] at h; cases h

/-! ## The parser between two tokens -/

def between (stack : List RespType) (buf : Bytes) (status : ParseStatus) : RespParser :=
  { buf, bufCur := 0, tmpStart := 0, stack, completed := [], status }

def Waiting : List RespType → Prop
  | [] => True
  | t :: _ => t.isCompleted = false

theorem waiting_array {n m : Nat} {acc : Option (List RespType)} {stack : List RespType}
    (hn : (acc.getD []).length + (m + 1) = n) : Waiting (.array n acc :: stack) := by
  cases acc with
  | none => rfl
  | some v =>
    rw [Option.getD_some] at hn
    simp only [Waiting, RespType.isCompleted, beq_eq_false_iff_ne, ne_eq]
    omega

theorem popCompleted_of_waiting {p : RespParser} (h : Waiting p.stack) : p.popCompleted = p := by
  unfold popCompleted
  cases hs : p.stack with
  | nil => rfl
  | cons t ts =>
    rw [hs] at h
    have ht : t.isCompleted = false := h
    have hp : popStack t ts p.completed = (t :: ts, p.completed) := by
      unfold popStack
      rw [ht]
      rfl
    simp only [hp, ← hs]

theorem turn_of_waiting {p : RespParser} (h : Waiting p.stack) (hc : p.completed = [])
    (hl : p.bufCur < p.buf.length) :
    p.turn isRdb = match p.status with
      | .type => { p with status := .type }.parseType isRdb
      | .header => { p with status := .type }.parseHeader
      | .line => { p with status := .type }.parseLine
      | .bulk n => { p with status := .type }.parseBulk n false
      | .rdb n => { p with status := .type }.parseBulk n true
      | .none => .again { p with status := .type } := by
  have hb : p.buf ≠ [] := by intro h0; rw [h0] at hl; exact Nat.not_lt_zero _ hl
  unfold turn
  rw [popCompleted_of_waiting h]
  simp only [hc, ne_eq, not_true_eq_false, ite_false]
  refine (if_neg ?_).trans rfl
  rintro (h | h)
  · exact hb h
  · omega

theorem turn_type (isRdb : Bool) {stack : List RespType} {c : UInt8} (rest : Bytes) {t : RespType} (h : Waiting stack)
    (ht : RespType.matchPrefix c isRdb = some t) :
    (between stack (c :: rest) .type).turn isRdb =
      (match t with
        | .array .. | .bulkStr .. | .rdb _ =>
          .again { between (t :: stack) (c :: rest) .header with bufCur := 1, tmpStart := 1 }
        | .simpleStr _ | .integer _ => .again { between (t :: stack) (c :: rest) .line with bufCur := 1, tmpStart := 1 }
        | _ => .again { between (t :: stack) (c :: rest) .type with bufCur := 1, tmpStart := 1 }) := by
  have hw : Waiting (between stack (c :: rest) .type).stack := h
  rw [turn_of_waiting hw rfl (by simp [between])]
  simp only [between, parseType, nextTillType, List.drop_zero, findType, ht]
  cases t <;> rfl

inductive Headed (isRdb : Bool) : UInt8 → RespType → (Nat → ParseStatus) → Prop
  | array : Headed isRdb 42 (.array 0 none) fun _ => .type
  | bulkStr : isRdb = false → Headed isRdb 36 (.bulkStr 0 none) .bulk
  | rdb : isRdb = true → Headed isRdb 36 (.rdb none) .rdb

theorem Headed.turn_type {stack : List RespType} {c : UInt8} {t : RespType}
    {st : Nat → ParseStatus} (hh : Headed isRdb c t st) (h : Waiting stack) (rest : Bytes) :
    (between stack (c :: rest) .type).turn isRdb =
      .again { between (t :: stack) (c :: rest) .header with bufCur := 1, tmpStart := 1 } := by
  cases hh with
  | array => rw [RespParser.turn_type _ _ h (t := .array 0 none) rfl]
  | bulkStr hr => subst hr; rw [RespParser.turn_type _ _ h (t := .bulkStr 0 none) rfl]
  | rdb hr => subst hr; rw [RespParser.turn_type _ _ h (t := .rdb none) rfl]

/-- The header of a value is read from any cursor inside its number. -/
theorem Headed.turn_header {stack : List RespType} {c : UInt8} {rest : Bytes} {t : RespType}
    {st : Nat → ParseStatus} {n k : Nat} (hh : Headed isRdb c t st) (hn : n ≤ u64Max)
    (hk : k ≤ (utf8 (toString n)).length) :
    { between (t :: stack) (c :: (utf8 (toString n) ++ delimiter ++ rest)) .header with
      bufCur := 1 + k, tmpStart := 1 }.turn isRdb =
      .again (between (t.setLength n :: stack) rest (st n)) := by
  have hw : Waiting (t :: stack) := by cases hh <;> rfl
  rw [turn_of_waiting hw rfl (by simp only [between, delimiter, List.length_cons, List.length_append]; omega)]
  simp only [between, parseHeader]
  rw [nextTillNewLine_line _ [c] (utf8 (toString n)) rest (s := toString n) (k := k)
    (by simp) rfl rfl hk (delimiter_not_infix_utf8_toString n) (fromUtf8_utf8 _)]
  simp only
  rw [drainTillBuf_eq _ (c :: (utf8 (toString n) ++ delimiter)) rest (by simp)
    (by simp only [delimiter, List.length_cons, List.length_append, List.length_nil]; omega)]
  simp only [ReadBytesOutput.str, parseUint_toString hn]
  cases hh <;> rfl

theorem Headed.leads {stack : List RespType} {c : UInt8} {t : RespType} {st : Nat → ParseStatus} {n : Nat}
    (hh : Headed isRdb c t st) (h : Waiting stack) (hn : n ≤ u64Max) (rest : Bytes) :
    Leads isRdb (between stack (c :: (utf8 (toString n) ++ delimiter ++ rest)) .type)
      (between (t.setLength n :: stack) rest (st n)) :=
  (leads_again (hh.turn_type h _)).trans (leads_again (hh.turn_header (k := 0) hn (Nat.zero_le _)))

/-! ## Bodies and lines -/

theorem getElem?_mid (pre mid rest : Bytes) (i : Nat) (hi : i < mid.length) :
    (pre ++ mid ++ rest)[pre.length + i]? = mid[i]? := by
  rw [List.append_assoc, List.getElem?_append_right (Nat.le_add_right _ _), Nat.add_sub_cancel_left,
    List.getElem?_append_left hi]

/-- The cursor reaches the end of a body from any position inside it. -/
theorem readBytes_str (p : RespParser) {s : String} {n : Nat} (rest : Bytes) (hn : n = s.utf8ByteSize)
    (hmax : n ≤ isizeMax) (hb : p.buf = utf8 s ++ delimiter ++ rest) (ht : p.tmpStart = 0)
    (hc : p.bufCur ≤ n + 2) :
    p.readBytes n false = some ({ p with bufCur := n + 2 }, .ok (some (.string s))) := by
  have hs : (utf8 s).length = n := by rw [hn, length_utf8]
  have hlen : n + 2 ≤ p.buf.length := by
    rw [hb]
    simp only [List.length_append, hs, delimiter, List.length_cons, List.length_nil]
    omega
  have hn2 : n + 2 < 2 ^ 64 := by unfold isizeMax at hmax; omega
  have hadd : wrappingAdd n 2 = n + 2 := wrappingAdd_eq hn2
  have hnext : min (wrappingAdd n 2 - wrappingSub p.bufCur p.tmpStart) p.buf.length = n + 2 - p.bufCur := by
    rw [hadd, ht, wrappingSub_eq (Nat.zero_le _) (by omega)]
    omega
  have hcur : wrappingAdd p.bufCur (n + 2 - p.bufCur) = n + 2 := by
    rw [wrappingAdd_eq (by omega)]
    omega
  have hp : (if 0 < n + 2 - p.bufCur then { p with bufCur := wrappingAdd p.bufCur (n + 2 - p.bufCur) } else p) =
      { p with bufCur := n + 2 } := by
    split
    · rw [hcur]
    · rw [show n + 2 = p.bufCur by omega]
  have hw : wrappingSub (n + 2) 0 = n + 2 ∧ wrappingSub (n + 2) 2 = n ∧
      wrappingAdd 0 n = n ∧ wrappingAdd n 1 = n + 1 := by
    refine ⟨?_, ?_, ?_, ?_⟩
    · exact wrappingSub_eq (Nat.zero_le _) hn2
    · exact wrappingSub_eq (by omega) hn2
    · rw [wrappingAdd_eq (by omega), Nat.zero_add]
    · exact wrappingAdd_eq (by omega)
  have h13 : p.buf[n]? = some 13 := by
    rw [hb, ← hs]
    exact getElem?_mid (utf8 s) delimiter rest 0 (by decide)
  have h10 : p.buf[n + 1]? = some 10 := by
    rw [hb, ← hs]
    exact getElem?_mid (utf8 s) delimiter rest 1 (by decide)
  have hsl : slice p.buf 0 n = some (utf8 s) := by
    have := slice_mid [] (utf8 s) (delimiter ++ rest)
    rw [List.nil_append, List.length_nil, Nat.zero_add, hs, ← List.append_assoc] at this
    rw [hb]
    exact this
  unfold readBytes
  simp only [Bool.false_eq_true, ite_false, hnext, hp]
  simp only [ht, hadd, hw, hlen, h13, h10, hsl, and_self, ite_true, Option.bind_eq_bind, Option.bind_some,
    fromUtf8_utf8]

theorem readBytes_rdb (p : RespParser) {v rest : Bytes} (hmax : v.length ≤ isizeMax)
    (hb : p.buf = v ++ rest) (ht : p.tmpStart = 0) (hc : p.bufCur ≤ v.length) :
    p.readBytes v.length true = some ({ p with bufCur := v.length }, .ok (some (.bytes v))) := by
  have hlen : v.length ≤ p.buf.length := by rw [hb, List.length_append]; omega
  have hv : v.length < 2 ^ 64 := by unfold isizeMax at hmax; omega
  have hadd : wrappingAdd v.length 0 = v.length := wrappingAdd_eq hv
  have hnext : min (wrappingAdd v.length 0 - wrappingSub p.bufCur p.tmpStart) p.buf.length =
      v.length - p.bufCur := by
    rw [hadd, ht, wrappingSub_eq (Nat.zero_le _) (by omega)]
    omega
  have hcur : wrappingAdd p.bufCur (v.length - p.bufCur) = v.length := by
    rw [wrappingAdd_eq (by omega)]
    omega
  have hp : (if 0 < v.length - p.bufCur then
      { p with bufCur := wrappingAdd p.bufCur (v.length - p.bufCur) } else p) =
      { p with bufCur := v.length } := by
    split
    · rw [hcur]
    · rw [show v.length = p.bufCur by omega]
  have hw : wrappingSub v.length 0 = v.length := wrappingSub_eq (Nat.zero_le _) hv
  have hsl : slice p.buf 0 v.length = some v := by
    have := slice_mid [] v rest
    rw [List.nil_append, List.length_nil, Nat.zero_add] at this
    rw [hb]
    exact this
  unfold readBytes
  simp only [ite_true, hnext, hp]
  simp only [ht, hadd, hw, hlen, hsl, and_self, ite_true, Option.bind_eq_bind, Option.bind_some]

/-- A bulk body is read from any cursor inside it, as long as there are bytes to look at. -/
theorem turn_bulk (isRdb : Bool) (stack : List RespType) (rest : Bytes) {s : String} {n k : Nat}
    (hn : n = s.utf8ByteSize)
    (hmax : n ≤ isizeMax) (hk : k ≤ n + 2) (hrest : k < n + 2 + rest.length) :
    { between (.bulkStr n none :: stack) (utf8 s ++ delimiter ++ rest) (.bulk n) with
      bufCur := k }.turn isRdb = .again (between (.bulkStr n (some s) :: stack) rest .type) := by
  have hs : (utf8 s ++ delimiter).length = n + 2 := by
    rw [List.length_append, length_utf8, hn]
    simp [delimiter]
  have hw : Waiting (.bulkStr n none :: stack) := rfl
  rw [turn_of_waiting hw rfl (by simp only [between]; rw [List.length_append, hs]; exact hrest)]
  simp only [between, parseBulk]
  rw [readBytes_str (s := s) _ rest hn hmax rfl rfl hk]
  simp only [setTop]
  rw [drainTillBuf_eq _ (utf8 s ++ delimiter) rest rfl hs.symm]
  rfl

theorem turn_rdb {stack : List RespType} {v rest : Bytes} (hv : v ≠ []) (hmax : v.length ≤ isizeMax) :
    (between (.rdb none :: stack) (v ++ rest) (.rdb v.length)).turn isRdb =
      .again (between (.rdb (some v) :: stack) rest .type) := by
  have hpos : 0 < (v ++ rest).length := by
    rw [List.length_append]
    have := List.length_pos_of_ne_nil hv
    omega
  have hw : Waiting (.rdb none :: stack) := rfl
  rw [turn_of_waiting hw rfl hpos]
  simp only [between, parseBulk]
  rw [readBytes_rdb _ hmax rfl rfl (Nat.zero_le _)]
  simp only [setTop]
  rw [drainTillBuf_eq _ v rest rfl rfl]
  rfl

theorem turn_line {stack : List RespType} {s : String} (hno : ¬ delimiter <:+: utf8 s) (rest : Bytes) :
    { between (.simpleStr none :: stack) (43 :: (utf8 s ++ delimiter ++ rest)) .line with
      bufCur := 1, tmpStart := 1 }.turn isRdb =
      .again (between (.simpleStr (some s) :: stack) rest .type) := by
  have hw : Waiting (.simpleStr none :: stack) := rfl
  rw [turn_of_waiting hw rfl (by simp only [between, delimiter, List.length_cons, List.length_append]; omega)]
  simp only [between, parseLine]
  rw [nextTillNewLine_line _ [43] (utf8 s) rest (s := s) (k := 0)
    (by simp) rfl rfl (Nat.zero_le _) hno (fromUtf8_utf8 _)]
  simp only [setTop]
  rw [drainTillBuf_eq _ (43 :: (utf8 s ++ delimiter)) rest (by simp)
    (by simp only [delimiter, List.length_cons, List.length_append, List.length_nil]; omega)]
  rfl

/-! ## Whole values -/

theorem isCompleted_of_wellFormed {t : RespType} (h : t.WellFormed) : t.isCompleted = true := by
  cases t with
  | simpleStr o =>
    cases o with
    | none => simp [RespType.WellFormed] at h
    | some s => rfl
  | bulkStr n o =>
    cases o with
    | none => simp [RespType.WellFormed] at h
    | some s => rfl
  | array n o =>
    cases o with
    | none => simp [RespType.WellFormed] at h
    | some v =>
      rw [RespType.WellFormed] at h
      simp [RespType.isCompleted, h.1]
  | _ => simp [RespType.WellFormed] at h

theorem leads_absorb (isRdb : Bool) {t a : RespType} (ht : t.isCompleted = true) (stack : List RespType) (rest : Bytes)
    (status : ParseStatus) :
    Leads isRdb (between (t :: a :: stack) rest status) (between (a.addItem t :: stack) rest status) := by
  refine leads_pop ?_
  have hp : popStack t (a :: stack) [] = popStack (a.addItem t) stack [] := by
    rw [popStack, if_pos ht]
  simp only [between, popCompleted, hp]

mutual
theorem leads_value : ∀ (t : RespType) (stack : List RespType) (rest : Bytes), t.WellFormed → Waiting stack →
    ∃ b, t.serialize = some b ∧
      Leads false (between stack (b ++ rest) .type) (between (t :: stack) rest .type)
  | .simpleStr (some s), stack, rest, h, hw => by
    rw [RespType.WellFormed] at h
    refine ⟨_, by rw [RespType.serialize, RespType.getPrefix], ?_⟩
    have hty := turn_type false (c := 43) (utf8 s ++ delimiter ++ rest) hw rfl
    have hb : utf8 "+" ++ utf8 s ++ delimiter ++ rest = 43 :: (utf8 s ++ delimiter ++ rest) := by
      simp [show utf8 "+" = [43] from by decide]
    rw [hb]
    exact (leads_again hty).trans (leads_again (turn_line h rest))
  | .bulkStr n (some s), stack, rest, h, hw => by
    rw [RespType.WellFormed] at h
    obtain ⟨hn, hmax⟩ := h
    refine ⟨_, by rw [RespType.serialize, RespType.getPrefix], ?_⟩
    have hb : utf8 "$" ++ utf8 (toString n) ++ delimiter ++ utf8 s ++ delimiter ++ rest =
        36 :: (utf8 (toString n) ++ delimiter ++ (utf8 s ++ delimiter ++ rest)) := by
      simp [show utf8 "$" = [36] from by decide]
    have hu : n ≤ u64Max := hmax.trans isizeMax_le_u64Max
    have hbody := turn_bulk false stack rest (k := 0) hn hmax (by omega) (by omega)
    rw [hb]
    exact ((Headed.bulkStr rfl).leads hw hu _).trans (leads_again hbody)
  | .array n (some v), stack, rest, h, hw => by
    rw [RespType.WellFormed] at h
    obtain ⟨hn, hmax, hne, hall⟩ := h
    obtain ⟨b, hb, hl⟩ := leads_items v n none stack rest hall (by simp [hn])
    refine ⟨utf8 "*" ++ utf8 (toString n) ++ delimiter ++ b, ?_, ?_⟩
    · rw [RespType.serialize, RespType.getPrefix, hb]
      rfl
    have hb : utf8 "*" ++ utf8 (toString n) ++ delimiter ++ b ++ rest =
        42 :: (utf8 (toString n) ++ delimiter ++ (b ++ rest)) := by
      simp [show utf8 "*" = [42] from by decide]
    have hu : n ≤ u64Max := hmax.trans isizeMax_le_u64Max
    rw [hb]
    refine (Headed.array.leads hw hu _).trans ?_
    simpa [RespType.setLength, hne] using hl
theorem leads_items : ∀ (v : List RespType) (n : Nat) (acc : Option (List RespType)) (stack : List RespType)
    (rest : Bytes), RespType.AllWellFormed v → (acc.getD []).length + v.length = n →
    ∃ b, RespType.serializeAll v = some b ∧
      Leads false (between (.array n acc :: stack) (b ++ rest) .type)
        (between (.array n (if v = [] then acc else some (acc.getD [] ++ v)) :: stack) rest .type)
  | [], n, acc, stack, rest, _, _ => ⟨[], rfl, Leads.refl _⟩
  | t :: ts, n, acc, stack, rest, h, hn => by
    rw [RespType.AllWellFormed] at h
    obtain ⟨ht, hts⟩ := h
    have hw : Waiting (.array n acc :: stack) := waiting_array hn
    obtain ⟨bs, hbs, hls⟩ := leads_items ts n (some (acc.getD [] ++ [t])) stack rest hts
      (by simp only [Option.getD_some, List.length_append, List.length_cons, List.length_nil] at hn ⊢; omega)
    obtain ⟨b, hb, hl⟩ := leads_value t (.array n acc :: stack) (bs ++ rest) ht hw
    refine ⟨b ++ bs, ?_, ?_⟩
    · rw [RespType.serializeAll, hb, hbs]
      rfl
    have habs := leads_absorb false (isCompleted_of_wellFormed ht) (a := .array n acc) stack (bs ++ rest) .type
    rw [List.append_assoc]
    refine hl.trans (habs.trans ?_)
    cases ts with
    | nil => simpa [RespType.addItem] using hls
    | cons u us => simpa [RespType.addItem] using hls
end

/-! ## Pipelines -/

theorem parse_handover {t : RespType} (ht : t.isCompleted = true) (rest : Bytes) :
    (between [t] rest .type).parse isRdb 1 = some ({ between [] rest .type with completed := [t] }, .ok ()) := by
  have hp : popStack t [] [] = ([], [t]) := by rw [popStack, if_pos ht]; rfl
  have : (between [t] rest .type).turn isRdb = .ret { between [] rest .type with completed := [t] } (.ok ()) := by
    simp only [turn, popCompleted, between, hp]
    simp
  rw [parse, this]

theorem Leads.takeCompleted {p : RespParser} {t : RespType} {rest : Bytes} (ht : t.isCompleted = true)
    (h : Leads isRdb p (between [t] rest .type)) :
    ∃ fuel₀, ∀ fuel, fuel₀ ≤ fuel → ∀ n, p.takeCompleted isRdb fuel (n + 1) =
      ((between [] rest .type).takeCompleted isRdb fuel n).map fun r => (r.1, t :: r.2) := by
  obtain ⟨fuel₀, h₀⟩ := h 1 _ (parse_handover ht rest)
  refine ⟨fuel₀, fun fuel hle n => ?_⟩
  rw [RespParser.takeCompleted, parse_mono hle h₀]
  rfl

theorem takeCompleted_values (ts : List RespType) (h : RespType.AllWellFormed ts) (r : Bytes) :
    ∃ b, RespType.serializeAll ts = some b ∧ ∃ fuel₀, ∀ fuel, fuel₀ ≤ fuel →
      (between [] (b ++ r) .type).takeCompleted false fuel ts.length = some (between [] r .type, ts) := by
  induction ts with
  | nil => exact ⟨[], rfl, 0, fun _ _ => rfl⟩
  | cons t ts ih =>
    rw [RespType.AllWellFormed] at h
    obtain ⟨bs, hbs, fuel₁, h₁⟩ := ih h.2
    obtain ⟨b, hb, hl⟩ := leads_value t [] (bs ++ r) h.1 trivial
    obtain ⟨fuel₂, h₂⟩ := hl.takeCompleted (isCompleted_of_wellFormed h.1)
    refine ⟨b ++ bs, by rw [RespType.serializeAll, hb, hbs]; rfl, max fuel₁ fuel₂, fun fuel hle => ?_⟩
    rw [List.append_assoc, List.length_cons, h₂ fuel (by omega), h₁ fuel (by omega)]
    rfl

theorem takeCompleted_rdb (v r : Bytes) (hv : v ≠ []) (hmax : v.length ≤ isizeMax) :
    ∃ b, (RespType.rdb (some v)).serialize = some b ∧ ∃ fuel₀, ∀ fuel, fuel₀ ≤ fuel →
      (between [] (b ++ r) .type).takeCompleted true fuel 1 = some (between [] r .type, [.rdb (some v)]) := by
  have hb : utf8 "$" ++ utf8 (toString v.length) ++ delimiter ++ v ++ r =
      36 :: (utf8 (toString v.length) ++ delimiter ++ (v ++ r)) := by
    simp [show utf8 "$" = [36] from by decide]
  have hu : v.length ≤ u64Max := hmax.trans isizeMax_le_u64Max
  have hl : Leads true (between [] (utf8 "$" ++ utf8 (toString v.length) ++ delimiter ++ v ++ r) .type)
      (between [.rdb (some v)] r .type) := by
    rw [hb]
    have hwait : Waiting [] := trivial
    exact ((Headed.rdb rfl).leads hwait hu _).trans (leads_again (turn_rdb hv hmax))
  obtain ⟨fuel₀, h₀⟩ := hl.takeCompleted rfl
  refine ⟨_, by rw [RespType.serialize, RespType.getPrefix], fuel₀, fun fuel hle => ?_⟩
  rw [h₀ fuel hle 0]
  rfl

/-- What was serialized and fed at once comes back, value by value, and what
follows stays in the buffer. -/
theorem round_trip :
    (∀ (ts : List RespType) (r : Bytes), RespType.AllWellFormed ts →
      ∃ b, RespType.serializeAll ts = some b ∧ ∃ fuel₀, ∀ fuel, fuel₀ ≤ fuel →
        (new.feedBuf (b ++ r)).takeCompleted false fuel ts.length = some ({ new with buf := r }, ts)) ∧
    (∀ v r : Bytes, v ≠ [] → v.length ≤ isizeMax →
      ∃ fuel₀, ∀ fuel, fuel₀ ≤ fuel →
        (new.feedBuf (utf8 "$" ++ utf8 (toString v.length) ++ delimiter ++ v ++ r)).takeCompleted true fuel 1 =
          some ({ new with buf := r }, [.rdb (some v)])) := by
  refine ⟨fun ts r h => takeCompleted_values ts h r, fun v r hv hmax => ?_⟩
  obtain ⟨b, hb, fuel₀, h₀⟩ := takeCompleted_rdb v r hv hmax
  rw [RespType.serialize, RespType.getPrefix, Option.some.injEq] at hb
  refine ⟨fuel₀, fun fuel hle => ?_⟩
  rw [hb]
  exact h₀ fuel hle

theorem round_trip_nested :
    (∃ b, RespType.serializeAll [.array 1 (some [RespType.arrayOf [.bulk "a\r\nb", .bulk ""]]),
      .simpleStr (some "OK")] = some b ∧
      ∃ fuel₀, ∀ fuel, fuel₀ ≤ fuel → (new.feedBuf (b ++ [42])).takeCompleted false fuel 2 =
        some ({ new with buf := [42] },
          [.array 1 (some [RespType.arrayOf [.bulk "a\r\nb", .bulk ""]]), .simpleStr (some "OK")])) ∧
    ∃ fuel₀, ∀ fuel, fuel₀ ≤ fuel →
      (new.feedBuf (utf8 "$" ++ utf8 (toString 3) ++ delimiter ++ [13, 10, 255] ++ [43])).takeCompleted true fuel 1 =
        some ({ new with buf := [43] }, [.rdb (some [13, 10, 255])]) := by
  refine ⟨round_trip.1 _ [42] ?_, round_trip.2 [13, 10, 255] [43] (by decide) (by decide)⟩
  have hok : ¬ delimiter <:+: utf8 "OK" := by decide
  simp [RespType.AllWellFormed, RespType.WellFormed, RespType.arrayOf, RespType.bulk, isizeMax, hok]
  decide

end RespParser

end Redis
