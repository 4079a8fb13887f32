import Redis.Turns
import Redis.CmdBuilder
import Redis.Lib.Runs

/-!
# The form of completed values

Whatever bytes come in, and however `parse` is called, a value that is handed
over is complete all the way down (`Parsed`). The invariant `Formed` ties the
status to the value on top of the stack: a header, a line or a body is read
only for a value that was just opened and has none yet.
-/

namespace Redis

open Lib

mutual
def RespType.Parsed : RespType → Prop
  | .simpleStr (some s) => ¬ delimiter <:+: utf8 s
  | .bulkStr n (some s) => n = s.utf8ByteSize
  | .array n (some v) => v ≠ [] ∧ n = v.length ∧ RespType.AllParsed v
  | .rdb (some _) => True
  | _ => False
def RespType.AllParsed : List RespType → Prop
  | [] => True
  | t :: ts => t.Parsed ∧ RespType.AllParsed ts
end

theorem RespType.AllParsed.snoc {ts : List RespType} {t : RespType} (hts : AllParsed ts) (ht : t.Parsed) :
    AllParsed (ts ++ [t]) := by
  induction ts with
  | nil => exact ⟨ht, trivial⟩
  | cons u ts ih =>
    rw [AllParsed] at hts
    exact ⟨hts.1, ih hts.2⟩

mutual
theorem RespType.Parsed.serialize : ∀ {t : RespType}, t.Parsed → ∃ b, t.serialize = some b
  | .simpleStr (some s), _ => ⟨_, by rw [RespType.serialize]⟩
  | .bulkStr n (some s), _ => ⟨_, by rw [RespType.serialize]⟩
  | .rdb (some v), _ => ⟨_, by rw [RespType.serialize]⟩
  | .array n (some v), h => by
    rw [RespType.Parsed] at h
    obtain ⟨b, hb⟩ := RespType.AllParsed.serialize h.2.2
    exact ⟨_, by rw [RespType.serialize, hb]; rfl⟩
theorem RespType.AllParsed.serialize : ∀ {ts : List RespType}, AllParsed ts → ∃ b, serializeAll ts = some b
  | [], _ => ⟨[], rfl⟩
  | t :: ts, h => by
    rw [AllParsed] at h
    obtain ⟨b, hb⟩ := RespType.Parsed.serialize h.1
    obtain ⟨bs, hbs⟩ := RespType.AllParsed.serialize h.2
    exact ⟨b ++ bs, by rw [serializeAll, hb, hbs]; rfl⟩
end

/-- `from_resp` unwraps a line and the first item of an array. -/
theorem RespType.Parsed.fromResp (P : Platform) {t : RespType} (h : t.Parsed) : Cmd.fromResp P t ≠ .error .unwrap := by
  cases t with
  | simpleStr o =>
    cases o with
    | none => simp [Parsed] at h
    | some s =>
      rw [Cmd.fromResp]
      have hto : Cmd.strTo 10 s ≠ .error .unwrap := by
        unfold Cmd.strTo
        split
        · simp
        · cases fromUtf8 ((utf8 s).take 10) <;> simp
      split
      · simp
      · split
        · simp
        · cases hs : Cmd.strTo 10 s with
          | ok p => simp [Except.map]
          | error e => simpa [Except.map, hs] using hto
  | array n value =>
    cases value with
    | none => simp [Parsed] at h
    | some v =>
      rw [Parsed] at h
      obtain ⟨t, v, rfl⟩ := List.exists_cons_of_ne_nil h.1
      have ht := h.2.2.1
      rw [Cmd.fromResp.eq_def]
      simp only
      split
      · simp
      · cases t with
        | bulkStr m value =>
          cases value with
          | none => simp [Parsed] at ht
          | some s =>
            simp only
            split
            · simp
            · cases (Cmd.builders P).lookup (asciiUpper s) with
              | none => simp
              | some b =>
                simp only [Cmd.runBuilder]
                cases b v <;> simp
        | _ => simp
  | rdb o => cases o <;> simp [Cmd.fromResp]
  | _ => simp [Cmd.fromResp]

/-- A value on the stack: an array with what it has so far, or one that is not
complete unless it is in form. -/
def RespType.Pending : RespType → Prop
  | .array _ (some v) => v ≠ [] ∧ AllParsed v
  | .array _ none => True
  | t => t.isCompleted = true → t.Parsed

theorem RespType.Pending.parsed {t : RespType} (h : t.Pending) (hc : t.isCompleted = true) : t.Parsed := by
  cases t with
  | array n value =>
    cases value with
    | none => simp [isCompleted] at hc
    | some v =>
      rw [Pending] at h
      simp only [isCompleted, beq_iff_eq] at hc
      exact ⟨h.1, hc.symm, h.2⟩
  | _ => exact h hc

theorem RespType.Pending.addItem {a t : RespType} (ha : a.Pending) (ht : t.Parsed) : (a.addItem t).Pending := by
  cases a with
  | array n value =>
    rw [RespType.addItem, Pending]
    refine ⟨by simp, ?_⟩
    cases value with
    | none => exact AllParsed.snoc trivial ht
    | some v =>
      rw [Pending] at ha
      exact ha.2.snoc ht
  | _ => exact ha

namespace RespParser

/-! ## The invariant -/

def Expecting (p : RespParser) : Prop :=
  match p.status with
  | .type | .none => True
  | .header => ∃ t below, p.stack = t :: below ∧ (t = .array 0 none ∨ t = .bulkStr 0 none ∨ t = .rdb none)
  | .line => (∃ t below, p.stack = t :: below ∧ (t = .simpleStr none ∨ t = .integer none)) ∧ p.Scanned
  | .bulk n => (∃ below, p.stack = .bulkStr n none :: below) ∧ p.tmpStart = 0 ∧ n ≤ u64Max
  | .rdb _ => ∃ below, p.stack = .rdb none :: below

structure Formed (p : RespParser) : Prop where
  completed : ∀ t ∈ p.completed, t.Parsed
  pending : ∀ t ∈ p.stack, t.Pending
  expecting : p.Expecting

theorem Formed.feedBuf {p : RespParser} (h : p.Formed) (data : Bytes) : (p.feedBuf data).Formed := by
  refine ⟨h.completed, h.pending, ?_⟩
  have he := h.expecting
  unfold Expecting at he ⊢
  simp only [RespParser.feedBuf]
  cases hs : p.status with
  | line =>
    rw [hs] at he
    exact ⟨he.1, he.2.feedBuf data⟩
  | _ =>
    rw [hs] at he
    exact he

theorem Formed.getCompleted {p q : RespParser} {t : RespType} (h : p.Formed) (hg : p.getCompleted = some (t, q)) :
    q.Formed := by
  unfold RespParser.getCompleted at hg
  split at hg
  · cases hg
  · rename_i u us hc
    cases hg
    refine ⟨fun t ht => h.completed t ?_, h.pending, h.expecting⟩
    rw [hc]
    exact List.mem_cons_of_mem _ ht

theorem popStack_formed (completed : List RespType) :
    ∀ (below : List RespType) (top : RespType), (∀ t ∈ completed, t.Parsed) → (∀ t ∈ top :: below, t.Pending) →
      (∀ t ∈ (popStack top below completed).1, t.Pending) ∧ ∀ t ∈ (popStack top below completed).2, t.Parsed := by
  intro below
  induction below with
  | nil =>
    intro top hc hp
    rw [popStack]
    split
    · rename_i htop
      have htop := (hp top (List.mem_cons_self ..)).parsed htop
      refine ⟨by simp, fun t ht => ?_⟩
      obtain ht | ht := List.mem_append.mp ht
      · exact hc t ht
      · obtain rfl := List.mem_singleton.mp ht
        exact htop
    · exact ⟨hp, hc⟩
  | cons next rest ih =>
    intro top hc hp
    rw [popStack]
    split
    · rename_i htop
      have htop := (hp top (List.mem_cons_self ..)).parsed htop
      refine ih _ hc fun t ht => ?_
      cases ht with
      | head => exact (hp next (by simp)).addItem htop
      | tail _ ht => exact hp t (List.mem_cons_of_mem _ (List.mem_cons_of_mem _ ht))
    · exact ⟨hp, hc⟩

theorem Expecting.waiting {p : RespParser} (h : p.Expecting) (hs : p.status ≠ .type) (hn : p.status ≠ .none) :
    Waiting p.stack := by
  unfold Expecting at h
  cases hst : p.status with
  | type => exact absurd hst hs
  | none => exact absurd hst hn
  | header =>
    rw [hst] at h
    obtain ⟨t, below, he, rfl | rfl | rfl⟩ := h <;> (rw [he]; rfl)
  | line =>
    rw [hst] at h
    obtain ⟨⟨t, below, he, rfl | rfl⟩, -⟩ := h <;> (rw [he]; rfl)
  | bulk n =>
    rw [hst] at h
    obtain ⟨⟨below, he⟩, -⟩ := h
    rw [he]
    rfl
  | rdb n =>
    rw [hst] at h
    obtain ⟨below, he⟩ := h
    rw [he]
    rfl

theorem Formed.popCompleted {p : RespParser} (h : p.Formed) : p.popCompleted.Formed := by
  by_cases hw : Waiting p.stack
  · rw [popCompleted_of_waiting hw]
    exact h
  · have hst : p.status = .type ∨ p.status = .none := by
      by_contra hne
      rw [not_or] at hne
      exact hw (h.expecting.waiting hne.1 hne.2)
    unfold RespParser.popCompleted
    split
    · exact h
    · rename_i top below hstack
      have hpop := popStack_formed p.completed below top h.completed (hstack ▸ h.pending)
      refine ⟨hpop.2, hpop.1, ?_⟩
      unfold Expecting
      obtain hst | hst := hst <;> simp [hst]

theorem eq_some_of_ite {α : Type} {c : Prop} [Decidable c] {x y : Option α} {a : α}
    (h : (if c then x else y) = some a) :
    x = some a ∨ y = some a := by
  split at h
  · exact .inl h
  · exact .inr h

theorem pending_opened {b : UInt8} {isRdb : Bool} {t : RespType} (h : RespType.matchPrefix b isRdb = some t) :
    t.Pending ∧ match t.opened with
      | .header => t = .array 0 none ∨ t = .bulkStr 0 none ∨ t = .rdb none
      | .line => t = .simpleStr none ∨ t = .integer none
      | s => s = .type := by
  unfold RespType.matchPrefix at h
  repeat
    obtain h | h := eq_some_of_ite h
    · first
      | cases h
        simp [RespType.Pending, RespType.isCompleted, RespType.opened]
      | obtain h | h := eq_some_of_ite h
        all_goals
          cases h
          simp [RespType.Pending, RespType.isCompleted, RespType.opened]
  cases h

def OutcomeFormed : Turn → Prop
  | .again p => p.Formed
  | .ret p _ => p.Formed
  | .crash => True

theorem Formed.opens {q : RespParser} {isRdb : Bool} (h : q.Formed) {pre rest : Bytes} {b : UInt8} {t : RespType}
    {cur : Nat} (hd : q.buf.drop q.bufCur = pre ++ b :: rest) (hb : RespType.matchPrefix b isRdb = some t)
    (hcur : cur = q.bufCur + pre.length + 1) :
    { q with bufCur := cur, tmpStart := cur, stack := t :: q.stack, status := t.opened }.Formed := by
  obtain ⟨hpend, hop⟩ := pending_opened hb
  refine ⟨h.completed, ?_, ?_⟩
  · intro u hu
    cases hu with
    | head => exact hpend
    | tail _ hu => exact h.pending u hu
  · have hlen : cur ≤ q.buf.length := by
      have := congrArg List.length hd
      simp only [List.length_drop, List.length_append, List.length_cons] at this
      omega
    unfold Expecting
    cases hs : t.opened with
    | header =>
      rw [hs] at hop
      exact ⟨t, q.stack, rfl, hop⟩
    | line =>
      rw [hs] at hop
      exact ⟨⟨t, q.stack, rfl, hop⟩, Scanned.start hlen rfl⟩
    | type => trivial
    | _ =>
      rw [hs] at hop
      cases hop

theorem Formed.header {q : RespParser} (h : q.Formed) {t : RespType} {below : List RespType} {n : Nat} {buf : Bytes}
    (hs : q.status = .header) (hst : q.stack = t :: below) (hn : n ≤ u64Max) :
    { q with buf, bufCur := 0, tmpStart := 0
             stack := t.setLength n :: below, status := (t.setLength n).headed n }.Formed := by
  have he := h.expecting
  unfold Expecting at he
  rw [hs] at he
  obtain ⟨u, below', hst', hu⟩ := he
  obtain ⟨rfl, rfl⟩ := List.cons.inj (hst.symm.trans hst')
  have hbelow : ∀ v ∈ below, v.Pending := fun v hv => h.pending v (by rw [hst]; exact List.mem_cons_of_mem _ hv)
  obtain rfl | rfl | rfl := hu
  · refine ⟨h.completed, ?_, trivial⟩
    intro v hv
    cases hv with
    | head => exact trivial
    | tail _ hv => exact hbelow v hv
  · refine ⟨h.completed, ?_, ⟨below, rfl⟩, rfl, hn⟩
    intro v hv
    cases hv with
    | head => simp [RespType.Pending, RespType.setLength, RespType.isCompleted]
    | tail _ hv => exact hbelow v hv
  · refine ⟨h.completed, ?_, below, rfl⟩
    intro v hv
    cases hv with
    | head => simp [RespType.Pending, RespType.setLength, RespType.isCompleted]
    | tail _ hv => exact hbelow v hv

theorem Formed.setTop {q : RespParser} (h : q.Formed) {t u : RespType} {below : List RespType} {buf : Bytes}
    (hst : q.stack = t :: below) (hu : u.Parsed) :
    { q with buf, bufCur := 0, tmpStart := 0, stack := u :: below, status := .type }.Formed := by
  refine ⟨h.completed, ?_, trivial⟩
  intro v hv
  cases hv with
  | head =>
    cases u with
    | array n value =>
      cases value with
      | none => trivial
      | some v =>
        rw [RespType.Parsed] at hu
        exact ⟨hu.1, hu.2.2⟩
    | _ => exact fun _ => hu
  | tail _ hv =>
    apply h.pending
    rw [hst]
    exact List.mem_cons_of_mem _ hv

theorem length_body {cur n : Nat} (h : wrappingSub cur 0 = wrappingAdd n 2) (hn : n ≤ u64Max) :
    wrappingSub cur 2 = n := by
  unfold wrappingSub wrappingAdd u64Max at *
  omega

theorem Formed.turned {q : RespParser} {isRdb : Bool} {r : Turn} (h : q.Formed) (ht : Turned isRdb q r) :
    OutcomeFormed r := by
  have he := h.expecting
  unfold Expecting at he
  cases ht with
  | idle => exact h
  | opens _ hd _ hb hcur => exact h.opens hd hb hcur
  | skips hs =>
    refine ⟨h.completed, h.pending, ?_⟩
    unfold Expecting
    simp only [hs]
  | waits hs hscan =>
    refine ⟨h.completed, h.pending, ?_⟩
    unfold Expecting
    obtain hs | hs := hs
    · rw [hs] at he
      simp only [hs]
      exact he
    · rw [hs] at he
      simp only [hs]
      exact ⟨he.1, hscan he.2⟩
  | fails hst hc hs =>
    refine ⟨hc ▸ h.completed, hst ▸ h.pending, ?_⟩
    unfold Expecting
    simp only [hs]
  | header hs hst _ _ hn => exact h.header hs hst (parseUint_le hn)
  | line hs hst hset hno =>
    rw [hs] at he
    obtain ⟨⟨t, below, hst', hkind⟩, hscan⟩ := he
    obtain ⟨rfl, rfl⟩ := List.cons.inj (hst.symm.trans hst')
    obtain rfl | rfl := hkind
    · cases hset
      exact h.setTop hst (hno hscan)
    · cases hset
  | bulk hs hst hset hw hv =>
    rw [hs] at he
    obtain ⟨⟨below, hst'⟩, hzero, hn⟩ := he
    obtain ⟨rfl, rfl⟩ := List.cons.inj (hst.symm.trans hst')
    cases hset
    refine h.setTop hst ?_
    rw [hzero] at hw hv
    have hlen := (length_of_slice hv).1
    rw [length_body hw hn, length_utf8] at hlen
    exact hlen.symm
  | rdb hs hst hset =>
    rw [hs] at he
    obtain ⟨below, hst'⟩ := he
    obtain ⟨rfl, rfl⟩ := List.cons.inj (hst.symm.trans hst')
    cases hset
    exact h.setTop hst trivial
  | more hs =>
    refine ⟨h.completed, h.pending, ?_⟩
    unfold Expecting
    obtain ⟨n, hs | hs⟩ := hs
    · rw [hs] at he
      simp only [hs]
      exact he
    · rw [hs] at he
      simp only [hs]
      exact he
  | dropped => exact ⟨h.completed, h.pending, trivial⟩
  | unstacked => exact ⟨h.completed, h.pending, trivial⟩
  | none => exact ⟨h.completed, h.pending, trivial⟩
  | crash => trivial

theorem Formed.parse {isRdb : Bool} (fuel : Nat) :
    ∀ {p q : RespParser} {r : Except ParseError Unit}, p.Formed → p.parse isRdb fuel = some (q, r) → q.Formed := by
  induction fuel with
  | zero => exact fun _ h => by cases h
  | succ fuel ih =>
    intro p q r hp h
    have hout := hp.popCompleted.turned (turn_cases p isRdb)
    rw [RespParser.parse] at h
    cases ht : p.turn isRdb with
    | again s =>
      rw [ht] at h hout
      exact ih hout h
    | ret s e =>
      rw [ht] at h hout
      cases h
      exact hout
    | crash =>
      rw [ht] at h
      cases h

/-! ## Calls in any order -/

inductive Call where
  | feed (data : Bytes)
  | parse (isRdb : Bool) (fuel : Nat)
  | take

def call (p : RespParser) : Call → Option RespParser
  | .feed data => some (p.feedBuf data)
  | .parse isRdb fuel => (p.parse isRdb fuel).map Prod.fst
  | .take => p.getCompleted.map Prod.snd

theorem formed_new : new.Formed := ⟨by simp [new], by simp [new], trivial⟩

theorem Formed.call {p q : RespParser} {c : Call} (h : p.Formed) (hc : p.call c = some q) : q.Formed := by
  cases c with
  | feed data =>
    cases hc
    exact h.feedBuf data
  | parse isRdb fuel =>
    obtain ⟨⟨q, r⟩, hp, rfl⟩ := Option.map_eq_some_iff.mp hc
    exact h.parse fuel hp
  | take =>
    obtain ⟨⟨t, q⟩, hg, rfl⟩ := Option.map_eq_some_iff.mp hc
    exact h.getCompleted hg

/-- Every value that is ever ready to be taken is in form, is serialized, and
makes no `unwrap` of `from_resp` fail. -/
theorem run_parsed (calls : List Call) (p : RespParser) (h : Run (fun p c q => p.call c = some q) new calls p) :
    ∀ t ∈ p.completed, t.Parsed ∧ (∃ b, t.serialize = some b) ∧ ∀ P, Cmd.fromResp P t ≠ .error .unwrap := by
  have hp : p.Formed := h.inv (fun _ _ _ _ hp hc => hp.call hc) formed_new
  intro t ht
  have hparsed := hp.completed t ht
  exact ⟨hparsed, hparsed.serialize, fun P => hparsed.fromResp P⟩

/-- Skipped bytes, an array in three chunks, and the flag turned in between. -/
def pieces : List Call :=
  [.feed (utf8 "zz*2\r\n$1\r\n"), .parse false 9, .feed (utf8 "a\r\n"), .parse true 9, .feed (utf8 "+b\r\n"),
    .parse true 9]

theorem run_parsed_pieces :
    ∃ p : RespParser, p.completed.length = 1 ∧
      ∀ t ∈ p.completed, t.Parsed ∧ (∃ b, t.serialize = some b) ∧ ∀ P, Cmd.fromResp P t ≠ .error .unwrap := by
  have hrun : (pieces.foldlM call new).map (fun p => p.completed.length) = some 1 := by decide +kernel
  obtain ⟨p, hp, hlen⟩ := Option.map_eq_some_iff.mp hrun
  exact ⟨p, hlen, run_parsed pieces p (.of_foldlM hp)⟩

end RespParser

end Redis
