import Redis.ChunkSound
import Redis.Replay

/-!
# Recovery from the log file

`aof_replay` reads the file in pieces of `BUFFER_SIZE` bytes. A crash leaves a
byte prefix of the log, and the next run appends to it. The records that were
completely written are executed if the prefix ends between two records; a torn
record does no harm as long as nothing follows it, but what is appended after it
is read as the rest of it.
-/

namespace Redis

open Lib

/-- What `read` returns, call after call, until there is nothing left. -/
def pieces (size : Nat) : Nat → Bytes → List Bytes
  | 0, _ => []
  | fuel + 1, file => if file = [] then [] else file.take size :: pieces size fuel (file.drop size)

def filePieces (file : Bytes) : List Bytes := pieces bufferSize file.length file

theorem flatten_pieces {size : Nat} (hsize : 0 < size) :
    ∀ (fuel : Nat) (file : Bytes), file.length ≤ fuel → (pieces size fuel file).flatten = file := by
  intro fuel
  induction fuel with
  | zero =>
    intro file h
    rw [List.eq_nil_of_length_eq_zero (Nat.le_zero.mp h)]
    rfl
  | succ fuel ih =>
    intro file h
    rw [pieces]
    split
    · next hnil => rw [hnil, List.flatten_nil]
    · next hne =>
      have hpos := List.length_pos_of_ne_nil hne
      rw [List.flatten_cons, ih _ (by rw [List.length_drop]; omega), List.take_append_drop]

theorem pieces_ne_nil {size : Nat} (hsize : 0 < size) :
    ∀ (fuel : Nat) (file : Bytes), ∀ c ∈ pieces size fuel file, c ≠ [] := by
  intro fuel
  induction fuel with
  | zero => exact fun _ _ h => by cases h
  | succ fuel ih =>
    intro file c hc
    rw [pieces] at hc
    split at hc
    · cases hc
    · next hne =>
      cases hc with
      | head =>
        rw [Ne, List.take_eq_nil_iff]
        rintro (h | h)
        · omega
        · exact hne h
      | tail _ hc => exact ih _ c hc

theorem flatten_filePieces (file : Bytes) : (filePieces file).flatten = file :=
  flatten_pieces (by decide) _ _ (Nat.le_refl _)

theorem filePieces_ne_nil (file : Bytes) : ∀ c ∈ filePieces file, c ≠ [] := pieces_ne_nil (by decide) _ _

namespace RespParser

/-! ## The replay loop -/

section
variable {σ : Type}

/-- The inner loop of `aof_replay`. What `parse` returns is dropped, the loop
ends when there is no completed value. -/
def replayLoop (exec : σ → RespType → Option σ) : Nat → RespParser → σ → Option (RespParser × σ)
  | 0, _, _ => none
  | fuel + 1, p, s =>
    match p.parse false fuel with
    | none => none
    | some (p, _) =>
      match p.getCompleted with
      | none => some (p, s)
      | some (t, p) => (exec s t).bind fun s => replayLoop exec fuel p s

def replayPieces (exec : σ → RespType → Option σ) (fuel : Nat) : RespParser → σ → List Bytes → Option (RespParser × σ)
  | p, s, [] => some (p, s)
  | p, s, piece :: rest =>
    (replayLoop exec fuel (p.feedBuf piece) s).bind fun r => replayPieces exec fuel r.1 r.2 rest

/-- A read loop without an error executes what it hands over. -/
theorem replayLoop_of_readLoop (exec : σ → RespType → Option σ) {q : RespParser} :
    ∀ {fuel : Nat} {p : RespParser} {out : List RespType}, p.readLoop false fuel = some (q, out, .ok ()) →
      ∀ s, replayLoop exec fuel p s = (out.foldlM exec s).map fun s => (q, s) := by
  intro fuel
  induction fuel with
  | zero => exact fun h => by cases h
  | succ fuel ih =>
    intro p out h s
    rw [readLoop] at h
    rw [replayLoop]
    cases hp : p.parse false fuel with
    | none => rw [hp] at h; cases h
    | some x =>
      rw [hp] at h
      obtain ⟨p', e⟩ := x
      cases e with
      | error => cases h
      | ok =>
        simp only at h ⊢
        cases hc : p'.getCompleted with
        | none =>
          rw [hc] at h
          cases h
          rfl
        | some y =>
          obtain ⟨t, p''⟩ := y
          rw [hc] at h
          obtain ⟨⟨q', out', e⟩, hloop, heq⟩ := Option.map_eq_some_iff.mp h
          cases heq
          simp only [List.foldlM_cons]
          cases exec s t with
          | none => rfl
          | some s' => exact ih hloop s'

theorem Reads.replayLoop {p q : RespParser} {out : List RespType} (h : Reads p q out) :
    ∃ fuel₀, ∀ fuel, fuel₀ ≤ fuel → ∀ (exec : σ → RespType → Option σ) s,
      p.replayLoop exec fuel s = (out.foldlM exec s).map fun s => (q, s) := by
  obtain ⟨fuel₀, h₀⟩ := h
  exact ⟨fuel₀, fun fuel hle exec s => replayLoop_of_readLoop exec (h₀ fuel hle) s⟩

theorem ReadsAll.replayPieces {p q : RespParser} {chunks : List Bytes} {out : List RespType}
    (h : ReadsAll p chunks q out) :
    ∃ fuel₀, ∀ fuel, fuel₀ ≤ fuel → ∀ (exec : σ → RespType → Option σ) s,
      p.replayPieces exec fuel s chunks = (out.foldlM exec s).map fun s => (q, s) := by
  induction h with
  | nil => exact ⟨0, fun _ _ _ _ => by rw [RespParser.replayPieces]; rfl⟩
  | @cons p p' q chunk chunks out out' hr _ ih =>
    have hloop : ∃ fuel₀, ∀ fuel, fuel₀ ≤ fuel → ∀ (exec : σ → RespType → Option σ) s,
        (p.feedBuf chunk).replayLoop exec fuel s = (out.foldlM exec s).map fun s => (p', s) := hr.replayLoop
    obtain ⟨fuel₀, h₀⟩ := hloop
    obtain ⟨fuel₁, h₁⟩ := ih
    refine ⟨max fuel₀ fuel₁, fun fuel hle exec s => ?_⟩
    rw [RespParser.replayPieces, h₀ fuel (by omega), List.foldlM_append]
    cases hs : out.foldlM exec s with
    | none => rfl
    | some s' => exact h₁ fuel (by omega) exec s'

end

/-! ## A stream that stops -/

theorem Reads.unique {p q q' : RespParser} {out out' : List RespType} (h : Reads p q out) (h' : Reads p q' out') :
    out = out' := by
  obtain ⟨fuel₀, h₀⟩ := h
  obtain ⟨fuel₁, h₁⟩ := h'
  have heq := (h₀ (max fuel₀ fuel₁) (by omega)).symm.trans (h₁ (max fuel₀ fuel₁) (by omega))
  simp only [Option.some.injEq, Prod.mk.injEq, and_true] at heq
  exact heq.2

theorem Stream.unique {base : List RespType} {segs : List Seg} {vals vals' : List RespType} (h : Stream base segs vals)
    (h' : Stream base segs vals') : vals = vals' := by
  induction h generalizing vals' with
  | nil => cases h'; rfl
  | @cons g segs d vals _ hnext _ hs ih =>
    cases h' with
    | @cons _ _ d' vals' _ hnext' _ hs' =>
      have hd := (hnext _ _ _ hs.reads_start).unique (hnext' _ _ _ hs.reads_start)
      rw [List.append_nil, List.append_nil] at hd
      rw [hd, ih hs']

theorem Stream.tail {base : List RespType} {segs : List Seg} (pre : List Seg) {vals : List RespType}
    (h : Stream base (pre ++ segs) vals) : ∃ d vals', vals = d ++ vals' ∧ Stream base segs vals' := by
  induction pre generalizing vals with
  | nil => exact ⟨[], vals, rfl, h⟩
  | cons g pre ih =>
    cases h with
    | @cons _ _ d vals _ _ _ hs =>
      obtain ⟨d', vals', rfl, hs'⟩ := ih hs
      exact ⟨d ++ d', vals', by rw [List.append_assoc], hs'⟩

theorem Inside.length_le {g : Seg} {w : Bytes} {cur : Nat} {p : RespParser} (h : Inside g w cur p) :
    w.length ≤ g.text.length := by
  cases h with
  | start => exact Nat.zero_le _
  | header _ _ hl => exact hl.le
  | body hw hc =>
    rw [Seg.length_text_body]
    exact hw.trans hc

/-- Chunks that do not reach the end of the stream. -/
theorem reads_open (chunks : List Bytes) (hne : ∀ c ∈ chunks, c ≠ []) :
    ∀ {segs : List Seg} {vals : List RespType} {w rest : Bytes} {cur : Nat} {p : RespParser}, Stream [] segs vals →
      At [] segs w cur p → w ++ chunks.flatten ++ rest = textOf segs →
      ∃ segs' vals' w' cur' q out, ReadsAll p chunks q out ∧ Stream [] segs' vals' ∧ At [] segs' w' cur' q ∧
        out ++ vals' = vals ∧ w' ++ rest = textOf segs' ∧ segs' <:+ segs := by
  induction chunks with
  | nil =>
    intro segs vals w rest cur p hs hat htext
    rw [List.flatten_nil, List.append_nil] at htext
    exact ⟨segs, vals, w, cur, p, [], .nil, hs, hat, rfl, htext, List.suffix_refl _⟩
  | cons c chunks ih =>
    intro segs vals w rest cur p hs hat htext
    rw [List.flatten_cons, ← List.append_assoc, List.append_assoc (w ++ c)] at htext
    obtain ⟨segs₁, vals₁, w₁, cur₁, p₁, out₁, hs₁, hat₁, hr, rfl, hw₁, -, hsuffix₁⟩ :=
      reads_chunk hs hat (hne c (List.mem_cons_self ..)) htext
    rw [← List.append_assoc] at hw₁
    obtain ⟨segs₂, vals₂, w₂, cur₂, p₂, out₂, hall, hs₂, hat₂, rfl, hw₂, hsuffix₂⟩ :=
      ih (fun c hc => hne c (List.mem_cons_of_mem _ hc)) hs₁ hat₁ hw₁
    exact ⟨segs₂, vals₂, w₂, cur₂, p₂, out₁ ++ out₂, .cons hr hall, hs₂, hat₂, by rw [List.append_assoc], hw₂,
      hsuffix₂.trans hsuffix₁⟩

theorem textOf_append (segs segs' : List Seg) : textOf (segs ++ segs') = textOf segs ++ textOf segs' := by
  unfold textOf
  rw [List.flatMap_append]

/-- If the last command is cut off, the ones before it are handed over. -/
theorem reads_torn (cmds : List Command) (c : Command) (chunks : List Bytes) (hne : ∀ c ∈ chunks, c ≠ [])
    {torn rest : Bytes} (hc : torn ++ rest = textOf (segsOf c)) (ht : torn ≠ []) (hr : rest ≠ [])
    (htext : chunks.flatten = textOf (cmds.flatMap segsOf) ++ torn) :
    ∃ q, ReadsAll new chunks q (cmds.map Command.value) := by
  have hstream : Stream [] (cmds.flatMap segsOf ++ segsOf c) (cmds.map Command.value ++ [c.value]) := by
    have := stream_segsOf (cmds ++ [c])
    rwa [List.flatMap_append, List.map_append, List.flatMap_singleton, List.map_singleton] at this
  have hat : At [] (cmds.flatMap segsOf ++ segsOf c) [] 0 new := by
    have := at_segsOf (cmds ++ [c])
    rwa [List.flatMap_append, List.flatMap_singleton] at this
  have hsplit : [] ++ chunks.flatten ++ rest = textOf (cmds.flatMap segsOf ++ segsOf c) := by
    rw [List.nil_append, htext, textOf_append, ← hc, List.append_assoc]
  obtain ⟨segs', vals', w', cur', q, out, hall, hs', hat', hout, hw', hsuffix⟩ :=
    reads_open chunks hne hstream hat hsplit
  refine ⟨q, ?_⟩
  have hlen : torn.length + rest.length = (textOf (segsOf c)).length := by rw [← hc, List.length_append]
  have htpos := List.length_pos_of_ne_nil ht
  have hne' : segs' ≠ [] := by
    rintro rfl
    exact hr (List.append_eq_nil_iff.mp hw').2
  -- the parser is inside the last command
  have hlast : segs' <:+ segsOf c := by
    obtain h | h := List.suffix_or_suffix_of_suffix hsuffix (List.suffix_append _ (segsOf c))
    · exact h
    · obtain ⟨pre, rfl⟩ := h
      cases pre with
      | nil => exact List.suffix_refl _
      | cons g pre =>
        cases hat' with
        | inside hi =>
          have hle := hi.length_le
          have hw := congrArg List.length hw'
          rw [List.cons_append, textOf, List.flatMap_cons, ← textOf, textOf_append, List.length_append,
            List.length_append, List.length_append] at hw
          omega
  obtain ⟨pre, hpre⟩ := hlast
  have hone : Stream [] (pre ++ segs') [c.value] := by
    have := stream_segsOf [c]
    rwa [List.flatMap_singleton, ← hpre] at this
  obtain ⟨d, vals'', hd, hs''⟩ := hone.tail
  obtain rfl := hs'.unique hs''
  -- only the last value is missing
  have hvals : vals' = [c.value] := by
    cases d with
    | nil => exact hd.symm
    | cons t d =>
      obtain ⟨-, hnil⟩ := List.cons.inj hd
      exact absurd (List.append_eq_nil_iff.mp hnil.symm).2 (hs'.ne_nil hne')
  rw [hvals] at hout
  rwa [List.append_cancel_right hout] at hall

end RespParser

/-! ## The log -/

def logText (log : List Command) : Bytes := log.flatMap fun c => c.value.frame

theorem logText_cons (c : Command) (log : List Command) : logText (c :: log) = c.value.frame ++ logText log := rfl

/-- The records of the log that are complete in its first `n` bytes. -/
def wholeRecords : Nat → List Command → List Command
  | _, [] => []
  | n, c :: log => if c.value.frame.length ≤ n then c :: wholeRecords (n - c.value.frame.length) log else []

def Torn (n : Nat) (log : List Command) : Prop := (logText log).take n ≠ logText (wholeRecords n log)

theorem serializeAll_commands (cmds : List Command) :
    RespType.serializeAll (cmds.map Command.value) = some (logText cmds) := by
  have hone : ∀ c : Command, ∃ b, c.value.serialize = some b := by
    intro c
    have hb := RespParser.serializeAll_value [c]
    rw [List.map_singleton, RespType.serializeAll] at hb
    cases hc : c.value.serialize with
    | none => rw [hc] at hb; cases hb
    | some b => exact ⟨b, rfl⟩
  induction cmds with
  | nil => rfl
  | cons c cmds ih =>
    obtain ⟨b, hb⟩ := hone c
    have hframe : c.value.frame = b := by rw [RespType.frame, hb, Option.getD_some]
    rw [List.map_cons, RespType.serializeAll, ih, hb, logText_cons, hframe]
    rfl

theorem logText_eq (cmds : List Command) : logText cmds = RespParser.textOf (cmds.flatMap RespParser.segsOf) :=
  Option.some.inj ((serializeAll_commands cmds).symm.trans (RespParser.serializeAll_value cmds))

theorem frame_eq (c : Command) : c.value.frame = RespParser.textOf (RespParser.segsOf c) := by
  have := logText_eq [c]
  rwa [logText, List.flatMap_singleton, List.flatMap_singleton] at this

theorem logText_append (log log' : List Command) : logText (log ++ log') = logText log ++ logText log' := by
  unfold logText
  rw [List.flatMap_append]

/-- After the complete records comes a part of the next one. -/
theorem take_logText (log : List Command) (n : Nat) :
    ∃ torn, (logText log).take n = logText (wholeRecords n log) ++ torn ∧
      (torn = [] ∨ ∃ (c : Command) (rest : Bytes), torn ++ rest = c.value.frame ∧ rest ≠ []) := by
  induction log generalizing n with
  | nil => exact ⟨[], by rw [wholeRecords, logText, List.flatMap_nil, List.take_nil, List.append_nil], .inl rfl⟩
  | cons c log ih =>
    rw [logText_cons, wholeRecords, List.take_append]
    by_cases hle : c.value.frame.length ≤ n
    · obtain ⟨torn, htake, htorn⟩ := ih (n - c.value.frame.length)
      refine ⟨torn, ?_, htorn⟩
      rw [if_pos hle, List.take_of_length_le hle, htake, logText_cons, List.append_assoc]
    · refine ⟨c.value.frame.take n, ?_, .inr ⟨c, c.value.frame.drop n, List.take_append_drop _ _, ?_⟩⟩
      · have hzero : n - c.value.frame.length = 0 := by omega
        rw [if_neg hle, hzero, List.take_zero, List.append_nil]
        rfl
      · rw [Ne, List.drop_eq_nil_iff]
        exact hle

/-! ## Replay of a file -/

namespace CmdHandler

/-- One turn of the replay: `orders` are the iteration orders of the turns. -/
def replayNext (P : Platform) (orders : Nat → IterOrder) (s : CmdHandler × Nat) (t : RespType) :
    Option (CmdHandler × Nat) :=
  (replayFrame P 0 (-1) s.1 (orders s.2, t)).map fun h => (h, s.2 + 1)

def replayFile (P : Platform) (orders : Nat → IterOrder) (fuel : Nat) (h : CmdHandler) (file : Bytes) :
    Option CmdHandler :=
  (RespParser.new.replayPieces (replayNext P orders) fuel (h, 0) (filePieces file)).map fun r => r.2.1

def inOrder (orders : Nat → IterOrder) (start : Nat) (values : List RespType) : List (IterOrder × RespType) :=
  (values.zipIdx start).map fun x => (orders x.2, x.1)

theorem foldlM_replayNext (P : Platform) (orders : Nat → IterOrder) (values : List RespType) :
    ∀ (h : CmdHandler) (start : Nat), values.foldlM (replayNext P orders) (h, start) =
      (replay P 0 (-1) h (inOrder orders start values)).map fun g => (g, start + values.length) := by
  induction values with
  | nil => exact fun _ _ => rfl
  | cons t values ih =>
    intro h start
    rw [List.foldlM_cons, replay, inOrder, List.zipIdx_cons, List.map_cons, List.foldlM_cons, replayNext]
    cases replayFrame P 0 (-1) h (orders start, t) with
    | none => rfl
    | some g =>
      have hlen : start + (t :: values).length = start + 1 + values.length := by rw [List.length_cons]; omega
      rw [hlen]
      exact ih g (start + 1)

def Replays (file : Bytes) (values : List RespType) : Prop :=
  ∃ fuel₀, ∀ fuel, fuel₀ ≤ fuel → ∀ P orders h,
    replayFile P orders fuel h file = replay P 0 (-1) h (inOrder orders 0 values)

theorem replays_of_readsAll {q : RespParser} {file : Bytes} {values : List RespType}
    (h : RespParser.ReadsAll .new (filePieces file) q values) : Replays file values := by
  obtain ⟨fuel₀, h₀⟩ := h.replayPieces
  refine ⟨fuel₀, fun fuel hle P orders h => ?_⟩
  rw [replayFile, h₀ fuel hle, foldlM_replayNext, Option.map_map, Option.map_map]
  exact Option.map_id'

def recoveredFile (log next : List Command) (n : Nat) : Bytes := (logText log).take n ++ logText next

/-- What was completely written is executed if the crash tore no record, or if
nothing was appended after it; without a torn record it is also needed that the
body at the end is not lost at the cuts between the pieces. -/
theorem replayFile_recovers (log next : List Command) (n : Nat) (hnext : Torn n log → next = []) :
    ∃ values, Replays (recoveredFile log next n) values ∧
      (values = (wholeRecords n log ++ next).map Command.value ↔ Torn n log ∨
        ∀ c, (wholeRecords n log ++ next).getLast? = some c →
          cursorAfter (cutsIn c.bodyLength (filePieces (recoveredFile log next n))) < c.bodyLength) := by
  obtain ⟨torn, htake, htorn⟩ := take_logText log n
  by_cases hnil : torn = []
  · subst hnil
    rw [List.append_nil] at htake
    have hser : RespType.serializeAll ((wholeRecords n log ++ next).map Command.value) =
        some (filePieces (recoveredFile log next n)).flatten := by
      rw [serializeAll_commands, flatten_filePieces, recoveredFile, htake, logText_append]
    obtain ⟨q, values, hall, hiff⟩ := RespParser.readsAll_iff _ _ (filePieces_ne_nil _) hser
    refine ⟨values, replays_of_readsAll hall, hiff.trans ?_⟩
    have hwhole : ¬ Torn n log := fun h => h htake
    simp only [hwhole, false_or]
  · have ht : Torn n log := by
      intro h
      rw [h] at htake
      exact hnil (List.self_eq_append_right.mp htake)
    obtain rfl := hnext ht
    obtain ⟨c, rest, hc, hrest⟩ := htorn.resolve_left hnil
    rw [frame_eq] at hc
    have hfile : (filePieces (recoveredFile log [] n)).flatten =
        RespParser.textOf ((wholeRecords n log).flatMap RespParser.segsOf) ++ torn := by
      rw [flatten_filePieces, recoveredFile, htake, ← logText_eq]
      exact List.append_nil _
    obtain ⟨q, hall⟩ := RespParser.reads_torn (wholeRecords n log) c _ (filePieces_ne_nil _) hc hnil hrest hfile
    refine ⟨_, replays_of_readsAll hall, ?_⟩
    rw [List.append_nil]
    exact ⟨fun _ => .inl ht, fun _ => rfl⟩

def setFirst : Command where
  args := ["SET", "k", "v"]
  nonempty := by decide
  length_le := by decide
  size_le := by decide

def setSecond : Command where
  args := ["SET", "j", "w"]
  nonempty := by decide
  length_le := by decide
  size_le := by decide

theorem replayFile_recovers_both : ∃ values, Replays (recoveredFile [setFirst] [setSecond] 27) values ∧
    (values = [setFirst.value, setSecond.value] ↔ Torn 27 [setFirst] ∨
      ∀ c, [setFirst, setSecond].getLast? = some c →
        cursorAfter (cutsIn c.bodyLength (filePieces (recoveredFile [setFirst] [setSecond] 27))) < c.bodyLength) :=
  replayFile_recovers [setFirst] [setSecond] 27 fun h => absurd rfl h

/-- The record of the second run is read as the rest of the torn one. -/
theorem appended_record_lost : Replays (recoveredFile [setFirst] [setSecond] 10) [] ∧
    ¬ Replays (recoveredFile [setFirst] [setSecond] 10)
      ((wholeRecords 10 [setFirst] ++ [setSecond]).map Command.value) := by
  have hnone : Replays (recoveredFile [setFirst] [setSecond] 10) [] := by
    have hrun : ((RespParser.new.feedBuf (recoveredFile [setFirst] [setSecond] 10)).readLoop false 20).map
        (fun r => (r.2.1.length, decide (r.2.2.toOption = some ()))) = some (0, true) := by decide +kernel
    obtain ⟨q, hq⟩ := RespParser.readLoop_silent hrun
    have hall : RespParser.ReadsAll .new (filePieces (recoveredFile [setFirst] [setSecond] 10)) q [] :=
      .cons ⟨20, hq⟩ .nil
    exact replays_of_readsAll hall
  refine ⟨hnone, ?_⟩
  rintro ⟨fuel₁, h₁⟩
  obtain ⟨fuel₀, h₀⟩ := hnone
  have heq := (h₀ (max fuel₀ fuel₁) (by omega) .blank (fun _ => .asIs) (loggingAt 0)).symm.trans
    (h₁ (max fuel₀ fuel₁) (by omega) .blank (fun _ => .asIs) (loggingAt 0))
  -- the second run had set a key
  have hdata := congrArg (Option.map fun h => (AList.lookup "j" h.data).isSome) heq
  exact absurd hdata (by decide)

end CmdHandler

end Redis
