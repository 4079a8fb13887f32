import Redis.FormSound
import Redis.Lib.Frame
import Redis.Lib.Reader
import Redis.Lib.Text

/-!
# Decoding is total, but for two slices

A builder that only pops its arguments and takes all that is left cannot panic
(`Total`). GEODIST takes two members whether they are there or not, and a line is
cut after ten bytes.
-/

namespace Redis

open Lib

namespace Cmd

open Args

/-! ## Builders that are total -/

def Total {α : Type} (b : Args α) : Prop := ∀ values, b values ≠ none

section
variable {α β : Type}

theorem total_pure (a : α) : Total (pure a) := fun _ h => by cases h

theorem Total.bind {b : Args α} {f : α → Args β} (hb : Total b) (hf : ∀ a, Total (f a)) : Total (b >>= f) := by
  intro values
  rw [Reader.bind_apply]
  cases hv : b values with
  | none => exact absurd hv (hb values)
  | some r =>
    cases r with
    | error e => simp
    | ok x => exact hf x.1 x.2

theorem total_fail (e : CustomError) : Total (fail (α := α) e) := fun _ h => by cases h

theorem total_lift (r : Except CustomError α) : Total (lift r) := fun _ h => by cases h

theorem total_next : Total next := fun values h => by cases values <;> cases h

theorem total_drain : Total drain := fun _ h => by cases h

theorem total_remaining : Total remaining := fun _ h => by cases h

theorem total_ite {c : Prop} [Decidable c] {b b' : Args α} (hb : Total b) (hb' : Total b') :
    Total (if c then b else b') := by
  split
  · exact hb
  · exact hb'

theorem total_text (e : CustomError) (t : RespType) : Total (text e t) := total_lift _

theorem total_respArg (msg : String) : Total (respArg msg) :=
  total_next.bind fun o => by
    cases o with
    | none => exact total_fail _
    | some t => exact total_text _ t

theorem total_uint (max : Nat) (s : String) : Total (uint max s) := total_lift _

theorem total_int (s : String) : Total (int s) := total_lift _

theorem total_float (P : Platform) (s : String) : Total (float P s) := total_lift _

theorem total_mapM {f : α → Args β} (hf : ∀ a, Total (f a)) (l : List α) : Total (l.mapM f) := by
  induction l with
  | nil => exact total_pure []
  | cons a l ih =>
    rw [List.mapM_cons]
    exact (hf a).bind fun _ => ih.bind fun _ => total_pure _

theorem total_texts (e : CustomError) : Total (texts e) := total_drain.bind fun _ => total_mapM (total_text e) _

end

/-! ## The builders -/

section
variable {P : Platform}

theorem total_xreadOptions (fuel : Nat) : ∀ count block, Total (xreadOptions count block fuel) := by
  induction fuel with
  | zero => exact fun count block => total_fail _
  | succ fuel ih =>
    intro count block
    refine (total_respArg _).bind fun first => total_ite ?_ (total_ite ?_ (total_ite (total_pure _) (total_fail _)))
    · exact total_ite (total_fail _) ((total_respArg _).bind fun _ => (total_uint _ _).bind fun _ => ih _ _)
    · exact total_ite (total_fail _) ((total_respArg _).bind fun _ => (total_uint _ _).bind fun _ => ih _ _)

theorem total_parseStreamIdXadd (value : String) : Total (parseStreamIdXadd value) := by
  refine total_ite (total_pure _) ?_
  split
  · exact (total_uint _ _).bind fun _ => total_ite (total_pure _) ((total_uint _ _).bind fun _ => total_pure _)
  · exact total_fail _

theorem total_parseStreamId (value : String) (stop : Bool) : Total (parseStreamId value stop) := by
  unfold parseStreamId
  split
  · exact (total_uint _ _).bind fun _ => (total_uint _ _).bind fun _ => total_pure _
  · exact (total_uint _ _).bind fun _ => total_pure _
  · exact total_fail _

theorem total_parseStreamIdXrange (value : String) (stop : Bool) : Total (parseStreamIdXrange value stop) :=
  total_ite (total_pure _) (total_ite (total_pure _) (total_parseStreamId value stop))

theorem total_parseStreamIdXread (value : String) : Total (parseStreamIdXread value) :=
  total_ite (total_pure _) (total_parseStreamId value false)

theorem total_bitUnit (s : String) : Total (bitUnit s) :=
  total_ite (total_pure _) (total_ite (total_pure _) (total_fail _))

/-- The totality of a builder follows its syntax, with one rule for each combinator. -/
theorem builders_total : ∀ e ∈ builders P, e.1 ≠ "GEODIST" → Total e.2 := by
  intro e he hne
  simp only [builders, List.mem_cons, List.not_mem_nil, or_false] at he
  rcases he with rfl | rfl | rfl | rfl | rfl | rfl | rfl | rfl | rfl | rfl | rfl | rfl | rfl | rfl | rfl | rfl | rfl |
    rfl | rfl | rfl | rfl | rfl | rfl | rfl | rfl | rfl | rfl | rfl | rfl | rfl | rfl | rfl | rfl | rfl | rfl | rfl |
    rfl | rfl | rfl | rfl | rfl | rfl | rfl | rfl | rfl | rfl | rfl | rfl | rfl
  all_goals first
    | exact absurd rfl hne
    | simp only [buildEcho, buildSet, buildGet, buildRpush, buildLrange, buildLpush, buildLlen, buildLpop, buildBlpop,
        buildType, buildXadd, buildXrange, buildXread, buildIncr, buildWatch, buildInfo, buildReplconf, buildPsync,
        buildWait, buildConfig, buildKeys, buildSubscribe, buildUnsubscribe, buildPublish, buildZadd, buildZrank,
        buildZrange, buildZcard, buildZscore, buildZrem, buildGeoadd, buildGeopos, buildGeosearch, buildAcl, buildAuth,
        buildSetbit, buildGetbit, buildStrlen, buildBitcount, buildBitop]
  all_goals repeat' with_reducible first
    | exact total_pure _
    | exact total_fail _
    | exact total_lift _
    | exact total_drain
    | exact total_remaining
    | exact total_next
    | exact total_respArg _
    | exact total_text _ _
    | exact total_texts _
    | exact total_uint _ _
    | exact total_int _
    | exact total_float _ _
    | exact total_xreadOptions _ _ _
    | exact total_parseStreamIdXadd _
    | exact total_parseStreamIdXrange _ _
    | exact total_parseStreamIdXread _
    | exact total_bitUnit _
    | apply total_mapM
    | apply total_ite
    | apply Total.bind
    | intro _
    | split

theorem lookup_total {word : String} {b : Args Cmd} (hl : (builders P).lookup word = some b)
    (hword : word ≠ "GEODIST") :
    Total b := by
  obtain ⟨pre, post, hsplit, _⟩ := List.lookup_eq_some_iff.mp hl
  have hmem : (word, b) ∈ builders P := by
    rw [hsplit]
    exact List.mem_append_right _ (List.mem_cons_self ..)
  exact builders_total _ hmem hword

theorem respArg_cons (msg : String) (t : RespType) (rest : List RespType) :
    respArg msg (t :: rest) = match t.getStr with
      | none => some (.error (.missingArgument msg))
      | some s => some (.ok (s, rest)) := by
  rw [respArg, Reader.bind_apply]
  simp only [next, text, lift]
  cases t.getStr <;> rfl

theorem buildGeodist_eq_none {v : List RespType} :
    buildGeodist v = none ↔ ∃ t rest, v = t :: rest ∧ t.getStr ≠ none ∧ rest.length < 2 := by
  cases v with
  | nil => exact iff_of_false (fun h => by cases h) (by simp)
  | cons t rest =>
    rw [buildGeodist, Reader.bind_apply, respArg_cons]
    cases hkey : t.getStr with
    | none => simp [hkey]
    | some key =>
      simp only [Reader.bind_apply, drainTo]
      by_cases hlen : 2 ≤ rest.length
      · rw [if_pos hlen]
        refine iff_of_false (fun h => by cases h) ?_
        rintro ⟨t', rest', heq, _, hlt⟩
        cases heq
        omega
      · rw [if_neg hlen]
        exact iff_of_true rfl ⟨t, rest, rfl, by simp [hkey], by omega⟩

/-! ## Slices of a line -/

theorem strTo_ok_iff {n : Nat} {s : String} : (∃ p, strTo n s = .ok p) ↔ ∃ a b, s = a ++ b ∧ a.utf8ByteSize = n := by
  unfold strTo
  constructor
  · rintro ⟨p, hp⟩
    split at hp
    · cases hp
    · rename_i hlen
      cases hs : fromUtf8 ((utf8 s).take n) with
      | none =>
        rw [hs] at hp
        cases hp
      | some a =>
        have ha := utf8_of_fromUtf8 hs
        have happend : utf8 a ++ (utf8 s).drop n = utf8 s := by rw [ha, List.take_append_drop]
        obtain ⟨b, hb⟩ := exists_append_of_utf8 happend
        refine ⟨a, b, hb, ?_⟩
        rw [← length_utf8, ha, List.length_take, length_utf8]
        omega
  · rintro ⟨a, b, rfl, hsize⟩
    have htake : (utf8 (a ++ b)).take n = utf8 a := by
      rw [utf8_append, List.take_append_of_le_length (by rw [length_utf8]; omega),
        List.take_of_length_le (by rw [length_utf8]; omega)]
    rw [if_neg (by rw [String.utf8ByteSize_append]; omega), htake, fromUtf8_utf8]
    exact ⟨a, rfl⟩

/-- A line, other than the two that are known, without a character that ends at the tenth byte. -/
def CutsLine : RespType → Prop
  | .simpleStr (some s) => s ≠ "PONG" ∧ s ≠ "OK" ∧ ¬ ∃ a b, s = a ++ b ∧ a.utf8ByteSize = 10
  | _ => False

def ShortGeodist : RespType → Prop
  | .array _ (some (.bulkStr _ (some s) :: key :: members)) =>
    asciiUpper s = "GEODIST" ∧ key.getStr ≠ none ∧ members.length < 2
  | _ => False

theorem fromResp_line {s : String} :
    (∃ r, fromResp P (.simpleStr (some s)) = .ok r) ↔ ¬ CutsLine (.simpleStr (some s)) := by
  rw [fromResp, CutsLine]
  by_cases hpong : s = "PONG"
  · simp [hpong]
  · by_cases hok : s = "OK"
    · simp [hok]
    · rw [if_neg hpong, if_neg hok, ← strTo_ok_iff]
      cases hs : strTo 10 s with
      | error e => simp [Except.map, hpong, hok]
      | ok p => simp [Except.map]

theorem fromResp_words {n m : Nat} {s : String} {v : List RespType} (hn : n ≠ 0) (hm : m ≠ 0) :
    (∃ r, fromResp P (.array n (some (.bulkStr m (some s) :: v))) = .ok r) ↔
      ¬ ShortGeodist (.array n (some (.bulkStr m (some s) :: v))) := by
  have hrun : ∀ b : Args Cmd, (∃ r, runBuilder b v = .ok r) ↔ b v ≠ none := by
    intro b
    unfold runBuilder
    cases b v <;> simp
  rw [fromResp, if_neg hn]
  simp only [if_neg hm]
  by_cases hword : asciiUpper s = "GEODIST"
  · have hl : (builders P).lookup (asciiUpper s) = some buildGeodist := by
      rw [hword]
      rfl
    rw [hl]
    simp only [hrun, Ne, buildGeodist_eq_none, not_iff_not]
    constructor
    · rintro ⟨t, rest, rfl, hkey, hlen⟩
      exact ⟨hword, hkey, hlen⟩
    · intro hshort
      cases v with
      | nil => cases hshort
      | cons t rest => exact ⟨t, rest, rfl, hshort.2.1, hshort.2.2⟩
  · have hnot : ¬ ShortGeodist (.array n (some (.bulkStr m (some s) :: v))) := by
      cases v with
      | nil => exact id
      | cons t rest => exact fun hshort => hword hshort.1
    refine iff_of_true ?_ hnot
    cases hl : (builders P).lookup (asciiUpper s) with
    | none => exact ⟨_, rfl⟩
    | some b => exact (hrun b).mpr (lookup_total hl hword v)

end

end Cmd

/-- `from_resp` of a value in form panics on the two slices only. -/
theorem RespType.Parsed.decodes_iff (P : Platform) {t : RespType} (h : t.Parsed) :
    (∃ r, Cmd.fromResp P t = .ok r) ↔ ¬ Cmd.CutsLine t ∧ ¬ Cmd.ShortGeodist t := by
  cases t with
  | simpleStr o =>
    cases o with
    | none => simp [Parsed] at h
    | some s => exact Cmd.fromResp_line.trans (and_iff_left id).symm
  | array n value =>
    cases value with
    | none => simp [Parsed] at h
    | some v =>
      rw [Parsed] at h
      obtain ⟨t, v, rfl⟩ := List.exists_cons_of_ne_nil h.1
      have hn : n ≠ 0 := by
        rw [h.2.1]
        simp
      have ht := h.2.2.1
      cases t with
      | bulkStr m value =>
        cases value with
        | none => simp [Parsed] at ht
        | some s =>
          rw [Parsed] at ht
          by_cases hm : m = 0
          · have hempty : s = "" := String.utf8ByteSize_eq_zero_iff.mp (ht.symm.trans hm)
            have hshort : ¬ Cmd.ShortGeodist (.array n (some (.bulkStr m (some s) :: v))) := by
              rw [hempty]
              cases v with
              | nil => exact id
              | cons t rest => exact fun hshort => absurd hshort.1 (by decide)
            refine iff_of_true ?_ ⟨id, hshort⟩
            rw [Cmd.fromResp, if_neg hn]
            simp [hm]
          · exact (Cmd.fromResp_words hn hm).trans (and_iff_right id).symm
      | _ => exact iff_of_true (by simp [Cmd.fromResp, hn]) ⟨id, id⟩
  | rdb o => exact iff_of_true ⟨_, rfl⟩ ⟨id, id⟩
  | _ => exact iff_of_true ⟨_, rfl⟩ ⟨id, id⟩

/-- A value that the parser completes is decoded if and only if it is neither a
line without a tenth byte that ends a character nor a GEODIST without members. -/
theorem run_decodes_iff (P : Platform) {calls : List RespParser.Call} {p : RespParser}
    (h : Run (fun p c q => p.call c = some q) .new calls p) {t : RespType} (ht : t ∈ p.completed) :
    (∃ r, Cmd.fromResp P t = .ok r) ↔ ¬ Cmd.CutsLine t ∧ ¬ Cmd.ShortGeodist t := by
  have hp : p.Formed := h.inv (fun _ _ _ _ hp hc => hp.call hc) RespParser.formed_new
  exact (hp.completed t ht).decodes_iff P

theorem run_decodes_line : ∃ p : RespParser, ∃ t ∈ p.completed,
    ((∃ r, Cmd.fromResp .blank t = .ok r) ↔ ¬ Cmd.CutsLine t ∧ ¬ Cmd.ShortGeodist t) := by
  have hrun : ([.feed (utf8 "+FULLRESYNC a 0\r\n"), .parse false 9].foldlM RespParser.call .new).map
      (fun p => p.completed.length) = some 1 := by decide +kernel
  obtain ⟨p, hp, hlen⟩ := Option.map_eq_some_iff.mp hrun
  obtain ⟨t, ht⟩ := List.exists_mem_of_length_pos (by rw [hlen]; exact Nat.one_pos : 0 < p.completed.length)
  exact ⟨p, t, ht, run_decodes_iff .blank (.of_foldlM hp) ht⟩

/-- A short line, and GEODIST with a key only. -/
theorem short_panics :
    (([.feed (utf8 "+hello\r\n"), .parse false 9].foldlM RespParser.call .new).map fun p =>
        p.completed.map fun t => (Cmd.fromResp .blank t).toOption.isNone) = some [true] ∧
      (([.feed (utf8 "*2\r\n$7\r\nGEODIST\r\n$1\r\nk\r\n"), .parse false 9].foldlM RespParser.call .new).map fun p =>
        p.completed.map fun t => (Cmd.fromResp .blank t).toOption.isNone) = some [true] := by
  constructor <;> decide +kernel

end Redis
