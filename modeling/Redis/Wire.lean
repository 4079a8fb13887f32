import Redis.CmdHandler
import Redis.ParserSound

/-!
# Values on a wire

A connection takes one value after the other off the bytes that have come. What
is taken off does not depend on how many turns the parser may make.
-/

namespace Redis

open Lib RespParser

def Yields (isRdb : Bool) (pending : Bytes) (t : RespType) (rest : Bytes) : Prop :=
  ∃ fuel, (new.feedBuf pending).takeCompleted isRdb fuel 1 = some ({ new with buf := rest }, [t])

section
variable {isRdb : Bool} {pending rest rest' message : Bytes} {t u : RespType}

theorem takeCompleted_one_mono {p : RespParser} {r : RespParser × List RespType} {fuel fuel' : Nat} (hle : fuel ≤ fuel')
    (h : p.takeCompleted isRdb fuel 1 = some r) : p.takeCompleted isRdb fuel' 1 = some r := by
  unfold takeCompleted at h ⊢
  cases hp : p.parse isRdb fuel with
  | none =>
    rw [hp] at h
    cases h
  | some x =>
    rw [hp] at h
    rw [parse_mono hle hp]
    exact h

theorem Yields.unique (h : Yields isRdb pending t rest) (h' : Yields isRdb pending u rest') : t = u ∧ rest = rest' := by
  obtain ⟨fuel, hf⟩ := h
  obtain ⟨fuel', hf'⟩ := h'
  have hleft := takeCompleted_one_mono (Nat.le_max_left fuel fuel') hf
  have hright := takeCompleted_one_mono (Nat.le_max_right fuel fuel') hf'
  rw [hleft] at hright
  simp only [Option.some.injEq, Prod.mk.injEq, List.cons.injEq, and_true, RespParser.mk.injEq] at hright
  exact ⟨hright.2, hright.1⟩

theorem not_yields_nil : ¬ Yields isRdb [] t rest := by
  intro h
  obtain ⟨fuel, hf⟩ := h
  unfold takeCompleted at hf
  cases fuel with
  | zero => simp [parse] at hf
  | succ fuel =>
    have hturn : (new.feedBuf []).parse isRdb (fuel + 1) = some (new.feedBuf [], .ok ()) := rfl
    rw [hturn] at hf
    simp [getCompleted, feedBuf, new] at hf

theorem RespType.WellFormed.serialize (ht : t.WellFormed) : t.serialize = some t.frame := by
  obtain ⟨b, hb, _⟩ := leads_value t [] [] ht trivial
  rw [RespType.frame, hb]
  rfl

theorem RespType.WellFormed.yields (ht : t.WellFormed) (hm : t.serialize = some message) :
    Yields false (message ++ rest) t rest := by
  have hall : RespType.AllWellFormed [t] := by
    rw [RespType.AllWellFormed, RespType.AllWellFormed]
    exact ⟨ht, trivial⟩
  obtain ⟨b, hb, fuel, hf⟩ := takeCompleted_values [t] hall rest
  have hsame : b = message := by
    rw [RespType.serializeAll, RespType.serializeAll, hm] at hb
    simpa using hb.symm
  refine ⟨fuel, ?_⟩
  have hread := hf fuel le_rfl
  rw [hsame] at hread
  exact hread

theorem RespType.WellFormed.yieldsAlone (ht : t.WellFormed) (hm : t.serialize = some message) :
    Yields false message t [] := by
  have hread : Yields false (message ++ []) t [] := ht.yields hm
  rwa [List.append_nil] at hread

theorem yields_rdb {v : Bytes} (hv : v ≠ []) (hmax : v.length ≤ isizeMax) :
    Yields true ((RespType.rdb (some v)).frame ++ rest) (.rdb (some v)) rest := by
  obtain ⟨b, hb, fuel, hf⟩ := takeCompleted_rdb v rest hv hmax
  refine ⟨fuel, ?_⟩
  have hframe : (RespType.rdb (some v)).frame = b := by
    rw [RespType.frame, hb]
    rfl
  rw [hframe]
  exact hf fuel le_rfl

theorem wellFormed_bulks {words : List String} (hne : words ≠ []) (hlength : words.length ≤ isizeMax)
    (hsize : ∀ s ∈ words, s.utf8ByteSize ≤ isizeMax) : (RespType.arrayOf (words.map .bulk)).WellFormed := by
  unfold RespType.arrayOf
  rw [if_neg (by simpa using hne), RespType.WellFormed, List.length_map]
  exact ⟨rfl, hlength, by simpa using hne, allWellFormed_bulk words hsize⟩

end

end Redis
