import Redis.AofFiles

/-!
# What a startup leaves for the next one

A startup opens the log file if the directory is new or its manifest is
complete, and the next startup finds that file again if its name has no blank
and no newline (`init_roundTrip_iff`).
-/

namespace Redis

open Lib

namespace Aof

/-! ## Fields of names -/

theorem fields_aofFilename (name : String) (id : Nat) :
    splitOnChar '.' (aofFilename name id) = splitOnChar '.' name ++ [toString id, "incr", "aof"] := by
  have heq : aofFilename name id =
      name ++ String.singleton '.' ++
          (toString id ++ String.singleton '.' ++ ("incr" ++ String.singleton '.' ++ "aof")) := by
    unfold aofFilename
    simp only [String.append_assoc]
    rfl
  rw [heq, splitOnChar_append, splitOnChar_append, splitOnChar_append,
    splitOnChar_of_not_mem (not_mem_toString (by decide) id), splitOnChar_of_not_mem (s := "incr") (by decide),
    splitOnChar_of_not_mem (s := "aof") (by decide)]
  rfl

theorem fields_manifestFilename (name : String) :
    splitOnChar '.' (manifestFilename name) = splitOnChar '.' name ++ ["manifest"] := by
  have heq : manifestFilename name = name ++ String.singleton '.' ++ "manifest" := by
    unfold manifestFilename
    rw [String.append_assoc]
    rfl
  rw [heq, splitOnChar_append, splitOnChar_of_not_mem (s := "manifest") (by decide)]

theorem manifestFilename_inj {name name' : String} (h : manifestFilename name = manifestFilename name') :
    name = name' := by
  have h := congrArg String.toList h
  unfold manifestFilename at h
  rw [String.toList_append, String.toList_append] at h
  exact String.toList_inj.mp (List.append_cancel_right h)

theorem manifestFilename_ne_aofFilename (name name' : String) (id : Nat) :
    manifestFilename name ≠ aofFilename name' id := by
  intro h
  have h := congrArg (fun s => (splitOnChar '.' s).getLast?) h
  simp only [fields_aofFilename, fields_manifestFilename] at h
  simp at h

/-! ## The latest id -/

theorem getLatestAofId_eq_some {dir : AofDir} {latest : Option Nat} :
    getLatestAofId dir = some latest ↔
      (∀ name ∈ dir, (thirdField name).isSome) ∧
      match latest with
      | none => ∀ name ∈ dir, idOf name = none
      | some m => (∃ name ∈ dir, idOf name = some m) ∧ ∀ name ∈ dir, ∀ k, idOf name = some k → k ≤ m := by
  unfold getLatestAofId
  split
  · next h =>
    rw [Option.some.injEq]
    constructor
    · rintro rfl
      refine ⟨h, ?_⟩
      cases hmax : (dir.keys.filterMap idOf).max? with
      | none =>
        rw [List.max?_eq_none_iff, List.filterMap_eq_nil_iff] at hmax
        exact hmax
      | some m =>
        rw [List.max?_eq_some_iff] at hmax
        simp only [List.mem_filterMap] at hmax
        exact ⟨hmax.1, fun name hn k hk => hmax.2 k ⟨name, hn, hk⟩⟩
    · rintro ⟨-, hlatest⟩
      cases latest with
      | none =>
        rw [List.max?_eq_none_iff, List.filterMap_eq_nil_iff]
        exact hlatest
      | some m =>
        rw [List.max?_eq_some_iff]
        simp only [List.mem_filterMap]
        refine ⟨hlatest.1, ?_⟩
        rintro k ⟨name, hn, hk⟩
        exact hlatest.2 name hn k hk
  · next h =>
    constructor
    · intro h'
      cases h'
    · rintro ⟨hall, -⟩
      exact absurd hall h

/-- Beside the names in the directory, the names of one more run: the id of the
file it opens is the latest again. -/
def IdKept (appendfilename : String) (latest : Option Nat) : Prop :=
  match splitOnChar '.' appendfilename with
  | _ :: _ :: third :: _ =>
    match parseUint u64Max third with
    | .ok k => latest.elim (k = 1) (k ≤ ·)
    | .error _ => latest.isSome
  | [_, _] => True
  | _ => False

theorem idOf_le {name : String} {k : Nat} (h : idOf name = some k) : k ≤ u64Max := by
  unfold idOf at h
  obtain ⟨s, -, hs⟩ := Option.bind_eq_some_iff.mp h
  cases hp : parseUint u64Max s with
  | error e => rw [hp] at hs; cases hs
  | ok n =>
    rw [hp] at hs
    cases hs
    exact parseUint_le hp

theorem latest_le {dir : AofDir} {latest : Option Nat} (h : getLatestAofId dir = some latest) :
    latest.getD 1 ≤ u64Max := by
  cases latest with
  | none => decide
  | some m =>
    obtain ⟨name, -, hm⟩ := (getLatestAofId_eq_some.mp h).2.1
    exact idOf_le hm

/-- Two names come into a directory. Its latest id stays if neither is above it,
and if it was the id of a name or is the id of one now. -/
theorem getLatestAofId_add {a m : String} {dir dir' : AofDir} {latest : Option Nat}
    (h : getLatestAofId dir = some latest)
    (hmem : ∀ name, name ∈ dir' ↔ name = a ∨ name = m ∨ name ∈ dir) (ha : (thirdField a).isSome)
    (hm : (thirdField m).isSome) :
    getLatestAofId dir' = some (some (latest.getD 1)) ↔
      (idOf a = some (latest.getD 1) ∨ idOf m = some (latest.getD 1) ∨ latest.isSome) ∧
        (∀ k, idOf a = some k → k ≤ latest.getD 1) ∧ ∀ k, idOf m = some k → k ≤ latest.getD 1 := by
  obtain ⟨hthird, hlatest⟩ := getLatestAofId_eq_some.mp h
  have hall : ∀ name ∈ dir', (thirdField name).isSome := by
    intro name hn
    rcases (hmem name).mp hn with rfl | rfl | hn
    · exact ha
    · exact hm
    · exact hthird name hn
  have hold : ∀ name ∈ dir, ∀ k, idOf name = some k → k ≤ latest.getD 1 := by
    intro name hn k hk
    cases latest with
    | none =>
      rw [hlatest name hn] at hk
      cases hk
    | some n => exact hlatest.2 name hn k hk
  have hhas : (∃ name ∈ dir, idOf name = some (latest.getD 1)) ↔ latest.isSome := by
    cases latest with
    | none =>
      refine iff_of_false ?_ (by simp)
      rintro ⟨name, hn, hk⟩
      rw [hlatest name hn] at hk
      cases hk
    | some n => exact iff_of_true hlatest.1 rfl
  have hex : (∃ name ∈ dir', idOf name = some (latest.getD 1)) ↔
      idOf a = some (latest.getD 1) ∨ idOf m = some (latest.getD 1) ∨ latest.isSome := by
    rw [← hhas]
    simp only [hmem, or_and_right, exists_or, exists_eq_left]
  have hle : (∀ name ∈ dir', ∀ k, idOf name = some k → k ≤ latest.getD 1) ↔
      (∀ k, idOf a = some k → k ≤ latest.getD 1) ∧ ∀ k, idOf m = some k → k ≤ latest.getD 1 := by
    constructor
    · exact fun hle => ⟨hle a (by simp [hmem]), hle m (by simp [hmem])⟩
    · rintro ⟨hka, hkm⟩ name hn
      rcases (hmem name).mp hn with rfl | rfl | hn
      · exact hka
      · exact hkm
      · exact hold name hn
  rw [getLatestAofId_eq_some, and_iff_right hall]
  exact and_congr hex hle

theorem getLatestAofId_again {appendfilename : String} {dir dir' : AofDir} {latest : Option Nat}
    (h : getLatestAofId dir = some latest)
    (hmem : ∀ name, name ∈ dir' ↔
      name = aofFilename appendfilename (latest.getD 1) ∨ name = manifestFilename appendfilename ∨ name ∈ dir) :
    getLatestAofId dir' = some (some (latest.getD 1)) ↔ IdKept appendfilename latest := by
  have hid := latest_le h
  have haofFields := fields_aofFilename appendfilename (latest.getD 1)
  have hmanFields := fields_manifestFilename appendfilename
  unfold IdKept
  cases hfields : splitOnChar '.' appendfilename with
  | nil => exact absurd hfields (splitOnChar_ne_nil _ _)
  | cons a fields =>
    rw [hfields] at haofFields hmanFields
    cases fields with
    | nil =>
      -- the manifest has two fields
      have hnone : thirdField (manifestFilename appendfilename) = none := by rw [thirdField, hmanFields]; rfl
      refine iff_of_false (fun hlater => ?_) id
      have hsome := (getLatestAofId_eq_some.mp hlater).1 (manifestFilename appendfilename) (by simp [hmem])
      rw [hnone] at hsome
      cases hsome
    | cons b fields =>
      cases fields with
      | nil =>
        have hx : thirdField (aofFilename appendfilename (latest.getD 1)) = some (toString (latest.getD 1)) := by
          rw [thirdField, haofFields]; rfl
        have hy : thirdField (manifestFilename appendfilename) = some "manifest" := by rw [thirdField, hmanFields]; rfl
        have hxid : idOf (aofFilename appendfilename (latest.getD 1)) = some (latest.getD 1) := by
          rw [idOf, hx, Option.bind_some, parseUint_toString hid]; rfl
        have hyid : idOf (manifestFilename appendfilename) = none := by rw [idOf, hy]; rfl
        rw [getLatestAofId_add h hmem (by rw [hx]; rfl) (by rw [hy]; rfl), hxid, hyid]
        simp
      | cons third fields =>
        -- both names have the id that is in the configured one
        have hx : thirdField (aofFilename appendfilename (latest.getD 1)) = some third := by
          rw [thirdField, haofFields]; rfl
        have hy : thirdField (manifestFilename appendfilename) = some third := by rw [thirdField, hmanFields]; rfl
        have hxid : idOf (aofFilename appendfilename (latest.getD 1)) = (parseUint u64Max third).toOption := by
          rw [idOf, hx, Option.bind_some]
        have hyid : idOf (manifestFilename appendfilename) = (parseUint u64Max third).toOption := by
          rw [idOf, hy, Option.bind_some]
        rw [getLatestAofId_add h hmem (by rw [hx]; rfl) (by rw [hy]; rfl), hxid, hyid]
        cases hp : parseUint u64Max third with
        | error e => simp [Except.toOption, hp]
        | ok n =>
          simp only [Except.toOption, hp, Option.some.injEq, or_self_left, forall_eq', and_self]
          cases latest with
          | none =>
            simp
            omega
          | some k => simp

/-! ## The manifest -/

def Plain (name : String) : Prop := ' ' ∉ name.toList ∧ '\n' ∉ name.toList

theorem mem_splitOnChar {c : Char} {s t : String} (h : t ∈ splitOnChar c s) :
    c ∉ t.toList ∧ ∀ x ∈ t.toList, x ∈ s.toList := by
  unfold splitOnChar at h
  obtain ⟨l, hl, rfl⟩ := List.mem_map.mp h
  rw [String.toList_ofList]
  exact mem_splitOn hl

theorem scanWord_plain {m m' : Manifest} {word : String} {next : Option String} (h : scanWord m word next = .ok m')
    (hm : Plain m.aofFilename) (hnext : ∀ v, next = some v → Plain v) : Plain m'.aofFilename := by
  unfold scanWord at h
  cases next with
  | none =>
    simp only [Option.elim_none] at h
    split at h
    · cases h
    · split at h
      · cases h
      · split at h
        · cases h
        · cases h
          exact hm
  | some v =>
    simp only [Option.elim_some] at h
    split at h
    · cases h
      exact hnext v rfl
    · split at h
      · split at h
        · cases h
          exact hm
        · cases h
      · split at h
        · cases h
          exact hm
        · cases h
          exact hm

theorem scanWords_plain {words : List String} (hwords : ∀ w ∈ words, Plain w) :
    ∀ {m m' : Manifest}, scanWords m words = .ok m' → Plain m.aofFilename → Plain m'.aofFilename := by
  induction words with
  | nil =>
    intro m m' h hm
    cases h
    exact hm
  | cons w words ih =>
    intro m m' h hm
    rw [scanWords] at h
    cases hw : scanWord m w words.head? with
    | error e => rw [hw] at h; cases h
    | ok m₁ =>
      rw [hw] at h
      apply ih (fun w hw => hwords w (List.mem_cons_of_mem _ hw)) h
      apply scanWord_plain hw hm
      intro v hv
      exact hwords v (List.mem_cons_of_mem _ (List.mem_of_head? hv))

theorem words_plain {line : Bytes} {s : String} (hline : (10 : UInt8) ∉ line) (hs : fromUtf8 line = some s) :
    ∀ w ∈ splitOnChar ' ' s, Plain w := by
  intro w hw
  obtain ⟨hblank, hsub⟩ := mem_splitOnChar hw
  refine ⟨hblank, fun hn => hline ?_⟩
  rw [← utf8_of_fromUtf8 hs]
  exact (ascii_mem_utf8 (by decide) (by decide)).mpr (hsub _ hn)

theorem scanLines_plain {lines : List Bytes} (hlines : ∀ l ∈ lines, (10 : UInt8) ∉ l) :
    ∀ {m m' : Manifest}, scanLines m lines = .ok m' → Plain m.aofFilename → Plain m'.aofFilename := by
  induction lines with
  | nil =>
    intro m m' h hm
    cases h
    exact hm
  | cons l lines ih =>
    intro m m' h hm
    rw [scanLines] at h
    cases hs : fromUtf8 l with
    | none => rw [hs] at h; cases h
    | some s =>
      rw [hs] at h
      simp only at h
      cases hw : scanWords m (splitOnChar ' ' s) with
      | error e => rw [hw] at h; cases h
      | ok m₁ =>
        rw [hw] at h
        have hm₁ : Plain m₁.aofFilename :=
          scanWords_plain (words_plain (hlines l (List.mem_cons_self ..)) hs) hw hm
        simp only [Except.bind] at h
        split at h
        · cases h
          exact hm₁
        · exact ih (fun l hl => hlines l (List.mem_cons_of_mem _ hl)) h hm₁

theorem not_mem_linesOf {file l : Bytes} (h : l ∈ linesOf file) : (10 : UInt8) ∉ l := by
  unfold linesOf at h
  simp only [List.mem_append, List.mem_map, List.mem_filter, Option.mem_toList] at h
  obtain ⟨part, hpart, rfl⟩ | ⟨hlast, -⟩ := h
  · have hno := (mem_splitOn (List.mem_of_mem_dropLast hpart)).1
    unfold stripCr
    split
    · exact fun h => hno (List.mem_of_mem_dropLast h)
    · exact hno
  · exact (mem_splitOn (List.mem_of_getLast? hlast)).1

theorem readManifest_plain {appendfilename name : String} {dir : AofDir}
    (h : readManifest appendfilename dir = .ok name) : Plain name := by
  unfold readManifest at h
  split at h
  · cases h
  · next file _ =>
    cases hs : scanLines {} (linesOf file) with
    | error e => rw [hs] at h; cases h
    | ok m =>
      rw [hs] at h
      simp only [Except.bind] at h
      split at h
      · cases h
        exact scanLines_plain (fun _ => not_mem_linesOf) hs ⟨by simp, by simp⟩
      · cases h

theorem plain_aofFilename {appendfilename : String} {id : Nat} :
    Plain (aofFilename appendfilename id) ↔ Plain appendfilename := by
  unfold Plain aofFilename
  simp only [String.toList_append, List.mem_append, not_or]
  constructor
  · rintro ⟨hblank, hnewline⟩
    exact ⟨hblank.1.1.1, hnewline.1.1.1⟩
  · rintro ⟨hblank, hnewline⟩
    exact ⟨⟨⟨⟨hblank, by decide⟩, not_mem_toString (by decide) id⟩, by decide⟩,
      ⟨⟨⟨hnewline, by decide⟩, not_mem_toString (by decide) id⟩, by decide⟩⟩

theorem words_firstLine {appendfilename : String} (hplain : Plain appendfilename) (id : Nat) :
    ∃ line, firstLine appendfilename id = line ++ "i\n" ∧ '\n' ∉ (line ++ "i").toList ∧
      splitOnChar ' ' (line ++ "i") = ["file", aofFilename appendfilename id, "seq", toString id, "type", "i"] := by
  obtain ⟨hblank, hnewline⟩ : Plain (aofFilename appendfilename id) := plain_aofFilename.mpr hplain
  refine ⟨"file " ++ aofFilename appendfilename id ++ " seq " ++ toString id ++ " type ", ?_, ?_, ?_⟩
  · unfold firstLine
    simp only [String.append_assoc]
    rfl
  · simp only [String.toList_append, List.mem_append, not_or]
    exact ⟨⟨⟨⟨⟨by decide, hnewline⟩, by decide⟩, not_mem_toString (by decide) id⟩, by decide⟩, by decide⟩
  · have heq : "file " ++ aofFilename appendfilename id ++ " seq " ++ toString id ++ " type " ++ "i" =
        "file" ++ String.singleton ' ' ++ (aofFilename appendfilename id ++ String.singleton ' ' ++
          ("seq" ++ String.singleton ' ' ++ (toString id ++ String.singleton ' ' ++
            ("type" ++ String.singleton ' ' ++ "i")))) := by
      simp only [String.append_assoc]
      rfl
    rw [heq, splitOnChar_append, splitOnChar_append, splitOnChar_append, splitOnChar_append, splitOnChar_append,
      splitOnChar_of_not_mem hblank, splitOnChar_of_not_mem (not_mem_toString (by decide) id),
      splitOnChar_of_not_mem (s := "file") (by decide), splitOnChar_of_not_mem (s := "seq") (by decide),
      splitOnChar_of_not_mem (s := "type") (by decide), splitOnChar_of_not_mem (s := "i") (by decide)]
    rfl

theorem linesOf_line {line : Bytes} (hno : (10 : UInt8) ∉ line) (hlast : line.getLast? ≠ some 13) :
    linesOf (line ++ [10]) = [line] := by
  have hsplit : (line ++ [10]).splitOn 10 = [line, []] := by
    rw [List.splitOn_append_cons_self_of_not_mem hno, List.splitOn_nil]
  unfold linesOf
  simp [hsplit, stripCr, hlast]

theorem scanWords_firstLine (appendfilename : String) {id : Nat} (hid : id ≤ u64Max) :
    scanWords {} ["file", aofFilename appendfilename id, "seq", toString id, "type", "i"] =
      .ok { aofFilename := aofFilename appendfilename id, aofSeq := id, aofType := "i" } := by
  -- neither the name nor the number is a keyword
  have hname : ∀ w : String, (splitOnChar '.' w).length < 4 → aofFilename appendfilename id ≠ w := by
    rintro w hw rfl
    rw [fields_aofFilename, List.length_append] at hw
    have := List.length_pos_of_ne_nil (splitOnChar_ne_nil '.' appendfilename)
    simp only [List.length_cons, List.length_nil] at hw
    omega
  have hnum : ∀ w : String, (∃ c ∈ w.toList, c.isDigit = false) → toString id ≠ w := by
    rintro w ⟨c, hc, hd⟩ rfl
    exact not_mem_toString hd id hc
  have hfile := hname "file" (by decide)
  have hseq := hname "seq" (by decide)
  have htype := hname "type" (by decide)
  have hfile' := hnum "file" ⟨'f', by decide, by decide⟩
  have hseq' := hnum "seq" ⟨'s', by decide, by decide⟩
  have htype' := hnum "type" ⟨'t', by decide, by decide⟩
  have hparse := parseUint_toString hid
  generalize toString id = digits at hfile' hseq' htype' hparse ⊢
  generalize aofFilename appendfilename id = name at hfile hseq htype ⊢
  simp [scanWords, scanWord, Except.bind, hfile, hseq, htype, hfile', hseq', htype', hparse]

theorem readManifest_firstLine {appendfilename : String} (hplain : Plain appendfilename) {id : Nat} (hid : id ≤ u64Max)
    {dir : AofDir} (hdir : dir.lookup (manifestFilename appendfilename) = some (utf8 (firstLine appendfilename id))) :
    readManifest appendfilename dir = .ok (aofFilename appendfilename id) := by
  obtain ⟨line, hline, hno, hwords⟩ := words_firstLine hplain id
  have hbytes : utf8 (firstLine appendfilename id) = utf8 (line ++ "i") ++ [10] := by
    rw [hline, utf8_append, utf8_append, List.append_assoc]
    rfl
  have hno' : (10 : UInt8) ∉ utf8 (line ++ "i") := by
    rw [ascii_mem_utf8 (c := '\n') (by decide) (by decide)]
    exact hno
  have hlast : (utf8 (line ++ "i")).getLast? ≠ some 13 := by
    rw [utf8_append]
    simp [show utf8 "i" = [105] by decide]
  unfold readManifest
  rw [hdir, hbytes]
  simp only [linesOf_line hno' hlast, scanLines, fromUtf8_utf8, hwords, scanWords_firstLine appendfilename hid,
    Except.bind, ite_true]

theorem readManifest_empty {appendfilename : String} {dir : AofDir}
    (hdir : dir.lookup (manifestFilename appendfilename) = some []) :
    readManifest appendfilename dir = .error (.failed (.internalError "No aof type i found")) := by
  unfold readManifest
  rw [hdir]
  rfl

theorem aofFilename_inj {name : String} {id id' : Nat} (h : aofFilename name id = aofFilename name id') : id = id' := by
  have h := congrArg (splitOnChar '.') h
  rw [fields_aofFilename, fields_aofFilename] at h
  obtain ⟨hdigits, -⟩ := List.cons.inj (List.append_cancel_left h)
  have hid : parseUint (max id id') (toString id) = .ok id := parseUint_toString (Nat.le_max_left ..)
  have hid' : parseUint (max id id') (toString id') = .ok id' := parseUint_toString (Nat.le_max_right ..)
  rw [hdigits, hid'] at hid
  exact (Except.ok.inj hid).symm

/-! ## What a run leaves -/

def Kept (dir : AofDir) : Prop :=
  ∀ name file, dir.lookup (manifestFilename name) = some file →
    file = [] ∨ ∃ id, id ≤ u64Max ∧ file = utf8 (firstLine name id)

theorem Kept.put_manifest {dir : AofDir} (h : Kept dir) (name : String) {file : Bytes}
    (hfile : file = [] ∨ ∃ id, id ≤ u64Max ∧ file = utf8 (firstLine name id)) :
    Kept (HashMap.put (manifestFilename name) file dir) := by
  intro name' file' hlookup
  by_cases heq : manifestFilename name' = manifestFilename name
  · rw [heq, HashMap.lookup_put] at hlookup
    cases hlookup
    obtain rfl := manifestFilename_inj heq
    exact hfile
  · rw [HashMap.lookup_put_ne heq] at hlookup
    exact h name' file' hlookup

theorem Kept.init {dir : AofDir} (h : Kept dir) (name : String) : ∀ dir' ∈ (initAofFiles name dir).1, Kept dir' := by
  intro dir' hdir'
  unfold initAofFiles at hdir'
  cases hlatest : getLatestAofId dir with
  | none => rw [hlatest] at hdir'; cases hdir'
  | some latest =>
    rw [hlatest] at hdir'
    have hopened : Kept (HashMap.orInsert (aofFilename name (latest.getD 1)) [] dir) := by
      intro name' file hlookup
      rw [HashMap.lookup_orInsert_ne (manifestFilename_ne_aofFilename _ _ _)] at hlookup
      exact h name' file hlookup
    have hcreated := hopened.put_manifest name (.inl rfl)
    simp only [List.mem_cons, List.not_mem_nil, or_false] at hdir'
    obtain rfl | rfl | rfl := hdir'
    · exact hopened
    · exact hcreated
    · exact hcreated.put_manifest name (.inr ⟨_, latest_le hlatest, rfl⟩)

theorem kept_empty : Kept ∅ := by
  intro name file h
  simp at h

theorem kept_of_left {disk : Option AofDir} (h : Left disk) : ∀ dir, disk = some dir → Kept dir := by
  induction h with
  | fresh => exact fun _ h => by cases h
  | @run disk dir P orders fuel configs h _ hdir ih =>
    rintro dir' ⟨⟩
    unfold initSequence at hdir
    split at hdir
    · split at hdir
      · split at hdir
        · cases hdir
        · exact (ih _ rfl).init _ _ hdir
      · cases hdir with
        | head => exact kept_empty
        | tail _ hdir => exact kept_empty.init _ _ hdir
    · cases hdir
  | @logged dir name id log _ _ ih =>
    rintro dir' ⟨⟩
    intro name' file hlookup
    rw [HashMap.lookup_put_ne (manifestFilename_ne_aofFilename _ _ _)] at hlookup
    exact ih dir rfl name' file hlookup

theorem initAofFiles_ok (name : String) {dir : AofDir} {latest : Option Nat} (h : getLatestAofId dir = some latest) :
    ∃ dir', (initAofFiles name dir).2 = .ok (aofFilename name (latest.getD 1)) ∧
      (initAofFiles name dir).1.getLast? = some dir' ∧
      dir'.lookup (manifestFilename name) = some (utf8 (firstLine name (latest.getD 1))) ∧
      ∀ n, n ∈ dir' ↔ n = aofFilename name (latest.getD 1) ∨ n = manifestFilename name ∨ n ∈ dir := by
  unfold initAofFiles
  rw [h]
  refine ⟨HashMap.put (manifestFilename name) _ (HashMap.put (manifestFilename name) []
    (HashMap.orInsert (aofFilename name (latest.getD 1)) [] dir)), rfl, rfl, HashMap.lookup_put .., fun n => ?_⟩
  rw [HashMap.mem_put, HashMap.mem_put, HashMap.mem_orInsert]
  exact ⟨by rintro (h | h | h | h) <;> simp [h], by rintro (h | h | h) <;> simp [h]⟩

section
variable (P : Platform) (orders : Nat → IterOrder) (fuel : Nat)

/-- A startup ends with an open log file; the next one reads that file, whatever
was logged to it, and takes its id for the latest. -/
def RoundTrip (configs : Configs) (disk : Option AofDir) (h : CmdHandler) : Prop :=
  ∃ h' dir id, (initSequence P orders fuel configs disk h).2 = .ok (h', some (aofFilename configs.appendfilename id)) ∧
    (initSequence P orders fuel configs disk h).1.getLast? = some dir ∧
    (∀ log, readManifest configs.appendfilename (HashMap.put (aofFilename configs.appendfilename id) log dir) =
      .ok (aofFilename configs.appendfilename id)) ∧
    getLatestAofId dir = some (some id)

/-- The directory is not there yet, or its manifest is complete, the log can be
replayed, and every name has three fields. -/
inductive Ready (appendfilename : String) (h : CmdHandler) : Option AofDir → Option Nat → Prop
  | first : Ready appendfilename h none none
  | again {dir id file latest h'} : id ≤ u64Max →
      dir.lookup (manifestFilename appendfilename) = some (utf8 (firstLine appendfilename id)) →
      dir.lookup (aofFilename appendfilename id) = some file →
      CmdHandler.replayFile P orders fuel h file = some h' → getLatestAofId dir = some latest →
      Ready appendfilename h (some dir) latest

end

section
variable {P : Platform} {orders : Nat → IterOrder} {fuel : Nat} {configs : Configs} {disk : Option AofDir}
  {h : CmdHandler}

theorem Ready.init {latest : Option Nat} (hon : configs.appendonly = true) (hplain : Plain configs.appendfilename)
    (hr : Ready P orders fuel configs.appendfilename h disk latest) :
    ∃ h' dir dir', (initSequence P orders fuel configs disk h).2 =
        .ok (h', some (aofFilename configs.appendfilename (latest.getD 1))) ∧
      (initSequence P orders fuel configs disk h).1.getLast? = some dir' ∧ getLatestAofId dir = some latest ∧
      dir'.lookup (manifestFilename configs.appendfilename) =
        some (utf8 (firstLine configs.appendfilename (latest.getD 1))) ∧
      ∀ n, n ∈ dir' ↔ n = aofFilename configs.appendfilename (latest.getD 1) ∨
        n = manifestFilename configs.appendfilename ∨ n ∈ dir := by
  cases hr with
  | first =>
    have hempty : getLatestAofId ∅ = some none := rfl
    obtain ⟨dir', hname, hlast, hman, hmem⟩ := initAofFiles_ok configs.appendfilename hempty
    refine ⟨h, ∅, dir', ?_, ?_, hempty, hman, hmem⟩
    · simp only [initSequence, hon, if_true, hname, Except.map]
    · simp only [initSequence, hon, if_true, List.getLast?_cons, hlast]
      rfl
  | @again dir id file latest h' hid hman hfile hreplay hlatest =>
    obtain ⟨dir', hname, hlast, hman', hmem⟩ := initAofFiles_ok configs.appendfilename hlatest
    have haof : aofReplay P orders fuel configs.appendfilename dir h = .ok h' := by
      simp only [aofReplay, readManifest_firstLine hplain hid hman, Except.bind, hfile, hreplay, Option.elim_some]
    refine ⟨h', dir, dir', ?_, ?_, hlatest, hman', hmem⟩
    · simp only [initSequence, hon, if_true, haof, hname, Except.map]
    · simp only [initSequence, hon, if_true, haof, hlast]

theorem ready_of_init {h' : CmdHandler} {name : Option String} (hon : configs.appendonly = true)
    (hplain : Plain configs.appendfilename) (hleft : Left disk)
    (hinit : (initSequence P orders fuel configs disk h).2 = .ok (h', name)) :
    ∃ latest, Ready P orders fuel configs.appendfilename h disk latest := by
  cases disk with
  | none => exact ⟨none, .first⟩
  | some dir =>
    simp only [initSequence, hon, if_true] at hinit
    cases haof : aofReplay P orders fuel configs.appendfilename dir h with
    | error e => rw [haof] at hinit; cases hinit
    | ok h₁ =>
      rw [haof] at hinit
      -- the manifest could be read, so it is the line of some id
      unfold aofReplay at haof
      cases hman : dir.lookup (manifestFilename configs.appendfilename) with
      | none => simp [readManifest, hman, Except.bind] at haof
      | some man =>
        obtain rfl | ⟨id, hid, rfl⟩ := kept_of_left hleft dir rfl _ _ hman
        · rw [readManifest_empty hman] at haof
          cases haof
        · rw [readManifest_firstLine hplain hid hman] at haof
          simp only [Except.bind] at haof
          cases hfile : dir.lookup (aofFilename configs.appendfilename id) with
          | none => rw [hfile] at haof; cases haof
          | some file =>
            rw [hfile] at haof
            simp only at haof
            cases hreplay : CmdHandler.replayFile P orders fuel h file with
            | none => rw [hreplay] at haof; cases haof
            | some h₂ =>
              cases hlatest : getLatestAofId dir with
              | none => simp [initAofFiles, hlatest, Except.map] at hinit
              | some latest => exact ⟨latest, .again hid hman hfile hreplay hlatest⟩

/-- A startup and the next one agree on the log file exactly if its name is one
word, the directory is new or its manifest complete, and the ids go on. -/
theorem init_roundTrip_iff (hon : configs.appendonly = true) (hleft : Left disk) :
    RoundTrip P orders fuel configs disk h ↔
      Plain configs.appendfilename ∧ ∃ latest, Ready P orders fuel configs.appendfilename h disk latest ∧
        IdKept configs.appendfilename latest := by
  constructor
  · rintro ⟨h', dir', id, hinit, hlast, hread, hid⟩
    have hplain : Plain configs.appendfilename := plain_aofFilename.mp (readManifest_plain (hread []))
    obtain ⟨latest, hready⟩ := ready_of_init hon hplain hleft hinit
    refine ⟨hplain, latest, hready, ?_⟩
    obtain ⟨h'', dir, dir'', hinit', hlast', hlatest, -, hmem⟩ := hready.init hon hplain
    rw [hinit'] at hinit
    have hname := congrArg Prod.snd (Except.ok.inj hinit)
    obtain rfl := aofFilename_inj (Option.some.inj hname)
    obtain rfl := Option.some.inj (hlast'.symm.trans hlast)
    exact (getLatestAofId_again hlatest hmem).mp hid
  · rintro ⟨hplain, latest, hready, hkept⟩
    obtain ⟨h', dir, dir', hinit, hlast, hlatest, hman, hmem⟩ := hready.init hon hplain
    refine ⟨h', dir', _, hinit, hlast, fun log => ?_, (getLatestAofId_again hlatest hmem).mpr hkept⟩
    apply readManifest_firstLine hplain (latest_le hlatest)
    rw [HashMap.lookup_put_ne (manifestFilename_ne_aofFilename _ _ _)]
    exact hman

end

def appending : Configs := { appendonly := true }

theorem init_roundTrip_iff_first :
    RoundTrip .blank (fun _ => .asIs) 1 appending none (CmdHandler.loggingAt 0) ↔
      Plain "appendonly.aof" ∧
        ∃ latest, Ready .blank (fun _ => .asIs) 1 "appendonly.aof" (CmdHandler.loggingAt 0) none latest ∧
          IdKept "appendonly.aof" latest :=
  init_roundTrip_iff rfl .fresh

/-- A run that stopped once the directory was there leaves a startup without a log file. -/
theorem no_log_after_stop :
    Left (some ∅) ∧ ¬ RoundTrip .blank (fun _ => .asIs) 1 appending (some ∅) (CmdHandler.loggingAt 0) := by
  have hmem : ∅ ∈ (initSequence .blank (fun _ => .asIs) 1 appending none (CmdHandler.loggingAt 0)).1 :=
    List.mem_cons_self ..
  refine ⟨.run .blank (fun _ => .asIs) 1 appending (CmdHandler.loggingAt 0) .fresh hmem, ?_⟩
  rintro ⟨h', dir, id, hinit, -⟩
  have herror : (initSequence .blank (fun _ => .asIs) 1 appending (some ∅) (CmdHandler.loggingAt 0)).2 =
      .error (.failed .fileReadingError) := rfl
  rw [herror] at hinit
  cases hinit

end Aof

end Redis
