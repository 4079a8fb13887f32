import Redis.AppendSound
import Redis.CmdBuilder

/-!
# A reader that follows a stream

A consumer reads a stream with XREAD COUNT, from 0-0 on, and passes each time
the id of the last entry it has received, as the text it came in. Producers add
entries with ids that are given in full. What the consumer has received is then
a prefix of what has been added.
-/

namespace Redis

open Lib

def RespType.items : RespType → List RespType
  | .array _ (some items) => items
  | _ => []

namespace CmdHandler

/-- A stream, the entries that XADD has answered for, and a consumer with what it has received. -/
structure Followed where
  data : Data
  added : List (String × List String) := []
  received : List (String × List String) := []

inductive FollowEvent where
  | add (t i : UInt64) (value : List String) (now : Nat)
  | read (count : Nat) (atLeastOne : 1 ≤ count) (registry : RequestRegistry) (clientId now : Nat)

def readEntry (t : RespType) : Option (String × List String) :=
  match t.items with
  | [id, fields] => do some (← id.getStr, ← fields.items.mapM RespType.getStr)
  | _ => none

def readReply (t : RespType) : Option (List (String × List String)) :=
  match t.items with
  | [] => some []
  | [stream] =>
    match stream.items with
    | [_, entries] => entries.items.mapM readEntry
    | _ => none
  | _ => none

namespace Followed

def cursor (s : Followed) : String := (s.received.getLast?.map Prod.fst).getD "0-0"

def read (key : String) (s : Followed) (count : Nat) (registry : RequestRegistry) (clientId now : Nat) :
    Option (List (String × List String)) :=
  match Cmd.parseStreamIdXread s.cursor [] with
  | some (.ok (id, _)) =>
    match (cmdXread s.data registry (some count) none [(key, id)] clientId now).2 with
    | .ok (some reply) => readReply reply
    | _ => none
  | _ => none

def add (key : String) (s : Followed) (c : XaddCall) : Followed :=
  let (data, r) := c.run key s.data
  match r with
  | .ok (some (.bulkStr _ (some id))) => { s with data, added := s.added ++ [(id, c.value)] }
  | _ => { s with data }

def step (key : String) (s : Followed) : FollowEvent → Option Followed
  | .add t i value now => some (s.add key { given := (some t.toNat, some i.toNat), value, now })
  | .read count _ registry clientId now =>
    (s.read key count registry clientId now).map fun found => { s with received := s.received ++ found }

def shown (e : StreamId × List String) : String × List String := (idText (ofLex e.1), e.2)

/-- What is added is the stream, and a first part of it is received. -/
structure Sound (key : String) (s : Followed) : Prop where
  stream : notStream s.data key = false
  ids : ∀ e ∈ (streamOf s.data key).entries, e.1 ≠ toLex (0, 0) ∧ (ofLex e.1).1 ≤ u64Max ∧ (ofLex e.1).2 ≤ u64Max
  added : s.added = (streamOf s.data key).entries.map shown
  received : ∃ pre post, (streamOf s.data key).entries = pre ++ post ∧ s.received = pre.map shown

/-! ## Ids as text -/

theorem parseStreamIdXread_idText {id : Nat × Nat} (h₁ : id.1 ≤ u64Max) (h₂ : id.2 ≤ u64Max) (rest : List RespType) :
    Cmd.parseStreamIdXread (idText id) rest = some (.ok (id, rest)) := by
  obtain ⟨t, i⟩ := id
  have hsplit : splitOnChar '-' (idText (t, i)) = [toString t, toString i] := by
    have htext : idText (t, i) = toString t ++ String.singleton '-' ++ toString i := rfl
    rw [htext, splitOnChar_append, splitOnChar_of_not_mem (not_mem_toString (by decide) t),
      splitOnChar_of_not_mem (not_mem_toString (by decide) i)]
    rfl
  have hdollar : idText (t, i) ≠ "$" := by
    intro heq
    rw [heq, splitOnChar_of_not_mem (by decide)] at hsplit
    exact absurd (congrArg List.length hsplit) (by simp)
  unfold Cmd.parseStreamIdXread Cmd.parseStreamId
  rw [if_neg hdollar, hsplit]
  simp only [Args.uint, parseUint_toString h₁, parseUint_toString h₂]
  rfl

/-! ## One XADD -/

variable {key : String} {s s' : Followed}

theorem nextStreamId_given {last : Option (Nat × Nat)} {now t i : Nat} {id : Nat × Nat}
    (hid : nextStreamId last now (some t, some i) = .ok id) : id = (t, i) := by
  simp only [nextStreamId] at hid
  split at hid
  · cases hid
  · split at hid
    · split at hid
      · cases hid
        rfl
      · cases hid
    · cases hid
      rfl

theorem add_sound (h : s.Sound key) (t i : UInt64) (value : List String) (now : Nat) :
    (s.add key { given := (some t.toNat, some i.toNat), value, now }).Sound key := by
  unfold add
  rcases xadd_cases key s.data { given := (some t.toNat, some i.toNat), value, now } with
    ⟨id, hid, hr, hstream, hset⟩ | ⟨⟨e, hr⟩, hset, hkept⟩
  · obtain rfl := nextStreamId_given hid
    obtain ⟨hz, habove⟩ := (nextStreamId_inSequence hid).mp trivial
    have hentries := congrArg OrdMap.entries hset
    rw [OrdMap.insert_above (above_iff.mpr habove)] at hentries
    obtain ⟨pre, post, hsplit, hrec⟩ := h.received
    simp only [hr, reply, RespType.bulk]
    refine ⟨hstream, fun e he => ?_, ?_, pre, post ++ [(toLex (t.toNat, i.toNat), value)], ?_, hrec⟩
    · rw [hentries] at he
      rcases List.mem_append.mp he with he | he
      · exact h.ids e he
      · rw [List.mem_singleton.mp he]
        have ht := t.toNat_lt
        have hi := i.toNat_lt
        refine ⟨fun heq => hz (toLex.injective heq), ?_, ?_⟩ <;> simp only [ofLex_toLex, u64Max] <;> omega
    · rw [hentries, List.map_append, ← h.added]
      rfl
    · rw [hentries, hsplit, List.append_assoc]
  · obtain ⟨_, hstream⟩ := hkept h.stream
    simp only [hr]
    exact ⟨hstream, by rw [hset]; exact h.ids, by rw [hset]; exact h.added, by rw [hset]; exact h.received⟩

/-! ## One XREAD -/

theorem mapM_map_some {α β γ : Type} {f : α → β} {g : β → Option γ} {k : α → γ} {l : List α}
    (h : ∀ x ∈ l, g (f x) = some (k x)) : (l.map f).mapM g = some (l.map k) := by
  induction l with
  | nil => rfl
  | cons x l ih =>
    rw [List.map_cons, List.mapM_cons, h x (List.mem_cons_self ..), ih fun y hy => h y (List.mem_cons_of_mem x hy)]
    rfl

theorem items_arrayOf (ts : List RespType) : (RespType.arrayOf ts).items = ts := by
  cases ts <;> rfl

theorem readReply_arrayOf (entries : List (StreamId × List String)) :
    readReply (.arrayOf [.arrayOf [.bulk key, .array entries.length (some (entries.map fun e =>
      .arrayOf [.bulk (idText (ofLex e.1)), .arrayOf (e.2.map .bulk)]))]]) = some (entries.map shown) := by
  have hentry : ∀ e ∈ entries, readEntry (.arrayOf [.bulk (idText (ofLex e.1)), .arrayOf (e.2.map .bulk)]) =
      some (shown e) := by
    intro e _
    have hfields : (e.2.map RespType.bulk).mapM RespType.getStr = some (e.2.map id) :=
      mapM_map_some fun _ _ => rfl
    rw [List.map_id] at hfields
    simp only [readEntry, items_arrayOf, hfields]
    rfl
  simp only [readReply, items_arrayOf]
  exact mapM_map_some hentry

/-- The id of an entry is not taken for another one: if it is the largest id, it is the last. -/
theorem resolveId_entry {data : Data}
    (hids : ∀ e ∈ (streamOf data key).entries, (ofLex e.1).1 ≤ u64Max ∧ (ofLex e.1).2 ≤ u64Max)
    {e : StreamId × List String} (he : e ∈ (streamOf data key).entries) :
    (resolveId data (key, ofLex e.1)).2 = ofLex e.1 := by
  unfold resolveId
  simp only
  split
  · rename_i hmax
    unfold streamOf at he hids
    split at he
    · rename_i entries x hl
      simp only [hl] at hids ⊢
      cases hlast : entries.last? with
      | none =>
        rw [OrdMap.last?_eq_none.mp hlast] at he
        cases he
      | some e' =>
        have hle := OrdMap.le_last? hlast he
        obtain ⟨h₁, h₂⟩ := hids e' (OrdMap.last?_mem hlast)
        have hge : e'.1 ≤ e.1 := by
          rw [Prod.Lex.le_iff, hmax.1, hmax.2]
          unfold u64Max at h₁ h₂
          omega
        simp only [lastId, hlast, Option.map_some, Option.getD_some]
        rw [le_antisymm hle hge]
    · cases he
  · rfl

theorem cursor_sound (h : s.Sound key) {pre post : List (StreamId × List String)}
    (hsplit : (streamOf s.data key).entries = pre ++ post) (hrec : s.received = pre.map shown) :
    ∃ id, Cmd.parseStreamIdXread s.cursor [] = some (.ok (id, [])) ∧
      entriesAfter s.data key (resolveId s.data (key, id)).2 = post := by
  unfold cursor
  rw [hrec]
  rcases List.eq_nil_or_concat pre with rfl | ⟨init, e, rfl⟩
  · have hstart : Cmd.parseStreamIdXread "0-0" [] = some (.ok ((0, 0), [])) :=
      @parseStreamIdXread_idText (0, 0) (Nat.zero_le _) (Nat.zero_le _) []
    refine ⟨(0, 0), hstart, ?_⟩
    have hzero : resolveId s.data (key, 0, 0) = (key, 0, 0) := rfl
    rw [hzero, entriesAfter_streamOf, ← List.nil_append post, ← hsplit]
    refine List.filter_eq_self.mpr fun e he => ?_
    have hne := (h.ids e he).1
    have hle : (toLex (0, 0) : StreamId) ≤ e.1 := Prod.Lex.le_iff.mpr (by
      rcases Nat.eq_zero_or_pos (ofLex e.1).1 with h0 | h0
      · exact .inr ⟨h0.symm, Nat.zero_le _⟩
      · exact .inl h0)
    exact decide_eq_true (lt_of_le_of_ne hle (Ne.symm hne))
  · rw [List.concat_eq_append] at hsplit ⊢
    have he : e ∈ (streamOf s.data key).entries := by
      rw [hsplit]
      simp
    obtain ⟨_, h₁, h₂⟩ := h.ids e he
    refine ⟨ofLex e.1, ?_, ?_⟩
    · rw [List.map_append, List.map_singleton, List.getLast?_concat]
      exact parseStreamIdXread_idText h₁ h₂ []
    · rw [resolveId_entry (fun e he => (h.ids e he).2) he, entriesAfter_streamOf]
      have hentries : (streamOf s.data key).entries = init ++ e :: post := by
        rw [hsplit, List.append_assoc]
        rfl
      exact OrdMap.filter_above hentries

theorem read_sound (h : s.Sound key) {pre post : List (StreamId × List String)}
    (hsplit : (streamOf s.data key).entries = pre ++ post) (hrec : s.received = pre.map shown) (count : Nat)
    (registry : RequestRegistry) (clientId now : Nat) :
    s.read key count registry clientId now = some ((post.take count).map shown) := by
  obtain ⟨id, hparse, hafter⟩ := cursor_sound h hsplit hrec
  have hfind : [resolveId s.data (key, id)].find? (fun s' => notStream s.data s'.1) = none := by
    rw [List.find?_singleton, resolveId_fst, if_neg (by simp [h.stream])]
  unfold read
  rw [hparse]
  simp only [cmdXread_now, xreadNow, List.map_cons, List.map_nil, hfind]
  simp only [reply, readStreams, List.filterMap_cons, List.filterMap_nil, Option.getD_some, resolveId_fst,
    extractStreamEntries, hafter]
  cases hc : post.take count with
  | nil => rfl
  | cons e es => exact readReply_arrayOf (e :: es)

/-! ## Runs -/

theorem step_sound {e : FollowEvent} (h : s.Sound key) (hs : s.step key e = some s') : s'.Sound key := by
  cases e with
  | add t i value now =>
    cases hs
    exact add_sound h t i value now
  | read count _ registry clientId now =>
    obtain ⟨found, hread, rfl⟩ := Option.map_eq_some_iff.mp hs
    obtain ⟨pre, post, hsplit, hrec⟩ := h.received
    rw [read_sound h hsplit hrec] at hread
    cases hread
    refine ⟨h.stream, h.ids, h.added, pre ++ post.take count, post.drop count, ?_, ?_⟩
    · rw [hsplit, List.append_assoc, List.take_append_drop]
    · simp only [hrec, List.map_append]

theorem start_sound {data : Data} (hfree : data.lookup key = none) : ({ data } : Followed).Sound key := by
  have hempty := streamOf_absent hfree
  refine ⟨by simp [notStream, hfree], ?_, ?_, [], [], ?_, rfl⟩
  · rw [hempty]
    exact fun _ he => absurd he List.not_mem_nil
  · rw [hempty]
    rfl
  · rw [hempty]
    rfl

/-- Nothing keeps a producer or the consumer from going on. -/
theorem exists_run (events : List FollowEvent) (h : s.Sound key) :
    ∃ s', Run (fun s e s' => step key s e = some s') s events s' := by
  induction events generalizing s with
  | nil => exact ⟨s, .nil⟩
  | cons e events ih =>
    obtain ⟨s₁, hs₁⟩ : ∃ s₁, step key s e = some s₁ := by
      cases e with
      | add => exact ⟨_, rfl⟩
      | read count _ registry clientId now =>
        obtain ⟨pre, post, hsplit, hrec⟩ := h.received
        exact ⟨_, by rw [step, read_sound h hsplit hrec, Option.map_some]⟩
    obtain ⟨s', hs'⟩ := ih (step_sound h hs₁)
    exact ⟨s', .cons hs₁ hs'⟩

/-- In every run from a key without a stream, the consumer has received a first
part of what was added, and that is the stream. A read returns the next entries,
and none only if there is none that it has not received. -/
theorem run_follows {data : Data} (hfree : data.lookup key = none) {events : List FollowEvent}
    (hr : Run (fun s e s' => step key s e = some s') { data } events s) :
    s.received <+: s.added ∧ s.added = (streamOf s.data key).entries.map shown ∧
      ∀ count, 1 ≤ count → ∀ registry clientId now, ∃ found, s.read key count registry clientId now = some found ∧
        (s.received ++ found) <+: s.added ∧ (found = [] → s.received = s.added) := by
  have h : s.Sound key := hr.inv (I := Sound key) (fun _ _ _ _ h hs => step_sound h hs) (start_sound hfree)
  obtain ⟨pre, post, hsplit, hrec⟩ := h.received
  have hadded : s.added = s.received ++ post.map shown := by
    rw [h.added, hsplit, hrec, List.map_append]
  refine ⟨hadded ▸ List.prefix_append .., h.added, fun count hcount registry clientId now => ?_⟩
  refine ⟨_, read_sound h hsplit hrec count registry clientId now, ?_, fun hnone => ?_⟩
  · rw [hadded, List.prefix_append_right_inj]
    exact (List.take_prefix count post).map shown
  · have hpost : post = [] := by
      cases post with
      | nil => rfl
      | cons e post =>
        obtain ⟨n, rfl⟩ := Nat.exists_eq_succ_of_ne_zero (show count ≠ 0 by omega)
        cases hnone
    rw [hadded, hpost]
    exact (List.append_nil _).symm

def following : List FollowEvent :=
  [.add 1 0 ["a"] 7, .add 1 0 ["b"] 7, .add 1 1 ["c"] 7, .read 1 (by decide) startup.registry 1 8]

theorem run_follows_one : ∃ s : Followed, Run (fun s e s' => step "k" s e = some s') { data := ∅ } following s ∧
    s.received <+: s.added ∧ s.added = (streamOf s.data "k").entries.map shown ∧
    ∀ count, 1 ≤ count → ∀ registry clientId now, ∃ found, s.read "k" count registry clientId now = some found ∧
      (s.received ++ found) <+: s.added ∧ (found = [] → s.received = s.added) := by
  have hstart : ({ data := ∅ } : Followed).Sound "k" := start_sound rfl
  obtain ⟨s, hs⟩ := exists_run following hstart
  exact ⟨s, hs, run_follows rfl hs⟩

end Followed

end CmdHandler

end Redis
