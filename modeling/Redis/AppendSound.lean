import Redis.StreamSound

/-!
# Streams grow at their end

XADD is meant to put an entry behind all others. An id that is given in full
is checked for that; the other forms are resolved first, and then it depends on
the last id and on the clock: `InSequence`.
-/

namespace Redis

open Lib

namespace CmdHandler

def streamOf (data : Data) (key : String) : OrdMap StreamId (List String) :=
  match data.lookup key with
  | some { value := .stream entries, .. } => entries
  | _ => .empty

structure XaddCall where
  given : Option Nat × Option Nat
  value : List String
  now : Nat

def XaddCall.run (key : String) (data : Data) (c : XaddCall) : Data × CmdResult :=
  cmdXadd data key c.given c.value c.now

def Xadds (key : String) (data : Data) (c : XaddCall) (data' : Data) : Prop := (c.run key data).1 = data'

/-- One entry more, with an id greater than all others and not 0-0; the others are as before. -/
structure Appended (before after : OrdMap StreamId (List String)) (id : Nat × Nat) (value : List String) : Prop where
  entry : after.lookup (toLex id) = some value
  greater : ∀ e ∈ before.entries, e.1 < toLex id
  notZero : id ≠ (0, 0)
  kept : ∀ k v, before.lookup k = some v → after.lookup k = some v
  length : after.entries.length = before.entries.length + 1

def AppendsStrictly (key : String) (data : Data) (c : XaddCall) : Prop :=
  ∀ resp, (c.run key data).2 = .ok resp →
    ∃ id, resp = some (.bulk (idText id)) ∧ Appended (streamOf data key) (streamOf (c.run key data).1 key) id c.value

/-- The number of an entry in the last millisecond of the stream has a next one,
and the clock is behind neither 0 nor the last millisecond. -/
def InSequence (last : Option (Nat × Nat)) (now : Nat) : Option Nat × Option Nat → Prop
  | (some t, none) => ∀ i, last = some (t, i) → 1 + i < 2 ^ 64
  | (none, none) => now ≠ 0 ∧ ∀ t i, last = some (t, i) → t < now
  | _ => True

def Orderly (key : String) (data : Data) (c : XaddCall) : Prop :=
  ∀ resp, (c.run key data).2 = .ok resp → InSequence (lastId (streamOf data key)) c.now c.given

section
variable {data : Data} {key : String} {c : XaddCall}

theorem streamOf_absent (hl : data.lookup key = none) : streamOf data key = .empty := by
  simp [streamOf, hl]

theorem streamOf_stream {entries : OrdMap StreamId (List String)} {x : Option Nat}
    (hl : data.lookup key = some ⟨.stream entries, x⟩) : streamOf data key = entries := by
  simp [streamOf, hl]

theorem notStream_stream {entries : OrdMap StreamId (List String)} {x : Option Nat}
    (hl : data.lookup key = some ⟨.stream entries, x⟩) : notStream data key = false := by
  simp [notStream, hl]

theorem entriesAfter_streamOf (data : Data) (key : String) (id : Nat × Nat) :
    entriesAfter data key id = (streamOf data key).entries.filter fun e => toLex id < e.1 := by
  unfold entriesAfter streamOf
  cases data.lookup key with
  | none => rfl
  | some item =>
    obtain ⟨value, x⟩ := item
    cases value <;> rfl

/-- An XADD inserts an entry, or it is refused; then at most the empty stream is new. -/
theorem xadd_cases (key : String) (data : Data) (c : XaddCall) :
    (∃ id, nextStreamId (lastId (streamOf data key)) c.now c.given = .ok id ∧
      (c.run key data).2 = reply (.bulk (idText id)) ∧ notStream (c.run key data).1 key = false ∧
      streamOf (c.run key data).1 key = (streamOf data key).insert (toLex id) c.value) ∨
    (∃ e, (c.run key data).2 = .error e) ∧ streamOf (c.run key data).1 key = streamOf data key ∧
      (notStream data key = false → (∃ e, nextStreamId (lastId (streamOf data key)) c.now c.given = .error e) ∧
        notStream (c.run key data).1 key = false) := by
  obtain ⟨given, value, now⟩ := c
  have hmade : ∀ {entries : OrdMap StreamId (List String)} {x : Option Nat},
      (HashMap.orInsert key { value := .stream .empty, expiredAt := none } data).lookup key =
        some ⟨.stream entries, x⟩ →
      streamOf data key = entries := by
    intro entries x hl
    by_cases hk : key ∈ data
    · rw [orInsert_known hk] at hl
      exact streamOf_stream hl
    · rw [lookup_orInsert_absent hk] at hl
      cases hl
      exact streamOf_absent (AList.lookup_eq_none.mpr hk)
  unfold XaddCall.run cmdXadd
  simp only
  split
  · rename_i entries x hl
    rw [hmade hl]
    split
    · rename_i e he
      exact .inr ⟨⟨e, rfl⟩, streamOf_stream hl, fun _ => ⟨⟨e, he⟩, notStream_stream hl⟩⟩
    · rename_i id hid
      have hset : ((HashMap.orInsert key { value := .stream .empty, expiredAt := none } data).modify key fun _ =>
          { value := .stream (entries.insert (toLex id) value), expiredAt := x }).lookup key =
          some ⟨.stream (entries.insert (toLex id) value), x⟩ := by
        rw [HashMap.lookup_modify, hl]
        rfl
      exact .inl ⟨id, hid, rfl, notStream_stream hset, streamOf_stream hset⟩
  · rename_i hl
    have hk : key ∈ data := by
      by_contra hk
      exact hl _ _ (lookup_orInsert_absent hk _)
    rw [orInsert_known hk] at hl ⊢
    refine .inr ⟨⟨_, rfl⟩, rfl, fun hstream => ?_⟩
    unfold notStream at hstream
    split at hstream
    · rename_i entries x hl'
      exact absurd hl' (hl _ _)
    · cases hstream
    · rename_i hnone
      exact absurd hk (AList.lookup_eq_none.mp hnone)

/-! ## Ids in sequence -/

theorem lt_lex {t i t' i' : Nat} : (toLex (t, i) : StreamId) < toLex (t', i') ↔ t < t' ∨ t = t' ∧ i < i' :=
  Prod.Lex.lt_iff

theorem above_iff {entries : OrdMap StreamId (List String)} {id : StreamId} :
    (∀ e ∈ entries.entries, e.1 < id) ↔ ∀ t i, lastId entries = some (t, i) → toLex (t, i) < id := by
  unfold lastId
  cases hl : entries.last? with
  | none => simp [OrdMap.last?_eq_none.mp hl]
  | some e =>
    constructor
    · intro hall t i hlast
      rw [← Option.some.inj hlast]
      exact hall e (OrdMap.last?_mem hl)
    · intro hlast e' he'
      exact lt_of_le_of_lt (OrdMap.le_last? hl he') (hlast _ _ rfl)

/-- What comes in sequence is above the last id. -/
theorem nextStreamId_inSequence {last : Option (Nat × Nat)} {now : Nat} {given : Option Nat × Option Nat}
    {id : Nat × Nat}
    (hid : nextStreamId last now given = .ok id) :
    InSequence last now given ↔ id ≠ (0, 0) ∧ ∀ t i, last = some (t, i) → (toLex (t, i) : StreamId) < toLex id := by
  obtain ⟨t, i⟩ := given
  cases t with
  | some t =>
    cases i with
    | some i =>
      simp only [nextStreamId] at hid
      split at hid
      · cases hid
      · rename_i hzero
        simp only [InSequence, true_iff]
        split at hid
        · rename_i tLast iLast
          split at hid
          · rename_i hgt
            cases hid
            refine ⟨fun heq => hzero (Prod.mk.inj heq), fun t' i' hlast => ?_⟩
            cases hlast
            rw [lt_lex]
            omega
          · cases hid
        · cases hid
          exact ⟨fun heq => hzero (Prod.mk.inj heq), fun _ _ hlast => by cases hlast⟩
    | none =>
      simp only [nextStreamId] at hid
      simp only [InSequence]
      split at hid
      · rename_i tLast iLast
        split at hid
        · rename_i heq
          subst heq
          cases hid
          constructor
          · intro hnext
            have hlt := hnext iLast rfl
            rw [Nat.mod_eq_of_lt hlt]
            refine ⟨fun hz => ?_, fun t' i' hlast => ?_⟩
            · have := (Prod.mk.inj hz).2
              omega
            · cases hlast
              rw [lt_lex]
              omega
          · rintro ⟨_, habove⟩ i hlast
            cases hlast
            have hlt := lt_lex.mp (habove t iLast rfl)
            have hmod := Nat.mod_lt (1 + iLast) (show 0 < 2 ^ 64 by decide)
            omega
        · rename_i hne
          split at hid
          · rename_i hgt
            cases hid
            refine iff_of_true (fun i hlast => ?_) ⟨fun hz => ?_, fun t' i' hlast => ?_⟩
            · cases hlast
              exact absurd rfl hne
            · have := (Prod.mk.inj hz).1
              omega
            · cases hlast
              exact lt_lex.mpr (.inl hgt)
          · cases hid
      · refine iff_of_true (fun _ hlast => by cases hlast) ⟨?_, fun _ _ hlast => by cases hlast⟩
        split at hid <;> cases hid <;> rename_i ht
        · simp
        · exact fun hz => ht (Prod.mk.inj hz).1
  | none =>
    cases i with
    | some i => cases hid
    | none =>
      cases hid
      simp only [InSequence]
      refine and_congr ⟨fun hnow hz => hnow (Prod.mk.inj hz).1, fun hz hnow => hz (by rw [hnow])⟩ ?_
      refine forall_congr' fun t => forall_congr' fun i => imp_congr_right fun _ => ?_
      rw [lt_lex]
      omega

theorem appended_insert_iff {entries : OrdMap StreamId (List String)} {id : Nat × Nat} {value : List String} :
    Appended entries (entries.insert (toLex id) value) id value ↔
      id ≠ (0, 0) ∧ ∀ e ∈ entries.entries, e.1 < toLex id := by
  refine ⟨fun h => ⟨h.notZero, h.greater⟩, fun ⟨hz, hall⟩ => ⟨OrdMap.lookup_insert .., hall, hz, ?_, ?_⟩⟩
  · intro k v hk
    have hne : k ≠ toLex id := ne_of_lt (hall _ (OrdMap.lookup_eq_some.mp hk))
    rw [OrdMap.lookup_insert_ne hne, hk]
  · rw [OrdMap.insert_above hall, List.length_append]
    rfl

theorem Appended.id_eq {entries : OrdMap StreamId (List String)} {id id' : Nat × Nat} {value value' : List String}
    (h : Appended entries (entries.insert (toLex id') value') id value) : id = id' := by
  by_contra hne
  have hne' : (toLex id : StreamId) ≠ toLex id' := fun heq => hne (toLex.injective heq)
  have hold := h.entry
  rw [OrdMap.lookup_insert_ne hne'] at hold
  exact lt_irrefl _ (h.greater _ (OrdMap.lookup_eq_some.mp hold))

theorem appends_iff_orderly : AppendsStrictly key data c ↔ Orderly key data c := by
  unfold AppendsStrictly Orderly
  rcases xadd_cases key data c with ⟨id, hid, hr, _, hs⟩ | ⟨⟨e, hr⟩, _⟩
  · have hseq := nextStreamId_inSequence hid
    simp only [hr, reply, Except.ok.injEq, forall_eq', hs]
    rw [hseq, ← above_iff, ← @appended_insert_iff _ id c.value]
    constructor
    · rintro ⟨id', _, happ⟩
      rwa [happ.id_eq] at happ
    · exact fun happ => ⟨id, rfl, happ⟩
  · simp [hr]

/-- In a run of XADDs each one that succeeds appends an entry, if and only if the
ids that the run makes up come in sequence. -/
theorem run_appends_iff (calls : List XaddCall) (data' : Data) :
    Run (guarded (AppendsStrictly key) (Xadds key)) data calls data' ↔
      Run (guarded (Orderly key) (Xadds key)) data calls data' :=
  ⟨Run.mono fun _ _ _ h => ⟨appends_iff_orderly.mp h.1, h.2⟩,
    Run.mono fun _ _ _ h => ⟨appends_iff_orderly.mpr h.1, h.2⟩⟩

def twice : XaddCall := { given := (none, none), value := ["a", "1"], now := 5 }

/-- Of two entries added in one millisecond, the second overwrites the first. -/
theorem xadd_twice : Run (Xadds "k") ∅ [twice] (twice.run "k" ∅).1 ∧
    (twice.run "k" (twice.run "k" ∅).1).2 = reply (.bulk "5-0") ∧
    (streamOf (twice.run "k" (twice.run "k" ∅).1).1 "k").entries.length = 1 ∧
    ¬ AppendsStrictly "k" (twice.run "k" ∅).1 twice := by
  refine ⟨.cons rfl .nil, rfl, rfl, fun h => ?_⟩
  obtain ⟨id, _, happ⟩ := h _ rfl
  have hlength := happ.length
  exact absurd hlength (by decide)

end

end CmdHandler

end Redis
