import Redis.RegistrySound
import Redis.Lib.Index

/-!
# Coherence

In a coherent registry the queues, the set of stream requests, the table of
waiting clients and the tree of deadlines are indexes of the store. Taking a
request out keeps it so. Storing one does if it is admissible: nothing is stored
under its timestamp yet, its client has no other WAIT, and a deadline is free
for it.
-/

namespace Redis

open Lib

/-! ## The history -/

namespace History

/-- The requests without an answer are `u`, and no request has two answers. -/
structure Tracks (g : History) (u : Nat → Prop) : Prop where
  once : g.answered.Nodup
  lt : ∀ n ∈ g.answered, n < g.issued
  unanswered : ∀ n, u n ↔ n < g.issued ∧ n ∉ g.answered

theorem Tracks.congr {g : History} {u u' : Nat → Prop} (h : g.Tracks u) (hu : ∀ n, u' n ↔ u n) : g.Tracks u' :=
  ⟨h.once, h.lt, fun n => (hu n).trans (h.unanswered n)⟩

theorem Tracks.issue {g : History} {u : Nat → Prop} (h : g.Tracks u) : g.issue.Tracks fun n => u n ∨ n = g.issued := by
  refine ⟨h.once, fun n hn => Nat.lt_trans (h.lt n hn) (by simp [History.issue]), fun n => ?_⟩
  have hfresh : g.issued ∉ g.answered := fun hn => Nat.lt_irrefl _ (h.lt _ hn)
  rw [h.unanswered n]
  simp only [History.issue]
  by_cases hn : n = g.issued
  · subst hn
    simp [hfresh]
  · have hlt : n < 1 + g.issued ↔ n < g.issued := by omega
    simp [hn, hlt]

theorem Tracks.answer {g : History} {u : Nat → Prop} (h : g.Tracks u) {n : Nat} (hn : u n) :
    (g.answer n).Tracks fun m => u m ∧ m ≠ n := by
  obtain ⟨hlt, hna⟩ := (h.unanswered n).mp hn
  refine ⟨List.nodup_cons.mpr ⟨hna, h.once⟩, fun m hm => ?_, fun m => ?_⟩
  · rcases List.mem_cons.mp hm with rfl | hm
    · exact hlt
    · exact h.lt m hm
  · rw [h.unanswered m]
    simp only [History.answer, List.mem_cons, not_or]
    tauto

end History

/-! ## Deadlines -/

/-- The search ends at a free slot, and not behind one. -/
theorem freeDeadline_spec {tree : OrdMap Nat Nat} {free : Nat} (hfree : tree.lookup free = none) (hmax : free < 2 ^ 64)
    {fuel d : Nat} (hfuel : (tree.entries.filter fun e => d ≤ e.1).length < fuel) (hd : d ≤ free) :
    d ≤ freeDeadline tree fuel d ∧ freeDeadline tree fuel d ≤ free ∧
      tree.lookup (freeDeadline tree fuel d) = none := by
  induction fuel generalizing d with
  | zero => cases hfuel
  | succ fuel ih =>
    unfold freeDeadline
    split
    · rename_i hc
      obtain ⟨t, ht⟩ := Option.isSome_iff_exists.mp hc
      have hne : d ≠ free := fun heq => by rw [heq, hfree] at ht; cases ht
      have hnext : (1 + d) % 2 ^ 64 = 1 + d := Nat.mod_eq_of_lt (by omega)
      -- the slot that is taken is left behind
      have hless : (tree.entries.filter fun e => 1 + d ≤ e.1).length <
          (tree.entries.filter fun e => d ≤ e.1).length := by
        have hsub : (tree.entries.filter fun e => 1 + d ≤ e.1) =
            (tree.entries.filter fun e => d ≤ e.1).filter fun e => 1 + d ≤ e.1 := by
          rw [List.filter_filter]
          refine List.filter_congr fun e _ => ?_
          by_cases h : 1 + d ≤ e.1 <;> simp [h]
          omega
        rw [hsub, List.length_filter_lt_length_iff_exists]
        exact ⟨(d, t), List.mem_filter.mpr ⟨OrdMap.lookup_eq_some.mp ht, by simp⟩, by simp⟩
      rw [hnext]
      obtain ⟨h₁, h₂, h₃⟩ := ih (d := 1 + d) (by omega) (by omega)
      exact ⟨by omega, h₂, h₃⟩
    · rename_i hc
      refine ⟨le_refl d, hd, ?_⟩
      simpa [OrdMap.contains] using hc

theorem freeDeadline_lt {tree : OrdMap Nat Nat} (fuel : Nat) {d : Nat} (hd : d < 2 ^ 64) :
    freeDeadline tree fuel d < 2 ^ 64 := by
  induction fuel generalizing d with
  | zero => exact hd
  | succ fuel ih =>
    unfold freeDeadline
    split
    · apply ih
      exact Nat.mod_lt _ (by decide)
    · exact hd

/-! ## Coherent registries -/

namespace RequestRegistry

structure Coherent (r : RequestRegistry) : Prop where
  stamp : ∀ t e, r.store.lookup t = some e → e.timestamp = t
  list : Indexed r.store (fun e key => e.kind = .list key) fun key t => t ∈ r.backlogList.queueOf key
  queue : ∀ key, (r.backlogList.queueOf key).Nodup
  stream : Indexed r.store (fun e (_ : Unit) => e.kind.isStream = true) fun _ t => t ∈ r.backlogStream
  wait : Indexed r.store (fun e c => e.kind.isWait = true ∧ e.clientId = c) fun c t => r.backlogWait.lookup c = some t
  ack : ∀ s c, c ∈ r.backlogAck.queueOf s → ∃ t e, r.store.lookup t = some e ∧ e.clientId = c ∧ s ∈ e.kind.slaveIds
  acks : ∀ s, (r.backlogAck.queueOf s).Nodup
  tree : Indexed r.store (fun e d => e.deadline = d ∧ d ≠ 0) fun d t => r.deadline.lookup d = some t

structure Lists (r : RequestRegistry) : Prop where
  stamp : ∀ t e, r.store.lookup t = some e → e.timestamp = t
  list : Indexed r.store (fun e key => e.kind = .list key) fun key t => t ∈ r.backlogList.queueOf key
  queue : ∀ key, (r.backlogList.queueOf key).Nodup

def Streams (r : RequestRegistry) : Prop :=
  Indexed r.store (fun e (_ : Unit) => e.kind.isStream = true) fun _ t => t ∈ r.backlogStream

def WaitTable (r : RequestRegistry) : Prop :=
  Indexed r.store (fun e c => e.kind.isWait = true ∧ e.clientId = c) fun c t => r.backlogWait.lookup c = some t

def AckLists (r : RequestRegistry) : Prop :=
  ∀ s c, c ∈ r.backlogAck.queueOf s → ∃ t e, r.store.lookup t = some e ∧ e.clientId = c ∧ s ∈ e.kind.slaveIds

def DeadlineTree (r : RequestRegistry) : Prop :=
  Indexed r.store (fun e d => e.deadline = d ∧ d ≠ 0) fun d t => r.deadline.lookup d = some t

theorem Coherent.lists {r : RequestRegistry} (h : r.Coherent) : r.Lists := ⟨h.stamp, h.list, h.queue⟩

structure Admissible (r : RequestRegistry) (timestamp deadline clientId : Nat) (kind : RequestKind) : Prop where
  stamp : timestamp ∉ r.store
  wait : kind.isWait = true → clientId ∉ r.backlogWait
  slot : deadline ≠ 0 → ∃ free, deadline ≤ free ∧ free < 2 ^ 64 ∧ r.deadline.lookup free = none

/-- The registry of waiting requests, without transactions, watches and the timer. -/
structure SameRequests (r r' : RequestRegistry) : Prop where
  store : r'.store = r.store
  backlogList : r'.backlogList = r.backlogList
  backlogStream : r'.backlogStream = r.backlogStream
  backlogWait : r'.backlogWait = r.backlogWait
  backlogAck : r'.backlogAck = r.backlogAck
  deadline : r'.deadline = r.deadline

theorem Coherent.congr {r r' : RequestRegistry} (h : r.Coherent) (hs : SameRequests r r') : r'.Coherent := by
  obtain ⟨h₁, h₂, h₃, h₄, h₅, h₆⟩ := hs
  constructor
  · rw [h₁]; exact h.stamp
  · rw [h₁, h₂]; exact h.list
  · rw [h₂]; exact h.queue
  · rw [h₁, h₃]; exact h.stream
  · rw [h₁, h₄]; exact h.wait
  · rw [h₁, h₅]; exact h.ack
  · rw [h₅]; exact h.acks
  · rw [h₁, h₆]; exact h.tree

theorem coherent_new (timer : Timer) : (RequestRegistry.new timer).Coherent where
  stamp t e he := by
    rw [show (new timer).store.lookup t = none from AList.lookup_empty t] at he
    cases he
  list := .empty fun _ _ => List.not_mem_nil
  queue _ := List.nodup_nil
  stream := .empty fun _ t => AList.notMem_empty t
  wait := .empty fun c t ht => by
    rw [show (new timer).backlogWait.lookup c = none from AList.lookup_empty c] at ht
    cases ht
  ack _ _ hc := absurd hc List.not_mem_nil
  acks _ := List.nodup_nil
  tree := .empty fun _ _ ht => by cases ht

/-! ### Storing a request -/

section
variable {r : RequestRegistry} {timestamp deadline clientId : Nat} {kind : RequestKind}

/-- A deadline is put off to a slot that is free, if there is one below the bound. -/
theorem schedule_slot (timestamp : Nat) {bound : Nat} (hbound : bound ≤ 2 ^ 64) (hpos : 0 < deadline)
    (hslot : ∃ free, deadline ≤ free ∧ free < bound ∧ r.deadline.lookup free = none) :
    ∃ d, deadline ≤ d ∧ d < bound ∧ r.deadline.lookup d = none ∧
      r.schedule timestamp deadline = ({ r with deadline := r.deadline.insert d timestamp }.setTimerFd, d) := by
  obtain ⟨free, hle, hmax, hfree⟩ := hslot
  have hfuel : (r.deadline.entries.filter fun e => deadline ≤ e.1).length < r.deadline.entries.length + 1 :=
    Nat.lt_succ_of_le (List.length_filter_le _ _)
  obtain ⟨h₁, h₂, h₃⟩ := freeDeadline_spec hfree (by omega) hfuel hle
  unfold schedule
  rw [if_pos hpos]
  exact ⟨_, h₁, by omega, h₃, rfl⟩

theorem schedule_spec (timestamp : Nat) {bound : Nat} (hbound : bound ≤ 2 ^ 64)
    (hslot : deadline ≠ 0 → ∃ free, deadline ≤ free ∧ free < bound ∧ r.deadline.lookup free = none) :
    deadline = 0 ∧ r.schedule timestamp deadline = (r, 0) ∨
    ∃ d, d < bound ∧ d ≠ 0 ∧ r.deadline.lookup d = none ∧
      r.schedule timestamp deadline = ({ r with deadline := r.deadline.insert d timestamp }.setTimerFd, d) := by
  by_cases hd : deadline = 0
  · subst hd
    exact .inl ⟨rfl, rfl⟩
  · obtain ⟨d, hle, hlt, hfree, hsched⟩ := schedule_slot timestamp hbound (Nat.pos_of_ne_zero hd) (hslot hd)
    exact .inr ⟨d, hlt, by omega, hfree, hsched⟩

/-- A request is not due before the deadline it asked for. -/
theorem le_schedule (timestamp : Nat)
    (hslot : deadline ≠ 0 → ∃ free, deadline ≤ free ∧ free < 2 ^ 64 ∧ r.deadline.lookup free = none) :
    deadline ≤ (r.schedule timestamp deadline).2 := by
  by_cases hd : deadline = 0
  · rw [hd]
    exact Nat.zero_le _
  · obtain ⟨d, hle, _, _, hsched⟩ := schedule_slot timestamp (le_refl _) (Nat.pos_of_ne_zero hd) (hslot hd)
    rw [hsched]
    exact hle

theorem insert_store (r : RequestRegistry) (timestamp deadline clientId : Nat) (kind : RequestKind) :
    (r.insert timestamp deadline clientId kind).store =
      r.store.insert timestamp
        { kind, clientId, timestamp, deadline := (r.schedule timestamp deadline).2, serial := r.history.issued } := by
  unfold insert schedule
  cases kind <;> split <;> rfl

theorem insert_lookup {timestamp deadline clientId t : Nat} {kind : RequestKind} {e : RequestEntry}
    (he : (r.insert timestamp deadline clientId kind).store.lookup t = some e) :
    t = timestamp ∧ e.kind = kind ∧ e.clientId = clientId ∧ e.serial = r.history.issued ∨
      t ≠ timestamp ∧ r.store.lookup t = some e := by
  rw [insert_store] at he
  by_cases ht : t = timestamp
  · rw [ht, AList.lookup_insert, Option.some.injEq] at he
    exact .inl ⟨ht, by rw [← he], by rw [← he], by rw [← he]⟩
  · rw [AList.lookup_insert_ne ht] at he
    exact .inr ⟨ht, he⟩

theorem insert_deadline (r : RequestRegistry) (timestamp deadline clientId : Nat) (kind : RequestKind) :
    (r.insert timestamp deadline clientId kind).deadline = (r.schedule timestamp deadline).1.deadline := by
  cases kind <;> rfl

theorem insert_history (r : RequestRegistry) (timestamp deadline clientId : Nat) (kind : RequestKind) :
    (r.insert timestamp deadline clientId kind).history = r.history.issue := by
  unfold insert schedule
  cases kind <;> split <;> rfl

theorem insert_queues (r : RequestRegistry) (timestamp deadline clientId : Nat) (kind : RequestKind) :
    (r.insert timestamp deadline clientId kind).backlogList = (r.enqueue timestamp clientId kind).backlogList ∧
    (r.insert timestamp deadline clientId kind).backlogStream = (r.enqueue timestamp clientId kind).backlogStream ∧
    (r.insert timestamp deadline clientId kind).backlogWait = (r.enqueue timestamp clientId kind).backlogWait ∧
    (r.insert timestamp deadline clientId kind).backlogAck = (r.enqueue timestamp clientId kind).backlogAck := by
  unfold insert schedule
  cases kind <;> split <;> exact ⟨rfl, rfl, rfl, rfl⟩

theorem mem_joinAcks {slaveIds : List Nat} {acks : HashMap Nat (List Nat)} {s c : Nat} :
    c ∈ (slaveIds.foldl (fun acks i => HashMap.pushBack i clientId acks) acks).queueOf s ↔
      c ∈ acks.queueOf s ∨ s ∈ slaveIds ∧ c = clientId := by
  induction slaveIds generalizing acks with
  | nil => simp
  | cons i slaveIds ih =>
    rw [List.foldl_cons, ih, HashMap.queueOf_pushBack]
    by_cases hs : s = i
    · simp only [if_pos hs, List.mem_append, List.mem_cons, List.not_mem_nil]
      tauto
    · simp only [if_neg hs, List.mem_cons]
      tauto

theorem nodup_joinAcks {slaveIds : List Nat} {acks : HashMap Nat (List Nat)} (hn : slaveIds.Nodup)
    (hc : ∀ s, clientId ∉ acks.queueOf s) (hacks : ∀ s, (acks.queueOf s).Nodup) (s : Nat) :
    ((slaveIds.foldl (fun acks i => HashMap.pushBack i clientId acks) acks).queueOf s).Nodup := by
  suffices hgen : ∀ acks : HashMap Nat (List Nat), (∀ s ∈ slaveIds, clientId ∉ acks.queueOf s) →
      (∀ s, (acks.queueOf s).Nodup) →
      ((slaveIds.foldl (fun acks i => HashMap.pushBack i clientId acks) acks).queueOf s).Nodup from
    hgen acks (fun s _ => hc s) hacks
  clear hc hacks acks
  induction slaveIds with
  | nil => exact fun acks _ hacks => hacks s
  | cons i slaveIds ih =>
    intro acks hc hacks
    obtain ⟨hi, hn⟩ := List.nodup_cons.mp hn
    refine ih hn _ (fun s hs => ?_) fun s => ?_
    · have hsi : s ≠ i := fun heq => hi (heq ▸ hs)
      rw [HashMap.queueOf_pushBack, if_neg hsi]
      exact hc s (List.mem_cons_of_mem _ hs)
    · rw [HashMap.queueOf_pushBack]
      split
      · rename_i hs
        refine (hacks s).append (List.nodup_singleton _) fun c hmem hc' => ?_
        rw [List.mem_singleton.mp hc', hs] at hmem
        exact hc i (List.mem_cons_self ..) hmem
      · exact hacks s

theorem Lists.not_in_queue (h : r.Lists) (ht : r.store.lookup timestamp = none) (key : String) :
    timestamp ∉ r.backlogList.queueOf key := by
  intro hin
  obtain ⟨e, he, _⟩ := (h.list key timestamp).mp hin
  rw [ht] at he
  cases he

theorem Lists.insert (h : r.Lists) (hnone : r.store.lookup timestamp = none) :
    (r.insert timestamp deadline clientId kind).Lists := by
  obtain ⟨hlist, _⟩ := insert_queues r timestamp deadline clientId kind
  have hstore := insert_store r timestamp deadline clientId kind
  constructor
  case stamp =>
    intro t e he
    rw [hstore] at he
    by_cases ht : t = timestamp
    · rw [ht, AList.lookup_insert, Option.some.injEq] at he
      rw [ht, ← he]
    · rw [AList.lookup_insert_ne ht] at he
      exact h.stamp t e he
  case list =>
    rw [hstore, hlist]
    cases kind with
    | list key =>
      refine h.list.insert hnone fun k t => ?_
      simp only [enqueue, HashMap.queueOf_pushBack, RequestKind.list.injEq]
      by_cases hk : k = key
      · simp [hk]
      · simp [hk, Ne.symm hk]
    | stream | wait => exact h.list.insert_other hnone fun k => by simp
  case queue =>
    intro k
    rw [hlist]
    cases kind with
    | list key =>
      simp only [enqueue, HashMap.queueOf_pushBack]
      split
      · refine (h.queue k).append (List.nodup_singleton _) fun t ht ht' => ?_
        rw [List.mem_singleton.mp ht'] at ht
        exact h.not_in_queue hnone k ht
      · exact h.queue k
    | stream | wait => exact h.queue k

theorem Streams.insert (h : r.Streams) (hnone : r.store.lookup timestamp = none) :
    (r.insert timestamp deadline clientId kind).Streams := by
  unfold Streams
  rw [insert_store, (insert_queues r timestamp deadline clientId kind).2.1]
  cases kind with
  | stream => exact Indexed.insert h hnone fun _ t => by simp [enqueue, RequestKind.isStream, or_comm]
  | list | wait => exact Indexed.insert_other h hnone fun _ => by simp [RequestKind.isStream]

theorem WaitTable.insert (h : r.WaitTable) (hnone : r.store.lookup timestamp = none)
    (hw : kind.isWait = true → clientId ∉ r.backlogWait) : (r.insert timestamp deadline clientId kind).WaitTable := by
  unfold WaitTable
  rw [insert_store, (insert_queues r timestamp deadline clientId kind).2.2.1]
  cases kind with
  | wait requiredCount actualCount offsetSnapshot slaveIds epollFd =>
    have hfree : r.backlogWait.lookup clientId = none := AList.lookup_eq_none.mpr (hw rfl)
    refine Indexed.insert h hnone fun c t => ?_
    by_cases hc : c = clientId
    · subst hc
      simp [enqueue, AList.lookup_insert, hfree, RequestKind.isWait, eq_comm]
    · simp [enqueue, AList.lookup_insert_ne hc, Ne.symm hc]
  | list | stream => exact Indexed.insert_other h hnone fun c => by simp [RequestKind.isWait]

theorem AckLists.insert (h : r.AckLists) (hnone : r.store.lookup timestamp = none) :
    (r.insert timestamp deadline clientId kind).AckLists := by
  intro s c hc
  rw [insert_store]
  generalize (r.schedule timestamp deadline).2 = d
  have hold : c ∈ r.backlogAck.queueOf s → ∃ t e,
      (r.store.insert timestamp ⟨kind, clientId, timestamp, d, r.history.issued⟩).lookup t = some e ∧
        e.clientId = c ∧ s ∈ e.kind.slaveIds := by
    intro hc
    obtain ⟨t, e, he, hec⟩ := h s c hc
    refine ⟨t, e, ?_, hec⟩
    rw [AList.lookup_insert_ne fun heq => ?_]
    · exact he
    · rw [heq, hnone] at he
      cases he
  rw [(insert_queues r timestamp deadline clientId kind).2.2.2] at hc
  cases kind with
  | list | stream => exact hold hc
  | wait requiredCount actualCount offsetSnapshot slaveIds epollFd =>
    rcases mem_joinAcks.mp hc with hc | ⟨hs, rfl⟩
    · exact hold hc
    · exact ⟨timestamp, _, AList.lookup_insert _, rfl, hs⟩

theorem DeadlineTree.insert (h : r.DeadlineTree) (hstamp : ∀ d, r.deadline.lookup d ≠ some timestamp)
    (hslot : deadline ≠ 0 → ∃ free, deadline ≤ free ∧ free < 2 ^ 64 ∧ r.deadline.lookup free = none) :
    (r.insert timestamp deadline clientId kind).DeadlineTree := by
  have hstore := insert_store r timestamp deadline clientId kind
  generalize hd : (r.schedule timestamp deadline).2 = d at hstore
  unfold DeadlineTree
  rw [hstore, insert_deadline]
  rcases schedule_spec timestamp (le_refl _) hslot with ⟨_, hsched⟩ | ⟨d', _, hz, hfree, hsched⟩
  · rw [hsched] at hd
    subst hd
    rw [hsched]
    refine Indexed.put h hstamp fun d t => ?_
    exact ⟨.inl, fun hor => hor.resolve_right fun hzero => hzero.2.2 hzero.2.1.symm⟩
  · rw [hsched] at hd
    simp only at hd
    subst hd
    rw [hsched, setTimerFd_deadline]
    refine Indexed.put h hstamp fun d t => ?_
    by_cases hdd : d = d'
    · subst hdd
      simp [OrdMap.lookup_insert, hfree, hz, eq_comm]
    · simp [OrdMap.lookup_insert_ne hdd, Ne.symm hdd]

theorem isWait_of_slaveIds {kind : RequestKind} {s : Nat} (hs : s ∈ kind.slaveIds) : kind.isWait = true := by
  cases kind with
  | wait => rfl
  | list | stream => cases hs

theorem Coherent.insert (h : r.Coherent) (ha : r.Admissible timestamp deadline clientId kind)
    (hn : kind.slaveIds.Nodup) : (r.insert timestamp deadline clientId kind).Coherent := by
  have hnone : r.store.lookup timestamp = none := AList.lookup_eq_none.mpr ha.stamp
  obtain ⟨_, _, _, hack⟩ := insert_queues r timestamp deadline clientId kind
  have hlists : (r.insert timestamp deadline clientId kind).Lists := h.lists.insert hnone
  constructor
  case stamp => exact hlists.stamp
  case list => exact hlists.list
  case queue => exact hlists.queue
  case stream => exact Streams.insert h.stream hnone
  case wait => exact WaitTable.insert h.wait hnone ha.wait
  case ack => exact AckLists.insert h.ack hnone
  case tree => exact DeadlineTree.insert h.tree (fun d => Indexed.absent h.tree hnone d) ha.slot
  case acks =>
    intro s
    rw [hack]
    cases kind with
    | list | stream => exact h.acks s
    | wait requiredCount actualCount offsetSnapshot slaveIds epollFd =>
      refine nodup_joinAcks hn (fun s' hc => ?_) h.acks s
      -- its client would wait already
      obtain ⟨t, e, he, hec, hs⟩ := h.ack s' clientId hc
      have hin := (h.wait.entry he).mpr ⟨isWait_of_slaveIds hs, hec⟩
      exact ha.wait rfl (AList.lookup_isSome.mp (Option.isSome_iff_exists.mpr ⟨t, hin⟩))

end

/-! ### Taking a request out -/

section
variable {r : RequestRegistry} {timestamp : Nat} {entry : RequestEntry}

theorem remove_queues (he : r.store.lookup timestamp = some entry) :
    (r.remove timestamp).1.store = r.store.erase timestamp ∧
    (r.remove timestamp).1.backlogList = (r.dequeue timestamp entry.clientId entry.kind).backlogList ∧
    (r.remove timestamp).1.backlogStream = (r.dequeue timestamp entry.clientId entry.kind).backlogStream ∧
    (r.remove timestamp).1.backlogWait = (r.dequeue timestamp entry.clientId entry.kind).backlogWait ∧
    (r.remove timestamp).1.backlogAck = (r.dequeue timestamp entry.clientId entry.kind).backlogAck ∧
    (r.remove timestamp).1.deadline = r.deadline.erase entry.deadline := by
  unfold remove
  rw [he]
  simp only [setTimerFd]
  cases entry.kind <;> exact ⟨rfl, rfl, rfl, rfl, rfl, rfl⟩

theorem queueOf_leaveAcks {slaveIds : List Nat} {clientId : Nat} {acks : HashMap Nat (List Nat)} (s : Nat) :
    (slaveIds.foldl (fun acks i => HashMap.retain i (· ≠ clientId) acks) acks).queueOf s =
      if s ∈ slaveIds then (acks.queueOf s).filter (· ≠ clientId) else acks.queueOf s := by
  induction slaveIds generalizing acks with
  | nil => simp
  | cons i slaveIds ih =>
    rw [List.foldl_cons, ih, HashMap.queueOf_retain]
    by_cases hs : s = i
    · subst hs
      by_cases hm : s ∈ slaveIds
      · simp [hm, List.filter_filter]
      · simp [hm]
    · simp [hs]

theorem Lists.remove (h : r.Lists) (timestamp : Nat) : (r.remove timestamp).1.Lists := by
  apply remove_keeps (I := Lists) h
  intro entry he
  obtain ⟨hstore, hlist, _⟩ := remove_queues he
  constructor
  case stamp => exact fun t e ht => h.stamp t e (remove_store ht)
  case list =>
    rw [hstore, hlist]
    cases hk : entry.kind with
    | list key =>
      refine h.list.erase fun k t => ?_
      simp only [dequeue, HashMap.queueOf_retain]
      by_cases hkk : k = key
      · simp [hkk]
      · rw [if_neg hkk]
        refine ⟨fun ht => ⟨ht, ?_⟩, And.left⟩
        rintro rfl
        have hkind := (h.list.entry he).mp ht
        rw [hk, RequestKind.list.injEq] at hkind
        exact hkk hkind.symm
    | stream | wait => exact h.list.erase_other he fun k hkind => by rw [hk] at hkind; cases hkind
  case queue =>
    intro k
    rw [hlist]
    cases entry.kind with
    | list key =>
      simp only [dequeue, HashMap.queueOf_retain]
      split
      · exact (h.queue k).filter _
      · exact h.queue k
    | stream | wait => exact h.queue k

theorem Streams.remove (h : r.Streams) (timestamp : Nat) : (r.remove timestamp).1.Streams := by
  apply remove_keeps (I := Streams) h
  intro entry he
  obtain ⟨hstore, _, hstream, _⟩ := remove_queues he
  unfold Streams
  rw [hstore, hstream]
  cases hk : entry.kind with
  | stream => exact Indexed.erase h fun _ t => by simp [dequeue, AList.mem_erase, and_comm]
  | list | wait => exact Indexed.erase_other h he fun _ hkind => by rw [hk] at hkind; cases hkind

theorem WaitTable.remove (h : r.WaitTable) (timestamp : Nat) : (r.remove timestamp).1.WaitTable := by
  apply remove_keeps (I := WaitTable) h
  intro entry he
  obtain ⟨hstore, _, _, hwait, _⟩ := remove_queues he
  unfold WaitTable
  rw [hstore, hwait]
  cases hk : entry.kind with
  | wait requiredCount actualCount offsetSnapshot slaveIds epollFd =>
    have hp : ∀ c, entry.kind.isWait = true ∧ entry.clientId = c → c = entry.clientId := fun c hc => hc.2.symm
    refine Indexed.erase_key h he hp (fun t _ => ⟨by rw [hk]; rfl, rfl⟩) ?_ fun c hc => ?_
    · exact AList.lookup_erase _ _
    · exact AList.lookup_erase_ne hc
  | list | stream => exact Indexed.erase_other h he fun c hkind => by rw [hk] at hkind; cases hkind.1

theorem AckLists.remove (h : r.AckLists) (timestamp : Nat) : (r.remove timestamp).1.AckLists := by
  apply remove_keeps (I := AckLists) h
  intro entry he
  obtain ⟨hstore, _, _, _, hack, _⟩ := remove_queues he
  intro s c hc
  rw [hstore]
  have hother : c ∈ r.backlogAck.queueOf s → (entry.clientId = c → s ∈ entry.kind.slaveIds → False) →
      ∃ t e, (r.store.erase timestamp).lookup t = some e ∧ e.clientId = c ∧ s ∈ e.kind.slaveIds := by
    intro hc hne
    obtain ⟨t, e, ht, hec, hs⟩ := h s c hc
    refine ⟨t, e, ?_, hec, hs⟩
    rw [AList.lookup_erase_ne]
    · exact ht
    · rintro rfl
      rw [he, Option.some.injEq] at ht
      subst ht
      exact hne hec hs
  rw [hack] at hc
  cases hk : entry.kind with
  | list | stream =>
    rw [hk] at hc
    exact hother hc fun _ hs => by rw [hk] at hs; cases hs
  | wait requiredCount actualCount offsetSnapshot slaveIds epollFd =>
    rw [hk] at hc
    simp only [dequeue, queueOf_leaveAcks] at hc
    by_cases hs : s ∈ slaveIds
    · rw [if_pos hs] at hc
      obtain ⟨hc, hne⟩ := List.mem_filter.mp hc
      exact hother hc fun heq _ => by simp [heq] at hne
    · rw [if_neg hs] at hc
      exact hother hc fun _ hs' => hs (by rwa [hk] at hs')

theorem DeadlineTree.remove (h : r.DeadlineTree) (timestamp : Nat) : (r.remove timestamp).1.DeadlineTree := by
  apply remove_keeps (I := DeadlineTree) h
  intro entry he
  obtain ⟨hstore, _, _, _, _, hdl⟩ := remove_queues he
  unfold DeadlineTree
  rw [hstore, hdl]
  have hp : ∀ d, entry.deadline = d ∧ d ≠ 0 → d = entry.deadline := fun d hd => hd.1.symm
  refine Indexed.erase_key h he hp (fun t ht => ?_) ?_ fun d hd => ?_
  · obtain ⟨e, _, _, hz⟩ := (h _ _).mp ht
    exact ⟨rfl, hz⟩
  · exact OrdMap.lookup_erase _ _
  · exact OrdMap.lookup_erase_ne hd _

theorem Coherent.remove (h : r.Coherent) (timestamp : Nat) : (r.remove timestamp).1.Coherent := by
  have hlists := h.lists.remove timestamp
  constructor
  case stamp => exact hlists.stamp
  case list => exact hlists.list
  case queue => exact hlists.queue
  case stream => exact Streams.remove h.stream timestamp
  case wait => exact WaitTable.remove h.wait timestamp
  case ack => exact AckLists.remove h.ack timestamp
  case tree => exact DeadlineTree.remove h.tree timestamp
  case acks =>
    apply remove_keeps (I := fun r => ∀ s, (r.backlogAck.queueOf s).Nodup) h.acks
    intro entry he s
    rw [(remove_queues he).2.2.2.2.1]
    cases entry.kind with
    | list | stream => exact h.acks s
    | wait requiredCount actualCount offsetSnapshot slaveIds epollFd =>
      simp only [dequeue, queueOf_leaveAcks]
      split
      · exact (h.acks s).filter _
      · exact h.acks s

theorem remove_history (r : RequestRegistry) (timestamp : Nat) : (r.remove timestamp).1.history = r.history := by
  cases h : r.store.lookup timestamp with
  | none => rw [remove_none h]
  | some entry =>
    obtain ⟨_, _, _, _, _, _, hr⟩ := remove_some h
    rw [hr]

end

/-! ### Acknowledgements -/

section
variable {r : RequestRegistry}

@[simp] theorem setCount_clientId (e : RequestEntry) (n : Nat) : (e.setCount n).clientId = e.clientId := by
  unfold RequestEntry.setCount
  split <;> rfl

@[simp] theorem setCount_timestamp (e : RequestEntry) (n : Nat) : (e.setCount n).timestamp = e.timestamp := by
  unfold RequestEntry.setCount
  split <;> rfl

@[simp] theorem setCount_deadline (e : RequestEntry) (n : Nat) : (e.setCount n).deadline = e.deadline := by
  unfold RequestEntry.setCount
  split <;> rfl

@[simp] theorem setCount_serial (e : RequestEntry) (n : Nat) : (e.setCount n).serial = e.serial := by
  unfold RequestEntry.setCount
  split <;> rfl

@[simp] theorem setCount_kind (e : RequestEntry) (n : Nat) :
    (e.setCount n).kind.isStream = e.kind.isStream ∧ (e.setCount n).kind.isWait = e.kind.isWait ∧
      (e.setCount n).kind.slaveIds = e.kind.slaveIds ∧ ∀ key, (e.setCount n).kind = .list key ↔ e.kind = .list key := by
  unfold RequestEntry.setCount
  split
  · rename_i hk
    simp [hk, RequestKind.isStream, RequestKind.isWait, RequestKind.slaveIds]
  · simp

theorem Lists.setCount (h : r.Lists) (t n : Nat) :
    ({ r with store := r.store.modify t (·.setCount n) } : RequestRegistry).Lists where
  stamp t' e he := by
    obtain ⟨e', he', heq⟩ := (HashMap.exists_modify (p := fun e' => e'.timestamp = e.timestamp)
      (fun _ _ => by simp) t').mp ⟨e, he, rfl⟩
    rw [← heq, h.stamp t' e' he']
  list := h.list.modify fun _ _ key => (setCount_kind _ _).2.2.2 key
  queue := h.queue

theorem Streams.setCount (h : r.Streams) (t n : Nat) :
    ({ r with store := r.store.modify t (·.setCount n) } : RequestRegistry).Streams :=
  Indexed.modify h fun _ _ _ => by simp

theorem Coherent.setCount (h : r.Coherent) (t n : Nat) :
    ({ r with store := r.store.modify t (·.setCount n) } : RequestRegistry).Coherent where
  stamp := (h.lists.setCount t n).stamp
  list := (h.lists.setCount t n).list
  queue := h.queue
  stream := Streams.setCount h.stream t n
  wait := h.wait.modify fun _ _ _ => by simp
  ack s c hc := by
    obtain ⟨t', he⟩ := h.ack s c hc
    exact ⟨t', (HashMap.exists_modify (fun _ _ => by simp) t').mpr he⟩
  acks := h.acks
  tree := h.tree.modify fun _ _ _ => by simp

theorem Coherent.retainAcks (h : r.Coherent) (slaveId : Nat) (keep : Nat → Bool) :
    ({ r with backlogAck := r.backlogAck.retain slaveId keep } : RequestRegistry).Coherent := by
  refine ⟨h.stamp, h.list, h.queue, h.stream, h.wait, fun s c hc => h.ack s c ?_, fun s => ?_, h.tree⟩
  · simp only [HashMap.queueOf_retain] at hc
    split at hc
    · exact (List.mem_filter.mp hc).1
    · exact hc
  · simp only [HashMap.queueOf_retain]
    split
    · exact (h.acks s).filter _
    · exact h.acks s

end

/-! ### Requests leave -/

section
variable {r r' r'' : RequestRegistry}

structure Shrinks (r r' : RequestRegistry) : Prop where
  store : ∀ t e, r'.store.lookup t = some e → r.store.lookup t = some e
  wait : ∀ x t, r'.backlogWait.lookup x = some t → r.backlogWait.lookup x = some t
  acks : ∀ i, (r'.backlogAck.queueOf i).Sublist (r.backlogAck.queueOf i)

theorem Shrinks.of_eq (hs : r'.store = r.store) (hw : r'.backlogWait = r.backlogWait)
    (ha : r'.backlogAck = r.backlogAck) :
    Shrinks r r' :=
  ⟨fun _ _ h => hs ▸ h, fun _ _ h => hw ▸ h, fun _ => by rw [ha]⟩

theorem Shrinks.trans (h : Shrinks r r') (h' : Shrinks r' r'') : Shrinks r r'' :=
  ⟨fun t e he => h.store t e (h'.store t e he), fun x t hx => h.wait x t (h'.wait x t hx),
    fun i => (h'.acks i).trans (h.acks i)⟩

theorem shrinks_remove (r : RequestRegistry) (timestamp : Nat) : Shrinks r (r.remove timestamp).1 := by
  cases he : r.store.lookup timestamp with
  | none =>
    rw [remove_none he]
    exact .of_eq rfl rfl rfl
  | some entry =>
    obtain ⟨hs, _, _, hw, ha, _⟩ := remove_queues he
    refine ⟨fun t e h => remove_store h, fun x t hx => ?_, fun i => ?_⟩
    · rw [hw] at hx
      cases hk : entry.kind with
      | wait =>
        rw [hk] at hx
        by_cases hxc : x = entry.clientId
        · rw [hxc] at hx
          simp only [dequeue, AList.lookup_erase] at hx
          cases hx
        · simpa only [dequeue, AList.lookup_erase_ne hxc] using hx
      | list | stream =>
        rw [hk] at hx
        exact hx
    · rw [ha]
      cases entry.kind with
      | wait =>
        simp only [dequeue]
        rw [queueOf_leaveAcks]
        split
        · exact List.filter_sublist
        · exact List.Sublist.refl _
      | list | stream => exact List.Sublist.refl _

theorem shrinks_retain (r : RequestRegistry) (slaveId : Nat) (keep : Nat → Bool) :
    Shrinks r { r with backlogAck := r.backlogAck.retain slaveId keep } := by
  refine ⟨fun _ _ h => h, fun _ _ h => h, fun i => ?_⟩
  rw [HashMap.queueOf_retain]
  split
  · exact List.filter_sublist
  · exact List.Sublist.refl _

end

end RequestRegistry

end Redis
