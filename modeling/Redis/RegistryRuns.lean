import Mathlib.Data.List.Induction
import Redis.BlpopSound

/-!
# Runs of the registry

Whatever is stored and taken out, in any order, the queues, the set, the table and
the tree hold exactly the requests of the store, and none of them keeps an empty list.
The one exception is a deadline at the end of `u64`: where all of them are
taken from the requested one on, the search for a free one goes round to 0.
-/

namespace Redis

open Lib

namespace RequestRegistry

inductive Act where
  | insert (timestamp deadline clientId : Nat) (kind : RequestKind)
  | remove (timestamp : Nat)

def act (r : RequestRegistry) : Act → RequestRegistry
  | .insert timestamp deadline clientId kind => r.insert timestamp deadline clientId kind
  | .remove timestamp => (r.remove timestamp).1

def after (timer : Timer) (acts : List Act) : RequestRegistry := acts.foldl act (new timer)

def Act.stamp : Act → Option Nat
  | .insert timestamp _ _ _ => some timestamp
  | .remove _ => none

/-- All clock readings differ, a client has no other WAIT when it waits, and deadlines
are of `u64`. -/
structure Fair (timer : Timer) (acts : List Act) : Prop where
  distinct : (acts.filterMap Act.stamp).Nodup
  wait : ∀ pre timestamp deadline clientId kind, pre ++ [.insert timestamp deadline clientId kind] <+: acts →
    kind.isWait = true → ∀ t e, (after timer pre).store.lookup t = some e → e.kind.isWait = true → e.clientId ≠ clientId
  word : ∀ timestamp deadline clientId kind, .insert timestamp deadline clientId kind ∈ acts → deadline < 2 ^ 64

def HasSlot (r : RequestRegistry) : Act → Prop
  | .insert _ deadline _ _ => deadline ≠ 0 → ∃ free, deadline ≤ free ∧ free < 2 ^ 64 ∧ r.deadline.lookup free = none
  | .remove _ => True

/-- The requests that are stored were asked for by the acts, and everything else in the
registry is there for exactly one of them. -/
structure Consistent (acts : List Act) (r : RequestRegistry) : Prop where
  lists : r.Lists
  streams : r.Streams
  waits : r.WaitTable
  acks : r.AckLists
  tree : r.DeadlineTree
  queues : r.backlogList.Used
  ackLists : r.backlogAck.Used
  requested : ∀ t e, r.store.lookup t = some e → ∃ deadline, .insert t deadline e.clientId e.kind ∈ acts ∧
    deadline ≤ e.deadline ∧ (deadline = 0 → e.deadline = 0)

/-! ## The steps -/

section
variable {timer : Timer} {acts pre : List Act} {r : RequestRegistry} {timestamp deadline clientId : Nat}
    {kind : RequestKind}

theorem used_joinAcks {acks : HashMap Nat (List Nat)} (h : acks.Used) (slaveIds : List Nat) :
    (slaveIds.foldl (fun acks i => HashMap.pushBack i clientId acks) acks).Used := by
  induction slaveIds generalizing acks with
  | nil => exact h
  | cons i slaveIds ih => exact ih (h.pushBack i clientId)

theorem used_leaveAcks {acks : HashMap Nat (List Nat)} (h : acks.Used) (slaveIds : List Nat) :
    (slaveIds.foldl (fun acks i => HashMap.retain i (· ≠ clientId) acks) acks).Used := by
  induction slaveIds generalizing acks with
  | nil => exact h
  | cons i slaveIds ih => exact ih (h.retain i _)

theorem consistent_new (timer : Timer) : Consistent [] (new timer) := by
  have h := coherent_new timer
  refine ⟨h.lists, h.stream, h.wait, h.ack, h.tree, HashMap.used_empty, HashMap.used_empty, ?_⟩
  intro t e he
  cases he

theorem Consistent.stamp (h : Consistent acts r) {t : Nat} {e : RequestEntry} (he : r.store.lookup t = some e) :
    t ∈ acts.filterMap Act.stamp := by
  obtain ⟨deadline, hin, _⟩ := h.requested t e he
  apply List.mem_filterMap.mpr
  exact ⟨_, hin, rfl⟩

theorem Consistent.insert (h : Consistent acts r) (hnone : r.store.lookup timestamp = none)
    (hw : kind.isWait = true → clientId ∉ r.backlogWait)
    (hslot : r.HasSlot (.insert timestamp deadline clientId kind)) :
    Consistent (acts ++ [.insert timestamp deadline clientId kind]) (r.insert timestamp deadline clientId kind) := by
  obtain ⟨_, _, _, hack⟩ := insert_queues r timestamp deadline clientId kind
  have hle := le_schedule timestamp hslot
  constructor
  case lists => exact h.lists.insert hnone
  case streams => exact Streams.insert h.streams hnone
  case waits => exact WaitTable.insert h.waits hnone hw
  case acks => exact AckLists.insert h.acks hnone
  case tree => exact DeadlineTree.insert h.tree (fun d => Indexed.absent h.tree hnone d) hslot
  case queues => exact QueuesUsed.insert h.queues timestamp deadline clientId kind
  case ackLists =>
    rw [hack]
    cases kind with
    | wait requiredCount actualCount offsetSnapshot slaveIds epollFd => exact used_joinAcks h.ackLists slaveIds
    | list | stream => exact h.ackLists
  case requested =>
    intro t e he
    rw [insert_store] at he
    by_cases ht : t = timestamp
    · rw [ht, AList.lookup_insert] at he
      cases he
      refine ⟨deadline, ?_, hle, ?_⟩
      · rw [ht]
        exact List.mem_append_right acts (List.mem_singleton_self _)
      · intro hz
        simp [schedule, hz]
    · rw [AList.lookup_insert_ne ht] at he
      obtain ⟨d, hin, hd⟩ := h.requested t e he
      exact ⟨d, List.mem_append_left _ hin, hd⟩

theorem Consistent.remove (h : Consistent acts r) (timestamp : Nat) :
    Consistent (acts ++ [.remove timestamp]) (r.remove timestamp).1 := by
  constructor
  case lists => exact h.lists.remove timestamp
  case streams => exact Streams.remove h.streams timestamp
  case waits => exact WaitTable.remove h.waits timestamp
  case acks => exact AckLists.remove h.acks timestamp
  case tree => exact DeadlineTree.remove h.tree timestamp
  case queues => exact QueuesUsed.remove h.queues timestamp
  case ackLists =>
    apply remove_keeps (I := fun r => r.backlogAck.Used) h.ackLists
    intro entry he
    rw [(remove_queues he).2.2.2.2.1]
    cases entry.kind with
    | wait requiredCount actualCount offsetSnapshot slaveIds epollFd => exact used_leaveAcks h.ackLists slaveIds
    | list | stream => exact h.ackLists
  case requested =>
    intro t e he
    obtain ⟨d, hin, hd⟩ := h.requested t e (remove_store he)
    exact ⟨d, List.mem_append_left _ hin, hd⟩

/-! ## Runs -/

theorem Fair.before (h : Fair timer acts) (hp : pre <+: acts) : Fair timer pre where
  distinct := h.distinct.sublist (hp.sublist.filterMap _)
  wait pre' timestamp deadline clientId kind hpre := h.wait pre' timestamp deadline clientId kind (hpre.trans hp)
  word timestamp deadline clientId kind hin := h.word timestamp deadline clientId kind (hp.subset hin)

theorem after_snoc (timer : Timer) (acts : List Act) (a : Act) :
    after timer (acts ++ [a]) = (after timer acts).act a := by
  simp [after]

theorem Fair.next (h : Fair timer (acts ++ [.insert timestamp deadline clientId kind])) :
    timestamp ∉ acts.filterMap Act.stamp := by
  intro hin
  have hdistinct := h.distinct
  rw [List.filterMap_append] at hdistinct
  exact (List.nodup_append.mp hdistinct).2.2 timestamp hin timestamp (by simp [Act.stamp]) rfl

theorem Consistent.fresh (h : Consistent acts r)
    (hfair : Fair timer (acts ++ [.insert timestamp deadline clientId kind])) : r.store.lookup timestamp = none := by
  cases he : r.store.lookup timestamp with
  | none => rfl
  | some e => exact absurd (h.stamp he) hfair.next

theorem Fair.asked (h : Fair timer (acts ++ [.insert timestamp deadline clientId kind])) {d c : Nat} {k : RequestKind}
    (hin : .insert timestamp d c k ∈ acts ++ [Act.insert timestamp deadline clientId kind]) : d = deadline := by
  rcases List.mem_append.mp hin with hin | hin
  · have hstamp : timestamp ∈ acts.filterMap Act.stamp := List.mem_filterMap.mpr ⟨_, hin, rfl⟩
    exact absurd hstamp h.next
  · cases List.mem_singleton.mp hin
    rfl

theorem Consistent.act {a : Act} (h : Consistent acts (after timer acts)) (hfair : Fair timer (acts ++ [a]))
    (hslot : (after timer acts).HasSlot a) : Consistent (acts ++ [a]) (after timer (acts ++ [a])) := by
  rw [after_snoc]
  cases a with
  | remove timestamp => exact h.remove timestamp
  | insert timestamp deadline clientId kind =>
    apply h.insert (h.fresh hfair) _ hslot
    intro hkind hin
    obtain ⟨t, ht⟩ := HashMap.exists_lookup hin
    obtain ⟨e, he, hwait, hclient⟩ := (h.waits clientId t).mp ht
    exact hfair.wait acts timestamp deadline clientId kind List.prefix_rfl hkind t e he hwait hclient

/-- As long as each request finds a deadline, the registry stays consistent. -/
theorem Fair.consistent (h : Fair timer acts) (hslots : ∀ pre a, pre ++ [a] <+: acts → (after timer pre).HasSlot a) :
    Consistent acts (after timer acts) := by
  induction acts using List.reverseRecOn with
  | nil => exact consistent_new timer
  | append_singleton acts a ih =>
    have hp : acts <+: acts ++ [a] := List.prefix_append acts [a]
    have hbefore := ih (h.before hp) fun pre b hpre => hslots pre b (hpre.trans hp)
    exact hbefore.act h (hslots acts a List.prefix_rfl)

/-- A request that finds no deadline takes the one of another request. -/
theorem Consistent.hasSlot {a : Act} (h : Consistent acts (after timer acts)) (hfair : Fair timer (acts ++ [a]))
    (hnext : Consistent (acts ++ [a]) (after timer (acts ++ [a]))) : (after timer acts).HasSlot a := by
  rw [after_snoc] at hnext
  cases a with
  | remove timestamp => trivial
  | insert timestamp deadline clientId kind =>
    intro hpos
    by_contra hno
    have hnone := h.fresh hfair
    generalize hr : after timer acts = r at *
    generalize hd : freeDeadline r.deadline (r.deadline.entries.length + 1) deadline = d
    have hsched : r.schedule timestamp deadline =
        ({ r with deadline := r.deadline.insert d timestamp }.setTimerFd, d) := by
      rw [← hd]
      exact if_pos (Nat.pos_of_ne_zero hpos)
    have hstore := insert_store r timestamp deadline clientId kind
    rw [hsched] at hstore
    -- the request is due no earlier than it asks for, so the deadline it gets was taken
    have hle : deadline ≤ d := by
      obtain ⟨asked, hin, hle, _⟩ := hnext.requested timestamp _ (by
        show (r.insert timestamp deadline clientId kind).store.lookup timestamp = _
        rw [hstore, AList.lookup_insert])
      rwa [hfair.asked hin] at hle
    have hword : d < 2 ^ 64 := by
      rw [← hd]
      exact freeDeadline_lt _ (hfair.word timestamp deadline clientId kind (by simp))
    cases htaken : r.deadline.lookup d with
    | none => exact hno ⟨d, hle, hword, htaken⟩
    | some t =>
      obtain ⟨e, he, hdue⟩ := (h.tree d t).mp htaken
      have hne : t ≠ timestamp := by
        intro heq
        rw [heq, hnone] at he
        cases he
      have hkept : (r.insert timestamp deadline clientId kind).store.lookup t = some e := by
        rw [hstore, AList.lookup_insert_ne hne]
        exact he
      have hnode : (r.insert timestamp deadline clientId kind).deadline.lookup d = some t :=
        (hnext.tree d t).mpr ⟨e, hkept, hdue⟩
      rw [insert_deadline, hsched, setTimerFd_deadline, OrdMap.lookup_insert] at hnode
      exact hne (Option.some.inj hnode).symm

/-- After every act the registry is consistent if and only if each request finds a free
deadline. -/
theorem consistent_iff_slots (h : Fair timer acts) :
    (∀ pre, pre <+: acts → Consistent pre (after timer pre)) ↔
      ∀ pre a, pre ++ [a] <+: acts → (after timer pre).HasSlot a := by
  constructor
  · intro hall pre a hp
    have hbefore := hall pre ((List.prefix_append pre [a]).trans hp)
    exact hbefore.hasSlot (h.before hp) (hall _ hp)
  · intro hslots pre hp
    exact (h.before hp).consistent fun pre' a hp' => hslots pre' a (hp'.trans hp)

/-- Without a WAIT only the clock readings and the deadlines matter. -/
theorem fair_of_lists (hdistinct : (acts.filterMap Act.stamp).Nodup)
    (hacts : ∀ timestamp deadline clientId kind, .insert timestamp deadline clientId kind ∈ acts →
      deadline < 2 ^ 64 ∧ kind.isWait = false) : Fair timer acts where
  distinct := hdistinct
  wait pre timestamp deadline clientId kind hp hkind := by
    have hin := hp.subset (List.mem_append_right pre (List.mem_singleton_self _))
    rw [(hacts timestamp deadline clientId kind hin).2] at hkind
    cases hkind
  word timestamp deadline clientId kind hin := (hacts timestamp deadline clientId kind hin).1

/-- Two requests ask for the same deadline, and the first one is answered. -/
theorem consistent_iff_slots_collision :
    Consistent [.insert 1 100 7 (.list "a"), .insert 2 100 8 (.list "a"), .remove 1]
      (after ⟨fun _ => 0, none⟩ [.insert 1 100 7 (.list "a"), .insert 2 100 8 (.list "a"), .remove 1]) := by
  have hfair : Fair ⟨fun _ => 0, none⟩ [.insert 1 100 7 (.list "a"), .insert 2 100 8 (.list "a"), .remove 1] := by
    apply fair_of_lists (by decide)
    intro timestamp deadline clientId kind hin
    simp only [List.mem_cons, List.not_mem_nil, or_false, Act.insert.injEq] at hin
    rcases hin with ⟨-, rfl, -, rfl⟩ | ⟨-, rfl, -, rfl⟩ | hin
    · exact ⟨by decide, rfl⟩
    · exact ⟨by decide, rfl⟩
    · cases hin
  apply (consistent_iff_slots hfair).mpr _ _ List.prefix_rfl
  intro pre a hp
  cases pre with
  | nil =>
    obtain ⟨rfl, _⟩ := List.cons_prefix_cons.mp hp
    exact fun _ => ⟨100, le_refl _, by decide, rfl⟩
  | cons b pre =>
    simp only [List.cons_append, List.cons_prefix_cons] at hp
    obtain ⟨rfl, hp⟩ := hp
    cases pre with
    | nil =>
      obtain ⟨rfl, _⟩ := List.cons_prefix_cons.mp hp
      exact fun _ => ⟨101, by decide, by decide, rfl⟩
    | cons c pre =>
      simp only [List.cons_append, List.cons_prefix_cons] at hp
      obtain ⟨rfl, hp⟩ := hp
      cases pre with
      | nil =>
        obtain ⟨rfl, _⟩ := List.cons_prefix_cons.mp hp
        trivial
      | cons d pre =>
        have hlen := hp.length_le
        simp at hlen

/-- Two requests ask for the last deadline of `u64`: the second one is due at 0. -/
theorem last_deadline_collision :
    Fair ⟨fun _ => 0, none⟩ [.insert 1 (2 ^ 64 - 1) 7 (.list "a"), .insert 2 (2 ^ 64 - 1) 8 (.list "a")] ∧
      ¬ Consistent [.insert 1 (2 ^ 64 - 1) 7 (.list "a"), .insert 2 (2 ^ 64 - 1) 8 (.list "a")]
        (after ⟨fun _ => 0, none⟩ [.insert 1 (2 ^ 64 - 1) 7 (.list "a"), .insert 2 (2 ^ 64 - 1) 8 (.list "a")]) := by
  constructor
  · apply fair_of_lists (by decide)
    intro timestamp deadline clientId kind hin
    simp only [List.mem_cons, List.not_mem_nil, or_false, Act.insert.injEq] at hin
    rcases hin with ⟨-, rfl, -, rfl⟩ | ⟨-, rfl, -, rfl⟩
    · exact ⟨by decide, rfl⟩
    · exact ⟨by decide, rfl⟩
  · intro h
    have hzero : (after ⟨fun _ => 0, none⟩
        [.insert 1 (2 ^ 64 - 1) 7 (.list "a"), .insert 2 (2 ^ 64 - 1) 8 (.list "a")]).store.lookup 2 =
          some ⟨.list "a", 8, 2, 0, 1⟩ := rfl
    obtain ⟨deadline, hin, hle, _⟩ := h.requested 2 _ hzero
    simp only [List.mem_cons, List.not_mem_nil, or_false, Act.insert.injEq] at hin
    rcases hin with ⟨hfirst, _⟩ | ⟨_, rfl, _⟩
    · cases hfirst
    · simp at hle

end

end RequestRegistry

end Redis
