import Redis.Handoff
import Redis.Lib.Since

/-!
# What WAIT reports

The count of a WAIT is backed by slaves that have acknowledged its snapshot
since it was asked for, each of them once. What keeps a slave from counting
twice is the list of the clients it owes an acknowledgement: the client leaves
it when the slave is counted. That takes that the list has a client once, and
that the client leads to its own request.
-/

namespace Redis

open Lib

namespace CmdHandler

open RequestRegistry

/-- A WAIT that is stored, with the slaves that were asked; an acknowledgement;
a count that is sent. -/
inductive WaitEvent where
  | asked (serial clientId : Nat) (offsetSnapshot : Int) (slaveIds : List Nat)
  | acked (slaveId : Nat) (offset : Int)
  | told (serial clientId count : Nat)

def ackTold (offset : Int) (backlogWait : HashMap Nat Nat) :
    HashMap Nat RequestEntry → List Nat → List WaitEvent
  | _, [] => []
  | store, id :: ids =>
    match backlogWait.lookup id with
    | none => []
    | some timestamp =>
      match store.lookup timestamp with
      | some entry =>
        match entry.kind with
        | .wait requiredCount actualCount offsetSnapshot _ _ =>
          let count := countAck offset offsetSnapshot actualCount
          (if requiredCount ≤ count then [.told entry.serial id count] else []) ++
            ackTold offset backlogWait (store.modify timestamp (·.setCount count)) ids
        | _ => ackTold offset backlogWait store ids
      | none => ackTold offset backlogWait store ids

def waitEvents : Happening → List WaitEvent
  | .call c =>
    match c.cmd with
    | .replconf (.ack offset) =>
      .acked c.clientId offset ::
        ackTold offset c.before.registry.backlogWait c.before.registry.store
          ((c.before.registry.backlogAck.lookup c.clientId).getD [])
    | cmd =>
      match requestOf .asIs c.before none cmd with
      | some (.wait _ _ offsetSnapshot slaveIds _, _) =>
        [.asked c.before.registry.history.issued c.clientId offsetSnapshot slaveIds]
      | _ => []
  | .expired entry =>
    match entry.kind with
    | .wait _ actualCount _ _ _ => [.told entry.serial entry.clientId actualCount]
    | _ => []
  | .served .. => []

def toldMessage : WaitEvent → Option (Nat × Bytes)
  | .told _ clientId count => some (clientId, (RespType.integer (some count)).frame)
  | _ => none

/-- The slaves are among those that were asked for the WAIT, and have
acknowledged its snapshot since. -/
def Confirmed (events : List WaitEvent) (serial clientId : Nat) (offsetSnapshot : Int)
    (slaveIds slaves : List Nat) : Prop :=
  ∃ before after, events = before ++ .asked serial clientId offsetSnapshot slaveIds :: after ∧ slaves.Nodup ∧
    ∀ i ∈ slaves, i ∈ slaveIds ∧ ∃ offset, .acked i offset ∈ after ∧ offsetSnapshot ≤ offset

/-- The count of a WAIT is that of the slaves that have confirmed it, or less. -/
def Backed (events : List WaitEvent) (serial clientId count : Nat) : Prop :=
  ∃ offsetSnapshot slaveIds slaves, Confirmed events serial clientId offsetSnapshot slaveIds slaves ∧
    count ≤ slaves.length

section
variable {events : List WaitEvent} {serial clientId : Nat} {offsetSnapshot : Int} {slaveIds slaves : List Nat}

theorem Confirmed.append (h : Confirmed events serial clientId offsetSnapshot slaveIds slaves) (new : List WaitEvent) :
    Confirmed (events ++ new) serial clientId offsetSnapshot slaveIds slaves := by
  obtain ⟨before, after, rfl, hn, hslaves⟩ := h
  refine ⟨before, after ++ new, by simp, hn, fun i hi => ?_⟩
  obtain ⟨hin, offset, hacked, hle⟩ := hslaves i hi
  exact ⟨hin, offset, List.mem_append_left _ hacked, hle⟩

theorem Backed.append {count : Nat} (h : Backed events serial clientId count) (new : List WaitEvent) :
    Backed (events ++ new) serial clientId count := by
  obtain ⟨s, ids, slaves, hc, hle⟩ := h
  exact ⟨s, ids, slaves, hc.append new, hle⟩

theorem Confirmed.ack {slaveId : Nat} {offset : Int}
    (h : Confirmed (events ++ [.acked slaveId offset]) serial clientId offsetSnapshot slaveIds slaves)
    (hin : slaveId ∈ slaveIds) (hnew : slaveId ∉ slaves) (hle : offsetSnapshot ≤ offset) :
    Confirmed (events ++ [.acked slaveId offset]) serial clientId offsetSnapshot slaveIds (slaveId :: slaves) := by
  obtain ⟨before, after, heq, hn, hslaves⟩ := h
  refine ⟨before, after, heq, List.nodup_cons.mpr ⟨hnew, hn⟩, fun i hi => ?_⟩
  rcases List.mem_cons.mp hi with rfl | hi
  · rcases snoc_split heq with ⟨_, _, hno⟩ | ⟨after', rfl, _⟩
    · cases hno
    · exact ⟨hin, offset, by simp, hle⟩
  · exact hslaves i hi

end

end CmdHandler

namespace RequestRegistry

open CmdHandler

def Owes (r : RequestRegistry) (slaveId clientId : Nat) : Prop := clientId ∈ r.backlogAck.queueOf slaveId

/-- Whom a slave still owes an acknowledgement (`owes`) has its own request, which
was asked of the slave, and whom it does not owe one any more is counted at most
once: no slave that backs a count owes another. -/
structure Credits (r : RequestRegistry) (events : List WaitEvent) (owes : Nat → Nat → Prop) : Prop where
  owner : ∀ i x t e, owes i x → r.backlogWait.lookup x = some t → r.store.lookup t = some e → e.kind.isWait = true →
    e.clientId = x ∧ i ∈ e.kind.slaveIds
  backed : ∀ t e requiredCount actualCount offsetSnapshot slaveIds epollFd, r.store.lookup t = some e →
    e.kind = .wait requiredCount actualCount offsetSnapshot slaveIds epollFd →
    ∃ ids slaves, Confirmed events e.serial e.clientId offsetSnapshot ids slaves ∧ (∀ i ∈ slaveIds, i ∈ ids) ∧
      actualCount ≤ slaves.length ∧ ∀ i ∈ slaves, ∀ x, owes i x → r.backlogWait.lookup x ≠ some t

structure Waits (r : RequestRegistry) (events : List WaitEvent) : Prop where
  once : ∀ i, (r.backlogAck.queueOf i).Nodup
  credits : r.Credits events r.Owes

section
variable {r r' : RequestRegistry} {events : List WaitEvent} {owes owes' : Nat → Nat → Prop}

theorem Credits.append (h : r.Credits events owes) (new : List WaitEvent) : r.Credits (events ++ new) owes := by
  refine ⟨h.owner, fun t e n k s ids fd he hk => ?_⟩
  obtain ⟨ids', slaves, hc, hids, hle, hfree⟩ := h.backed t e n k s ids fd he hk
  exact ⟨ids', slaves, hc.append new, hids, hle, hfree⟩

theorem Waits.append (h : r.Waits events) (new : List WaitEvent) : r.Waits (events ++ new) :=
  ⟨h.once, h.credits.append new⟩

theorem Takes.shrinks (h : Takes r r') : Shrinks r r' :=
  h.inv (fun _ _ hr => hr.trans (.of_eq rfl rfl rfl)) (fun g timestamp hr => hr.trans (shrinks_remove g timestamp))
    (.of_eq rfl rfl rfl)

theorem Credits.shrink (h : r.Credits events owes) (hs : Shrinks r r') (hle : ∀ i x, owes' i x → owes i x) :
    r'.Credits events owes' := by
  refine ⟨fun i x t e ho hx he hk => h.owner i x t e (hle i x ho) (hs.wait x t hx) (hs.store t e he) hk, ?_⟩
  intro t e n k s ids fd he hk
  obtain ⟨ids', slaves, hc, hids, hlen, hfree⟩ := h.backed t e n k s ids fd (hs.store t e he) hk
  exact ⟨ids', slaves, hc, hids, hlen, fun i hi x ho hx => hfree i hi x (hle i x ho) (hs.wait x t hx)⟩

theorem Waits.shrink (h : r.Waits events) (hs : Shrinks r r') : r'.Waits events :=
  ⟨fun i => (h.once i).sublist (hs.acks i), h.credits.shrink hs fun i _ ho => (hs.acks i).mem ho⟩

/-! ## A request is stored -/

theorem Waits.insert_other (h : r.Waits events) {timestamp deadline clientId : Nat} {kind : RequestKind}
    (hkind : kind.isWait = false) : (r.insert timestamp deadline clientId kind).Waits events := by
  obtain ⟨_, _, hw, ha⟩ := insert_queues r timestamp deadline clientId kind
  have hwait : (r.insert timestamp deadline clientId kind).backlogWait = r.backlogWait := by
    rw [hw]
    cases kind <;> first | rfl | cases hkind
  have hacks : (r.insert timestamp deadline clientId kind).backlogAck = r.backlogAck := by
    rw [ha]
    cases kind <;> first | rfl | cases hkind
  refine ⟨fun i => by rw [hacks]; exact h.once i, fun i x t e ho hx he hk => ?_, ?_⟩
  · unfold Owes at ho
    rw [hacks] at ho
    rw [hwait] at hx
    rcases insert_lookup he with ⟨_, hk', _⟩ | ⟨_, he⟩
    · rw [hk', hkind] at hk
      cases hk
    · exact h.credits.owner i x t e ho hx he hk
  · intro t e n k s ids fd he hk
    rcases insert_lookup he with ⟨_, hk', _⟩ | ⟨_, he⟩
    · rw [← hk', hk] at hkind
      cases hkind
    · unfold Owes
      rw [hacks, hwait]
      exact h.credits.backed t e n k s ids fd he hk

theorem Waits.insert_wait (h : r.Waits events) {timestamp deadline clientId requiredCount : Nat} {offsetSnapshot : Int}
    {slaveIds asked : List Nat} {epollFd : Option Int} (hn : slaveIds.Nodup) (hasked : ∀ i ∈ slaveIds, i ∈ asked)
    (hfree : ∀ i, ¬ r.Owes i clientId) (hstamp : ∀ i x, r.Owes i x → r.backlogWait.lookup x ≠ some timestamp) :
    (r.insert timestamp deadline clientId (.wait requiredCount 0 offsetSnapshot slaveIds epollFd)).Waits
      (events ++ [.asked r.history.issued clientId offsetSnapshot asked]) := by
  let kind := RequestKind.wait requiredCount 0 offsetSnapshot slaveIds epollFd
  obtain ⟨_, _, hwait, hacks⟩ := insert_queues r timestamp deadline clientId kind
  have howes : ∀ i x, (r.insert timestamp deadline clientId kind).Owes i x →
      r.Owes i x ∧ x ≠ clientId ∨ i ∈ slaveIds ∧ x = clientId := by
    intro i x ho
    unfold Owes at ho
    rw [hacks] at ho
    have hjoined : x ∈ (slaveIds.foldl (fun acks j => HashMap.pushBack j clientId acks) r.backlogAck).queueOf i := ho
    rcases mem_joinAcks.mp hjoined with hold | hnew
    · refine .inl ⟨hold, ?_⟩
      rintro rfl
      exact hfree i hold
    · exact .inr hnew
  have hlookup : ∀ x, (r.insert timestamp deadline clientId kind).backlogWait.lookup x =
      if x = clientId then some timestamp else r.backlogWait.lookup x := by
    intro x
    rw [hwait]
    by_cases hx : x = clientId
    · rw [if_pos hx, hx]
      exact AList.lookup_insert _
    · rw [if_neg hx]
      exact AList.lookup_insert_ne hx
  refine ⟨fun i => ?_, fun i x t e ho hx he hk => ?_, ?_⟩
  · rw [hacks]
    exact nodup_joinAcks hn hfree h.once i
  · rw [hlookup] at hx
    rcases howes i x ho with ⟨hold, hne⟩ | ⟨hi, rfl⟩
    · rw [if_neg hne] at hx
      rcases insert_lookup he with ⟨rfl, _⟩ | ⟨_, he⟩
      · exact absurd hx (hstamp i x hold)
      · exact h.credits.owner i x t e hold hx he hk
    · rw [if_pos rfl, Option.some.injEq] at hx
      rcases insert_lookup he with ⟨_, hk', hc, _⟩ | ⟨hne, _⟩
      · exact ⟨hc, by rw [hk']; exact hi⟩
      · exact absurd hx.symm hne
  · intro t e n k s ids fd he hk
    rcases insert_lookup he with ⟨rfl, hk', hc, hser⟩ | ⟨hne, he⟩
    · rw [hk'] at hk
      cases hk
      rw [hc, hser]
      exact ⟨asked, [], ⟨events, [], rfl, List.nodup_nil, fun i hi => (List.not_mem_nil hi).elim⟩, hasked, le_refl _,
        fun i hi => (List.not_mem_nil hi).elim⟩
    · obtain ⟨ids', slaves, hconf, hids, hle, hslaves⟩ := h.credits.backed t e n k s ids fd he hk
      refine ⟨ids', slaves, hconf.append _, hids, hle, fun i hi x ho hx => ?_⟩
      rw [hlookup] at hx
      rcases howes i x ho with ⟨hold, hne'⟩ | ⟨_, rfl⟩
      · rw [if_neg hne'] at hx
        exact hslaves i hi x hold hx
      · rw [if_pos rfl, Option.some.injEq] at hx
        exact hne hx.symm

/-! ## An acknowledgement -/

/-- A slave acknowledges: it is counted for a client it owes an acknowledgement,
and does not owe it any more. -/
theorem Credits.ack {slaveId id t : Nat} {offset : Int} (h : r.Credits (events ++ [.acked slaveId offset]) owes)
    (hle : ∀ i x, owes' i x → owes i x) (hid : owes slaveId id) (ht : r.backlogWait.lookup id = some t)
    {e : RequestEntry} (he : r.store.lookup t = some e) {requiredCount actualCount : Nat} {offsetSnapshot : Int}
    {slaveIds : List Nat} {epollFd : Option Int}
    (hk : e.kind = .wait requiredCount actualCount offsetSnapshot slaveIds epollFd)
    (hpaid : offsetSnapshot ≤ offset → ¬ owes' slaveId id) :
    Credits { r with store := r.store.modify t (·.setCount (countAck offset offsetSnapshot actualCount)) }
        (events ++ [.acked slaveId offset]) owes' ∧
      Backed (events ++ [.acked slaveId offset]) e.serial id (countAck offset offsetSnapshot actualCount) := by
  obtain ⟨hclient, hslave⟩ := h.owner slaveId id t e hid ht he (by rw [hk]; rfl)
  obtain ⟨ids, slaves, hconf, hids, hlen, hslaves⟩ := h.backed t e _ _ _ _ _ he hk
  rw [hk] at hslave
  have hset : e.setCount (countAck offset offsetSnapshot actualCount) =
      { e with
        kind := .wait requiredCount (countAck offset offsetSnapshot actualCount) offsetSnapshot slaveIds epollFd } := by
    unfold RequestEntry.setCount
    rw [hk]
  -- the slaves that back the new count
  obtain ⟨slaves', hconf', hlen', hslaves'⟩ : ∃ slaves',
      Confirmed (events ++ [.acked slaveId offset]) e.serial e.clientId offsetSnapshot ids slaves' ∧
      countAck offset offsetSnapshot actualCount ≤ slaves'.length ∧
      ∀ i ∈ slaves', ∀ x, owes' i x → r.backlogWait.lookup x ≠ some t := by
    unfold countAck
    by_cases hoff : offsetSnapshot ≤ offset
    · rw [if_pos hoff]
      have hnew : slaveId ∉ slaves := fun hin => hslaves slaveId hin id hid ht
      refine ⟨slaveId :: slaves, hconf.ack (hids slaveId hslave) hnew hoff, by rw [List.length_cons]; omega, ?_⟩
      intro i hi x ho hx
      rcases List.mem_cons.mp hi with rfl | hi
      · have hxc := (h.owner i x t e (hle i x ho) hx he (by rw [hk]; rfl)).1
        rw [hclient] at hxc
        exact hpaid hoff (hxc ▸ ho)
      · exact hslaves i hi x (hle i x ho) hx
    · rw [if_neg hoff]
      exact ⟨slaves, hconf, hlen, fun i hi x ho => hslaves i hi x (hle i x ho)⟩
  refine ⟨⟨fun i x t' e' ho hx he' hk' => ?_, ?_⟩, offsetSnapshot, ids, slaves', hclient ▸ hconf', hlen'⟩
  · by_cases htt : t' = t
    · subst htt
      simp only [HashMap.lookup_modify, he, Option.map_some, Option.some.injEq] at he'
      obtain ⟨hc, hi⟩ := h.owner i x t' e (hle i x ho) hx he (by rw [hk]; rfl)
      rw [← he', hset]
      rw [hk] at hi
      exact ⟨hc, hi⟩
    · simp only [HashMap.lookup_modify_ne htt] at he'
      exact h.owner i x t' e' (hle i x ho) hx he' hk'
  · intro t' e' n k s ids' fd he' hk'
    by_cases htt : t' = t
    · subst htt
      simp only [HashMap.lookup_modify, he, Option.map_some, Option.some.injEq] at he'
      rw [← he', hset] at hk' ⊢
      cases hk'
      exact ⟨ids, slaves', hconf', hids, hlen', hslaves'⟩
    · simp only [HashMap.lookup_modify_ne htt] at he'
      obtain ⟨ids₁, slaves₁, hconf₁, hids₁, hlen₁, hslaves₁⟩ := h.backed t' e' n k s ids' fd he' hk'
      exact ⟨ids₁, slaves₁, hconf₁, hids₁, hlen₁, fun i hi x ho => hslaves₁ i hi x (hle i x ho)⟩

end

end RequestRegistry

namespace CmdHandler

open RequestRegistry

def AllBacked (events told : List WaitEvent) : Prop :=
  ∀ e ∈ told, ∃ serial clientId count, e = .told serial clientId count ∧ Backed events serial clientId count

/-- The clients a slave owes are gone through: those of `ids` are still to come,
and of the others it owes those that are not marked. -/
structure Counting (r : RequestRegistry) (events : List WaitEvent) (slaveId : Nat) (a : AckState) (ids : List Nat) :
    Prop where
  wait : a.handler.registry.backlogWait = r.backlogWait
  acks : a.handler.registry.backlogAck = r.backlogAck
  credits : a.handler.registry.Credits events fun i x => r.Owes i x ∧ (i = slaveId → x ∈ ids ∨ x ∉ a.acked)
  owed : ∀ x ∈ ids, r.Owes slaveId x
  once : ids.Nodup

section
variable {r : RequestRegistry} {events : List WaitEvent} {slaveId id : Nat} {offset : Int} {a a' : AckState}
    {ids : List Nat}

theorem Counting.skip (h : Counting r events slaveId a (id :: ids)) : Counting r events slaveId a ids := by
  refine ⟨h.wait, h.acks, h.credits.shrink (.of_eq rfl rfl rfl) fun i x ⟨ho, hx⟩ => ⟨ho, fun hi => ?_⟩,
    fun x hx => h.owed x (List.mem_cons_of_mem _ hx), (List.nodup_cons.mp h.once).2⟩
  exact (hx hi).imp_left (List.mem_cons_of_mem _)

theorem ackClient_counting (h : Counting r (events ++ [.acked slaveId offset]) slaveId a (id :: ids))
    (hstep : ackClient offset a id = some a') :
    Counting r (events ++ [.acked slaveId offset]) slaveId a' ids ∧
    ∃ told, ackTold offset r.backlogWait a.handler.registry.store (id :: ids) =
        told ++ ackTold offset r.backlogWait a'.handler.registry.store ids ∧
      a'.handler.responseQueue = a.handler.responseQueue ++ told.filterMap toldMessage ∧
      AllBacked (events ++ [.acked slaveId offset]) told := by
  have hnone : AllBacked (events ++ [.acked slaveId offset]) [] := fun e he => (List.not_mem_nil he).elim
  unfold ackClient at hstep
  rw [h.wait] at hstep
  split at hstep
  · cases hstep
  · rename_i t ht
    split at hstep
    · rename_i entry he
      split at hstep
      · rename_i requiredCount actualCount offsetSnapshot slaveIds epollFd hk
        have hid : id ∉ ids := (List.nodup_cons.mp h.once).1
        have hpaid : offsetSnapshot ≤ offset → ¬ (r.Owes slaveId id ∧ (slaveId = slaveId →
            id ∈ ids ∨ id ∉ markAck offset offsetSnapshot a.acked id)) := by
          rintro hoff ⟨_, hin⟩
          rcases hin rfl with hin | hin
          · exact hid hin
          · rw [markAck, if_pos hoff] at hin
            exact hin (by simp)
        have hle : ∀ i x, (r.Owes i x ∧ (i = slaveId → x ∈ ids ∨ x ∉ markAck offset offsetSnapshot a.acked id)) →
            r.Owes i x ∧ (i = slaveId → x ∈ id :: ids ∨ x ∉ a.acked) := by
          rintro i x ⟨ho, hx⟩
          refine ⟨ho, fun hi => (hx hi).imp (List.mem_cons_of_mem _) fun hout hin => hout ?_⟩
          unfold markAck
          split
          · exact List.mem_append_left _ hin
          · exact hin
        obtain ⟨hcredits, hbacked⟩ :=
          h.credits.ack hle ⟨h.owed id (List.mem_cons_self ..), fun _ => .inl (List.mem_cons_self ..)⟩
          (by rw [h.wait]; exact ht) he hk hpaid
        have hnext : ∀ b : AckState, b.handler.registry.store =
              a.handler.registry.store.modify t (·.setCount (countAck offset offsetSnapshot actualCount)) →
            b.handler.registry.backlogWait = a.handler.registry.backlogWait →
            b.handler.registry.backlogAck = a.handler.registry.backlogAck →
            b.acked = markAck offset offsetSnapshot a.acked id →
            Counting r (events ++ [.acked slaveId offset]) slaveId b ids := by
          intro b hs hw hb hacked
          refine ⟨hw.trans h.wait, hb.trans h.acks, ?_, fun x hx => h.owed x (List.mem_cons_of_mem _ hx),
            (List.nodup_cons.mp h.once).2⟩
          rw [hacked]
          exact hcredits.shrink (.of_eq hs hw hb) fun _ _ ho => ho
        simp only at hstep
        split at hstep
        · rename_i hdone
          cases hstep
          refine ⟨hnext _ rfl rfl rfl rfl, [.told entry.serial id (countAck offset offsetSnapshot actualCount)], ?_,
            rfl, ?_⟩
          · simp only [ackTold, ht, he, hk, if_pos hdone]
            rfl
          · intro e hin
            rw [List.mem_singleton.mp hin]
            exact ⟨_, _, _, rfl, hbacked⟩
        · rename_i hwaits
          cases hstep
          refine ⟨hnext _ rfl rfl rfl rfl, [], ?_, by simp, hnone⟩
          simp only [ackTold, ht, he, hk, if_neg hwaits]
      · rename_i hother
        cases hstep
        refine ⟨h.skip, [], ?_, by simp, hnone⟩
        simp only [ackTold, ht, he, List.nil_append]
    · rename_i he
      cases hstep
      refine ⟨h.skip, [], ?_, by simp, hnone⟩
      simp only [ackTold, ht, he, List.nil_append]

theorem ackClients_counting (h : Counting r (events ++ [.acked slaveId offset]) slaveId a ids)
    (hrun : ids.foldlM (ackClient offset) a = some a') :
    Counting r (events ++ [.acked slaveId offset]) slaveId a' [] ∧
    a'.handler.responseQueue = a.handler.responseQueue ++
      (ackTold offset r.backlogWait a.handler.registry.store ids).filterMap toldMessage ∧
    AllBacked (events ++ [.acked slaveId offset]) (ackTold offset r.backlogWait a.handler.registry.store ids) := by
  induction ids generalizing a with
  | nil =>
    cases hrun
    exact ⟨h, by simp [ackTold], fun e he => (List.not_mem_nil he).elim⟩
  | cons id ids ih =>
    rw [List.foldlM_cons, Option.bind_eq_bind, Option.bind_eq_some_iff] at hrun
    obtain ⟨b, hb, hrun⟩ := hrun
    obtain ⟨hnext, told, hsplit, hqueue, htold⟩ := ackClient_counting h hb
    obtain ⟨hlast, hrest, hbacked⟩ := ih hnext hrun
    refine ⟨hlast, ?_, fun e he => ?_⟩
    · rw [hrest, hqueue, hsplit, List.filterMap_append, List.append_assoc]
    · rw [hsplit] at he
      exact (List.mem_append.mp he).elim (htold e) (hbacked e)

/-- An acknowledgement tells what it counts, and the counts are backed. -/
theorem cmdAck_waits {h h' : CmdHandler} {epollFd : Option Int} {res : CmdResult} (hw : h.registry.Waits events)
    (ha : cmdAck h slaveId offset epollFd = some (h', res)) :
    h'.registry.Waits (events ++ [.acked slaveId offset]) ∧
    h'.responseQueue = h.responseQueue ++ (ackTold offset h.registry.backlogWait h.registry.store
      ((h.registry.backlogAck.lookup slaveId).getD [])).filterMap toldMessage ∧
    AllBacked (events ++ [.acked slaveId offset]) (ackTold offset h.registry.backlogWait h.registry.store
      ((h.registry.backlogAck.lookup slaveId).getD [])) := by
  obtain ⟨a, timestamps, hfold, _, _, rfl⟩ := cmdAck_cases ha
  have hstart : Counting h.registry (events ++ [.acked slaveId offset]) slaveId { handler := h }
      ((h.registry.backlogAck.lookup slaveId).getD []) := by
    refine ⟨rfl, rfl, (hw.append _).credits.shrink (.of_eq rfl rfl rfl) fun _ _ ho => ho.1, fun x hx => hx,
      hw.once slaveId⟩
  obtain ⟨hlast, hqueue, hbacked⟩ := ackClients_counting hstart hfold
  have hretain : RequestRegistry.Waits { a.handler.registry with
      backlogAck := a.handler.registry.backlogAck.retain slaveId (· ∉ a.acked) }
          (events ++ [.acked slaveId offset]) := by
    refine ⟨fun i => ?_, hlast.credits.shrink (shrinks_retain _ _ _) fun i x ho => ?_⟩
    · rw [HashMap.queueOf_retain, hlast.acks]
      split
      · exact (hw.once i).filter _
      · exact hw.once i
    · unfold Owes at ho ⊢
      rw [HashMap.queueOf_retain, hlast.acks] at ho
      split at ho
      · obtain ⟨hin, hout⟩ := List.mem_filter.mp ho
        exact ⟨hin, fun _ => .inr (of_decide_eq_true hout)⟩
      · rename_i hne
        exact ⟨ho, fun hi => absurd hi hne⟩
  exact ⟨hretain.shrink (Takes.foldl_remove timestamps _).shrinks, hqueue, hbacked⟩

/-! ## Calls -/

def TruthTold (events : List WaitEvent) : Prop :=
  ∀ pre serial clientId count post, events = pre ++ .told serial clientId count :: post →
    Backed pre serial clientId count

theorem TruthTold.append {new : List WaitEvent} (h : TruthTold events)
    (hnew : ∀ pre serial clientId count post, new = pre ++ .told serial clientId count :: post →
      Backed (events ++ pre) serial clientId count) : TruthTold (events ++ new) := by
  intro pre serial clientId count post heq
  rcases List.append_eq_append_iff.mp heq with ⟨rest, rfl, hrest⟩ | ⟨rest, hevents, hrest⟩
  · exact hnew rest serial clientId count post hrest
  · cases rest with
    | nil =>
      rw [List.append_nil] at hevents
      rw [List.nil_append] at hrest
      have := hnew [] serial clientId count post hrest.symm
      rwa [List.append_nil, hevents] at this
    | cons e rest =>
      rw [List.cons_append, List.cons.injEq] at hrest
      rw [← hrest.1] at hevents
      exact h pre serial clientId count rest hevents

theorem TruthTold.silent {new : List WaitEvent} (h : TruthTold events)
    (hno : ∀ serial clientId count, .told serial clientId count ∉ new) : TruthTold (events ++ new) :=
  h.append fun _ serial clientId count _ heq => absurd (by rw [heq]; simp) (hno serial clientId count)

variable {P : Platform} {o : IterOrder} {h h' : CmdHandler}

/-- The order of a set and the socket aside, a request is the same for all. -/
theorem requestOf_asIs {epollFd : Option Int} {cmd : Cmd} {kind : RequestKind} {timeoutMs : Option Nat}
    (hr : requestOf o h epollFd cmd = some (kind, timeoutMs)) :
    kind.isWait = false ∨ ∃ requiredCount offsetSnapshot slaveIds asked,
      kind = .wait requiredCount 0 offsetSnapshot slaveIds epollFd ∧ (∀ i ∈ slaveIds, i ∈ asked) ∧
      requestOf .asIs h none cmd = some (.wait requiredCount 0 offsetSnapshot asked none, timeoutMs) := by
  obtain ⟨key, rfl⟩ | ⟨keyTs, count, rfl⟩ | ⟨count, stats, rfl, hstats, hno, rfl⟩ := requestOf_wait hr
  · exact .inl rfl
  · exact .inl rfl
  · refine .inr ⟨_, _, _, h.clientTable.listSlave, rfl, fun i hi => (o.perm _).mem_iff.mp hi, ?_⟩
    simp only [requestOf, hstats]
    rw [if_neg hno]
    rfl

theorem waitEvents_call {c : Call} (hack : ∀ offset, c.cmd ≠ .replconf (.ack offset)) :
    waitEvents (.call c) = match requestOf .asIs c.before none c.cmd with
      | some (.wait _ _ offsetSnapshot slaveIds _, _) =>
        [.asked c.before.registry.history.issued c.clientId offsetSnapshot slaveIds]
      | _ => [] := by
  unfold waitEvents
  split
  · rename_i heq
    cases heq
    split
    · rename_i offset hcmd
      exact absurd hcmd (hack offset)
    · rfl
  · rename_i heq
    cases heq
  · rename_i heq
    cases heq

theorem waitEvents_silent {c : Call} (hack : ∀ offset, c.cmd ≠ .replconf (.ack offset)) (serial clientId count : Nat) :
    .told serial clientId count ∉ waitEvents (.call c) := by
  rw [waitEvents_call hack]
  split <;> simp

/-- A WAIT is asked for by a client that no slave owes an acknowledgement, and no
client that a slave owes one has a WAIT of the same millisecond. -/
def Call.Alone (c : Call) : Prop :=
  ∀ kind timeoutMs, requestOf .asIs c.before none c.cmd = some (kind, timeoutMs) → kind.isWait = true →
    (∀ i, ¬ c.before.registry.Owes i c.clientId) ∧
      ∀ i x, c.before.registry.Owes i x → c.before.registry.backlogWait.lookup x ≠ some c.before.registry.timer.now

theorem Call.Made.waits {c : Call} (hm : Call.Made P o c) (halone : c.Alone) (hw : c.before.registry.Waits events)
    (ht : TruthTold events) :
    c.after.registry.Waits (events ++ waitEvents (.call c)) ∧ TruthTold (events ++ waitEvents (.call c)) := by
  obtain ⟨_, _, exec, s, d, fd, ser, out, _, hs, hexec, hd, hc⟩ := hm
  have hafter : c.after.registry = d.registry := conclude_registry hc
  have hprep : (c.before.prepared c.cmd s).registry.Waits events := hw.shrink (.of_eq rfl rfl rfl)
  rw [hafter]
  by_cases hack : ∃ offset, c.cmd = .replconf (.ack offset)
  · obtain ⟨offset, hcmd⟩ := hack
    have ha : cmdAck (c.before.prepared c.cmd s) c.clientId offset fd = some (d, c.result) := by
      rw [hcmd] at hd ⊢
      exact hd
    have hevents : waitEvents (.call c) = [.acked c.clientId offset] ++
        ackTold offset c.before.registry.backlogWait c.before.registry.store
          ((c.before.registry.backlogAck.lookup c.clientId).getD []) := by
      simp only [waitEvents, hcmd, List.singleton_append]
    obtain ⟨hwaits, _, hbacked⟩ := cmdAck_waits hprep ha
    rw [hevents, ← List.append_assoc]
    refine ⟨hwaits.append _, TruthTold.append ?_ fun pre serial clientId count post heq => ?_⟩
    · exact ht.silent fun serial clientId count hin => by cases List.mem_singleton.mp hin
    · have hin : .told serial clientId count ∈ ackTold offset c.before.registry.backlogWait c.before.registry.store
          ((c.before.registry.backlogAck.lookup c.clientId).getD []) := by
        rw [heq]
        simp
      obtain ⟨_, _, _, htold, hb⟩ := hbacked _ hin
      cases htold
      exact hb.append pre
  · have hno : ∀ offset, c.cmd ≠ .replconf (.ack offset) := fun offset h => hack ⟨offset, h⟩
    refine ⟨?_, ht.silent (waitEvents_silent hno)⟩
    have heff := dispatch_effect hexec hd
    generalize c.result = r at heff
    cases heff with
    | value | slave | channels | publish | users => exact (hprep.shrink (.of_eq rfl rfl rfl)).append _
    | session =>
      refine Waits.append (hprep.shrink ?_) _
      exact .of_eq rfl rfl rfl
    | ack hcmd => exact absurd hcmd (hno _)
    | request hr _ =>
      rw [requestOf_prepared hs] at hr
      rcases requestOf_asIs hr with hother | ⟨n, snapshot, slaveIds, asked, rfl, hasked, hasIs⟩
      · exact (hprep.insert_other hother).append _
      · obtain ⟨hfree, hstamp⟩ := halone _ _ hasIs rfl
        rw [waitEvents_call hno, hasIs]
        exact hprep.insert_wait (requestOf_slaveIds hr) hasked hfree hstamp

/-- What an acknowledgement tells is what it puts in the queue of responses. -/
theorem Call.Made.tells {c : Call} (hm : Call.Made P o c) {offset : Int} (hcmd : c.cmd = .replconf (.ack offset))
    (hw : c.before.registry.Waits events) :
    c.after.responseQueue = c.before.responseQueue ++ (waitEvents (.call c)).filterMap toldMessage := by
  obtain ⟨_, _, exec, s, d, fd, ser, out, _, _, _, hd, hc⟩ := hm
  have hprep : (c.before.prepared c.cmd s).registry.Waits events := hw.shrink (.of_eq rfl rfl rfl)
  have ha : cmdAck (c.before.prepared c.cmd s) c.clientId offset fd = some (d, c.result) := by
    rw [hcmd] at hd ⊢
    exact hd
  have hnone : c.result = .ok none := (cmdAck_cases ha).choose_spec.choose_spec.2.2.1
  rw [hnone] at hc
  cases hc
  rw [(cmdAck_waits hprep ha).2.1]
  simp only [waitEvents, hcmd, List.filterMap_cons, toldMessage]
  rfl

theorem expire_tells (hs : Steps P h (o, .expire) h') {entry : RequestEntry} (hn : h.nearest = some entry)
    (hwait : entry.kind.isWait = true) :
    h'.responseQueue = h.responseQueue ++ (waitEvents (.expired entry)).filterMap toldMessage := by
  obtain ⟨⟨d, t⟩, hfirst, hentry⟩ := Option.bind_eq_some_iff.mp hn
  have hstored : h.disarm.registry.store.lookup t = some entry := hentry
  have hnearest : h.disarm.registry.deadline.first? = some (d, t) := hfirst
  obtain ⟨d', t', hfirst', hcases⟩ := callbackDeadlineExpire_cases (step_expire hs).2
  rw [hnearest] at hfirst'
  cases hfirst'
  rw [hstored] at hcases
  obtain ⟨entry', heq, hd⟩ | ⟨hno, _⟩ := hcases
  · cases heq
    cases hk : entry.kind with
    | wait requiredCount actualCount offsetSnapshot slaveIds epollFd =>
      simp only [deadlineTask, hk] at hd
      obtain ⟨_, _, rfl⟩ := Option.map_eq_some_iff.mp hd
      simp only [waitEvents, hk, List.filterMap_cons, toldMessage]
      rfl
    | list | stream =>
      rw [hk] at hwait
      cases hwait
  · cases hno

/-! ## Runs -/

def Alone (P : Platform) (h : CmdHandler) (label : IterOrder × Event) : Prop := ∀ c ∈ h.calls P label, c.Alone

theorem step_waits {label : IterOrder × Event} (hs : Steps P h label h') (halone : Alone P h label)
    (hw : h.registry.Waits events) (ht : TruthTold events) :
    h'.registry.Waits (events ++ (happenings P h label).flatMap waitEvents) ∧
      TruthTold (events ++ (happenings P h label).flatMap waitEvents) := by
  obtain ⟨o, e⟩ := label
  have hserved : ∀ l : List (RequestEntry × RespType),
      (l.map fun r => Happening.served r.1 r.2).flatMap waitEvents = [] := by
    intro l
    induction l with
    | nil => rfl
    | cons r l ih =>
      rw [List.map_cons, List.flatMap_cons, ih]
      rfl
  cases e with
  | handle cmd buf clientId epollFd =>
    obtain ⟨⟨g, out⟩, hh, rfl⟩ := Option.map_eq_some_iff.mp hs
    refine handle_calls (I := fun g cs => g.registry.Waits (events ++ (cs.map Happening.call).flatMap waitEvents) ∧
      TruthTold (events ++ (cs.map Happening.call).flatMap waitEvents)) ?_ ?_ ?_ hh ?_
    · exact fun g t cs hg => ⟨hg.1.shrink (.of_eq rfl rfl rfl), hg.2⟩
    · exact fun _ _ g cs hg => ⟨hg.1.shrink (.of_eq rfl rfl rfl), hg.2⟩
    · rintro c cs hc hm _ ⟨hbefore, htold⟩
      have hcall := hm.waits (halone c hc) hbefore htold
      rw [List.append_assoc] at hcall
      simpa using hcall
    · simpa using ⟨hw, ht⟩
  | serveBacklogList =>
    cases hs
    have hnone : (happenings P h (o, .serveBacklogList)).flatMap waitEvents = [] := by
      simp only [happenings]
      split
      · exact hserved _
      · rfl
    rw [hnone, List.append_nil]
    refine ⟨?_, ht⟩
    unfold serveBacklogList
    split
    · exact hw.shrink (serve_takes ..).shrinks
    · exact hw
  | serveBacklogStream =>
    cases hs
    have hnone : (happenings P h (o, .serveBacklogStream)).flatMap waitEvents = [] := by
      simp only [happenings]
      split
      · exact hserved _
      · rfl
    rw [hnone, List.append_nil]
    refine ⟨?_, ht⟩
    unfold serveBacklogStream
    split
    · exact hw.shrink (serve_takes ..).shrinks
    · exact hw
  | expire =>
    have hdisarm : Shrinks h.registry h.disarm.registry := .of_eq rfl rfl rfl
    refine ⟨(hw.shrink (hdisarm.trans (callbackDeadlineExpire_takes (step_expire hs).2).shrinks)).append _,
      ht.append ?_⟩
    intro pre serial clientId count post heq
    simp only [happenings] at heq
    cases hn : h.nearest with
    | none =>
      rw [hn] at heq
      cases pre <;> cases heq
    | some entry =>
      obtain ⟨d, _, hentry⟩ := Option.bind_eq_some_iff.mp hn
      rw [hn] at heq
      simp only [Option.toList_some, List.map_cons, List.map_nil, List.flatMap_cons, List.flatMap_nil, List.append_nil,
        waitEvents] at heq
      split at heq
      · rename_i hk
        obtain ⟨ids, slaves, hconf, _, hle, _⟩ := hw.credits.backed _ _ _ _ _ _ _ hentry hk
        cases pre with
        | nil =>
          cases heq
          exact Backed.append ⟨_, ids, slaves, hconf, hle⟩ []
        | cons _ pre => cases pre <;> cases heq
      · cases pre <;> cases heq
  | process =>
    cases hs
    simpa [happenings] using ⟨hw, ht⟩

theorem waits_new (timer : Timer) : (RequestRegistry.new timer).Waits [] := by
  have hacks : ∀ i, (RequestRegistry.new timer).backlogAck.queueOf i = [] := fun i => by
    rw [HashMap.queueOf, show (RequestRegistry.new timer).backlogAck.lookup i = none from AList.lookup_empty i]
    rfl
  refine ⟨fun i => by rw [hacks]; exact List.nodup_nil, fun i x t e ho => ?_, fun t e _ _ _ _ _ he => ?_⟩
  · unfold Owes at ho
    rw [hacks] at ho
    cases ho
  · rw [show (RequestRegistry.new timer).store.lookup t = none from AList.lookup_empty t] at he
    cases he

def waitTrace (P : Platform) (h : CmdHandler) (labels : List (IterOrder × Event)) : List WaitEvent :=
  (runTrace P h labels).flatMap waitEvents

/-- In a run whose WAITs are alone each count that is told is backed. -/
theorem run_waits {timer : Timer} {appStates : AppStates} {labels : List (IterOrder × Event)}
    (hr : Run (guarded (Alone P) (Steps P)) (.new timer appStates) labels h) {pre post : List WaitEvent}
    {serial clientId count : Nat}
    (ht : waitTrace P (.new timer appStates) labels = pre ++ .told serial clientId count :: post) :
    ∃ offsetSnapshot slaveIds slaves, Confirmed pre serial clientId offsetSnapshot slaveIds slaves ∧
      count ≤ slaves.length := by
  let I : CmdHandler → List Happening → Prop := fun g trace =>
    g.registry.Waits (trace.flatMap waitEvents) ∧ TruthTold (trace.flatMap waitEvents)
  have hzero : I (.new timer appStates) [] := by
    refine ⟨waits_new timer, fun pre _ _ _ _ heq => ?_⟩
    cases pre <;> cases heq
  have hrun : I h ([] ++ runTrace P (.new timer appStates) labels) := by
    refine collect_inv hr (fun g label g' trace ha hs hI => ?_) hzero
    obtain ⟨hwaits, htold⟩ := step_waits hs ha hI.1 hI.2
    exact ⟨by rw [List.flatMap_append]; exact hwaits, by rw [List.flatMap_append]; exact htold⟩
  exact hrun.2 pre serial clientId count post ht

end

/-! ### Concrete runs -/

/-- Client 9 becomes a slave, client 1 writes, and asks for one slave; it acknowledges. -/
def waitOnce : List (IterOrder × Event) :=
  [ask 9 (.psync "?" (-1)), ask 1 (.set "k" "v" none), ask 1 (.wait 1 none), ask 9 (.replconf (.ack 1))]

def waitTwice : List (IterOrder × Event) :=
  [ask 9 (.psync "?" (-1)), ask 1 (.set "k" "v" none), ask 1 (.wait 2 none), ask 1 (.wait 2 none),
    ask 9 (.replconf (.ack 1))]

theorem alone_of_no_wait {P : Platform} {h : CmdHandler} {clientId : Nat} {cmd : Cmd} (hne : cmd ≠ .exec)
    (hno : ∀ h : CmdHandler, ∀ kind timeoutMs, requestOf .asIs h none cmd = some (kind, timeoutMs) →
      kind.isWait = false) :
    Alone P h (ask clientId cmd) := by
  intro c hc kind timeoutMs hr hk
  rw [(calls_direct hne hc).2] at hr
  rw [hno _ kind timeoutMs hr] at hk
  cases hk

theorem run_waits_once : ∃ offsetSnapshot slaveIds slaves,
    Confirmed [.asked 0 1 1 [9], .acked 9 1] 0 1 offsetSnapshot slaveIds slaves ∧ 1 ≤ slaves.length := by
  have hwait : Alone .blank (play ticking (waitOnce.take 2)) (ask 1 (.wait 1 none)) := by
    intro c hc kind timeoutMs _ _
    have hbefore := (calls_direct (by simp) hc).1
    have hfree : ∀ i x, ¬ c.before.registry.Owes i x := by
      intro i x ho
      unfold Owes at ho
      rw [hbefore, HashMap.queueOf, show (play ticking (waitOnce.take 2)).registry.backlogAck = ∅ from rfl,
        AList.lookup_empty] at ho
      cases ho
    exact ⟨fun i => hfree i _, fun i x ho => absurd ho (hfree i x)⟩
  have hrun : Run (guarded (Alone .blank) (Steps .blank)) (.new ticking.registry.timer startup.appStates) waitOnce
      (play ticking waitOnce) :=
    .cons ⟨alone_of_no_wait (by simp) (by simp [requestOf]), rfl⟩
      (.cons ⟨alone_of_no_wait (by simp) (by simp [requestOf]), rfl⟩
        (.cons ⟨hwait, rfl⟩ (.cons ⟨alone_of_no_wait (by simp) (by simp [requestOf]), rfl⟩ .nil)))
  exact run_waits hrun (show waitTrace .blank ticking waitOnce = [.asked 0 1 1 [9], .acked 9 1] ++
    .told 0 1 1 :: [] from rfl)

/-- One slave acknowledges, and the count is two. -/
theorem waits_overcounted : Run (Steps .blank) ticking waitTwice (play ticking waitTwice) ∧
    waitTrace .blank ticking waitTwice = [.asked 0 1 1 [9], .asked 1 1 1 [9], .acked 9 1] ++ [.told 1 1 2] ∧
    ¬ Backed [.asked 0 1 1 [9], .asked 1 1 1 [9], .acked 9 1] 1 1 2 := by
  refine ⟨.cons rfl (.cons rfl (.cons rfl (.cons rfl (.cons rfl .nil)))), rfl, ?_⟩
  rintro ⟨s, ids, slaves, ⟨before, after, heq, hn, hslaves⟩, hle⟩
  have hsub : slaves ⊆ [9] := by
    intro i hi
    obtain ⟨_, offset, hacked, _⟩ := hslaves i hi
    have hin : .acked i offset ∈ [WaitEvent.asked 0 1 1 [9], .asked 1 1 1 [9], .acked 9 1] := by
      rw [heq]
      simp [hacked]
    have hsender : i = 9 ∧ offset = 1 := by simpa using hin
    exact List.mem_singleton.mpr hsender.1
  have hlen : slaves.length ≤ 1 := (List.subperm_of_subset hn hsub).length_le
  omega

end CmdHandler

end Redis
