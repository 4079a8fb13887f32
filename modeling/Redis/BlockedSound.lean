import Redis.Coherent
import Redis.Backlogs

/-!
# Blocked requests

No request is lost, and none is answered twice, as long as the requests that
are stored are admissible. The registry stays coherent, the requests without an
answer are the stored ones, and a request is answered when it is taken out: a
BLPOP that is taken out finds an item, for no more are taken out than there are
items.
-/

namespace Redis

open Lib

namespace RequestRegistry

/-- The numbers of the requests that are stored elsewhere than under `ts`. -/
def Numbers (store : HashMap Nat RequestEntry) (ts : List Nat) (n : Nat) : Prop :=
  ∃ t e, t ∉ ts ∧ store.lookup t = some e ∧ e.serial = n

def Numbered (store : HashMap Nat RequestEntry) : Prop :=
  ∀ t t' e e', store.lookup t = some e → store.lookup t' = some e' → e.serial = e'.serial → t = t'

/-- The registry is coherent, and the requests without an answer are `u`. -/
structure Books (r : RequestRegistry) (u : Nat → Prop) : Prop where
  coherent : r.Coherent
  numbered : Numbered r.store
  tracks : r.history.Tracks u

def Sound (r : RequestRegistry) : Prop := r.Books (Numbers r.store [])

theorem sound_new (timer : Timer) : (RequestRegistry.new timer).Sound := by
  have hs : ∀ t, (RequestRegistry.new timer).store.lookup t = none := fun t => AList.lookup_empty t
  refine ⟨coherent_new timer, fun t t' e e' he => ?_, List.nodup_nil, fun n hn => (List.not_mem_nil hn).elim, ?_⟩
  · rw [hs] at he
    cases he
  · intro n
    simp [Numbers, new]

section
variable {r : RequestRegistry} {u : Nat → Prop} {store : HashMap Nat RequestEntry} {ts : List Nat}

theorem Numbers.congr {ts' : List Nat} (h : ∀ t, t ∈ ts' ↔ t ∈ ts) (n : Nat) :
    Numbers store ts' n ↔ Numbers store ts n := by
  simp [Numbers, h]

theorem Numbered.answer (hn : Numbered store) {t : Nat} {e : RequestEntry} (he : store.lookup t = some e) (n : Nat) :
    Numbers store (t :: ts) n ↔ Numbers store ts n ∧ n ≠ e.serial := by
  constructor
  · rintro ⟨t', e', ht, he', rfl⟩
    rw [List.mem_cons, not_or] at ht
    exact ⟨⟨t', e', ht.2, he', rfl⟩, fun heq => ht.1 (hn t' t e' e he' he heq)⟩
  · rintro ⟨⟨t', e', ht, he', rfl⟩, hne⟩
    refine ⟨t', e', ?_, he', rfl⟩
    rw [List.mem_cons, not_or]
    refine ⟨?_, ht⟩
    rintro rfl
    exact hne (by rw [Option.some.inj (he'.symm.trans he)])

theorem Books.congr (h : r.Books u) {r' : RequestRegistry} (hs : SameRequests r r') (hg : r'.history = r.history)
    {u' : Nat → Prop} (hu : ∀ n, u' n ↔ u n) : r'.Books u' :=
  ⟨h.coherent.congr hs, by rw [hs.store]; exact h.numbered, by rw [hg]; exact h.tracks.congr hu⟩

theorem Sound.congr (h : r.Sound) {r' : RequestRegistry} (hs : SameRequests r r') (hg : r'.history = r.history) :
    r'.Sound := Books.congr h hs hg fun n => by rw [hs.store]

theorem Books.answer (h : r.Books u) {n : Nat} (hn : u n) :
    ({ r with history := r.history.answer n } : RequestRegistry).Books fun m => u m ∧ m ≠ n :=
  ⟨h.coherent.congr ⟨rfl, rfl, rfl, rfl, rfl, rfl⟩, h.numbered, h.tracks.answer hn⟩

theorem Books.remove (h : r.Books u) (t : Nat) : (r.remove t).1.Books u := by
  refine ⟨h.coherent.remove t, fun t₁ t₂ e₁ e₂ h₁ h₂ => ?_, by rw [remove_history]; exact h.tracks⟩
  exact h.numbered t₁ t₂ e₁ e₂ (remove_store h₁) (remove_store h₂)

theorem Sound.insert (h : r.Sound) {timestamp deadline clientId : Nat} {kind : RequestKind}
    (ha : r.Admissible timestamp deadline clientId kind) (hn : kind.slaveIds.Nodup) :
    (r.insert timestamp deadline clientId kind).Sound := by
  have hnone : r.store.lookup timestamp = none := AList.lookup_eq_none.mpr ha.stamp
  have hstore := insert_store r timestamp deadline clientId kind
  -- the numbers in use are smaller than the new one
  have hlt : ∀ t e, r.store.lookup t = some e → e.serial < r.history.issued := fun t e he =>
    ((h.tracks.unanswered e.serial).mp ⟨t, e, List.not_mem_nil, he, rfl⟩).1
  have hcases : ∀ t e, (r.insert timestamp deadline clientId kind).store.lookup t = some e →
      t = timestamp ∧ e.serial = r.history.issued ∨ t ≠ timestamp ∧ r.store.lookup t = some e := by
    intro t e he
    rw [hstore] at he
    by_cases ht : t = timestamp
    · rw [ht, AList.lookup_insert, Option.some.injEq] at he
      exact Or.inl ⟨ht, by rw [← he]⟩
    · exact Or.inr ⟨ht, by rwa [AList.lookup_insert_ne ht] at he⟩
  refine ⟨h.coherent.insert ha hn, ?_, ?_⟩
  · intro t t' e e' he he' hser
    rcases hcases t e he with ⟨ht, hs⟩ | ⟨_, hold⟩ <;> rcases hcases t' e' he' with ⟨ht', hs'⟩ | ⟨_, hold'⟩
    · rw [ht, ht']
    · have := hlt t' e' hold'
      omega
    · have := hlt t e hold
      omega
    · exact h.numbered t t' e e' hold hold' hser
  · rw [insert_history]
    refine h.tracks.issue.congr fun n => ?_
    constructor
    · rintro ⟨t, e, _, he, rfl⟩
      rcases hcases t e he with ⟨_, hs⟩ | ⟨_, he⟩
      · exact Or.inr hs
      · exact Or.inl ⟨t, e, List.not_mem_nil, he, rfl⟩
    · rintro (⟨t, e, _, he, rfl⟩ | rfl)
      · refine ⟨t, e, List.not_mem_nil, ?_, rfl⟩
        rw [hstore, AList.lookup_insert_ne fun heq => ?_]
        · exact he
        · rw [heq, hnone] at he
          cases he
      · exact ⟨timestamp, _, List.not_mem_nil, by rw [hstore, AList.lookup_insert], rfl⟩

theorem Books.setCount (h : r.Books (Numbers r.store ts)) (t n : Nat) :
    ({ r with store := r.store.modify t (·.setCount n) } : RequestRegistry).Books
      (Numbers (r.store.modify t (·.setCount n)) ts) := by
  have hserial : ∀ t' m, (∃ e, (r.store.modify t (·.setCount n)).lookup t' = some e ∧ e.serial = m) ↔
      ∃ e, r.store.lookup t' = some e ∧ e.serial = m :=
    fun t' m => HashMap.exists_modify (fun _ _ => by simp) t'
  refine ⟨h.coherent.setCount t n, fun t₁ t₂ e₁ e₂ h₁ h₂ heq => ?_, h.tracks.congr fun m => ?_⟩
  · obtain ⟨e₁', h₁', hs₁⟩ := (hserial t₁ _).mp ⟨e₁, h₁, rfl⟩
    obtain ⟨e₂', h₂', hs₂⟩ := (hserial t₂ _).mp ⟨e₂, h₂, rfl⟩
    exact h.numbered t₁ t₂ e₁' e₂' h₁' h₂' (by rw [hs₁, hs₂, heq])
  · refine exists_congr fun t' => ?_
    rw [exists_and_left, exists_and_left]
    exact and_congr_right fun _ => hserial t' m

/-! ## Taking requests out -/

theorem foldl_remove_books (h : r.Books u) (ts : List Nat) : (ts.foldl (fun r t => (r.remove t).1) r).Books u :=
  List.foldlRecOn (motive := fun r : RequestRegistry => r.Books u) ts _ h fun _ hr t _ => hr.remove t

theorem foldl_remove_lookup (r : RequestRegistry) (ts : List Nat) (t : Nat) :
    (ts.foldl (fun r t => (r.remove t).1) r).store.lookup t = if t ∈ ts then none else r.store.lookup t := by
  induction ts generalizing r with
  | nil => rfl
  | cons t' ts ih =>
    rw [List.foldl_cons, ih]
    have hr : (r.remove t').1.store.lookup t = if t = t' then none else r.store.lookup t := by
      cases he : r.store.lookup t' with
      | none =>
        rw [remove_none he]
        by_cases ht : t = t'
        · rw [if_pos ht, ht, he]
        · rw [if_neg ht]
      | some entry =>
        rw [(remove_queues he).1]
        by_cases ht : t = t'
        · rw [if_pos ht, ht, AList.lookup_erase]
        · rw [if_neg ht, AList.lookup_erase_ne ht]
    rw [hr]
    by_cases ht : t = t' <;> simp [ht]

theorem numbers_foldl_remove (r : RequestRegistry) (ts : List Nat) (n : Nat) :
    Numbers (ts.foldl (fun r t => (r.remove t).1) r).store [] n ↔ Numbers r.store ts n := by
  unfold Numbers
  refine exists_congr fun t => exists_congr fun e => ?_
  rw [foldl_remove_lookup]
  by_cases ht : t ∈ ts <;> simp [ht]

end

end RequestRegistry

namespace CmdHandler

open RequestRegistry

/-- The requests come out in the order they are asked for. -/
theorem takeOut_entries (served : RequestKind → Bool) (r : RequestRegistry) {ts : List Nat} (hn : ts.Nodup) :
    (takeOut served r ts).2 = ts.filterMap fun t => (r.store.lookup t).filter fun e => served e.kind := by
  induction ts generalizing r with
  | nil => rfl
  | cons t ts ih =>
    obtain ⟨ht, hn⟩ := List.nodup_cons.mp hn
    have hrest : (ts.filterMap fun t' => ((r.remove t).1.store.lookup t').filter fun e => served e.kind) =
        ts.filterMap fun t' => (r.store.lookup t').filter fun e => served e.kind := by
      refine List.filterMap_congr fun t' ht' => ?_
      have hlookup := foldl_remove_lookup r [t] t'
      rw [if_neg (by rw [List.mem_singleton]; rintro rfl; exact ht ht')] at hlookup
      exact congrArg (Option.filter _) hlookup
    have hout : (r.remove t).2 = r.store.lookup t := by
      cases he : r.store.lookup t with
      | none => rw [remove_none he]
      | some e =>
        obtain ⟨_, _, _, _, _, _, hr⟩ := remove_some he
        rw [hr]
    rw [takeOut, hout, ih _ hn, hrest, List.filterMap_cons]
    cases (r.store.lookup t).filter fun e => served e.kind <;> rfl

theorem takeOut_timestamps {served : RequestKind → Bool} {r : RequestRegistry} (hr : r.Lists) {ts : List Nat}
    (hn : ts.Nodup) (hs : ∀ t ∈ ts, ∃ e, r.store.lookup t = some e ∧ served e.kind = true) :
    (takeOut served r ts).2.map (·.timestamp) = ts := by
  rw [takeOut_entries served r hn, List.map_filterMap]
  refine (List.filterMap_congr fun t ht => ?_).trans List.filterMap_some
  obtain ⟨e, he, hserved⟩ := hs t ht
  simp [he, hserved, Option.filter_some, hr.stamp t e he]

/-! ## The tasks -/

theorem backlogTask_registry {g : CmdHandler} {e : RequestEntry} (hgone : g.registry.store.lookup e.timestamp = none)
    (hlist : ∀ key, e.kind = .list key → listItems g.data key ≠ []) (hwait : e.kind.isWait = false) :
    (g.backlogTask e).registry = { g.registry with history := g.registry.history.answer e.serial } := by
  have hrem := remove_none (r := { g.registry with history := g.registry.history.answer e.serial }) hgone
  unfold backlogTask
  split
  · rename_i key hk
    split
    · exact congrArg Prod.fst hrem
    · rename_i hno
      obtain ⟨item, items, hitems⟩ := List.exists_cons_of_ne_nil (hlist key hk)
      obtain ⟨x, hx⟩ := lookup_of_listItems hitems
      exact absurd hx (hno item items x)
  · split
    · rfl
    · exact congrArg Prod.fst hrem
  · rename_i hk
    rw [hk] at hwait
    cases hwait

theorem backlogTask_items (g : CmdHandler) (e : RequestEntry) (key : String) :
    listItems (g.backlogTask e).data key =
      if e.kind = .list key then (listItems g.data key).tail else listItems g.data key := by
  by_cases hk : e.kind = .list key
  · rw [if_pos hk]
    unfold backlogTask
    simp only [hk]
    split
    · rename_i item items x hl
      have hset : (setList g.data key items).lookup key = some ⟨.list items, x⟩ := by
        unfold setList
        rw [HashMap.lookup_modify, hl]
        rfl
      have hbefore : listItems g.data key = item :: items := by simp [listItems, hl]
      have hafter : listItems (setList g.data key items) key = items := by simp [listItems, hset]
      rw [hbefore]
      exact hafter
    · rename_i hno
      cases hitems : listItems g.data key with
      | nil => rfl
      | cons item items =>
        obtain ⟨x, hx⟩ := lookup_of_listItems hitems
        exact absurd hx (hno item items x)
  · rw [if_neg hk]
    unfold listItems
    rw [backlogTask_data fun h => absurd h hk]

/-- A task takes one item, so the lists feed the other requests. -/
theorem fed_tail {g : CmdHandler} {e : RequestEntry} {es : List RequestEntry} (key : String)
    (hfed : (e :: es).countP (fun e => e.kind = .list key) ≤ (listItems g.data key).length) :
    es.countP (fun e => e.kind = .list key) ≤ (listItems (g.backlogTask e).data key).length := by
  rw [List.countP_cons] at hfed
  rw [backlogTask_items]
  by_cases hk : e.kind = .list key
  · simp only [hk, decide_true, if_true, List.length_tail] at hfed ⊢
    omega
  · simp only [hk, decide_false, Bool.false_eq_true, if_false] at hfed ⊢
    omega

theorem tasks_books {store : HashMap Nat RequestEntry} (hnum : Numbered store) {es : List RequestEntry}
    {g : CmdHandler} {done : List Nat} (hb : g.registry.Books (Numbers store done))
    (hes : ∀ e ∈ es, store.lookup e.timestamp = some e ∧ g.registry.store.lookup e.timestamp = none ∧
      e.kind.isWait = false)
    (hn : (es.map (·.timestamp) ++ done).Nodup)
    (hfed : ∀ key, es.countP (fun e => e.kind = .list key) ≤ (listItems g.data key).length) :
    (es.foldl backlogTask g).registry.Books (Numbers store (es.map (·.timestamp) ++ done)) ∧
      (es.foldl backlogTask g).registry.store = g.registry.store := by
  induction es generalizing g done with
  | nil => exact ⟨hb, rfl⟩
  | cons e es ih =>
    obtain ⟨he, hgone, hwait⟩ := hes e (List.mem_cons_self ..)
    rw [List.map_cons, List.cons_append, List.nodup_cons] at hn
    have hout : e.timestamp ∉ done := fun hin => hn.1 (List.mem_append_right _ hin)
    have hreg := backlogTask_registry hgone (fun key hk hno => by
      have := hfed key
      simp [hk, hno] at this) hwait
    have hbooks : (g.backlogTask e).registry.Books (Numbers store (e.timestamp :: done)) := by
      rw [hreg]
      exact (hb.answer ⟨e.timestamp, e, hout, he, rfl⟩).congr ⟨rfl, rfl, rfl, rfl, rfl, rfl⟩ rfl (hnum.answer he)
    have hstore : (g.backlogTask e).registry.store = g.registry.store := by rw [hreg]
    obtain ⟨hlast, hsame⟩ := ih hbooks (fun e' he' => by rw [hstore]; exact hes e' (List.mem_cons_of_mem _ he'))
      (List.perm_middle.nodup_iff.mpr (List.nodup_cons.mpr hn)) fun key => fed_tail key (hfed key)
    refine ⟨hlast.congr ⟨rfl, rfl, rfl, rfl, rfl, rfl⟩ rfl (Numbers.congr fun t => ?_), hsame.trans hstore⟩
    simp only [List.map_cons, List.cons_append, List.mem_cons, List.mem_append]
    tauto

theorem serve_sound {served : RequestKind → Bool} {h : CmdHandler} {ts : List Nat} (hs : h.registry.Sound)
    (hn : ts.Nodup) (hts : ∀ t ∈ ts, ∃ e, h.registry.store.lookup t = some e ∧ served e.kind = true)
    (hwait : ∀ kind, served kind = true → kind.isWait = false)
    (hfed : ∀ key, ts.countP (fun t => t ∈ h.registry.backlogList.queueOf key) ≤ (listItems h.data key).length) :
    (h.serve served ts).registry.Sound := by
  have hstamps := takeOut_timestamps hs.coherent.lists hn hts
  have hreg := takeOut_registry served h.registry ts
  have hentry : ∀ e ∈ (takeOut served h.registry ts).2, h.registry.store.lookup e.timestamp = some e ∧
      served e.kind = true := by
    intro e he
    obtain ⟨hserved, t, _, ht⟩ := takeOut_entry he
    rw [hs.coherent.stamp t e ht]
    exact ⟨ht, hserved⟩
  have hmem : ∀ e ∈ (takeOut served h.registry ts).2, e.timestamp ∈ ts := fun e he =>
    hstamps ▸ List.mem_map_of_mem he
  have hbooks : (takeOut served h.registry ts).1.Books (Numbers h.registry.store []) := by
    rw [hreg]
    exact foldl_remove_books hs ts
  have hcount : ∀ key, (takeOut served h.registry ts).2.countP (fun e => e.kind = .list key) =
      ts.countP (fun t => t ∈ h.registry.backlogList.queueOf key) := by
    intro key
    conv_rhs => rw [← hstamps]
    rw [List.countP_map]
    refine List.countP_congr fun e he => ?_
    simp only [decide_eq_true_eq, Function.comp_apply]
    exact (hs.coherent.list.entry (hentry e he).1).symm
  have hgone : ∀ e ∈ (takeOut served h.registry ts).2, h.registry.store.lookup e.timestamp = some e ∧
      (takeOut served h.registry ts).1.store.lookup e.timestamp = none ∧ e.kind.isWait = false := by
    intro e he
    obtain ⟨hl, hserved⟩ := hentry e he
    refine ⟨hl, ?_, hwait _ hserved⟩
    rw [hreg, foldl_remove_lookup, if_pos (hmem e he)]
  obtain ⟨hlast, hsame⟩ := tasks_books hs.numbered (g := { h with registry := (takeOut served h.registry ts).1 }) hbooks
    hgone (by rw [hstamps, List.append_nil]; exact hn) fun key => (hcount key).trans_le (hfed key)
  refine hlast.congr ⟨rfl, rfl, rfl, rfl, rfl, rfl⟩ rfl fun n => ?_
  have hstore : (h.serve served ts).registry.store = (takeOut served h.registry ts).1.store := hsame
  rw [hstore, hreg, numbers_foldl_remove, hstamps, List.append_nil]

/-! ### What is served -/

section
variable {h : CmdHandler} {o : IterOrder}

theorem lookup_of_mem_order {α β : Type} [DecidableEq α] {m : HashMap α β} {e : α × β}
    (he : e ∈ o.order m.toPairs) : m.lookup e.1 = some e.2 := HashMap.mem_toPairs.mp ((o.perm _).mem_iff.mp he)

theorem nodup_order_keys {α β : Type} [DecidableEq α] (m : HashMap α β) : ((o.order m.toPairs).map Prod.fst).Nodup :=
  ((o.perm _).map _).nodup_iff.mpr m.nodup_toPairs

theorem queueOf_unique (hc : h.registry.Lists) {t : Nat} {key key' : String}
    (ht : t ∈ h.registry.backlogList.queueOf key) (ht' : t ∈ h.registry.backlogList.queueOf key') : key = key' := by
  obtain ⟨e, he, hk⟩ := (hc.list key t).mp ht
  have hk' := (hc.list.entry he).mp ht'
  rw [hk, RequestKind.list.injEq] at hk'
  exact hk'

theorem mem_listTimestamps {t : Nat} (ht : t ∈ h.listTimestamps o) :
    ∃ key, t ∈ h.registry.backlogList.queueOf key := by
  obtain ⟨⟨key, queue⟩, he, ht⟩ := List.mem_flatMap.mp ht
  exact ⟨key, by rw [HashMap.queueOf_of_lookup (lookup_of_mem_order he)]; exact List.mem_of_mem_take ht⟩

theorem listTimestamps_nodup (hc : h.registry.Lists) : (h.listTimestamps o).Nodup := by
  have hqueue : ∀ e ∈ o.order (HashMap.toPairs h.registry.backlogList), h.registry.backlogList.queueOf e.1 = e.2 :=
    fun e he => HashMap.queueOf_of_lookup (lookup_of_mem_order he)
  unfold listTimestamps
  rw [List.nodup_flatMap]
  refine ⟨fun e he => ?_, ?_⟩
  · have hn := hc.queue e.1
    rw [hqueue e he] at hn
    exact hn.sublist (List.take_sublist _ _)
  · refine (List.pairwise_map.mp (nodup_order_keys (o := o) h.registry.backlogList)).imp_of_mem ?_
    intro e e' he he' hne t ht ht'
    refine hne (queueOf_unique hc (t := t) ?_ ?_)
    · rw [hqueue e he]
      exact List.mem_of_mem_take ht
    · rw [hqueue e' he']
      exact List.mem_of_mem_take ht'

/-- Of the requests that are served, those for the list are the first in its queue. -/
theorem listTimestamps_filter (hc : h.registry.Lists) (key : String) :
    (h.listTimestamps o).filter (fun t => t ∈ h.registry.backlogList.queueOf key) =
      (h.registry.backlogList.queueOf key).take (listItems h.data key).length := by
  cases hq : h.registry.backlogList.lookup key with
  | none =>
    have hnil : h.registry.backlogList.queueOf key = [] := by rw [HashMap.queueOf, hq]; rfl
    simp [hnil]
  | some queue =>
    have hqueue := HashMap.queueOf_of_lookup hq
    have hin : (key, queue) ∈ o.order (HashMap.toPairs h.registry.backlogList) :=
      (o.perm _).mem_iff.mpr (HashMap.mem_toPairs.mpr hq)
    unfold listTimestamps
    rw [HashMap.filter_flatMap_key key (nodup_order_keys _) (fun e he hne t ht => ?_) hin fun t ht => ?_]
    · simp only [hqueue]
      rw [Nat.min_comm]
      exact List.take_eq_take_min.symm
    · rw [decide_eq_false_iff_not]
      intro hmem
      refine hne (queueOf_unique hc (t := t) ?_ hmem)
      rw [HashMap.queueOf_of_lookup (lookup_of_mem_order he)]
      exact List.mem_of_mem_take ht
    · rw [decide_eq_true_eq, hqueue]
      exact List.mem_of_mem_take ht

/-- No more requests are taken out of a queue than its list has items. -/
theorem listTimestamps_fed (hc : h.registry.Lists) (key : String) :
    (h.listTimestamps o).countP (fun t => t ∈ h.registry.backlogList.queueOf key) ≤ (listItems h.data key).length := by
  rw [List.countP_eq_length_filter, listTimestamps_filter hc key]
  exact List.length_take_le _ _

theorem serveBacklogList_sound (hs : h.registry.Sound) : (h.serveBacklogList o).registry.Sound := by
  unfold serveBacklogList
  split
  · refine serve_sound hs (listTimestamps_nodup hs.coherent.lists) (fun t ht => ?_) ?_
      (listTimestamps_fed hs.coherent.lists)
    · obtain ⟨key, hin⟩ := mem_listTimestamps ht
      obtain ⟨e, he, hk⟩ := (hs.coherent.list key t).mp hin
      exact ⟨e, he, by rw [hk]; rfl⟩
    · intro kind hk
      cases kind with
      | list => rfl
      | stream | wait => cases hk
  · exact hs

theorem serveBacklogStream_sound (hs : h.registry.Sound) : (h.serveBacklogStream o).registry.Sound := by
  have hstored : ∀ t ∈ h.streamTimestamps o, ∃ e, h.registry.store.lookup t = some e ∧ e.kind.isStream = true := by
    intro t ht
    have hin : t ∈ h.registry.backlogStream := (o.perm _).mem_iff.mp (List.mem_filter.mp ht).1
    exact (hs.coherent.stream () t).mp hin
  unfold serveBacklogStream
  split
  · refine serve_sound hs ?_ hstored ?_ fun key => ?_
    · exact ((o.perm _).nodup_iff.mpr h.registry.backlogStream.keys_nodup).filter _
    · intro kind hk
      cases kind with
      | stream => rfl
      | list | wait => cases hk
    · rw [List.countP_eq_zero.mpr fun t ht => ?_]
      · exact Nat.zero_le _
      · obtain ⟨e, he, hk⟩ := hstored t ht
        simp only [decide_eq_true_eq]
        intro hin
        have hlist := (hs.coherent.list.entry he).mp hin
        rw [hlist] at hk
        cases hk
  · exact hs

/-! ### The timer -/

theorem deadlineTask_registry {g g' : CmdHandler} {e : RequestEntry}
    (hgone : g.registry.store.lookup e.timestamp = none) (hd : g.deadlineTask e = some g') :
    g'.registry = { g.registry with history := g.registry.history.answer e.serial } := by
  obtain ⟨_, rfl⟩ := deadlineTask_cases hd
  exact congrArg Prod.fst (remove_none (r := { g.registry with history := g.registry.history.answer e.serial }) hgone)

/-- What a firing leaves of the registry, if requests are stored under their timestamps. -/
theorem callbackDeadlineExpire_registry {h h' : CmdHandler} (hc : h.callbackDeadlineExpire = some h')
    (hstamp : ∀ t e, h.registry.store.lookup t = some e → e.timestamp = t) :
    ∃ d t, h.registry.deadline.first? = some (d, t) ∧
      ((∃ e, h.registry.store.lookup t = some e ∧
          h'.registry = { (h.registry.remove t).1 with history := (h.registry.remove t).1.history.answer e.serial }) ∨
        h.registry.store.lookup t = none ∧ h' = h) := by
  obtain ⟨d, t, hfirst, ⟨e, he, hd⟩ | hgone⟩ := callbackDeadlineExpire_cases hc
  · have hout : (h.registry.remove t).1.store.lookup e.timestamp = none := by
      rw [hstamp t e he, (remove_queues he).1, AList.lookup_erase]
    exact ⟨d, t, hfirst, .inl ⟨e, he, deadlineTask_registry hout hd⟩⟩
  · exact ⟨d, t, hfirst, .inr hgone⟩

theorem callbackDeadlineExpire_sound {h' : CmdHandler} (hs : h.registry.Sound)
    (hc : h.callbackDeadlineExpire = some h') : h'.registry.Sound := by
  obtain ⟨_, t, _, ⟨e, he, hreg⟩ | ⟨_, rfl⟩⟩ := callbackDeadlineExpire_registry hc hs.coherent.stamp
  · rw [hreg]
    have hnum : Numbers h.registry.store [] e.serial := ⟨t, e, List.not_mem_nil, he, rfl⟩
    refine ((Books.remove hs t).answer hnum).congr ⟨rfl, rfl, rfl, rfl, rfl, rfl⟩ rfl fun n => ?_
    rw [← hs.numbered.answer he]
    exact numbers_foldl_remove h.registry [t] n
  · exact hs

/-! ### Acknowledgements -/

theorem mem_of_mapM {α β : Type} {f : α → Option β} {xs : List α} {ys : List β} (h : xs.mapM f = some ys) {y : β}
    (hy : y ∈ ys) : ∃ x ∈ xs, f x = some y := by
  induction xs generalizing ys with
  | nil =>
    cases h
    cases hy
  | cons x xs ih =>
    simp only [List.mapM_cons, Option.bind_eq_bind, Option.bind_eq_some_iff, Option.pure_def, Option.some.injEq] at h
    obtain ⟨y', hx, ys', hxs, rfl⟩ := h
    rcases List.mem_cons.mp hy with rfl | hy
    · exact ⟨x, List.mem_cons_self .., hx⟩
    · obtain ⟨x', hx', hf⟩ := ih hxs hy
      exact ⟨x', List.mem_cons_of_mem _ hx', hf⟩

/-- What holds while the clients that wait for a slave are gone through: those
that are done are answered and still stored. -/
structure Acked (backlogWait : HashMap Nat Nat) (a : AckState) (ts : List Nat) : Prop where
  waiting : a.handler.registry.backlogWait = backlogWait
  done : a.done.mapM (fun id => backlogWait.lookup id) = some ts
  books : a.handler.registry.Books (Numbers a.handler.registry.store ts)

theorem Acked.client {backlogWait : HashMap Nat Nat} {a a' : AckState} {ts : List Nat} (h : Acked backlogWait a ts)
    {offset : Int} {id : Nat} (hid : id ∉ a.done) (hstep : ackClient offset a id = some a') :
    (a'.done = a.done ∨ a'.done = a.done ++ [id]) ∧ ∃ ts', Acked backlogWait a' ts' := by
  obtain ⟨hw, hdone, hb⟩ := h
  have hsame : (a.done = a.done ∨ a.done = a.done ++ [id]) ∧ ∃ ts', Acked backlogWait a ts' :=
    ⟨Or.inl rfl, ts, hw, hdone, hb⟩
  unfold ackClient at hstep
  split at hstep
  · cases hstep
  · rename_i t ht
    split at hstep
    · rename_i entry he
      split at hstep
      · rename_i requiredCount actualCount offsetSnapshot slaveIds epollFd hk
        have hcount := hb.setCount t (countAck offset offsetSnapshot actualCount)
        simp only at hstep
        split at hstep
        · cases hstep
          refine ⟨Or.inr rfl, ts ++ [t], hw, ?_, ?_⟩
          · rw [List.mapM_append, hdone, ← hw]
            simp [ht]
          · -- no client that is done has this request
            have hnew : t ∉ ts := by
              intro hin
              obtain ⟨c, hc, hl⟩ := mem_of_mapM hdone hin
              rw [← hw] at hl
              obtain ⟨e₁, he₁, _, hc₁⟩ := (hb.coherent.wait c t).mp hl
              obtain ⟨e₂, he₂, _, hc₂⟩ := (hb.coherent.wait id t).mp ht
              rw [he₁, Option.some.injEq] at he₂
              exact hid (by rw [← hc₂, ← he₂, hc₁]; exact hc)
            obtain ⟨e', he', hs'⟩ := (HashMap.exists_modify (p := fun e' => e'.serial = entry.serial)
              (f := (·.setCount (countAck offset offsetSnapshot actualCount))) (k := t) (fun _ _ => by simp) t).mpr
              ⟨entry, he, rfl⟩
            refine (hcount.answer ⟨t, e', hnew, he', hs'⟩).congr ⟨rfl, rfl, rfl, rfl, rfl, rfl⟩ rfl fun n => ?_
            rw [← hs', ← hcount.numbered.answer he']
            exact Numbers.congr (fun t' => by simp [or_comm]) n
        · cases hstep
          exact ⟨Or.inl rfl, ts, hw, hdone, hcount⟩
      · cases hstep
        exact hsame
    · cases hstep
      exact hsame

theorem Acked.clients {backlogWait : HashMap Nat Nat} {offset : Int} {ids : List Nat} {a a' : AckState} {ts : List Nat}
    (h : Acked backlogWait a ts) (hn : (a.done ++ ids).Nodup) (hrun : ids.foldlM (ackClient offset) a = some a') :
    ∃ ts', Acked backlogWait a' ts' := by
  induction ids generalizing a ts with
  | nil =>
    cases hrun
    exact ⟨ts, h⟩
  | cons id ids ih =>
    rw [List.foldlM_cons, Option.bind_eq_bind, Option.bind_eq_some_iff] at hrun
    obtain ⟨b, hb, hrun⟩ := hrun
    have hid : id ∉ a.done := fun hin => (List.nodup_append.mp hn).2.2 id hin id (List.mem_cons_self ..) rfl
    obtain ⟨hdone, ts', h'⟩ := h.client hid hb
    refine ih h' ?_ hrun
    rcases hdone with hdone | hdone
    · rw [hdone]
      exact hn.sublist ((List.sublist_cons_self id ids).append_left a.done)
    · rw [hdone, List.append_assoc]
      exact hn

theorem cmdAck_sound {slaveId : Nat} {offset : Int} {epollFd : Option Int} {h' : CmdHandler} {r : CmdResult}
    (hs : h.registry.Sound) (ha : cmdAck h slaveId offset epollFd = some (h', r)) : h'.registry.Sound := by
  obtain ⟨a, timestamps, hfold, hts, _, rfl⟩ := cmdAck_cases ha
  have hstart : Acked h.registry.backlogWait { handler := h } [] := ⟨rfl, rfl, hs⟩
  obtain ⟨ts, hw, hdone, hb⟩ := hstart.clients (hs.coherent.acks slaveId) hfold
  have heq : ts = timestamps := by
    rw [hw, hdone] at hts
    exact Option.some.inj hts
  subst heq
  have hretain := Books.mk (hb.coherent.retainAcks slaveId (· ∉ a.acked)) hb.numbered hb.tracks
  exact (foldl_remove_books hretain ts).congr ⟨rfl, rfl, rfl, rfl, rfl, rfl⟩ rfl fun n => numbers_foldl_remove _ ts n

end

/-! ## Runs -/

def Distinct (P : Platform) (h : CmdHandler) (label : IterOrder × Event) : Prop :=
  ∀ x, Executes P h label x → x.before.refuses x.clientId x.cmd = false → ∀ epollFd kind timeoutMs,
    requestOf label.1 x.before epollFd x.cmd = some (kind, timeoutMs) →
    x.before.registry.Admissible x.before.registry.timer.now
      (getDeadline timeoutMs x.before.registry.timer.now).2 x.clientId kind

section
variable {P : Platform}

theorem requestOf_slaveIds {o : IterOrder} {h : CmdHandler} {epollFd : Option Int} {cmd : Cmd} {kind : RequestKind}
    {timeoutMs : Option Nat} (hr : requestOf o h epollFd cmd = some (kind, timeoutMs)) : kind.slaveIds.Nodup := by
  have hslaves : h.clientTable.listSlave.Nodup := by
    unfold ClientTable.listSlave
    cases h.clientTable.slaves with
    | none => exact List.nodup_nil
    | some slaves => exact slaves.keys_nodup
  obtain ⟨key, rfl⟩ | ⟨keyTs, count, rfl⟩ | ⟨count, stats, rfl, _, _, rfl⟩ := requestOf_wait hr
  · exact List.nodup_nil
  · exact List.nodup_nil
  · exact (o.perm _).nodup_iff.mpr hslaves

theorem Executes.sound {h : CmdHandler} {label : IterOrder × Event} {x : Execution} (hx : Executes P h label x)
    (hd : Distinct P h label) (hs : x.before.registry.Sound) : x.after.registry.Sound := by
  rcases hx.effect with hsame | ⟨s, dispatched, r, fd, m, ser, heff, hcon, hno, happ⟩
  · rw [hsame]
    exact hs
  · have hafter : x.after.registry = dispatched.registry := conclude_registry hcon
    rw [hafter]
    have hprep : (x.before.prepared x.cmd s).registry.Sound :=
      hs.congr ⟨rfl, rfl, rfl, rfl, rfl, rfl⟩ rfl
    cases heff with
    | value | slave | channels | publish | users => exact hprep
    | session => exact hs.congr ⟨rfl, rfl, rfl, rfl, rfl, rfl⟩ rfl
    | ack _ ha => exact cmdAck_sound hprep ha
    | request hr _ =>
      rw [requestOf_prepared happ] at hr
      obtain ⟨hstamp, hwait, hslot⟩ := hd x hx hno fd _ _ hr
      exact Sound.insert hprep ⟨hstamp, hwait, hslot⟩ (requestOf_slaveIds hr)

theorem step_sound {h h' : CmdHandler} {label : IterOrder × Event} (hstep : Steps P h label h')
    (hd : Distinct P h label) (hs : h.registry.Sound) : h'.registry.Sound := by
  obtain ⟨o, e⟩ := label
  cases e with
  | handle cmd buf clientId epollFd =>
    obtain ⟨⟨g, out⟩, hh, rfl⟩ := Option.map_eq_some_iff.mp hstep
    refine handle_inv (I := fun g => g.registry.Sound) (fun g t w hg => ?_)
      (fun x hx hbefore => hx.sound hd hbefore) hh hs
    exact hg.congr ⟨rfl, rfl, rfl, rfl, rfl, rfl⟩ rfl
  | serveBacklogList =>
    cases hstep
    exact serveBacklogList_sound hs
  | serveBacklogStream =>
    cases hstep
    exact serveBacklogStream_sound hs
  | expire =>
    have hdisarm : h.disarm.registry.Sound := hs.congr ⟨rfl, rfl, rfl, rfl, rfl, rfl⟩ rfl
    exact callbackDeadlineExpire_sound hdisarm (step_expire hstep).2
  | process =>
    cases hstep
    exact hs

/-- The entry is in the queue of its kind, and in the tree if it has a deadline. -/
structure Reachable (r : RequestRegistry) (t : Nat) (entry : RequestEntry) : Prop where
  queue : match entry.kind with
    | .list key => ∃ queue, r.backlogList.lookup key = some queue ∧ t ∈ queue
    | .stream .. => t ∈ r.backlogStream
    | .wait .. => r.backlogWait.lookup entry.clientId = some t
  tree : entry.deadline ≠ 0 → r.deadline.lookup entry.deadline = some t

/-- No request has two answers, and one without an answer has its own entry. -/
structure NothingLost (r : RequestRegistry) : Prop where
  once : r.history.answered.Nodup
  live : ∀ n, n < r.history.issued → n ∉ r.history.answered →
    ∃ t entry, r.store.lookup t = some entry ∧ entry.serial = n ∧ Reachable r t entry

theorem reachable_of_coherent {r : RequestRegistry} (hc : r.Coherent) {t : Nat} {entry : RequestEntry}
    (he : r.store.lookup t = some entry) : Reachable r t entry := by
  refine ⟨?_, fun hd => (hc.tree.entry he).mpr ⟨rfl, hd⟩⟩
  split
  · rename_i key hk
    have hin := (hc.list.entry he).mpr hk
    unfold HashMap.queueOf at hin
    cases hq : r.backlogList.lookup key with
    | none =>
      rw [hq] at hin
      cases hin
    | some queue =>
      rw [hq] at hin
      exact ⟨queue, rfl, hin⟩
  · rename_i hk
    exact (hc.stream.entry (k := ()) he).mpr (by rw [hk]; rfl)
  · rename_i hk
    exact (hc.wait.entry he).mpr ⟨by rw [hk]; rfl, rfl⟩

theorem nothingLost_of_sound {r : RequestRegistry} (hs : r.Sound) : NothingLost r := by
  refine ⟨hs.tracks.once, fun n hn hna => ?_⟩
  obtain ⟨t, entry, _, he, hser⟩ := (hs.tracks.unanswered n).mpr ⟨hn, hna⟩
  exact ⟨t, entry, he, hser, reachable_of_coherent hs.coherent he⟩

/-- When admissible requests only are stored, by the log and in the run, nothing is lost. -/
theorem run_nothingLost {timer : Timer} {appStates : AppStates} {start h : CmdHandler}
    {labels : List (IterOrder × Event)}
    (hb : Begun P (Distinct P) timer appStates start) (hr : Run (guarded (Distinct P) (Steps P)) start labels h) :
    NothingLost h.registry := by
  have hstart : start.registry.Sound :=
    hb.registry (I := RequestRegistry.Sound) (sound_new timer) fun _ _ _ _ hs hg => step_sound hs.2 hs.1 hg
  have hs : h.registry.Sound :=
    hr.inv (I := fun h => h.registry.Sound) (fun _ _ _ _ hs hstep => step_sound hstep.2 hstep.1 hs) hstart
  exact nothingLost_of_sound hs

end

def blpopThenPush : List (IterOrder × Event) :=
  [ask 1 (.blpop "k" (some 100)), ask 2 (.rpush "k" ["a"]), (.asIs, .serveBacklogList)]

theorem run_nothingLost_blpop : NothingLost (play startup blpopThenPush).registry := by
  have hblpop : Steps .blank startup (ask 1 (.blpop "k" (some 100))) (play startup (blpopThenPush.take 1)) := rfl
  have hpush : Steps .blank (play startup (blpopThenPush.take 1)) (ask 2 (.rpush "k" ["a"]))
    (play startup (blpopThenPush.take 2)) := rfl
  have hserve : Steps .blank (play startup (blpopThenPush.take 2)) (.asIs, .serveBacklogList)
    (play startup blpopThenPush) := rfl
  have hb : Begun .blank (Distinct .blank) startup.registry.timer startup.appStates startup := .new {}
  have hrun : Run (guarded (Distinct .blank) (Steps .blank)) startup blpopThenPush (play startup blpopThenPush) := by
    refine .cons ⟨?_, hblpop⟩ (.cons ⟨?_, hpush⟩ (.cons ⟨?_, hserve⟩ .nil))
    · intro x hx _ epollFd kind timeoutMs hr
      cases hx
      have hreq : requestOf .asIs startup epollFd (.blpop "k" (some 100)) = some (.list "k", some 100) := rfl
      cases hreq.symm.trans hr
      exact ⟨AList.notMem_empty 0, nofun, fun _ => ⟨100, le_refl 100, by decide, rfl⟩⟩
    · intro x hx _ epollFd kind timeoutMs hr
      cases hx
      cases hr
    · intro x hx
      cases hx
  exact run_nothingLost hb hrun

/-- Two requests in the same millisecond: the second takes the place of the first. -/
def sameMillisecond : List (IterOrder × Event) := [ask 1 (.blpop "a" none), ask 2 (.blpop "b" none)]

theorem blpop_lost : Run (Steps .blank) startup sameMillisecond (play startup sameMillisecond) ∧
    ¬ NothingLost (play startup sameMillisecond).registry := by
  refine ⟨.cons rfl (.cons rfl .nil), fun hl => ?_⟩
  obtain ⟨t, e, he, hser, _⟩ := hl.live 0 (by decide) (by decide)
  have hstore : (play startup sameMillisecond).registry.store =
      AList.insert 0 ⟨.list "b", 2, 0, 0, 1⟩ (AList.insert 0 ⟨.list "a", 1, 0, 0, 0⟩ ∅) := rfl
  rw [hstore] at he
  by_cases ht : t = 0
  · rw [ht, AList.lookup_insert, Option.some.injEq] at he
    rw [← he] at hser
    cases hser
  · rw [AList.lookup_insert_ne ht, AList.lookup_insert_ne ht, AList.lookup_empty] at he
    cases he

end CmdHandler

end Redis
