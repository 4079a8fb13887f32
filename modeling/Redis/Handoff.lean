import Redis.Calls
import Redis.BlockedSound

/-!
# What happens in a step

Beside its calls a step serves requests and lets one run out. `happenings` lists
all of it, in order, with the replies; `collect` makes the trace of a run of it.
A list loses its items to the replies, from the front, and gains what is pushed,
at the back.
-/

namespace Redis

open Lib RequestRegistry

namespace CmdHandler

def taskReply (h : CmdHandler) (entry : RequestEntry) : Option RespType :=
  match entry.kind with
  | .list key =>
    match listItems h.data key with
    | item :: _ => some (poppedReply key item)
    | [] => none
  | .stream keyTs count => some ((readStreams h.data count keyTs).getD .nullArray)
  | .wait .. => none

def taskReplies : CmdHandler → List RequestEntry → List (RequestEntry × RespType)
  | _, [] => []
  | h, e :: es => ((h.taskReply e).map fun t => (e, t)).toList ++ taskReplies (h.backlogTask e) es

def serveReplies (served : RequestKind → Bool) (h : CmdHandler) (timestamps : List Nat) :
    List (RequestEntry × RespType) :=
  let taken := takeOut served h.registry timestamps
  taskReplies { h with registry := taken.1 } taken.2

inductive Happening where
  | call (c : Call)
  | served (entry : RequestEntry) (reply : RespType)
  | expired (entry : RequestEntry)

def nearest (h : CmdHandler) : Option RequestEntry :=
  h.registry.getNearestDeadline.bind fun d => h.registry.store.lookup d.2

def happenings (P : Platform) (h : CmdHandler) (label : IterOrder × Event) : List Happening :=
  match label.2 with
  | .handle .. => (h.calls P label).map .call
  | .serveBacklogList =>
    if h.flagBacklogList then
      (h.serveReplies RequestKind.isList (h.listTimestamps label.1)).map fun r => .served r.1 r.2
    else []
  | .serveBacklogStream =>
    if h.flagBacklogStream then
      (h.serveReplies RequestKind.isStream (h.streamTimestamps label.1)).map fun r => .served r.1 r.2
    else []
  | .expire => h.nearest.toList.map .expired
  | .process .. => []

def runTrace (P : Platform) (h : CmdHandler) (labels : List (IterOrder × Event)) : List Happening :=
  collect P (happenings P) h labels

/-! ## The replies are sent -/

theorem backlogTask_queue (h : CmdHandler) (entry : RequestEntry) : (h.backlogTask entry).responseQueue =
    h.responseQueue ++ (h.taskReply entry).toList.map fun t => (entry.clientId, t.frame) := by
  unfold backlogTask taskReply
  cases hk : entry.kind with
  | list key =>
    simp only
    split
    · rename_i item items x hl
      have hitems : listItems h.data key = item :: items := by simp [listItems, hl]
      simp [hitems, answer, pushResponse]
    · rename_i hno
      cases hitems : listItems h.data key with
      | nil => simp
      | cons item items =>
        obtain ⟨x, hx⟩ := lookup_of_listItems hitems
        exact absurd hx (hno item items x)
  | stream keyTs count =>
    simp only
    cases readStreams h.data count keyTs <;> simp [answer, pushResponse]
  | wait => simp

theorem taskReplies_queue (es : List RequestEntry) (h : CmdHandler) : (es.foldl backlogTask h).responseQueue =
    h.responseQueue ++ (taskReplies h es).map fun r => (r.1.clientId, r.2.frame) := by
  induction es generalizing h with
  | nil => simp [taskReplies]
  | cons e es ih =>
    rw [List.foldl_cons, ih, backlogTask_queue, taskReplies, List.map_append, List.append_assoc]
    congr 2
    cases h.taskReply e <;> rfl

/-- What is served is what is put in the queue of responses. -/
theorem serve_queue (served : RequestKind → Bool) (h : CmdHandler) (ts : List Nat) :
    (h.serve served ts).responseQueue =
      h.responseQueue ++ (h.serveReplies served ts).map fun r => (r.1.clientId, r.2.frame) :=
  taskReplies_queue (takeOut served h.registry ts).2 { h with registry := (takeOut served h.registry ts).1 }

/-! ## Items that come and go -/

def bulks : RespType → List String
  | .bulkStr _ (some s) => [s]
  | .array _ (some ts) =>
    ts.filterMap fun t =>
      match t with
      | .bulkStr _ (some s) => some s
      | _ => none
  | _ => []

def ofValue (r : CmdResult) (f : RespType → List String) : List String :=
  match r with
  | .ok (some t) => f t
  | _ => []

def blpopItem (t : RespType) : List String := (bulks t).drop 1

namespace Happening

def pushed (key : String) : Happening → List String
  | call c =>
    match c.cmd with
    | .rpush k value => if k = key then ofValue c.result fun _ => value else []
    | _ => []
  | _ => []

def popped (key : String) : Happening → List String
  | call c =>
    match c.cmd with
    | .lpop k _ => if k = key then ofValue c.result bulks else []
    | .blpop k _ => if k = key then ofValue c.result blpopItem else []
    | _ => []
  | served entry t => if entry.kind = .list key then blpopItem t else []
  | _ => []

end Happening

def pushedItems (key : String) (trace : List Happening) : List String := trace.flatMap (Happening.pushed key)

def poppedItems (key : String) (trace : List Happening) : List String := trace.flatMap (Happening.popped key)

@[simp] theorem pushedItems_append (key : String) (l l' : List Happening) :
    pushedItems key (l ++ l') = pushedItems key l ++ pushedItems key l' := List.flatMap_append

@[simp] theorem poppedItems_append (key : String) (l l' : List Happening) :
    poppedItems key (l ++ l') = poppedItems key l ++ poppedItems key l' := List.flatMap_append

def OnlyQueues (P : Platform) (key : String) (h : CmdHandler) (label : IterOrder × Event) : Prop :=
  ∀ c ∈ h.calls P label, c.cmd.target = some key →
    (∃ value, c.cmd = .rpush key value) ∨ (∃ length, c.cmd = .lpop key length) ∨
      ∃ timeoutMs, c.cmd = .blpop key timeoutMs

section
variable {P : Platform} {o : IterOrder} {key : String}

theorem bulks_arrayOf (items : List String) : bulks (.arrayOf (items.map .bulk)) = items := by
  cases items with
  | nil => rfl
  | cons s items => simp [bulks, RespType.arrayOf, RespType.bulk, List.filterMap_map, Function.comp_def]

theorem listItems_setList {data : Data} {items rest : List String} {x : Option Nat}
    (hl : data.lookup key = some ⟨.list items, x⟩) : listItems (setList data key rest) key = rest := by
  unfold listItems setList
  rw [HashMap.lookup_modify, hl]
  rfl

theorem listItems_of_lookup {data : Data} {items : List String} {x : Option Nat}
    (hl : data.lookup key = some ⟨.list items, x⟩) : listItems data key = items := by
  simp [listItems, hl]

theorem rpush_items {data data' : Data} {value : List String} {r : CmdResult}
    (hp : cmdRpush data key value = (data', r)) :
    listItems data' key = listItems data key ++ ofValue r fun _ => value := by
  have hl := HashMap.lookup_orInsert key { value := StoreValue.list [], expiredAt := none } data
  unfold cmdRpush push at hp
  simp only at hp
  split at hp
  · rename_i items x hitems
    cases hp
    rw [hl, Option.some.injEq] at hitems
    have hbefore : listItems data key = items := by
      cases hd : data.lookup key with
      | none =>
        rw [hd] at hitems
        cases hitems
        simp [listItems, hd]
      | some item =>
        rw [hd] at hitems
        exact listItems_of_lookup (hd.trans (congrArg some hitems))
    rw [hbefore]
    unfold listItems
    rw [HashMap.lookup_modify, hl]
    rfl
  · rename_i hno
    cases hp
    cases hd : data.lookup key with
    | none =>
      rw [hd] at hl
      exact absurd hl (hno [] none)
    | some item =>
      rw [hd] at hl
      unfold listItems
      rw [hl, hd]
      exact (List.append_nil _).symm

theorem lpop_items {data data' : Data} {length : Option Nat} {r : CmdResult}
    (hp : cmdLpop data key length = (data', r)) : listItems data key = ofValue r bulks ++ listItems data' key := by
  unfold cmdLpop at hp
  split at hp
  · rename_i item hd
    obtain ⟨v, x⟩ := item
    simp only at hp
    split at hp
    · rename_i items
      have hitems := listItems_of_lookup hd
      split at hp
      · rename_i n
        cases hp
        rw [hitems, listItems_setList hd]
        simp only [ofValue, reply]
        rw [bulks_arrayOf, List.take_append_drop]
      · split at hp
        · cases hp
          rw [hitems, listItems_setList hd]
          rfl
        · cases hp
          rfl
    · cases hp
      rfl
  · cases hp
    rfl

theorem blpop_items {data data' : Data} {registry registry' : RequestRegistry} {timeoutMs : Option Nat}
    {clientId now : Nat} {r : CmdResult}
    (hp : cmdBlpop data registry key timeoutMs clientId now = ((data', registry'), r)) :
    listItems data key = ofValue r blpopItem ++ listItems data' key := by
  rcases cmdBlpop_cases hp with ⟨s, items, x, hl, _, rfl, _, rfl⟩ | ⟨rfl, _, rfl⟩ | ⟨_, rfl, _, rfl⟩
  · rw [listItems_of_lookup hl, listItems_setList hl]
    rfl
  · rfl
  · rfl

/-! ## Conservation -/

theorem call_elsewhere {c : Call} (ht : c.cmd.target ≠ some key) :
    (Happening.call c).pushed key = [] ∧ (Happening.call c).popped key = [] := by
  have hne : ∀ k, c.cmd.target = some k → k ≠ key := by
    rintro k hk rfl
    exact ht hk
  cases hc : c.cmd <;> rw [hc] at hne <;> simp only [Happening.pushed, Happening.popped, hc, and_self, true_and]
  · exact ⟨if_neg (hne _ rfl), trivial⟩
  · exact if_neg (hne _ rfl)
  · exact if_neg (hne _ rfl)

theorem Call.Made.items {c : Call} (hm : Call.Made P o c) (honly : c.cmd.target = some key →
      (∃ value, c.cmd = .rpush key value) ∨ (∃ length, c.cmd = .lpop key length) ∨
        ∃ timeoutMs, c.cmd = .blpop key timeoutMs) :
    listItems c.before.data key ++ (Happening.call c).pushed key =
      (Happening.call c).popped key ++ listItems c.after.data key := by
  by_cases ht : c.cmd.target = some key
  · obtain ⟨_, _, exec, s, d, fd, ser, out, _, _, hexec, hd, hc⟩ := hm
    rw [conclude_data hc]
    rcases honly ht with ⟨value, hcmd⟩ | ⟨length, hcmd⟩ | ⟨timeoutMs, hcmd⟩
    · have hitems : listItems d.data key = listItems c.before.data key ++ ofValue c.result fun _ => value := by
        rw [hcmd] at hd
        generalize c.result = r at hd ⊢
        cases hd
        exact rpush_items rfl
      simp [Happening.pushed, Happening.popped, hcmd, hitems]
    · have hitems : listItems c.before.data key = ofValue c.result bulks ++ listItems d.data key := by
        rw [hcmd] at hd
        generalize c.result = r at hd ⊢
        cases hd
        exact lpop_items rfl
      simp [Happening.pushed, Happening.popped, hcmd, hitems]
    · have hitems : listItems c.before.data key = ofValue c.result blpopItem ++ listItems d.data key := by
        rw [hcmd] at hd
        generalize c.result = r at hd ⊢
        cases hd
        exact blpop_items rfl
      simp [Happening.pushed, Happening.popped, hcmd, hitems]
  · obtain ⟨hpushed, hpopped⟩ := call_elsewhere ht
    rw [hpushed, hpopped, List.append_nil, List.nil_append]
    unfold listItems
    rw [hm.elsewhere ht]

theorem backlogTask_popped (h : CmdHandler) (e : RequestEntry) : listItems h.data key =
    poppedItems key ((h.taskReply e).toList.map (.served e)) ++ listItems (h.backlogTask e).data key := by
  rw [backlogTask_items]
  unfold taskReply poppedItems
  cases hk : e.kind with
  | list k =>
    by_cases hkey : k = key
    · subst hkey
      cases hitems : listItems h.data k <;> simp [hitems, Happening.popped, hk, blpopItem, poppedReply, bulks,
        RespType.arrayOf, RespType.bulk]
    · have hne : ¬ RequestKind.list k = .list key := by rwa [RequestKind.list.injEq]
      cases hitems : listItems h.data k <;> simp [hitems, Happening.popped, hk, hkey]
  | stream => simp [Happening.popped, hk]
  | wait => simp

theorem taskReplies_popped (es : List RequestEntry) (h : CmdHandler) : listItems h.data key =
    poppedItems key ((taskReplies h es).map fun r => .served r.1 r.2) ++
      listItems (es.foldl backlogTask h).data key := by
  induction es generalizing h with
  | nil => rfl
  | cons e es ih =>
    have htask : ((h.taskReply e).map fun t => (e, t)).toList.map (fun r => Happening.served r.1 r.2) =
        (h.taskReply e).toList.map (.served e) := by
      cases h.taskReply e <;> rfl
    rw [taskReplies, List.map_append, poppedItems_append, htask, List.append_assoc, List.foldl_cons, ← ih]
    exact backlogTask_popped h e

theorem served_pushed (l : List (RequestEntry × RespType)) :
    pushedItems key (l.map fun r => .served r.1 r.2) = [] := by
  rw [pushedItems, List.flatMap_map]
  exact List.flatMap_eq_nil_iff.mpr fun _ _ => rfl

/-- What a step pops comes off the front of the list, and what it pushes goes to the back. -/
theorem step_items {h h' : CmdHandler} {label : IterOrder × Event} (honly : OnlyQueues P key h label)
    (hs : Steps P h label h') : listItems h.data key ++ pushedItems key (happenings P h label) =
      poppedItems key (happenings P h label) ++ listItems h'.data key := by
  have hserve : ∀ served ts, listItems h.data key =
      poppedItems key ((h.serveReplies served ts).map fun r => .served r.1 r.2) ++
        listItems (h.serve served ts).data key := fun served ts =>
    taskReplies_popped (takeOut served h.registry ts).2 { h with registry := (takeOut served h.registry ts).1 }
  obtain ⟨o, e⟩ := label
  cases e with
  | handle cmd buf clientId epollFd =>
    obtain ⟨⟨g, out⟩, hh, rfl⟩ := Option.map_eq_some_iff.mp hs
    refine handle_calls (I := fun g cs => listItems h.data key ++ pushedItems key (cs.map .call) =
      poppedItems key (cs.map .call) ++ listItems g.data key) (fun _ _ _ hg => hg) (fun _ _ _ _ hg => hg) ?_ hh
      (List.append_nil _)
    intro c cs hc hm _ hI
    have hitems := hm.items (honly c hc)
    rw [List.map_append, pushedItems_append, poppedItems_append, ← List.append_assoc, hI, List.append_assoc,
      List.append_assoc]
    simpa [pushedItems, poppedItems] using hitems
  | serveBacklogList =>
    cases hs
    simp only [happenings, serveBacklogList]
    split
    · rw [served_pushed, List.append_nil]
      exact hserve _ _
    · exact List.append_nil _
  | serveBacklogStream =>
    cases hs
    simp only [happenings, serveBacklogStream]
    split
    · rw [served_pushed, List.append_nil]
      exact hserve _ _
    · exact List.append_nil _
  | expire =>
    have hdisarm := callbackDeadlineExpire_data (step_expire hs).2
    have hdata : h'.data = h.data := hdisarm
    simp only [happenings, hdata]
    cases h.nearest <;> simp [pushedItems, poppedItems, Happening.pushed, Happening.popped]
  | process =>
    cases hs
    exact List.append_nil _

end

end CmdHandler

end Redis
