import Mathlib
import Redis.ChunkSound
import Redis.Spelling

/-!
# Requests and their spellings

The commands that words can ask for are those that can be spelled out. A client
that spells its commands out has them read one after the other, however many it
sends at once.
-/

namespace Redis

open Lib Lib.Reader

namespace Cmd

section
variable {P : Platform}

/-! ## What can be spelled -/

def Spellable (P : Platform) (cmd : Cmd) : Prop := ∃ ws, cmd.Spelled P ws

theorem yields_int (s : String) : Reader.Yields (Args.int s) FitsI64 := by
  apply yields_lift
  intro i hi
  cases hs : parseInt (2 ^ 63) s with
  | error e =>
    rw [hs] at hi
    cases hi
  | ok j =>
    rw [hs] at hi
    cases hi
    have hbounds := parseInt_bounds (by decide) hs
    exact ⟨by exact_mod_cast hbounds.1, by exact_mod_cast hbounds.2⟩

theorem yields_float (s : String) : Reader.Yields (Args.float P s) fun x => P.parseF64 s = some x := by
  apply yields_lift
  intro x hx
  cases hs : P.parseF64 s with
  | none =>
    rw [hs] at hx
    cases hx
  | some y =>
    rw [hs] at hx
    cases hx
    rfl

theorem yields_set (word : String) (values : List String) :
    Reader.Yields (Args.lift (CmdArg.set word values)) (CmdArg.Made word values) :=
  yields_lift fun _ => CmdArg.set_made

theorem yields_parseStreamId (value : String) (stop : Bool) : Reader.Yields (parseStreamId value stop) IdFits := by
  unfold parseStreamId
  split
  · exact (yields_uint _ _).bind fun _ ht => (yields_uint _ _).bind fun _ hi => yields_pure ⟨ht, hi⟩
  · refine (yields_uint _ _).bind fun _ ht => yields_pure ⟨ht, ?_⟩
    cases stop <;> simp
  · exact yields_fail _

theorem yields_parseStreamIdXrange (value : String) (stop : Bool) :
    Reader.Yields (parseStreamIdXrange value stop) IdFits :=
  yields_ite (yields_pure ⟨Nat.zero_le _, Nat.zero_le _⟩)
    (yields_ite (yields_pure ⟨Nat.le_refl _, Nat.le_refl _⟩) (yields_parseStreamId value stop))

theorem yields_parseStreamIdXread (value : String) : Reader.Yields (parseStreamIdXread value) IdFits :=
  yields_ite (yields_pure ⟨Nat.le_refl _, Nat.le_refl _⟩) (yields_parseStreamId value false)

theorem yields_parseStreamIdXadd (value : String) : Reader.Yields (parseStreamIdXadd value) IdFitsXadd := by
  refine yields_ite (yields_pure rfl) ?_
  split
  · refine (yields_uint _ _).bind fun ts ht => yields_ite (yields_pure ht) ?_
    exact (yields_uint _ _).bind fun seq hi => yields_pure ⟨ht, hi⟩
  · exact yields_fail _

theorem yields_mapM {α β : Type} {f : α → Args β} {p : β → Prop} (hf : ∀ a, Reader.Yields (f a) p) (l : List α) :
    Reader.Yields (l.mapM f) fun bs => ∀ b ∈ bs, p b := by
  induction l with
  | nil => exact yields_pure fun b hb => by cases hb
  | cons a l ih =>
    rw [List.mapM_cons]
    refine (hf a).bind fun b hb => ih.bind fun bs hbs => yields_pure ?_
    simpa using ⟨hb, hbs⟩

theorem yields_options (fuel : Nat) : ∀ count block : Option Nat, (∀ n, count = some n → n ≤ u64Max) →
    (∀ n, block = some n → n ≤ u64Max) → Reader.Yields (xreadOptions count block fuel) fun r =>
      (∀ n, r.1 = some n → n ≤ u64Max) ∧ ∀ n, r.2 = some n → n ≤ u64Max := by
  induction fuel with
  | zero => exact fun count block _ _ => yields_fail _
  | succ fuel ih =>
    intro count block hcount hblock
    have hsome : ∀ n, n ≤ u64Max → ∀ m, some n = some m → m ≤ u64Max := by
      intro n hn m heq
      cases heq
      exact hn
    refine yields_bind fun first => yields_ite (yields_ite (yields_fail _) ?_)
      (yields_ite (yields_ite (yields_fail _) ?_)
      (yields_ite (yields_pure ⟨hcount, hblock⟩) (yields_fail _)))
    · exact yields_bind fun _ => (yields_uint _ _).bind fun n hn => ih _ _ (hsome n hn) hblock
    · exact yields_bind fun _ => (yields_uint _ _).bind fun n hn => ih _ _ hcount (hsome n hn)

theorem spellable_buildSet : Reader.Yields buildSet (Spellable P) := by
  refine yields_bind fun key => yields_bind fun value => yields_bind fun o => ?_
  cases o with
  | none => exact yields_pure ⟨_, rfl⟩
  | some t =>
    refine yields_bind fun word => yields_bind fun v => (yields_set _ _).bind fun arg harg => yields_pure ?_
    obtain ⟨hf, own, hw, hlength⟩ := harg
    exact ⟨_, hf, by rw [hw]; simpa using hlength, rfl⟩

theorem spellable_option {msg msg' : String} {f : CmdArg → Cmd}
    (hspelled : ∀ arg : CmdArg, arg.Fits → arg.words.length ≤ 2 → Spellable P (f arg)) :
    Reader.Yields (do
      let word ← Args.respArg msg
      let value ← Args.respArg msg'
      return f (← Args.lift (CmdArg.set word [value])) : Args Cmd) (Spellable P) := by
  refine yields_bind fun word => yields_bind fun v => (yields_set _ _).bind fun arg harg => yields_pure ?_
  obtain ⟨hf, own, hw, hlength⟩ := harg
  exact hspelled arg hf (by rw [hw]; simpa using hlength)

theorem spellable_ints {msg msg' msg'' : String} {f : String → Int → Int → Cmd}
    (hspelled : ∀ key start stop, FitsI64 start → FitsI64 stop → Spellable P (f key start stop)) :
    Reader.Yields (do
      let key ← Args.respArg msg
      let start ← Args.int (← Args.respArg msg')
      return f key start (← Args.int (← Args.respArg msg'')) : Args Cmd) (Spellable P) :=
  yields_bind fun key => yields_bind fun _ => (yields_int _).bind fun start hstart => yields_bind fun _ =>
    (yields_int _).bind fun stop hstop => yields_pure (hspelled key start stop hstart hstop)

theorem spellable_buildLrange : Reader.Yields buildLrange (Spellable P) :=
  spellable_ints (f := .lrange) fun _ _ _ hstart hstop => ⟨_, hstart, hstop, rfl⟩

theorem spellable_buildZrange : Reader.Yields buildZrange (Spellable P) :=
  spellable_ints (f := .zrange) fun _ _ _ hstart hstop => ⟨_, hstart, hstop, rfl⟩

theorem spellable_buildReplconf : Reader.Yields buildReplconf (Spellable P) :=
  spellable_option (f := .replconf) fun _ hf hw => ⟨_, hf, hw, rfl⟩

theorem spellable_buildConfig : Reader.Yields buildConfig (Spellable P) :=
  spellable_option (f := .config) fun _ hf hw => ⟨_, hf, hw, rfl⟩

theorem spellable_buildLpop : Reader.Yields buildLpop (Spellable P) := by
  refine yields_bind fun key => yields_bind fun o => ?_
  cases o with
  | none => exact yields_pure ⟨_, rfl⟩
  | some t => exact yields_bind fun _ => (yields_uint _ _).bind fun n hn => yields_pure ⟨_, hn, rfl⟩

theorem spellable_buildBlpop : Reader.Yields (buildBlpop P) (Spellable P) := by
  refine yields_bind fun key => yields_bind fun text => (yields_float _).bind fun seconds hparse => ?_
  simp only
  split
  · exact yields_fail _
  · rename_i hpositive
    have hlt : (P.f64.mul seconds (P.f64.lit 1000 0)).lt ⟨0⟩ = false := by simpa using hpositive
    split
    · rename_i hzero
      exact yields_pure ⟨_, text, seconds, hparse, rfl, hlt, (if_pos hzero).symm⟩
    · rename_i hzero
      exact yields_pure ⟨_, text, seconds, hparse, rfl, hlt, (if_neg hzero).symm⟩

theorem spellable_buildXadd : Reader.Yields buildXadd (Spellable P) :=
  yields_bind fun _ => yields_bind fun _ => (yields_parseStreamIdXadd _).bind fun _ hid => yields_bind fun _ =>
    yields_pure ⟨_, hid, rfl⟩

theorem spellable_buildXrange : Reader.Yields buildXrange (Spellable P) :=
  yields_bind fun _ => yields_bind fun _ => yields_bind fun _ => (yields_parseStreamIdXrange _ _).bind fun _ hstart =>
    (yields_parseStreamIdXrange _ _).bind fun _ hstop => yields_pure ⟨_, hstart, hstop, rfl⟩

theorem spellable_buildXread : Reader.Yields buildXread (Spellable P) := by
  have hnone : ∀ n, (none : Option Nat) = some n → n ≤ u64Max := fun _ h => by cases h
  refine yields_bind fun n => (yields_options _ none none hnone hnone).bind fun r hr => ?_
  obtain ⟨count, block⟩ := r
  refine yields_bind fun values => yields_ite (yields_fail _) (yields_bind fun keys => ?_)
  refine (yields_mapM (fun t => yields_bind fun s => yields_parseStreamIdXread s) _).bind fun ids hids => ?_
  refine yields_pure ⟨_, hr.1, hr.2, fun s hs => hids s.2 ?_, rfl⟩
  exact (List.of_mem_zip hs).2

theorem spellable_buildWatch : Reader.Yields buildWatch (Spellable P) := by
  refine yields_bind fun ts => ?_
  simp only
  split
  · exact yields_fail _
  · rename_i hne
    exact yields_pure ⟨_, by simpa using hne, rfl⟩

theorem spellable_buildPsync : Reader.Yields buildPsync (Spellable P) :=
  yields_bind fun _ => yields_bind fun _ => (yields_int _).bind fun _ hoffset => yields_pure ⟨_, hoffset, rfl⟩

theorem spellable_buildWait : Reader.Yields buildWait (Spellable P) := by
  refine yields_bind fun _ => (yields_uint _ _).bind fun count hcount => yields_bind fun _ =>
    (yields_uint _ _).bind fun n hn => yields_pure ?_
  by_cases hzero : n = 0
  · rw [if_pos hzero]
    exact ⟨_, hcount, rfl⟩
  · rw [if_neg hzero]
    exact ⟨_, hcount, Nat.pos_of_ne_zero hzero, hn, rfl⟩

theorem spellable_buildZadd : Reader.Yields (buildZadd P) (Spellable P) :=
  yields_bind fun _ => yields_bind fun text => (yields_float _).bind fun _ hparse => yields_bind fun _ =>
    yields_pure ⟨_, text, hparse, rfl⟩

theorem spellable_buildGeoadd : Reader.Yields (buildGeoadd P) (Spellable P) :=
  yields_bind fun _ => yields_bind fun long => (yields_float _).bind fun x hx => yields_bind fun lat =>
    (yields_float _).bind fun y hy => yields_bind fun _ => yields_pure ⟨_, long, lat, x, y, hx, hy, rfl, rfl, rfl⟩

theorem spellable_buildGeosearch : Reader.Yields (buildGeosearch P) (Spellable P) :=
  yields_bind fun _ => yields_bind fun _ =>
    yields_bind fun long => (yields_float _).bind fun _ hlong =>
    yields_bind fun lat => (yields_float _).bind fun _ hlat => yields_bind fun _ =>
    yields_bind fun radius => (yields_float _).bind fun _ hradius =>
      yields_bind fun _ => yields_pure ⟨_, long, lat, radius, hlong, hlat, hradius, rfl⟩

theorem spellable_buildAcl : Reader.Yields buildAcl (Spellable P) :=
  yields_bind fun _ => yields_bind fun _ => (yields_set _ _).bind fun _ harg => yields_pure ⟨_, harg.1, rfl⟩

theorem spellable_buildSetbit : Reader.Yields buildSetbit (Spellable P) :=
  yields_bind fun _ => yields_bind fun _ => (yields_uint _ _).bind fun _ hoffset => yields_bind fun _ =>
    (yields_uint _ _).bind fun _ hbit => yields_pure ⟨_, hoffset, hbit, rfl⟩

theorem spellable_buildGetbit : Reader.Yields buildGetbit (Spellable P) :=
  yields_bind fun _ => yields_bind fun _ => (yields_uint _ _).bind fun _ hoffset => yields_pure ⟨_, hoffset, rfl⟩

theorem spellable_buildBitcount : Reader.Yields buildBitcount (Spellable P) := by
  refine yields_bind fun key => yields_bind fun n => yields_ite (yields_pure ⟨_, rfl⟩) ?_
  refine yields_bind fun _ => (yields_int _).bind fun start hstart => yields_bind fun _ =>
    (yields_int _).bind fun stop hstop => ?_
  have hlast : ∀ unit, Reader.Yields (do
      if (← Args.remaining) = 0 then return .bitcount key (some ⟨start, stop, unit⟩)
      else Args.fail (.invalidArgument "ERR syntax error") : Args Cmd) (Spellable P) := fun unit =>
    yields_bind fun m => yields_ite (yields_pure ⟨_, hstart, hstop, rfl⟩) (yields_fail _)
  refine yields_bind fun o => ?_
  cases o with
  | none => exact yields_bind fun unit => hlast unit
  | some t => exact yields_bind fun _ => yields_bind fun unit => hlast unit

theorem asciiUpper_idem (s : String) : asciiUpper (asciiUpper s) = asciiUpper s := by
  unfold asciiUpper
  rw [String.toList_ofList, List.map_map]
  congr 1
  apply List.map_congr_left
  intro c _
  exact Char.toUpper_toUpper_eq_toUpper c

theorem spellable_buildBitop : Reader.Yields buildBitop (Spellable P) := by
  refine yields_bind fun op => yields_bind fun _ => yields_bind fun _ => yields_bind fun _ =>
    (yields_set _ _).bind fun arg harg => yields_pure ?_
  obtain ⟨hf, own, hw, _⟩ := harg
  refine ⟨_, hf, fun word hword => ?_, rfl⟩
  rw [hw, List.head?_cons, Option.mem_some_iff] at hword
  rw [← hword]
  exact asciiUpper_idem op

theorem spellable_geodist {args : List String} {cmd : Cmd}
    (h : runBuilder buildGeodist (args.map .bulk) = .ok (.ok cmd)) :
    Spellable P cmd := by
  cases args with
  | nil => cases h
  | cons key members =>
    have hread : buildGeodist ((key :: members).map .bulk) = if 2 ≤ members.length then
        some (.ok (.geodist key (members.take 2), (members.drop 2).map .bulk)) else none := by
      rw [buildGeodist, List.map_cons, bind_apply, respArg_cons]
      simp only [bind_apply, Args.drainTo, List.length_map, RespType.bulk, RespType.getStr]
      by_cases hlength : 2 ≤ members.length
      · rw [if_pos hlength, if_pos hlength]
        simp only [← List.map_take, ← List.map_drop]
        rw [textsUntilError_bulks]
        rfl
      · rw [if_neg hlength, if_neg hlength]
    unfold runBuilder at h
    rw [hread] at h
    by_cases hlength : 2 ≤ members.length
    · rw [if_pos hlength] at h
      cases h
      exact ⟨_, by simpa using hlength, rfl⟩
    · rw [if_neg hlength] at h
      cases h

theorem builders_spellable : ∀ e ∈ builders P, e.1 ≠ "GEODIST" → Reader.Yields e.2 (Spellable P) := by
  intro e he hne
  simp only [builders, List.mem_cons, List.not_mem_nil, or_false] at he
  rcases he with rfl | rfl | rfl | rfl | rfl | rfl | rfl | rfl | rfl | rfl | rfl | rfl | rfl | rfl | rfl | rfl | rfl |
    rfl | rfl | rfl | rfl | rfl | rfl | rfl | rfl | rfl | rfl | rfl | rfl | rfl | rfl | rfl | rfl | rfl | rfl | rfl |
    rfl | rfl | rfl | rfl | rfl | rfl | rfl | rfl | rfl | rfl | rfl | rfl | rfl
  all_goals with_reducible first
    | exact absurd rfl hne
    | exact spellable_buildSet
    | exact spellable_buildLpop
    | exact spellable_buildBlpop
    | exact spellable_buildXadd
    | exact spellable_buildXrange
    | exact spellable_buildXread
    | exact spellable_buildWatch
    | exact spellable_buildPsync
    | exact spellable_buildWait
    | exact spellable_buildZadd
    | exact spellable_buildGeoadd
    | exact spellable_buildGeosearch
    | exact spellable_buildAcl
    | exact spellable_buildSetbit
    | exact spellable_buildGetbit
    | exact spellable_buildBitcount
    | exact spellable_buildBitop
    | exact spellable_buildLrange
    | exact spellable_buildZrange
    | exact spellable_buildReplconf
    | exact spellable_buildConfig
    | simp only [buildEcho, buildGet, buildRpush, buildLpush, buildLlen, buildType, buildIncr, buildInfo, buildKeys,
        buildSubscribe, buildUnsubscribe, buildPublish, buildZrank, buildZcard, buildZscore, buildZrem, buildGeopos,
        buildAuth, buildStrlen]
  all_goals repeat' with_reducible first
    | apply yields_bind
    | intro _
  all_goals exact yields_pure ⟨_, rfl⟩

theorem fromResp_bulks_ok {ws : List String} {cmd : Cmd} (h : fromResp P (.arrayOf (ws.map .bulk)) = .ok (.ok cmd)) :
    ∃ word args b, ws = word :: args ∧ (asciiUpper word, b) ∈ builders P ∧
      runBuilder b (args.map .bulk) = .ok (.ok cmd) := by
  cases ws with
  | nil => cases h
  | cons word args =>
    by_cases hempty : word.utf8ByteSize = 0
    · simp [RespType.arrayOf, RespType.bulk, fromResp, hempty] at h
    · cases hb : (builders P).lookup (asciiUpper word) with
      | none => simp [RespType.arrayOf, RespType.bulk, fromResp, hempty, hb] at h
      | some b =>
        rw [fromResp_bulks hempty hb] at h
        obtain ⟨pre, post, hsplit, _⟩ := List.lookup_eq_some_iff.mp hb
        have hmem : (asciiUpper word, b) ∈ builders P := by
          rw [hsplit]
          exact List.mem_append_right _ (List.mem_cons_self ..)
        exact ⟨word, args, b, rfl, hmem, h⟩

theorem spellable_of_decoded {ws : List String} {cmd : Cmd} (h : fromResp P (.arrayOf (ws.map .bulk)) = .ok (.ok cmd)) :
    Spellable P cmd := by
  obtain ⟨word, args, b, rfl, hb, hrun⟩ := fromResp_bulks_ok h
  by_cases hword : asciiUpper word = "GEODIST"
  · have hlookup : (builders P).lookup (asciiUpper word) = some b := by
      have hb' := lookup_builders hb
      rwa [asciiUpper_idem] at hb'
    have hgeodist : (builders P).lookup (asciiUpper word) = some buildGeodist := by
      rw [hword]
      rfl
    rw [hgeodist] at hlookup
    cases hlookup
    exact spellable_geodist hrun
  · exact runBuilder_ok (builders_spellable _ hb hword) hrun

/-- A command can be asked for if and only if it can be spelled out, and then its
spelling asks for it. -/
theorem decoded_iff_spelled (P : Platform) (cmd : Cmd) :
    ((∃ ws : List String, fromResp P (.arrayOf (ws.map .bulk)) = .ok (.ok cmd)) ↔ ∃ ws, cmd.Spelled P ws) ∧
    ∀ ws, cmd.Spelled P ws → fromResp P (.arrayOf (ws.map .bulk)) = .ok (.ok cmd) := by
  refine ⟨⟨?_, ?_⟩, fun ws h => h.decodes⟩
  · intro h
    obtain ⟨ws, hdecoded⟩ := h
    exact spellable_of_decoded hdecoded
  · intro h
    obtain ⟨ws, hspelled⟩ := h
    exact ⟨ws, hspelled.decodes⟩

theorem decoded_iff_spelled_set :
    fromResp .blank (.arrayOf (["SET", "k", "v", "EX", "10"].map .bulk)) =
      .ok (.ok (.set "k" "v" (some (.ex (some 10))))) :=
  (decoded_iff_spelled .blank (.set "k" "v" (some (.ex (some 10))))).2 _
    ⟨show 10 ≤ u64Max by decide, by decide, by decide⟩

end

end Cmd

/-! ## A stream of requests -/

namespace RespParser

section
variable {P : Platform} {requests : List (Cmd × Command)} {chunks : List Bytes}

/-- Commands that are spelled out, sent one behind the other and cut into chunks, are
the ones that are read. -/
theorem pipelined (hspelled : ∀ r ∈ requests, r.1.Spelled P r.2.args) (hne : ∀ c ∈ chunks, c ≠ [])
    (hser : RespType.serializeAll (requests.map fun r => r.2.value) = some chunks.flatten)
    (hlast : ∀ r, requests.getLast? = some r → cursorAfter (cutsIn r.2.bodyLength chunks) < r.2.bodyLength) :
    ∃ p out fuel₀, (∀ fuel, fuel₀ ≤ fuel → new.readChunks false fuel chunks = some (p, out)) ∧
      out.map (Cmd.fromResp P) = requests.map fun r => .ok (.ok r.1) := by
  have hser' : RespType.serializeAll ((requests.map Prod.snd).map Command.value) = some chunks.flatten := by
    rw [List.map_map]
    exact hser
  obtain ⟨p, out, hall, hiff⟩ := readsAll_iff (requests.map Prod.snd) chunks hne hser'
  have hout : out = (requests.map Prod.snd).map Command.value := by
    apply hiff.mpr
    intro c hc
    rw [List.getLast?_map] at hc
    obtain ⟨r, hr, heq⟩ := Option.map_eq_some_iff.mp hc
    cases heq
    exact hlast r hr
  obtain ⟨fuel₀, h₀⟩ := hall.readChunks
  refine ⟨p, out, fuel₀, h₀, ?_⟩
  rw [hout, List.map_map, List.map_map]
  apply List.map_congr_left
  intro r hr
  have hvalue : r.2.value = .arrayOf (r.2.args.map .bulk) := by
    simp [Command.value, RespType.arrayOf, r.2.nonempty]
  simp only [Function.comp_apply, hvalue]
  exact (hspelled r hr).decodes

def setRequest : Cmd × Command where
  fst := .set "k" "v" (some (.ex (some 10)))
  snd := { args := ["SET", "k", "v", "EX", "10"], nonempty := by decide, length_le := by decide, size_le := by decide }

def getRequest : Cmd × Command where
  fst := .get "k"
  snd := { args := ["GET", "k"], nonempty := by decide, length_le := by decide, size_le := by decide }

/-- The reads end in the value that is set, and before the key that is read. -/
def setGetChunks : List Bytes :=
  [utf8 "*5\r\n$3\r\nSET\r\n$1\r\nk\r\n$1\r\n", utf8 "v\r\n$2\r\nEX\r\n$2\r\n10\r\n*2\r\n$3\r\nGET\r\n$1\r\n",
    utf8 "k\r\n"]

theorem pipelined_setGet : ∃ p out fuel₀,
    (∀ fuel, fuel₀ ≤ fuel → new.readChunks false fuel setGetChunks = some (p, out)) ∧
      out.map (Cmd.fromResp .blank) = [setRequest, getRequest].map fun r => .ok (.ok r.1) := by
  apply pipelined
  · intro r hr
    simp only [List.mem_cons, List.not_mem_nil, or_false] at hr
    rcases hr with rfl | rfl
    · exact ⟨show 10 ≤ u64Max by decide, by decide, by decide⟩
    · rfl
  · decide
  · decide +kernel
  · intro r hr
    cases hr
    decide

end

end RespParser

end Redis
