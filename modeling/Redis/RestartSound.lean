import Redis.AofFilesSound
import Redis.Rebuild
import Redis.Restart
import Redis.StartupSound

/-!
# Nothing is lost between two processes

The directory of the log stays as a startup has set it up, and the file in it
gets the records of one process behind those of another. So a process that is
started later finds what the last one had in its key space, if the calls were of
the kind that can be repeated and no start has lost a record to the cuts between
the pieces of the file.
-/

namespace Redis

open Lib Lib.Options

namespace Aof

/-! ## The directory -/

/-- The manifest names the file with these records, and it is the latest. -/
structure Holds (name : String) (log : List Command) (dir : AofDir) : Prop where
  manifest : dir.lookup (manifestFilename name) = some (utf8 (firstLine name 1))
  file : dir.lookup (aofFilename name 1) = some (logText log)
  latest : getLatestAofId dir = some (some 1)

/-- The records that are found at a start, and the handler when they have been replayed. -/
inductive Found (P : Platform) (orders : Nat → IterOrder) (fuel : Nat) (name : String) (h : CmdHandler) :
    Option AofDir → List Command → CmdHandler → Prop
  | nothing : Found P orders fuel name h none [] h
  | records {dir : AofDir} {log : List Command} {g : CmdHandler} : Holds name log dir →
    CmdHandler.replayFile P orders fuel h (logText log) = some g → Found P orders fuel name h (some dir) log g

section
variable {P : Platform} {orders : Nat → IterOrder} {fuel : Nat} {configs : Configs} {name : String}
    {log log' : List Command}
  {dir : AofDir} {disk : Option AofDir} {h g : CmdHandler}

theorem idKept_again (hkept : IdKept name none) : IdKept name (some 1) := by
  unfold IdKept at hkept ⊢
  split at hkept
  · split at hkept
    · rename_i k _
      have hone : k = 1 := hkept
      exact hone.le
    · cases hkept
  · trivial
  · cases hkept

theorem initAofFiles_holds {latest : Option Nat} (hkept : IdKept name none) (hlatest : getLatestAofId dir = some latest)
    (hone : latest = none ∨ latest = some 1) (hfile : (dir.lookup (aofFilename name 1)).getD [] = logText log) :
    ∃ dir', (initAofFiles name dir).2 = .ok (aofFilename name 1) ∧ (initAofFiles name dir).1.getLast? = some dir' ∧
      Holds name log dir' := by
  have hkept' : IdKept name latest := by
    rcases hone with rfl | rfl
    · exact hkept
    · exact idKept_again hkept
  have hid : latest.getD 1 = 1 := by rcases hone with rfl | rfl <;> rfl
  have hne : aofFilename name 1 ≠ manifestFilename name := (manifestFilename_ne_aofFilename name name 1).symm
  have hname : aofFilename name (latest.getD 1) = aofFilename name 1 := by rw [hid]
  unfold initAofFiles
  rw [hlatest]
  refine ⟨HashMap.put (manifestFilename name) (utf8 (firstLine name (latest.getD 1)))
    (HashMap.put (manifestFilename name) [] (HashMap.orInsert (aofFilename name (latest.getD 1)) [] dir)),
    congrArg _ hname, rfl, ?_, ?_, ?_⟩
  · rw [HashMap.lookup_put, hid]
  · rw [HashMap.lookup_put_ne hne, HashMap.lookup_put_ne hne, hname, HashMap.lookup_orInsert, hfile]
  · refine Eq.trans ?_ (congrArg (fun id => some (some id)) hid)
    refine (getLatestAofId_again hlatest fun n => ?_).mpr hkept'
    rw [HashMap.mem_put, HashMap.mem_put, HashMap.mem_orInsert, or_self_left, or_left_comm]

theorem Holds.append (hd : Holds name log dir) :
    Holds name (log ++ log') (HashMap.put (aofFilename name 1) (logText log ++ logText log') dir) := by
  refine ⟨?_, ?_, ?_⟩
  · rw [HashMap.lookup_put_ne (manifestFilename_ne_aofFilename name name 1)]
    exact hd.manifest
  · rw [HashMap.lookup_put, logText_append]
  · have hin : aofFilename name 1 ∈ dir := HashMap.mem_of_lookup hd.file
    have hmem : ∀ n, n ∈ HashMap.put (aofFilename name 1) (logText log ++ logText log') dir ↔ n ∈ dir := by
      intro n
      rw [HashMap.mem_put]
      exact or_iff_right_of_imp fun heq => heq ▸ hin
    obtain ⟨hall, hex, hle⟩ := getLatestAofId_eq_some.mp hd.latest
    simp only [getLatestAofId_eq_some, hmem]
    exact ⟨hall, hex, hle⟩

/-! ## The start -/

theorem Holds.replay (hd : Holds name log dir) (hplain : Plain name) :
    aofReplay P orders fuel name dir h = (CmdHandler.replayFile P orders fuel h (logText log)).elim
      (.error .panicked) .ok := by
  unfold aofReplay
  rw [readManifest_firstLine hplain (by decide) hd.manifest]
  simp only [Except.bind, hd.file]

theorem Found.init (hf : Found P orders fuel configs.appendfilename h disk log g) (hon : configs.appendonly = true)
    (hplain : Plain configs.appendfilename) (hkept : IdKept configs.appendfilename none) :
    ∃ dir', (initSequence P orders fuel configs disk h).2 = .ok (g, some (aofFilename configs.appendfilename 1)) ∧
      (initSequence P orders fuel configs disk h).1.getLast? = some dir' ∧ Holds configs.appendfilename log dir' := by
  cases hf with
  | nothing =>
    have hempty : getLatestAofId ∅ = some none := rfl
    have hfirst : ∃ dir', (initAofFiles configs.appendfilename ∅).2 = .ok (aofFilename configs.appendfilename 1) ∧
        (initAofFiles configs.appendfilename ∅).1.getLast? = some dir' ∧ Holds configs.appendfilename [] dir' :=
      initAofFiles_holds hkept hempty (.inl rfl) rfl
    obtain ⟨dir', hname, hlast, hholds⟩ := hfirst
    refine ⟨dir', ?_, ?_, hholds⟩
    · simp only [initSequence, hon, if_true, hname, Except.map]
    · simp only [initSequence, hon, if_true, List.getLast?_cons, hlast]
      rfl
  | @records dir log g hd hreplay =>
    obtain ⟨dir', hname, hlast, hholds⟩ := initAofFiles_holds hkept hd.latest (.inr rfl) (by rw [hd.file]; rfl)
    have haof : aofReplay P orders fuel configs.appendfilename dir h = .ok g := by
      rw [hd.replay hplain, hreplay]
      rfl
    refine ⟨dir', ?_, ?_, hholds⟩
    · simp only [initSequence, hon, if_true, haof, hname, Except.map]
    · simp only [initSequence, hon, if_true, haof, hlast]

end

end Aof

namespace CmdHandler

open Aof (Found Holds IdKept aofReplay initSequence aofFilename)

section
variable {P : Platform} {orders : Nat → IterOrder} {fuel : Nat} {disk : Disk} {path : String} {log : List Command}
  {h h' g : CmdHandler}

theorem initAof_found (hf : Found P orders fuel h.configs.appendfilename h
    (disk.dirs (path ++ "/" ++ h.configs.appenddirname)) log g)
    (hpath : h.configs.path = some path) (hon : h.configs.appendonly = true)
    (hplain : Aof.Plain h.configs.appendfilename)
    (hkept : IdKept h.configs.appendfilename none) :
    h.initAof P orders fuel disk = some { g with aof := some { written := some [] } } ∧
    ∃ dir, h.openLog P orders fuel disk =
        some (path ++ "/" ++ h.configs.appenddirname, dir, aofFilename h.configs.appendfilename 1) ∧
      Holds h.configs.appendfilename log dir := by
  obtain ⟨dir, hinit, hlast, hholds⟩ := hf.init hon hplain hkept
  constructor
  · simp [initAof, hpath, hinit]
  · refine ⟨dir, ?_, hholds⟩
    simp [openLog, hpath, hinit, hlast, Except.toOption]

theorem found_of_initAof (hi : h.initAof P orders fuel disk = some h') (hpath : h.configs.path = some path)
    (hon : h.configs.appendonly = true) (hplain : Aof.Plain h.configs.appendfilename)
    (hd : disk.dirs (path ++ "/" ++ h.configs.appenddirname) = none ∧ log = [] ∨
      ∃ dir, disk.dirs (path ++ "/" ++ h.configs.appenddirname) = some dir ∧ Holds h.configs.appendfilename log dir) :
    ∃ g, Found P orders fuel h.configs.appendfilename h (disk.dirs (path ++ "/" ++ h.configs.appenddirname)) log g := by
  rcases hd with ⟨hnone, rfl⟩ | ⟨dir, hdir, hholds⟩
  · rw [hnone]
    exact ⟨h, .nothing⟩
  · rw [hdir]
    cases hreplay : replayFile P orders fuel h (logText log) with
    | none =>
      have haof : aofReplay P orders fuel h.configs.appendfilename dir h = .error .panicked := by
        rw [hholds.replay hplain, hreplay]
        rfl
      simp [initAof, hpath, hdir, initSequence, hon, haof] at hi
    | some g => exact ⟨g, .records hholds hreplay⟩

end

end CmdHandler

/-! ## The command line -/

structure Logging (words : List String) (path dirname name : String) : Prop where
  path : Configs.told words "dir" = .ok path
  on : given (Configs.isFlag "appendonly") words = some "yes"
  dirname : Configs.told words "appenddirname" = .ok dirname
  name : Configs.told words "appendfilename" = .ok name

namespace Configs

theorem setFlag_path {c c' : Configs} {flag v : String} (h : c.setFlag flag (some v) = some c') :
    c'.path = if isFlag "dir" flag then some v else c.path := by
  unfold setFlag at h
  by_cases hdir : flag = "--dir"
  · rw [if_pos hdir] at h
    cases h
    simp [isFlag, hdir]
  · have hno : isFlag "dir" flag = false := decide_eq_false hdir
    rw [hno]
    rw [if_neg hdir] at h
    split at h
    · cases h
      rfl
    · split at h
      · obtain ⟨b, _, rfl⟩ := Option.map_eq_some_iff.mp h
        rfl
      · split at h
        · cases h
          rfl
        · split at h
          · cases h
            rfl
          · split at h
            · obtain ⟨a, _, rfl⟩ := Option.map_eq_some_iff.mp h
              rfl
            · cases h
              rfl

theorem withParseConfig_path {c : Configs} {args : List String} (h : withParseConfig {} args = some c) :
    c.path = some ((given (isFlag "dir") (args.drop 1)).getD "/app") := by
  have hpath : c.path = ((given (isFlag "dir") (args.drop 1)).map some).getD ({} : Configs).path := by
    refine takePairs_given Configs.path (isFlag "dir") some ?_ ?_ h
    · intro t flag v t' hset
      exact setFlag_path hset
    · intro t flag t' hset
      rw [setFlag_alone hset]
  rw [hpath]
  cases given (isFlag "dir") (args.drop 1) <;> rfl

end Configs

theorem Logging.configs {args : List String} {path dirname name : String} {c : Configs}
    (hl : Logging (args.drop 1) path dirname name) (hc : Configs.withParseConfig {} args = some c) :
    c.path = some path ∧ c.appendonly = true ∧ c.appenddirname = dirname ∧ c.appendfilename = name := by
  have htold := Configs.withParseConfig_getAttr hc
  refine ⟨?_, ?_, ?_, ?_⟩
  · have hdir : Configs.told (args.drop 1) "dir" = .ok ((given (Configs.isFlag "dir") (args.drop 1)).getD "/app") := by
      simp [Configs.told, Configs.defaults]
    rw [Configs.withParseConfig_path hc, ← Except.ok.inj (hdir.symm.trans hl.path)]
  · have hanswer : c.getAttr "appendonly" = .ok (if c.appendonly then "yes" else "no") := by simp [Configs.getAttr]
    have hyes : Configs.told (args.drop 1) "appendonly" =
        .ok ((given (Configs.isFlag "appendonly") (args.drop 1)).getD "no") := by
      simp [Configs.told, Configs.defaults, List.lookup_cons]
    rw [htold, hyes, hl.on] at hanswer
    by_contra hoff
    rw [if_neg hoff] at hanswer
    simp at hanswer
  · have hanswer : c.getAttr "appenddirname" = .ok c.appenddirname := by simp [Configs.getAttr]
    rw [htold, hl.dirname] at hanswer
    exact (Except.ok.inj hanswer).symm
  · have hanswer : c.getAttr "appendfilename" = .ok c.appendfilename := by simp [Configs.getAttr]
    rw [htold, hl.name] at hanswer
    exact (Except.ok.inj hanswer).symm

/-! ## What a process is asked for -/

namespace Server

section
variable {P : Platform} {s s' : Server} {cmd : Cmd} {buf : Bytes} {id : Nat} {fd : Int}

def runTaken (P : Platform) (s : Server) (es : List Event) : List RespType :=
  along P (fun s e _ => (s.takenUp e).toList.map fun x => x.2.2) s es

theorem handsOver_value {client : TcpClient} {h : CmdHandler} {t : RespType}
    (hh : client.handsOver P h id t = some (.ok cmd, buf)) : t.serialize = some buf ∧
    Cmd.fromResp P t = .ok (.ok cmd) := by
  unfold TcpClient.handsOver at hh
  split at hh
  · rename_i raw c hraw hcmd
    split at hh
    · cases hh
    · split at hh
      · cases hh
      · cases hh
        exact ⟨hraw, hcmd⟩
  · cases hh
  · cases hh

theorem asks_taken {e : Event} {label : IterOrder × CmdHandler.Event} (hl : label ∈ s.asks P e)
    (hlabel : label.2 = .handle (.ok cmd) buf id fd) :
    ∃ t ∈ (s.takenUp e).toList.map (fun x => x.2.2), t.serialize = some buf ∧ Cmd.fromResp P t = .ok (.ok cmd) := by
  unfold asks at hl
  split at hl
  · rename_i fd' client t htaken
    split at hl
    · rename_i c raw hhands
      cases List.mem_singleton.mp hl
      cases hlabel
      exact ⟨t, by simp [htaken], handsOver_value hhands⟩
    · cases hl
  · cases List.mem_singleton.mp hl
    cases hlabel
  · rcases List.mem_pair.mp hl with rfl | rfl <;> cases hlabel
  · cases hl

theorem runAsks_taken {es : List Event} (hr : Run (Steps P) s es s') {label : IterOrder × CmdHandler.Event}
    (hl : label ∈ runAsks P s es) (hlabel : label.2 = .handle (.ok cmd) buf id fd) :
    ∃ t ∈ runTaken P s es, t.serialize = some buf ∧ Cmd.fromResp P t = .ok (.ok cmd) := by
  induction hr with
  | nil => cases hl
  | @cons s e t es s' hs _ ih =>
    rw [runAsks, along_cons hs] at hl
    rw [runTaken, along_cons hs]
    rcases List.mem_append.mp hl with hl | hl
    · rcases List.mem_append.mp hl with hl | hl
      · obtain ⟨u, hu, hvalue⟩ := asks_taken hl hlabel
        exact ⟨u, List.mem_append_left _ hu, hvalue⟩
      · cases List.mem_singleton.mp hl
        cases hlabel
    · obtain ⟨u, hu, hvalue⟩ := ih hl
      exact ⟨u, List.mem_append_right _ hu, hvalue⟩

/-- What is asked for can be repeated, and each write is an array of texts. -/
structure Repeatable (P : Platform) (s : Server) (es : List Event) : Prop where
  sent : ∀ t ∈ runTaken P s es, ∀ cmd, Cmd.fromResp P t = .ok (.ok cmd) → cmd.toBeBroadcast = true →
    ∃ x : Command, t = x.value
  calls : ∀ c ∈ CmdHandler.runCalls P s.handler (runAsks P s es), c.Lasting P

/-- What the process has written behind the log takes its key space to where it is. -/
theorem run_written {es : List Event} {written : List Bytes} (hr : Run (Steps P) s es s') (hp : Repeatable P s es)
    (htxns : s.handler.registry.backlogTxn = ∅) (hlists : s.handler.registry.backlogList = ∅)
    (hlog : s.handler.log = some written) : ∃ log, s'.handler.log = some (written ++ (CmdHandler.runCalls P s.handler
        (runAsks P s es)).flatMap CmdHandler.Call.frames) ∧
      ((CmdHandler.runCalls P s.handler (runAsks P s es)).flatMap CmdHandler.Call.frames).flatten = logText log ∧
      CmdHandler.Rebuilds P log s.handler.data s'.handler.data := by
  have hrun := run_refines hr
  have hframed : ∀ label ∈ runAsks P s es, ∀ cmd buf id fd, label.2 = .handle (.ok cmd) buf id fd →
      CmdHandler.Framed P cmd buf := by
    intro label hl cmd buf id fd hlabel hkind
    obtain ⟨t, ht, hser, hcmd⟩ := runAsks_taken hr hl hlabel
    obtain ⟨x, rfl⟩ := hp.sent t ht cmd hcmd hkind
    exact ⟨x, hser, hcmd⟩
  obtain ⟨log, htext, hrebuilds⟩ := CmdHandler.run_rebuilds hrun htxns hlists hframed hp.calls
  have hwritten := CmdHandler.run_log hrun
  rw [hlog] at hwritten
  exact ⟨log, hwritten, htext, hrebuilds⟩

end

/-! ## A start -/

section
variable {P : Platform} {orders : Nat → IterOrder} {fuel : Nat} {args : List String} {disk : Disk} {timer : Timer}
  {masterFd : Nat} {epollFd : Int} {s : Server} {path dirname name : String} {log : List Command} {data : Data}

def blankHandler (timer : Timer) (appStates : AppStates) (configs : Configs) : CmdHandler :=
  { CmdHandler.new timer appStates with configs }

theorem open_blankHandler {appStates : AppStates} {configs : Configs} (hstates : AppStates.init args = some appStates) :
    CmdHandler.Open (blankHandler timer appStates configs) := by
  have htold := AppStates.init_told hstates
  refine ⟨rfl, rfl, by simp [blankHandler, CmdHandler.new], ?_, rfl⟩
  simp [blankHandler, CmdHandler.new, htold.host]

/-- The disk of a process that logs: there is no RDB file, and the log is what is there. -/
structure Logged (P : Platform) (path dirname name : String) (log : List Command) (r : Remains) : Prop where
  files : ∀ p, r.disk.files p = none
  dir : r.disk.dirs (path ++ "/" ++ dirname) = none ∧ log = [] ∨
    ∃ dir, r.disk.dirs (path ++ "/" ++ dirname) = some dir ∧ Aof.Holds name log dir
  rebuilds : CmdHandler.Rebuilds P log ∅ r.data

structure Recovered (P : Platform) (orders : Nat → IterOrder) (fuel : Nat) (name : String) (dir : Option AofDir)
    (log : List Command) (data : Data) (h g : CmdHandler) : Prop where
  found : Aof.Found P orders fuel name h dir log g
  ready : CmdHandler.Open g
  same : Data.Same data g.data

theorem Found.mono {fuel' : Nat} (hle : fuel ≤ fuel') {dir : Option AofDir} {h g : CmdHandler}
    (hf : Aof.Found P orders fuel name h dir log g) : Aof.Found P orders fuel' name h dir log g := by
  cases hf with
  | nothing => exact .nothing
  | records hd hreplay => exact .records hd (CmdHandler.replayFile_mono hle hreplay)

theorem Found.unique {dir : Option AofDir} {h g g' : CmdHandler} (hf : Aof.Found P orders fuel name h dir log g)
    (hf' : Aof.Found P orders fuel name h dir log g') : g = g' := by
  cases hf with
  | nothing =>
    cases hf'
    rfl
  | records _ hreplay =>
    cases hf' with
    | records _ hreplay' => exact Option.some.inj (hreplay.symm.trans hreplay')

theorem Found.settings {dir : Option AofDir} {h g : CmdHandler} (hf : Aof.Found P orders fuel name h dir log g) :
    g.settings = h.settings := by
  cases hf with
  | nothing => rfl
  | records _ hreplay =>
    refine CmdHandler.replayFile_inv (I := fun g => g.settings = h.settings) (fun g label g' hl hs hg => ?_) hreplay rfl
    obtain ⟨cmd, raw, heq⟩ := hl
    refine (CmdHandler.step_settings hs fun _ _ _ hprocess => ?_).trans hg
    rw [heq] at hprocess
    cases hprocess

theorem Logged.recovered {r : Remains} (hl : Logged P path dirname name log r)
    (hwhole : CmdHandler.Whole (logText log)) : ∃ fuel₀, ∀ fuel, fuel₀ ≤ fuel →
    ∀ orders h, CmdHandler.Open h → h.data = ∅ →
      ∃ g, Recovered P orders fuel name (r.disk.dirs (path ++ "/" ++ dirname)) log r.data h g := by
  rcases hl.dir with ⟨hnone, rfl⟩ | ⟨dir, hdir, hholds⟩
  · refine ⟨0, fun fuel _ orders h hopen hdata => ?_⟩
    rw [hnone]
    obtain ⟨g, hreplay, hg, hsame⟩ := hl.rebuilds h hopen (by rw [hdata]; exact .refl _) [] rfl
    cases hreplay
    exact ⟨h, .nothing, hg, hsame⟩
  · obtain ⟨fuel₀, h₀⟩ := CmdHandler.replayFile_rebuilds (P := P) hwhole
    refine ⟨fuel₀, fun fuel hle orders h hopen hdata => ?_⟩
    rw [hdir]
    obtain ⟨g, hreplay, hg, hsame⟩ := h₀ fuel hle orders hl.rebuilds hopen (by rw [hdata]; exact .refl _)
    exact ⟨g, .records hholds hreplay, hg, hsame⟩

theorem main_eq {appStates : AppStates} {configs : Configs} (hstates : AppStates.init args = some appStates)
    (hconfigs : Configs.withParseConfig {} args = some configs) (hfiles : ∀ p, disk.files p = none) :
    main P orders fuel args disk timer masterFd epollFd =
      ((blankHandler timer appStates configs).initAof P orders fuel disk).bind fun h =>
        { handler := h, epollFd : Server }.addMaster P masterFd := by
  unfold main
  simp [hstates, hconfigs, CmdHandler.initRdb_none hfiles, blankHandler]

/-- A process that comes up has what the last one had, and its log is open. -/
theorem Logged.start {r : Remains} {l : Life} (hl : Logged P path dirname name log r)
    (hwhole : CmdHandler.Whole (logText log)) (hplain : Aof.Plain name) (hkept : Aof.IdKept name none)
    (hlogging : Logging (l.args.drop 1) path dirname name) (hs : l.start P r.disk = some s) :
    Data.Same r.data s.handler.data ∧ s.handler.registry.backlogTxn = ∅ ∧ s.handler.registry.backlogList = ∅ ∧
    s.handler.log = some [] ∧ ∃ dir, l.log P r.disk = some (path ++ "/" ++ dirname, dir, Aof.aofFilename name 1) ∧
      Aof.Holds name log dir := by
  unfold Life.start at hs
  cases hstates : AppStates.init l.args with
  | none => simp [main, hstates] at hs
  | some appStates =>
    cases hconfigs : Configs.withParseConfig {} l.args with
    | none => simp [main, hstates, hconfigs] at hs
    | some configs =>
      obtain ⟨hpath, hon, rfl, rfl⟩ := hlogging.configs hconfigs
      rw [main_eq hstates hconfigs hl.files] at hs
      obtain ⟨h, haof, hmaster⟩ := Option.bind_eq_some_iff.mp hs
      have hfound : ∃ g, Aof.Found P l.orders l.fuel configs.appendfilename (blankHandler l.timer appStates configs)
          (r.disk.dirs (path ++ "/" ++ configs.appenddirname)) log g :=
        CmdHandler.found_of_initAof haof hpath hon hplain hl.dir
      obtain ⟨g, hfound⟩ := hfound
      obtain ⟨fuel₀, h₀⟩ := hl.recovered hwhole
      obtain ⟨g', hrecovered⟩ := h₀ (max fuel₀ l.fuel) (Nat.le_max_left ..) l.orders
        (blankHandler l.timer appStates configs) (open_blankHandler hstates) rfl
      obtain rfl := Found.unique (Found.mono (Nat.le_max_right ..) hfound) hrecovered.found
      have hopened : (blankHandler l.timer appStates configs).initAof P l.orders l.fuel r.disk =
          some { g with aof := some { written := some [] } } ∧
          ∃ dir, (blankHandler l.timer appStates configs).openLog P l.orders l.fuel r.disk =
            some (path ++ "/" ++ configs.appenddirname, dir, Aof.aofFilename configs.appendfilename 1) ∧
          Aof.Holds configs.appendfilename log dir := CmdHandler.initAof_found hfound hpath hon hplain hkept
      obtain ⟨hinit, dir, hopen, hholds⟩ := hopened
      rw [hinit] at haof
      cases haof
      have hlog : l.log P r.disk =
          some (path ++ "/" ++ configs.appenddirname, dir, Aof.aofFilename configs.appendfilename 1) := by
        unfold Life.log
        rw [hstates, hconfigs]
        exact hopen
      rcases addMaster_cases hmaster with ⟨_, rfl⟩ | ⟨auth, _, _, rfl⟩
      · exact ⟨hrecovered.same, hrecovered.ready.txns, hrecovered.ready.lists, rfl, dir, hlog, hholds⟩
      · exact ⟨hrecovered.same, hrecovered.ready.txns, hrecovered.ready.lists, rfl, dir, hlog, hholds⟩

/-- The records of one more process stand behind those of the others. -/
theorem Logged.lives {r r' : Remains} {l : Life} (hl : Logged P path dirname name log r)
    (hwhole : CmdHandler.Whole (logText log)) (hplain : Aof.Plain name) (hkept : Aof.IdKept name none)
    (hlogging : Logging (l.args.drop 1) path dirname name)
    (hrepeatable : ∀ s, l.start P r.disk = some s → Repeatable P s l.events) (hlives : Lives P r l r') :
    ∃ log', Logged P path dirname name (log ++ log') r' := by
  obtain ⟨s, s', hs, hr, _, rfl⟩ := hlives
  obtain ⟨hsame, htxns, hlists, hempty, dir, hlog, hholds⟩ := hl.start hwhole hplain hkept hlogging hs
  obtain ⟨log', hwritten, htext, hrebuilds⟩ := run_written hr (hrepeatable s hs) htxns hlists hempty
  refine ⟨log', ?_, .inr ?_, ?_⟩
  · unfold Life.left
    rw [hlog]
    exact hl.files
  · have hbehind : (s'.handler.aof.bind Aof.written).getD [] =
        (CmdHandler.runCalls P s.handler (runAsks P s l.events)).flatMap CmdHandler.Call.frames := by
      have hsome : s'.handler.aof.bind Aof.written = some _ := hwritten
      rw [hsome]
      rfl
    unfold Life.left
    rw [hlog]
    refine ⟨_, Function.update_self .., ?_⟩
    simp only [hholds.file, Option.getD_some, hbehind, htext]
    exact hholds.append
  · exact hl.rebuilds.append ((CmdHandler.Rebuilds.nil hsame).append hrebuilds)

end

end Server

/-! ## One process after another -/

namespace Remains

def Whole (path dirname name : String) (r : Remains) : Prop :=
  ∀ dir file, r.disk.dirs (path ++ "/" ++ dirname) = some dir → dir.lookup (Aof.aofFilename name 1) = some file →
    CmdHandler.Whole file

/-- The process keeps its log at this place, and all that changes its key space is logged. -/
structure Kept (P : Platform) (path dirname name : String) (r : Remains) (l : Life) : Prop where
  whole : r.Whole path dirname name
  logging : Logging (l.args.drop 1) path dirname name
  repeatable : ∀ s, l.start P r.disk = some s → Server.Repeatable P s l.events

section
variable {P : Platform} {path dirname name : String} {log : List Command} {r r' : Remains} {lives : List Life}

theorem whole_log (hl : Server.Logged P path dirname name log r) (hwhole : r.Whole path dirname name) :
    CmdHandler.Whole (logText log) := by
  rcases hl.dir with ⟨_, rfl⟩ | ⟨dir, hdir, hholds⟩
  · exact CmdHandler.whole_of_length_le (Nat.zero_le _)
  · exact hwhole dir _ hdir hholds.file

theorem run_stays_logged (hplain : Aof.Plain name) (hkept : Aof.IdKept name none)
    (hr : Run (guarded (Kept P path dirname name) (Lives P)) r lives r')
    (hl : ∃ log, Server.Logged P path dirname name log r) :
    ∃ log, Server.Logged P path dirname name log r' := by
  refine hr.inv (I := fun r => ∃ log, Server.Logged P path dirname name log r) (fun r l r' _ hI hs => ?_) hl
  obtain ⟨log, hl⟩ := hI
  obtain ⟨hkeeps, hlives⟩ := hs
  obtain ⟨log', hl'⟩ := hl.lives (whole_log hl hkeeps.whole) hplain hkept hkeeps.logging hkeeps.repeatable hlives
  exact ⟨log ++ log', hl'⟩

/-- After any number of processes that log at one place, a process that is started
there comes up, with what the last of them had in its key space. -/
theorem run_survives (hplain : Aof.Plain name) (hkept : Aof.IdKept name none)
    (hnew : r.disk.dirs (path ++ "/" ++ dirname) = none) (hfiles : ∀ p, r.disk.files p = none) (hempty : r.data = ∅)
    (hr : Run (guarded (Kept P path dirname name) (Lives P)) r lives r') (hwhole : r'.Whole path dirname name) :
    ∃ fuel₀, ∀ fuel, fuel₀ ≤ fuel → ∀ args orders timer masterFd epollFd, Server.Accepted (args.drop 1) →
      Logging (args.drop 1) path dirname name → ∃ s,
        Server.main P orders fuel args r'.disk timer masterFd epollFd = some s ∧ Data.Same r'.data s.handler.data := by
  have hstart : Server.Logged P path dirname name [] r :=
    ⟨hfiles, .inl ⟨hnew, rfl⟩, .nil (by rw [hempty]; exact .refl _)⟩
  obtain ⟨log, hl⟩ := run_stays_logged hplain hkept hr ⟨[], hstart⟩
  obtain ⟨fuel₀, h₀⟩ := hl.recovered (whole_log hl hwhole)
  refine ⟨fuel₀, fun fuel hle args orders timer masterFd epollFd haccepted hlogging => ?_⟩
  obtain ⟨hstates, hconfigs⟩ := Server.accepted_iff.mp haccepted
  obtain ⟨appStates, hstates⟩ := Option.isSome_iff_exists.mp hstates
  obtain ⟨configs, hconfigs⟩ := Option.isSome_iff_exists.mp hconfigs
  obtain ⟨hpath, hon, rfl, rfl⟩ := hlogging.configs hconfigs
  obtain ⟨g, hrecovered⟩ := h₀ fuel hle orders (Server.blankHandler timer appStates configs)
    (Server.open_blankHandler hstates) rfl
  have hinit : (Server.blankHandler timer appStates configs).initAof P orders fuel r'.disk =
      some { g with aof := some { written := some [] } } :=
    (CmdHandler.initAof_found (h := Server.blankHandler timer appStates configs)
      hrecovered.found hpath hon hplain hkept).1
  have hmaster :
      ({ handler := { g with aof := some { written := some [] } }, epollFd : Server }.addMaster P masterFd).isSome =
        true := by
    apply Server.addMaster_isSome hrecovered.ready.auth
    have hsettings : g.appStates.masterStats = appStates.masterStats :=
      congrArg (fun x => x.2.1) (Server.Found.settings hrecovered.found)
    rw [hsettings]
    exact (AppStates.init_told hstates).master
  obtain ⟨s, hs⟩ := Option.isSome_iff_exists.mp hmaster
  refine ⟨s, ?_, ?_⟩
  · rw [Server.main_eq hstates hconfigs hl.files, hinit]
    exact hs
  · rcases Server.addMaster_cases hs with ⟨_, rfl⟩ | ⟨auth, _, _, rfl⟩ <;> exact hrecovered.same

end

def pushCommand : Command where
  args := ["RPUSH", "k", "a"]
  nonempty := by decide
  length_le := by decide
  size_le := by decide

def pushing : Life where
  args := ["redis", "--appendonly", "yes"]
  orders := fun _ => .asIs
  fuel := 1
  timer := { clock := fun _ => 0 }
  masterFd := 9
  epollFd := 3
  events := [.accept 7, .read 7 pushCommand.value.frame, .turn .asIs 20 true, .turn .asIs 20 true,
    .endOfCycle .asIs .asIs]

def blank : Remains where
  disk := Server.emptyDisk
  data := ∅

def isPush : RespType → Bool
  | .array 3 (some [.bulkStr 5 (some "RPUSH"), .bulkStr 1 (some "k"), .bulkStr 1 (some "a")]) => true
  | _ => false

theorem eq_of_isPush {t : RespType} (h : isPush t = true) : t = pushCommand.value := by
  unfold isPush at h
  split at h
  · rfl
  · cases h

def pushed (s s' : Server) : Bool :=
  (Server.runTaken .blank s pushing.events).all isPush &&
  (CmdHandler.runCalls .blank s.handler (Server.runAsks .blank s pushing.events)).all
    (fun c => decide (c.cmd = .rpush "k" ["a"])) &&
  (s'.handler.data.lookup "k").isSome &&
  decide (((pushing.left .blank blank.disk s').dirs "/app/appendonlydir").bind (·.lookup "appendonly.aof.1.incr.aof") =
    some pushCommand.value.frame)

theorem run_survives_push : ∃ r, Lives .blank blank pushing r ∧ (r.data.lookup "k").isSome = true ∧
    ∃ fuel₀, ∀ fuel, fuel₀ ≤ fuel → ∃ s,
      Server.main .blank pushing.orders fuel pushing.args r.disk pushing.timer 9 3 = some s ∧
      Data.Same r.data s.handler.data := by
  have hsome : ((pushing.start .blank blank.disk).bind fun s =>
      (pushing.events.foldlM (Server.step .blank) s).bind fun s' =>
      if pushed s s' then some (s, s') else none).isSome = true := by
    decide +kernel
  obtain ⟨⟨s, s'⟩, hs⟩ := Option.isSome_iff_exists.mp hsome
  obtain ⟨t, ht, hs⟩ := Option.bind_eq_some_iff.mp hs
  obtain ⟨t', ht', hs⟩ := Option.bind_eq_some_iff.mp hs
  have hpushed : pushed t t' = true := by
    by_contra hno
    rw [if_neg hno] at hs
    cases hs
  simp only [pushed, Bool.and_eq_true, List.all_eq_true, decide_eq_true_eq] at hpushed
  obtain ⟨⟨⟨htaken, hcalls⟩, hkey⟩, hfile⟩ := hpushed
  have hlives : Lives .blank blank pushing { disk := pushing.left .blank blank.disk t', data := t'.handler.data } :=
    ⟨t, t', ht, .of_foldlM ht', fun e he => ⟨.asIs, .asIs, (Option.some.inj he).symm⟩, rfl⟩
  have hrepeatable : ∀ u, pushing.start .blank blank.disk = some u → Server.Repeatable .blank u pushing.events := by
    intro u hu
    rw [ht] at hu
    cases hu
    refine ⟨fun v hv _ _ _ => ⟨pushCommand, eq_of_isPush (htaken v hv)⟩, fun c hc => ?_⟩
    have hcmd := hcalls c hc
    constructor <;> simp [hcmd, CmdHandler.Timed, CmdHandler.Escapes]
  have hlogging : Logging ["--appendonly", "yes"] "/app" "appendonlydir" "appendonly.aof" := by
    constructor <;> decide
  have hkept : Kept .blank "/app" "appendonlydir" "appendonly.aof" blank pushing := by
    refine ⟨fun dir file hdir => ?_, hlogging, hrepeatable⟩
    cases hdir
  have hwhole : Whole "/app" "appendonlydir" "appendonly.aof"
      { disk := pushing.left .blank blank.disk t', data := t'.handler.data } := by
    intro dir file hdir hlookup
    have hplace : "/app" ++ "/" ++ "appendonlydir" = "/app/appendonlydir" := by decide
    have hname : Aof.aofFilename "appendonly.aof" 1 = "appendonly.aof.1.incr.aof" := by decide
    rw [hplace] at hdir
    rw [hname] at hlookup
    rw [hdir, Option.bind_some, hlookup] at hfile
    cases hfile
    exact CmdHandler.whole_of_length_le (by decide)
  have haccepted : Server.Accepted (pushing.args.drop 1) := Server.accepted_iff.mpr ⟨by decide, by decide⟩
  have hplain : Aof.Plain "appendonly.aof" := by constructor <;> decide
  have hfields : Aof.IdKept "appendonly.aof" none := by
    have hsplit : splitOnChar '.' "appendonly.aof" = ["appendonly", "aof"] := by decide
    rw [Aof.IdKept, hsplit]
    trivial
  obtain ⟨fuel₀, h₀⟩ := run_survives hplain hfields rfl (fun _ => rfl) rfl (.cons ⟨hkept, hlives⟩ .nil) hwhole
  exact ⟨_, hlives, hkey, fuel₀,
    fun fuel hle => h₀ fuel hle pushing.args pushing.orders pushing.timer 9 3 haccepted hlogging⟩

end Remains

end Redis
