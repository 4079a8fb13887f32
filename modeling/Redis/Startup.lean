import Redis.Lib.Options
import Redis.AofFiles
import Redis.Rdb
import Redis.Server

/-!
# Startup

`main` up to its loop. The command line is read twice, for the stats of the
process and for the configuration; the log is replayed, then an RDB file takes
the place of the key space, and a replica connects to its master. A panic is
`none`.
-/

namespace Redis

open Lib Lib.Options

/-! ## The configuration -/

namespace AppendFsync

def tryFrom (value : String) : Except CustomError AppendFsync :=
  if value = "always" then .ok always
  else if value = "everysec" then .ok everySec
  else .error (.invalidArgument "Invalid arg")

theorem tryFrom_isSome {value : String} : (tryFrom value).toOption.isSome = true ↔ value = "always" ∨
    value = "everysec" := by
  unfold tryFrom
  by_cases halways : value = "always"
  · simp [halways, Except.toOption]
  · by_cases hsec : value = "everysec" <;> simp [halways, hsec, Except.toOption]

theorem getStr_tryFrom {value : String} {a : AppendFsync} (h : (tryFrom value).toOption = some a) :
    a.getStr = value := by
  unfold tryFrom at h
  by_cases halways : value = "always"
  · rw [if_pos halways] at h
    cases h
    exact halways.symm
  · by_cases hsec : value = "everysec"
    · rw [if_neg halways, if_pos hsec] at h
      cases h
      exact hsec.symm
    · rw [if_neg halways, if_neg hsec] at h
      cases h

end AppendFsync

namespace Configs

def yesNoToBool (s : String) : Option Bool :=
  if s = "yes" then some true else if s = "no" then some false else none

/-- An argument and the one behind it, an index that may be out of range. -/
def setFlag (c : Configs) (flag : String) (value : Option String) : Option Configs :=
  if flag = "--dir" then value.map fun v => { c with path := some v }
  else if flag = "--dbfilename" then value.map fun v => { c with dbfilename := some v }
  else if flag = "--appendonly" then value.bind fun v => (yesNoToBool v).map fun b => { c with appendonly := b }
  else if flag = "--appenddirname" then value.map fun v => { c with appenddirname := v }
  else if flag = "--appendfilename" then value.map fun v => { c with appendfilename := v }
  else if flag = "--appendfsync" then
    value.bind fun v => (AppendFsync.tryFrom v).toOption.map fun a => { c with appendfsync := a }
  else some c

/-- The first argument is the program. -/
def withParseConfig (c : Configs) (args : List String) : Option Configs := takePairs setFlag c (args.drop 1)

def defaults : List (String × String) :=
  [("dir", "/app"), ("dbfilename", ""), ("appendonly", "no"), ("appenddirname", "appendonlydir"),
    ("appendfilename", "appendonly.aof"), ("appendfsync", "everysec")]

def isFlag (key : String) (flag : String) : Bool := decide (flag = "--" ++ key)

def Accepts (flag : String) (value : Option String) : Prop :=
  (∃ key ∈ defaults.map Prod.fst, flag = "--" ++ key) → ∃ v, value = some v ∧
    (flag = "--appendonly" → v = "yes" ∨ v = "no") ∧ (flag = "--appendfsync" → v = "always" ∨ v = "everysec")

theorem yesNoToBool_isSome {s : String} : (yesNoToBool s).isSome = true ↔ s = "yes" ∨ s = "no" := by
  unfold yesNoToBool
  by_cases hyes : s = "yes"
  · simp [hyes]
  · by_cases hno : s = "no" <;> simp [hyes, hno]

theorem yesNoToBool_text {s : String} {b : Bool} (h : yesNoToBool s = some b) : (if b then "yes" else "no") = s := by
  unfold yesNoToBool at h
  by_cases hyes : s = "yes"
  · rw [if_pos hyes] at h
    cases h
    exact hyes.symm
  · by_cases hno : s = "no"
    · rw [if_neg hyes, if_pos hno] at h
      cases h
      exact hno.symm
    · rw [if_neg hyes, if_neg hno] at h
      cases h

theorem setFlag_unknown {c : Configs} {flag : String} {value : Option String}
    (h : ¬ ∃ key ∈ defaults.map Prod.fst, flag = "--" ++ key) : c.setFlag flag value = some c := by
  have hno : ∀ key ∈ defaults.map Prod.fst, flag ≠ "--" ++ key := fun key hkey heq => h ⟨key, hkey, heq⟩
  simp [defaults] at hno
  simp [setFlag, hno]

theorem setFlag_isSome (c : Configs) (flag : String) (value : Option String) :
    (c.setFlag flag value).isSome = true ↔ Accepts flag value := by
  unfold Accepts
  by_cases hknown : ∃ key ∈ defaults.map Prod.fst, flag = "--" ++ key
  · obtain ⟨key, hkey, rfl⟩ := hknown
    simp only [defaults, List.map_cons, List.map_nil, List.mem_cons, List.not_mem_nil, or_false] at hkey
    rcases hkey with rfl | rfl | rfl | rfl | rfl | rfl
    all_goals
      cases value with
      | none => simp [setFlag, defaults]
      | some v => simp [setFlag, defaults, yesNoToBool_isSome, AppendFsync.tryFrom_isSome]
  · rw [setFlag_unknown hknown]
    exact ⟨fun _ h => absurd h hknown, fun _ => rfl⟩

theorem setFlag_alone {c c' : Configs} {flag : String} (h : c.setFlag flag none = some c') : c' = c := by
  have hok : Accepts flag none := (setFlag_isSome c flag none).mp (by rw [h]; rfl)
  by_cases hknown : ∃ key ∈ defaults.map Prod.fst, flag = "--" ++ key
  · obtain ⟨_, hv, _⟩ := hok hknown
    cases hv
  · rw [setFlag_unknown hknown] at h
    cases h
    rfl

theorem setFlag_getAttr {c c' : Configs} {flag v key : String} (hkey : key ∈ defaults.map Prod.fst)
    (h : c.setFlag flag (some v) = some c') : c'.getAttr key = if isFlag key flag then .ok v else c.getAttr key := by
  by_cases hknown : ∃ other ∈ defaults.map Prod.fst, flag = "--" ++ other
  · obtain ⟨other, hother, rfl⟩ := hknown
    simp only [defaults, List.map_cons, List.map_nil, List.mem_cons, List.not_mem_nil, or_false] at hother hkey
    rcases hother with rfl | rfl | rfl | rfl | rfl | rfl
    case inr.inr.inl =>
      obtain ⟨b, hb, rfl⟩ := Option.map_eq_some_iff.mp h
      have htext := yesNoToBool_text hb
      rcases hkey with rfl | rfl | rfl | rfl | rfl | rfl
      all_goals simp [getAttr, isFlag, htext]
    case inr.inr.inr.inr.inr =>
      obtain ⟨a, ha, rfl⟩ := Option.map_eq_some_iff.mp h
      have htext := AppendFsync.getStr_tryFrom ha
      rcases hkey with rfl | rfl | rfl | rfl | rfl | rfl
      all_goals simp [getAttr, isFlag, htext]
    all_goals
      cases h
      rcases hkey with rfl | rfl | rfl | rfl | rfl | rfl
      all_goals simp [getAttr, isFlag]
  · have hno : isFlag key flag = false := by
      apply decide_eq_false
      intro heq
      exact hknown ⟨key, hkey, heq⟩
    rw [setFlag_unknown hknown] at h
    cases h
    rw [hno]
    rfl

/-- CONFIG GET answers with what is behind the last such flag. -/
def told (words : List String) (key : String) : Except CustomError String :=
  match defaults.lookup key with
  | some value => .ok ((given (isFlag key) words).getD value)
  | none => .error (.unsupportedCmd "Unsupported")

theorem getAttr_unknown {c : Configs} {key : String} (h : defaults.lookup key = none) :
    c.getAttr key = .error (.unsupportedCmd "Unsupported") := by
  have hno : ∀ x ∈ defaults, key ≠ x.1 := by simpa using List.lookup_eq_none_iff.mp h
  simp [defaults] at hno
  simp [getAttr, hno]

theorem mem_of_default {key value : String} (h : defaults.lookup key = some value) : (key, value) ∈ defaults := by
  obtain ⟨l, l', hl, _⟩ := List.lookup_eq_some_iff.mp h
  rw [hl]
  exact List.mem_append_right _ (List.mem_cons_self ..)

theorem getAttr_default {key value : String} (h : defaults.lookup key = some value) :
    ({} : Configs).getAttr key = .ok value := by
  have hmem : (key, value) ∈ defaults := mem_of_default h
  simp only [defaults, List.mem_cons, Prod.mk.injEq, List.not_mem_nil, or_false] at hmem
  rcases hmem with ⟨rfl, rfl⟩ | ⟨rfl, rfl⟩ | ⟨rfl, rfl⟩ | ⟨rfl, rfl⟩ | ⟨rfl, rfl⟩ | ⟨rfl, rfl⟩
  all_goals simp [getAttr, AppendFsync.getStr]

theorem withParseConfig_getAttr {c : Configs} {args : List String} (h : withParseConfig {} args = some c)
    (key : String) :
    c.getAttr key = told (args.drop 1) key := by
  unfold told
  cases hdefault : defaults.lookup key with
  | none => exact getAttr_unknown hdefault
  | some value =>
    have hkey : key ∈ defaults.map Prod.fst := List.mem_map_of_mem (mem_of_default hdefault)
    have hlast : c.getAttr key = ((given (isFlag key) (args.drop 1)).map Except.ok).getD
        (({} : Configs).getAttr key) := by
      refine takePairs_given (fun c : Configs => c.getAttr key) (isFlag key) Except.ok ?_ ?_ h
      · intro t flag v t' hset
        exact setFlag_getAttr hkey hset
      · intro t flag t' hset
        rw [setFlag_alone hset]
    rw [hlast, getAttr_default hdefault]
    cases given (isFlag key) (args.drop 1) with
    | none => rfl
    | some v => rfl

end Configs

/-! ## The stats of the process -/

/-- `to_lowercase`: no character outside ASCII becomes a letter of the flags it is compared with. -/
def asciiLower (s : String) : String := String.ofList (s.toList.map Char.toLower)

/-- `parse::<u16>` -/
def parsePort (s : String) : Option Nat := (parseUint (2 ^ 16 - 1) s).toOption

def ReplStats.parseReplicaof (s : Option String) : Option (Option ReplStats) :=
  match s with
  | none => some none
  | some v =>
    match splitOnChar ' ' v with
    | host :: port :: _ => (parsePort port).map fun port => some { host := some host, port := some port }
    | _ => none

namespace AppStates

structure Vars where
  host : Option String := none
  port : Option Nat := none
  replicaStats : Option String := none

def isHost (flag : String) : Bool := decide (asciiLower flag = "--host")

def isPort (flag : String) : Bool := decide (asciiLower flag = "--port" ∨ asciiLower flag = "-p")

def isReplicaof (flag : String) : Bool := decide (asciiLower flag = "--replicaof")

def setFlag (vars : Vars) (flag : String) (value : Option String) : Option Vars :=
  if isHost flag then value.map fun v => { vars with host := some v }
  else if isPort flag then value.bind fun v => (parsePort v).map fun port => { vars with port := some port }
  else if isReplicaof flag then value.map fun v => { vars with replicaStats := some v }
  else some vars

/-- The first argument is the program. -/
def init (args : List String) : Option AppStates :=
  (takePairs setFlag {} (args.drop 1)).bind fun vars =>
    let hostResp : ReplStats := { host := some (vars.host.getD "127.0.0.1"), port := some (vars.port.getD 6379) }
    (ReplStats.parseReplicaof vars.replicaStats).map fun masterRepl =>
      { hostStats := some hostResp.startBytesCount, masterStats := masterRepl }

def Accepts (flag : String) (value : Option String) : Prop :=
  isHost flag = true ∨ isPort flag = true ∨ isReplicaof flag = true → ∃ v, value = some v ∧
    (isPort flag = true → ∃ port, parsePort v = some port)

def NamesMaster (v : String) (host : String) (port : Nat) : Prop :=
  ∃ word rest, splitOnChar ' ' v = host :: word :: rest ∧ parsePort word = some port

theorem parseReplicaof_some {v : String} {master : Option ReplStats} :
    ReplStats.parseReplicaof (some v) = some master ↔
      ∃ host port, NamesMaster v host port ∧ master = some { host := some host, port := some port } := by
  unfold ReplStats.parseReplicaof NamesMaster
  constructor
  · intro h
    split at h
    · rename_i heq
      cases heq
    · rename_i heq
      cases heq
      split at h
      · rename_i host word rest hsplit
        obtain ⟨port, hport, rfl⟩ := Option.map_eq_some_iff.mp h
        exact ⟨host, port, ⟨word, rest, hsplit, hport⟩, rfl⟩
      · cases h
  · intro h
    obtain ⟨host, port, ⟨word, rest, hsplit, hport⟩, rfl⟩ := h
    simp [hsplit, hport]

theorem isPort_of_isHost {flag : String} (h : isHost flag = true) : isPort flag = false := by
  have hlower : asciiLower flag = "--host" := of_decide_eq_true h
  simp [isPort, hlower]

theorem isPort_of_isReplicaof {flag : String} (h : isReplicaof flag = true) : isPort flag = false := by
  have hlower : asciiLower flag = "--replicaof" := of_decide_eq_true h
  simp [isPort, hlower]

theorem isHost_of_isReplicaof {flag : String} (h : isReplicaof flag = true) : isHost flag = false := by
  have hlower : asciiLower flag = "--replicaof" := of_decide_eq_true h
  simp [isHost, hlower]

theorem setFlag_isSome (vars : Vars) (flag : String) (value : Option String) :
    (setFlag vars flag value).isSome = true ↔ Accepts flag value := by
  unfold Accepts setFlag
  by_cases hhost : isHost flag
  · cases value <;> simp [hhost, isPort_of_isHost hhost]
  · by_cases hport : isPort flag
    · cases value <;> simp [hhost, hport, Option.isSome_iff_exists]
    · by_cases hreplica : isReplicaof flag
      · cases value <;> simp [hhost, hport, hreplica]
      · simp [hhost, hport, hreplica]

theorem setFlag_alone {vars vars' : Vars} {flag : String} (h : setFlag vars flag none = some vars') : vars' = vars := by
  unfold setFlag at h
  by_cases hhost : isHost flag
  · simp [hhost] at h
  · by_cases hport : isPort flag
    · simp [hhost, hport] at h
    · by_cases hreplica : isReplicaof flag
      · simp [hhost, hport, hreplica] at h
      · simpa [hhost, hport, hreplica] using h.symm

theorem setFlag_sets {vars vars' : Vars} {flag v : String} (h : setFlag vars flag (some v) = some vars') :
    vars'.host = (if isHost flag then some v else vars.host) ∧
    vars'.port = (if isPort flag then parsePort v else vars.port) ∧
    vars'.replicaStats = if isReplicaof flag then some v else vars.replicaStats := by
  unfold setFlag at h
  by_cases hreplica : isReplicaof flag
  · simp only [isHost_of_isReplicaof hreplica, isPort_of_isReplicaof hreplica, hreplica] at h ⊢
    cases h
    simp
  · by_cases hhost : isHost flag
    · simp only [hhost, if_true] at h
      cases h
      simp [hhost, hreplica, isPort_of_isHost hhost]
    · by_cases hport : isPort flag
      · simp only [hhost, hport, Bool.false_eq_true, if_false, if_true] at h
        obtain ⟨port, hparse, rfl⟩ := Option.map_eq_some_iff.mp h
        simp [hhost, hport, hreplica, hparse]
      · simp only [hhost, hport, hreplica, Bool.false_eq_true, if_false] at h
        cases h
        simp [hhost, hport, hreplica]

theorem takePairs_vars {words : List String} {vars : Vars} (h : takePairs setFlag {} words = some vars) :
    vars =
      { host := given isHost words, port := (given isPort words).bind parsePort,
        replicaStats := given isReplicaof words } := by
  have halone : ∀ (t : Vars) flag t', setFlag t flag none = some t' → t' = t := fun _ _ _ => setFlag_alone
  have hhost : vars.host = ((given isHost words).map some).getD none :=
    takePairs_given Vars.host isHost some (fun _ _ _ _ hset => (setFlag_sets hset).1)
      (fun t flag t' hset => congrArg Vars.host (halone t flag t' hset)) h
  have hport : vars.port = ((given isPort words).map parsePort).getD none :=
    takePairs_given Vars.port isPort parsePort (fun _ _ _ _ hset => (setFlag_sets hset).2.1)
      (fun t flag t' hset => congrArg Vars.port (halone t flag t' hset)) h
  have hreplica : vars.replicaStats = ((given isReplicaof words).map some).getD none :=
    takePairs_given Vars.replicaStats isReplicaof some (fun _ _ _ _ hset => (setFlag_sets hset).2.2)
      (fun t flag t' hset => congrArg Vars.replicaStats (halone t flag t' hset)) h
  have hsame : ∀ x : Option String, (x.map some).getD none = x := fun x => by cases x <;> rfl
  have hbind : ∀ x : Option String, (x.map parsePort).getD none = x.bind parsePort := fun x => by cases x <;> rfl
  rw [hsame] at hhost hreplica
  rw [hbind] at hport
  rw [← hhost, ← hport, ← hreplica]

structure Told (words : List String) (s : AppStates) : Prop where
  host : s.hostStats = some
    { host := some ((given isHost words).getD "127.0.0.1")
      port := some (((given isPort words).bind parsePort).getD 6379)
      offset := 0 }
  master : ReplStats.parseReplicaof (given isReplicaof words) = some s.masterStats

theorem init_told {args : List String} {s : AppStates} (h : init args = some s) : Told (args.drop 1) s := by
  obtain ⟨vars, hvars, hinit⟩ := Option.bind_eq_some_iff.mp h
  obtain ⟨master, hmaster, rfl⟩ := Option.map_eq_some_iff.mp hinit
  rw [takePairs_vars hvars] at hmaster ⊢
  refine ⟨?_, hmaster⟩
  simp only [ReplStats.startBytesCount, if_true]
  rfl

theorem init_isSome (args : List String) : (init args).isSome = true ↔
    ((∀ x ∈ pairs (args.drop 1), Accepts x.1 (some x.2)) ∧ ∀ flag ∈ alone (args.drop 1), Accepts flag none) ∧
      ∀ v, given isReplicaof (args.drop 1) = some v → ∃ host port, NamesMaster v host port := by
  rw [← takePairs_isSome setFlag_isSome {} (args.drop 1)]
  unfold init
  cases hvars : takePairs setFlag {} (args.drop 1) with
  | none => simp
  | some vars =>
    simp only [Option.bind_some, Option.isSome_map, Option.isSome_some, true_and, takePairs_vars hvars]
    cases given isReplicaof (args.drop 1) with
    | none => simp [ReplStats.parseReplicaof]
    | some v =>
      rw [Option.isSome_iff_exists]
      constructor
      · intro hmaster w hw
        cases hw
        obtain ⟨master, hmaster⟩ := hmaster
        obtain ⟨host, port, hnames, _⟩ := parseReplicaof_some.mp hmaster
        exact ⟨host, port, hnames⟩
      · intro hnames
        obtain ⟨host, port, hnames⟩ := hnames v rfl
        exact ⟨_, parseReplicaof_some.mpr ⟨host, port, hnames, rfl⟩⟩

end AppStates

/-! ## The process -/

structure Disk where
  dirs : String → Option AofDir
  files : String → Option Bytes

section
variable (P : Platform) (orders : Nat → IterOrder) (fuel : Nat)

namespace CmdHandler

/-- `init_sequence`, whose error is dropped, and `set_aof`. -/
def initAof (h : CmdHandler) (disk : Disk) : Option CmdHandler :=
  if h.configs.appendonly ∧ h.configs.path = none then none
  else
    let dir := h.configs.path.bind fun path => disk.dirs (path ++ "/" ++ h.configs.appenddirname)
    match (Aof.initSequence P orders fuel h.configs dir h).2 with
    | .error .panicked => none
    | .error (.failed _) => some { h with aof := some {} }
    | .ok (h, file) => some { h with aof := some { written := file.map fun _ => [] } }

def initRdb (h : CmdHandler) (disk : Disk) : Option CmdHandler :=
  match h.configs.path, h.configs.dbfilename with
  | some path, some filename => h.loadRdb (disk.files (path ++ "/" ++ filename))
  | _, _ => some h

end CmdHandler

namespace Server

def addMaster (s : Server) (masterFd : Nat) : Option Server :=
  match s.handler.appStates.masterStats with
  | none => some s
  | some stats =>
    match stats.host, stats.port, s.handler.auth.authenticate P masterFd none none with
    | some _, some _, (auth, .ok _) =>
      let (client, message) := TcpClient.initHandshake {}
      some { s with
        clients := s.clients.insert masterFd client
        handler := { s.handler with auth }
        sent := s.sent ++ [(masterFd, message)] }
    | _, _, _ => none

/-- Up to the loop. The listener is bound and the master accepts. -/
def main (args : List String) (disk : Disk) (timer : Timer) (masterFd : Nat) (epollFd : Int) : Option Server := do
  let appStates ← AppStates.init args
  let configs ← Configs.withParseConfig {} args
  let h ← { CmdHandler.new timer appStates with configs }.initAof P orders fuel disk
  let h ← h.initRdb disk
  { handler := h, epollFd : Server }.addMaster P masterFd

end Server

end

end Redis
