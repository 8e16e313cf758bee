import Mathlib.Data.List.Forall2
import Terminator.Java.Heap
import Terminator.Manager.LogService
import Terminator.Run.Invariant

/-!
# The loggers of a link

`LinkLogger.java`, with what it calls of `LogManager.java`, and `deleteLog` of `LogServiceImpl.java`
behind its check. Every link has a `LogManager`, a hierarchy of loggers of its own, from the first
logger that is asked for on; the logger of a class writes through the `FileAppender`s it was given,
and a component of a server keeps the logger it asked for when it was built.

log4j is known by its documentation: a manager has one logger for each name, `getAppender` finds an
appender of the logger by name (all are named `linkLog` here), `shutdown` closes the appenders of a
manager and takes them from its loggers, a `FileAppender` writes at the end of the file it has
opened. A logger also passes its lines on to the packages its class is in, which have no appender of
a link, and to the root, which writes to the console.

`Ledger` says what comes of it without managers, appenders and open files: which loggers write, and
what the log of each link holds. **`contents_run`**: for any sequence of calls, on any links and
classes, the files hold just that.
-/

namespace Terminator.Manager.LinkLoggers

open Terminator.Java Terminator.Run

/-! ## The model -/

/-- `LogManager`: the appenders of the logger of each class, as the files they have open. -/
structure LogManager where
  appenders : JString → List Ref

/-- `new LogManager()`. -/
instance : Inhabited LogManager := ⟨⟨fun _ => []⟩⟩

/-- A logger of a manager. -/
structure Logger where
  manager : Ref
  clazz : JString
  deriving DecidableEq

/-- The managers, the static map of `LinkLogger`, and the disk: the files there are, and which of
them is at `getLogFileLocation(linkId)`. -/
structure Logs where
  managers : Heap LogManager
  linkIdLogManagerMap : Nat → Option Ref
  files : Heap (List Byte)
  locations : Nat → Option Ref

namespace Logs

/-- `logger.getAppender(DEFAULT_APPENDER_NAME)`. -/
def getAppender (logger : Logger) (s : Logs) : Option Ref :=
  ((s.managers.get logger.manager).appenders logger.clazz).head?

/-- The log files, as `readLog` finds them. -/
def logFiles (s : Logs) : LogServiceImpl.LogFiles :=
  fun linkId => (s.locations linkId).map s.files.get

/-- What is in the log of a link. -/
def contents (s : Logs) (linkId : Nat) : List Byte := (s.logFiles linkId).getD []

end Logs

/-- `linkIdLogManagerMap.get(linkId)`, or a new manager that is put there. -/
def getLogManager (linkId : Nat) : Method Logs Ref := do
  match (← get).linkIdLogManagerMap linkId with
  | some logManager => return logManager
  | none =>
    modifyGet fun s => (s.managers.size, { s with
      managers := (s.managers.alloc default).2
      linkIdLogManagerMap := Function.update s.linkIdLogManagerMap linkId (some s.managers.size) })

/-- `FileUtils.createFile(getLogFileLocation(linkId))`. -/
def createFile (linkId : Nat) : Method Logs Unit := modify fun s =>
  match s.locations linkId with
  | some _ => s
  | none => { s with
      files := (s.files.alloc []).2
      locations := Function.update s.locations linkId (some s.files.size) }

/-- `new FileAppender(LAYOUT, getLogFileLocation(linkId))`: the file may fail to open. -/
def newFileAppender (opens : Bool) (linkId : Nat) : Method Logs Ref := do
  match (← get).locations linkId with
  | some file => if opens then return file else throw .io
  | none => throw .io

/-- `logger.addAppender(appender)`. -/
def addAppender (logger : Logger) (appender : Ref) : Method Logs Unit := modify fun s =>
  let appenders := (s.managers.get logger.manager).appenders
  let added := Function.update appenders logger.clazz (appenders logger.clazz ++ [appender])
  { s with managers := s.managers.set logger.manager ⟨added⟩ }

/-- What `getLogger` tries: a logger without an appender gets one. -/
def attach (opens : Bool) (logger : Logger) (linkId : Nat) : Method Logs Unit := do
  match (← get).getAppender logger with
  | some _ => pure ()
  | none => do
    createFile linkId
    let appender ← newFileAppender opens linkId
    addAppender logger appender

/-- The `try` statement of `getLogger`: an `IOException` goes to the log of the program. -/
def tryAttach (opens : Bool) (logger : Logger) (linkId : Nat) : Method Logs Unit :=
  try attach opens logger linkId
  catch
    | .io => pure ()
    | e => throw e

/-- `getLogger`. -/
def getLogger (opens : Bool) (clazz : JString) (linkId : Nat) : Method Logs Logger := do
  let logManager ← getLogManager linkId
  tryAttach opens ⟨logManager, clazz⟩ linkId
  return ⟨logManager, clazz⟩

/-- `shutdownLogManager`. -/
def shutdownLogManager (linkId : Nat) : Method Logs Unit := do
  match (← get).linkIdLogManagerMap linkId with
  | none => pure ()
  | some logManager =>
    modify fun s => { s with
      managers := s.managers.set logManager default
      linkIdLogManagerMap := Function.update s.linkIdLogManagerMap linkId none }

/-- `deleteLog`, behind `checkLinkStatus`. -/
def deleteLog (linkId : Nat) : Method Logs Unit := do
  shutdownLogManager linkId
  modify fun s => { s with locations := Function.update s.locations linkId none }

/-- What the appenders of a logger do with a line. -/
def callAppenders (line : List Byte) : List Ref → Heap (List Byte) → Heap (List Byte)
  | [], files => files
  | file :: appenders, files =>
    callAppenders line appenders (files.set file (files.get file ++ line))

/-- `logger.info(…)`, as the line it comes to. -/
def Logger.info (logger : Logger) (line : List Byte) : Method Logs Unit := modify fun s =>
  { s with files :=
      callAppenders line ((s.managers.get logger.manager).appenders logger.clazz) s.files }

/-! ## Runs -/

/-- A process: its logs, and the loggers its components have asked for. -/
structure Process where
  logs : Logs
  held : List Logger

/-- What happens to the logs of a process. -/
inductive Event where
  | getLogger (opens : Bool) (clazz : JString) (linkId : Nat)
  /-- A line through the logger that was asked for at place `i`. -/
  | info (i : Nat) (line : List Byte)
  | readLog (linkId : Nat)
  | deleteLog (linkId : Nat)
  | restart

/-- A new process, over the disk. -/
def boot (files : Heap (List Byte)) (locations : Nat → Option Ref) : Process :=
  ⟨⟨⟨[]⟩, fun _ => none, files, locations⟩, []⟩

/-- The process after an event. -/
def step (e : Event) (s : Process) : Process :=
  match e with
  | .getLogger opens clazz linkId =>
    match (getLogger opens clazz linkId).run s.logs with
    | .ok logger logs => ⟨logs, s.held ++ [logger]⟩
    | .error _ logs => ⟨logs, s.held⟩
  | .info i line =>
    match s.held[i]? with
    | none => s
    | some logger => ⟨after ((logger.info line).run s.logs), s.held⟩
  | .readLog linkId => ⟨after ((createFile linkId).run s.logs), s.held⟩
  | .deleteLog linkId => ⟨after ((deleteLog linkId).run s.logs), s.held⟩
  | .restart => boot s.logs.files s.logs.locations

/-! ## Which loggers write -/

/-- A logger that was asked for. It is closed when the log of its link is deleted. -/
structure Held where
  linkId : Nat
  clazz : JString
  closed : Bool

/-- The log of a link is deleted. -/
def Held.close (linkId : Nat) (h : Held) : Held :=
  if h.linkId = linkId then { h with closed := true } else h

/-- What the log of each link holds, the classes whose logger has opened it, and the loggers. -/
structure Ledger where
  contents : Nat → List Byte
  opened : Nat → JString → Bool
  held : List Held

namespace Ledger

/-- A logger writes unless its log was deleted behind it, or could never be opened. -/
def Writes (p : Ledger) (h : Held) : Prop := h.closed = false ∧ p.opened h.linkId h.clazz = true

instance (p : Ledger) (h : Held) : Decidable (p.Writes h) := instDecidableAnd

def boot (contents : Nat → List Byte) : Ledger := ⟨contents, fun _ _ => false, []⟩

/-- The logger of a class opens the log of a link, if it has not and if it can. -/
def openLog (opens : Bool) (clazz : JString) (linkId : Nat) (p : Ledger) : Ledger :=
  let opened := Function.update (p.opened linkId) clazz (p.opened linkId clazz || opens)
  { p with opened := Function.update p.opened linkId opened }

theorem opened_openLog_self (p : Ledger) (opens : Bool) (clazz : JString) (linkId : Nat) :
    (p.openLog opens clazz linkId).opened linkId clazz = (p.opened linkId clazz || opens) := by
  unfold openLog
  dsimp only
  rw [Function.update_self, Function.update_self]

theorem opened_openLog_of_ne (p : Ledger) (opens : Bool) {clazz c : JString} {linkId id : Nat}
    (h : id ≠ linkId ∨ c ≠ clazz) :
    (p.openLog opens clazz linkId).opened id c = p.opened id c := by
  unfold openLog
  dsimp only
  by_cases hid : id = linkId
  · subst hid
    rw [Function.update_self, Function.update_of_ne (h.resolve_left (· rfl))]
  · rw [Function.update_of_ne hid]

/-- The log of a link is deleted, and no logger has it open. -/
def closeLog (linkId : Nat) (p : Ledger) : Ledger where
  contents := Function.update p.contents linkId []
  opened := Function.update p.opened linkId fun _ => false
  held := p.held.map (Held.close linkId)

/-- A line through a logger. -/
def write (h : Held) (line : List Byte) (p : Ledger) : Ledger :=
  if p.Writes h then
    { p with contents := Function.update p.contents h.linkId (p.contents h.linkId ++ line) }
  else p

def step (e : Event) (p : Ledger) : Ledger :=
  match e with
  | .getLogger opens clazz linkId =>
    { p.openLog opens clazz linkId with held := p.held ++ [⟨linkId, clazz, false⟩] }
  | .info i line =>
    match p.held[i]? with
    | none => p
    | some h => p.write h line
  | .readLog _ => p
  | .deleteLog linkId => p.closeLog linkId
  | .restart => boot p.contents

@[simp] theorem held_write (h : Held) (line : List Byte) (p : Ledger) :
    (p.write h line).held = p.held := by
  unfold write
  split
  · rfl
  · rfl

@[simp] theorem opened_write (h : Held) (line : List Byte) (p : Ledger) :
    (p.write h line).opened = p.opened := by
  unfold write
  split
  · rfl
  · rfl

theorem opened_closeLog_of_ne (p : Ledger) {linkId id : Nat} (h : id ≠ linkId) :
    (p.closeLog linkId).opened id = p.opened id := Function.update_of_ne h _ _

theorem ne_of_opened_closeLog {p : Ledger} {linkId id : Nat} {c : JString}
    (h : (p.closeLog linkId).opened id c = true) : id ≠ linkId := by
  rintro rfl
  unfold closeLog at h
  dsimp only at h
  rw [Function.update_self] at h
  cases h

end Ledger

/-! ## Refinement -/

section Refinement

variable {s s' : Logs} {p : Ledger} {linkId : Nat} {m file : Ref} {clazz : JString}

/-- No two links share a manager or a file, and the loggers of a link that write have its file open
once. -/
structure Sim (s : Logs) (p : Ledger) : Prop where
  managers_lt : ∀ {id m}, s.linkIdLogManagerMap id = some m → m < s.managers.size
  managers_inj : ∀ {id id' m}, s.linkIdLogManagerMap id = some m →
    s.linkIdLogManagerMap id' = some m → id' = id
  files_lt : ∀ {id file}, s.locations id = some file → file < s.files.size
  files_inj : ∀ {id id' file}, s.locations id = some file → s.locations id' = some file → id' = id
  contents : ∀ id, s.contents id = p.contents id
  appenders : ∀ {id m}, s.linkIdLogManagerMap id = some m → ∀ c,
    (s.managers.get m).appenders c = if p.opened id c then (s.locations id).toList else []
  opened : ∀ {id c}, p.opened id c = true →
    s.linkIdLogManagerMap id ≠ none ∧ s.locations id ≠ none

/-- A logger that is not closed is one of the link's manager; the manager of a closed one is gone,
and has no appenders. -/
structure Holds (s : Logs) (logger : Logger) (h : Held) : Prop where
  clazz : logger.clazz = h.clazz
  lt : logger.manager < s.managers.size
  current : h.closed = false → s.linkIdLogManagerMap h.linkId = some logger.manager
  gone : h.closed = true → (∀ c, (s.managers.get logger.manager).appenders c = []) ∧
    ∀ id, s.linkIdLogManagerMap id ≠ some logger.manager

theorem contents_of_location (h : s.locations linkId = some file) :
    s.contents linkId = s.files.get file := by
  rw [Logs.contents, Logs.logFiles, h]
  rfl

theorem contents_of_no_location (h : s.locations linkId = none) : s.contents linkId = [] := by
  rw [Logs.contents, Logs.logFiles, h]
  rfl

/-- The state with a manager for a link that has none. -/
def withManager (s : Logs) (linkId : Nat) : Logs :=
  { s with
    managers := (s.managers.alloc default).2
    linkIdLogManagerMap := Function.update s.linkIdLogManagerMap linkId (some s.managers.size) }

theorem getLogManager_run_some (h : s.linkIdLogManagerMap linkId = some m) :
    (getLogManager linkId).run s = .ok m s := by
  unfold getLogManager
  rw [run_get_bind, h]
  rfl

theorem getLogManager_run_none (h : s.linkIdLogManagerMap linkId = none) :
    (getLogManager linkId).run s = .ok s.managers.size (withManager s linkId) := by
  unfold getLogManager
  rw [run_get_bind, h]
  rfl

theorem map_withManager (hnone : s.linkIdLogManagerMap linkId = none) {id : Nat} :
    (withManager s linkId).linkIdLogManagerMap id = some m ↔
      (id = linkId ∧ m = s.managers.size) ∨ s.linkIdLogManagerMap id = some m := by
  change Function.update s.linkIdLogManagerMap linkId (some s.managers.size) id = some m ↔ _
  by_cases hid : id = linkId
  · rw [hid, Function.update_self, hnone, Option.some.injEq]
    simp [eq_comm]
  · rw [Function.update_of_ne hid]
    simp [hid]

theorem Sim.withManager (h : Sim s p) (hnone : s.linkIdLogManagerMap linkId = none) :
    Sim (withManager s linkId) p where
  managers_lt hm := by
    rcases (map_withManager hnone).mp hm with ⟨-, rfl⟩ | hm
    · exact Heap.size_lt_size_alloc _ _
    · exact Heap.lt_size_alloc (h.managers_lt hm) _
  managers_inj hm hm' := by
    rcases (map_withManager hnone).mp hm with ⟨rfl, hsize⟩ | hid <;>
      rcases (map_withManager hnone).mp hm' with ⟨rfl, hsize'⟩ | hid'
    · rfl
    · exact absurd (h.managers_lt hid') (Nat.not_lt.mpr (Nat.le_of_eq hsize.symm))
    · exact absurd (h.managers_lt hid) (Nat.not_lt.mpr (Nat.le_of_eq hsize'.symm))
    · exact h.managers_inj hid hid'
  files_lt := h.files_lt
  files_inj := h.files_inj
  contents := h.contents
  appenders {id m} hm c := by
    rcases (map_withManager hnone).mp hm with ⟨rfl, rfl⟩ | hm
    · -- no logger of a link without a manager has opened its log
      have hclosed : p.opened id c = false :=
        Bool.eq_false_iff.mpr fun hopened => (h.opened hopened).1 hnone
      rw [hclosed, if_neg Bool.false_ne_true]
      change ((s.managers.alloc default).2.get s.managers.size).appenders c = []
      rw [Heap.get_alloc_self]
      rfl
    · change ((s.managers.alloc default).2.get m).appenders c = _
      rw [Heap.get_alloc_of_lt (h.managers_lt hm)]
      exact h.appenders hm c
  opened {id c} hopened := by
    obtain ⟨hm, hfile⟩ := h.opened hopened
    obtain ⟨m, hm⟩ := Option.ne_none_iff_exists'.mp hm
    exact ⟨Option.ne_none_iff_exists'.mpr ⟨m, (map_withManager hnone).mpr (.inr hm)⟩, hfile⟩

theorem Holds.withManager {logger : Logger} {h : Held} (hold : Holds s logger h)
    (hnone : s.linkIdLogManagerMap linkId = none) : Holds (withManager s linkId) logger h where
  clazz := hold.clazz
  lt := Heap.lt_size_alloc hold.lt _
  current hclosed := (map_withManager hnone).mpr (.inr (hold.current hclosed))
  gone hclosed := by
    obtain ⟨happenders, hmap⟩ := hold.gone hclosed
    refine ⟨fun c => ?_, fun id hid => ?_⟩
    · change ((s.managers.alloc default).2.get logger.manager).appenders c = []
      rw [Heap.get_alloc_of_lt hold.lt]
      exact happenders c
    · rcases (map_withManager hnone).mp hid with ⟨-, hsize⟩ | hid
      · exact absurd hold.lt (Nat.not_lt.mpr (Nat.le_of_eq hsize.symm))
      · exact hmap id hid

/-- The manager of a link, as `getLogger` gets it. -/
theorem getLogManager_spec (h : Sim s p) (linkId : Nat) :
    ∃ m s', (getLogManager linkId).run s = .ok m s' ∧ Sim s' p ∧
      s'.linkIdLogManagerMap linkId = some m ∧
      ∀ logger hold, Holds s logger hold → Holds s' logger hold := by
  cases hm : s.linkIdLogManagerMap linkId with
  | some m => exact ⟨m, s, getLogManager_run_some hm, h, hm, fun _ _ hold => hold⟩
  | none =>
    exact ⟨s.managers.size, withManager s linkId, getLogManager_run_none hm, h.withManager hm,
      (map_withManager hm).mpr (.inl ⟨rfl, rfl⟩), fun _ _ hold => hold.withManager hm⟩

/-! ## Appenders -/

/-- The same managers, and perhaps one more file. -/
structure SameManagers (s s' : Logs) : Prop where
  managers : s'.managers = s.managers
  map : s'.linkIdLogManagerMap = s.linkIdLogManagerMap

theorem Holds.of_sameManagers {logger : Logger} {h : Held} (hold : Holds s logger h)
    (hsame : SameManagers s s') : Holds s' logger h where
  clazz := hold.clazz
  lt := by
    rw [hsame.managers]
    exact hold.lt
  current hclosed := by
    rw [hsame.map]
    exact hold.current hclosed
  gone hclosed := by
    rw [hsame.managers, hsame.map]
    exact hold.gone hclosed

/-- `readLog` finds the files `createFile` leaves. -/
theorem logFiles_createFile (h : Sim s p) (linkId : Nat) :
    (after ((createFile linkId).run s)).logFiles = LogServiceImpl.createFile linkId s.logFiles := by
  have hrun : after ((createFile linkId).run s) = match s.locations linkId with
      | some _ => s
      | none => { s with
          files := (s.files.alloc []).2
          locations := Function.update s.locations linkId (some s.files.size) } := rfl
  rw [hrun]
  funext id
  unfold LogServiceImpl.createFile Logs.logFiles
  by_cases hid : id = linkId
  · subst hid
    rw [if_pos rfl]
    cases hfile : s.locations id with
    | some file =>
      dsimp only
      rw [hfile]
      rfl
    | none =>
      dsimp only
      rw [Function.update_self, Option.map_some, Heap.get_alloc_self]
      rfl
  · rw [if_neg hid]
    cases hfile : s.locations linkId with
    | some file => rfl
    | none =>
      dsimp only
      rw [Function.update_of_ne hid]
      cases hfile' : s.locations id with
      | none => rfl
      | some file =>
        rw [Option.map_some, Option.map_some, Heap.get_alloc_of_lt (h.files_lt hfile')]

/-- **`createFile`**: the link has a file, and its log stays as it is. -/
theorem createFile_spec (h : Sim s p) (linkId : Nat) :
    ∃ file s', (createFile linkId).run s = .ok () s' ∧ Sim s' p ∧
      s'.locations linkId = some file ∧ SameManagers s s' := by
  have hcontents : ∀ id, (after ((createFile linkId).run s)).contents id = p.contents id := by
    intro id
    rw [← h.contents id]
    unfold Logs.contents
    rw [logFiles_createFile h linkId]
    unfold LogServiceImpl.createFile
    by_cases hid : id = linkId
    · rw [if_pos hid, hid]
      rfl
    · rw [if_neg hid]
  cases hfile : s.locations linkId with
  | some file =>
    refine ⟨file, s, ?_, h, hfile, rfl, rfl⟩
    unfold createFile
    rw [EStateM.run_modify, hfile]
  | none =>
    let s' : Logs := { s with
      files := (s.files.alloc []).2
      locations := Function.update s.locations linkId (some s.files.size) }
    have hrun : (createFile linkId).run s = .ok () s' := by
      unfold createFile
      rw [EStateM.run_modify, hfile]
    rw [hrun] at hcontents
    have hself : s'.locations linkId = some s.files.size := Function.update_self _ _ _
    have hne : ∀ {id}, id ≠ linkId → s'.locations id = s.locations id := fun hid =>
      Function.update_of_ne hid _ _
    have hlt : ∀ {id file}, s'.locations id = some file →
        (id = linkId ∧ file = s.files.size) ∨
          (s.locations id = some file ∧ file < s.files.size) := by
      intro id file hid
      by_cases heq : id = linkId
      · rw [heq, hself] at hid
        exact .inl ⟨heq, (Option.some.inj hid).symm⟩
      · rw [hne heq] at hid
        exact .inr ⟨hid, h.files_lt hid⟩
    -- no logger of a link without a file has it open
    have hclosed : ∀ c, p.opened linkId c = false := fun c =>
      Bool.eq_false_iff.mpr fun hopened => (h.opened hopened).2 hfile
    refine ⟨s.files.size, s', hrun, ⟨h.managers_lt, h.managers_inj, ?_, ?_, hcontents, ?_, ?_⟩,
      hself, rfl, rfl⟩
    · intro id file hid
      rcases hlt hid with ⟨-, rfl⟩ | ⟨-, hfile_lt⟩
      · exact Heap.size_lt_size_alloc _ _
      · exact Heap.lt_size_alloc hfile_lt _
    · intro id id' file hid hid'
      rcases hlt hid with ⟨rfl, rfl⟩ | ⟨hid, hfile_lt⟩ <;>
        rcases hlt hid' with ⟨rfl, hsize⟩ | ⟨hid', hfile_lt'⟩
      · rfl
      · exact absurd hfile_lt' (Nat.lt_irrefl _)
      · exact absurd hfile_lt (Nat.not_lt.mpr (Nat.le_of_eq hsize.symm))
      · exact h.files_inj hid hid'
    · intro id m hm c
      rw [h.appenders hm c]
      by_cases heq : id = linkId
      · rw [heq, hclosed c, if_neg Bool.false_ne_true, if_neg Bool.false_ne_true]
      · rw [hne heq]
    · intro id c hopened
      obtain ⟨hm, hid⟩ := h.opened hopened
      refine ⟨hm, ?_⟩
      have heq : id ≠ linkId := by
        rintro rfl
        exact hid hfile
      rw [hne heq]
      exact hid

/-- A logger of a link's manager that has no appender gets one. -/
theorem addAppender_spec (h : Sim s p) (hm : s.linkIdLogManagerMap linkId = some m)
    (hfile : s.locations linkId = some file) (hclosed : p.opened linkId clazz = false) :
    ∃ s', (addAppender ⟨m, clazz⟩ file).run s = .ok () s' ∧
      Sim s' (p.openLog true clazz linkId) ∧ s'.linkIdLogManagerMap = s.linkIdLogManagerMap ∧
      ∀ logger hold, Holds s logger hold → Holds s' logger hold := by
  have hnone : (s.managers.get m).appenders clazz = [] := by
    rw [h.appenders hm clazz, hclosed, if_neg Bool.false_ne_true]
  refine ⟨_, rfl, ⟨fun hid => ?_, h.managers_inj, h.files_lt, h.files_inj, h.contents, ?_, ?_⟩, rfl,
    fun logger hold hholds => ?_⟩
  · rw [Heap.size_set]
    exact h.managers_lt hid
  · intro id m' hid c
    by_cases heq : id = linkId
    · subst heq
      obtain rfl := Option.some.inj (hm.symm.trans hid)
      rw [Heap.get_set_self (h.managers_lt hm)]
      by_cases hc : c = clazz
      · subst hc
        rw [p.opened_openLog_self, Bool.or_true, if_pos rfl]
        dsimp only
        rw [Function.update_self, hnone, hfile]
        rfl
      · rw [p.opened_openLog_of_ne true (.inr hc), ← h.appenders hm c]
        dsimp only
        rw [Function.update_of_ne hc]
    · have hne : m ≠ m' := by
        rintro rfl
        exact heq (h.managers_inj hm hid)
      rw [Heap.get_set_ne hne, p.opened_openLog_of_ne true (.inl heq)]
      exact h.appenders hid c
  · intro id c hopened
    by_cases heq : id = linkId
    · subst heq
      exact ⟨Option.ne_none_iff_exists'.mpr ⟨m, hm⟩, Option.ne_none_iff_exists'.mpr ⟨file, hfile⟩⟩
    · rw [p.opened_openLog_of_ne true (.inl heq)] at hopened
      exact h.opened hopened
  · refine ⟨hholds.clazz, ?_, hholds.current, fun hold_closed => ?_⟩
    · rw [Heap.size_set]
      exact hholds.lt
    · obtain ⟨happenders, hmap⟩ := hholds.gone hold_closed
      refine ⟨fun c => ?_, hmap⟩
      have hne : m ≠ logger.manager := by
        rintro rfl
        exact hmap linkId hm
      rw [Heap.get_set_ne hne]
      exact happenders c

theorem tryAttach_run_of_ok {opens : Bool} {logger : Logger}
    (h : (attach opens logger linkId).run s = .ok () s') :
    (tryAttach opens logger linkId).run s = .ok () s' := by
  change EStateM.tryCatch (attach opens logger linkId) _ s = _
  unfold EStateM.tryCatch
  rw [show attach opens logger linkId s = .ok () s' from h]

theorem tryAttach_run_of_io {opens : Bool} {logger : Logger}
    (h : (attach opens logger linkId).run s = .error .io s') :
    (tryAttach opens logger linkId).run s = .ok () s' := by
  change EStateM.tryCatch (attach opens logger linkId) _ s = _
  unfold EStateM.tryCatch
  rw [show attach opens logger linkId s = .error .io s' from h]
  rfl

theorem openLog_of_opened (opens : Bool) (h : p.opened linkId clazz = true) :
    p.openLog opens clazz linkId = p := by
  rw [Ledger.openLog, h, Bool.true_or, ← h, Function.update_eq_self, Function.update_eq_self]

theorem openLog_false (p : Ledger) (clazz : JString) (linkId : Nat) :
    p.openLog false clazz linkId = p := by
  rw [Ledger.openLog, Bool.or_false, Function.update_eq_self, Function.update_eq_self]

/-- **A logger opens the log of its link** unless it has, or cannot. -/
theorem tryAttach_spec (h : Sim s p) (opens : Bool) (clazz : JString)
    (hm : s.linkIdLogManagerMap linkId = some m) :
    ∃ s', (tryAttach opens ⟨m, clazz⟩ linkId).run s = .ok () s' ∧
      Sim s' (p.openLog opens clazz linkId) ∧ s'.linkIdLogManagerMap = s.linkIdLogManagerMap ∧
      ∀ logger hold, Holds s logger hold → Holds s' logger hold := by
  cases hopened : p.opened linkId clazz with
  | true =>
    have happender : s.getAppender ⟨m, clazz⟩ ≠ none := by
      obtain ⟨file, hfile⟩ := Option.ne_none_iff_exists'.mp (h.opened hopened).2
      rw [Logs.getAppender, h.appenders hm clazz, hopened, if_pos rfl, hfile]
      exact Option.some_ne_none file
    obtain ⟨file, happender⟩ := Option.ne_none_iff_exists'.mp happender
    have hattach : (attach opens ⟨m, clazz⟩ linkId).run s = .ok () s := by
      unfold attach
      rw [run_get_bind, happender]
      rfl
    refine ⟨s, tryAttach_run_of_ok hattach, ?_, rfl, fun _ _ hold => hold⟩
    rw [openLog_of_opened opens hopened]
    exact h
  | false =>
    have happender : s.getAppender ⟨m, clazz⟩ = none := by
      rw [Logs.getAppender, h.appenders hm clazz, hopened, if_neg Bool.false_ne_true]
      rfl
    obtain ⟨file, s1, hcreate, hsim, hfile, hsame⟩ := createFile_spec h linkId
    have hattach : (attach opens ⟨m, clazz⟩ linkId).run s =
        (newFileAppender opens linkId >>= addAppender ⟨m, clazz⟩).run s1 := by
      unfold attach
      rw [run_get_bind, happender]
      exact run_bind_of_ok hcreate
    cases opens with
    | false =>
      refine ⟨s1, tryAttach_run_of_io ?_, ?_, hsame.map, fun _ _ hold => hold.of_sameManagers hsame⟩
      · rw [hattach, newFileAppender, run_bind_of_error]
        rw [run_get_bind, hfile]
        rfl
      · rw [openLog_false]
        exact hsim
    | true =>
      have hnew : (newFileAppender true linkId).run s1 = .ok file s1 := by
        unfold newFileAppender
        rw [run_get_bind, hfile]
        rfl
      obtain ⟨s2, hrun, hsim', hmap, hholds⟩ :=
        addAppender_spec hsim (by rw [hsame.map, hm]) hfile hopened
      refine ⟨s2, tryAttach_run_of_ok ?_, hsim', by rw [hmap, hsame.map],
        fun logger hold hold' => hholds logger hold (hold'.of_sameManagers hsame)⟩
      rw [hattach, run_bind_of_ok hnew, hrun]

/-! ## The three methods -/

/-- The ledger says nothing of the managers and files through its loggers. -/
theorem Sim.of_held (h : Sim s p) (held : List Held) : Sim s { p with held := held } :=
  ⟨h.managers_lt, h.managers_inj, h.files_lt, h.files_inj, h.contents, h.appenders, h.opened⟩

/-- **`getLogger`**: a logger of the link's manager, with the log open if it can be. -/
theorem getLogger_spec (h : Sim s p) (opens : Bool) (clazz : JString) (linkId : Nat) :
    ∃ logger s', (getLogger opens clazz linkId).run s = .ok logger s' ∧
      Sim s' (p.openLog opens clazz linkId) ∧ Holds s' logger ⟨linkId, clazz, false⟩ ∧
      ∀ logger hold, Holds s logger hold → Holds s' logger hold := by
  obtain ⟨m, s1, hrun1, hsim1, hm, hholds1⟩ := getLogManager_spec h linkId
  obtain ⟨s2, hrun2, hsim2, hmap, hholds2⟩ := tryAttach_spec hsim1 opens clazz hm
  refine ⟨⟨m, clazz⟩, s2, ?_, hsim2, ⟨rfl, ?_, fun _ => by rw [hmap]; exact hm, nofun⟩,
    fun logger hold hold' => hholds2 logger hold (hholds1 logger hold hold')⟩
  · unfold getLogger
    rw [run_bind_of_ok hrun1, run_bind_of_ok hrun2]
    rfl
  · exact hsim2.managers_lt (by rw [hmap]; exact hm)

/-- The state after `shutdownLogManager`. -/
structure Shut (s : Logs) (linkId : Nat) (s' : Logs) : Prop where
  map : s'.linkIdLogManagerMap = Function.update s.linkIdLogManagerMap linkId none
  files : s'.files = s.files
  locations : s'.locations = s.locations
  size : s'.managers.size = s.managers.size
  others : ∀ m, s.linkIdLogManagerMap linkId ≠ some m → s'.managers.get m = s.managers.get m
  closed : ∀ m, m < s.managers.size → s.linkIdLogManagerMap linkId = some m →
    s'.managers.get m = default

theorem shutdownLogManager_spec (s : Logs) (linkId : Nat) :
    ∃ s', (shutdownLogManager linkId).run s = .ok () s' ∧ Shut s linkId s' := by
  cases hm : s.linkIdLogManagerMap linkId with
  | none =>
    refine ⟨s, ?_, ?_, rfl, rfl, rfl, fun _ _ => rfl, fun m _ hm' => ?_⟩
    · unfold shutdownLogManager
      rw [run_get_bind, hm]
      rfl
    · rw [← hm, Function.update_eq_self]
    · rw [hm] at hm'
      cases hm'
  | some m =>
    refine ⟨{ s with
      managers := s.managers.set m default
      linkIdLogManagerMap := Function.update s.linkIdLogManagerMap linkId none }, ?_, rfl, rfl, rfl,
      Heap.size_set _ _ _, fun m' hm' => ?_, fun m' hlt hm' => ?_⟩
    · unfold shutdownLogManager
      rw [run_get_bind, hm]
      rfl
    · refine Heap.get_set_ne ?_ _
      rintro rfl
      exact hm' hm
    · obtain rfl := Option.some.inj (hm.symm.trans hm')
      exact Heap.get_set_self hlt _

theorem Shut.map_iff (h : Shut s linkId s') {id : Nat} :
    s'.linkIdLogManagerMap id = some m ↔ id ≠ linkId ∧ s.linkIdLogManagerMap id = some m := by
  rw [h.map]
  by_cases hid : id = linkId
  · rw [hid, Function.update_self]
    simp
  · rw [Function.update_of_ne hid]
    simp [hid]

/-- **`deleteLog`** empties the log and closes the loggers of its link. -/
theorem deleteLog_spec (h : Sim s p) (linkId : Nat) :
    ∃ s', (deleteLog linkId).run s = .ok () s' ∧ Sim s' (p.closeLog linkId) ∧
      ∀ logger hold, Holds s logger hold → Holds s' logger (hold.close linkId) := by
  obtain ⟨s1, hrun, hshut⟩ := shutdownLogManager_spec s linkId
  have hlocation : ∀ {id file}, Function.update s1.locations linkId none id = some file →
      id ≠ linkId ∧ s.locations id = some file := by
    intro id file hid
    by_cases heq : id = linkId
    · rw [heq, Function.update_self] at hid
      cases hid
    · rw [Function.update_of_ne heq, hshut.locations] at hid
      exact ⟨heq, hid⟩
  refine ⟨{ s1 with locations := Function.update s1.locations linkId none }, ?_,
    ⟨?_, ?_, ?_, ?_, ?_, ?_, ?_⟩, fun logger hold hholds => ?_⟩
  · unfold deleteLog
    rw [run_bind_of_ok hrun]
    rfl
  · intro id m hm
    rw [hshut.size]
    exact h.managers_lt (hshut.map_iff.mp hm).2
  · intro id id' m hm hm'
    exact h.managers_inj (hshut.map_iff.mp hm).2 (hshut.map_iff.mp hm').2
  · intro id file hid
    rw [hshut.files]
    exact h.files_lt (hlocation hid).2
  · intro id id' file hid hid'
    exact h.files_inj (hlocation hid).2 (hlocation hid').2
  · intro id
    unfold Logs.contents Logs.logFiles Ledger.closeLog
    dsimp only
    by_cases heq : id = linkId
    · rw [heq, Function.update_self, Function.update_self]
      rfl
    · rw [Function.update_of_ne heq, Function.update_of_ne heq, hshut.locations, hshut.files]
      exact h.contents id
  · intro id m hm c
    obtain ⟨heq, hid⟩ := hshut.map_iff.mp hm
    have hne : s.linkIdLogManagerMap linkId ≠ some m := fun hm' => heq (h.managers_inj hm' hid)
    dsimp only
    rw [hshut.others m hne, h.appenders hid c, p.opened_closeLog_of_ne heq,
      Function.update_of_ne heq, hshut.locations]
  · intro id c hopened
    have heq := Ledger.ne_of_opened_closeLog hopened
    rw [p.opened_closeLog_of_ne heq] at hopened
    dsimp only
    rw [hshut.map, Function.update_of_ne heq, Function.update_of_ne heq, hshut.locations]
    exact h.opened hopened
  · have hstill : hold.closed = true →
        (∀ c, (s1.managers.get logger.manager).appenders c = []) ∧
          ∀ id, s1.linkIdLogManagerMap id ≠ some logger.manager := by
      intro hclosed
      obtain ⟨happenders, hmap⟩ := hholds.gone hclosed
      rw [hshut.others _ (hmap linkId)]
      exact ⟨happenders, fun id hid => hmap id (hshut.map_iff.mp hid).2⟩
    have hlt : logger.manager < s1.managers.size := by
      rw [hshut.size]
      exact hholds.lt
    unfold Held.close
    by_cases heq : hold.linkId = linkId
    · rw [if_pos heq]
      refine ⟨hholds.clazz, hlt, nofun, fun _ => ?_⟩
      cases hclosed : hold.closed with
      | true => exact hstill hclosed
      | false =>
        -- its manager is the one that was shut down
        have hm := hholds.current hclosed
        rw [heq] at hm
        refine ⟨fun c => ?_, fun id hid => ?_⟩
        · dsimp only
          rw [hshut.closed _ hholds.lt hm]
          rfl
        · obtain ⟨hne, hid⟩ := hshut.map_iff.mp hid
          exact hne (h.managers_inj hm hid)
    · rw [if_neg heq]
      exact ⟨hholds.clazz, hlt, fun hclosed => hshut.map_iff.mpr ⟨heq, hholds.current hclosed⟩,
        hstill⟩

/-- The appenders of a logger: the log of its link, if it writes. -/
theorem appenders_of_holds (h : Sim s p) {logger : Logger} {hold : Held}
    (hholds : Holds s logger hold) :
    (s.managers.get logger.manager).appenders logger.clazz =
      if p.Writes hold then (s.locations hold.linkId).toList else [] := by
  cases hclosed : hold.closed with
  | true =>
    have hnot : ¬ p.Writes hold := fun hwrites =>
      Bool.false_ne_true (hwrites.1.symm.trans hclosed)
    rw [if_neg hnot]
    exact (hholds.gone hclosed).1 _
  | false =>
    rw [h.appenders (hholds.current hclosed), hholds.clazz]
    by_cases hopened : p.opened hold.linkId hold.clazz = true
    · rw [if_pos hopened, if_pos ⟨hclosed, hopened⟩]
    · rw [if_neg hopened, if_neg fun hwrites => hopened hwrites.2]

/-- **`info`**: a line goes to the log of its link once, or nowhere. -/
theorem info_spec (h : Sim s p) {logger : Logger} {hold : Held} (hholds : Holds s logger hold)
    (line : List Byte) :
    ∃ s', (logger.info line).run s = .ok () s' ∧ Sim s' (p.write hold line) ∧
      SameManagers s s' := by
  let appenders := (s.managers.get logger.manager).appenders logger.clazz
  refine ⟨{ s with files := callAppenders line appenders s.files }, rfl, ?_, rfl, rfl⟩
  dsimp only [appenders]
  rw [appenders_of_holds h hholds]
  unfold Ledger.write
  by_cases hwrites : p.Writes hold
  · obtain ⟨file, hfile⟩ := Option.ne_none_iff_exists'.mp (h.opened hwrites.2).2
    rw [if_pos hwrites, if_pos hwrites, hfile]
    refine ⟨h.managers_lt, h.managers_inj, fun hid => ?_, h.files_inj, fun id => ?_, h.appenders,
      h.opened⟩
    · rw [show callAppenders line (some file).toList s.files =
        s.files.set file (s.files.get file ++ line) from rfl, Heap.size_set]
      exact h.files_lt hid
    · unfold Logs.contents Logs.logFiles
      dsimp only [Option.toList, callAppenders]
      by_cases heq : id = hold.linkId
      · rw [heq, hfile, Function.update_self, ← h.contents, contents_of_location hfile,
          Option.map_some, Option.getD_some, Heap.get_set_self (h.files_lt hfile)]
      · rw [Function.update_of_ne heq, ← h.contents]
        cases hid : s.locations id with
        | none => rw [contents_of_no_location hid, Option.map_none, Option.getD_none]
        | some file' =>
          have hne : file ≠ file' := by
            rintro rfl
            exact heq (h.files_inj hfile hid)
          rw [contents_of_location hid, Option.map_some, Option.getD_some, Heap.get_set_ne hne]
  · rw [if_neg hwrites, if_neg hwrites]
    exact h

/-! ## Runs -/

/-- The logs, and the loggers that are held. -/
structure Related (s : Process) (p : Ledger) : Prop where
  logs : Sim s.logs p
  held : List.Forall₂ (Holds s.logs) s.held p.held

theorem getElem?_of_forall₂ {α β : Type} {R : α → β → Prop} {as : List α} {bs : List β}
    (h : List.Forall₂ R as bs) (i : Nat) :
    (as[i]? = none ∧ bs[i]? = none) ∨ ∃ a b, as[i]? = some a ∧ bs[i]? = some b ∧ R a b := by
  induction h generalizing i with
  | nil => exact .inl ⟨rfl, rfl⟩
  | @cons a b as bs hab _ ih =>
    cases i with
    | zero => exact .inr ⟨a, b, rfl, rfl, hab⟩
    | succ i => exact ih i

theorem related_boot (files : Heap (List Byte)) (locations : Nat → Option Ref)
    (contents : Nat → List Byte)
    (hlt : ∀ {id file}, locations id = some file → file < files.size)
    (hinj : ∀ {id id' file}, locations id = some file → locations id' = some file → id' = id)
    (hcontents : ∀ id, ((locations id).map files.get).getD [] = contents id) :
    Related (boot files locations) (Ledger.boot contents) :=
  ⟨⟨nofun, nofun, hlt, hinj, hcontents, nofun, nofun⟩, .nil⟩

/-- **One event.** -/
theorem related_step (e : Event) (s : Process) (p : Ledger) (h : Related s p) :
    Related (step e s) (p.step e) := by
  cases e with
  | getLogger opens clazz linkId =>
    obtain ⟨logger, s', hrun, hsim, hnew, hholds⟩ := getLogger_spec h.logs opens clazz linkId
    unfold step
    dsimp only
    rw [hrun]
    exact ⟨hsim.of_held _, List.rel_append (h.held.imp hholds) (.cons hnew .nil)⟩
  | info i line =>
    unfold step Ledger.step
    dsimp only
    rcases getElem?_of_forall₂ h.held i with ⟨hi, hi'⟩ | ⟨logger, hold, hi, hi', hholds⟩
    · rw [hi, hi']
      exact h
    · obtain ⟨s', hrun, hsim, hsame⟩ := info_spec h.logs hholds line
      rw [hi, hi']
      dsimp only
      rw [hrun]
      refine ⟨hsim, ?_⟩
      rw [p.held_write]
      exact h.held.imp fun _ _ hold' => hold'.of_sameManagers hsame
  | readLog linkId =>
    obtain ⟨-, s', hrun, hsim, -, hsame⟩ := createFile_spec h.logs linkId
    unfold step
    dsimp only
    rw [hrun]
    exact ⟨hsim, h.held.imp fun _ _ hold => hold.of_sameManagers hsame⟩
  | deleteLog linkId =>
    obtain ⟨s', hrun, hsim, hholds⟩ := deleteLog_spec h.logs linkId
    unfold step
    dsimp only
    rw [hrun]
    exact ⟨hsim, List.forall₂_map_right_iff.mpr (h.held.imp hholds)⟩
  | restart => exact related_boot _ _ _ h.logs.files_lt h.logs.files_inj h.logs.contents

/-- **What the logs hold**: after any calls, from an empty disk on, the log of a link holds what the
ledger says. -/
theorem contents_run (es : List Event) (linkId : Nat) :
    (run step es (boot ⟨[]⟩ fun _ => none)).logs.contents linkId =
      (run Ledger.step es (Ledger.boot fun _ => [])).contents linkId := by
  have hboot : Related (boot ⟨[]⟩ fun _ => none) (Ledger.boot fun _ => []) :=
    related_boot _ _ _ nofun nofun fun _ => rfl
  have hmeets : Meets step (fun _ _ => True) es (boot ⟨[]⟩ fun _ => none) :=
    meets_of_forall fun _ _ _ => trivial
  have hrun := run_of_simulation (fun e s p h _ => related_step e s p h) hboot hmeets
  exact hrun.logs.contents linkId

end Refinement

end Terminator.Manager.LinkLoggers
