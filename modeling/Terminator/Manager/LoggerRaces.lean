import Terminator.Manager.LinkLoggers

/-!
# Threads that ask for loggers

`getLogger` of `LinkLogger.java` called by any number of threads, statement by statement. Handlers
ask for their loggers when they are built, a relay handler on the worker thread of its connection,
and `getLogger` takes no lock: the map of the managers and log4j's own objects are safe for threads,
the two look-ups before an insertion are not. A statement a thread is not at leaves the state as it
is, so every list of events is an interleaving.

* **`always_once_iff`**: every line goes to the log of its link once, or not at all if its logger
  has no appender, in every state of a run, exactly when no thread adds an appender to a logger that
  was given one behind its back; `contents_of_first` is what the logs hold after such a run;
* `getLogger_alone`: a thread that is left alone does what `getLogger` does in `LinkLoggers`.
-/

namespace Terminator.Manager.LoggerRaces

open Terminator.Java Terminator.Run
open Terminator.Manager.LinkLoggers

/-! ## The model -/

/-- Where a thread is in `getLogger`. -/
inductive Phase where
  | idle
  /-- The map had no manager for the link. -/
  | noManager (clazz : JString) (linkId : Nat)
  | logger (logger : Logger) (linkId : Nat)
  /-- `getAppender` was `null`. -/
  | noAppender (logger : Logger) (linkId : Nat)
  | created (logger : Logger) (linkId : Nat)
  | appender (logger : Logger) (linkId : Nat) (appender : Ref)

/-- The logs of a process, its threads, and the loggers that `getLogger` has returned, each with the
link it was asked for; `linkOf`, the link a manager was made for, is for the observer alone. -/
structure Threads where
  logs : Logs
  phase : Nat → Phase
  held : List (Logger × Nat)
  linkOf : Ref → Nat

/-- The statements of `getLogger` as thread `t` comes to them, and what else is done with logs. -/
inductive Event where
  | get (t : Nat) (clazz : JString) (linkId : Nat)
  | put (t : Nat)
  | getAppender (t : Nat)
  | createFile (t : Nat)
  | newFileAppender (t : Nat) (opens : Bool)
  | addAppender (t : Nat)
  /-- A line through the logger that was returned at place `i`. -/
  | info (i : Nat) (line : List Byte)
  | readLog (linkId : Nat)

namespace Threads

/-- Thread `t` goes on to `p`. -/
def goto (s : Threads) (t : Nat) (p : Phase) : Threads :=
  { s with phase := Function.update s.phase t p }

/-- `return logger`. -/
def giveBack (s : Threads) (t : Nat) (logger : Logger) (linkId : Nat) : Threads :=
  { s.goto t .idle with held := s.held ++ [(logger, linkId)] }

/-- `linkIdLogManagerMap.put(linkId, new LogManager())`. -/
def put (linkId : Nat) (s : Threads) : Threads :=
  { s with
    logs := withManager s.logs linkId
    linkOf := Function.update s.linkOf s.logs.managers.size linkId }

/-- `FileUtils.createFile(getLogFileLocation(linkId))`. -/
def createFile (linkId : Nat) (s : Threads) : Threads :=
  { s with logs := after ((LinkLoggers.createFile linkId).run s.logs) }

/-- `logger.addAppender(appender)`. -/
def addAppender (logger : Logger) (appender : Ref) (s : Threads) : Threads :=
  { s with logs := after ((LinkLoggers.addAppender logger appender).run s.logs) }

/-- `logger.info(…)`, as the line it comes to. -/
def info (logger : Logger) (line : List Byte) (s : Threads) : Threads :=
  { s with logs := after ((logger.info line).run s.logs) }

end Threads

/-- One statement of one thread. -/
def step (e : Event) (s : Threads) : Threads :=
  match e with
  | .get t clazz linkId =>
    match s.phase t with
    | .idle =>
      match s.logs.linkIdLogManagerMap linkId with
      | some logManager => s.goto t (.logger ⟨logManager, clazz⟩ linkId)
      | none => s.goto t (.noManager clazz linkId)
    | _ => s
  | .put t =>
    match s.phase t with
    | .noManager clazz linkId =>
      (s.put linkId).goto t (.logger ⟨s.logs.managers.size, clazz⟩ linkId)
    | _ => s
  | .getAppender t =>
    match s.phase t with
    | .logger logger linkId =>
      match s.logs.getAppender logger with
      | some _ => s.giveBack t logger linkId
      | none => s.goto t (.noAppender logger linkId)
    | _ => s
  | .createFile t =>
    match s.phase t with
    | .noAppender logger linkId => (s.createFile linkId).goto t (.created logger linkId)
    | _ => s
  | .newFileAppender t opens =>
    match s.phase t with
    | .created logger linkId =>
      match (newFileAppender opens linkId).run s.logs with
      | .ok appender _ => s.goto t (.appender logger linkId appender)
      -- the `IOException` is caught, and the logger returned as it is
      | .error _ _ => s.giveBack t logger linkId
    | _ => s
  | .addAppender t =>
    match s.phase t with
    | .appender logger linkId appender =>
      (s.addAppender logger appender).giveBack t logger linkId
    | _ => s
  | .info i line =>
    match s.held[i]? with
    | some (logger, _) => s.info logger line
    | none => s
  | .readLog linkId => s.createFile linkId

/-- The log files a process finds: no two links have one. -/
structure Disk where
  files : Heap (List Byte)
  locations : Nat → Option Ref
  lt : ∀ {id file}, locations id = some file → file < files.size
  inj : ∀ {id id' file}, locations id = some file → locations id' = some file → id' = id

/-- A new process. -/
def boot (d : Disk) : Threads :=
  ⟨(LinkLoggers.boot d.files d.locations).logs, fun _ => .idle, [], fun _ => 0⟩

/-- The log of no link. -/
def Disk.empty : Disk where
  files := ⟨[]⟩
  locations _ := none
  lt h := by cases h
  inj h _ := by cases h

/-- A logger with an appender. -/
def Attached (s : Logs) (logger : Logger) : Prop := s.getAppender logger ≠ none

instance (s : Logs) (logger : Logger) : Decidable (Attached s logger) := instDecidableNot

/-- What an event should add to the log of a link. -/
def written (id : Nat) (e : Event) (s : Threads) : List Byte :=
  match e with
  | .info i line =>
    match s.held[i]? with
    | some (logger, linkId) => if linkId = id ∧ Attached s.logs logger then line else []
    | none => []
  | _ => []

/-- Whatever line is next, it is written once to the log of its link if its logger has an appender,
and else not at all. -/
def EachOnce (s : Threads) : Prop :=
  ∀ i line id, (step (.info i line) s).logs.contents id =
    s.logs.contents id ++ written id (.info i line) s

/-- A thread adds an appender to a logger that still has none. -/
def FirstAppender (e : Event) (s : Threads) : Prop :=
  ∀ t, e = .addAppender t → ∀ logger linkId appender,
    s.phase t = .appender logger linkId appender → ¬ Attached s.logs logger

/-! ## One statement -/

section Steps

variable {s s' : Threads} {t linkId : Nat} {clazz : JString} {logger : Logger} {m file : Ref}

@[simp] theorem goto_self (s : Threads) (t : Nat) (p : Phase) : (s.goto t p).phase t = p :=
  Function.update_self _ _ _

theorem goto_ne (s : Threads) {t u : Nat} (hu : u ≠ t) (p : Phase) :
    (s.goto t p).phase u = s.phase u := Function.update_of_ne hu _ _

/-- What a statement can do: go on, if the thread is at it, or leave everything as it is. -/
inductive Takes (s : Threads) : Event → Threads → Prop
  | stay (e : Event) : Takes s e s
  | found {t linkId : Nat} {clazz : JString} {m : Ref} (ht : s.phase t = .idle)
      (hm : s.logs.linkIdLogManagerMap linkId = some m) :
      Takes s (.get t clazz linkId) (s.goto t (.logger ⟨m, clazz⟩ linkId))
  | missing {t linkId : Nat} {clazz : JString} (ht : s.phase t = .idle) :
      Takes s (.get t clazz linkId) (s.goto t (.noManager clazz linkId))
  | put {t linkId : Nat} {clazz : JString} (ht : s.phase t = .noManager clazz linkId) :
      Takes s (.put t) ((s.put linkId).goto t (.logger ⟨s.logs.managers.size, clazz⟩ linkId))
  | attached {t linkId : Nat} {logger : Logger} (ht : s.phase t = .logger logger linkId)
      (hlogger : Attached s.logs logger) : Takes s (.getAppender t) (s.giveBack t logger linkId)
  | bare {t linkId : Nat} {logger : Logger} (ht : s.phase t = .logger logger linkId) :
      Takes s (.getAppender t) (s.goto t (.noAppender logger linkId))
  | created {t linkId : Nat} {logger : Logger} (ht : s.phase t = .noAppender logger linkId) :
      Takes s (.createFile t) ((s.createFile linkId).goto t (.created logger linkId))
  | opened {t linkId : Nat} {logger : Logger} {file : Ref} {opens : Bool}
      (ht : s.phase t = .created logger linkId) (hfile : s.logs.locations linkId = some file) :
      Takes s (.newFileAppender t opens) (s.goto t (.appender logger linkId file))
  | failed {t linkId : Nat} {logger : Logger} {opens : Bool}
      (ht : s.phase t = .created logger linkId)
      (hopens : opens = true → s.logs.locations linkId = none) :
      Takes s (.newFileAppender t opens) (s.giveBack t logger linkId)
  | added {t linkId : Nat} {logger : Logger} {file : Ref}
      (ht : s.phase t = .appender logger linkId file) :
      Takes s (.addAppender t) ((s.addAppender logger file).giveBack t logger linkId)
  | info {i linkId : Nat} {logger : Logger} {line : List Byte}
      (hi : s.held[i]? = some (logger, linkId)) : Takes s (.info i line) (s.info logger line)
  | readLog (linkId : Nat) : Takes s (.readLog linkId) (s.createFile linkId)

theorem takes_step (e : Event) (s : Threads) : Takes s e (step e s) := by
  cases e with
  | get t clazz linkId =>
    rw [step]
    cases ht : s.phase t with
    | idle =>
      cases hm : s.logs.linkIdLogManagerMap linkId with
      | some m => exact .found ht hm
      | none => exact .missing ht
    | noManager | logger | noAppender | created | appender => exact .stay _
  | put t =>
    rw [step]
    cases ht : s.phase t with
    | noManager => exact .put ht
    | idle | logger | noAppender | created | appender => exact .stay _
  | getAppender t =>
    rw [step]
    cases ht : s.phase t with
    | logger logger linkId =>
      dsimp only
      cases happender : s.logs.getAppender logger with
      | some file =>
        refine .attached ht ?_
        rw [Attached, happender]
        exact Option.some_ne_none file
      | none => exact .bare ht
    | idle | noManager | noAppender | created | appender => exact .stay _
  | createFile t =>
    rw [step]
    cases ht : s.phase t with
    | noAppender => exact .created ht
    | idle | noManager | logger | created | appender => exact .stay _
  | newFileAppender t opens =>
    rw [step]
    cases ht : s.phase t with
    | created logger linkId =>
      unfold newFileAppender
      dsimp only
      rw [run_get_bind]
      cases hfile : s.logs.locations linkId with
      | none => exact .failed ht fun _ => hfile
      | some file =>
        cases opens with
        | true => exact .opened ht hfile
        | false => exact .failed ht nofun
    | idle | noManager | logger | noAppender | appender => exact .stay _
  | addAppender t =>
    rw [step]
    cases ht : s.phase t with
    | appender => exact .added ht
    | idle | noManager | logger | noAppender | created => exact .stay _
  | info i line =>
    rw [step]
    cases hi : s.held[i]? with
    | some p => exact .info hi
    | none => exact .stay _
  | readLog linkId => exact .readLog linkId

/-- Statements of a thread that is at another one. -/
theorem step_createFile_of_idle (ht : s.phase t = .idle) : step (.createFile t) s = s := by
  rw [step, ht]

theorem step_newFileAppender_of_idle (opens : Bool) (ht : s.phase t = .idle) :
    step (.newFileAppender t opens) s = s := by
  rw [step, ht]

theorem step_addAppender_of_idle (ht : s.phase t = .idle) : step (.addAppender t) s = s := by
  rw [step, ht]

theorem locations_createFile (s : Logs) (linkId : Nat) :
    ∃ file, (after ((LinkLoggers.createFile linkId).run s)).locations linkId = some file := by
  unfold LinkLoggers.createFile
  rw [EStateM.run_modify]
  cases hfile : s.locations linkId with
  | some file => exact ⟨file, hfile⟩
  | none => exact ⟨s.files.size, Function.update_self _ _ _⟩

/-- A thread that is left alone attaches its logger as `tryAttach` does. -/
theorem attach_alone (opens : Bool) (ht : s.phase t = .logger logger linkId) :
    let s' := run step [.getAppender t, .createFile t, .newFileAppender t opens, .addAppender t] s
    s'.phase t = .idle ∧ s'.held = s.held ++ [(logger, linkId)] ∧
      (tryAttach opens logger linkId).run s.logs = .ok () s'.logs := by
  intro s'
  have hrun : s' = step (.addAppender t) (step (.newFileAppender t opens)
    (step (.createFile t) (step (.getAppender t) s))) := rfl
  cases happender : s.logs.getAppender logger with
  | some file =>
    have hget : step (.getAppender t) s = s.giveBack t logger linkId := by
      rw [step, ht]
      dsimp only
      rw [happender]
    have hidle : (s.giveBack t logger linkId).phase t = .idle := goto_self s t _
    rw [hrun, hget, step_createFile_of_idle hidle, step_newFileAppender_of_idle opens hidle,
      step_addAppender_of_idle hidle]
    refine ⟨hidle, rfl, tryAttach_run_of_ok ?_⟩
    unfold attach
    rw [run_get_bind, happender]
    rfl
  | none =>
    obtain ⟨file, hfile⟩ := locations_createFile s.logs linkId
    have hget : step (.getAppender t) s = s.goto t (.noAppender logger linkId) := by
      rw [step, ht]
      dsimp only
      rw [happender]
    have hcreate : step (.createFile t) (s.goto t (.noAppender logger linkId)) =
        ((s.goto t (.noAppender logger linkId)).createFile linkId).goto t
          (.created logger linkId) := by
      rw [step, goto_self]
    generalize hs2 : ((s.goto t (.noAppender logger linkId)).createFile linkId).goto t
      (.created logger linkId) = s2 at hcreate
    have hphase : s2.phase t = .created logger linkId := by
      rw [← hs2]
      exact goto_self _ t _
    have hlogs : s2.logs = after ((LinkLoggers.createFile linkId).run s.logs) := by
      rw [← hs2]
      rfl
    have hheld : s2.held = s.held := by
      rw [← hs2]
      rfl
    have hattach : (attach opens logger linkId).run s.logs =
        (newFileAppender opens linkId >>= LinkLoggers.addAppender logger).run s2.logs := by
      unfold attach
      rw [run_get_bind, happender, hlogs]
      exact run_bind_of_ok rfl
    rw [← hlogs] at hfile
    rw [hrun, hget, hcreate]
    cases opens with
    | false =>
      have hnew : (newFileAppender false linkId).run s2.logs = .error .io s2.logs := by
        unfold newFileAppender
        rw [run_get_bind, hfile]
        rfl
      have hstep : step (.newFileAppender t false) s2 = s2.giveBack t logger linkId := by
        rw [step, hphase]
        dsimp only
        rw [hnew]
      have hidle : (s2.giveBack t logger linkId).phase t = .idle := goto_self s2 t _
      rw [hstep, step_addAppender_of_idle hidle]
      refine ⟨hidle, congrArg (· ++ _) hheld, tryAttach_run_of_io ?_⟩
      rw [hattach, run_bind_of_error hnew]
      rfl
    | true =>
      have hnew : (newFileAppender true linkId).run s2.logs = .ok file s2.logs := by
        unfold newFileAppender
        rw [run_get_bind, hfile]
        rfl
      have hstep : step (.newFileAppender t true) s2 =
          s2.goto t (.appender logger linkId file) := by
        rw [step, hphase]
        dsimp only
        rw [hnew]
      have hadd : step (.addAppender t) (s2.goto t (.appender logger linkId file)) =
          ((s2.goto t (.appender logger linkId file)).addAppender logger file).giveBack t logger
            linkId := by
        rw [step, goto_self]
      rw [hstep, hadd]
      refine ⟨goto_self _ t _, congrArg (· ++ _) hheld, tryAttach_run_of_ok ?_⟩
      rw [hattach, run_bind_of_ok hnew]
      rfl

/-- **A thread that is left alone** does what `getLogger` does. -/
theorem getLogger_alone (opens : Bool) (clazz : JString) (linkId : Nat) (ht : s.phase t = .idle) :
    let s' := run step [.get t clazz linkId, .put t, .getAppender t, .createFile t,
      .newFileAppender t opens, .addAppender t] s
    ∃ logger, s'.phase t = .idle ∧ s'.held = s.held ++ [(logger, linkId)] ∧
      (getLogger opens clazz linkId).run s.logs = .ok logger s'.logs := by
  intro s'
  have hrun : s' = run step [.getAppender t, .createFile t, .newFileAppender t opens,
    .addAppender t] (step (.put t) (step (.get t clazz linkId) s)) := rfl
  have hget : ∃ m, (getLogManager linkId).run s.logs =
      .ok m (step (.put t) (step (.get t clazz linkId) s)).logs ∧
      (step (.put t) (step (.get t clazz linkId) s)).phase t = .logger ⟨m, clazz⟩ linkId ∧
      (step (.put t) (step (.get t clazz linkId) s)).held = s.held := by
    cases hm : s.logs.linkIdLogManagerMap linkId with
    | some m =>
      have hstep : step (.get t clazz linkId) s = s.goto t (.logger ⟨m, clazz⟩ linkId) := by
        rw [step, ht]
        dsimp only
        rw [hm]
      have hput : step (.put t) (s.goto t (.logger ⟨m, clazz⟩ linkId)) =
          s.goto t (.logger ⟨m, clazz⟩ linkId) := by
        rw [step, goto_self]
      rw [hstep, hput]
      exact ⟨m, getLogManager_run_some hm, goto_self s t _, rfl⟩
    | none =>
      have hstep : step (.get t clazz linkId) s = s.goto t (.noManager clazz linkId) := by
        rw [step, ht]
        dsimp only
        rw [hm]
      have hput : step (.put t) (s.goto t (.noManager clazz linkId)) =
          ((s.goto t (.noManager clazz linkId)).put linkId).goto t
            (.logger ⟨s.logs.managers.size, clazz⟩ linkId) := by
        rw [step, goto_self]
        rfl
      rw [hstep, hput]
      exact ⟨s.logs.managers.size, getLogManager_run_none hm, goto_self _ t _, rfl⟩
  obtain ⟨m, hmanager, hphase, hheld⟩ := hget
  obtain ⟨hidle, hheld', hattach⟩ := attach_alone opens hphase
  rw [hrun]
  refine ⟨⟨m, clazz⟩, hidle, by rw [hheld', hheld], ?_⟩
  unfold getLogger
  rw [run_bind_of_ok hmanager, run_bind_of_ok hattach]
  rfl

end Steps

/-! ## The invariant -/

section Invariant

variable {s s' : Threads} {linkId : Nat} {logger : Logger} {file : Ref}

/-- A logger of a manager that was made for the link. -/
def Owned (s : Threads) (logger : Logger) (linkId : Nat) : Prop :=
  logger.manager < s.logs.managers.size ∧ s.linkOf logger.manager = linkId

/-- What a thread may rely on: its logger is of the link, and so is the file it has opened. -/
def PhaseOk (s : Threads) : Phase → Prop
  | .idle => True
  | .noManager _ _ => True
  | .logger logger linkId => Owned s logger linkId
  | .noAppender logger linkId => Owned s logger linkId
  | .created logger linkId => Owned s logger linkId ∧ s.logs.locations linkId ≠ none
  | .appender logger linkId file => Owned s logger linkId ∧ s.logs.locations linkId = some file

/-- No two links share a manager or a file, and appenders write to the log of their link. -/
structure Sound (s : Threads) : Prop where
  manager : ∀ {id m}, s.logs.linkIdLogManagerMap id = some m →
    m < s.logs.managers.size ∧ s.linkOf m = id
  files_lt : ∀ {id file}, s.logs.locations id = some file → file < s.logs.files.size
  files_inj : ∀ {id id' file}, s.logs.locations id = some file →
    s.logs.locations id' = some file → id' = id
  appenders : ∀ {m c file}, file ∈ (s.logs.managers.get m).appenders c →
    s.logs.locations (s.linkOf m) = some file
  phase : ∀ t, PhaseOk s (s.phase t)
  held : ∀ p ∈ s.held, Owned s p.1 p.2

/-- Managers and files are never lost. -/
structure Extends (s s' : Threads) : Prop where
  size : s.logs.managers.size ≤ s'.logs.managers.size
  linkOf : ∀ m, m < s.logs.managers.size → s'.linkOf m = s.linkOf m
  locations : ∀ {id file}, s.logs.locations id = some file → s'.logs.locations id = some file

theorem Owned.mono (h : Owned s logger linkId) (hext : Extends s s') : Owned s' logger linkId :=
  ⟨Nat.lt_of_lt_of_le h.1 hext.size, (hext.linkOf _ h.1).trans h.2⟩

theorem PhaseOk.mono {p : Phase} (h : PhaseOk s p) (hext : Extends s s') : PhaseOk s' p := by
  cases p with
  | idle | noManager => trivial
  | logger | noAppender => exact Owned.mono h hext
  | created logger linkId =>
    obtain ⟨hlogger, hfile⟩ := h
    obtain ⟨file, hfile⟩ := Option.ne_none_iff_exists'.mp hfile
    exact ⟨hlogger.mono hext, Option.ne_none_iff_exists'.mpr ⟨file, hext.locations hfile⟩⟩
  | appender => exact ⟨Owned.mono h.1 hext, hext.locations h.2⟩

theorem Sound.goto (h : Sound s) (t : Nat) {p : Phase} (hp : PhaseOk s p) : Sound (s.goto t p) where
  manager := h.manager
  files_lt := h.files_lt
  files_inj := h.files_inj
  appenders := h.appenders
  phase u := by
    by_cases hu : u = t
    · rw [hu, goto_self]
      exact hp
    · rw [goto_ne s hu]
      exact h.phase u
  held := h.held

theorem Sound.giveBack (h : Sound s) (t : Nat) (hlogger : Owned s logger linkId) :
    Sound (s.giveBack t logger linkId) where
  manager := h.manager
  files_lt := h.files_lt
  files_inj := h.files_inj
  appenders := h.appenders
  phase := (h.goto t (p := .idle) trivial).phase
  held p hp := by
    rcases List.mem_append.mp hp with hp | hp
    · exact h.held p hp
    · rw [List.mem_singleton.mp hp]
      exact hlogger

theorem extends_put (s : Threads) (linkId : Nat) : Extends s (s.put linkId) where
  size := Nat.le_of_lt (Heap.size_lt_size_alloc _ _)
  linkOf _ hm := Function.update_of_ne (Nat.ne_of_lt hm) _ _
  locations := id

theorem Sound.put (h : Sound s) (linkId : Nat) : Sound (s.put linkId) where
  manager {id _} hm := by
    change Function.update s.logs.linkIdLogManagerMap linkId (some s.logs.managers.size) id =
      some _ at hm
    by_cases hid : id = linkId
    · rw [hid, Function.update_self, Option.some.injEq] at hm
      rw [← hm, hid]
      exact ⟨Heap.size_lt_size_alloc _ _, Function.update_self _ _ _⟩
    · rw [Function.update_of_ne hid] at hm
      obtain ⟨hlt, hlink⟩ := h.manager hm
      exact ⟨Heap.lt_size_alloc hlt _, ((extends_put s linkId).linkOf _ hlt).trans hlink⟩
  files_lt := h.files_lt
  files_inj := h.files_inj
  appenders {m c file} hfile := by
    change file ∈ ((s.logs.managers.alloc default).2.get m).appenders c at hfile
    change s.logs.locations (Function.update s.linkOf s.logs.managers.size linkId m) = some file
    rcases Nat.lt_trichotomy m s.logs.managers.size with hlt | rfl | hgt
    · rw [Heap.get_alloc_of_lt hlt] at hfile
      rw [Function.update_of_ne (Nat.ne_of_lt hlt)]
      exact h.appenders hfile
    · rw [Heap.get_alloc_self] at hfile
      cases hfile
    · rw [Heap.get_of_size_le (by rw [Heap.size_alloc]; exact hgt)] at hfile
      cases hfile
  phase t := (h.phase t).mono (extends_put s linkId)
  held p hp := (h.held p hp).mono (extends_put s linkId)

theorem createFile_of_some (h : s.logs.locations linkId = some file) : s.createFile linkId = s := by
  have hrun : after ((LinkLoggers.createFile linkId).run s.logs) = s.logs := by
    unfold LinkLoggers.createFile
    rw [EStateM.run_modify, h]
    rfl
  rw [Threads.createFile, hrun]

/-- The log of a link that has none is made. -/
def withFile (s : Threads) (linkId : Nat) : Threads :=
  { s with logs := { s.logs with
      files := (s.logs.files.alloc []).2
      locations := Function.update s.logs.locations linkId (some s.logs.files.size) } }

theorem createFile_of_none (h : s.logs.locations linkId = none) :
    s.createFile linkId = withFile s linkId := by
  unfold Threads.createFile LinkLoggers.createFile
  rw [EStateM.run_modify, h]
  rfl

theorem locations_withFile {id : Nat} (h : (withFile s linkId).logs.locations id = some file) :
    (id = linkId ∧ file = s.logs.files.size) ∨ s.logs.locations id = some file := by
  change Function.update s.logs.locations linkId (some s.logs.files.size) id = some file at h
  by_cases hid : id = linkId
  · rw [hid, Function.update_self, Option.some.injEq] at h
    exact .inl ⟨hid, h.symm⟩
  · rw [Function.update_of_ne hid] at h
    exact .inr h

theorem extends_withFile (hnone : s.logs.locations linkId = none) :
    Extends s (withFile s linkId) where
  size := Nat.le_refl _
  linkOf _ _ := rfl
  locations {id file} hfile := by
    have hid : id ≠ linkId := by
      rintro rfl
      rw [hnone] at hfile
      cases hfile
    exact (Function.update_of_ne hid _ _).trans hfile

theorem Sound.withFile (h : Sound s) (hnone : s.logs.locations linkId = none) :
    Sound (withFile s linkId) where
  manager := h.manager
  files_lt hfile := by
    rcases locations_withFile hfile with ⟨-, rfl⟩ | hfile
    · exact Heap.size_lt_size_alloc _ _
    · exact Heap.lt_size_alloc (h.files_lt hfile) _
  files_inj {id id' file} hfile hfile' := by
    rcases locations_withFile hfile with ⟨rfl, hsize⟩ | hold <;>
      rcases locations_withFile hfile' with ⟨rfl, hsize'⟩ | hold'
    · rfl
    · exact absurd (h.files_lt hold') (Nat.not_lt.mpr (Nat.le_of_eq hsize.symm))
    · exact absurd (h.files_lt hold) (Nat.not_lt.mpr (Nat.le_of_eq hsize'.symm))
    · exact h.files_inj hold hold'
  appenders hfile := (extends_withFile hnone).locations (h.appenders hfile)
  phase t := (h.phase t).mono (extends_withFile hnone)
  held p hp := (h.held p hp).mono (extends_withFile hnone)

/-- **`createFile`**: the link has a file, and nothing is lost. -/
theorem Sound.createFile (h : Sound s) (linkId : Nat) :
    Sound (s.createFile linkId) ∧ (s.createFile linkId).logs.locations linkId ≠ none ∧
      Extends s (s.createFile linkId) := by
  cases hfile : s.logs.locations linkId with
  | some file =>
    rw [createFile_of_some hfile]
    refine ⟨h, ?_, Nat.le_refl _, fun _ _ => rfl, id⟩
    rw [hfile]
    exact Option.some_ne_none file
  | none =>
    rw [createFile_of_none hfile]
    refine ⟨h.withFile hfile, ?_, extends_withFile hfile⟩
    change Function.update s.logs.locations linkId (some s.logs.files.size) linkId ≠ none
    rw [Function.update_self]
    exact Option.some_ne_none _

/-- The appenders of a logger. -/
def appendersOf (s : Logs) (logger : Logger) : List Ref :=
  (s.managers.get logger.manager).appenders logger.clazz

theorem attached_iff (s : Logs) (logger : Logger) :
    Attached s logger ↔ appendersOf s logger ≠ [] := List.head?_eq_none_iff.not

theorem appendersOf_addAppender_self (h : logger.manager < s.logs.managers.size) (file : Ref) :
    appendersOf (s.addAppender logger file).logs logger = appendersOf s.logs logger ++ [file] := by
  change ((s.logs.managers.set logger.manager _).get logger.manager).appenders logger.clazz = _
  rw [Heap.get_set_self h]
  exact Function.update_self _ _ _

theorem appendersOf_addAppender_ne {logger' : Logger} (hne : logger' ≠ logger) (file : Ref) :
    appendersOf (s.addAppender logger file).logs logger' = appendersOf s.logs logger' := by
  change ((s.logs.managers.set logger.manager _).get logger'.manager).appenders logger'.clazz = _
  rcases Heap.get_set_or s.logs.managers logger.manager logger'.manager _ with h | ⟨hm, h⟩
  · rw [h]
    rfl
  · have hclazz : logger'.clazz ≠ logger.clazz := by
      intro hclazz
      cases logger
      cases logger'
      exact hne (by rw [Logger.mk.injEq]; exact ⟨hm.symm, hclazz⟩)
    rw [h]
    dsimp only
    rw [Function.update_of_ne hclazz, hm]
    rfl

theorem extends_addAppender (s : Threads) (logger : Logger) (file : Ref) :
    Extends s (s.addAppender logger file) where
  size := Nat.le_of_eq (Heap.size_set _ _ _).symm
  linkOf _ _ := rfl
  locations := id

theorem Sound.addAppender (h : Sound s) (hlogger : Owned s logger linkId)
    (hfile : s.logs.locations linkId = some file) : Sound (s.addAppender logger file) where
  manager hm := ⟨Nat.lt_of_lt_of_eq (h.manager hm).1 (Heap.size_set _ _ _).symm, (h.manager hm).2⟩
  files_lt := h.files_lt
  files_inj := h.files_inj
  appenders {m c file'} hmem := by
    change file' ∈ appendersOf (s.addAppender logger file).logs ⟨m, c⟩ at hmem
    change s.logs.locations (s.linkOf m) = some file'
    by_cases heq : (⟨m, c⟩ : Logger) = logger
    · subst heq
      rw [appendersOf_addAppender_self hlogger.1] at hmem
      rcases List.mem_append.mp hmem with hmem | hmem
      · exact h.appenders hmem
      · rw [List.mem_singleton.mp hmem]
        exact (congrArg _ hlogger.2).trans hfile
    · rw [appendersOf_addAppender_ne heq] at hmem
      exact h.appenders hmem
  phase t := (h.phase t).mono (extends_addAppender s logger file)
  held p hp := (h.held p hp).mono (extends_addAppender s logger file)

theorem size_callAppenders (line : List Byte) (appenders : List Ref) (files : Heap (List Byte)) :
    (callAppenders line appenders files).size = files.size := by
  induction appenders generalizing files with
  | nil => rfl
  | cons file appenders ih => exact (ih _).trans (Heap.size_set _ _ _)

/-- A logger all of whose appenders write to one file writes a line once for each. -/
theorem get_callAppenders_self {line : List Byte} {appenders : List Ref}
    {files : Heap (List Byte)} (hfile : file < files.size) (hall : ∀ a ∈ appenders, a = file) :
    (callAppenders line appenders files).get file =
      files.get file ++ (List.replicate appenders.length line).flatten := by
  induction appenders generalizing files with
  | nil => exact (List.append_nil _).symm
  | cons a appenders ih =>
    obtain rfl := hall a List.mem_cons_self
    rw [callAppenders, ih (by rw [Heap.size_set]; exact hfile)
      fun b hb => hall b (List.mem_cons_of_mem _ hb), Heap.get_set_self hfile, List.length_cons,
      List.replicate_succ, List.flatten_cons, List.append_assoc]

theorem get_callAppenders_ne {line : List Byte} {appenders : List Ref} {files : Heap (List Byte)}
    (hall : ∀ a ∈ appenders, a ≠ file) :
    (callAppenders line appenders files).get file = files.get file := by
  induction appenders generalizing files with
  | nil => rfl
  | cons a appenders ih =>
    rw [callAppenders, ih fun b hb => hall b (List.mem_cons_of_mem _ hb),
      Heap.get_set_ne (hall a List.mem_cons_self)]

theorem Sound.info (h : Sound s) (logger : Logger) (line : List Byte) :
    Sound (s.info logger line) where
  manager := h.manager
  files_lt hfile := Nat.lt_of_lt_of_eq (h.files_lt hfile) (size_callAppenders _ _ _).symm
  files_inj := h.files_inj
  appenders := h.appenders
  phase t := (h.phase t).mono ⟨Nat.le_refl _, fun _ _ => rfl, id⟩
  held p hp := (h.held p hp).mono ⟨Nat.le_refl _, fun _ _ => rfl, id⟩

/-- **A line** goes to the log of its link, once for each appender of its logger. -/
theorem contents_info (h : Sound s) (hlogger : Owned s logger linkId) (line : List Byte)
    (id : Nat) :
    (s.info logger line).logs.contents id = s.logs.contents id ++
      if linkId = id then (List.replicate (appendersOf s.logs logger).length line).flatten
      else [] := by
  have hall : ∀ a ∈ appendersOf s.logs logger, s.logs.locations linkId = some a := by
    intro a ha
    rw [← hlogger.2]
    exact h.appenders ha
  cases hfile : s.logs.locations id with
  | none =>
    have hbare : linkId = id → appendersOf s.logs logger = [] := by
      rintro rfl
      refine List.eq_nil_iff_forall_not_mem.mpr fun a ha => ?_
      rw [hall a ha] at hfile
      cases hfile
    have hafter : (s.info logger line).logs.contents id = [] := contents_of_no_location hfile
    rw [hafter, contents_of_no_location hfile]
    by_cases hid : linkId = id
    · rw [if_pos hid, hbare hid]
      rfl
    · rw [if_neg hid]
      rfl
  | some file =>
    have hafter : (s.info logger line).logs.contents id =
        (callAppenders line (appendersOf s.logs logger) s.logs.files).get file :=
      contents_of_location hfile
    rw [hafter, contents_of_location hfile]
    by_cases hid : linkId = id
    · subst hid
      rw [if_pos rfl, get_callAppenders_self (h.files_lt hfile) fun a ha =>
        Option.some.inj ((hall a ha).symm.trans hfile)]
    · rw [if_neg hid, List.append_nil]
      refine get_callAppenders_ne ?_
      rintro a ha rfl
      exact hid (h.files_inj hfile (hall a ha))

/-- **One statement.** -/
theorem sound_step (e : Event) (h : Sound s) : Sound (step e s) := by
  have htakes := takes_step e s
  generalize step e s = s' at htakes
  have hphase := h.phase
  cases htakes with
  | stay => exact h
  | @found t _ _ _ _ hm => exact h.goto t (h.manager hm)
  | @missing t => exact h.goto t trivial
  | @put t linkId clazz _ =>
    exact (h.put linkId).goto t ⟨Heap.size_lt_size_alloc _ _, Function.update_self _ _ _⟩
  | @attached t _ _ ht =>
    have hok := hphase t
    rw [ht] at hok
    exact h.giveBack t hok
  | @bare t _ _ ht =>
    have hok := hphase t
    rw [ht] at hok
    exact h.goto t hok
  | @created t linkId logger ht =>
    have hok := hphase t
    rw [ht] at hok
    obtain ⟨hsound, hfile, hext⟩ := h.createFile linkId
    exact hsound.goto t ⟨Owned.mono hok hext, hfile⟩
  | @opened t _ _ _ _ ht hfile =>
    have hok := hphase t
    rw [ht] at hok
    exact h.goto t ⟨hok.1, hfile⟩
  | @failed t _ _ _ ht =>
    have hok := hphase t
    rw [ht] at hok
    exact h.giveBack t hok.1
  | @added t _ logger file ht =>
    have hok := hphase t
    rw [ht] at hok
    exact (h.addAppender hok.1 hok.2).giveBack t (hok.1.mono (extends_addAppender s logger file))
  | info => exact h.info _ _
  | readLog linkId => exact (h.createFile linkId).1

theorem sound_boot (d : Disk) : Sound (boot d) where
  manager h := by cases h
  files_lt := d.lt
  files_inj := d.inj
  appenders h := absurd h List.not_mem_nil
  phase _ := trivial
  held _ hp := absurd hp List.not_mem_nil

end Invariant

/-! ## Each line once -/

section Once

variable {s : Threads} {linkId : Nat} {logger : Logger}

/-- No logger has two appenders. -/
structure Single (s : Threads) : Prop extends Sound s where
  single : ∀ logger, (appendersOf s.logs logger).length ≤ 1

theorem each_once_of_single (h : Single s) : EachOnce s := by
  intro i line id
  unfold written step
  dsimp only
  cases hi : s.held[i]? with
  | none => exact (List.append_nil _).symm
  | some p =>
    obtain ⟨logger, linkId⟩ := p
    have howned := h.held _ (List.mem_of_getElem? hi)
    dsimp only
    rw [contents_info h.toSound howned]
    have hsingle := h.single logger
    by_cases hid : linkId = id
    · cases happenders : appendersOf s.logs logger with
      | nil =>
        have hbare : ¬ Attached s.logs logger := fun hattached =>
          (attached_iff s.logs logger).mp hattached happenders
        rw [if_pos hid, if_neg fun h => hbare h.2]
        rfl
      | cons a appenders =>
        have hattached : Attached s.logs logger :=
          (attached_iff s.logs logger).mpr (by rw [happenders]; exact List.cons_ne_nil _ _)
        rw [happenders, List.length_cons] at hsingle
        rw [if_pos hid, if_pos ⟨hid, hattached⟩,
          List.eq_nil_of_length_eq_zero (Nat.le_zero.mp (Nat.le_of_succ_le_succ hsingle))]
        simp
    · rw [if_neg hid, if_neg fun h => hid h.1]

theorem appendersOf_put (s : Threads) (linkId : Nat) (logger : Logger) :
    appendersOf (s.put linkId).logs logger = appendersOf s.logs logger := by
  change ((s.logs.managers.alloc default).2.get logger.manager).appenders logger.clazz = _
  unfold appendersOf
  rcases Nat.lt_or_ge logger.manager s.logs.managers.size with hlt | hge
  · rw [Heap.get_alloc_of_lt hlt]
  · rw [Heap.get_of_size_le hge]
    rcases Nat.eq_or_lt_of_le hge with heq | hgt
    · rw [← heq, Heap.get_alloc_self]
    · rw [Heap.get_of_size_le (by rw [Heap.size_alloc]; exact hgt)]

theorem appendersOf_createFile (s : Threads) (linkId : Nat) (logger : Logger) :
    appendersOf (s.createFile linkId).logs logger = appendersOf s.logs logger := by
  cases hfile : s.logs.locations linkId with
  | some file => rw [createFile_of_some hfile]
  | none =>
    rw [createFile_of_none hfile]
    rfl

/-- Only `addAppender` changes the appenders of a logger. -/
theorem appendersOf_step (e : Event) (s : Threads) :
    (∀ logger, appendersOf (step e s).logs logger = appendersOf s.logs logger) ∨
      ∃ t logger linkId file, e = .addAppender t ∧ s.phase t = .appender logger linkId file ∧
        step e s = (s.addAppender logger file).giveBack t logger linkId := by
  have htakes := takes_step e s
  generalize step e s = s' at htakes
  cases htakes with
  | added ht => exact .inr ⟨_, _, _, _, rfl, ht, rfl⟩
  | put => exact .inl (appendersOf_put s _)
  | created | readLog => exact .inl (appendersOf_createFile s _)
  | stay | found | missing | attached | bare | opened | failed | info => exact .inl fun _ => rfl

theorem single_step (e : Event) (s : Threads) (h : Single s) (hfirst : FirstAppender e s) :
    Single (step e s) where
  toSound := sound_step e h.toSound
  single logger := by
    rcases appendersOf_step e s with hsame | ⟨t, added, linkId, file, rfl, ht, hstep⟩
    · rw [hsame]
      exact h.single logger
    · rw [hstep]
      change (appendersOf (s.addAppender added file).logs logger).length ≤ 1
      have hok := h.phase t
      rw [ht] at hok
      by_cases heq : logger = added
      · subst heq
        have hbare : appendersOf s.logs logger = [] := by
          by_contra hne
          exact hfirst t rfl logger linkId file ht ((attached_iff _ _).mpr hne)
        rw [appendersOf_addAppender_self hok.1.1, hbare]
        exact Nat.le_refl 1
      · rw [appendersOf_addAppender_ne heq]
        exact h.single logger

/-- A logger that was given an appender behind the back of the thread writes every line twice. -/
theorem not_eachOnce_of_second (e : Event) (s : Threads) (h : Single s)
    (hsecond : ¬ FirstAppender e s) : ¬ EachOnce (step e s) := by
  unfold FirstAppender at hsecond
  push Not at hsecond
  obtain ⟨t, rfl, logger, linkId, file, ht, hattached⟩ := hsecond
  have hok := h.phase t
  rw [ht] at hok
  have hsound := sound_step (.addAppender t) h.toSound
  have hstep : step (.addAppender t) s = (s.addAppender logger file).giveBack t logger linkId := by
    rw [step, ht]
  rw [hstep] at hsound ⊢
  generalize hs' : (s.addAppender logger file).giveBack t logger linkId = s' at hsound ⊢
  have happenders : 2 ≤ (appendersOf s'.logs logger).length := by
    rw [← hs']
    change 2 ≤ (appendersOf (s.addAppender logger file).logs logger).length
    rw [appendersOf_addAppender_self hok.1.1, List.length_append]
    exact Nat.succ_le_succ (List.length_pos_of_ne_nil ((attached_iff _ _).mp hattached))
  have hlast : s'.held[s.held.length]? = some (logger, linkId) := by
    rw [← hs']
    exact List.getElem?_concat_length
  have howned : Owned s' logger linkId := hsound.held _ (List.mem_of_getElem? hlast)
  intro honce
  have hline := honce s.held.length [0] linkId
  have hattached' : Attached s'.logs logger :=
    (attached_iff _ _).mpr <|
      List.ne_nil_of_length_pos (Nat.lt_of_lt_of_le Nat.zero_lt_two happenders)
  unfold written step at hline
  dsimp only at hline
  rw [hlast] at hline
  dsimp only at hline
  rw [contents_info hsound howned, if_pos rfl, if_pos ⟨rfl, hattached'⟩,
    List.append_cancel_left_eq] at hline
  rw [List.flatten_replicate_singleton] at hline
  have hlength := congrArg List.length hline
  rw [List.length_replicate, List.length_singleton] at hlength
  omega

theorem single_boot (d : Disk) : Single (boot d) :=
  ⟨sound_boot d, fun _ => Nat.zero_le 1⟩

/-- **Each line once**: in every interleaving of calls of `getLogger`, every line goes once to the
log of its link, or nowhere if its logger has no appender, in every state, exactly when no thread
adds an appender to a logger that was given one since the thread looked. -/
theorem always_once_iff (d : Disk) (es : List Event) :
    Always step EachOnce es (boot d) ↔ Meets step FirstAppender es (boot d) :=
  always_iff_meets (fun _ => each_once_of_single) single_step not_eachOnce_of_second (single_boot d)

/-- Two relay handlers of a link that has a manager are built at the same time: a line of one of
them is in the log twice. -/
example : (run step [.get 0 (lit "BaseRelayHandler") 1, .put 0,
    .get 1 (lit "BaseRelayHandler") 1, .getAppender 0, .getAppender 1, .createFile 0, .createFile 1,
    .newFileAppender 0 true, .newFileAppender 1 true, .addAppender 0, .addAppender 1,
    .info 0 [0x41]] (boot .empty)).logs.contents 1 = [0x41, 0x41] := by decide

theorem contents_createFile (s : Threads) (linkId id : Nat) (h : Sound s) :
    (s.createFile linkId).logs.contents id = s.logs.contents id := by
  cases hfile : s.logs.locations linkId with
  | some file => rw [createFile_of_some hfile]
  | none =>
    rw [createFile_of_none hfile]
    cases hid : (withFile s linkId).logs.locations id with
    | none =>
      have hnone : s.logs.locations id = none := by
        refine Option.eq_none_iff_forall_ne_some.mpr fun file' hfile' => ?_
        rw [(extends_withFile hfile).locations hfile'] at hid
        cases hid
      rw [contents_of_no_location hid, contents_of_no_location hnone]
    | some file =>
      rw [contents_of_location hid]
      change (s.logs.files.alloc []).2.get file = _
      rcases locations_withFile hid with ⟨rfl, rfl⟩ | hold
      · rw [contents_of_no_location hfile, Heap.get_alloc_self]
      · rw [contents_of_location hold, Heap.get_alloc_of_lt (h.files_lt hold)]

/-- A statement adds to the logs what it should. -/
theorem contents_step (e : Event) (s : Threads) (h : Single s) (id : Nat) :
    (step e s).logs.contents id = s.logs.contents id ++ written id e s := by
  by_cases he : ∃ i line, e = .info i line
  · obtain ⟨i, line, rfl⟩ := he
    exact each_once_of_single h i line id
  · have hnothing : written id e s = [] := by
      cases e with
      | info i line => exact absurd ⟨i, line, rfl⟩ he
      | get | put | getAppender | createFile | newFileAppender | addAppender | readLog => rfl
    rw [hnothing, List.append_nil]
    have htakes := takes_step e s
    generalize step e s = s' at htakes
    cases htakes with
    | @info i _ _ line _ => exact absurd ⟨i, line, rfl⟩ he
    | created | readLog => exact contents_createFile s _ id h.toSound
    | stay | found | missing | put | attached | bare | opened | failed | added => rfl

/-- What the logs hold after such a run: what they held, and the lines in their order. -/
theorem contents_of_first (d : Disk) {es : List Event}
    (hfirst : Meets step FirstAppender es (boot d)) (id : Nat) :
    (run step es (boot d)).logs.contents id =
      (boot d).logs.contents id ++ collect step (written id) es (boot d) :=
  run_of_accumulation (f := fun s => s.logs.contents id) single_step
    (fun e s h _ => contents_step e s h id) (single_boot d) hfirst

end Once

end Terminator.Manager.LoggerRaces
