import Terminator.Manager.LoggerRaces

/-!
# Managers that were put over each other

Two threads that both find no `LogManager` for a link both make one, and the map keeps the one that
is put there last. The loggers of the other one write to the log of the link like any others, but
`shutdownLogManager` does not reach them.

**`deleteLog_silences_iff`**: after a run in which the files could be opened, `deleteLog` closes the
loggers that components of the link have asked for exactly when no thread put a manager over
another's. One that is not closed is of an overwritten manager: it keeps the deleted file open, and
its lines go there.
-/

namespace Terminator.Manager.LoggerRaces

open Terminator.Java Terminator.Run
open Terminator.Manager.LinkLoggers

variable {s : Threads} {linkId : Nat} {logger : Logger}

/-! ## The condition -/

/-- A thread puts a manager for the link where there still is none. -/
def FirstManager (linkId : Nat) (e : Event) (s : Threads) : Prop :=
  ∀ t, e = .put t → ∀ clazz, s.phase t = .noManager clazz linkId →
    s.logs.linkIdLogManagerMap linkId = none

/-- A line through the logger reaches no file. -/
def Silent (s : Logs) (logger : Logger) : Prop :=
  ∀ line, (after ((logger.info line).run s)).files = s.files

/-- A line through the logger goes to that file, once for each appender, and to no other. -/
def WritesTo (s : Logs) (logger : Logger) (file : Ref) : Prop :=
  ∀ line, ∃ n, 0 < n ∧
    (after ((logger.info line).run s)).files.get file =
      s.files.get file ++ (List.replicate n line).flatten ∧
    ∀ other, other ≠ file → (after ((logger.info line).run s)).files.get other = s.files.get other

/-- The file that an event opens does open. -/
def Event.opens : Event → Bool
  | .newFileAppender _ opens => opens
  | _ => true

/-- The link of the call a thread is in. -/
def Phase.link : Phase → Option Nat
  | .idle => none
  | .noManager _ linkId => some linkId
  | .logger _ linkId => some linkId
  | .noAppender _ linkId => some linkId
  | .created _ linkId => some linkId
  | .appender _ linkId _ => some linkId

/-- The logger a thread is about to return. -/
def Phase.logger? : Phase → Option Logger
  | .idle => none
  | .noManager _ _ => none
  | .logger logger _ => some logger
  | .noAppender logger _ => some logger
  | .created logger _ => some logger
  | .appender logger _ _ => some logger

/-- A manager of the link that the map no longer has. -/
def Orphan (linkId : Nat) (s : Threads) : Prop :=
  ∃ m, m < s.logs.managers.size ∧ s.linkOf m = linkId ∧ s.logs.linkIdLogManagerMap linkId ≠ some m

/-! ## Orphans -/

/-- A statement keeps the managers there are and the map, but for the one that `put` puts there. -/
theorem managers_step (e : Event) (s : Threads) :
    ((step e s).logs.managers.size = s.logs.managers.size ∧ (step e s).linkOf = s.linkOf ∧
      (step e s).logs.linkIdLogManagerMap = s.logs.linkIdLogManagerMap) ∨
    ∃ t clazz linkId, e = .put t ∧ s.phase t = .noManager clazz linkId ∧
      step e s = (s.put linkId).goto t (.logger ⟨s.logs.managers.size, clazz⟩ linkId) := by
  have hfile : ∀ linkId, (s.createFile linkId).logs.managers.size = s.logs.managers.size ∧
      (s.createFile linkId).linkOf = s.linkOf ∧
      (s.createFile linkId).logs.linkIdLogManagerMap = s.logs.linkIdLogManagerMap := by
    intro linkId
    cases hfile : s.logs.locations linkId with
    | some file =>
      rw [createFile_of_some hfile]
      exact ⟨rfl, rfl, rfl⟩
    | none =>
      rw [createFile_of_none hfile]
      exact ⟨rfl, rfl, rfl⟩
  have htakes := takes_step e s
  generalize step e s = s' at htakes
  cases htakes with
  | put ht => exact .inr ⟨_, _, _, rfl, ht, rfl⟩
  | created | readLog => exact .inl (hfile _)
  | added => exact .inl ⟨Heap.size_set _ _ _, rfl, rfl⟩
  | stay | found | missing | attached | bare | opened | failed | info => exact .inl ⟨rfl, rfl, rfl⟩

theorem orphan_step (e : Event) (h : Orphan linkId s) : Orphan linkId (step e s) := by
  obtain ⟨m, hlt, hlink, hmap⟩ := h
  rcases managers_step e s with ⟨hsize, hlinkOf, hsame⟩ | ⟨t, clazz, id, rfl, -, hstep⟩
  · refine ⟨m, ?_, ?_, ?_⟩
    · rw [hsize]
      exact hlt
    · rw [hlinkOf]
      exact hlink
    · rw [hsame]
      exact hmap
  · rw [hstep]
    refine ⟨m, Heap.lt_size_alloc hlt _, ((extends_put s id).linkOf m hlt).trans hlink, ?_⟩
    change Function.update s.logs.linkIdLogManagerMap id (some s.logs.managers.size) linkId ≠ some m
    by_cases hid : linkId = id
    · rw [hid, Function.update_self]
      intro heq
      exact Nat.lt_irrefl m (Option.some.inj heq ▸ hlt)
    · rw [Function.update_of_ne hid]
      exact hmap

/-- Putting a manager over another makes an orphan of that one. -/
theorem orphan_of_second (e : Event) (s : Threads) (h : Sound s)
    (hsecond : ¬ FirstManager linkId e s) : Orphan linkId (step e s) := by
  unfold FirstManager at hsecond
  push Not at hsecond
  obtain ⟨t, rfl, clazz, ht, hmap⟩ := hsecond
  obtain ⟨m, hm⟩ := Option.ne_none_iff_exists'.mp hmap
  obtain ⟨hlt, hlink⟩ := h.manager hm
  have hstep : step (.put t) s =
      (s.put linkId).goto t (.logger ⟨s.logs.managers.size, clazz⟩ linkId) := by
    rw [step, ht]
  rw [hstep]
  refine ⟨m, Heap.lt_size_alloc hlt _, ((extends_put s linkId).linkOf m hlt).trans hlink, ?_⟩
  change Function.update s.logs.linkIdLogManagerMap linkId (some s.logs.managers.size) linkId ≠
    some m
  rw [Function.update_self]
  intro heq
  exact Nat.lt_irrefl m (Option.some.inj heq ▸ hlt)

theorem no_orphan_step (e : Event) (s : Threads) (h : ¬ Orphan linkId s)
    (hfirst : FirstManager linkId e s) : ¬ Orphan linkId (step e s) := by
  rintro ⟨m, hlt, hlink, hmap⟩
  rcases managers_step e s with ⟨hsize, hlinkOf, hsame⟩ | ⟨t, clazz, id, rfl, ht, hstep⟩
  · rw [hsize] at hlt
    rw [hlinkOf] at hlink
    rw [hsame] at hmap
    exact h ⟨m, hlt, hlink, hmap⟩
  · rw [hstep] at hlt hlink hmap
    change m < (s.logs.managers.alloc default).2.size at hlt
    change Function.update s.linkOf s.logs.managers.size id m = linkId at hlink
    change Function.update s.logs.linkIdLogManagerMap id (some s.logs.managers.size) linkId ≠
      some m at hmap
    rw [Heap.size_alloc] at hlt
    rcases Nat.lt_succ_iff_lt_or_eq.mp hlt with hlt | rfl
    · rw [Function.update_of_ne (Nat.ne_of_lt hlt)] at hlink
      -- an older manager of the link: the map had none when the new one was put there
      have hnone : s.logs.linkIdLogManagerMap linkId ≠ some m := by
        by_cases hid : linkId = id
        · subst hid
          rw [hfirst t rfl clazz ht]
          nofun
        · rw [Function.update_of_ne hid] at hmap
          exact hmap
      exact h ⟨m, hlt, hlink, hnone⟩
    · rw [Function.update_self] at hlink
      rw [hlink, Function.update_self] at hmap
      exact hmap rfl

/-- A run in which no manager is put over another's is one that leaves no orphan. -/
theorem meets_firstManager_iff (d : Disk) (es : List Event) (linkId : Nat) :
    Meets step (FirstManager linkId) es (boot d) ↔ ¬ Orphan linkId (run step es (boot d)) := by
  have halways : Always step (fun s => ¬ Orphan linkId s) es (boot d) ↔
      Meets step (FirstManager linkId) es (boot d) := by
    refine always_iff_meets (I := fun s => Sound s ∧ ¬ Orphan linkId s) (fun s h => h.2) ?_ ?_ ?_
    · exact fun e s h hfirst => ⟨sound_step e h.1, no_orphan_step e s h.2 hfirst⟩
    · exact fun e s h hsecond hno => hno (orphan_of_second e s h.1 hsecond)
    · exact ⟨sound_boot d, fun ⟨m, hlt, _⟩ => Nat.not_lt_zero m hlt⟩
  rw [← halways, always_iff]
  constructor
  · exact fun h => h es [] (List.append_nil es).symm
  · -- an orphan stays one
    intro h es1 es2 hes horphan
    have hany : Meets step (fun _ _ => True) es2 (run step es1 (boot d)) :=
      meets_of_forall fun _ _ _ => trivial
    have hlater : Orphan linkId (run step es2 (run step es1 (boot d))) :=
      run_of_invariant (fun e s h _ => orphan_step e h) horphan hany
    rw [hes, run_append] at h
    exact h hlater

/-! ## Who has a manager -/

/-- Every manager has a thread that is about to return a logger of it, or a logger that was returned
with an appender. -/
def Rooted (s : Threads) : Prop :=
  ∀ m, m < s.logs.managers.size →
    (∃ t logger, (s.phase t).logger? = some logger ∧ logger.manager = m) ∨
      ∃ p ∈ s.held, p.1.manager = m ∧ Attached s.logs p.1

/-- Appenders are added, and never taken away. -/
theorem attached_step (e : Event) (h : Sound s) (hlogger : Attached s.logs logger) :
    Attached (step e s).logs logger := by
  rw [attached_iff] at hlogger ⊢
  rcases appendersOf_step e s with hsame | ⟨t, added, linkId, file, -, ht, hstep⟩
  · rw [hsame]
    exact hlogger
  · have hok := h.phase t
    rw [ht] at hok
    rw [hstep]
    change appendersOf (s.addAppender added file).logs logger ≠ []
    by_cases heq : logger = added
    · subst heq
      rw [appendersOf_addAppender_self hok.1.1]
      exact List.append_ne_nil_of_right_ne_nil _ (List.cons_ne_nil _ _)
    · rw [appendersOf_addAppender_ne heq]
      exact hlogger

theorem logger?_goto {t u : Nat} {p : Phase} (ht : (s.phase t).logger? = some logger)
    (hp : u = t → p.logger? = some logger) : ((s.goto u p).phase t).logger? = some logger := by
  by_cases hu : t = u
  · subst hu
    rw [goto_self]
    exact hp rfl
  · rw [goto_ne s hu]
    exact ht

/-- The logger a thread is about to return: it still is, or returns it with an appender. -/
theorem logger?_step (e : Event) (h : Sound s) (hopens : e.opens = true) {t : Nat}
    (ht : (s.phase t).logger? = some logger) :
    ((step e s).phase t).logger? = some logger ∨
      ∃ linkId, (logger, linkId) ∈ (step e s).held ∧ Attached (step e s).logs logger := by
  have htakes := takes_step e s
  generalize step e s = s' at htakes
  cases htakes with
  | stay | info | readLog => exact .inl ht
  | found hu | missing hu =>
    refine .inl (logger?_goto ht ?_)
    rintro rfl
    rw [hu] at ht
    cases ht
  | put hu =>
    refine .inl (logger?_goto ht ?_)
    rintro rfl
    rw [hu] at ht
    cases ht
  | bare hu | created hu | opened hu =>
    refine .inl (logger?_goto ht ?_)
    rintro rfl
    rw [hu] at ht
    exact ht
  | @attached u linkId _ hu hattached =>
    by_cases heq : t = u
    · subst heq
      rw [hu] at ht
      obtain rfl := Option.some.inj ht
      exact .inr ⟨linkId, List.mem_append_right _ List.mem_cons_self, hattached⟩
    · exact .inl (logger?_goto ht fun hu => absurd hu.symm heq)
  | @failed u _ _ _ hu hnone =>
    have hok := h.phase u
    rw [hu] at hok
    exact absurd (hnone hopens) hok.2
  | @added u linkId _ file hu =>
    by_cases heq : t = u
    · subst heq
      have hok := h.phase t
      rw [hu] at ht hok
      obtain rfl := Option.some.inj ht
      refine .inr ⟨linkId, List.mem_append_right _ List.mem_cons_self, (attached_iff _ _).mpr ?_⟩
      change appendersOf (s.addAppender _ file).logs _ ≠ []
      rw [appendersOf_addAppender_self hok.1.1]
      exact List.append_ne_nil_of_right_ne_nil _ (List.cons_ne_nil _ _)
    · exact .inl (logger?_goto ht fun hu => absurd hu.symm heq)

theorem held_step (e : Event) (s : Threads) : ∀ p ∈ s.held, p ∈ (step e s).held := by
  intro p hp
  have htakes := takes_step e s
  generalize step e s = s' at htakes
  cases htakes with
  | attached | failed | added => exact List.mem_append_left _ hp
  | stay | found | missing | put | bare | created | opened | info | readLog => exact hp

theorem rooted_step (e : Event) (s : Threads) (h : Sound s) (hrooted : Rooted s)
    (hopens : e.opens = true) : Rooted (step e s) := by
  intro m hlt
  have hold : m < s.logs.managers.size → (∃ t logger, ((step e s).phase t).logger? = some logger ∧
      logger.manager = m) ∨
      ∃ p ∈ (step e s).held, p.1.manager = m ∧ Attached (step e s).logs p.1 := by
    intro hlt
    rcases hrooted m hlt with ⟨t, logger, ht, hm⟩ | ⟨p, hp, hm, hattached⟩
    · rcases logger?_step e h hopens ht with ht' | ⟨linkId, hheld, hattached⟩
      · exact .inl ⟨t, logger, ht', hm⟩
      · exact .inr ⟨_, hheld, hm, hattached⟩
    · exact .inr ⟨p, held_step e s p hp, hm, attached_step e h hattached⟩
  rcases managers_step e s with ⟨hsize, -, -⟩ | ⟨t, clazz, id, rfl, -, hstep⟩
  · rw [hsize] at hlt
    exact hold hlt
  · rw [hstep] at hlt
    change m < (s.logs.managers.alloc default).2.size at hlt
    rw [Heap.size_alloc] at hlt
    rcases Nat.lt_succ_iff_lt_or_eq.mp hlt with hlt | rfl
    · exact hold hlt
    · refine .inl ⟨t, ⟨s.logs.managers.size, clazz⟩, ?_, rfl⟩
      rw [hstep, goto_self]
      rfl

/-! ## The deletion -/

theorem rooted_run (d : Disk) {es : List Event} (hopens : ∀ e ∈ es, e.opens = true) :
    Sound (run step es (boot d)) ∧ Rooted (run step es (boot d)) := by
  have hmeets : Meets step (fun e _ => e.opens = true) es (boot d) :=
    meets_of_forall fun e he _ => hopens e he
  refine run_of_invariant (I := fun s => Sound s ∧ Rooted s) ?_ ?_ hmeets
  · exact fun e s h he => ⟨sound_step e h.1, rooted_step e s h.1 h.2 he⟩
  · exact ⟨sound_boot d, fun m hm => absurd hm (Nat.not_lt_zero m)⟩

/-- What `deleteLog` leaves: the files, of which the log of the link is no longer one, and the
managers, of which the one in the map is closed. -/
structure Deleted (s : Logs) (linkId : Nat) (s' : Logs) : Prop where
  files : s'.files = s.files
  locations : s'.locations = Function.update s.locations linkId none
  others : ∀ m, s.linkIdLogManagerMap linkId ≠ some m → s'.managers.get m = s.managers.get m
  closed : ∀ m, m < s.managers.size → s.linkIdLogManagerMap linkId = some m →
    s'.managers.get m = default

theorem deleted_deleteLog (s : Logs) (linkId : Nat) :
    Deleted s linkId (after ((deleteLog linkId).run s)) := by
  obtain ⟨s', hrun, hshut⟩ := shutdownLogManager_spec s linkId
  have hafter : after ((deleteLog linkId).run s) =
      { s' with locations := Function.update s'.locations linkId none } := by
    unfold deleteLog
    rw [run_bind_of_ok hrun]
    rfl
  rw [hafter]
  exact ⟨hshut.files, congrArg (Function.update · linkId none) hshut.locations, hshut.others,
    hshut.closed⟩

theorem silent_of_bare {s : Logs} (hbare : appendersOf s logger = []) : Silent s logger := by
  intro line
  change callAppenders line (appendersOf s logger) s.files = s.files
  rw [hbare]
  rfl

theorem Deleted.silent {s s' : Logs} (h : Deleted s linkId s')
    (hlt : logger.manager < s.managers.size)
    (hmap : s.linkIdLogManagerMap linkId = some logger.manager) : Silent s' logger := by
  refine silent_of_bare ?_
  unfold appendersOf
  rw [h.closed _ hlt hmap]
  rfl

theorem WritesTo.not_silent {s : Logs} {file : Ref} (h : WritesTo s logger file) :
    ¬ Silent s logger := by
  intro hsilent
  obtain ⟨n, hn, hget, -⟩ := h [0]
  rw [hsilent [0], List.flatten_replicate_singleton] at hget
  have hlength := congrArg List.length hget
  rw [List.length_append, List.length_replicate] at hlength
  omega

/-- **A logger of an orphan** keeps the deleted file open, and writes to it. -/
theorem writesTo_of_orphan {s' : Logs} (h : Sound s) (howned : Owned s logger linkId)
    (hdeleted : Deleted s.logs linkId s')
    (hmap : s.logs.linkIdLogManagerMap linkId ≠ some logger.manager)
    (hne : appendersOf s.logs logger ≠ []) :
    ∃ file, s.logs.locations linkId = some file ∧ (∀ id, s'.locations id ≠ some file) ∧
      WritesTo s' logger file := by
  have hsame : appendersOf s' logger = appendersOf s.logs logger := by
    unfold appendersOf
    rw [hdeleted.others _ hmap]
  have hlocation : ∀ a ∈ appendersOf s.logs logger, s.logs.locations linkId = some a := by
    intro a ha
    rw [← howned.2]
    exact h.appenders ha
  obtain ⟨file, hmem⟩ := List.exists_mem_of_ne_nil _ hne
  have hfile := hlocation file hmem
  have hall : ∀ a ∈ appendersOf s' logger, a = file := by
    intro a ha
    rw [hsame] at ha
    exact Option.some.inj ((hlocation a ha).symm.trans hfile)
  have hlt : file < s'.files.size := by
    rw [hdeleted.files]
    exact h.files_lt hfile
  refine ⟨file, hfile, fun id => ?_, fun line => ⟨(appendersOf s' logger).length, ?_,
    get_callAppenders_self hlt hall, fun other hother => get_callAppenders_ne fun a ha => ?_⟩⟩
  · rw [hdeleted.locations]
    by_cases hid : id = linkId
    · rw [hid, Function.update_self]
      nofun
    · rw [Function.update_of_ne hid]
      exact fun hother => hid (h.files_inj hfile hother)
  · rw [hsame]
    exact List.length_pos_of_ne_nil hne
  · rw [hall a ha]
    exact hother.symm

/-- A thread with a logger is in a call for the link its manager was made for. -/
theorem link_of_logger? {p : Phase} (hok : PhaseOk s p) (hp : p.logger? = some logger) :
    p.link = some (s.linkOf logger.manager) := by
  cases p with
  | idle | noManager => cases hp
  | logger l id | noAppender l id =>
    obtain rfl := Option.some.inj hp
    exact congrArg some hok.2.symm
  | created l id | appender l id =>
    obtain rfl := Option.some.inj hp
    exact congrArg some hok.1.2.symm

/-- **When the log is deleted**: in a run in which the files could be opened, and with no thread
left in a call for the link, the loggers that were returned for the link are all closed by
`deleteLog` exactly when no thread put a manager of the link over another's. One that is not closed
is of a manager that was overwritten, and its lines go to the file that was deleted. -/
theorem deleteLog_silences_iff (d : Disk) {es : List Event} (hopens : ∀ e ∈ es, e.opens = true)
    (hleft : ∀ t, ((run step es (boot d)).phase t).link ≠ some linkId) :
    let s := run step es (boot d)
    let deleted := after ((deleteLog linkId).run s.logs)
    ((∀ logger, (logger, linkId) ∈ s.held → Silent deleted logger) ↔
      Meets step (FirstManager linkId) es (boot d)) ∧
    ∀ logger, (logger, linkId) ∈ s.held → ¬ Silent deleted logger →
      s.logs.linkIdLogManagerMap linkId ≠ some logger.manager ∧
      ∃ file, s.logs.locations linkId = some file ∧ (∀ id, deleted.locations id ≠ some file) ∧
        WritesTo deleted logger file := by
  obtain ⟨hsound, hrooted⟩ := rooted_run d hopens
  dsimp only
  rw [meets_firstManager_iff]
  generalize run step es (boot d) = s at hsound hrooted hleft
  have hdeleted := deleted_deleteLog s.logs linkId
  generalize after ((deleteLog linkId).run s.logs) = s' at hdeleted
  refine ⟨⟨?_, fun hno logger hheld => ?_⟩, fun logger hheld hwrites => ?_⟩
  · rintro hsilent ⟨m, hlt, hlink, hmap⟩
    rcases hrooted m hlt with ⟨t, logger, ht, hm⟩ | ⟨⟨logger, id⟩, hheld, hm, hattached⟩
    · refine hleft t ?_
      rw [link_of_logger? (hsound.phase t) ht, hm, hlink]
    · have howned : Owned s logger id := hsound.held _ hheld
      obtain rfl : id = linkId := by rw [← howned.2, ← hlink, ← hm]
      obtain ⟨file, -, -, hwrites⟩ := writesTo_of_orphan hsound howned hdeleted (hm ▸ hmap)
        ((attached_iff _ _).mp hattached)
      exact hwrites.not_silent (hsilent logger hheld)
  · obtain ⟨hlt, hlink⟩ := hsound.held _ hheld
    refine hdeleted.silent hlt ?_
    by_contra hne
    exact hno ⟨logger.manager, hlt, hlink, hne⟩
  · have howned : Owned s logger linkId := hsound.held _ hheld
    have hmap : s.logs.linkIdLogManagerMap linkId ≠ some logger.manager := fun hmap =>
      hwrites (hdeleted.silent howned.1 hmap)
    refine ⟨hmap, writesTo_of_orphan hsound howned hdeleted hmap fun hbare => hwrites ?_⟩
    refine silent_of_bare ?_
    unfold appendersOf
    rw [hdeleted.others _ hmap]
    exact hbare

/-- Two relay handlers of link 1 are built at the same time, and both threads find no manager. -/
def bothMakeManagers : List Event :=
  [.get 0 (lit "BaseRelayHandler") 1, .get 1 (lit "BaseRelayHandler") 1, .put 0, .put 1,
    .getAppender 0, .createFile 0, .newFileAppender 0 true, .addAppender 0,
    .getAppender 1, .createFile 1, .newFileAppender 1 true, .addAppender 1]

theorem deleteLog_silences_bothMakeManagers :
    ¬ ∀ logger, (logger, 1) ∈ (run step bothMakeManagers (boot .empty)).held →
      Silent (after ((deleteLog 1).run (run step bothMakeManagers (boot .empty)).logs))
        logger := by
  intro hsilent
  have hmeets : Meets step (FirstManager 1) bothMakeManagers (boot .empty) :=
    (deleteLog_silences_iff .empty (by decide) (by rintro (_ | _ | t) <;> nofun)).1.mp hsilent
  exact absurd (hmeets.2.2.2.1 1 rfl _ rfl) (by decide)

end Terminator.Manager.LoggerRaces
