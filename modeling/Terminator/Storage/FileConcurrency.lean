import Mathlib.Logic.Function.Basic
import Terminator.Run.Invariant
import Terminator.Storage.Streams

/-!
# Threads on one `FileStorage`

`putRecordData`, `getRecordData` and `deleteRecordData` called by any number of threads, step by
step. `putRecordData` is `synchronized`: its three steps (read the length, append the record,
insert the row) are taken with the monitor held. `getRecordData` (select the row, read at its
offset) and `deleteRecordData` (delete the rows, delete the file) take no lock. A step a thread is
not ready for leaves the state as it is, so every list of events is an interleaving.

* **`found_of_no_delete`**: without deletes every get returns the bundle whose row was the newest
  one for its key when it selected, and every record stays;
* **`safe_of_undisturbed`**: with deletes this holds as long as no file is deleted while rows point
  into it or a put or a get holds an offset into it;
* `not_putUnderKey_deleteDuringGet`: and fails otherwise, `deleteRecordData` not being
  `synchronized`.
-/

namespace Terminator.Storage.FileStorage

open Terminator.Java Terminator.Netty Terminator.Run

/-- Where a thread is; `seen` is for the observer alone. -/
inductive Phase where
  | idle
  | measured (key : JString) (bundles : RequestResponseBundle ChannelBuffer) (offset : Nat)
  | appended (key : JString) (bundles : RequestResponseBundle ChannelBuffer) (offset : Nat)
  | selected (key : JString) (recordData : Option DataIndex) (seen : History)
  | rowsDeleted

/-- A get that has returned: the records that were live when it selected, and its result. -/
structure Get where
  key : JString
  seen : History
  result : RequestResponseBundle ChannelBuffer

/-- The storage, its threads and its monitor. The rest is what an observer notes: `live`, the
records whose rows were inserted since rows were last deleted; `recorded`, all records; `gets`, the
gets that returned. -/
structure Threads where
  file : FileStorage
  phase : Nat → Phase
  monitor : Option Nat
  live : History
  recorded : History
  gets : List Get

/-- The steps of thread `t`. -/
inductive Event where
  | putRecordData (t : Nat) (key : JString) (bundles : RequestResponseBundle ChannelBuffer)
  | append (t : Nat)
  | insert (t : Nat)
  | getRecordData (t : Nat) (key : JString)
  | read (t : Nat)
  | deleteRecordData (t : Nat)
  | deleteFile (t : Nat)

/-- Thread `t` goes on to `p`. -/
def Threads.goto (s : Threads) (t : Nat) (p : Phase) : Threads :=
  { s with phase := Function.update s.phase t p }

@[simp] theorem Threads.goto_self (s : Threads) (t : Nat) (p : Phase) :
    (s.goto t p).phase t = p := by
  simp [Threads.goto]

theorem Threads.goto_ne (s : Threads) {t u : Nat} (hu : u ≠ t) (p : Phase) :
    (s.goto t p).phase u = s.phase u := by
  simp [Threads.goto, hu]

/-- What a get returns for the row it selected. -/
def result (env : FileEnv) (f : FileStorage) :
    Option DataIndex → RequestResponseBundle ChannelBuffer
  | none => .empty
  | some row => readAt env f row.offset

namespace Threads

/-- `putRecordData` has the monitor and has read the length of the file. -/
def measure (t : Nat) (key : JString) (bundles : RequestResponseBundle ChannelBuffer)
    (s : Threads) : Threads :=
  { s.goto t (.measured key bundles s.file.length) with monitor := some t }

/-- The record is in the file. -/
def append (env : FileEnv) (t : Nat) (key : JString)
    (bundles : RequestResponseBundle ChannelBuffer) (offset : Nat) (s : Threads) : Threads :=
  { s.goto t (.appended key bundles offset) with
    file := { s.file with
      dataFile := some (s.file.dataFile.getD [] ++ env.streams.writeObject bundles) } }

/-- The row is in the table; the monitor is given back. -/
def insert (env : FileEnv) (t : Nat) (key : JString)
    (bundles : RequestResponseBundle ChannelBuffer) (offset : Nat) (s : Threads) : Threads :=
  { s.goto t .idle with
    file := insertDataIndex s.file env.linkId offset key
    monitor := none
    live := s.live ++ [(key, bundles)]
    recorded := s.recorded ++ [(key, bundles)] }

/-- `getRecordData` has selected a row. -/
def select (env : FileEnv) (t : Nat) (key : JString) (s : Threads) : Threads :=
  s.goto t (.selected key (selectDataIndex env s.file key) s.live)

/-- The get has read at the offset of its row. -/
def read (env : FileEnv) (t : Nat) (key : JString) (recordData : Option DataIndex) (seen : History)
    (s : Threads) : Threads :=
  { s.goto t .idle with gets := s.gets ++ [⟨key, seen, result env s.file recordData⟩] }

/-- `deleteRecordData` has deleted the rows. -/
def deleteRows (env : FileEnv) (t : Nat) (s : Threads) : Threads :=
  { s.goto t .rowsDeleted with file := deleteDataIndex env s.file, live := [] }

/-- And the file. -/
def deleteFile (t : Nat) (s : Threads) : Threads :=
  { s.goto t .idle with file := FileStorage.deleteFile s.file }

end Threads

/-- One step of one thread. -/
def step (env : FileEnv) : Event → Threads → Threads
  | .putRecordData t key bundles, s =>
    match s.phase t with
    | .idle => if s.monitor = none then s.measure t key bundles else s
    | _ => s
  | .append t, s =>
    match s.phase t with
    | .measured key bundles offset => s.append env t key bundles offset
    | _ => s
  | .insert t, s =>
    match s.phase t with
    | .appended key bundles offset => s.insert env t key bundles offset
    | _ => s
  | .getRecordData t key, s =>
    match s.phase t with
    | .idle => s.select env t key
    | _ => s
  | .read t, s =>
    match s.phase t with
    | .selected key recordData seen => s.read env t key recordData seen
    | _ => s
  | .deleteRecordData t, s =>
    match s.phase t with
    | .idle => s.deleteRows env t
    | _ => s
  | .deleteFile t, s =>
    match s.phase t with
    | .rowsDeleted => s.deleteFile t
    | _ => s

/-- What a step can do: go on, if the thread is there and may, or leave everything as it is. -/
inductive Takes (env : FileEnv) (s : Threads) : Event → Threads → Prop
  | stay (e : Event) : Takes env s e s
  | measure {t : Nat} {key : JString} {bundles : RequestResponseBundle ChannelBuffer}
      (ht : s.phase t = .idle) (hmon : s.monitor = none) :
      Takes env s (.putRecordData t key bundles) (s.measure t key bundles)
  | append {t : Nat} {key : JString} {bundles : RequestResponseBundle ChannelBuffer} {offset : Nat}
      (ht : s.phase t = .measured key bundles offset) :
      Takes env s (.append t) (s.append env t key bundles offset)
  | insert {t : Nat} {key : JString} {bundles : RequestResponseBundle ChannelBuffer} {offset : Nat}
      (ht : s.phase t = .appended key bundles offset) :
      Takes env s (.insert t) (s.insert env t key bundles offset)
  | select {t : Nat} {key : JString} (ht : s.phase t = .idle) :
      Takes env s (.getRecordData t key) (s.select env t key)
  | read {t : Nat} {key : JString} {recordData : Option DataIndex} {seen : History}
      (ht : s.phase t = .selected key recordData seen) :
      Takes env s (.read t) (s.read env t key recordData seen)
  | deleteRows {t : Nat} (ht : s.phase t = .idle) :
      Takes env s (.deleteRecordData t) (s.deleteRows env t)
  | deleteFile {t : Nat} (ht : s.phase t = .rowsDeleted) :
      Takes env s (.deleteFile t) (s.deleteFile t)

theorem takes_step (env : FileEnv) (e : Event) (s : Threads) : Takes env s e (step env e s) := by
  cases e with
  | putRecordData t key bundles =>
    rw [step]
    cases ht : s.phase t with
    | idle =>
      by_cases hmon : s.monitor = none
      · simp only [if_pos hmon]
        exact .measure ht hmon
      · simp only [if_neg hmon]
        exact .stay _
    | measured | appended | selected | rowsDeleted => exact .stay _
  | append t =>
    rw [step]
    cases ht : s.phase t with
    | measured => exact .append ht
    | idle | appended | selected | rowsDeleted => exact .stay _
  | insert t =>
    rw [step]
    cases ht : s.phase t with
    | appended => exact .insert ht
    | idle | measured | selected | rowsDeleted => exact .stay _
  | getRecordData t key =>
    rw [step]
    cases ht : s.phase t with
    | idle => exact .select ht
    | measured | appended | selected | rowsDeleted => exact .stay _
  | read t =>
    rw [step]
    cases ht : s.phase t with
    | selected => exact .read ht
    | idle | measured | appended | rowsDeleted => exact .stay _
  | deleteRecordData t =>
    rw [step]
    cases ht : s.phase t with
    | idle => exact .deleteRows ht
    | measured | appended | selected | rowsDeleted => exact .stay _
  | deleteFile t =>
    rw [step]
    cases ht : s.phase t with
    | rowsDeleted => exact .deleteFile ht
    | idle | measured | appended | selected => exact .stay _

/-- No call is under way. -/
structure Quiet (env : FileEnv) (hist : History) (s : Threads) : Prop where
  indexed : Indexed env s.file hist
  idle : ∀ t, s.phase t = .idle
  monitor : s.monitor = none
  live : s.live = hist
  recorded : s.recorded = hist
  gets : s.gets = []

/-- The result of a get is empty or a bundle that was put under its key. -/
def PutUnderKey (env : FileEnv) (s : Threads) : Prop :=
  ∀ g ∈ s.gets, g.result = .empty ∨
    ∃ p ∈ s.recorded, env.collation.equal p.1 g.key = true ∧ p.2 = g.result

/-- The result of a get is the bundle put last under its key among the records live when it
selected. -/
def Found (env : FileEnv) (s : Threads) : Prop :=
  ∀ g ∈ s.gets, g.result = lookupAs env g.seen g.key

/-! ## The invariant -/

variable {env : FileEnv} {f : FileStorage} {hist : History} {s : Threads}

/-- What a thread may rely on: a put has the monitor and an offset where its record is, or will be;
a get has a row that points at the bundle it is looking for. -/
def PhaseOk (env : FileEnv) (s : Threads) (t : Nat) : Phase → Prop
  | .idle | .rowsDeleted => True
  | .measured _ _ offset => s.monitor = some t ∧ offset = s.file.length
  | .appended _ bundles offset => s.monitor = some t ∧
      ∃ before rest, s.file.dataFile = some (before ++ env.streams.writeObject bundles ++ rest) ∧
        offset = before.length
  | .selected key recordData seen =>
      Option.Rel (RowOf env (s.file.dataFile.getD [])) recordData (lastAs env seen key) ∧
        (recordData ≠ none → s.file.dataFile ≠ none) ∧ seen ⊆ s.recorded

/-- The rows inserted since rows were last deleted are in the table, their records in the file, and
every thread may rely on what it has seen. -/
structure Inv (env : FileEnv) (s : Threads) : Prop where
  indexed : Indexed env s.file s.live
  live_recorded : s.live ⊆ s.recorded
  phases : ∀ t, PhaseOk env s t (s.phase t)
  found : Found env s
  seen_recorded : ∀ g ∈ s.gets, g.seen ⊆ s.recorded

theorem inv_of_quiet (h : Quiet env hist s) : Inv env s where
  indexed := by rw [h.live]; exact h.indexed
  live_recorded := by rw [h.live, h.recorded]; exact List.Subset.refl _
  phases t := by rw [h.idle t]; trivial
  found g hg := by rw [h.gets] at hg; cases hg
  seen_recorded g hg := by rw [h.gets] at hg; cases hg

/-- **Frame**: what a thread relies on survives the others' appends and inserts, and a put's own
part of the file is changed by none of them. -/
theorem PhaseOk.frame {s' : Threads} {t : Nat} {p : Phase} (h : PhaseOk env s t p)
    (hown : s.monitor = some t →
      s'.monitor = some t ∧ s'.file.dataFile = s.file.dataFile)
    (hgrow : s'.file.dataFile = s.file.dataFile ∨
      ∃ more, s'.file.dataFile = some (s.file.dataFile.getD [] ++ more))
    (hrec : s.recorded ⊆ s'.recorded) : PhaseOk env s' t p := by
  cases p with
  | idle => trivial
  | rowsDeleted => trivial
  | measured key bundles offset =>
    obtain ⟨hmon, hoff⟩ := h
    obtain ⟨hmon', hfile⟩ := hown hmon
    refine ⟨hmon', ?_⟩
    rw [hoff, FileStorage.length, FileStorage.length, hfile]
  | appended key bundles offset =>
    obtain ⟨hmon, before, rest, hbytes, hoff⟩ := h
    obtain ⟨hmon', hfile⟩ := hown hmon
    exact ⟨hmon', before, rest, hfile.trans hbytes, hoff⟩
  | selected key recordData seen =>
    obtain ⟨hrel, hexists, hseen⟩ := h
    rcases hgrow with hfile | ⟨more, hfile⟩
    · unfold PhaseOk
      rw [hfile]
      exact ⟨hrel, hexists, List.Subset.trans hseen hrec⟩
    · unfold PhaseOk
      rw [hfile, Option.getD_some]
      refine ⟨?_, fun _ => Option.some_ne_none _, List.Subset.trans hseen hrec⟩
      generalize lastAs env seen key = p at hrel ⊢
      cases hrel with
      | none => exact .none
      | some hrow => exact .some (hrow.append more)

/-- Only the thread that takes the step has to be looked at. -/
theorem phases_goto {s s' : Threads} {t : Nat} {p : Phase} (hphase : s'.phase = (s.goto t p).phase)
    (ht : PhaseOk env s' t p) (hother : ∀ u, u ≠ t → PhaseOk env s' u (s.phase u)) (u : Nat) :
    PhaseOk env s' u (s'.phase u) := by
  rw [hphase]
  by_cases hu : u = t
  · rw [hu, s.goto_self]
    exact ht
  · rw [s.goto_ne hu]
    exact hother u hu

/-- A get that reads what its row points at finds its bundle. -/
theorem PhaseOk.result {t : Nat} {key : JString} {recordData : Option DataIndex} {seen : History}
    (h : PhaseOk env s t (.selected key recordData seen)) :
    FileStorage.result env s.file recordData = lookupAs env seen key := by
  obtain ⟨hrel, hexists, -⟩ := h
  unfold lookupAs
  generalize lastAs env seen key = p at hrel
  cases hrel with
  | none => rfl
  | some hrow =>
    obtain ⟨bytes, hfile⟩ := Option.ne_none_iff_exists'.mp (hexists (Option.some_ne_none _))
    have hread := hrow.read
    rw [hfile, Option.getD_some] at hread
    unfold FileStorage.result readAt
    rw [hfile]
    simp only [hread, Option.getD_some, Option.map_some]

/-! ## The steps -/

/-- What is said of the gets that have returned depends on nothing else. -/
theorem Inv.of_gets {s' : Threads} (h : Inv env s) (hgets : s'.gets = s.gets)
    (hrec : s.recorded ⊆ s'.recorded) (hindexed : Indexed env s'.file s'.live)
    (hlive : s'.live ⊆ s'.recorded) (hphases : ∀ t, PhaseOk env s' t (s'.phase t)) :
    Inv env s' where
  indexed := hindexed
  live_recorded := hlive
  phases := hphases
  found := by
    unfold Found
    rw [hgets]
    exact h.found
  seen_recorded := by
    rw [hgets]
    exact fun g hg => List.Subset.trans (h.seen_recorded g hg) hrec

/-- `putRecordData` takes the monitor and reads the length of the file. -/
theorem Inv.measure (h : Inv env s) {t : Nat} (hmon : s.monitor = none) (key : JString)
    (b : RequestResponseBundle ChannelBuffer) : Inv env (s.measure t key b) := by
  refine h.of_gets rfl (List.Subset.refl _) h.indexed h.live_recorded
    (phases_goto rfl ⟨rfl, rfl⟩ ?_)
  intro u _
  refine (h.phases u).frame (fun hown => ?_) (.inl rfl) (List.Subset.refl _)
  rw [hmon] at hown
  cases hown

/-- The thread with the monitor appends its record. -/
theorem Inv.append (h : Inv env s) {t : Nat} {key : JString}
    {b : RequestResponseBundle ChannelBuffer} {offset : Nat}
    (ht : s.phase t = .measured key b offset) : Inv env (s.append env t key b offset) := by
  have hok := h.phases t
  rw [ht] at hok
  obtain ⟨hmon, hoff⟩ := hok
  refine h.of_gets rfl (List.Subset.refl _) (h.indexed.append _) h.live_recorded
    (phases_goto rfl ⟨hmon, _, [], ?_, hoff⟩ ?_)
  · rw [List.append_nil]
    rfl
  · intro u hu
    refine (h.phases u).frame (fun hown => ?_) (.inr ⟨_, rfl⟩) (List.Subset.refl _)
    exact absurd (Option.some.inj (hmon.symm.trans hown)).symm hu

/-- It inserts the row of its record and gives the monitor back. -/
theorem Inv.insert (h : Inv env s) {t : Nat} {key : JString}
    {b : RequestResponseBundle ChannelBuffer} {offset : Nat}
    (ht : s.phase t = .appended key b offset) : Inv env (s.insert env t key b offset) := by
  have hok := h.phases t
  rw [ht] at hok
  obtain ⟨hmon, before, rest, hbytes, hoff⟩ := hok
  refine h.of_gets rfl (List.subset_append_left _ _) (h.indexed.insert hbytes hoff) ?_
    (phases_goto rfl trivial ?_)
  · exact List.append_subset.mpr ⟨List.subset_append_of_subset_left _ h.live_recorded,
      List.subset_append_right _ _⟩
  · intro u hu
    refine (h.phases u).frame (fun hown => ?_) (.inl rfl) (List.subset_append_left _ _)
    exact absurd (Option.some.inj (hmon.symm.trans hown)).symm hu

/-- A get selects the newest row of its key. -/
theorem Inv.select (h : Inv env s) (t : Nat) (key : JString) :
    Inv env (s.select env t key) := by
  refine h.of_gets rfl (List.Subset.refl _) h.indexed h.live_recorded (phases_goto rfl ?_ ?_)
  · refine ⟨h.indexed.select key, fun hrow hfile => hrow ?_, h.live_recorded⟩
    have hsel := h.indexed.select key
    rw [show s.live = [] from h.indexed.file_exists hfile] at hsel
    generalize selectDataIndex env s.file key = row at hsel
    cases hsel
    rfl
  · intro u _
    exact (h.phases u).frame (fun hown => ⟨hown, rfl⟩) (.inl rfl) (List.Subset.refl _)

/-- A get reads at the offset of its row. -/
theorem Inv.read (h : Inv env s) {t : Nat} {key : JString} {recordData : Option DataIndex}
    {seen : History} (ht : s.phase t = .selected key recordData seen) :
    Inv env (s.read env t key recordData seen) := by
  have hok := h.phases t
  rw [ht] at hok
  refine ⟨h.indexed, h.live_recorded, phases_goto rfl trivial fun u _ => ?_, ?_, ?_⟩
  · exact (h.phases u).frame (fun hown => ⟨hown, rfl⟩) (.inl rfl) (List.Subset.refl _)
  · intro g hg
    rcases List.mem_append.mp hg with hg | hg
    · exact h.found g hg
    · rw [List.mem_singleton.mp hg]
      exact hok.result
  · intro g hg
    rcases List.mem_append.mp hg with hg | hg
    · exact h.seen_recorded g hg
    · rw [List.mem_singleton.mp hg]
      exact hok.2.2

/-- The rows of the link are deleted. -/
theorem Inv.deleteRows (h : Inv env s) (t : Nat) : Inv env (s.deleteRows env t) := by
  refine h.of_gets rfl (List.Subset.refl _) (indexed_nil (rows_deleteDataIndex env s.file))
    (List.nil_subset _) (phases_goto rfl trivial fun u _ => ?_)
  exact (h.phases u).frame (fun hown => ⟨hown, rfl⟩) (.inl rfl) (List.Subset.refl _)

/-- The thread holds no offset into a file that has anything in it. -/
def NoOffset : Phase → Prop
  | .idle | .rowsDeleted => True
  | .measured _ _ offset => offset = 0
  | .appended _ _ _ => False
  | .selected _ recordData _ => recordData = none

/-- The file is deleted, unless there is none, only while the link has no rows and no thread holds
an offset. -/
def Undisturbed (env : FileEnv) : Event → Threads → Prop
  | .deleteFile t, s => s.phase t = .rowsDeleted → s.file.dataFile ≠ none →
      rows env s.file = [] ∧ ∀ u, NoOffset (s.phase u)
  | _, _ => True

/-- Without an offset a thread does not rely on the file. -/
theorem PhaseOk.of_noOffset {s' : Threads} {t : Nat} {p : Phase} (h : PhaseOk env s t p)
    (hp : NoOffset p) (hmon : s'.monitor = s.monitor) (hfile : s'.file.dataFile = none)
    (hrec : s'.recorded = s.recorded) : PhaseOk env s' t p := by
  cases p with
  | idle => trivial
  | rowsDeleted => trivial
  | measured key bundles offset =>
    refine ⟨hmon.trans h.1, ?_⟩
    rw [hp, FileStorage.length, hfile]
    rfl
  | appended key bundles offset => exact hp.elim
  | selected key recordData seen =>
    have hnone : recordData = none := hp
    subst hnone
    obtain ⟨hrel, -, hseen⟩ := h
    refine ⟨?_, fun hne => absurd rfl hne, hrec ▸ hseen⟩
    generalize lastAs env seen key = q at hrel ⊢
    cases hrel
    exact .none

/-- The file is deleted. -/
theorem Inv.deleteFile (h : Inv env s) {t : Nat}
    (hclean : s.file.dataFile ≠ none → rows env s.file = [] ∧ ∀ u, NoOffset (s.phase u)) :
    Inv env (s.deleteFile t) := by
  by_cases hfile : s.file.dataFile = none
  · have hsame : FileStorage.deleteFile s.file = s.file := by
      unfold FileStorage.deleteFile
      rw [← hfile]
    unfold Threads.deleteFile
    rw [hsame]
    refine h.of_gets rfl (List.Subset.refl _) h.indexed h.live_recorded
      (phases_goto rfl trivial fun u _ => ?_)
    exact (h.phases u).frame (fun hown => ⟨hown, rfl⟩) (.inl rfl) (List.Subset.refl _)
  · obtain ⟨hrows, hoffset⟩ := hclean hfile
    have hlive : s.live = [] := by
      have hrel := h.indexed.rows_of
      rw [hrows] at hrel
      exact List.forall₂_nil_left_iff.mp hrel
    refine h.of_gets rfl (List.Subset.refl _) ?_ h.live_recorded
      (phases_goto rfl trivial fun u _ => (h.phases u).of_noOffset (hoffset u) rfl rfl rfl)
    show Indexed env (FileStorage.deleteFile s.file) s.live
    rw [hlive]
    exact indexed_nil hrows

/-- **One step** keeps the invariant, whichever thread takes it. -/
theorem Inv.step (h : Inv env s) (e : Event) (he : Undisturbed env e s) :
    Inv env (step env e s) := by
  have htakes := takes_step env e s
  generalize FileStorage.step env e s = s' at htakes ⊢
  cases htakes with
  | stay => exact h
  | measure _ hmon => exact h.measure hmon _ _
  | append ht => exact h.append ht
  | insert ht => exact h.insert ht
  | select _ => exact h.select _ _
  | read ht => exact h.read ht
  | deleteRows _ => exact h.deleteRows _
  | deleteFile ht => exact h.deleteFile (he ht)

/-- What is found among the live records was put under the key. -/
theorem Inv.putUnderKey (h : Inv env s) : PutUnderKey env s := by
  intro g hg
  rw [h.found g hg]
  unfold lookupAs
  cases hlast : lastAs env g.seen g.key with
  | none => exact .inl rfl
  | some p =>
    exact .inr ⟨p, h.seen_recorded g hg (mem_of_lastAs hlast), equal_of_lastAs hlast, rfl⟩

/-! ## Runs -/

/-- The step is one of `deleteRecordData`. -/
def Event.deletes : Event → Bool
  | .deleteRecordData _ | .deleteFile _ => true
  | _ => false

theorem undisturbed_of_not_deletes {e : Event} (he : e.deletes = false) (s : Threads) :
    Undisturbed env e s := by
  cases e with
  | deleteFile t => cases he
  | putRecordData | append | insert | getRecordData | read | deleteRecordData => trivial

/-- Without deletes every record stays live. -/
theorem live_step {e : Event} (he : e.deletes = false) (h : s.live = s.recorded) :
    (step env e s).live = (step env e s).recorded := by
  have htakes := takes_step env e s
  generalize step env e s = s' at htakes ⊢
  cases htakes with
  | stay => exact h
  | measure _ _ => exact h
  | append _ => exact h
  | insert _ => exact congrArg (· ++ _) h
  | select _ => exact h
  | read _ => exact h
  | deleteRows _ => cases he
  | deleteFile _ => cases he

/-- A record stays live until rows are deleted. -/
theorem mem_live_of_run {p : JString × RequestResponseBundle ChannelBuffer} (hp : p ∈ s.live)
    {es : List Event} (hes : ∀ t, .deleteRecordData t ∉ es) : p ∈ (run (step env) es s).live := by
  have hmeets : Meets (step env) (fun e _ => ∀ t, e ≠ .deleteRecordData t) es s :=
    meets_of_forall fun e he _ t het => hes t (het ▸ he)
  refine run_of_invariant (I := fun s => p ∈ s.live) ?_ hp hmeets
  intro e s hp he
  have htakes := takes_step env e s
  generalize step env e s = s' at htakes ⊢
  cases htakes with
  | stay => exact hp
  | measure _ _ => exact hp
  | append _ => exact hp
  | insert _ => exact List.mem_append_left _ hp
  | select _ => exact hp
  | read _ => exact hp
  | deleteRows _ => exact absurd rfl (he _)
  | deleteFile _ => exact hp

/-- **A put is not lost**: from its insert on its record is live, until rows are deleted. -/
theorem mem_live_of_insert {es1 es2 : List Event} {t offset : Nat} {key : JString}
    {b : RequestResponseBundle ChannelBuffer}
    (ht : (run (step env) es1 s).phase t = .appended key b offset)
    (hes : ∀ u, .deleteRecordData u ∉ es2) :
    (key, b) ∈ (run (step env) (es1 ++ .insert t :: es2) s).live := by
  rw [run_append]
  have hinsert : step env (.insert t) (run (step env) es1 s)
      = (run (step env) es1 s).insert env t key b offset := by
    rw [step, ht]
  have hlive : (key, b) ∈ (step env (.insert t) (run (step env) es1 s)).live := by
    rw [hinsert]
    exact List.mem_append_right _ List.mem_cons_self
  exact mem_live_of_run hlive hes

/-- A storage nothing was recorded in, and no thread in it. -/
def quiet : Threads := ⟨⟨none, [], 0⟩, fun _ => .idle, none, [], [], []⟩

theorem quiet_quiet (env : FileEnv) : Quiet env [] quiet :=
  ⟨indexed_nil rfl, fun _ => rfl, rfl, rfl, rfl, rfl⟩

/-- The bundles of two different requests. -/
def bundleA : RequestResponseBundle ChannelBuffer := ⟨some (.request (.get "a")), none⟩
def bundleB : RequestResponseBundle ChannelBuffer := ⟨some (.request (.get "b")), none⟩

/-- A get that selects between the append and the insert of a put, and reads after them. -/
def getDuringPut : List Event :=
  [.putRecordData 0 (lit "a") bundleA, .append 0, .getRecordData 1 (lit "a"), .insert 0, .read 1]

/-- **Deleting while traffic is recorded**: if no step disturbs another thread's, every get returns
the bundle put last under its key among the records live when it selected, or the empty one, and a
record is live from its insert to the next delete. -/
theorem safe_of_undisturbed (h : Quiet env hist s) {es : List Event}
    (hes : Meets (step env) (Undisturbed env) es s) :
    Always (step env) (fun s => PutUnderKey env s ∧ Found env s ∧
        stored env s.file = s.live) es s ∧
      ∀ es1 t es2 key b offset, es = es1 ++ .insert t :: es2 →
        (run (step env) es1 s).phase t = .appended key b offset →
        (∀ u, .deleteRecordData u ∉ es2) → (key, b) ∈ (run (step env) es s).live := by
  constructor
  · exact always_of_invariant (fun s hs => ⟨hs.putUnderKey, hs.found, hs.indexed.stored_eq⟩)
      (fun e s hs he => hs.step e he) (inv_of_quiet h) hes
  · rintro es1 t es2 key b offset rfl ht hes2
    exact mem_live_of_insert ht hes2

/-- A get that selects its row, a delete, a put under another key, and the read. -/
def deleteDuringGet : List Event :=
  [.putRecordData 0 (lit "a") bundleA, .append 0, .insert 0, .getRecordData 2 (lit "a"),
    .deleteRecordData 1, .deleteFile 1, .putRecordData 0 (lit "b") bundleB, .append 0, .insert 0,
    .read 2]

/-- The get returns the bundle of the other key. -/
theorem not_putUnderKey_deleteDuringGet :
    ¬ PutUnderKey (fileEnv 1) (run (step (fileEnv 1)) deleteDuringGet quiet) := by
  unfold PutUnderKey
  decide +kernel

/-- A delete between two puts, and a get. -/
def deleteBetweenPuts : List Event :=
  [.putRecordData 0 (lit "a") bundleA, .append 0, .insert 0, .deleteRecordData 1, .deleteFile 1,
    .putRecordData 0 (lit "b") bundleB, .append 0, .insert 0, .getRecordData 2 (lit "b"), .read 2]

theorem safe_deleteBetweenPuts :
    Always (step (fileEnv 1)) (fun s => PutUnderKey (fileEnv 1) s ∧ Found (fileEnv 1) s ∧
        stored (fileEnv 1) s.file = s.live) deleteBetweenPuts quiet ∧
      ∀ es1 t es2 key b offset, deleteBetweenPuts = es1 ++ .insert t :: es2 →
        (run (step (fileEnv 1)) es1 quiet).phase t = .appended key b offset →
        (∀ u, .deleteRecordData u ∉ es2) →
        (key, b) ∈ (run (step (fileEnv 1)) deleteBetweenPuts quiet).live := by
  refine safe_of_undisturbed (quiet_quiet _) ?_
  refine ⟨trivial, trivial, trivial, trivial, fun _ _ => ⟨rfl, fun u => ?_⟩, trivial, trivial,
    trivial, trivial, trivial, trivial⟩
  rcases u with _ | _ | u <;> trivial

end Terminator.Storage.FileStorage
