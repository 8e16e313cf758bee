import Terminator.Java.Exec
import Terminator.Java.Lines
import Terminator.Run.Invariant

/-!
# Reading the log of a link

`LogServiceImpl.readLog` and the page that polls it (`queryLog` of `log.jsp`): a call returns the
lines from an offset on and the offset for the next call.

A call reads at most 512 KB and one line. It looks at the limit with the pointer of the line it has
just added, and then returns the start of that line: the next call delivers the line again.

* `readLog_run`: a query of the page is a call of `readLog`;
* `readLines_of_short`, `readLines_of_long`: what the loop comes to, by whether a line starts past
  the limit;
* **`noLineTwice_iff`**: in a file that does not change, no line is delivered twice iff none
  starts 512 KB or more into it.
-/

namespace Terminator.Manager

open Terminator.Java Terminator.Java.Lines Terminator.Run

/-- `Log`. -/
structure Log where
  logLocation : JString
  offset : Nat
  content : List JString

namespace LogServiceImpl

def MAX_READ_BYTES : Nat := 1024 * 512

/-- What `lines` gets for a line of the file; the code keeps the text alone. -/
structure Line where
  start : Nat
  text : JString

/-- `utf8Line` of the line at `point`. -/
def utf8Line (file : List Byte) (point : Nat) : JString :=
  Utf8.decode (latin1 (chars (lineAt file point)))

/-- The line at `point`, as it is added. -/
def added (file : List Byte) (point : Nat) : Line := ⟨point, utf8Line file point⟩

/-- The `while` loop at `point`: what is added to `lines`, and `length` behind it. -/
def readLines (file : List Byte) (offset point : Nat) : List Line × Nat :=
  if point < file.length then
    if MAX_READ_BYTES ≤ point - offset then ([added file point], point)
    else
      let rest := readLines file offset (nextLine file point)
      (added file point :: rest.1, rest.2)
  else ([], file.length)
termination_by file.length - point
decreasing_by
  have := lt_nextLine ‹point < file.length›
  omega

/-- The log files, by link. -/
abbrev LogFiles := Nat → Option (List Byte)

/-- `FileUtils.createFile`: a file that is there stays as it is. -/
def createFile (linkId : Nat) (files : LogFiles) : LogFiles :=
  fun id => if id = linkId then some ((files linkId).getD []) else files id

/-- `readLog(linkId, offset)`; `seek` refuses a negative offset. -/
def readLog (getLogFileLocation : Nat → JString) (linkId : Nat) (offset : Int) :
    Method LogFiles Log := do
  modify (createFile linkId)
  if offset < 0 then throw .io
  else
    let file := ((← get) linkId).getD []
    let read := readLines file offset.toNat offset.toNat
    pure ⟨getLogFileLocation linkId, read.2, read.1.map Line.text⟩

/-! ## The loop -/

section Loop

variable {file : List Byte} {offset point : Nat}

theorem readLines_of_le (h : file.length ≤ point) :
    readLines file offset point = ([], file.length) := by
  rw [readLines, if_neg (Nat.not_lt.mpr h)]

theorem readLines_of_limit (h : point < file.length) (hlimit : MAX_READ_BYTES ≤ point - offset) :
    readLines file offset point = ([added file point], point) := by
  rw [readLines, if_pos h, if_pos hlimit]

theorem readLines_of_lt (h : point < file.length) (hlimit : point - offset < MAX_READ_BYTES) :
    readLines file offset point =
      (added file point :: (readLines file offset (nextLine file point)).1,
        (readLines file offset (nextLine file point)).2) := by
  rw [readLines, if_pos h, if_neg (Nat.not_le.mpr hlimit)]

/-- With no line past the limit, the call reads to the end of the file. -/
theorem readLines_of_short (h : ∀ start ∈ starts file point, start - offset < MAX_READ_BYTES) :
    readLines file offset point = ((starts file point).map (added file), file.length) := by
  induction point using starts.induct file with
  | case1 point hpoint ih =>
    rw [starts_of_lt hpoint] at h ⊢
    have hrest := ih fun start hstart => h start (List.mem_cons_of_mem _ hstart)
    rw [readLines_of_lt hpoint (h point List.mem_cons_self), hrest, List.map_cons]
  | case2 point hpoint =>
    have hle := Nat.not_lt.mp hpoint
    rw [readLines_of_le hle, starts_of_le hle, List.map_nil]

/-- A line past the limit: the call ends with such a line, and returns its start. -/
theorem readLines_of_long (h : ∃ start ∈ starts file point, MAX_READ_BYTES ≤ start - offset) :
    added file (readLines file offset point).2 ∈ (readLines file offset point).1 ∧
      (readLines file offset point).2 < file.length := by
  induction point using starts.induct file with
  | case1 point hpoint ih =>
    by_cases hlimit : MAX_READ_BYTES ≤ point - offset
    · rw [readLines_of_limit hpoint hlimit]
      exact ⟨List.mem_cons_self, hpoint⟩
    · obtain ⟨start, hmem, hstart⟩ := h
      rw [starts_of_lt hpoint, List.mem_cons] at hmem
      rcases hmem with rfl | hmem
      · exact absurd hstart hlimit
      · obtain ⟨hadded, hlt⟩ := ih ⟨start, hmem, hstart⟩
        rw [readLines_of_lt hpoint (Nat.not_le.mp hlimit)]
        exact ⟨List.mem_cons_of_mem _ hadded, hlt⟩
  | case2 point hpoint =>
    obtain ⟨start, hmem, -⟩ := h
    rw [starts_of_le (Nat.not_lt.mp hpoint)] at hmem
    simp at hmem

/-- The first line of a call is never past the limit. -/
theorem first_lt_limit (offset : Nat) : offset - offset < MAX_READ_BYTES := by
  rw [Nat.sub_self]
  exact Nat.mul_pos (by decide) (by decide)

/-- A call in the file delivers the line it starts at, whatever the limit. -/
theorem added_mem_readLines (h : offset < file.length) :
    added file offset ∈ (readLines file offset offset).1 := by
  rw [readLines_of_lt h (first_lt_limit offset)]
  exact List.mem_cons_self

end Loop

/-! ## Following the log -/

/-- The page: the file it looks at, the offset of its next call, and the lines it shows. -/
structure Following where
  file : List Byte
  offset : Nat
  shown : List Line

/-- What happens to it: the program logs some bytes, or `queryLog` runs. -/
inductive Event where
  | append (bytes : List Byte)
  | query

/-- One event. -/
def follow : Event → Following → Following
  | .append bytes, v => { v with file := v.file ++ bytes }
  | .query, v =>
    let read := readLines v.file v.offset v.offset
    { v with offset := read.2, shown := v.shown ++ read.1 }

/-- The page before its first call. -/
def opened (file : List Byte) : Following := ⟨file, 0, []⟩

/-- **A query** is a call of `readLog` at the offset the last one returned: it shows the lines the
call returns. -/
theorem readLog_run (getLogFileLocation : Nat → JString) {linkId : Nat} {files : LogFiles}
    {v : Following} (h : v.file = (files linkId).getD []) :
    ∃ lines, (follow .query v).shown = v.shown ++ lines ∧
      (readLog getLogFileLocation linkId v.offset).run files =
        .ok ⟨getLogFileLocation linkId, (follow .query v).offset, lines.map Line.text⟩
          (createFile linkId files) := by
  refine ⟨(readLines v.file v.offset v.offset).1, rfl, ?_⟩
  have hfile : ((createFile linkId files) linkId).getD [] = v.file := by simp [createFile, h]
  have hcreate : (modify (createFile linkId) : Method LogFiles PUnit).run files =
      .ok ⟨⟩ (createFile linkId files) := rfl
  have hoffset : ¬ (v.offset : Int) < 0 := by omega
  rw [readLog, run_bind_of_ok hcreate, if_neg hoffset, run_get_bind, hfile]
  rfl

/-! ## Lines delivered twice -/

/-- **No line is delivered twice**, as a place in the file, however often the page asks. -/
def NoLineTwice (file : List Byte) : Prop :=
  ∀ n, ((run follow (List.replicate n .query) (opened file)).shown.map Line.start).Nodup

section Twice

variable {file : List Byte}

theorem map_start_added (points : List Nat) :
    (points.map (added file)).map Line.start = points := by
  rw [List.map_map]
  exact List.map_id points

/-- Calls at the end of the file deliver nothing. -/
theorem run_query_at_end (n : Nat) (shown : List Line) :
    run follow (List.replicate n .query) ⟨file, file.length, shown⟩ =
      ⟨file, file.length, shown⟩ := by
  induction n with
  | zero => rfl
  | succ n ih =>
    have hquery : follow .query ⟨file, file.length, shown⟩ = ⟨file, file.length, shown⟩ := by
      simp only [follow, readLines_of_le (Nat.le_refl _), List.append_nil]
    rw [List.replicate_succ, run, hquery, ih]

/-- The second call delivers the last line of the first one again. -/
theorem not_noLineTwice (h : ∃ start ∈ starts file 0, MAX_READ_BYTES ≤ start) :
    ¬ NoLineTwice file := by
  intro htwice
  have hlong : ∃ start ∈ starts file 0, MAX_READ_BYTES ≤ start - 0 := by simpa using h
  obtain ⟨hadded, hlt⟩ := readLines_of_long hlong
  have hagain := added_mem_readLines hlt
  have hnodup := htwice 2
  simp only [List.replicate, run, follow, opened, List.nil_append, List.map_append] at hnodup
  exact (List.nodup_append.mp hnodup).2.2 _ (List.mem_map_of_mem hadded) _
    (List.mem_map_of_mem hagain) rfl

/-- **The exact condition**: no line starts 512 KB or more into the file. -/
theorem noLineTwice_iff (file : List Byte) :
    NoLineTwice file ↔ ∀ start ∈ starts file 0, start < MAX_READ_BYTES := by
  constructor
  · intro h start hstart
    by_contra hlimit
    exact not_noLineTwice ⟨start, hstart, Nat.not_lt.mp hlimit⟩ h
  · intro h n
    cases n with
    | zero => exact List.nodup_nil
    | succ n =>
      have hshort : ∀ start ∈ starts file 0, start - 0 < MAX_READ_BYTES := by simpa using h
      have hread := readLines_of_short hshort
      have hquery : follow .query (opened file) =
          ⟨file, file.length, (starts file 0).map (added file)⟩ := by
        simp only [follow, opened, hread, List.nil_append]
      rw [List.replicate_succ, run, hquery, run_query_at_end, map_start_added]
      exact nodup_starts

/-- A first line of 512 KB with its line feed, and a second one. -/
def twoLines : List Byte := List.replicate (MAX_READ_BYTES - 1) 0x61 ++ LF :: [0x62]

theorem not_noLineTwice_twoLines : ¬ NoLineTwice twoLines := by
  have hnext : nextLine twoLines 0 = MAX_READ_BYTES := by
    unfold twoLines
    rw [nextLine_append (by simp [LF]) (by simp [CR]), List.length_replicate]
    exact Nat.sub_add_cancel (by decide)
  have hlength : twoLines.length = MAX_READ_BYTES + 1 := by
    unfold twoLines
    rw [List.length_append, List.length_replicate]
    simp [MAX_READ_BYTES]
  refine not_noLineTwice ⟨MAX_READ_BYTES, ?_, Nat.le_refl _⟩
  rw [starts_of_lt (by omega), hnext, starts_of_lt (by omega)]
  exact List.mem_cons_of_mem _ List.mem_cons_self

end Twice

end LogServiceImpl

end Terminator.Manager
