import Terminator.Manager.LogService

/-!
# Following a log

What the page shows of a log it polls to the end (`LogServiceImpl.readLog`, `queryLog` of
`log.jsp`): of one that stays as it is, and of one that grows between the polls.

* **`lt_readLines`**, **`paging_complete`**: every call in the file moves the offset on, so polling
  from 0 comes to the end, and shows every line on the way, however long they are;
* `Polled file es`: each poll found a log that was not cut inside a line;
* **`followed_iff`**: while the log stays below the page limit, a page that polls it is shown the
  lines of the whole log iff each poll but the last was so.

A call returns the length of the file as the next offset, also when the program is still in the
middle of a line: the next call starts there, and shows the rest as a line of its own.
-/

namespace Terminator.Manager.LogServiceImpl

open Terminator.Java Terminator.Java.Lines Terminator.Run

/-- The texts of the lines of a whole log. -/
def texts (file : List Byte) : List JString := (starts file 0).map (utf8Line file)

/-- `n` calls of `readLog`, each at the offset that the last one returned: the offset of the next
one, and what they returned. -/
def poll (getLogFileLocation : Nat → JString) (linkId : Nat) :
    Nat → Nat → Method LogFiles (Nat × List JString)
  | 0, offset => return (offset, [])
  | n + 1, offset => do
    let log ← readLog getLogFileLocation linkId offset
    let rest ← poll getLogFileLocation linkId n log.offset
    return (rest.1, log.content ++ rest.2)

/-! ## Progress -/

section Progress

variable {file : List Byte} {offset point : Nat}

theorem readLines_bounds (h : point ≤ file.length) :
    point ≤ (readLines file offset point).2 ∧ (readLines file offset point).2 ≤ file.length := by
  induction point using starts.induct file with
  | case1 point hpoint ih =>
    by_cases hlimit : MAX_READ_BYTES ≤ point - offset
    · rw [readLines_of_limit hpoint hlimit]
      exact ⟨Nat.le_refl _, h⟩
    · have hnext := lt_nextLine hpoint
      have hrest := ih hnext.2
      rw [readLines_of_lt hpoint (Nat.not_le.mp hlimit)]
      exact ⟨Nat.le_trans (Nat.le_of_lt hnext.1) hrest.1, hrest.2⟩
  | case2 point hpoint =>
    rw [readLines_of_le (Nat.not_lt.mp hpoint)]
    exact ⟨h, Nat.le_refl _⟩

/-- **A call in the file moves the offset on**, and not past the end. -/
theorem lt_readLines (h : offset < file.length) :
    offset < (readLines file offset offset).2 ∧
      (readLines file offset offset).2 ≤ file.length := by
  have hnext := lt_nextLine h
  have hrest : nextLine file offset ≤ (readLines file offset (nextLine file offset)).2 ∧
      (readLines file offset (nextLine file offset)).2 ≤ file.length := readLines_bounds hnext.2
  rw [readLines_of_lt h (first_lt_limit offset)]
  exact ⟨Nat.lt_of_lt_of_le hnext.1 hrest.1, hrest.2⟩

/-- The lines in front of the offset a call returns are all among those it adds; the next call
starts with the line behind them. -/
theorem starts_eq_append_readLines (file : List Byte) (offset point : Nat) :
    ∃ before, starts file point = before ++ starts file (readLines file offset point).2 ∧
      (before.map (added file)).Sublist (readLines file offset point).1 := by
  induction point using starts.induct file with
  | case1 point hpoint ih =>
    by_cases hlimit : MAX_READ_BYTES ≤ point - offset
    · rw [readLines_of_limit hpoint hlimit]
      exact ⟨[], rfl, List.nil_sublist _⟩
    · obtain ⟨before, hstarts, hadded⟩ := ih
      rw [readLines_of_lt hpoint (Nat.not_le.mp hlimit), starts_of_lt hpoint]
      exact ⟨point :: before, by rw [hstarts, List.cons_append], hadded.cons_cons _⟩
  | case2 point hpoint =>
    have hle := Nat.not_lt.mp hpoint
    rw [readLines_of_le hle, starts_of_le hle, starts_of_le (Nat.le_refl _)]
    exact ⟨[], rfl, List.nil_sublist _⟩

/-- A page that polls `file`: the lines in front of its offset are all shown, in their order. -/
structure Reading (file : List Byte) (v : Following) : Prop where
  file_eq : v.file = file
  offset_le : v.offset ≤ file.length
  shown : ∃ before, starts file 0 = before ++ starts file v.offset ∧
    (before.map (added file)).Sublist v.shown

theorem reading_opened (file : List Byte) : Reading file (opened file) :=
  ⟨rfl, Nat.zero_le _, [], rfl, List.nil_sublist _⟩

theorem Reading.query {v : Following} (h : Reading file v) : Reading file (follow .query v) := by
  obtain ⟨rfl, hoffset, before, hbefore, hshown⟩ := h
  obtain ⟨next, hnext, hadded⟩ := starts_eq_append_readLines v.file v.offset v.offset
  refine ⟨rfl, (readLines_bounds hoffset).2, before ++ next, ?_, ?_⟩
  · rw [hbefore, hnext, List.append_assoc]
    rfl
  · rw [List.map_append]
    exact hshown.append hadded

/-- Each of the calls takes the page at least a byte on, until it is at the end. -/
theorem reading_run (file : List Byte) (n : Nat) :
    Reading file (run follow (List.replicate n .query) (opened file)) ∧
      min n file.length ≤ (run follow (List.replicate n .query) (opened file)).offset := by
  induction n with
  | zero => exact ⟨reading_opened file, by simp⟩
  | succ n ih =>
    obtain ⟨hreading, hoffset⟩ := ih
    rw [List.replicate_succ', run_append]
    refine ⟨hreading.query, ?_⟩
    generalize run follow (List.replicate n .query) (opened file) = v at hreading hoffset
    obtain ⟨rfl, hle, -⟩ := hreading
    change min (n + 1) v.file.length ≤ (readLines v.file v.offset v.offset).2
    rcases Nat.lt_or_ge v.offset v.file.length with hlt | hge
    · have := lt_readLines hlt
      omega
    · rw [readLines_of_le hge]
      exact Nat.min_le_right _ _

/-- **The page** shows what its calls return. -/
theorem poll_run (getLogFileLocation : Nat → JString) (linkId n : Nat) :
    ∀ {files : LogFiles} {v : Following}, v.file = (files linkId).getD [] →
      ∃ lines files', (run follow (List.replicate n .query) v).shown = v.shown ++ lines ∧
        (poll getLogFileLocation linkId n v.offset).run files =
          .ok ((run follow (List.replicate n .query) v).offset, lines.map Line.text) files' := by
  induction n with
  | zero => exact fun {files v} _ => ⟨[], files, (List.append_nil _).symm, rfl⟩
  | succ n ih =>
    intro files v hfile
    obtain ⟨lines, hshown, hread⟩ := readLog_run getLogFileLocation hfile
    have hsame : (follow .query v).file = (createFile linkId files linkId).getD [] := by
      simp [follow, createFile, hfile]
    obtain ⟨rest, files', hrest, hpoll⟩ := ih hsame
    rw [hshown, List.append_assoc] at hrest
    refine ⟨lines ++ rest, files', hrest, ?_⟩
    rw [poll, run_bind_of_ok hread, run_bind_of_ok hpoll, List.map_append]
    rfl

/-- **Polling a log that does not change**: each call in the file moves the offset on, so that a
page comes to the end, and then every line has been shown, in the order of the file. -/
theorem paging_complete (getLogFileLocation : Nat → JString) (linkId : Nat) (files : LogFiles) :
    let file := (files linkId).getD []
    (∀ offset < file.length, ∃ log,
      (readLog getLogFileLocation linkId offset).run files = .ok log (createFile linkId files) ∧
        offset < log.offset ∧ log.offset ≤ file.length) ∧
    ∃ n ≤ file.length, (run follow (List.replicate n .query) (opened file)).offset = file.length ∧
      ((starts file 0).map (added file)).Sublist
        (run follow (List.replicate n .query) (opened file)).shown ∧
      ∃ content files', (poll getLogFileLocation linkId n 0).run files =
          .ok (file.length, content) files' ∧
        (texts file).Sublist content := by
  intro file
  constructor
  · intro offset hoffset
    have hfile : (⟨file, offset, []⟩ : Following).file = (files linkId).getD [] := rfl
    obtain ⟨lines, -, hrun⟩ := readLog_run getLogFileLocation hfile
    exact ⟨_, hrun, lt_readLines hoffset⟩
  · obtain ⟨⟨-, hle, before, hbefore, hshown⟩, hge⟩ := reading_run file file.length
    rw [Nat.min_self] at hge
    have hend := Nat.le_antisymm hle hge
    rw [hend, starts_of_le (Nat.le_refl _), List.append_nil] at hbefore
    obtain ⟨lines, files', hlines, hpoll⟩ :=
      poll_run getLogFileLocation linkId file.length (v := opened file) rfl
    rw [hend] at hpoll
    obtain rfl : _ = lines := hlines
    refine ⟨file.length, Nat.le_refl _, hend, hbefore ▸ hshown, _, files', hpoll, ?_⟩
    -- the page keeps the places of the lines, the calls return their texts
    have htexts := hshown.map Line.text
    rw [← hbefore, List.map_map] at htexts
    exact htexts

end Progress

/-! ## A log that grows -/

/-- Each poll finds a log that `file`, what it grows to, does not continue inside a line. -/
def Polled (file : List Byte) (es : List Event) (v : Following) : Prop :=
  Meets follow
    (fun e v => e = .query → EndsLine v.file (file.drop v.file.length)) es v

section Growing

variable {file : List Byte} {v : Following}

theorem utf8Line_eq (file : List Byte) (point : Nat) :
    utf8Line file point = Utf8.decode (lineAt file point) := by
  rw [utf8Line, latin1_chars]

/-- The bytes of a line pass `8859_1` whole: its text is that of its bytes. -/
theorem map_utf8Line_starts (file : List Byte) (point : Nat) :
    (starts file point).map (utf8Line file) = (lines (file.drop point)).map Utf8.decode := by
  rw [← map_lineAt_starts, List.map_map]
  exact List.map_congr_left fun start _ => utf8Line_eq file start

theorem texts_eq (file : List Byte) : texts file = (lines file).map Utf8.decode :=
  map_utf8Line_starts file 0

/-- A log below the page limit is read to its end: the call adds the lines of what is new. -/
theorem follow_query_of_short (h : v.file.length < MAX_READ_BYTES) :
    (follow .query v).offset = v.file.length ∧
      (follow .query v).shown.map Line.text =
        v.shown.map Line.text ++ (lines (v.file.drop v.offset)).map Utf8.decode := by
  have hshort : ∀ start ∈ starts v.file v.offset, start - v.offset < MAX_READ_BYTES := by
    intro start hstart
    have := le_of_mem_starts hstart
    omega
  have hread := readLines_of_short hshort
  have htexts : ((starts v.file v.offset).map (added v.file)).map Line.text =
      (lines (v.file.drop v.offset)).map Utf8.decode := by
    rw [← map_utf8Line_starts, List.map_map]
    rfl
  simp only [follow, hread, List.map_append, htexts, and_self]

theorem file_follow (e : Event) (v : Following) : v.file <+: (follow e v).file := by
  cases e with
  | append bytes => exact List.prefix_append _ _
  | query => exact List.prefix_rfl

/-- The log only grows. -/
theorem file_run (es : List Event) (v : Following) : v.file <+: (run follow es v).file := by
  induction es generalizing v with
  | nil => exact List.prefix_rfl
  | cons e es ih => exact (file_follow e v).trans (ih (follow e v))

/-- The page has been shown the lines of `file` up to its offset, where one of them ends. -/
structure Whole (file : List Byte) (v : Following) : Prop where
  grows : v.file <+: file
  offset_le : v.offset ≤ v.file.length
  ends : EndsLine (file.take v.offset) (file.drop v.offset)
  shown : v.shown.map Line.text ++ (lines (file.drop v.offset)).map Utf8.decode = texts file

/-- The page has been shown more lines than stand in front of its offset. -/
structure Torn (file : List Byte) (v : Following) : Prop where
  grows : v.file <+: file
  offset_le : v.offset ≤ v.file.length
  more : (lines file).length < v.shown.length + (lines (file.drop v.offset)).length

theorem whole_opened (h : v.file <+: file) (hoffset : v.offset = 0) (hshown : v.shown = []) :
    Whole file v where
  grows := h
  offset_le := by omega
  ends := by simp [hoffset]
  shown := by simp [hoffset, hshown, texts_eq]

/-- What a poll has not read yet is what it finds new, and what is appended later. -/
theorem drop_offset (h : v.file <+: file) (hoffset : v.offset ≤ v.file.length) :
    file.drop v.offset = v.file.drop v.offset ++ file.drop v.file.length := by
  obtain ⟨later, rfl⟩ := h
  rw [List.drop_append_of_le_length hoffset, List.drop_left]

theorem take_length_file (h : v.file <+: file) : file.take v.file.length = v.file := by
  obtain ⟨later, rfl⟩ := h
  exact List.take_left

/-- The part a poll finds new is cut inside a line where the log it finds is. -/
theorem endsLine_drop_iff (hnew : v.file.drop v.offset ≠ []) (later : List Byte) :
    EndsLine (v.file.drop v.offset) later ↔ EndsLine v.file later := by
  rw [← endsLine_append_iff (v.file.take v.offset) hnew, List.take_append_drop]

theorem endsLine_drop {later : List Byte} (hends : EndsLine v.file later) :
    EndsLine (v.file.drop v.offset) later := by
  by_cases hnew : v.file.drop v.offset = []
  · rw [hnew]
    exact endsLine_nil_left later
  · exact (endsLine_drop_iff hnew later).mpr hends

theorem Whole.append {bytes : List Byte} (h : Whole file v)
    (hgrows : v.file ++ bytes <+: file) : Whole file (follow (.append bytes) v) where
  grows := hgrows
  offset_le := Nat.le_trans h.offset_le (List.prefix_append _ _).length_le
  ends := h.ends
  shown := h.shown

theorem Torn.append {bytes : List Byte} (h : Torn file v)
    (hgrows : v.file ++ bytes <+: file) : Torn file (follow (.append bytes) v) where
  grows := hgrows
  offset_le := Nat.le_trans h.offset_le (List.prefix_append _ _).length_le
  more := h.more

theorem Whole.query (h : Whole file v) (hshort : file.length < MAX_READ_BYTES)
    (hends : EndsLine v.file (file.drop v.file.length)) : Whole file (follow .query v) := by
  obtain ⟨hgrows, hoffset, -, hshown⟩ := h
  obtain ⟨hoffset', htexts⟩ := follow_query_of_short (Nat.lt_of_le_of_lt hgrows.length_le hshort)
  refine ⟨hgrows, Nat.le_of_eq hoffset', ?_, ?_⟩
  · rw [hoffset', take_length_file hgrows]
    exact hends
  · rw [← hshown, hoffset', htexts, drop_offset hgrows hoffset, lines_append (endsLine_drop hends),
      List.map_append, List.append_assoc]

/-- A poll that finds the log cut inside a line shows the line in two. -/
theorem Whole.query_torn (h : Whole file v) (hshort : file.length < MAX_READ_BYTES)
    (hends : ¬ EndsLine v.file (file.drop v.file.length)) : Torn file (follow .query v) := by
  obtain ⟨hgrows, hoffset, hbefore, hshown⟩ := h
  obtain ⟨hoffset', htexts⟩ := follow_query_of_short (Nat.lt_of_le_of_lt hgrows.length_le hshort)
  have hnew : v.file.drop v.offset ≠ [] := by
    intro hnew
    have hlast : v.offset = v.file.length :=
      Nat.le_antisymm hoffset (List.drop_eq_nil_iff.mp hnew)
    rw [hlast, take_length_file hgrows] at hbefore
    exact hends hbefore
  have hcut : ¬ EndsLine (v.file.drop v.offset) (file.drop v.file.length) :=
    fun hnot => hends ((endsLine_drop_iff hnew _).mp hnot)
  refine ⟨hgrows, Nat.le_of_eq hoffset', ?_⟩
  have hlines := length_lines_append hcut
  have htotal := congrArg List.length hshown
  have hadded := congrArg List.length htexts
  rw [← drop_offset hgrows hoffset] at hlines
  rw [texts_eq] at htotal
  simp only [List.length_append, List.length_map] at htotal hadded
  rw [hoffset', hadded]
  omega

/-- Later polls do not mend it. -/
theorem Torn.query (h : Torn file v) (hshort : file.length < MAX_READ_BYTES) :
    Torn file (follow .query v) := by
  obtain ⟨hgrows, hoffset, hmore⟩ := h
  obtain ⟨hoffset', htexts⟩ := follow_query_of_short (Nat.lt_of_le_of_lt hgrows.length_le hshort)
  refine ⟨hgrows, Nat.le_of_eq hoffset', ?_⟩
  have hlines := length_lines_append_le (v.file.drop v.offset) (file.drop v.file.length)
  have hadded := congrArg List.length htexts
  rw [← drop_offset hgrows hoffset] at hlines
  simp only [List.length_append, List.length_map] at hadded
  rw [hoffset', hadded]
  omega

theorem Torn.run (hshort : file.length < MAX_READ_BYTES) {es : List Event} (h : Torn file v)
    (hgrows : (run follow es v).file <+: file) : Torn file (run follow es v) := by
  induction es generalizing v with
  | nil => exact h
  | cons e es ih =>
    cases e with
    | append bytes => exact ih (h.append ((file_run es _).trans hgrows)) hgrows
    | query => exact ih (h.query hshort) hgrows

/-- **A run**: the page stays whole through polls between two lines, and no longer. -/
theorem Whole.run (hshort : file.length < MAX_READ_BYTES) {es : List Event} (h : Whole file v)
    (hgrows : (run follow es v).file <+: file) :
    (Polled file es v ∧ Whole file (run follow es v)) ∨
      (¬ Polled file es v ∧ Torn file (run follow es v)) := by
  induction es generalizing v with
  | nil => exact Or.inl ⟨trivial, h⟩
  | cons e es ih =>
    cases e with
    | append bytes =>
      have hcond : Polled file (.append bytes :: es) v ↔
          Polled file es (follow (.append bytes) v) :=
        and_iff_right (fun he => nomatch he)
      rw [hcond]
      exact ih (h.append ((file_run es _).trans hgrows)) hgrows
    | query =>
      by_cases hends : EndsLine v.file (file.drop v.file.length)
      · have hcond : Polled file (.query :: es) v ↔ Polled file es (follow .query v) :=
          and_iff_right (fun _ => hends)
        rw [hcond]
        exact ih (h.query hshort hends) hgrows
      · refine Or.inr ⟨fun hpolled => hends (hpolled.1 rfl), ?_⟩
        exact (h.query_torn hshort hends).run hshort hgrows

/-- The last poll shows the rest of the log. -/
theorem Whole.shown_last (h : Whole file v) (hfile : v.file = file)
    (hshort : file.length < MAX_READ_BYTES) :
    (follow .query v).shown.map Line.text = texts file := by
  subst hfile
  rw [(follow_query_of_short hshort).2]
  exact h.shown

theorem Torn.shown_last (h : Torn file v) (hfile : v.file = file)
    (hshort : file.length < MAX_READ_BYTES) :
    (follow .query v).shown.map Line.text ≠ texts file := by
  subst hfile
  intro htexts
  have hmore := h.more
  rw [(follow_query_of_short hshort).2, texts_eq] at htexts
  have hlength := congrArg List.length htexts
  simp only [List.length_append, List.length_map] at hlength
  omega

/-- **The exact condition**: the page is shown the lines of the whole log iff no poll but the last
finds it in the middle of a line. -/
theorem followed_iff (file : List Byte) (es : List Event)
    (hshort : (run follow es (opened file)).file.length < MAX_READ_BYTES) :
    (run follow (es ++ [.query]) (opened file)).shown.map Line.text =
        texts (run follow es (opened file)).file ↔
      Polled (run follow es (opened file)).file es (opened file) := by
  have hopened : Whole (run follow es (opened file)).file (opened file) :=
    whole_opened (file_run es (opened file)) rfl rfl
  rw [run_append]
  rcases hopened.run hshort List.prefix_rfl with ⟨hpolled, hwhole⟩ | ⟨hpolled, htorn⟩
  · exact iff_of_true (hwhole.shown_last rfl hshort) hpolled
  · exact iff_of_false (htorn.shown_last rfl hshort) hpolled

/-- A log that grows behind a poll. -/
def twoParts : List Event := [.query, .append [0x63, LF]]

/-- The poll finds a line that has ended. -/
theorem followed_between_lines :
    (run follow (twoParts ++ [.query]) (opened [0x61, LF])).shown.map Line.text =
      texts [0x61, LF, 0x63, LF] :=
  (followed_iff [0x61, LF] twoParts (by simp [twoParts, run, follow, opened, MAX_READ_BYTES])).mpr
    ⟨fun _ => by decide, fun he => (nomatch he), trivial⟩

/-- The poll finds the line before it has ended. -/
theorem not_followed_in_line :
    ¬ ∀ (file : List Byte) (es : List Event),
      (run follow es (opened file)).file.length < MAX_READ_BYTES →
        (run follow (es ++ [.query]) (opened file)).shown.map Line.text =
          texts (run follow es (opened file)).file := by
  intro h
  have hshort : ([0x61, 0x62, 0x63, LF] : List Byte).length < MAX_READ_BYTES := by
    simp [MAX_READ_BYTES]
  have hopened : Whole [0x61, 0x62, 0x63, LF] (opened [0x61, 0x62]) :=
    whole_opened (by decide) rfl rfl
  have hcut : ¬ EndsLine [0x61, 0x62] [0x63, LF] := by decide
  have htorn : Torn [0x61, 0x62, 0x63, LF] (run follow twoParts (opened [0x61, 0x62])) :=
    (hopened.query_torn hshort hcut).append (by decide)
  exact htorn.shown_last rfl hshort (h [0x61, 0x62] twoParts hshort)

end Growing

end Terminator.Manager.LogServiceImpl
