import Mathlib.Data.List.Basic
import Terminator.Java.Text

/-!
# The lines of a file

`RandomAccessFile.readLine()` on a file of bytes: a line ends behind a line feed, a carriage
return, or both in this order, and the last one at the end of the file. A line is known by the
offset it starts at.

* `readLine`: the line at the front of some bytes; its string has them all (`latin1_chars`);
* `nextLine`: where the pointer stands after a line was read; **`lt_nextLine`**: further on, and
  still in the file;
* `starts`: the offsets of the lines from a line on, in order (`pairwise_starts`);
* `lines`: the lines themselves (`map_lineAt_starts`);
* `EndsLine a b`: some bytes, cut behind `a`, are not cut inside a line. Then **`lines_append`**
  has the lines of both parts; otherwise one line is cut in two (`length_lines_append`).
-/

namespace Terminator.Java.Lines

/-- `\n` and `\r`. -/
def LF : Byte := 0x0A

def CR : Byte := 0x0D

theorem CR_ne_LF : CR ≠ LF := by decide

/-- Behind a carriage return: a line feed that follows belongs to it. -/
def behindCR : List Byte → List Byte
  | [] => []
  | c :: rest => if c = LF then rest else c :: rest

/-- What `readLine()` reads: the bytes of the line, and what stands behind its end. -/
def readLine : List Byte → List Byte × List Byte
  | [] => ([], [])
  | b :: rest =>
    if b = LF then ([], rest)
    else if b = CR then ([], behindCR rest)
    else (b :: (readLine rest).1, (readLine rest).2)

/-- The string `readLine()` returns: every byte is a code unit. -/
def chars (bytes : List Byte) : JString := bytes.map fun b => UInt16.ofNat b.toNat

/-- `getBytes("8859_1")`: a unit that is no byte becomes `?`. -/
def latin1 (s : JString) : List Byte :=
  s.map fun c => if c.toNat < 0x100 then UInt8.ofNat c.toNat else 0x3F

/-- No byte of a line is lost on the way through its string. -/
@[simp] theorem latin1_chars (bytes : List Byte) : latin1 (chars bytes) = bytes := by
  unfold latin1 chars
  rw [List.map_map]
  refine (List.map_congr_left fun b _ => ?_).trans (List.map_id bytes)
  have hb : b.toNat < 256 := b.toNat_lt
  simp [hb]

/-- The line at `point`. -/
def lineAt (file : List Byte) (point : Nat) : List Byte := (readLine (file.drop point)).1

/-- The pointer behind the line at `point`. -/
def nextLine (file : List Byte) (point : Nat) : Nat :=
  file.length - (readLine (file.drop point)).2.length

theorem length_behindCR (rest : List Byte) : (behindCR rest).length ≤ rest.length := by
  cases rest with
  | nil => exact Nat.le_refl _
  | cons c rest =>
    rw [behindCR]
    split_ifs <;> simp

theorem length_readLine (b : Byte) (rest : List Byte) :
    (readLine (b :: rest)).2.length ≤ rest.length := by
  induction rest generalizing b with
  | nil =>
    rw [readLine]
    split_ifs <;> simp [readLine, behindCR]
  | cons c rest ih =>
    rw [readLine]
    split_ifs with hLF hCR
    · exact Nat.le_refl _
    · exact length_behindCR (c :: rest)
    · exact Nat.le_trans (ih c) (Nat.le_succ _)

/-- A line up to its line feed. -/
theorem readLine_append {line : List Byte} (hLF : LF ∉ line) (hCR : CR ∉ line)
    (rest : List Byte) : readLine (line ++ LF :: rest) = (line, rest) := by
  induction line with
  | nil => rw [List.nil_append, readLine, if_pos rfl]
  | cons b line ih =>
    rw [List.mem_cons, not_or] at hLF hCR
    rw [List.cons_append, readLine, if_neg (Ne.symm hLF.1), if_neg (Ne.symm hCR.1),
      ih hLF.2 hCR.2]

/-- The second line starts behind the line feed of the first one. -/
theorem nextLine_append {line : List Byte} (hLF : LF ∉ line) (hCR : CR ∉ line)
    (rest : List Byte) : nextLine (line ++ LF :: rest) 0 = line.length + 1 := by
  unfold nextLine
  rw [List.drop_zero, readLine_append hLF hCR, List.length_append, List.length_cons]
  exact Nat.sub_eq_of_eq_add (by dsimp only; omega)

section File

variable {file : List Byte} {point : Nat}

/-- **Every line takes the pointer on**, and not past the end. -/
theorem lt_nextLine (h : point < file.length) :
    point < nextLine file point ∧ nextLine file point ≤ file.length := by
  have hdrop : file.drop point = file[point] :: file.drop (point + 1) :=
    List.drop_eq_getElem_cons h
  have hrest := length_readLine file[point] (file.drop (point + 1))
  rw [← hdrop, List.length_drop] at hrest
  unfold nextLine
  omega

/-- The offsets of the line at `point` and of those behind it. -/
def starts (file : List Byte) (point : Nat) : List Nat :=
  if point < file.length then point :: starts file (nextLine file point) else []
termination_by file.length - point
decreasing_by
  have := lt_nextLine ‹point < file.length›
  omega

theorem starts_of_lt (h : point < file.length) :
    starts file point = point :: starts file (nextLine file point) := by
  rw [starts, if_pos h]

theorem starts_of_le (h : file.length ≤ point) : starts file point = [] := by
  rw [starts, if_neg (Nat.not_lt.mpr h)]

theorem le_of_mem_starts {start : Nat} (h : start ∈ starts file point) :
    point ≤ start ∧ start < file.length := by
  induction point using starts.induct file with
  | case1 point hpoint ih =>
    rw [starts_of_lt hpoint, List.mem_cons] at h
    rcases h with rfl | h
    · exact ⟨Nat.le_refl _, hpoint⟩
    · have := lt_nextLine hpoint
      have := ih h
      omega
  | case2 point hpoint =>
    rw [starts_of_le (Nat.not_lt.mp hpoint)] at h
    simp at h

theorem pairwise_starts : (starts file point).Pairwise (· < ·) := by
  induction point using starts.induct file with
  | case1 point hpoint ih =>
    rw [starts_of_lt hpoint, List.pairwise_cons]
    refine ⟨fun start hstart => ?_, ih⟩
    exact Nat.lt_of_lt_of_le (lt_nextLine hpoint).1 (le_of_mem_starts hstart).1
  | case2 point hpoint =>
    rw [starts_of_le (Nat.not_lt.mp hpoint)]
    exact List.Pairwise.nil

/-- No line starts where another one does. -/
theorem nodup_starts : (starts file point).Nodup := pairwise_starts.imp Nat.ne_of_lt

end File

/-! ## The lines of a part -/

/-- The lines of some bytes, in order. -/
def lines (bytes : List Byte) : List (List Byte) :=
  match bytes with
  | [] => []
  | b :: rest => (readLine (b :: rest)).1 :: lines (readLine (b :: rest)).2
termination_by bytes.length
decreasing_by
  have := length_readLine b rest
  rw [List.length_cons]
  omega

@[simp] theorem lines_nil : lines [] = [] := by rw [lines]

theorem lines_of_ne_nil {bytes : List Byte} (h : bytes ≠ []) :
    lines bytes = (readLine bytes).1 :: lines (readLine bytes).2 := by
  obtain ⟨b, rest, rfl⟩ := List.exists_cons_of_ne_nil h
  rw [lines]

theorem behindCR_suffix (rest : List Byte) : behindCR rest <:+ rest := by
  cases rest with
  | nil => exact List.suffix_rfl
  | cons c rest =>
    rw [behindCR]
    split_ifs
    · exact List.suffix_cons c rest
    · exact List.suffix_rfl

/-- What stands behind a line is the end of what it is read from. -/
theorem readLine_suffix (bytes : List Byte) : (readLine bytes).2 <:+ bytes := by
  induction bytes with
  | nil => exact List.suffix_rfl
  | cons b rest ih =>
    rw [readLine]
    split_ifs
    · exact List.suffix_cons b rest
    · exact (behindCR_suffix rest).trans (List.suffix_cons b rest)
    · exact ih.trans (List.suffix_cons b rest)

/-- The pointer behind a line stands where the rest starts. -/
theorem drop_nextLine (file : List Byte) (point : Nat) :
    file.drop (nextLine file point) = (readLine (file.drop point)).2 := by
  obtain ⟨before, hbefore⟩ :=
    (readLine_suffix (file.drop point)).trans (List.drop_suffix point file)
  have hlength : file.length = before.length + (readLine (file.drop point)).2.length := by
    rw [← List.length_append, hbefore]
  have hnext : nextLine file point = before.length := by
    unfold nextLine
    omega
  conv_lhs => rw [hnext, ← hbefore, List.drop_left]

/-- The lines by their offsets. -/
theorem map_lineAt_starts (file : List Byte) (point : Nat) :
    (starts file point).map (lineAt file) = lines (file.drop point) := by
  induction point using starts.induct file with
  | case1 point hpoint ih =>
    have hne : file.drop point ≠ [] := by simpa using hpoint
    rw [starts_of_lt hpoint, lines_of_ne_nil hne, List.map_cons, ih, drop_nextLine, lineAt]
  | case2 point hpoint =>
    have hle := Nat.not_lt.mp hpoint
    rw [starts_of_le hle, List.drop_of_length_le hle, lines_nil, List.map_nil]

/-! ## Bytes that are cut -/

/-- The cut between `a` and `b` falls into no line: there is nothing on one of its sides, or a line
has ended in front of it. -/
def EndsLine (a b : List Byte) : Prop :=
  a = [] ∨ b = [] ∨ a.getLast? = some LF ∨ (a.getLast? = some CR ∧ b.head? ≠ some LF)

instance (a b : List Byte) : Decidable (EndsLine a b) :=
  inferInstanceAs (Decidable (_ ∨ _ ∨ _ ∨ _))

section Cut

variable {a b : List Byte}

@[simp] theorem endsLine_nil_left (b : List Byte) : EndsLine [] b := Or.inl rfl

@[simp] theorem endsLine_nil_right (a : List Byte) : EndsLine a [] := Or.inr (Or.inl rfl)

/-- Only the last byte in front of the cut counts. -/
theorem endsLine_cons_iff (c : Byte) (ha : a ≠ []) : EndsLine (c :: a) b ↔ EndsLine a b := by
  obtain ⟨d, a, rfl⟩ := List.exists_cons_of_ne_nil ha
  simp [EndsLine, List.getLast?_cons_cons]

theorem endsLine_append_iff (front : List Byte) (ha : a ≠ []) :
    EndsLine (front ++ a) b ↔ EndsLine a b := by
  induction front with
  | nil => exact Iff.rfl
  | cons c front ih => exact (endsLine_cons_iff c (by simp [ha])).trans ih

/-- Only the first byte behind it counts. -/
theorem EndsLine.of_append {rest : List Byte} (h : EndsLine a (b ++ rest)) : EndsLine a b := by
  cases b with
  | nil => exact endsLine_nil_right a
  | cons c b => simpa [EndsLine] using h

/-- A line that ends in front of the cut does not see what follows, unless it is the last. -/
theorem readLine_append_of_ne_nil (h : (readLine a).2 ≠ []) :
    readLine (a ++ b) = ((readLine a).1, (readLine a).2 ++ b) := by
  induction a with
  | nil => exact absurd rfl h
  | cons c a ih =>
    rw [readLine] at h
    rw [List.cons_append, readLine, readLine]
    split_ifs at h ⊢
    · rfl
    · cases a with
      | nil => exact absurd rfl h
      | cons d a =>
        rw [List.cons_append, behindCR, behindCR]
        split_ifs <;> rfl
    · rw [ih h]

/-- The last line in front of the cut, where it has ended. -/
theorem readLine_append_of_endsLine (ha : a ≠ []) (hlast : (readLine a).2 = [])
    (h : EndsLine a b) : readLine (a ++ b) = ((readLine a).1, b) := by
  induction a with
  | nil => exact absurd rfl ha
  | cons c a ih =>
    rw [readLine] at hlast
    rw [List.cons_append, readLine, readLine]
    split_ifs at hlast ⊢ with hLF hCR
    · rw [show a = [] from hlast, List.nil_append]
    · cases a with
      | nil =>
        cases b with
        | nil => rfl
        | cons d b =>
          have hd : d ≠ LF := by simpa [EndsLine, hCR, CR_ne_LF] using h
          simp [behindCR, hd]
      | cons d a =>
        rw [behindCR] at hlast
        split_ifs at hlast with hd
        rw [List.cons_append, behindCR, if_pos hd, show a = [] from hlast, List.nil_append]
    · cases a with
      | nil =>
        have hb : b = [] := by simpa [EndsLine, hLF, hCR] using h
        rw [hb, List.append_nil]
        rfl
      | cons d a =>
        rw [ih (by simp) hlast ((endsLine_cons_iff c (by simp)).mp h)]

/-- The last line in front of the cut, where it has not: it goes on behind the cut. -/
theorem readLine_append_of_not_endsLine (hlast : (readLine a).2 = []) (h : ¬ EndsLine a b) :
    (readLine (a ++ b)).2 = (readLine b).2 := by
  induction a with
  | nil => exact absurd (endsLine_nil_left b) h
  | cons c a ih =>
    rw [readLine] at hlast
    rw [List.cons_append, readLine]
    split_ifs at hlast ⊢ with hLF hCR
    · rw [show a = [] from hlast] at h
      exact absurd (by simp [EndsLine, hLF]) h
    · cases a with
      | nil =>
        cases b with
        | nil => exact absurd (endsLine_nil_right _) h
        | cons d b =>
          have hd : d = LF := by simpa [EndsLine, hCR, CR_ne_LF] using h
          simp [behindCR, readLine, hd]
      | cons d a =>
        rw [behindCR] at hlast
        split_ifs at hlast with hd
        rw [show a = [] from hlast] at h
        exact absurd (by simp [EndsLine, hd]) h
    · cases a with
      | nil => rfl
      | cons d a => exact ih hlast (fun hends => h ((endsLine_cons_iff c (by simp)).mpr hends))

/-- The lines behind the first one are cut where all of them are. -/
theorem endsLine_readLine_iff (h : (readLine a).2 ≠ []) :
    EndsLine a b ↔ EndsLine (readLine a).2 b := by
  obtain ⟨front, hfront⟩ := readLine_suffix a
  conv_lhs => rw [← hfront]
  exact endsLine_append_iff front h

/-- **A cut between two lines** keeps them all. -/
theorem lines_append (h : EndsLine a b) : lines (a ++ b) = lines a ++ lines b := by
  induction a using lines.induct with
  | case1 => simp
  | case2 c a ih =>
    rw [lines_of_ne_nil (by simp), lines_of_ne_nil (List.cons_ne_nil c a)]
    by_cases hlast : (readLine (c :: a)).2 = []
    · rw [readLine_append_of_endsLine (by simp) hlast h, hlast]
      simp
    · rw [readLine_append_of_ne_nil hlast, ih ((endsLine_readLine_iff hlast).mp h)]
      simp

/-- **A cut inside a line** makes two of it. -/
theorem length_lines_append (h : ¬ EndsLine a b) :
    (lines a).length + (lines b).length = (lines (a ++ b)).length + 1 := by
  induction a using lines.induct with
  | case1 => exact absurd (endsLine_nil_left b) h
  | case2 c a ih =>
    have hb : b ≠ [] := by
      rintro rfl
      exact h (endsLine_nil_right _)
    have hab : c :: a ++ b ≠ [] := by simp
    rw [lines_of_ne_nil (List.cons_ne_nil c a), lines_of_ne_nil hab]
    by_cases hlast : (readLine (c :: a)).2 = []
    · rw [readLine_append_of_not_endsLine hlast h, hlast, lines_of_ne_nil hb]
      simp only [List.length_cons, lines_nil, List.length_nil]
      omega
    · have hrest := ih (fun hends => h ((endsLine_readLine_iff hlast).mpr hends))
      rw [readLine_append_of_ne_nil hlast]
      simp only [List.length_cons]
      omega

/-- However some bytes are cut, there are no fewer lines. -/
theorem length_lines_append_le (a b : List Byte) :
    (lines (a ++ b)).length ≤ (lines a).length + (lines b).length := by
  by_cases h : EndsLine a b
  · exact Nat.le_of_eq (by rw [lines_append h, List.length_append])
  · have := length_lines_append h
    omega

end Cut

end Terminator.Java.Lines
