import Mathlib.Data.List.Find
import Mathlib.Data.List.MinMax
import Terminator.Storage.Storage

/-!
# `FileStorage`

`FileStorage.java` and the statements of `DataIndexMapper.xml`: a bundle is appended to the data
file of the link, and a row of the table `data_index`, which all links share, keeps the offset it
was written at. Java serialization and the comparison of the data base are parameters:

* `ObjectStreams`: an object read at the offset it was written at is that object, whatever bytes
  follow it; a buffer keeps its bytes and its two indices;
* `Collation`: `signature = #{signature}` tells signatures apart.

`Indexed env f hist`: one row of the link a put, in the order of the puts, each at the bundle it is
of. It says nothing of the keys; what a get finds is then `lookupAs`, the last put whose key the
data base takes for the one asked for.

**`FileStorage.refines`**: with every write and every statement succeeding the file and the table
are the last-write-wins map.
-/

namespace Terminator.Storage

open Terminator.Java Terminator.Netty Terminator.Plugin

/-- `ObjectOutputStream.writeObject` and `ObjectInputStream.readObject` on a bundle. -/
structure ObjectStreams where
  writeObject : RequestResponseBundle ChannelBuffer → List Byte
  readObject : List Byte → Option (RequestResponseBundle ChannelBuffer)
  read_write : ∀ b rest, readObject (writeObject b ++ rest) = some b

/-- How the data base compares two texts. -/
structure Collation where
  equal : JString → JString → Bool
  equal_iff : ∀ s t, IsSignature s → IsSignature t → (equal s t = true ↔ s = t)

/-- `DataIndex`, a row of `data_index`. -/
structure DataIndex where
  id : Nat
  linkId : Nat
  offset : Nat
  signature : JString

/-- `FileStorage`: the data file, if it exists, the table, and the next value of its key. -/
structure FileStorage where
  dataFile : Option (List Byte)
  data_index : List DataIndex
  autoIncrement : Nat

/-- What becomes of the bytes of a write: an `IOException` may cut it short. -/
inductive WriteOutcome where
  | complete
  | cut (n : Nat)

/-- What a `FileStorage` is built with. -/
structure FileEnv where
  linkId : Nat
  streams : ObjectStreams
  collation : Collation

namespace FileStorage

/-- `dataFile.length()`, 0 for a file that does not exist. -/
def length (f : FileStorage) : Nat := (f.dataFile.getD []).length

/-- What of `bytes` reaches the file. -/
def WriteOutcome.reach : WriteOutcome → List Byte → List Byte
  | .complete, bytes => bytes
  | .cut n, bytes => bytes.take n

/-- `insertDataIndex`. -/
def insertDataIndex (f : FileStorage) (linkId offset : Nat) (signature : JString) : FileStorage :=
  { f with
    data_index := f.data_index ++ [⟨f.autoIncrement, linkId, offset, signature⟩]
    autoIncrement := f.autoIncrement + 1 }

/-- `selectDataIndex`: `where link_id = … and signature = … order by id desc limit 1`. -/
def selectDataIndex (env : FileEnv) (f : FileStorage) (signature : JString) : Option DataIndex :=
  (f.data_index.filter fun row =>
    row.linkId == env.linkId && env.collation.equal row.signature signature).argmax DataIndex.id

/-- `putRecordData`: the row is inserted whether or not the write succeeded. -/
def put (env : FileEnv) (outcome : WriteOutcome) (key : JString)
    (bundles : RequestResponseBundle ChannelBuffer) (f : FileStorage) : FileStorage :=
  let offset := f.length
  let bytes := WriteOutcome.reach outcome (env.streams.writeObject bundles)
  let f := { f with dataFile := some (f.dataFile.getD [] ++ bytes) }
  insertDataIndex f env.linkId offset key

/-- The bundle at an offset of the file: a missing file and what does not deserialize give the
empty one. -/
def readAt (env : FileEnv) (f : FileStorage) (offset : Nat) : RequestResponseBundle ChannelBuffer :=
  match f.dataFile with
  | none => .empty
  | some bytes => (env.streams.readObject (bytes.drop offset)).getD .empty

/-- The bundle `getRecordData` reads, the empty one if there is no row. -/
def read (env : FileEnv) (key : JString) (f : FileStorage) : RequestResponseBundle ChannelBuffer :=
  match selectDataIndex env f key with
  | none => .empty
  | some recordData => readAt env f recordData.offset

/-- `deleteDataIndex`: `delete from data_index where link_id = …`. -/
def deleteDataIndex (env : FileEnv) (f : FileStorage) : FileStorage :=
  { f with data_index := f.data_index.filter fun row => row.linkId != env.linkId }

/-- `dataFile.delete()`, of a file that may not exist. -/
def deleteFile (f : FileStorage) : FileStorage := { f with dataFile := none }

/-- `putRecordData`. -/
def putRecordData (env : FileEnv) (outcome : WriteOutcome) (key : JString)
    (bundles : RequestResponseBundle Ref) : Method (World FileStorage) Unit :=
  modify fun w => { w with hidden := put env outcome key (bundles.deref w.heap) w.hidden }

/-- `getRecordData`: the objects of the bundle are new ones. -/
def getRecordData (env : FileEnv) (key : JString) :
    Method (World FileStorage) (RequestResponseBundle Ref) :=
  modifyGet fun w =>
    let bundles := (read env key w.hidden).alloc w.heap
    (bundles.1, { w with heap := bundles.2 })

/-- `deleteRecordData`: the argument is not looked at. -/
def deleteRecordData (env : FileEnv) (_version : Int) : Method (World FileStorage) Unit :=
  modify fun w => { w with hidden := deleteFile (deleteDataIndex env w.hidden) }

/-- `FileStorage` with every write succeeding, as recording and replaying use it. -/
def recordStorage (env : FileEnv) : RecordStorage FileStorage where
  putRecordData := putRecordData env .complete
  getRecordData := getRecordData env
  put_preserves _ _ _ := ⟨Nat.le_refl _, fun _ _ _ => rfl⟩
  get_preserves key w := by
    obtain ⟨-, hsize, hold⟩ := (read env key w.hidden).alloc_spec w.heap
    exact ⟨hsize, fun r hr _ => hold r hr⟩

/-! ## Refinement -/

/-- The rows of the link. -/
def rows (env : FileEnv) (f : FileStorage) : List DataIndex :=
  f.data_index.filter fun row => row.linkId == env.linkId

/-- The pairs that are stored: the signature of each row, and the bundle at its offset. -/
def stored (env : FileEnv) (f : FileStorage) :
    List (JString × RequestResponseBundle ChannelBuffer) :=
  (rows env f).map fun row => (row.signature, readAt env f row.offset)

/-- A row is the row of a put: its offset is where the file has the bundle. -/
def RowOf (env : FileEnv) (bytes : List Byte) (row : DataIndex)
    (p : JString × RequestResponseBundle ChannelBuffer) : Prop :=
  row.signature = p.1 ∧
    ∃ before rest, bytes = before ++ env.streams.writeObject p.2 ++ rest ∧
      row.offset = before.length

/-- The rows of the link have ids in the order they were inserted in. -/
structure Numbered (env : FileEnv) (f : FileStorage) : Prop where
  ids_sorted : (rows env f).Pairwise fun a b => a.id < b.id
  ids_lt : ∀ row ∈ rows env f, row.id < f.autoIncrement

/-- The file and the table index a history: one row of the link a put, in the order of the puts.
Nothing is said of the keys. -/
structure Indexed (env : FileEnv) (f : FileStorage) (hist : History) : Prop
    extends Numbered env f where
  rows_of : List.Forall₂ (RowOf env (f.dataFile.getD [])) (rows env f) hist
  file_exists : f.dataFile = none → hist = []

/-- The file and the table hold a history: one row of the link a put, in the order of the
puts. -/
structure Holds (env : FileEnv) (f : FileStorage) (hist : History) : Prop where
  rows_of : List.Forall₂ (RowOf env (f.dataFile.getD [])) (rows env f) hist
  file_exists : f.dataFile = none → hist = []
  signatures : ∀ p ∈ hist, IsSignature p.1
  ids_sorted : (rows env f).Pairwise fun a b => a.id < b.id
  ids_lt : ∀ row ∈ rows env f, row.id < f.autoIncrement

variable {env : FileEnv} {f : FileStorage} {hist : History}

theorem Holds.indexed (h : Holds env f hist) : Indexed env f hist :=
  ⟨⟨h.ids_sorted, h.ids_lt⟩, h.rows_of, h.file_exists⟩

theorem Indexed.holds (h : Indexed env f hist) (hsig : ∀ p ∈ hist, IsSignature p.1) :
    Holds env f hist :=
  ⟨h.rows_of, h.file_exists, hsig, h.ids_sorted, h.ids_lt⟩

/-- A link without rows. -/
theorem numbered_nil (h : rows env f = []) : Numbered env f where
  ids_sorted := by rw [h]; exact .nil
  ids_lt := by rw [h]; exact fun _ hr => absurd hr List.not_mem_nil

theorem indexed_nil (h : rows env f = []) : Indexed env f [] where
  toNumbered := numbered_nil h
  rows_of := by rw [h]; exact .nil
  file_exists _ := rfl

/-- A link nothing was recorded for. -/
theorem holds_nil (h : rows env f = []) : Holds env f [] :=
  (indexed_nil h).holds fun _ hp => absurd hp List.not_mem_nil

/-- The bytes a row points at stay where they are when the file grows. -/
theorem RowOf.append {bytes : List Byte} {row : DataIndex}
    {p : JString × RequestResponseBundle ChannelBuffer} (h : RowOf env bytes row p)
    (more : List Byte) : RowOf env (bytes ++ more) row p := by
  obtain ⟨hsig, before, rest, hbytes, hoff⟩ := h
  exact ⟨hsig, before, rest ++ more, by rw [hbytes, List.append_assoc], hoff⟩

/-- **Reading at the offset of a row** gives the bundle that was put. -/
theorem RowOf.read {bytes : List Byte} {row : DataIndex}
    {p : JString × RequestResponseBundle ChannelBuffer} (h : RowOf env bytes row p) :
    env.streams.readObject (bytes.drop row.offset) = some p.2 := by
  obtain ⟨-, before, rest, hbytes, hoff⟩ := h
  rw [hbytes, hoff, List.append_assoc, List.drop_left, env.streams.read_write]

/-- A row of the history is read as its bundle. -/
theorem Indexed.readAt_eq (h : Indexed env f hist) {row : DataIndex}
    {p : JString × RequestResponseBundle ChannelBuffer} (hp : p ∈ hist)
    (hrow : RowOf env (f.dataFile.getD []) row p) : readAt env f row.offset = p.2 := by
  have hne : hist ≠ [] := List.ne_nil_of_mem hp
  obtain ⟨bytes, hfile⟩ := Option.ne_none_iff_exists'.mp (mt h.file_exists hne)
  have hread := hrow.read
  rw [hfile, Option.getD_some] at hread
  unfold readAt
  rw [hfile]
  simp only [hread, Option.getD_some]

/-- **What is stored** is what was put. -/
theorem Indexed.stored_eq (h : Indexed env f hist) : stored env f = hist := by
  unfold stored
  rw [← List.forall₂_eq_eq_eq, List.forall₂_map_left_iff]
  have hmem : ∀ {rs : List DataIndex} {ps : History}, ps ⊆ hist →
      List.Forall₂ (RowOf env (f.dataFile.getD [])) rs ps →
      List.Forall₂ (fun row p => (row.signature, readAt env f row.offset) = p) rs ps := by
    intro rs ps hps hrel
    induction hrel with
    | nil => exact .nil
    | cons hrow _ ih =>
      obtain ⟨hp, hps⟩ := List.cons_subset.mp hps
      exact .cons (Prod.ext hrow.1 (h.readAt_eq hp hrow)) (ih hps)
  exact hmem (List.Subset.refl _) h.rows_of

theorem Holds.stored_eq (h : Holds env f hist) : stored env f = hist := h.indexed.stored_eq

/-- `selectDataIndex` looks at the rows of the link. -/
theorem selectDataIndex_eq (env : FileEnv) (f : FileStorage) (key : JString) :
    selectDataIndex env f key
      = ((rows env f).filter fun row => env.collation.equal row.signature key).argmax
          DataIndex.id := by
  have hrows : (rows env f).filter (fun row => env.collation.equal row.signature key)
      = f.data_index.filter fun row =>
        row.linkId == env.linkId && env.collation.equal row.signature key := by
    rw [rows, List.filter_filter]
    congr 1
    funext row
    exact Bool.and_comm _ _
  rw [hrows]
  rfl

/-- A get looks at the rows of the link and at its file. -/
theorem read_congr {f' : FileStorage} (hrows : rows env f' = rows env f)
    (hfile : f'.dataFile = f.dataFile) (key : JString) : read env key f' = read env key f := by
  unfold read readAt
  rw [selectDataIndex_eq, selectDataIndex_eq, hrows, hfile]

/-- The rows of another link are not touched. -/
theorem rows_insertDataIndex_ne (env : FileEnv) {linkId : Nat} (hne : linkId ≠ env.linkId)
    (f : FileStorage) (offset : Nat) (key : JString) :
    rows env (insertDataIndex f linkId offset key) = rows env f := by
  unfold rows insertDataIndex
  rw [List.filter_append, List.filter_singleton, beq_eq_false_iff_ne.mpr hne, cond_false,
    List.append_nil]

theorem rows_deleteDataIndex_ne (env env' : FileEnv) (hne : env'.linkId ≠ env.linkId)
    (f : FileStorage) : rows env (deleteDataIndex env' f) = rows env f := by
  unfold rows deleteDataIndex
  rw [List.filter_filter]
  congr 1
  funext row
  by_cases h : row.linkId = env.linkId
  · simp [h, hne.symm]
  · simp [h]

/-! ### Puts -/

/-- `insertDataIndex` adds the newest row of its link. -/
theorem rows_insertDataIndex (f : FileStorage) (offset : Nat) (key : JString) :
    rows env (insertDataIndex f env.linkId offset key)
      = rows env f ++ [⟨f.autoIncrement, env.linkId, offset, key⟩] := by
  simp [rows, insertDataIndex, List.filter_append]

/-- The new row has the greatest id. -/
theorem Numbered.insert (h : Numbered env f) (offset : Nat) (key : JString) :
    Numbered env (insertDataIndex f env.linkId offset key) where
  ids_sorted := by
    rw [rows_insertDataIndex]
    refine List.pairwise_append.mpr ⟨h.ids_sorted, List.pairwise_singleton _ _, ?_⟩
    intro row hrow row' hrow'
    rw [List.mem_singleton.mp hrow']
    exact h.ids_lt row hrow
  ids_lt row hrow := by
    rw [rows_insertDataIndex] at hrow
    rcases List.mem_append.mp hrow with hrow | hrow
    · exact Nat.lt_succ_of_lt (h.ids_lt row hrow)
    · rw [List.mem_singleton.mp hrow]
      exact Nat.lt_succ_self _

/-- Appending to the file leaves what is indexed alone. -/
theorem Indexed.append (h : Indexed env f hist) (more : List Byte) :
    Indexed env { f with dataFile := some (f.dataFile.getD [] ++ more) } hist where
  toNumbered := ⟨h.ids_sorted, h.ids_lt⟩
  rows_of := h.rows_of.imp fun _ _ hrow => hrow.append more
  file_exists hfile := by cases hfile

/-- A new row indexes the bundle the file has at its offset. -/
theorem Indexed.insert (h : Indexed env f hist) {key : JString} {offset : Nat}
    {b : RequestResponseBundle ChannelBuffer} {before rest : List Byte}
    (hbytes : f.dataFile = some (before ++ env.streams.writeObject b ++ rest))
    (hoff : offset = before.length) :
    Indexed env (insertDataIndex f env.linkId offset key) (hist ++ [(key, b)]) where
  toNumbered := h.toNumbered.insert offset key
  rows_of := by
    rw [rows_insertDataIndex]
    refine List.rel_append h.rows_of (.cons ⟨rfl, before, rest, ?_, hoff⟩ .nil)
    rw [hbytes]
    rfl
  file_exists hfile := by
    rw [insertDataIndex, hbytes] at hfile
    cases hfile

/-- **A put**: one more row, one more bundle in the file. -/
theorem Indexed.put (h : Indexed env f hist) (key : JString)
    (b : RequestResponseBundle ChannelBuffer) :
    Indexed env (FileStorage.put env .complete key b f) (hist ++ [(key, b)]) := by
  have happend := h.append (env.streams.writeObject b)
  exact happend.insert (by rw [List.append_nil]) rfl

theorem Holds.put (h : Holds env f hist) {key : JString} (hkey : IsSignature key)
    (b : RequestResponseBundle ChannelBuffer) :
    Holds env (FileStorage.put env .complete key b f) (hist ++ [(key, b)]) := by
  refine (h.indexed.put key b).holds fun p hp => ?_
  rcases List.mem_append.mp hp with hp | hp
  · exact h.signatures p hp
  · rw [List.mem_singleton.mp hp]
    exact hkey

/-! ### Deletes -/

/-- `deleteDataIndex` leaves the link without rows. -/
@[simp] theorem rows_deleteDataIndex (env : FileEnv) (f : FileStorage) :
    rows env (deleteDataIndex env f) = [] := by
  unfold rows deleteDataIndex
  rw [List.filter_filter, List.filter_eq_nil_iff]
  intro row _
  simp

/-- **A delete** forgets every put. -/
theorem holds_delete (env : FileEnv) (f : FileStorage) :
    Holds env (deleteFile (deleteDataIndex env f)) [] :=
  holds_nil (rows_deleteDataIndex env f)

/-! ### Gets -/

/-- The last put with a key that the data base takes for `key`. -/
def lastAs {α : Type} (env : FileEnv) (hist : List (JString × α)) (key : JString) :
    Option (JString × α) :=
  hist.reverse.find? fun p => env.collation.equal p.1 key

/-- The bundle of that put, the empty one if there is none. -/
def lookupAs (env : FileEnv) (hist : History) (key : JString) :
    RequestResponseBundle ChannelBuffer :=
  ((lastAs env hist key).map Prod.snd).getD .empty

theorem lastAs_concat {α : Type} (hist : List (JString × α)) (p : JString × α) (key : JString) :
    lastAs env (hist ++ [p]) key
      = if env.collation.equal p.1 key then some p else lastAs env hist key := by
  unfold lastAs
  rw [List.reverse_append, List.reverse_singleton, List.singleton_append, List.find?_cons]
  cases env.collation.equal p.1 key <;> rfl

/-- The data base tells signatures apart, so it finds what `lookup` finds. -/
theorem lookupAs_eq_lookup {key : JString} (hkey : IsSignature key)
    (hsig : ∀ p ∈ hist, IsSignature p.1) : lookupAs env hist key = lookup hist key := by
  have hfind : lastAs env hist key = hist.reverse.find? fun p => p.1 == key := by
    refine List.find?_congr fun p hp => ?_
    have heq := env.collation.equal_iff p.1 key (hsig p (List.mem_reverse.mp hp)) hkey
    rw [Bool.eq_iff_iff, heq, beq_iff_eq]
  unfold lookupAs lookup
  rw [hfind]
  cases hist.reverse.find? fun p => p.1 == key <;> rfl

/-- The last row belongs to the last put. -/
theorem rows_concat {α : Type} {R : DataIndex → α → Prop} {rs : List DataIndex} {hist : List α}
    {p : α} (h : List.Forall₂ R rs (hist ++ [p])) :
    ∃ rs' row, rs = rs' ++ [row] ∧ List.Forall₂ R rs' hist ∧ R row p := by
  have hrev := List.forall₂_reverse_iff.mpr h
  rw [List.reverse_append, List.reverse_singleton, List.singleton_append] at hrev
  obtain ⟨row, rs', hrow, hrest, hrs⟩ := List.forall₂_cons_right_iff.mp hrev
  refine ⟨rs'.reverse, row, ?_, List.forall₂_reverse_iff.mp (by rwa [List.reverse_reverse]), hrow⟩
  rw [← List.reverse_reverse rs, hrs, List.reverse_cons]

/-- **The newest row that is taken for a key** is the row of the last put that is. The induction is
on the puts, the last one at the end. -/
theorem select_of_rows (env : FileEnv) {α : Type} {R : DataIndex → JString × α → Prop}
    (hR : ∀ row p, R row p → row.signature = p.1) (key : JString) (hist : List (JString × α)) :
    ∀ {rs : List DataIndex}, List.Forall₂ R rs hist → rs.Pairwise (fun a b => a.id < b.id) →
      Option.Rel R
        ((rs.filter fun row => env.collation.equal row.signature key).argmax DataIndex.id)
        (lastAs env hist key) := by
  induction hist using List.reverseRecOn with
  | nil =>
    intro rs hrel _
    cases hrel
    exact .none
  | append_singleton hist p ih =>
    intro rs hrel hids
    obtain ⟨rs', row, rfl, hrel', hrow⟩ := rows_concat hrel
    obtain ⟨hids', -, hlast⟩ := List.pairwise_append.mp hids
    have hprev := ih hrel' hids'
    rw [List.filter_append, lastAs_concat, List.filter_singleton, hR row p hrow]
    by_cases hkp : env.collation.equal p.1 key = true
    · -- The new row matches, and its id is above those of the rows before it.
      rw [if_pos hkp, hkp, cond_true, List.argmax_concat]
      cases hmax : (rs'.filter fun row => env.collation.equal row.signature key).argmax
          DataIndex.id with
      | none => exact .some hrow
      | some c =>
        have hc : c ∈ rs' := (List.mem_filter.mp (List.argmax_mem hmax)).1
        simp only [if_pos (hlast c hc row (List.mem_singleton_self row))]
        exact .some hrow
    · rw [if_neg hkp, Bool.eq_false_iff.mpr hkp, cond_false, List.append_nil]
      exact hprev

/-- **The row a get selects** is the row of the last put with the key, as the data base compares
keys. -/
theorem Indexed.select (h : Indexed env f hist) (key : JString) :
    Option.Rel (RowOf env (f.dataFile.getD [])) (selectDataIndex env f key)
      (lastAs env hist key) := by
  rw [selectDataIndex_eq]
  exact select_of_rows env (fun _ _ hrow => hrow.1) key hist h.rows_of h.ids_sorted

theorem mem_of_lastAs {α : Type} {hist : List (JString × α)} {key : JString} {p : JString × α}
    (h : lastAs env hist key = some p) : p ∈ hist :=
  List.mem_reverse.mp (List.mem_of_find?_eq_some h)

theorem equal_of_lastAs {α : Type} {hist : List (JString × α)} {key : JString} {p : JString × α}
    (h : lastAs env hist key = some p) : env.collation.equal p.1 key = true := by
  have hfound := (List.find?_eq_some_iff_append.mp h).1
  exact hfound

/-- A get reads at the offset of the row it selected. -/
theorem read_of_rel {α : Type} {R : DataIndex → JString × α → Prop} {key : JString}
    {t : Option (JString × α)} {g : JString × α → RequestResponseBundle ChannelBuffer}
    (hrel : Option.Rel R (selectDataIndex env f key) t)
    (hread : ∀ row p, t = some p → R row p → readAt env f row.offset = g p) :
    FileStorage.read env key f = (t.map g).getD .empty := by
  unfold FileStorage.read
  cases hrow : selectDataIndex env f key with
  | none =>
    rw [hrow] at hrel
    cases hrel
    rfl
  | some row =>
    rw [hrow] at hrel
    cases hrel with
    | some hR => exact hread row _ rfl hR

/-- **A get**: the bundle put last under the key, as the data base compares keys. -/
theorem Indexed.read (h : Indexed env f hist) (key : JString) :
    FileStorage.read env key f = lookupAs env hist key :=
  read_of_rel (h.select key) fun _ _ hp hrow => h.readAt_eq (mem_of_lastAs hp) hrow

theorem Holds.read (h : Holds env f hist) {key : JString} (hkey : IsSignature key) :
    FileStorage.read env key f = lookup hist key :=
  (h.indexed.read key).trans (lookupAs_eq_lookup hkey h.signatures)

/-- **What `getRecordData` returns**: new objects of the value read; the file and the table stay as
they are. -/
theorem getRecordData_run (env : FileEnv) (key : JString) (w : World FileStorage) :
    ∃ bundles h, (getRecordData env key).run w = .ok bundles ⟨h, w.hidden⟩ ∧
      bundles.deref h = FileStorage.read env key w.hidden ∧ w.heap.size ≤ h.size ∧
      ∀ r < w.heap.size, h.get r = w.heap.get r :=
  ⟨_, _, rfl, (FileStorage.read env key w.hidden).alloc_spec w.heap⟩

/-- **`FileStorage` is the last-write-wins map**; it loses nothing. -/
def refines (env : FileEnv) : Refines (recordStorage env) where
  Holds w hist := Holds env w.hidden hist
  Keeps _ _ := False
  Has _ _ := True
  keeps_lt _ hr := hr.elim
  holds_of_heap hw _ _ := hw
  put hw hkey _ := ⟨_, rfl, hw.put hkey _, trivial, fun _ hr => hr.elim⟩
  get {w hist key} hw hkey := by
    obtain ⟨bundles, h, hrun, hval, hsize, hold⟩ := getRecordData_run env key w
    exact ⟨bundles, h, hrun, fun _ => hval.trans (hw.read hkey), fun hno => absurd trivial hno,
      hsize, hold⟩

end FileStorage

end Terminator.Storage
