import Mathlib.Logic.Function.Basic
import Terminator.Java.Heap
import Terminator.Java.Text
import Terminator.Storage.StorageFactory

/-!
# The table of links

`Link.java`, `LinkForm.java`, and the statements of `LinkMapper.xml` that name a link by its id. A
column of a row, or a field of a `Link`, is `none` where it is `null`; `updateLink` writes the
fields that are not. A deleted row stays in the table, with its mark, and is not selected.
-/

namespace Terminator.Manager

open Terminator.Java Terminator.Storage

/-- `WorkMode`. -/
inductive WorkMode where
  | TUNNEL
  | RECORD
  | REPLAY
  | STUB
  deriving DecidableEq, Repr

/-- `ServerStatus`. -/
inductive ServerStatus where
  | running
  | stopped
  deriving DecidableEq, Repr

/-- The columns of a row that `updateLink` may write. -/
structure Columns where
  name : Option JString
  localPort : Option Nat
  remoteAddress : Option JString
  remotePort : Option Nat
  workMode : Option WorkMode
  protocolType : Option JString
  storageType : Option StorageType
  signClass : Option JString
  extractClass : Option JString
  status : Option ServerStatus
  deriving DecidableEq

/-- A row of `link`. -/
structure LinkRow extends Columns where
  isDelete : Bool
  deriving DecidableEq

/-- `Link`: the columns, and what `configLink` sets. A plugin is told by its class, a storage by its
type. -/
structure Link extends Columns where
  id : Option Nat
  requestSigner : Option JString
  requestExtractor : Option JString
  storage : Option StorageType
  deriving DecidableEq

/-- `new Link()`. -/
instance : Inhabited Link :=
  ⟨⟨⟨none, none, none, none, none, none, none, none, none, none⟩, none, none, none, none⟩⟩

/-- `LinkForm`, as validation lets it through. -/
structure LinkForm where
  name : JString
  localPort : Nat
  remoteAddress : JString
  remotePort : Nat
  workMode : WorkMode
  protocolType : JString
  storageType : StorageType
  signClass : Option JString
  extractClass : Option JString

/-- The `Link` that `addLink` and `updateLink` fill in from a form. -/
def LinkForm.link (form : LinkForm) (id : Option Nat) : Link :=
  { name := some form.name
    localPort := some form.localPort
    remoteAddress := some form.remoteAddress
    remotePort := some form.remotePort
    workMode := some form.workMode
    protocolType := some form.protocolType
    storageType := some form.storageType
    signClass := form.signClass
    extractClass := form.extractClass
    status := none
    id := id
    requestSigner := none
    requestExtractor := none
    storage := none }

/-- `<if test="… != null">`, for every column. -/
def Columns.set (link row : Columns) : Columns :=
  { name := link.name.or row.name
    localPort := link.localPort.or row.localPort
    remoteAddress := link.remoteAddress.or row.remoteAddress
    remotePort := link.remotePort.or row.remotePort
    workMode := link.workMode.or row.workMode
    protocolType := link.protocolType.or row.protocolType
    storageType := link.storageType.or row.storageType
    signClass := link.signClass.or row.signClass
    extractClass := link.extractClass.or row.extractClass
    status := link.status.or row.status }

/-- The table, by its primary key, and the next value of the key. -/
structure LinkTable where
  rows : Nat → Option LinkRow
  autoIncrement : Nat
  ids_lt : ∀ id row, rows id = some row → id < autoIncrement

namespace LinkTable

/-- A table without rows. -/
def empty : LinkTable := ⟨fun _ => none, 1, fun _ _ h => by cases h⟩

/-- `selectLinkById`. -/
def selectLinkById (id : Nat) (t : LinkTable) : Option Link :=
  match t.rows id with
  | none => none
  | some row =>
    if row.isDelete then none
    else some { row.toColumns with
      id := some id, requestSigner := none, requestExtractor := none, storage := none }

/-- `insertLink` of a link without an id: the key is generated, `work_status` and `is_delete` have
their defaults. -/
def insertLink (link : Link) (t : LinkTable) : LinkTable where
  rows := Function.update t.rows t.autoIncrement
    (some { link.toColumns with status := some .stopped, isDelete := false })
  autoIncrement := t.autoIncrement + 1
  ids_lt id row h := by
    by_cases hid : id = t.autoIncrement
    · rw [hid]
      exact Nat.lt_succ_self _
    · rw [Function.update_of_ne hid] at h
      exact Nat.lt_succ_of_lt (t.ids_lt id row h)

/-- A statement `update link set … where id = …`. -/
def update (id : Nat) (f : LinkRow → LinkRow) (t : LinkTable) : LinkTable where
  rows := Function.update t.rows id ((t.rows id).map f)
  autoIncrement := t.autoIncrement
  ids_lt id' row h := by
    by_cases hid : id' = id
    · rw [hid, Function.update_self] at h
      obtain ⟨row', hrow, -⟩ := Option.map_eq_some_iff.mp h
      rw [hid]
      exact t.ids_lt id row' hrow
    · rw [Function.update_of_ne hid] at h
      exact t.ids_lt id' row h

/-- `updateLink`. -/
def updateLink (link : Link) (t : LinkTable) : LinkTable :=
  match link.id with
  | none => t
  | some id => t.update id fun row => { row with toColumns := link.toColumns.set row.toColumns }

/-- `deleteLink`. -/
def deleteLink (id : Nat) (t : LinkTable) : LinkTable :=
  t.update id fun row => { row with isDelete := true }

/-- What writing a row back with another status comes to (`updateLink_status`). -/
def setStatus (status : ServerStatus) (id : Nat) (t : LinkTable) : LinkTable :=
  t.update id fun row => { row with status := some status }

/-- What writing a row back with another mode comes to (`updateLink_workMode`). -/
def setWorkMode (mode : WorkMode) (id : Nat) (t : LinkTable) : LinkTable :=
  t.update id fun row => { row with workMode := some mode }

/-! ## Lemmas -/

variable {t : LinkTable} {id : Nat}

theorem rows_insertLink_self (link : Link) (t : LinkTable) :
    (t.insertLink link).rows t.autoIncrement =
      some { link.toColumns with status := some .stopped, isDelete := false } :=
  Function.update_self _ _ _

theorem rows_insertLink_ne (hne : id ≠ t.autoIncrement) (link : Link) :
    (t.insertLink link).rows id = t.rows id := Function.update_of_ne hne _ _

@[simp] theorem rows_update_self (id : Nat) (f : LinkRow → LinkRow) (t : LinkTable) :
    (t.update id f).rows id = (t.rows id).map f := Function.update_self _ _ _

theorem rows_update_ne {id' : Nat} (hne : id' ≠ id) (f : LinkRow → LinkRow) (t : LinkTable) :
    (t.update id f).rows id' = t.rows id' := Function.update_of_ne hne _ _

/-- What is selected is a row that is not deleted. -/
theorem selectLinkById_eq_some {link : Link} (h : t.selectLinkById id = some link) :
    ∃ row, t.rows id = some row ∧ row.isDelete = false ∧ link = { row.toColumns with
      id := some id, requestSigner := none, requestExtractor := none, storage := none } := by
  unfold selectLinkById at h
  cases hrow : t.rows id with
  | none => rw [hrow] at h; cases h
  | some row =>
    rw [hrow] at h
    cases hdel : row.isDelete with
    | true => simp [hdel] at h
    | false =>
      simp only [hdel, Bool.false_eq_true, if_false, Option.some.injEq] at h
      exact ⟨row, rfl, hdel, h.symm⟩

theorem id_of_selectLinkById {link : Link} (h : t.selectLinkById id = some link) :
    link.id = some id := by
  obtain ⟨row, -, -, rfl⟩ := selectLinkById_eq_some h
  rfl

/-- A row that is not deleted is selected. -/
theorem selectLinkById_of_row {row : LinkRow} (h : t.rows id = some row)
    (hdel : row.isDelete = false) : t.selectLinkById id = some { row.toColumns with
      id := some id, requestSigner := none, requestExtractor := none, storage := none } := by
  unfold selectLinkById
  rw [h]
  simp only [hdel, Bool.false_eq_true, if_false]

theorem update_congr {f g : LinkRow → LinkRow} (h : ∀ row, t.rows id = some row → f row = g row) :
    t.update id f = t.update id g := by
  unfold update
  congr 2
  cases hrow : t.rows id with
  | none => rfl
  | some row => exact congrArg some (h row hrow)

/-- A row that was selected and written back whole changes in the field assigned in between. -/
theorem updateLink_of_select {link : Link} {f : Columns → Columns}
    (h : t.selectLinkById id = some link)
    (hf : (f link.toColumns).set link.toColumns = f link.toColumns) :
    t.updateLink { link with toColumns := f link.toColumns } =
      t.update id fun row => { row with toColumns := f row.toColumns } := by
  obtain ⟨row, hrow, -, rfl⟩ := selectLinkById_eq_some h
  apply update_congr
  intro row' hrow'
  obtain rfl := Option.some.inj (hrow.symm.trans hrow')
  exact congrArg (fun c => (⟨c, row.isDelete⟩ : LinkRow)) hf

theorem updateLink_status {link : Link} (h : t.selectLinkById id = some link)
    (status : ServerStatus) :
    t.updateLink { link with status := some status } = t.setStatus status id :=
  updateLink_of_select (f := fun c => { c with status := some status }) h (by simp [Columns.set])

theorem updateLink_workMode {link : Link} (h : t.selectLinkById id = some link)
    (mode : WorkMode) :
    t.updateLink { link with workMode := some mode } = t.setWorkMode mode id :=
  updateLink_of_select (f := fun c => { c with workMode := some mode }) h (by simp [Columns.set])

/-! ## The links that are selected -/

/-- The id has a row that is not deleted. -/
def Live (t : LinkTable) (id : Nat) : Prop := ∃ row, t.rows id = some row ∧ row.isDelete = false

theorem selectLinkById_ne_none_iff : t.selectLinkById id ≠ none ↔ t.Live id := by
  constructor
  · intro h
    obtain ⟨link, hlink⟩ := Option.ne_none_iff_exists'.mp h
    obtain ⟨row, hrow, hdel, -⟩ := selectLinkById_eq_some hlink
    exact ⟨row, hrow, hdel⟩
  · rintro ⟨row, hrow, hdel⟩
    rw [selectLinkById_of_row hrow hdel]
    exact Option.some_ne_none _

theorem live_of_select {link : Link} (h : t.selectLinkById id = some link) : t.Live id :=
  selectLinkById_ne_none_iff.mp (by rw [h]; exact Option.some_ne_none _)

theorem Live.insertLink (h : t.Live id) (link : Link) : (t.insertLink link).Live id := by
  obtain ⟨row, hrow, hdel⟩ := h
  have hlt := t.ids_lt id row hrow
  exact ⟨row, (rows_insertLink_ne (by omega) link).trans hrow, hdel⟩

/-- A statement that leaves `is_delete` alone. -/
theorem Live.update (h : t.Live id) {f : LinkRow → LinkRow}
    (hf : ∀ row, (f row).isDelete = row.isDelete) (id' : Nat) : (t.update id' f).Live id := by
  obtain ⟨row, hrow, hdel⟩ := h
  by_cases hid : id = id'
  · refine ⟨f row, ?_, (hf row).trans hdel⟩
    rw [← hid, rows_update_self, hrow, Option.map_some]
  · exact ⟨row, (rows_update_ne hid f t).trans hrow, hdel⟩

theorem Live.updateLink (h : t.Live id) (link : Link) : (t.updateLink link).Live id := by
  unfold LinkTable.updateLink
  cases link.id with
  | none => exact h
  | some id' =>
    refine h.update (fun _ => ?_) id'
    rfl

theorem Live.setStatus (h : t.Live id) (status : ServerStatus) (id' : Nat) :
    (t.setStatus status id').Live id := by
  refine h.update (fun _ => ?_) id'
  rfl

theorem Live.setWorkMode (h : t.Live id) (mode : WorkMode) (id' : Nat) :
    (t.setWorkMode mode id').Live id := by
  refine h.update (fun _ => ?_) id'
  rfl

theorem Live.deleteLink {id' : Nat} (h : t.Live id) (hne : id ≠ id') :
    (t.deleteLink id').Live id := by
  obtain ⟨row, hrow, hdel⟩ := h
  exact ⟨row, (rows_update_ne hne _ t).trans hrow, hdel⟩

/-- A deleted link is not selected. -/
theorem not_live_deleteLink (id : Nat) (t : LinkTable) : ¬ (t.deleteLink id).Live id := by
  rintro ⟨row, hrow, hdel⟩
  unfold LinkTable.deleteLink at hrow
  rw [rows_update_self] at hrow
  obtain ⟨row', -, rfl⟩ := Option.map_eq_some_iff.mp hrow
  cases hdel

end LinkTable

end Terminator.Manager
