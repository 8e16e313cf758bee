import Terminator.Manager.Requests

/-!
# Whether an edit survives

`updateLink` writes the columns of its form in one statement. `startServer`, `stopServer` and
`changeWorkMode` select the row, change one field of the object and write all its fields back. One
that selected the row before the edit and writes it after has the old columns in its object, and the
edit is gone.

An object is a number, and the numbers of the objects selected after the edit are those from the
number of objects there were then.

**`edit_kept`**: as long as no request writes back an object it selected before the edit, the
columns the form sets have its values in every state after the edit.
-/

namespace Terminator.Manager.Requests

open Terminator.Java Terminator.Run

/-- The columns that only `updateLink` means to change: where the form sets one, the row has the
value of the form. -/
structure HasEdit (form row : Columns) : Prop where
  name : ∀ v, form.name = some v → row.name = some v
  localPort : ∀ v, form.localPort = some v → row.localPort = some v
  remoteAddress : ∀ v, form.remoteAddress = some v → row.remoteAddress = some v
  remotePort : ∀ v, form.remotePort = some v → row.remotePort = some v
  protocolType : ∀ v, form.protocolType = some v → row.protocolType = some v
  storageType : ∀ v, form.storageType = some v → row.storageType = some v
  signClass : ∀ v, form.signClass = some v → row.signClass = some v
  extractClass : ∀ v, form.extractClass = some v → row.extractClass = some v

/-- The row of the link has the values of the form. -/
def Edited (form : LinkForm) (id : Nat) (s : Threads) : Prop :=
  ∃ row, s.control.table.rows id = some row ∧ HasEdit (form.link none).toColumns row.toColumns

/-- Any event but another `updateLink`. -/
def Event.IsControl : Event → Prop
  | begin _ _ | go _ => True
  | updateLink _ => False

/-- The next statement writes the object back to the row. -/
def Phase.Writes (l : Ref) : Phase → Prop
  | startRegistered l' | stopLinkRemoved l' | changeRead _ l' => l' = l
  | _ => False

/-- No object is written back that was selected when there were fewer than `mark` objects. -/
def WritesFrom (mark : Nat) (e : Event) (s : Threads) : Prop :=
  ∀ t l, e = .go t → (s.phase t).Writes l → mark ≤ l

/-! ## The invariant -/

section Invariant

variable {form : Columns} {id mark : Nat} {c c' : LinkControl} {l : Ref}

/-- The row has the edit, and so has every object that was selected after it. -/
structure Kept (form : Columns) (id mark : Nat) (c : LinkControl) : Prop where
  row : ∃ row, c.table.rows id = some row ∧ HasEdit form row.toColumns
  copies : ∀ l, mark ≤ l → l < c.links.size → HasEdit form (c.links.get l).toColumns

theorem hasEdit_self (form : Columns) : HasEdit form form :=
  ⟨fun _ h => h, fun _ h => h, fun _ h => h, fun _ h => h, fun _ h => h, fun _ h => h,
    fun _ h => h, fun _ h => h⟩

/-- Columns with the edit, whatever they are written over. -/
theorem HasEdit.set {link : Columns} (h : HasEdit form link) (row : Columns) :
    HasEdit form (link.set row) := by
  have hor : ∀ {α : Type} {a b : Option α} {v : α}, a = some v → a.or b = some v := by
    rintro α a b v rfl
    rfl
  exact ⟨fun v hv => hor (h.name v hv), fun v hv => hor (h.localPort v hv),
    fun v hv => hor (h.remoteAddress v hv), fun v hv => hor (h.remotePort v hv),
    fun v hv => hor (h.protocolType v hv), fun v hv => hor (h.storageType v hv),
    fun v hv => hor (h.signClass v hv), fun v hv => hor (h.extractClass v hv)⟩

/-- Selecting the row gives an object with the edit. -/
theorem Kept.alloc (h : Kept form id mark c) {link : Link}
    (hlink : c.table.selectLinkById id = some link) :
    Kept form id mark { c with links := (c.links.alloc link).2 } where
  row := h.row
  copies l hl hlt := by
    obtain ⟨row, hrow, hedit⟩ := h.row
    obtain ⟨row', hrow', -, rfl⟩ := LinkTable.selectLinkById_eq_some hlink
    obtain rfl := Option.some.inj (hrow.symm.trans hrow')
    dsimp only at hlt ⊢
    rw [Heap.size_alloc] at hlt
    by_cases hnew : l = c.links.size
    · rw [hnew, Heap.get_alloc_self]
      exact hedit
    · have hold : l < c.links.size := by omega
      rw [Heap.get_alloc_of_lt hold]
      exact h.copies l hl hold

/-- An assignment to an object that leaves the columns of the edit alone. -/
theorem Kept.set (h : Kept form id mark c) (f : Link → Link)
    (hf : ∀ link, HasEdit form link.toColumns → HasEdit form (f link).toColumns)
    (hlinks : c'.links = c.links.set l (f (c.links.get l))) (l' : Ref) (hl' : mark ≤ l')
    (hlt : l' < c'.links.size) : HasEdit form (c'.links.get l').toColumns := by
  rw [hlinks, Heap.size_set] at hlt
  have hold := h.copies l' hl' hlt
  rw [hlinks]
  rcases Heap.get_set_or c.links l l' (f (c.links.get l)) with hget | ⟨rfl, hget⟩
  · rw [hget]
    exact hold
  · rw [hget]
    exact hf _ hold

/-- **Writing back** an object with the edit. -/
theorem Kept.updateLink (h : Kept form id mark c) {link : Link}
    (hlink : link.id = some id → HasEdit form link.toColumns) :
    ∃ row, (c.table.updateLink link).rows id = some row ∧ HasEdit form row.toColumns := by
  obtain ⟨row, hrow, hedit⟩ := h.row
  unfold LinkTable.updateLink
  cases hid : link.id with
  | none => exact ⟨row, hrow, hedit⟩
  | some id' =>
    by_cases hself : id = id'
    · rw [← hself] at hid ⊢
      refine ⟨{ row with toColumns := link.toColumns.set row.toColumns }, ?_,
        (hlink hid).set row.toColumns⟩
      rw [LinkTable.rows_update_self, hrow, Option.map_some]
    · refine ⟨row, ?_, hedit⟩
      rw [LinkTable.rows_update_ne hself, hrow]

theorem Kept.builds (h : Kept form id mark c) (hbuilds : Builds c l c') :
    Kept form id mark c' where
  row := by
    rw [hbuilds.table]
    exact h.row
  copies := by
    rcases hbuilds.links with hlinks | ⟨signer, extractor, hlinks⟩
    · rw [hlinks]
      exact h.copies
    · exact h.set (Link.configured signer extractor) (fun _ hl => hl) hlinks

/-- An object that is written back after an assignment. -/
theorem Kept.written (h : Kept form id mark c) (f : Link → Link)
    (hf : ∀ link, HasEdit form link.toColumns → HasEdit form (f link).toColumns) (hl : mark ≤ l) :
    let links := c.links.set l (f (c.links.get l))
    Kept form id mark { c with links := links, table := c.table.updateLink (links.get l) } := by
  let c' : LinkControl := { c with links := c.links.set l (f (c.links.get l)) }
  have hlinks : c'.links = c.links.set l (f (c.links.get l)) := rfl
  have hcopies := h.set f hf hlinks
  refine ⟨h.updateLink fun hid => hcopies l hl ?_, hcopies⟩
  by_contra hlt
  rw [Heap.get_of_size_le (Nat.le_of_not_lt hlt)] at hid
  cases hid

theorem kept_goes {p p' : Phase} (h : Kept form id mark c) (hgoes : Goes id c p c' p')
    (hwrites : ∀ l, p.Writes l → mark ≤ l) : Kept form id mark c' := by
  cases hgoes with
  | startMissing | startFound | startLinkPut | startRegistered => exact ⟨h.row, h.copies⟩
  | startFailed hbuilds | startOpened hbuilds => exact h.builds hbuilds
  | started =>
    exact h.written (fun link => { link with status := some .running })
      (fun _ hl => ⟨hl.1, hl.2, hl.3, hl.4, hl.5, hl.6, hl.7, hl.8⟩) (hwrites _ rfl)
  | stopMissing | stopFound | stopFailed | stopStopped | stopUnregistered | stopLinkRemoved =>
    exact ⟨h.row, h.copies⟩
  | stopped =>
    exact h.written (fun link => { link with status := some .stopped })
      (fun _ hl => ⟨hl.1, hl.2, hl.3, hl.4, hl.5, hl.6, hl.7, hl.8⟩) (hwrites _ rfl)
  | changeSet =>
    refine ⟨h.row, h.set (fun link => { link with workMode := some _ })
      (fun _ hl => ⟨hl.1, hl.2, hl.3, hl.4, hl.5, hl.6, hl.7, hl.8⟩) rfl⟩
  | changeGone => exact h
  | changeRead hlink => exact h.alloc hlink
  | changed =>
    exact h.written (fun link => { link with workMode := some _ })
      (fun _ hl => ⟨hl.1, hl.2, hl.3, hl.4, hl.5, hl.6, hl.7, hl.8⟩) (hwrites _ rfl)

theorem kept_begins {request : Request} {p' : Phase} (h : Kept form id mark c)
    (hbegins : Begins id c request c' p') : Kept form id mark c' := by
  cases hbegins with
  | absent | stopAbsent | refused | changeFound => exact h
  | startRead hlink => exact h.alloc hlink
  | stopRead hlink => exact h.alloc hlink

/-- **A step keeps the edit** when it writes back no older object. -/
theorem kept_step (register : ProtocolRegister) {e : Event} {s : Threads}
    (h : Kept form id mark s.control) (he : e.IsControl) (hwrites : WritesFrom mark e s) :
    Kept form id mark (step register id e s).control := by
  have htakes := takes_step register id e s
  generalize step register id e s = s' at htakes
  cases htakes with
  | stay => exact h
  | begin ht hbegins => exact kept_begins h hbegins
  | go hgoes => exact kept_goes h hgoes fun l => hwrites _ l rfl
  | updateLink form => exact he.elim

end Invariant

/-! ## Runs -/

/-- A row that is not deleted stays so: none of the requests deletes. -/
theorem live_step (register : ProtocolRegister) {id : Nat} (e : Event) {s : Threads}
    (h : s.control.table.Live id) : (step register id e s).control.table.Live id := by
  have htakes := takes_step register id e s
  generalize step register id e s = s' at htakes
  cases htakes with
  | stay => exact h
  | updateLink form => exact h.updateLink (form.link (some id))
  | begin ht hbegins => cases hbegins <;> exact h
  | go hgoes =>
    generalize s.phase _ = p at hgoes
    cases hgoes with
    | startFailed hbuilds | startOpened hbuilds =>
      dsimp only
      rw [hbuilds.table]
      exact h
    | started | stopped | changed => exact h.updateLink _
    | startMissing | startFound | startLinkPut | startRegistered | stopMissing | stopFound |
      stopFailed | stopStopped | stopUnregistered | stopLinkRemoved | changeSet | changeGone |
      changeRead => exact h

/-- `updateLink` gives the row the edit; no object was selected after it yet. -/
theorem kept_updateLink (register : ProtocolRegister) {id : Nat} (form : LinkForm) {s : Threads}
    (h : s.control.table.Live id) :
    Kept (form.link none).toColumns id s.control.links.size
      (step register id (.updateLink form) s).control where
  row := by
    obtain ⟨row, hrow, -⟩ := h
    refine ⟨{ row with toColumns := (form.link none).toColumns.set row.toColumns }, ?_,
      (hasEdit_self _).set _⟩
    exact (LinkTable.rows_update_self id _ _).trans (by rw [hrow]; rfl)
  copies l hl hlt := absurd hl (Nat.not_le_of_lt hlt)

/-- **The edit survives** every interleaving with requests that start, stop and change the link, if
none of them writes back an object it selected before the edit. -/
theorem edit_kept (register : ProtocolRegister) {id : Nat} {s : Threads}
    (hlive : s.control.table.Live id) (before : List Event) (form : LinkForm)
    {after : List Event} (hafter : ∀ e ∈ after, e.IsControl) :
    let s1 := run (step register id) before s
    let s2 := step register id (.updateLink form) s1
    Meets (step register id) (WritesFrom s1.control.links.size) after s2 →
      Always (step register id) (Edited form id) after s2 := by
  intro s1 s2 hwrites
  have hany : Meets (step register id) (fun _ _ => True) before s :=
    meets_of_forall fun _ _ _ => trivial
  have hlive1 : s1.control.table.Live id :=
    run_of_invariant (I := fun s : Threads => s.control.table.Live id)
      (fun e s h _ => live_step register e h) hlive hany
  have hcontrol : Meets (step register id) (fun e _ => e.IsControl) after s2 :=
    meets_of_forall fun e he _ => hafter e he
  refine always_of_invariant
    (I := fun s => Kept (form.link none).toColumns id s1.control.links.size s.control)
    (fun s h => ?_) (fun e s h he => kept_step register h he.1 he.2)
    (kept_updateLink register form hlive1) (hcontrol.and hwrites)
  exact h.row

/-- The form of `recordForm`, with another port. -/
def movedForm : LinkForm := { recordForm with localPort := 8081 }

/-- A start of the link from its first statement to its last. -/
def start : List Event := .begin 0 (.startServer freePort) :: List.replicate 5 (.go 0)

/-- The start selects the row, and then the port is edited. -/
def editInStart : List Event :=
  .begin 0 (.startServer freePort) :: .updateLink movedForm :: List.replicate 5 (.go 0)

theorem edited_editThenStart :
    Always (step httpRegister 1) (Edited movedForm 1) start
      (step httpRegister 1 (.updateLink movedForm) (ready addedLink)) :=
  edit_kept httpRegister (s := ready addedLink) ⟨_, rfl, rfl⟩ [] movedForm
    (by simp [start, Event.IsControl]) (meets_of_forall fun _ _ _ _ _ _ _ => Nat.zero_le _)

/-- When the start is done the row has the old port. -/
theorem not_edited_editInStart :
    (ready addedLink).control.table.Live 1 ∧
    ¬ ((run (step httpRegister 1) editInStart (ready addedLink)).Completed →
      Edited movedForm 1 (run (step httpRegister 1) editInStart (ready addedLink))) := by
  refine ⟨⟨_, rfl, rfl⟩, fun h => ?_⟩
  have hdone : (run (step httpRegister 1) editInStart (ready addedLink)).Completed := by
    rintro (_ | t)
    · exact .inr rfl
    · exact .inl rfl
  obtain ⟨row, hrow, hedit⟩ := h hdone
  obtain rfl := Option.some.inj hrow
  have hport := hedit.localPort 8081 rfl
  revert hport
  decide

end Terminator.Manager.Requests
