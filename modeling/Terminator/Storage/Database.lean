import Mathlib.Logic.Function.Basic
import Terminator.Run.Invariant
import Terminator.Storage.Streams
import Terminator.Storage.StubTables

/-!
# One data base for all links

`FileStorage.java` with all of its operations, over the three tables all links share and the data
files, one for each link.

**`unchanged_iff`**: whatever the storage of link `A` is asked to do, the storage of another link
`B` answers as before iff no stub of `B` is deleted: `deleteStubData` names a stub by its id and
does not look at its link.
-/

namespace Terminator.Storage

open Terminator.Java Terminator.Netty Terminator.Plugin Terminator.Run

/-- The data files and the tables. -/
structure Database where
  files : Nat → Option (List Byte)
  data_index : List DataIndex
  autoIncrement : Nat
  stubs : StubTables

/-- What the storages of one data base are built with. -/
structure DatabaseEnv where
  streams : ObjectStreams
  collation : Collation
  mapper : Mapper

/-- What the `FileStorage` of one link is built with. -/
def DatabaseEnv.link (env : DatabaseEnv) (linkId : Nat) : FileEnv :=
  ⟨linkId, env.streams, env.collation⟩

namespace Database

/-- The file of a link, and the index. -/
def storage (linkId : Nat) (d : Database) : FileStorage :=
  ⟨d.files linkId, d.data_index, d.autoIncrement⟩

def setStorage (linkId : Nat) (f : FileStorage) (d : Database) : Database :=
  { d with
    files := Function.update d.files linkId f.dataFile
    data_index := f.data_index
    autoIncrement := f.autoIncrement }

variable (env : DatabaseEnv) (linkId : Nat)

/-- `putRecordData`. -/
def putRecordData (key : JString) (bundles : RequestResponseBundle Ref) :
    Method (World Database) Unit :=
  World.component (storage linkId) (setStorage linkId)
    (FileStorage.putRecordData (env.link linkId) .complete key bundles)

/-- `getRecordData`. -/
def getRecordData (key : JString) : Method (World Database) (RequestResponseBundle Ref) :=
  World.component (storage linkId) (setStorage linkId)
    (FileStorage.getRecordData (env.link linkId) key)

/-- `deleteRecordData`. -/
def deleteRecordData (version : Int) : Method (World Database) Unit :=
  World.component (storage linkId) (setStorage linkId)
    (FileStorage.deleteRecordData (env.link linkId) version)

/-- A statement on the tables of the stubs. -/
def execute {α : Type} (statement : StubTables → α × StubTables) : Method (World Database) α :=
  modifyGet fun w =>
    ((statement w.hidden.stubs).1,
      { w with hidden := { w.hidden with stubs := (statement w.hidden.stubs).2 } })

/-- `putStubData`. -/
def putStubData (stubData : StubData) : Method (World Database) Nat := do
  let stubDataId ← execute (StubTables.insertStubData linkId stubData)
  let conditions ← fromExcept (nonNull stubData.conditions)
  conditions.forM fun con => execute fun t => ((), t.insertStubCondition stubDataId con)
  return stubDataId

/-- `getStubData`. -/
def getStubData : Method (World Database) (List StubData) := do
  return StubTables.selectStubData env.mapper linkId (← get).hidden.stubs

/-- `deleteStubData`: the link is not looked at. -/
def deleteStubData (id : Nat) : Method (World Database) Unit := do
  execute fun t => ((), t.deleteStubData id)
  execute fun t => ((), t.deleteStubCondition id)

/-! ## The calls of one link -/

/-- A call that changes the storage. -/
inductive Call where
  | putRecordData (key : JString) (bundles : RequestResponseBundle Ref)
  | deleteRecordData (version : Int)
  | putStubData (stubData : StubData)
  | deleteStubData (id : Nat)

/-- The method a call runs. -/
def Call.method : Call → Method (World Database) Unit
  | putRecordData key bundles => Database.putRecordData env linkId key bundles
  | deleteRecordData version => Database.deleteRecordData env linkId version
  | putStubData stubData => do let _ ← Database.putStubData linkId stubData
  | deleteStubData id => Database.deleteStubData id

/-- The data base after a call on the storage of a link, made while the message objects are those of
`e.1`. -/
def call (e : Heap ChannelBuffer × Call) (d : Database) : Database :=
  (after ((e.2.method env linkId).run ⟨e.1, d⟩)).hidden

/-- What `getRecordData` finds. -/
def read (key : JString) (d : Database) : RequestResponseBundle ChannelBuffer :=
  FileStorage.read (env.link linkId) key (d.storage linkId)

/-- What `getStubData` returns. -/
def stubData (d : Database) : List StubData := StubTables.selectStubData env.mapper linkId d.stubs

/-- The storage of a link answers as before, but for the order of stubs and conditions. -/
structure Unchanged (d d' : Database) : Prop where
  read : ∀ key, read env linkId key d' = read env linkId key d
  stubData : ((stubData env linkId d').map StubTables.contents).Perm
    ((stubData env linkId d).map StubTables.contents)

variable {env} {linkId} {A B : Nat} {d : Database}

/-- What the storage of a link reads: its file, its rows, and its stubs. -/
structure SameBut (env : DatabaseEnv) (linkId : Nat) (deleted : Option Nat) (d d' : Database) :
    Prop where
  file : d'.files linkId = d.files linkId
  rows : FileStorage.rows (env.link linkId) (d'.storage linkId)
    = FileStorage.rows (env.link linkId) (d.storage linkId)
  visible : StubTables.visible linkId d'.stubs
    = (StubTables.visible linkId d.stubs).filter fun x => deleted ≠ some x.1

/-- The stub a call deletes. -/
def Call.deleted : Call → Option Nat
  | deleteStubData id => some id
  | _ => none

theorem run_execute {α : Type} (statement : StubTables → α × StubTables) (w : World Database) :
    (execute statement).run w = .ok (statement w.hidden.stubs).1
      { w with hidden := { w.hidden with stubs := (statement w.hidden.stubs).2 } } := rfl

/-- The statements of a loop run one after the other. -/
theorem run_forM_execute (id : Nat) (conditions : List StubCondition) (w : World Database) :
    (conditions.forM fun con => execute fun t => ((), t.insertStubCondition id con) :
        Method (World Database) PUnit).run w
      = .ok () { w with hidden := { w.hidden with
          stubs := w.hidden.stubs.insertStubConditions id conditions } } := by
  induction conditions generalizing w with
  | nil => rfl
  | cons con conditions ih =>
    exact ih { w with
      hidden := { w.hidden with stubs := w.hidden.stubs.insertStubCondition id con } }

/-- `putStubData`: the row, then one row a condition. -/
theorem putStubData_run {stubData : StubData} {conditions : List StubCondition}
    (h : stubData.conditions = some conditions) (w : World Database) :
    (putStubData linkId stubData).run w
      = .ok w.hidden.stubs.autoIncrement { w with hidden := { w.hidden with
          stubs := (w.hidden.stubs.insertStubData linkId stubData).2.insertStubConditions
            w.hidden.stubs.autoIncrement conditions } } := by
  unfold putStubData
  rw [h, run_bind_of_ok (run_execute _ _), nonNull, run_bind_of_ok (run_fromExcept_ok _ _),
    run_bind_of_ok (run_forM_execute _ _ _)]
  rfl

/-- A stub whose conditions are `null` leaves its row behind. -/
theorem putStubData_run_null {stubData : StubData} (h : stubData.conditions = none)
    (w : World Database) :
    (putStubData linkId stubData).run w
      = .error .nullPointer { w with hidden := { w.hidden with
          stubs := (w.hidden.stubs.insertStubData linkId stubData).2 } } := by
  unfold putStubData
  rw [h, run_bind_of_ok (run_execute _ _)]
  rfl

/-- **One call on another link**: what it can take away is the stub it deletes. -/
theorem sameBut_call (env : DatabaseEnv) (hAB : A ≠ B) (e : Heap ChannelBuffer × Call)
    (d : Database) : SameBut env B e.2.deleted d (call env A e d) := by
  have hall : ∀ d' : Database, StubTables.visible B d'.stubs = StubTables.visible B d.stubs →
      StubTables.visible B d'.stubs
        = (StubTables.visible B d.stubs).filter fun x => (none : Option Nat) ≠ some x.1 := by
    intro d' h
    rw [h, Multiset.filter_eq_self.mpr]
    exact fun x _ => (Option.some_ne_none x.1).symm
  obtain ⟨heap, c⟩ := e
  cases c with
  | putRecordData key bundles =>
    refine ⟨Function.update_of_ne hAB.symm _ _, ?_, hall _ rfl⟩
    exact FileStorage.rows_insertDataIndex_ne (env.link B) hAB _ _ key
  | deleteRecordData version =>
    refine ⟨Function.update_of_ne hAB.symm _ _, ?_, hall _ rfl⟩
    exact FileStorage.rows_deleteDataIndex_ne (env.link B) (env.link A) hAB (d.storage A)
  | putStubData stubData =>
    cases hcond : stubData.conditions with
    | none =>
      have hcall : call env A (heap, .putStubData stubData) d = { d with
          stubs := (d.stubs.insertStubData A stubData).2 } := by
        unfold call Call.method
        rw [run_bind_of_error (putStubData_run_null hcond _)]
        rfl
      rw [hcall]
      exact ⟨rfl, rfl, hall _ (StubTables.visible_insertStub hAB stubData [] d.stubs)⟩
    | some conditions =>
      have hcall : call env A (heap, .putStubData stubData) d = { d with
          stubs := (d.stubs.insertStubData A stubData).2.insertStubConditions
            d.stubs.autoIncrement conditions } := by
        unfold call Call.method
        rw [run_bind_of_ok (putStubData_run hcond _)]
        rfl
      rw [hcall]
      exact ⟨rfl, rfl, hall _ (StubTables.visible_insertStub hAB stubData conditions d.stubs)⟩
  | deleteStubData id =>
    refine ⟨rfl, rfl, (StubTables.visible_deleteStub B id d.stubs).trans ?_⟩
    refine Multiset.filter_congr fun x _ => ?_
    exact not_congr ⟨fun h => congrArg some h.symm, fun h => (Option.some.inj h).symm⟩

/-! ## Runs -/

variable {d' : Database}

/-- What is the same stays the same. -/
theorem SameBut.read_eq {deleted : Option Nat} (h : SameBut env B deleted d d') (key : JString) :
    read env B key d' = read env B key d :=
  FileStorage.read_congr h.rows h.file key

/-- A stub the run deletes. -/
def Deletes (es : List (Heap ChannelBuffer × Call)) (id : Nat) : Prop :=
  ∃ e ∈ es, e.2.deleted = some id

instance (es : List (Heap ChannelBuffer × Call)) : DecidablePred (Deletes es) := fun id =>
  inferInstanceAs (Decidable (∃ e ∈ es, e.2.deleted = some id))

/-- **A run on another link**: the gets answer as before, the stubs it deletes are gone. -/
theorem run_calls (env : DatabaseEnv) (hAB : A ≠ B) (es : List (Heap ChannelBuffer × Call))
    (d : Database) : (∀ key, read env B key (run (call env A) es d) = read env B key d) ∧
      StubTables.visible B (run (call env A) es d).stubs
        = (StubTables.visible B d.stubs).filter fun x => ¬ Deletes es x.1 := by
  induction es generalizing d with
  | nil =>
    refine ⟨fun _ => rfl, (Multiset.filter_eq_self.mpr fun x _ => ?_).symm⟩
    rintro ⟨e, he, -⟩
    cases he
  | cons e es ih =>
    have hstep := sameBut_call env hAB e d
    obtain ⟨hread, hvis⟩ := ih (call env A e d)
    refine ⟨fun key => (hread key).trans (hstep.read_eq key), ?_⟩
    refine hvis.trans ?_
    rw [hstep.visible, Multiset.filter_filter]
    refine Multiset.filter_congr fun x _ => ?_
    constructor
    · rintro ⟨hes, he⟩ ⟨e', he', hdel⟩
      rcases List.mem_cons.mp he' with rfl | he'
      · exact he hdel
      · exact hes ⟨e', he', hdel⟩
    · intro h
      exact ⟨fun ⟨e', he', hdel⟩ => h ⟨e', List.mem_cons_of_mem _ he', hdel⟩,
        fun hdel => h ⟨e, List.mem_cons_self, hdel⟩⟩

/-- **Isolation**: the storage of `B` answers as before iff none of its stubs is deleted. -/
theorem unchanged_iff (hAB : A ≠ B) (es : List (Heap ChannelBuffer × Call)) (d : Database) :
    Unchanged env B d (run (call env A) es d) ↔
      ∀ id, Deletes es id → ∀ s ∈ stubData env B d, s.id ≠ id := by
  obtain ⟨hread, hvis⟩ := run_calls env hAB es d
  have hsame : ((stubData env B (run (call env A) es d)).map StubTables.contents).Perm
      ((stubData env B d).map StubTables.contents) ↔
        ∀ x ∈ StubTables.visible B d.stubs, ¬ Deletes es x.1 := by
    unfold stubData
    rw [← Multiset.coe_eq_coe, StubTables.contents_selectStubData,
      StubTables.contents_selectStubData, hvis, Multiset.filter_eq_self]
  constructor
  · rintro h id hdel s hs rfl
    refine hsame.mp h.stubData (StubTables.contents s) ?_ hdel
    rw [← StubTables.contents_selectStubData env.mapper]
    exact Multiset.mem_coe.mpr (List.mem_map_of_mem hs)
  · intro h
    refine ⟨hread, hsame.mpr fun x hx hdel => ?_⟩
    rw [← StubTables.contents_selectStubData env.mapper] at hx
    obtain ⟨s, hs, rfl⟩ := List.mem_map.mp (Multiset.mem_coe.mp hx)
    exact h _ hdel s hs rfl

/-- Strings compared unit by unit, rows as they are stored. -/
def plainEnv : DatabaseEnv := ⟨.fields, .binary, .plain⟩

/-- A data base in which link 2 has one stub, of id 1. -/
def oneStub : Database :=
  ⟨fun _ => none, [], 1,
    (StubTables.empty.insertStubData 2 ⟨0, some .and, none, some (lit "r")⟩).2.insertStubCondition 1
      ⟨some (lit "k"), some (lit "v")⟩⟩

/-- Link 1 deletes it. -/
theorem not_unchanged_deleteStubData :
    ¬ Unchanged plainEnv 2 oneStub
      (run (call plainEnv 1) [(⟨[]⟩, .deleteStubData 1)] oneStub) := by
  intro h
  have hlen := h.stubData.length_eq
  revert hlen
  decide

/-- Both directions where link 1 deletes a stub that is not there. -/
theorem unchanged_deleteStubData :
    Unchanged plainEnv 2 oneStub
        (run (call plainEnv 1) [(⟨[]⟩, .deleteStubData 7)] oneStub) ↔
      ∀ id, Deletes [(⟨[]⟩, .deleteStubData 7)] id → ∀ s ∈ stubData plainEnv 2 oneStub, s.id ≠ id :=
  unchanged_iff (by decide) _ oneStub

end Database

end Terminator.Storage
