import Mathlib.Data.List.Nodup
import Terminator.Storage.Streams

/-!
# Signing the index again

`signerChanged` of `FileStorage.java`. It goes over the ids of the link's rows, reads the bundle of
each, and updates the signature of the row.

The ids come from `selectDataIndexIDs`, whose `resultMap` is that of a row: what MyBatis puts into
the `List<Long>` are `DataIndex` objects with nothing but their id. `dataidList.get(i)` is passed to
`getbyID(Long)`, and this cast throws.

* `resigned_of_longs`: on a list of `Long` the loop signs the rows of the link and no other;
* **`resigns_iff`**: so `signerChanged` does what it is for iff the link has no row.
-/

namespace Terminator.Storage.FileStorage

open Terminator.Java Terminator.Netty

/-- What a select puts into its list. The properties of a `DataIndex` that are not selected stay
`null`. -/
inductive Selected where
  | long (value : Nat)
  | dataIndex (id linkId offset : Option Nat) (signature : Option JString)

/-- `(Long) o`. -/
def Selected.castLong : Selected → Except Throwable Nat
  | .long value => .ok value
  | .dataIndex .. => .error .classCast

/-- `Signer.sign` as a pure function: `none` is `null`. -/
abbrev Sign := Option (HttpObject ChannelBuffer) → Except Throwable JString

/-- `selectDataIndexIDs`: `select id from data_index where link_id = …`. -/
def selectDataIndexIDs (env : FileEnv) (f : FileStorage) : List Selected :=
  (rows env f).map fun row => .dataIndex (some row.id) none none none

/-- `selectDataIndexByID`: `where id = …`. -/
def selectDataIndexByID (f : FileStorage) (id : Nat) : Option DataIndex :=
  f.data_index.find? fun row => row.id == id

/-- `getbyID`: the bundle at the offset of the row, the empty one if there is no row. -/
def getbyID (env : FileEnv) (f : FileStorage) (dataId : Nat) :
    RequestResponseBundle ChannelBuffer :=
  match selectDataIndexByID f dataId with
  | none => .empty
  | some recordData => readAt env f recordData.offset

/-- `updateDataIndexSign`: `update data_index set signature = … where id = …`. -/
def updateDataIndexSign (id : Nat) (signature : JString) (f : FileStorage) : FileStorage :=
  { f with
    data_index := f.data_index.map fun row =>
      if row.id = id then { row with signature := signature } else row }

/-- The loop over `dataidList`. -/
def resign (env : FileEnv) (sign : Sign) : List Selected → Method FileStorage Unit
  | [] => pure ()
  | o :: dataidList => do
    let dataId ← fromExcept o.castLong
    let bundles := getbyID env (← get) dataId
    let key ← fromExcept (sign bundles.request)
    modify (updateDataIndexSign dataId key)
    resign env sign dataidList

/-- `signerChanged`. -/
def signerChanged (env : FileEnv) (sign : Sign) : Method FileStorage Unit := do
  let dataidList := selectDataIndexIDs env (← get)
  resign env sign dataidList

/-! ## What it is for -/

/-- The signer has a signature for the request of every row of the link. -/
def SignsAll (env : FileEnv) (sign : Sign) (f : FileStorage) : Prop :=
  ∀ row ∈ rows env f, ∃ key, sign (readAt env f row.offset).request = .ok key

/-- A row of the link has the signature of the request at its offset, and nothing else has
changed. -/
def RowResigned (env : FileEnv) (sign : Sign) (f : FileStorage) (row row' : DataIndex) : Prop :=
  row'.id = row.id ∧ row'.linkId = row.linkId ∧ row'.offset = row.offset ∧
    (row.linkId = env.linkId → sign (readAt env f row.offset).request = .ok row'.signature) ∧
    (row.linkId ≠ env.linkId → row'.signature = row.signature)

/-- `signerChanged` returns, and has signed exactly the rows of the link. -/
def Resigns (env : FileEnv) (sign : Sign) (f : FileStorage) : Prop :=
  ∃ f', (signerChanged env sign).run f = .ok () f' ∧
    List.Forall₂ (RowResigned env sign f) f.data_index f'.data_index

variable {env : FileEnv} {sign : Sign} {f : FileStorage}

/-! ## The loop on a list of `Long` -/

/-- The signature of the request of a row; the old one where the signer has none. -/
def signatureOf (env : FileEnv) (sign : Sign) (f : FileStorage) (row : DataIndex) : JString :=
  match sign (readAt env f row.offset).request with
  | .ok key => key
  | .error _ => row.signature

/-- A row, signed if it has one of these ids. -/
def signRow (env : FileEnv) (sign : Sign) (f : FileStorage) (ids : List Nat) (row : DataIndex) :
    DataIndex :=
  if row.id ∈ ids then { row with signature := signatureOf env sign f row } else row

/-- The storage with the rows of these ids signed. -/
def resigned (env : FileEnv) (sign : Sign) (f : FileStorage) (ids : List Nat) : FileStorage :=
  { f with data_index := f.data_index.map (signRow env sign f ids) }

theorem signatureOf_eq {row : DataIndex} {key : JString}
    (h : sign (readAt env f row.offset).request = .ok key) : signatureOf env sign f row = key := by
  simp [signatureOf, h]

/-- The primary key. -/
theorem eq_of_id_eq (hids : (f.data_index.map DataIndex.id).Nodup) {row row' : DataIndex}
    (hrow : row ∈ f.data_index) (hrow' : row' ∈ f.data_index) (h : row.id = row'.id) : row = row' :=
  List.inj_on_of_nodup_map hids hrow hrow' h

theorem getbyID_eq (hids : (f.data_index.map DataIndex.id).Nodup) {row : DataIndex}
    (hrow : row ∈ f.data_index) : getbyID env f row.id = readAt env f row.offset := by
  have hfind : selectDataIndexByID f row.id = some row := by
    unfold selectDataIndexByID
    cases h : f.data_index.find? fun r => r.id == row.id with
    | none =>
      have hnone := List.find?_eq_none.mp h row hrow
      simp at hnone
    | some r =>
      have hid : r.id = row.id := by simpa using List.find?_some h
      rw [eq_of_id_eq hids (List.mem_of_find?_eq_some h) hrow hid]
  unfold getbyID
  rw [hfind]

/-- An update of a signature. -/
theorem updateDataIndexSign_eq (hids : (f.data_index.map DataIndex.id).Nodup) {row : DataIndex}
    (hrow : row ∈ f.data_index) {key : JString}
    (hkey : sign (readAt env f row.offset).request = .ok key) :
    updateDataIndexSign row.id key f = resigned env sign f [row.id] := by
  unfold updateDataIndexSign resigned
  congr 1
  refine List.map_congr_left fun r hr => ?_
  by_cases hid : r.id = row.id
  · have heq := eq_of_id_eq hids hr hrow hid
    simp [signRow, heq, signatureOf_eq hkey]
  · simp [signRow, hid]

theorem ids_resigned (ids : List Nat) :
    (resigned env sign f ids).data_index.map DataIndex.id = f.data_index.map DataIndex.id := by
  unfold resigned
  rw [List.map_map]
  refine List.map_congr_left fun row _ => ?_
  simp only [Function.comp, signRow]
  split <;> rfl

/-- Signing a row does not change what the others are signed with. -/
theorem signRow_signRow (id : Nat) (ids : List Nat) (row : DataIndex) :
    signRow env sign (resigned env sign f [id]) ids (signRow env sign f [id] row) =
      signRow env sign f (id :: ids) row := by
  have hfile : ∀ r : DataIndex, signatureOf env sign (resigned env sign f [id]) r =
      signatureOf env sign f r := fun _ => rfl
  have htwice : signatureOf env sign f { row with signature := signatureOf env sign f row } =
      signatureOf env sign f row := by
    unfold signatureOf
    cases sign (readAt env f row.offset).request <;> rfl
  unfold signRow
  by_cases hid : row.id = id
  · subst hid
    by_cases hmem : row.id ∈ ids
    · simp [hmem, hfile, htwice]
    · simp [hmem]
  · by_cases hmem : row.id ∈ ids
    · simp [hid, hmem, hfile]
    · simp [hid, hmem]

theorem resigned_cons (id : Nat) (ids : List Nat) :
    resigned env sign (resigned env sign f [id]) ids = resigned env sign f (id :: ids) := by
  have hrow : signRow env sign (resigned env sign f [id]) ids ∘ signRow env sign f [id] =
      signRow env sign f (id :: ids) := by
    funext row
    exact signRow_signRow id ids row
  unfold resigned at hrow ⊢
  dsimp only
  rw [List.map_map, hrow]

theorem resigned_nil : resigned env sign f [] = f := by
  have hrow : signRow env sign f [] = id := by
    funext row
    simp [signRow]
  unfold resigned
  rw [hrow, List.map_id]

/-- **The loop on a list of `Long`** signs the rows with these ids. The induction is on the list;
the file and the ids of the table stay. -/
theorem run_resign_longs (ids : List Nat) : ∀ {f : FileStorage},
    (f.data_index.map DataIndex.id).Nodup →
    (∀ id ∈ ids, ∃ row ∈ f.data_index, row.id = id ∧
      ∃ key, sign (readAt env f row.offset).request = .ok key) →
    (resign env sign (ids.map .long)).run f = .ok () (resigned env sign f ids) := by
  induction ids with
  | nil =>
    intro f _ _
    rw [resigned_nil]
    rfl
  | cons id ids ih =>
    intro f hids hrows
    obtain ⟨row, hrow, rfl, key, hkey⟩ := hrows id List.mem_cons_self
    have hids' : ((resigned env sign f [row.id]).data_index.map DataIndex.id).Nodup := by
      rw [ids_resigned]
      exact hids
    have hrows' : ∀ id ∈ ids, ∃ r ∈ (resigned env sign f [row.id]).data_index, r.id = id ∧
        ∃ key, sign (readAt env (resigned env sign f [row.id]) r.offset).request = .ok key := by
      intro id hid
      obtain ⟨r, hr, hrid, hsign⟩ := hrows id (List.mem_cons_of_mem _ hid)
      refine ⟨_, List.mem_map_of_mem hr, ?_⟩
      unfold signRow
      split
      · exact ⟨hrid, hsign⟩
      · exact ⟨hrid, hsign⟩
    have hsign : (fromExcept (sign (getbyID env f row.id).request) :
        Method FileStorage JString).run f = .ok key f := by
      rw [getbyID_eq hids hrow, hkey, run_fromExcept_ok]
    have hupdate : (modify (updateDataIndexSign row.id key) : Method FileStorage Unit).run f
        = .ok () (resigned env sign f [row.id]) := by
      rw [← updateDataIndexSign_eq hids hrow hkey]
      rfl
    rw [List.map_cons, resign]
    refine (run_bind_of_ok (run_fromExcept_ok _ _)).trans ?_
    rw [run_get_bind]
    refine (run_bind_of_ok hsign).trans ?_
    refine (run_bind_of_ok hupdate).trans ?_
    rw [ih hids' hrows', resigned_cons]

/-- **With the ids as `Long`** the loop would sign exactly the rows of the link. -/
theorem resigned_of_longs (hids : (f.data_index.map DataIndex.id).Nodup)
    (hsign : SignsAll env sign f) :
    ∃ f', (resign env sign ((rows env f).map fun row => .long row.id)).run f = .ok () f' ∧
      List.Forall₂ (RowResigned env sign f) f.data_index f'.data_index := by
  have hmem : ∀ row ∈ f.data_index, row.id ∈ (rows env f).map DataIndex.id ↔
      row.linkId = env.linkId := by
    intro row hrow
    constructor
    · intro h
      obtain ⟨r, hr, hrid⟩ := List.mem_map.mp h
      obtain ⟨hr, hlink⟩ := List.mem_filter.mp hr
      rw [eq_of_id_eq hids hrow hr hrid.symm]
      exact beq_iff_eq.mp hlink
    · intro h
      exact List.mem_map_of_mem (List.mem_filter.mpr ⟨hrow, beq_iff_eq.mpr h⟩)
  have hrows : ∀ id ∈ (rows env f).map DataIndex.id, ∃ row ∈ f.data_index, row.id = id ∧
      ∃ key, sign (readAt env f row.offset).request = .ok key := by
    intro id hid
    obtain ⟨row, hrow, rfl⟩ := List.mem_map.mp hid
    exact ⟨row, (List.mem_filter.mp hrow).1, rfl, hsign row hrow⟩
  have hrun := run_resign_longs _ hids hrows
  rw [List.map_map] at hrun
  refine ⟨_, hrun, ?_⟩
  unfold resigned
  dsimp only
  rw [List.forall₂_map_right_iff, List.forall₂_same]
  intro row hrow
  unfold signRow
  by_cases hlink : row.linkId = env.linkId
  · obtain ⟨key, hkey⟩ := hsign row (List.mem_filter.mpr ⟨hrow, beq_iff_eq.mpr hlink⟩)
    rw [if_pos ((hmem row hrow).mpr hlink)]
    refine ⟨rfl, rfl, rfl, fun _ => ?_, fun hne => absurd hlink hne⟩
    rw [hkey, signatureOf_eq hkey]
  · rw [if_neg (mt (hmem row hrow).mp hlink)]
    exact ⟨rfl, rfl, rfl, fun h => absurd h hlink, fun _ => rfl⟩

/-! ## The list the mapper fills -/

/-- **The first id is not a `Long`**: nothing is read and nothing is signed. -/
theorem signerChanged_of_row (sign : Sign) (h : rows env f ≠ []) :
    (signerChanged env sign).run f = .error .classCast f := by
  obtain ⟨row, rest, hrows⟩ := List.exists_cons_of_ne_nil h
  have hselect : selectDataIndexIDs env f = .dataIndex (some row.id) none none none ::
      rest.map fun row => .dataIndex (some row.id) none none none := by
    unfold selectDataIndexIDs
    rw [hrows, List.map_cons]
  unfold signerChanged
  rw [run_get_bind]
  dsimp only
  rw [hselect, resign]
  exact run_bind_of_error (run_fromExcept_error _ _)

theorem signerChanged_of_no_row (sign : Sign) (h : rows env f = []) :
    (signerChanged env sign).run f = .ok () f := by
  have hselect : selectDataIndexIDs env f = [] := by
    unfold selectDataIndexIDs
    rw [h, List.map_nil]
  unfold signerChanged
  rw [run_get_bind]
  dsimp only
  rw [hselect]
  rfl

/-- **`signerChanged` signs the index again exactly where there is nothing to sign**, whatever the
signer. -/
theorem resigns_iff (env : FileEnv) (sign : Sign) (f : FileStorage) :
    Resigns env sign f ↔ rows env f = [] := by
  constructor
  · rintro ⟨f', hrun, -⟩
    by_contra hrows
    rw [signerChanged_of_row sign hrows] at hrun
    cases hrun
  · intro hrows
    refine ⟨f, signerChanged_of_no_row sign hrows, List.forall₂_same.mpr fun row hrow => ?_⟩
    have hlink : row.linkId ≠ env.linkId := by
      intro hlink
      have hmem : row ∈ rows env f := List.mem_filter.mpr ⟨hrow, beq_iff_eq.mpr hlink⟩
      rw [hrows] at hmem
      exact absurd hmem List.not_mem_nil
    exact ⟨rfl, rfl, rfl, fun h => absurd h hlink, fun _ => rfl⟩

/-- A signer of the URI. -/
def uriSign : Sign
  | some (.request q) => .ok q.uri
  | some _ => .error .classCast
  | none => .error .nullPointer

/-- One request was recorded for link 1. -/
def recordedOne : FileStorage :=
  put (fileEnv 1) .complete (lit "old") ⟨some (.request (.get "/a")), none⟩ ⟨none, [], 0⟩

/-- The signer has a signature for it, and the row keeps the old one. -/
theorem not_resigns_recordedOne :
    SignsAll (fileEnv 1) uriSign recordedOne ∧ ¬Resigns (fileEnv 1) uriSign recordedOne := by
  constructor
  · intro row hrow
    have hrows : rows (fileEnv 1) recordedOne = [⟨0, 1, 0, lit "old"⟩] := rfl
    rw [hrows, List.mem_singleton] at hrow
    subst hrow
    exact ⟨lit "/a", by decide +kernel⟩
  · rintro ⟨f', hrun, -⟩
    have hrows : rows (fileEnv 1) recordedOne ≠ [] := List.cons_ne_nil _ _
    rw [signerChanged_of_row uriSign hrows] at hrun
    cases hrun

end Terminator.Storage.FileStorage
