import Mathlib.Data.List.Dedup
import Mathlib.Data.List.Induction
import Mathlib.Data.Multiset.Dedup
import Terminator.Plugin.Matcher

/-!
# The tables of the stubs

The statements and the result map of `StubDataMapper.xml` over the tables `stub_data` and
`stub_condition`, which all links share. `selectStubData` joins the two tables, so a stub without a
condition is not found. The result map makes one stub of the rows with one `id`; its nested map has
no `id` column, so that a condition of a stub that equals one it has already is not added again.

The order in which the data base returns the rows of the join, and how MyBatis adds a nested object
to a collection, are parameters (`Mapper`).

**`contents_selectStubData`**: as far as the order of the rows does not matter, `selectStubData`
returns the stubs of the link that have a condition, each with its different conditions.
-/

namespace Terminator.Storage

open Terminator.Java Terminator.Plugin

/-- A row of `stub_data`, without the columns nothing reads. -/
structure StubDataRow where
  id : Nat
  linkId : Nat
  operator : Option Operator
  response : Option JString
  deriving DecidableEq

/-- A row of `stub_condition`. -/
structure StubConditionRow where
  stubDataId : Nat
  condition : StubCondition
  deriving DecidableEq

/-- The two tables, and the next value of the key of `stub_data`. -/
structure StubTables where
  stub_data : List StubDataRow
  stub_condition : List StubConditionRow
  autoIncrement : Nat
  ids_nodup : (stub_data.map StubDataRow.id).Nodup
  ids_lt : ∀ a ∈ stub_data, a.id < autoIncrement

/-- A row of `selectStubData`. -/
structure StubRow where
  id : Nat
  operator : Option Operator
  response : Option JString
  condition : StubCondition

/-- What the statements leave to the data base and to MyBatis: the order of the rows, and what
becomes of a collection when a nested object is read that it may have already. -/
structure Mapper where
  order : StubTables → List StubRow → List StubRow
  link : List StubCondition → StubCondition → List StubCondition
  order_perm : ∀ t rows, (order t rows).Perm rows
  link_new : ∀ conditions c, c ∉ conditions → link conditions c = conditions ++ [c]
  link_known : ∀ conditions c, c ∈ conditions → link conditions c = conditions

/-- The rows as they are stored, and a collection without repetition. -/
def Mapper.plain : Mapper where
  order _ rows := rows
  link conditions c := if c ∈ conditions then conditions else conditions ++ [c]
  order_perm _ _ := .refl _
  link_new _ _ h := if_neg h
  link_known _ _ h := if_pos h

namespace StubTables

/-- Tables without rows. -/
def empty : StubTables := ⟨[], [], 1, List.nodup_nil, fun _ ha => absurd ha List.not_mem_nil⟩

/-- `insertStubData`, with the key it generates. -/
def insertStubData (linkId : Nat) (stubData : StubData) (t : StubTables) : Nat × StubTables :=
  (t.autoIncrement,
    { t with
      stub_data := t.stub_data ++
        [⟨t.autoIncrement, linkId, stubData.operator, stubData.response⟩]
      autoIncrement := t.autoIncrement + 1
      ids_nodup := by
        rw [List.map_append, List.nodup_append]
        refine ⟨t.ids_nodup, List.nodup_singleton _, ?_⟩
        intro id hid id' hid' heq
        obtain ⟨a, ha, rfl⟩ := List.mem_map.mp hid
        have hlt := t.ids_lt a ha
        rw [heq, List.mem_singleton.mp hid'] at hlt
        exact Nat.lt_irrefl _ hlt
      ids_lt := by
        intro a ha
        rcases List.mem_append.mp ha with ha | ha
        · exact Nat.lt_succ_of_lt (t.ids_lt a ha)
        · rw [List.mem_singleton.mp ha]
          exact Nat.lt_succ_self _ })

/-- `insertStubCondition`. -/
def insertStubCondition (stubDataId : Nat) (con : StubCondition) (t : StubTables) : StubTables :=
  { t with stub_condition := t.stub_condition ++ [⟨stubDataId, con⟩] }

/-- The loop of `putStubData`. -/
def insertStubConditions (stubDataId : Nat) (conditions : List StubCondition) (t : StubTables) :
    StubTables := conditions.foldl (fun t con => t.insertStubCondition stubDataId con) t

/-- `deleteStubData`: `delete from stub_data where id = #{id}`. -/
def deleteStubData (id : Nat) (t : StubTables) : StubTables :=
  { t with
    stub_data := t.stub_data.filter fun a => a.id != id
    ids_nodup := t.ids_nodup.sublist (List.filter_sublist.map _)
    ids_lt := fun a ha => t.ids_lt a (List.mem_of_mem_filter ha) }

/-- `deleteStubCondition`. -/
def deleteStubCondition (stubDataId : Nat) (t : StubTables) : StubTables :=
  { t with stub_condition := t.stub_condition.filter fun b => b.stubDataId != stubDataId }

/-- The conditions stored for a stub. -/
def conditionsOf (t : StubTables) (id : Nat) : List StubCondition :=
  (t.stub_condition.filter fun b => b.stubDataId == id).map StubConditionRow.condition

/-- `where link_id = #{linkId} and A.id = B.stub_data_id`. -/
def join (t : StubTables) (linkId : Nat) : List StubRow :=
  (t.stub_data.filter fun a => a.linkId == linkId).flatMap fun a =>
    (t.conditionsOf a.id).map fun c => ⟨a.id, a.operator, a.response, c⟩

/-- `StubDataMap`: a row belongs to the stub with its `id`, a new one if there is none. -/
def stubDataMap (m : Mapper) (stubs : List StubData) (row : StubRow) : List StubData :=
  match stubs with
  | [] => [⟨row.id, row.operator, some [row.condition], row.response⟩]
  | s :: stubs =>
    if s.id = row.id then
      { s with conditions := some (m.link (s.conditions.getD []) row.condition) } :: stubs
    else s :: stubDataMap m stubs row

/-- `selectStubData`. -/
def selectStubData (m : Mapper) (linkId : Nat) (t : StubTables) : List StubData :=
  (m.order t (t.join linkId)).foldl (stubDataMap m) []

/-! ## What is selected -/

/-- What a stub says, whatever the order of its conditions. -/
def contents (s : StubData) : Nat × Option Operator × Multiset StubCondition × Option JString :=
  (s.id, s.operator, ((s.conditions.getD [] : List StubCondition) : Multiset StubCondition),
    s.response)

/-- The stubs of a link that have a condition, each with its different ones. -/
def visible (linkId : Nat) (t : StubTables) :
    Multiset (Nat × Option Operator × Multiset StubCondition × Option JString) :=
  (((t.stub_data.filter fun a => a.linkId == linkId && !(t.conditionsOf a.id).isEmpty).map
    fun a =>
      (a.id, a.operator, ((t.conditionsOf a.id).dedup : Multiset StubCondition), a.response) :
        List _) : Multiset _)

variable {m : Mapper} {t : StubTables} {rows : List StubRow} {stubs : List StubData}

/-- A stub is made of the rows with its `id`. -/
structure MadeOf (rows : List StubRow) (s : StubData) : Prop where
  row : ∃ r ∈ rows, r.id = s.id ∧ r.operator = s.operator ∧ r.response = s.response
  conditions : ∃ cs, s.conditions = some cs ∧ cs.Nodup ∧
    ∀ c, c ∈ cs ↔ ∃ r ∈ rows, r.id = s.id ∧ r.condition = c

/-- Every row belongs to one stub, and every stub is made of its rows. -/
structure Grouped (rows : List StubRow) (stubs : List StubData) : Prop where
  nodup : (stubs.map StubData.id).Nodup
  madeOf : ∀ s ∈ stubs, MadeOf rows s
  covers : ∀ r ∈ rows, ∃ s ∈ stubs, s.id = r.id

/-- One more row goes to the stub with its `id`, or is a new one. -/
theorem stubDataMap_cases (m : Mapper) (row : StubRow) (stubs : List StubData) :
    (∃ l s l', stubs = l ++ s :: l' ∧ (∀ s ∈ l, s.id ≠ row.id) ∧ s.id = row.id ∧
      stubDataMap m stubs row =
        l ++ { s with conditions := some (m.link (s.conditions.getD []) row.condition) } :: l') ∨
    ((∀ s ∈ stubs, s.id ≠ row.id) ∧ stubDataMap m stubs row =
      stubs ++ [⟨row.id, row.operator, some [row.condition], row.response⟩]) := by
  induction stubs with
  | nil => exact .inr ⟨fun s hs => absurd hs List.not_mem_nil, rfl⟩
  | cons s stubs ih =>
    unfold stubDataMap
    by_cases hs : s.id = row.id
    · rw [if_pos hs]
      exact .inl ⟨[], s, stubs, rfl, fun s hs => absurd hs List.not_mem_nil, hs, rfl⟩
    · rw [if_neg hs]
      rcases ih with ⟨l, s', l', rfl, hl, hs', hmap⟩ | ⟨hall, hmap⟩
      · exact .inl ⟨s :: l, s', l', rfl, List.forall_mem_cons.mpr ⟨hs, hl⟩, hs', by rw [hmap]; rfl⟩
      · exact .inr ⟨List.forall_mem_cons.mpr ⟨hs, hall⟩, by rw [hmap]; rfl⟩

/-- A row of another stub changes nothing. -/
theorem MadeOf.skip {s : StubData} (h : MadeOf rows s) {row : StubRow} (hne : s.id ≠ row.id) :
    MadeOf (rows ++ [row]) s := by
  obtain ⟨⟨r, hr, hrow⟩, cs, hcs, hnodup, hmem⟩ := h
  refine ⟨⟨r, List.mem_append_left _ hr, hrow⟩, cs, hcs, hnodup, fun c => ?_⟩
  rw [hmem]
  constructor
  · rintro ⟨r, hr, hc⟩
    exact ⟨r, List.mem_append_left _ hr, hc⟩
  · rintro ⟨r, hr, hid, hc⟩
    rcases List.mem_append.mp hr with hr | hr
    · exact ⟨r, hr, hid, hc⟩
    · rw [List.mem_singleton.mp hr] at hid
      exact absurd hid.symm hne

/-- A row of the stub adds its condition, unless the stub has it. -/
theorem MadeOf.link {s : StubData} (h : MadeOf rows s) {row : StubRow} (hid : s.id = row.id) :
    MadeOf (rows ++ [row])
      { s with conditions := some (m.link (s.conditions.getD []) row.condition) } := by
  obtain ⟨⟨r, hr, hrow⟩, cs, hcs, hnodup, hmem⟩ := h
  have hiff : ∀ c, (∃ r ∈ rows ++ [row], r.id = s.id ∧ r.condition = c) ↔
      c ∈ cs ∨ c = row.condition := by
    intro c
    rw [hmem]
    constructor
    · rintro ⟨r, hr, hrid, hc⟩
      rcases List.mem_append.mp hr with hr | hr
      · exact .inl ⟨r, hr, hrid, hc⟩
      · rw [List.mem_singleton.mp hr] at hc
        exact .inr hc.symm
    · rintro (⟨r, hr, hc⟩ | rfl)
      · exact ⟨r, List.mem_append_left _ hr, hc⟩
      · exact ⟨row, List.mem_append_right _ (List.mem_singleton_self row), hid.symm, rfl⟩
  refine ⟨⟨r, List.mem_append_left _ hr, hrow⟩, m.link cs row.condition, by rw [hcs]; rfl, ?_, ?_⟩
  · by_cases hin : row.condition ∈ cs
    · rw [m.link_known cs _ hin]
      exact hnodup
    · rw [m.link_new cs _ hin]
      exact List.nodup_append.mpr ⟨hnodup, List.nodup_singleton _, fun c hc c' hc' heq =>
        hin (List.mem_singleton.mp hc' ▸ heq ▸ hc)⟩
  · intro c
    refine Iff.trans ?_ (hiff c).symm
    by_cases hin : row.condition ∈ cs
    · rw [m.link_known cs _ hin]
      exact ⟨.inl, fun h => h.elim id fun hc => hc ▸ hin⟩
    · rw [m.link_new cs _ hin, List.mem_append, List.mem_singleton]

/-- The first row of a stub makes it. -/
theorem madeOf_new {row : StubRow} (hnew : ∀ r ∈ rows, r.id ≠ row.id) :
    MadeOf (rows ++ [row]) ⟨row.id, row.operator, some [row.condition], row.response⟩ := by
  have hmem : row ∈ rows ++ [row] := List.mem_append_right _ (List.mem_singleton_self row)
  refine ⟨⟨row, hmem, rfl, rfl, rfl⟩, _, rfl, List.nodup_singleton _, fun c => ?_⟩
  rw [List.mem_singleton]
  constructor
  · rintro rfl
    exact ⟨row, hmem, rfl, rfl⟩
  · rintro ⟨r, hr, hid, hc⟩
    rcases List.mem_append.mp hr with hr | hr
    · exact absurd hid (hnew r hr)
    · rw [List.mem_singleton.mp hr] at hc
      exact hc.symm

/-- **One more row.** -/
theorem Grouped.row (h : Grouped rows stubs) (row : StubRow) :
    Grouped (rows ++ [row]) (stubDataMap m stubs row) := by
  rcases stubDataMap_cases m row stubs with ⟨l, s, l', rfl, _, hid, hmap⟩ | ⟨hall, hmap⟩
  · rw [hmap]
    have hids : (l ++ s :: l').map StubData.id =
        l.map StubData.id ++ s.id :: l'.map StubData.id := by
      rw [List.map_append, List.map_cons]
    have hother : ∀ s' ∈ l ++ l', s'.id ≠ row.id := by
      intro s' hs' heq
      have hnodup := h.nodup
      rw [hids, List.nodup_middle, List.nodup_cons, ← List.map_append, hid, ← heq] at hnodup
      exact hnodup.1 (List.mem_map_of_mem hs')
    refine ⟨by rw [List.map_append, List.map_cons, ← hids]; exact h.nodup, ?_, ?_⟩
    · intro s' hs'
      rcases List.mem_append.mp hs' with hs' | hs'
      · exact (h.madeOf s' (List.mem_append_left _ hs')).skip
          (hother s' (List.mem_append_left _ hs'))
      · rcases List.mem_cons.mp hs' with rfl | hs'
        · exact (h.madeOf s (List.mem_append_right _ List.mem_cons_self)).link hid
        · exact (h.madeOf s' (List.mem_append_right _ (List.mem_cons_of_mem _ hs'))).skip
            (hother s' (List.mem_append_right _ hs'))
    · intro r hr
      rcases List.mem_append.mp hr with hr | hr
      · obtain ⟨s', hs', hrid⟩ := h.covers r hr
        rcases List.mem_append.mp hs' with hs' | hs'
        · exact ⟨s', List.mem_append_left _ hs', hrid⟩
        · rcases List.mem_cons.mp hs' with rfl | hs'
          · exact ⟨_, List.mem_append_right _ List.mem_cons_self, hrid⟩
          · exact ⟨s', List.mem_append_right _ (List.mem_cons_of_mem _ hs'), hrid⟩
      · rw [List.mem_singleton.mp hr]
        exact ⟨_, List.mem_append_right _ List.mem_cons_self, hid⟩
  · rw [hmap]
    have hnew : ∀ r ∈ rows, r.id ≠ row.id := by
      intro r hr heq
      obtain ⟨s, hs, hid⟩ := h.covers r hr
      exact hall s hs (hid.trans heq)
    refine ⟨?_, ?_, ?_⟩
    · rw [List.map_append, List.nodup_append]
      refine ⟨h.nodup, List.nodup_singleton _, ?_⟩
      intro id hid id' hid' heq
      obtain ⟨s, hs, rfl⟩ := List.mem_map.mp hid
      exact hall s hs (heq.trans (List.mem_singleton.mp hid'))
    · intro s hs
      rcases List.mem_append.mp hs with hs | hs
      · exact (h.madeOf s hs).skip (hall s hs)
      · rw [List.mem_singleton.mp hs]
        exact madeOf_new hnew
    · intro r hr
      rcases List.mem_append.mp hr with hr | hr
      · obtain ⟨s, hs, hid⟩ := h.covers r hr
        exact ⟨s, List.mem_append_left _ hs, hid⟩
      · rw [List.mem_singleton.mp hr]
        exact ⟨_, List.mem_append_right _ (List.mem_singleton_self _), rfl⟩

/-- The rows of a query are grouped by their `id`, in whatever order they come. -/
theorem grouped_foldl (m : Mapper) (rows : List StubRow) :
    Grouped rows (rows.foldl (stubDataMap m) []) := by
  induction rows using List.reverseRecOn with
  | nil => exact ⟨List.nodup_nil, fun s hs => absurd hs List.not_mem_nil,
      fun r hr => absurd hr List.not_mem_nil⟩
  | append_singleton rows row ih =>
    rw [List.foldl_append]
    exact ih.row row

/-- The order of the rows does not matter to what a stub is made of. -/
theorem Grouped.of_perm {rows' : List StubRow} (h : Grouped rows stubs) (hperm : rows.Perm rows') :
    Grouped rows' stubs where
  nodup := h.nodup
  madeOf s hs := by
    obtain ⟨⟨r, hr, hrow⟩, cs, hcs, hnodup, hmem⟩ := h.madeOf s hs
    refine ⟨⟨r, hperm.mem_iff.mp hr, hrow⟩, cs, hcs, hnodup, fun c => (hmem c).trans ?_⟩
    simp only [hperm.mem_iff]
  covers r hr := h.covers r (hperm.mem_iff.mpr hr)

theorem mem_join {t : StubTables} {linkId : Nat} {r : StubRow} :
    r ∈ t.join linkId ↔ ∃ a ∈ t.stub_data, a.linkId = linkId ∧ ∃ c ∈ t.conditionsOf a.id,
      r = ⟨a.id, a.operator, a.response, c⟩ := by
  unfold join
  simp only [List.mem_flatMap, List.mem_filter, List.mem_map, beq_iff_eq]
  constructor
  · rintro ⟨a, ⟨ha, hlink⟩, c, hc, rfl⟩
    exact ⟨a, ha, hlink, c, hc, rfl⟩
  · rintro ⟨a, ha, hlink, c, hc, rfl⟩
    exact ⟨a, ⟨ha, hlink⟩, c, hc, rfl⟩

/-- The `id` is the key of the table. -/
theorem eq_of_id {a a' : StubDataRow} (ha : a ∈ t.stub_data) (ha' : a' ∈ t.stub_data)
    (h : a.id = a'.id) : a = a' := List.inj_on_of_nodup_map t.ids_nodup ha ha' h

/-- A stub that is made of the rows of the join is the one of a row of `stub_data`. -/
theorem contents_of_madeOf {linkId : Nat} {s : StubData} (h : MadeOf (t.join linkId) s) :
    ∃ a ∈ t.stub_data, a.linkId = linkId ∧ t.conditionsOf a.id ≠ [] ∧ contents s
      = (a.id, a.operator, ((t.conditionsOf a.id).dedup : Multiset StubCondition), a.response) := by
  obtain ⟨⟨r, hr, hid, hop, hresp⟩, cs, hcs, hnodup, hmem⟩ := h
  obtain ⟨a, ha, hlink, c, hc, rfl⟩ := mem_join.mp hr
  have hperm : cs.Perm (t.conditionsOf a.id).dedup := by
    rw [List.perm_ext_iff_of_nodup hnodup (List.nodup_dedup _)]
    intro c'
    rw [hmem, List.mem_dedup]
    constructor
    · rintro ⟨r', hr', hid', rfl⟩
      obtain ⟨a', ha', -, c', hc', rfl⟩ := mem_join.mp hr'
      rw [eq_of_id ha ha' (hid.trans hid'.symm)]
      exact hc'
    · exact fun hc' => ⟨_, mem_join.mpr ⟨a, ha, hlink, c', hc', rfl⟩, hid, rfl⟩
  refine ⟨a, ha, hlink, List.ne_nil_of_mem hc, ?_⟩
  unfold contents
  rw [← hid, ← hop, ← hresp, hcs, Option.getD_some, Multiset.coe_eq_coe.mpr hperm]

/-- **What `selectStubData` returns**, but for the order. -/
theorem contents_selectStubData (m : Mapper) (linkId : Nat) (t : StubTables) :
    (((selectStubData m linkId t).map contents : List _) : Multiset _) = visible linkId t := by
  have hgroup : Grouped (t.join linkId) (selectStubData m linkId t) :=
    (grouped_foldl m _).of_perm (m.order_perm t _)
  have hnodup : ((selectStubData m linkId t).map contents).Nodup := by
    refine List.Nodup.of_map Prod.fst ?_
    rw [List.map_map]
    exact hgroup.nodup
  have hvisible : (visible linkId t).Nodup := by
    refine Multiset.coe_nodup.mpr (List.Nodup.of_map Prod.fst ?_)
    rw [List.map_map]
    exact t.ids_nodup.sublist (List.filter_sublist.map _)
  refine (Multiset.Nodup.ext (Multiset.coe_nodup.mpr hnodup) hvisible).mpr fun x => ?_
  unfold visible
  simp only [Multiset.mem_coe, List.mem_map, List.mem_filter, Bool.and_eq_true, beq_iff_eq,
    Bool.not_eq_true', List.isEmpty_eq_false_iff]
  constructor
  · rintro ⟨s, hs, rfl⟩
    obtain ⟨a, ha, hlink, hne, hcontents⟩ := contents_of_madeOf (hgroup.madeOf s hs)
    exact ⟨a, ⟨ha, hlink, hne⟩, hcontents.symm⟩
  · rintro ⟨a, ⟨ha, hlink, hne⟩, rfl⟩
    obtain ⟨c, hc⟩ := List.exists_mem_of_ne_nil _ hne
    obtain ⟨s, hs, hid⟩ := hgroup.covers _ (mem_join.mpr ⟨a, ha, hlink, c, hc, rfl⟩)
    obtain ⟨a', ha', -, -, hcontents⟩ := contents_of_madeOf (hgroup.madeOf s hs)
    have hsame : a' = a := eq_of_id ha' ha ((congrArg Prod.fst hcontents).symm.trans hid)
    rw [hsame] at hcontents
    exact ⟨s, hs, hcontents⟩

/-! ## Frame -/

/-- A link sees its own stubs and their conditions. -/
theorem visible_congr {t' : StubTables} {linkId : Nat}
    (hdata : t'.stub_data.filter (fun a => a.linkId == linkId)
      = t.stub_data.filter fun a => a.linkId == linkId)
    (hcond : ∀ a ∈ t.stub_data, a.linkId = linkId → t'.conditionsOf a.id = t.conditionsOf a.id) :
    visible linkId t' = visible linkId t := by
  have hsplit : ∀ u : StubTables,
      u.stub_data.filter (fun a => a.linkId == linkId && !(u.conditionsOf a.id).isEmpty)
        = (u.stub_data.filter fun a => a.linkId == linkId).filter
          fun a => !(u.conditionsOf a.id).isEmpty := by
    intro u
    rw [List.filter_filter]
    congr 1
    funext a
    exact Bool.and_comm _ _
  have hmem : ∀ a ∈ t.stub_data.filter (fun a => a.linkId == linkId),
      t'.conditionsOf a.id = t.conditionsOf a.id := by
    intro a ha
    obtain ⟨ha, hlink⟩ := List.mem_filter.mp ha
    exact hcond a ha (beq_iff_eq.mp hlink)
  unfold visible
  rw [hsplit t', hsplit t, hdata, List.filter_congr fun a ha => by rw [hmem a ha]]
  refine congrArg _ (List.map_congr_left fun a ha => ?_)
  rw [hmem a (List.mem_of_mem_filter ha)]

/-- `insertStubCondition` reaches the stub it names. -/
theorem conditionsOf_insertStubCondition (id : Nat) (con : StubCondition) (t : StubTables)
    (id' : Nat) : (insertStubCondition id con t).conditionsOf id'
      = t.conditionsOf id' ++ if id = id' then [con] else [] := by
  unfold conditionsOf insertStubCondition
  rw [List.filter_append, List.map_append, List.filter_singleton]
  by_cases h : id = id'
  · simp [h]
  · have hbeq : (id == id') = false := beq_eq_false_iff_ne.mpr h
    simp only [hbeq, cond_false, if_neg h, List.map_nil]

theorem stub_data_insertStubConditions (id : Nat) (conditions : List StubCondition)
    (t : StubTables) : (insertStubConditions id conditions t).stub_data = t.stub_data := by
  induction conditions generalizing t with
  | nil => rfl
  | cons con conditions ih => exact ih (t.insertStubCondition id con)

theorem conditionsOf_insertStubConditions (id : Nat) (conditions : List StubCondition)
    (t : StubTables) (id' : Nat) : (insertStubConditions id conditions t).conditionsOf id'
      = t.conditionsOf id' ++ if id = id' then conditions else [] := by
  induction conditions generalizing t with
  | nil => simp [insertStubConditions]
  | cons con conditions ih =>
    refine (ih (t.insertStubCondition id con)).trans ?_
    rw [conditionsOf_insertStubCondition, List.append_assoc]
    by_cases h : id = id'
    · rw [if_pos h, if_pos h, if_pos h, List.singleton_append]
    · rw [if_neg h, if_neg h, if_neg h, List.append_nil]

/-- **Inserting a stub** is seen by its link only. -/
theorem visible_insertStub {linkId linkId' : Nat} (hne : linkId ≠ linkId') (s : StubData)
    (conditions : List StubCondition) (t : StubTables) :
    visible linkId' (insertStubConditions t.autoIncrement conditions (t.insertStubData linkId s).2)
      = visible linkId' t := by
  refine visible_congr ?_ fun a ha _ => ?_
  · rw [stub_data_insertStubConditions]
    unfold insertStubData
    simp only [List.filter_append, List.filter_singleton, beq_eq_false_iff_ne.mpr hne, cond_false,
      List.append_nil]
  · have hid : t.autoIncrement ≠ a.id := (Nat.ne_of_lt (t.ids_lt a ha)).symm
    rw [conditionsOf_insertStubConditions, if_neg hid, List.append_nil]
    rfl

@[simp] theorem autoIncrement_insertStub (id linkId : Nat) (s : StubData)
    (conditions : List StubCondition) (t : StubTables) :
    (insertStubConditions id conditions (t.insertStubData linkId s).2).autoIncrement
      = t.autoIncrement + 1 := by
  have hloop : ∀ (conditions : List StubCondition) (u : StubTables),
      (insertStubConditions id conditions u).autoIncrement = u.autoIncrement := by
    intro conditions
    induction conditions with
    | nil => exact fun _ => rfl
    | cons con conditions ih => exact fun u => ih (u.insertStubCondition id con)
  exact hloop conditions _

/-- No condition is stored for a stub that is yet to come. -/
def NoStray (t : StubTables) : Prop := ∀ b ∈ t.stub_condition, b.stubDataId < t.autoIncrement

theorem NoStray.insertStub (h : NoStray t) (linkId : Nat) (s : StubData)
    (conditions : List StubCondition) : NoStray
      (insertStubConditions t.autoIncrement conditions (t.insertStubData linkId s).2) := by
  have hloop : ∀ (conditions : List StubCondition) (u : StubTables), NoStray u →
      t.autoIncrement < u.autoIncrement →
      NoStray (insertStubConditions t.autoIncrement conditions u) := by
    intro conditions
    induction conditions with
    | nil => exact fun u hu _ => hu
    | cons con conditions ih =>
      intro u hu hlt
      refine ih (u.insertStubCondition t.autoIncrement con) (fun b hb => ?_) hlt
      rcases List.mem_append.mp hb with hb | hb
      · exact hu b hb
      · rw [List.mem_singleton.mp hb]
        exact hlt
  exact hloop conditions _ (fun b hb => Nat.lt_succ_of_lt (h b hb)) (Nat.lt_succ_self _)

theorem NoStray.deleteStub (h : NoStray t) (id : Nat) :
    NoStray ((t.deleteStubData id).deleteStubCondition id) :=
  fun b hb => h b (List.mem_of_mem_filter hb)

/-- **A stub with a condition is seen** by its link. -/
theorem visible_insertStub_self (h : NoStray t) (linkId : Nat) (s : StubData)
    {conditions : List StubCondition} (hne : conditions ≠ []) :
    visible linkId (insertStubConditions t.autoIncrement conditions (t.insertStubData linkId s).2)
      = visible linkId t + {(t.autoIncrement, s.operator,
          (conditions.dedup : Multiset StubCondition), s.response)} := by
  have hnew : t.conditionsOf t.autoIncrement = [] := by
    unfold conditionsOf
    rw [List.map_eq_nil_iff, List.filter_eq_nil_iff]
    intro b hb
    rw [beq_iff_eq]
    exact Nat.ne_of_lt (h b hb)
  let u := insertStubConditions t.autoIncrement conditions (t.insertStubData linkId s).2
  have hdata : u.stub_data
      = t.stub_data ++ [⟨t.autoIncrement, linkId, s.operator, s.response⟩] :=
    stub_data_insertStubConditions _ _ _
  have hcond : ∀ id, u.conditionsOf id
      = t.conditionsOf id ++ if t.autoIncrement = id then conditions else [] :=
    conditionsOf_insertStubConditions t.autoIncrement conditions _
  have hold : ∀ a ∈ t.stub_data, u.conditionsOf a.id = t.conditionsOf a.id := by
    intro a ha
    rw [hcond, if_neg (Nat.ne_of_lt (t.ids_lt a ha)).symm, List.append_nil]
  have hself : u.conditionsOf t.autoIncrement = conditions := by
    rw [hcond, hnew, if_pos rfl, List.nil_append]
  show visible linkId u = _
  unfold visible
  rw [hdata, List.filter_append, List.map_append, ← Multiset.coe_add]
  congr 1
  · rw [List.filter_congr fun a ha => by rw [hold a ha]]
    exact congrArg _ (List.map_congr_left fun a ha => by rw [hold a (List.mem_of_mem_filter ha)])
  · have hempty : conditions.isEmpty = false := List.isEmpty_eq_false_iff.mpr hne
    rw [List.filter_singleton, hself, hempty, beq_self_eq_true, Bool.not_false, Bool.and_true,
      cond_true, List.map_singleton, hself]
    rfl

/-- **Deleting a stub** takes it away from whichever link has it. -/
theorem visible_deleteStub (linkId id : Nat) (t : StubTables) :
    visible linkId ((t.deleteStubData id).deleteStubCondition id)
      = (visible linkId t).filter fun x => x.1 ≠ id := by
  have hcond : ∀ a : StubDataRow, a.id ≠ id →
      ((t.deleteStubData id).deleteStubCondition id).conditionsOf a.id = t.conditionsOf a.id := by
    intro a ha
    unfold conditionsOf deleteStubCondition deleteStubData
    rw [List.filter_filter]
    congr 2
    funext b
    by_cases hb : b.stubDataId = a.id
    · simp [hb, ha]
    · simp [hb]
  have hdata : ((t.deleteStubData id).deleteStubCondition id).stub_data
      = t.stub_data.filter fun a => a.id != id := rfl
  unfold visible
  rw [Multiset.filter_coe, List.filter_map, hdata, List.filter_filter, List.filter_filter]
  have hfilter : ∀ a ∈ t.stub_data,
      ((a.linkId == linkId &&
          !(((t.deleteStubData id).deleteStubCondition id).conditionsOf a.id).isEmpty) &&
          a.id != id)
        = (decide (a.id ≠ id) && (a.linkId == linkId && !(t.conditionsOf a.id).isEmpty)) := by
    intro a _
    by_cases ha : a.id = id
    · simp [ha]
    · rw [hcond a ha, Bool.and_comm]
      simp [ha]
  rw [List.filter_congr hfilter]
  refine congrArg _ (List.map_congr_left fun a ha => ?_)
  have ha' : a.id ≠ id := by
    have := (List.mem_filter.mp ha).2
    rw [Bool.and_eq_true] at this
    exact of_decide_eq_true this.1
  rw [hcond a ha']

end StubTables

end Terminator.Storage
