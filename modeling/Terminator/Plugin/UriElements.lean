import Terminator.Java.Split
import Terminator.Plugin.Extractor

/-!
# The elements of a URI

`UriElementGetter.getUri` cuts the URI at `?`, the second entry at `&` and each entry of that at
`=`, and indexes what it gets. `split` drops empty entries at the end, so an index may be missing,
and it cuts at every separator, so what stands behind a second `?` or `=` is lost.

* **`getUri_eq_ok_iff`**: when `getUri` returns, and what (`Readable`);
* **`getUri_eq_stated_iff`**: it returns what the URI says iff every parameter is a key, one `=` and
  a value, no further `?` follows, and the URI is not a single `?`.
-/

namespace Terminator.Plugin.UriElementGetter

open Terminator.Java

/-! ## What a URI says -/

/-- A parameter: its key is what stands before the first `=`, its value all that follows. -/
def stated (param : JString) : RequestElement := ⟨before 0x3D param, behind 0x3D param⟩

/-- The parameters of a query, without the empty ones. -/
def statedParams (query : JString) : List RequestElement :=
  ((query.splitOn 0x26).filter fun param => !param.isEmpty).map stated

/-- The path, then the parameters of everything behind the first `?`. -/
def statedUri (uri : JString) : List RequestElement :=
  ⟨lit "URI", before 0x3F uri⟩ :: statedParams (behind 0x3F uri)

/-! ## What `getUri` returns -/

/-- The second entry of `param.split("=")` exists. -/
def HasValue (param : JString) : Prop := ∃ c ∈ behind 0x3D param, c ≠ 0x3D

/-- The first two entries of `param.split("=")`. -/
def firstTwo (param : JString) : RequestElement :=
  ⟨before 0x3D param, before 0x3D (behind 0x3D param)⟩

/-- There is a second entry in `uri.split("\\u003F")`. -/
def HasQuery (uri : JString) : Prop := ∃ c ∈ behind 0x3F uri, c ≠ 0x3F

instance : DecidablePred HasValue := fun param =>
  inferInstanceAs (Decidable (∃ c ∈ behind 0x3D param, c ≠ 0x3D))

instance : DecidablePred HasQuery := fun uri =>
  inferInstanceAs (Decidable (∃ c ∈ behind 0x3F uri, c ≠ 0x3F))

/-- The entries of `strs[1].split("&")`. -/
def entries (uri : JString) : List JString := split 0x26 (before 0x3F (behind 0x3F uri))

/-- No index is missing: the URI is not made of `?` alone, and every parameter read has a value. -/
def Readable (uri : JString) : Prop :=
  (uri = [] ∨ ∃ c ∈ uri, c ≠ 0x3F) ∧ (HasQuery uri → ∀ param ∈ entries uri, HasValue param)

instance : DecidablePred Readable := fun uri =>
  inferInstanceAs (Decidable ((uri = [] ∨ ∃ c ∈ uri, c ≠ 0x3F) ∧
    (HasQuery uri → ∀ param ∈ entries uri, HasValue param)))

/-- One round of the loop. -/
theorem load_param_iff {param key value : JString} :
    load (split 0x3D param) 0 = .ok key ∧ load (split 0x3D param) 1 = .ok value ↔
      HasValue param ∧ (⟨key, value⟩ : RequestElement) = firstTwo param := by
  rw [load_split_zero, load_split_one, firstTwo, RequestElement.mk.injEq]
  constructor
  · rintro ⟨⟨hkey, -⟩, hvalue, hhas⟩
    exact ⟨hhas, hkey, hvalue⟩
  · rintro ⟨hhas, hkey, hvalue⟩
    obtain ⟨c, hc, hne⟩ := hhas
    exact ⟨⟨hkey, .inr ⟨c, mem_of_mem_behind hc, hne⟩⟩, hvalue, c, hc, hne⟩

theorem params_cons_eq_ok_iff {param : JString} {rest : List JString}
    {elements : List RequestElement} :
    params (param :: rest) = .ok elements ↔
      ∃ es, HasValue param ∧ params rest = .ok es ∧ elements = firstTwo param :: es := by
  have hloads : ∀ key value,
      load (split 0x3D param) 0 = .ok key → load (split 0x3D param) 1 = .ok value →
        HasValue param ∧ (⟨key, value⟩ : RequestElement) = firstTwo param := fun key value hk hv =>
    load_param_iff.mp ⟨hk, hv⟩
  rw [params]
  constructor
  · intro h
    cases hkey : load (split 0x3D param) 0 with
    | error e => simp [hkey, bind, Except.bind] at h
    | ok key =>
      cases hvalue : load (split 0x3D param) 1 with
      | error e => simp [hkey, hvalue, bind, Except.bind] at h
      | ok value =>
        obtain ⟨hhas, hpair⟩ := hloads key value hkey hvalue
        cases hrest : params rest with
        | error e => simp [hkey, hvalue, hrest, bind, Except.bind] at h
        | ok es =>
          simp only [hkey, hvalue, hrest, bind, Except.bind, pure, Except.pure,
            Except.ok.injEq] at h
          exact ⟨es, hhas, rfl, by rw [← h, hpair]⟩
  · rintro ⟨es, hhas, hrest, rfl⟩
    obtain ⟨hkey, hvalue⟩ := load_param_iff.mpr ⟨hhas, rfl⟩
    simp only [hkey, hvalue, hrest, bind, Except.bind, pure, Except.pure]
    rfl

theorem params_eq_ok_iff {ps : List JString} {elements : List RequestElement} :
    params ps = .ok elements ↔ (∀ param ∈ ps, HasValue param) ∧ elements = ps.map firstTwo := by
  induction ps generalizing elements with
  | nil => simp [params, eq_comm]
  | cons param rest ih =>
    rw [params_cons_eq_ok_iff, List.forall_mem_cons, List.map_cons]
    constructor
    · rintro ⟨es, hhas, hrest, rfl⟩
      obtain ⟨hall, rfl⟩ := ih.mp hrest
      exact ⟨⟨hhas, hall⟩, rfl⟩
    · rintro ⟨⟨hhas, hall⟩, rfl⟩
      exact ⟨_, hhas, ih.mpr ⟨hall, rfl⟩, rfl⟩

/-- **`getUri`**: it returns iff no index is missing, and then the first two entries of every
parameter between the first two `?`. -/
theorem getUri_eq_ok_iff {uri : JString} {elements : List RequestElement} :
    getUri uri = .ok elements ↔
      Readable uri ∧ elements = ⟨lit "URI", before 0x3F uri⟩ ::
        if HasQuery uri then (entries uri).map firstTwo else [] := by
  unfold getUri
  dsimp only
  by_cases hfirst : uri = [] ∨ ∃ c ∈ uri, c ≠ 0x3F
  · have hpath : load (split 0x3F uri) 0 = .ok (before 0x3F uri) :=
      load_split_zero.mpr ⟨rfl, hfirst⟩
    simp only [hpath, bind, Except.bind]
    by_cases hquery : HasQuery uri
    · have hsecond : load (split 0x3F uri) 1 = .ok (before 0x3F (behind 0x3F uri)) :=
        load_split_one.mpr ⟨rfl, hquery⟩
      rw [if_pos (two_le_length_split_iff.mpr hquery), if_pos hquery, hsecond]
      dsimp only
      constructor
      · intro h
        change Except.bind (params (entries uri)) _ = _ at h
        cases hparams : params (entries uri) with
        | error e => simp [hparams, Except.bind] at h
        | ok es =>
          obtain ⟨hall, rfl⟩ := params_eq_ok_iff.mp hparams
          simp only [hparams, Except.bind, pure, Except.pure, Except.ok.injEq] at h
          exact ⟨⟨hfirst, fun _ => hall⟩, h.symm⟩
      · rintro ⟨⟨-, hall⟩, rfl⟩
        have hparams : params (entries uri) = .ok ((entries uri).map firstTwo) :=
          params_eq_ok_iff.mpr ⟨hall hquery, rfl⟩
        rw [entries] at hparams
        rw [hparams]
        rfl
    · rw [if_neg (fun h => hquery (two_le_length_split_iff.mp h)), if_neg hquery]
      constructor
      · intro h
        exact ⟨⟨hfirst, fun hq => absurd hq hquery⟩, (Except.ok.inj h).symm⟩
      · rintro ⟨-, rfl⟩
        rfl
  · have hnone : ∀ path, load (split 0x3F uri) 0 ≠ .ok path := fun path h =>
      hfirst (load_split_zero.mp h).2
    constructor
    · intro h
      cases hpath : load (split 0x3F uri) 0 with
      | error e => simp [hpath, bind, Except.bind] at h
      | ok path => exact absurd hpath (hnone path)
    · exact fun h => absurd h.1.1 hfirst

/-- When `getUri` returns at all. -/
theorem getUri_returns_iff {uri : JString} :
    (∃ elements, getUri uri = .ok elements) ↔ Readable uri := by
  simp only [getUri_eq_ok_iff, exists_and_left, exists_eq, and_true]

/-! ## When that is what the URI says -/

/-- A key, one `=` and a value. -/
def Pair (param : JString) : Prop :=
  0x3D ∈ param ∧ 0x3D ∉ behind 0x3D param ∧ behind 0x3D param ≠ []

instance : DecidablePred Pair := fun param =>
  inferInstanceAs
    (Decidable (0x3D ∈ param ∧ 0x3D ∉ behind 0x3D param ∧ behind 0x3D param ≠ []))

/-- Behind the first `?`, if there is one, comes no other, and up to the last parameter that is not
empty they are all pairs; and the URI is not a single `?`. -/
def Regular (uri : JString) : Prop :=
  0x3F ∈ uri → uri ≠ [0x3F] ∧ 0x3F ∉ behind 0x3F uri ∧
    ∀ param ∈ ((behind 0x3F uri).splitOn 0x26).rdropWhile List.isEmpty, Pair param

instance : DecidablePred Regular := fun uri =>
  inferInstanceAs (Decidable (0x3F ∈ uri → uri ≠ [0x3F] ∧ 0x3F ∉ behind 0x3F uri ∧
    ∀ param ∈ ((behind 0x3F uri).splitOn 0x26).rdropWhile List.isEmpty, Pair param))

/-- A parameter is a pair iff it has a second entry and that is all there is behind the `=`. -/
theorem pair_iff {param : JString} :
    Pair param ↔ HasValue param ∧ firstTwo param = stated param := by
  rw [firstTwo, stated, RequestElement.mk.injEq, Pair, HasValue]
  constructor
  · rintro ⟨-, hone, hne⟩
    obtain ⟨c, hc⟩ := List.exists_mem_of_ne_nil _ hne
    exact ⟨⟨c, hc, fun heq => hone (heq ▸ hc)⟩, rfl, before_of_not_mem hone⟩
  · rintro ⟨⟨c, hc, -⟩, -, hvalue⟩
    refine ⟨?_, not_mem_of_before_eq hvalue, List.ne_nil_of_mem hc⟩
    by_contra hnone
    rw [behind_of_not_mem hnone] at hc
    simp at hc

/-- Empty pieces at the end are not among those that are not empty. -/
theorem filter_rdropWhile_isEmpty (l : List JString) :
    (l.rdropWhile List.isEmpty).filter (fun p => !p.isEmpty) =
      l.filter fun p => !p.isEmpty := by
  induction l using List.reverseRecOn with
  | nil => rfl
  | append_singleton l p ih =>
    by_cases hp : p.isEmpty = true
    · rw [List.rdropWhile_concat_pos _ _ _ hp, ih, List.filter_append]
      simp [hp]
    · rw [List.rdropWhile_concat_neg _ _ _ hp]

/-- The parameters read are those stated iff they are all pairs. -/
theorem firstTwo_eq_stated_iff (params : List JString) :
    ((∀ param ∈ params, HasValue param) ∧
      (params.filter fun param => !param.isEmpty).map stated = params.map firstTwo) ↔
      ∀ param ∈ params, Pair param := by
  have hall (h : ∀ param ∈ params, HasValue param) :
      params.filter (fun param => !param.isEmpty) = params := by
    refine List.filter_eq_self.mpr fun param hparam => ?_
    obtain ⟨c, hc, -⟩ := h param hparam
    have hne : param ≠ [] := List.ne_nil_of_mem (mem_of_mem_behind hc)
    simpa using hne
  constructor
  · rintro ⟨hhas, heq⟩ param hparam
    rw [hall hhas, List.map_inj_left] at heq
    exact pair_iff.mpr ⟨hhas param hparam, (heq param hparam).symm⟩
  · intro hpair
    have hhas : ∀ param ∈ params, HasValue param := fun param h => (pair_iff.mp (hpair param h)).1
    refine ⟨hhas, ?_⟩
    rw [hall hhas, List.map_inj_left]
    exact fun param h => (pair_iff.mp (hpair param h)).2.symm

/-- Every unit of a query stands in one of its parameters, the separators apart. -/
theorem exists_mem_statedParams {query : JString} {c : JChar} (hc : c ∈ query) (hamp : c ≠ 0x26)
    (heq : c ≠ 0x3D) : ∃ e ∈ statedParams query, c ∈ e.key ∨ c ∈ e.value := by
  obtain ⟨param, hparam, hmem⟩ := exists_mem_splitOn_iff.mpr ⟨hc, hamp⟩
  refine ⟨stated param, List.mem_map_of_mem (List.mem_filter.mpr ⟨hparam, ?_⟩), ?_⟩
  · simpa using List.ne_nil_of_mem hmem
  · by_cases hsep : 0x3D ∈ param
    · rw [← before_append_behind hsep, List.mem_append, List.mem_cons] at hmem
      rcases hmem with hkey | heq' | hvalue
      · exact .inl hkey
      · exact absurd heq' heq
      · exact .inr hvalue
    · rw [← before_of_not_mem hsep] at hmem
      exact .inl hmem

/-- No parameter read has a `?`: what stands behind the second one is not looked at. -/
theorem not_mem_firstTwo {uri : JString} {e : RequestElement}
    (he : e ∈ (entries uri).map firstTwo) : 0x3F ∉ e.key ∧ 0x3F ∉ e.value := by
  obtain ⟨param, hparam, rfl⟩ := List.mem_map.mp he
  have hnot : 0x3F ∉ param := fun h => not_mem_before (mem_of_mem_split hparam h)
  exact ⟨fun h => hnot (mem_of_mem_before h),
    fun h => hnot (mem_of_mem_behind (mem_of_mem_before h))⟩

/-- A URI without a `?` is its own path. -/
theorem getUri_of_no_query {uri : JString} (h : 0x3F ∉ uri) : getUri uri = .ok (statedUri uri) := by
  rw [getUri_eq_ok_iff, statedUri, behind_of_not_mem h]
  refine ⟨⟨?_, ?_⟩, ?_⟩
  · by_cases huri : uri = []
    · exact .inl huri
    · obtain ⟨c, hc⟩ := List.exists_mem_of_ne_nil _ huri
      exact .inr ⟨c, hc, fun heq => h (heq ▸ hc)⟩
  · simp [HasQuery, behind_of_not_mem h]
  · simp [HasQuery, behind_of_not_mem h, statedParams]

/-- What follows a second `?` is not read. -/
theorem getUri_ne_of_second {uri : JString} (h : 0x3F ∈ behind 0x3F uri) :
    getUri uri ≠ .ok (statedUri uri) := by
  intro heq
  obtain ⟨-, helements⟩ := getUri_eq_ok_iff.mp heq
  rw [statedUri, List.cons.injEq] at helements
  obtain ⟨e, he, hin⟩ := exists_mem_statedParams h (by decide) (by decide)
  rw [helements.2] at he
  by_cases hquery : HasQuery uri
  · rw [if_pos hquery] at he
    obtain ⟨hkey, hvalue⟩ := not_mem_firstTwo he
    exact hin.elim hkey hvalue
  · rw [if_neg hquery] at he
    simp at he

/-- With one `?`, everything depends on the parameters. -/
theorem getUri_of_one {uri : JString} (h : 0x3F ∈ uri) (hone : 0x3F ∉ behind 0x3F uri) :
    getUri uri = .ok (statedUri uri) ↔ uri ≠ [0x3F] ∧
      ∀ param ∈ ((behind 0x3F uri).splitOn 0x26).rdropWhile List.isEmpty, Pair param := by
  have huri : uri ≠ [] := List.ne_nil_of_mem h
  have hparts := before_append_behind h
  rw [getUri_eq_ok_iff, Readable, statedUri, List.cons.injEq, exists_ne_iff_of_ne_nil huri]
  by_cases hquery : behind 0x3F uri = []
  · have hno : ¬ HasQuery uri := by simp [HasQuery, hquery]
    have hpath : before 0x3F uri ≠ [] ↔ uri ≠ [0x3F] := by
      rw [hquery] at hparts
      conv_rhs => rw [← hparts]
      simp
    simp [hno, hquery, huri, hpath, statedParams, List.rdropWhile_singleton]
  · obtain ⟨c, hc⟩ := List.exists_mem_of_ne_nil _ hquery
    have hhas : HasQuery uri := ⟨c, hc, fun heq => hone (heq ▸ hc)⟩
    have hlong : uri ≠ [0x3F] := by
      rintro rfl
      exact hquery rfl
    have hentries : entries uri =
        ((behind 0x3F uri).splitOn 0x26).rdropWhile List.isEmpty := by
      rw [entries, before_of_not_mem hone, split_of_ne_nil hquery]
    rw [if_pos hhas, hentries, ← firstTwo_eq_stated_iff, filter_rdropWhile_isEmpty, statedParams]
    constructor
    · rintro ⟨⟨-, hall⟩, -, heq⟩
      exact ⟨hlong, hall hhas, heq⟩
    · rintro ⟨-, hall, heq⟩
      exact ⟨⟨.inr (.inr hhas), fun _ => hall⟩, rfl, heq⟩

/-- **URI parsing**: `getUri` returns the path and the parameters the URI states iff the URI is
regular. -/
theorem getUri_eq_stated_iff (uri : JString) : getUri uri = .ok (statedUri uri) ↔ Regular uri := by
  by_cases h : 0x3F ∈ uri
  · by_cases hone : 0x3F ∈ behind 0x3F uri
    · exact ⟨fun heq => absurd heq (getUri_ne_of_second hone), fun hreg => absurd hone (hreg h).2.1⟩
    · rw [getUri_of_one h hone]
      exact ⟨fun hpairs _ => ⟨hpairs.1, hone, hpairs.2⟩,
        fun hreg => ⟨(hreg h).1, (hreg h).2.2⟩⟩
  · exact ⟨fun _ hin => absurd hin h, fun _ => getUri_of_no_query h⟩

/-- A parameter without a `=` throws, and a value is cut at its first `=`. -/
theorem getUri_ne_stated :
    getUri (lit "/a?x") = .error .indexOutOfBounds ∧
      getUri (lit "/a?x") ≠ .ok (statedUri (lit "/a?x")) ∧
      getUri (lit "/a?k=v=w") = .ok [⟨lit "URI", lit "/a"⟩, ⟨lit "k", lit "v"⟩] ∧
      statedUri (lit "/a?k=v=w") = [⟨lit "URI", lit "/a"⟩, ⟨lit "k", lit "v=w"⟩] := by
  decide

end Terminator.Plugin.UriElementGetter
