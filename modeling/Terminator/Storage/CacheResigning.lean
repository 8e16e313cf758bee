import Mathlib.Data.List.Nodup
import Mathlib.Data.List.Perm.Subperm
import Terminator.Storage.CacheStorage

/-!
# Signing the cache again

`signerChanged` of `CacheStorage.java`: it goes over the entries of the cache, signs the request of
each bundle, and puts the bundle under its new key into the cache it goes over. The iteration is
weakly consistent: a bundle that is put while it is under way may or may not be seen. Nothing takes
the old entry away, as `updateDataIndexSign` of `FileStorage` does by signing the row in place.

* **`signerChanged_replaces_iff`**: whatever an iteration sees, the new keys replace the old ones
  iff every bundle was under its new key before; for iterations that see every old entry as it was,
  iff every old key is a new one, too.
-/

namespace Terminator.Storage.CacheStorage

open Terminator.Java Terminator.Netty

/-- An entry of `recordDataCache`. -/
abbrev Entry := JString × RequestResponseBundle Ref

/-- The loop of `signerChanged`, over the entries its iteration comes to; `sign` is a pure function
of the request. -/
def signerChanged (evict : Eviction) (sign : Option (HttpObject Ref) → JString) :
    List Entry → Method (World CacheStorage) Unit
  | [] => pure ()
  | (_, bundle) :: visits => do
    let request := bundle.request
    let key := sign request
    modify fun w => { w with hidden := { w.hidden with
      recordDataCache := put evict w.hidden.recordDataCache key bundle } }
    signerChanged evict sign visits

section Loop

variable (evict : Eviction) (sign : Option (HttpObject Ref) → JString)

/-- An entry with its bundle under the new key. -/
def signed (e : Entry) : Entry := (sign e.2.request, e.2)

/-- The cache after the loop. -/
def resigned (visits cache : List Entry) : List Entry :=
  visits.foldl (fun cache e => put evict cache (signed sign e).1 e.2) cache

theorem signerChanged_run (visits : List Entry) (w : World CacheStorage) :
    (signerChanged evict sign visits).run w = .ok () { w with hidden := { w.hidden with
      recordDataCache := resigned evict sign visits w.hidden.recordDataCache } } := by
  induction visits generalizing w with
  | nil => rfl
  | cons e visits ih =>
    rw [signerChanged, run_bind_of_ok (EStateM.run_modify _ _), ih]
    rfl

/-- A weakly consistent iteration: it comes to no key twice; it sees an entry as it was at the start
or as it was put since; and it leaves out no old key, unless that was evicted on the way. -/
structure Iteration (cache visits : List Entry) : Prop where
  once : (visits.map Prod.fst).Nodup
  seen : ∀ before e after, visits = before ++ e :: after → e ∈ cache ++ before.map (signed sign)
  all : ∀ e ∈ cache, e.1 ∈ visits.map Prod.fst ∨
    ∃ before, before <+: visits ∧ e.1 ∉ (resigned evict sign before cache).map Prod.fst

/-- The old entries are seen as they were at the start. -/
def OldUnchanged (cache visits : List Entry) : Prop :=
  ∀ e ∈ visits, e.1 ∈ cache.map Prod.fst → e ∈ cache

/-- After the loop a key is hit exactly when it is the new key of a bundle that was cached before,
and then by such a bundle. -/
def Replaces (visits : List Entry) (w : World CacheStorage) : Prop :=
  ∃ w', (signerChanged evict sign visits).run w = .ok () w' ∧ ∀ key,
    (∀ b, getIfPresent w'.hidden.recordDataCache key = some b →
      b ∈ w.hidden.recordDataCache.map Prod.snd ∧ sign b.request = key) ∧
    ((∃ b ∈ w.hidden.recordDataCache.map Prod.snd, sign b.request = key) →
      ∃ b, getIfPresent w'.hidden.recordDataCache key = some b)

end Loop

/-! ## A put -/

section Put

variable {evict : Eviction} {cache : List Entry} {key : JString}
  {bundle : RequestResponseBundle Ref}

theorem mem_of_getIfPresent (h : getIfPresent cache key = some bundle) : (key, bundle) ∈ cache := by
  obtain ⟨e, he, rfl⟩ := Option.map_eq_some_iff.mp h
  have hkey : e.1 = key := by simpa using List.find?_some he
  rw [← hkey]
  exact List.mem_of_find?_eq_some he

theorem exists_getIfPresent (h : key ∈ cache.map Prod.fst) :
    ∃ b, getIfPresent cache key = some b := by
  cases hget : getIfPresent cache key with
  | some b => exact ⟨b, rfl⟩
  | none => exact absurd h (notMem_of_getIfPresent hget)

/-- The keys without the one that is put. -/
theorem keys_filter (hnodup : (cache.map Prod.fst).Nodup) :
    (cache.filter fun e => !(e.1 == key)).map Prod.fst = (cache.map Prod.fst).erase key := by
  rw [hnodup.erase_eq_filter, List.filter_map]
  rfl

/-- The entries before anything is evicted. -/
def putAll (cache : List Entry) (key : JString) (bundle : RequestResponseBundle Ref) : List Entry :=
  cache.filter (fun e => !(e.1 == key)) ++ [(key, bundle)]

theorem put_eq : put evict cache key bundle =
    if key ∈ cache.map Prod.fst then putAll cache key bundle
    else evict.keep (putAll cache key bundle) := rfl

theorem keys_putAll (hnodup : (cache.map Prod.fst).Nodup) :
    (putAll cache key bundle).map Prod.fst = (cache.map Prod.fst).erase key ++ [key] := by
  rw [putAll, List.map_append, keys_filter hnodup]
  rfl

theorem nodup_putAll (hnodup : (cache.map Prod.fst).Nodup) :
    ((putAll cache key bundle).map Prod.fst).Nodup := by
  rw [keys_putAll hnodup, List.nodup_append]
  refine ⟨hnodup.erase key, List.nodup_singleton _, fun k hk k' hk' heq => ?_⟩
  rw [List.mem_singleton.mp hk'] at heq
  exact (hnodup.not_mem_erase) (heq ▸ hk)

theorem keys_subset_putAll (hnodup : (cache.map Prod.fst).Nodup) (key : JString)
    (bundle : RequestResponseBundle Ref) :
    cache.map Prod.fst ⊆ (putAll cache key bundle).map Prod.fst := by
  intro k hk
  rw [keys_putAll hnodup, List.mem_append, List.mem_singleton]
  by_cases heq : k = key
  · exact .inr heq
  · exact .inl ((List.mem_erase_of_ne heq).mpr hk)

theorem length_le_putAll (hnodup : (cache.map Prod.fst).Nodup) :
    cache.length ≤ (putAll cache key bundle).length := by
  have h := (hnodup.subperm (keys_subset_putAll hnodup key bundle)).length_le
  rwa [List.length_map, List.length_map] at h

theorem nodup_put (hnodup : (cache.map Prod.fst).Nodup) :
    ((put evict cache key bundle).map Prod.fst).Nodup := by
  rw [put_eq]
  split
  · exact nodup_putAll hnodup
  · exact (nodup_putAll hnodup).sublist ((evict.sublist _).map _)

/-- A key that is there keeps its place among the keys. -/
theorem keys_put_of_mem (evict : Eviction) (bundle : RequestResponseBundle Ref)
    (hnodup : (cache.map Prod.fst).Nodup) (hkey : key ∈ cache.map Prod.fst) :
    ((put evict cache key bundle).map Prod.fst).Perm (cache.map Prod.fst) := by
  rw [put_eq, if_pos hkey, keys_putAll hnodup]
  exact (List.perm_append_singleton _ _).trans (List.perm_cons_erase hkey).symm

/-- Evicting the oldest leaves the old keys there, or the cache full. -/
theorem put_newest_cases (hnodup : (cache.map Prod.fst).Nodup) (key : JString)
    (bundle : RequestResponseBundle Ref) :
    (cache.map Prod.fst ⊆ (put .newest cache key bundle).map Prod.fst ∧
        cache.length ≤ (put .newest cache key bundle).length) ∨
      MAXIMUM_SIZE ≤ (put .newest cache key bundle).length := by
  by_cases hkey : key ∈ cache.map Prod.fst
  · rw [put_eq, if_pos hkey]
    exact .inl ⟨keys_subset_putAll hnodup key bundle, length_le_putAll hnodup⟩
  rw [put_eq, if_neg hkey, Eviction.newest]
  dsimp only
  by_cases hlength : (putAll cache key bundle).length ≤ MAXIMUM_SIZE
  · rw [Nat.sub_eq_zero_of_le hlength, List.drop_zero]
    exact .inl ⟨keys_subset_putAll hnodup key bundle, length_le_putAll hnodup⟩
  · rw [List.length_drop]
    exact .inr (by omega)

end Put

/-! ## The loop -/

section Resigned

variable {evict : Eviction} {sign : Option (HttpObject Ref) → JString} {cache visits : List Entry}

theorem nodup_resigned (hnodup : (cache.map Prod.fst).Nodup) :
    ((resigned evict sign visits cache).map Prod.fst).Nodup := by
  induction visits generalizing cache with
  | nil => exact hnodup
  | cons e visits ih => exact ih (nodup_put hnodup)

/-- What is in the cache after the loop: an old entry whose key was not put, or one that was put. -/
theorem mem_resigned {e : Entry} (h : e ∈ resigned evict sign visits cache) :
    (e ∈ cache ∧ ∀ v ∈ visits, e.1 ≠ (signed sign v).1) ∨ ∃ v ∈ visits, e = signed sign v := by
  induction visits generalizing cache with
  | nil => exact .inl ⟨h, fun _ hv => absurd hv List.not_mem_nil⟩
  | cons v visits ih =>
    rcases ih h with ⟨hmem, hne⟩ | ⟨u, hu, heq⟩
    · rcases (mem_put evict cache (signed sign v).1 v.2).1 e hmem with ⟨hold, hkey⟩ | heq
      · exact .inl ⟨hold, List.forall_mem_cons.mpr ⟨hkey, hne⟩⟩
      · exact .inr ⟨v, List.mem_cons_self, heq⟩
    · exact .inr ⟨u, List.mem_cons_of_mem _ hu, heq⟩

/-- Puts under old keys leave the keys as they are. -/
theorem keys_resigned (evict : Eviction) (hnodup : (cache.map Prod.fst).Nodup)
    (hkeys : ∀ v ∈ visits, (signed sign v).1 ∈ cache.map Prod.fst) :
    ((resigned evict sign visits cache).map Prod.fst).Perm (cache.map Prod.fst) := by
  induction visits generalizing cache with
  | nil => exact List.Perm.refl _
  | cons v visits ih =>
    have hperm := keys_put_of_mem evict v.2 hnodup (hkeys v List.mem_cons_self)
    refine (ih (nodup_put hnodup) fun u hu => ?_).trans hperm
    exact hperm.mem_iff.mpr (hkeys u (List.mem_cons_of_mem _ hu))

/-- Evicting the oldest: after the loop the old keys are all there, or the cache is full. -/
theorem resigned_newest_cases (sign : Option (HttpObject Ref) → JString) (visits : List Entry)
    (hnodup : (cache.map Prod.fst).Nodup) :
    cache.map Prod.fst ⊆ (resigned .newest sign visits cache).map Prod.fst ∨
      MAXIMUM_SIZE ≤ (resigned .newest sign visits cache).length := by
  have hfull : ∀ (visits cache : List Entry), (cache.map Prod.fst).Nodup →
      MAXIMUM_SIZE ≤ cache.length → MAXIMUM_SIZE ≤ (resigned .newest sign visits cache).length := by
    intro visits
    induction visits with
    | nil => exact fun _ _ h => h
    | cons v visits ih =>
      intro cache hnodup h
      refine ih _ (nodup_put hnodup) ?_
      rcases put_newest_cases hnodup (signed sign v).1 v.2 with ⟨-, hle⟩ | hle
      · exact Nat.le_trans h hle
      · exact hle
  induction visits generalizing cache with
  | nil => exact .inl (List.Subset.refl _)
  | cons v visits ih =>
    rcases put_newest_cases hnodup (signed sign v).1 v.2 with ⟨hsub, -⟩ | hle
    · exact (ih (nodup_put hnodup)).imp_left fun h => List.Subset.trans hsub h
    · exact .inr (hfull visits _ (nodup_put hnodup) hle)

end Resigned

/-! ## The iterations -/

section Iterations

variable {evict : Eviction} {sign : Option (HttpObject Ref) → JString} {cache visits : List Entry}
  {w : World CacheStorage}

/-- What holds of a visit if it holds of those before it holds of all of them. -/
theorem forall_of_before {Q : Entry → Prop}
    (h : ∀ before e after, visits = before ++ e :: after → (∀ v ∈ before, Q v) → Q e) :
    ∀ e ∈ visits, Q e := by
  suffices ∀ before rest, visits = before ++ rest → (∀ v ∈ before, Q v) → ∀ e ∈ rest, Q e from
    this [] visits rfl (fun _ hv => absurd hv List.not_mem_nil)
  intro before rest
  induction rest generalizing before with
  | nil => exact fun _ _ _ he => absurd he List.not_mem_nil
  | cons e rest ih =>
    intro heq hbefore
    have he := h before e rest heq hbefore
    refine List.forall_mem_cons.mpr ⟨he, ih (before ++ [e]) ?_ ?_⟩
    · rw [heq, List.append_assoc]
      rfl
    · intro v hv
      rcases List.mem_append.mp hv with hv | hv
      · exact hbefore v hv
      · exact (List.mem_singleton.mp hv) ▸ he

/-- An entry of the cache is known by its key. -/
theorem entry_of_key (hnodup : (cache.map Prod.fst).Nodup) {e e' : Entry} (he : e ∈ cache)
    (he' : e' ∈ cache) (h : e.1 = e'.1) : e = e' :=
  List.inj_on_of_nodup_map hnodup he he' h

/-- The old keys are new keys, too. -/
def KeysStay (sign : Option (HttpObject Ref) → JString) (cache : List Entry) : Prop :=
  ∀ e ∈ cache, e.1 ∈ cache.map fun e => sign e.2.request

/-- Then the new keys are the old ones in another order. -/
theorem keys_perm_of_keysStay (hnodup : (cache.map Prod.fst).Nodup) (h : KeysStay sign cache) :
    (cache.map Prod.fst).Perm (cache.map fun e => sign e.2.request) := by
  refine (hnodup.subperm fun k hk => ?_).perm_of_length_le (by simp)
  obtain ⟨e, he, rfl⟩ := List.mem_map.mp hk
  exact h e he

/-- It is enough to look at the entries the loop leaves. -/
theorem replaces_of_resigned
    (hentries : ∀ e ∈ resigned evict sign visits w.hidden.recordDataCache,
      e.2 ∈ w.hidden.recordDataCache.map Prod.snd ∧ sign e.2.request = e.1)
    (hkeys : ∀ e ∈ w.hidden.recordDataCache,
      sign e.2.request ∈ (resigned evict sign visits w.hidden.recordDataCache).map Prod.fst) :
    Replaces evict sign visits w := by
  refine ⟨_, signerChanged_run evict sign visits w, fun key => ⟨fun b hb => ?_, ?_⟩⟩
  · exact hentries _ (mem_of_getIfPresent hb)
  · rintro ⟨b, hb, rfl⟩
    obtain ⟨e, he, rfl⟩ := List.mem_map.mp hb
    exact exists_getIfPresent (hkeys e he)

/-- **Nothing is put anew**: where every old entry is seen as it was, or as it stays, and the old
keys stay, the bundles end up under their new keys. -/
theorem replaces_of_keysStay (hnodup : (w.hidden.recordDataCache.map Prod.fst).Nodup)
    (hkeys : KeysStay sign w.hidden.recordDataCache)
    (hiter : Iteration evict sign w.hidden.recordDataCache visits)
    (hold : OldUnchanged w.hidden.recordDataCache visits) : Replaces evict sign visits w := by
  have hperm := keys_perm_of_keysStay hnodup hkeys
  have hvisits : ∀ v ∈ visits, v ∈ w.hidden.recordDataCache := by
    refine forall_of_before fun before e after heq hbefore => ?_
    rcases List.mem_append.mp (hiter.seen before e after heq) with he | he
    · exact he
    · obtain ⟨v, hv, rfl⟩ := List.mem_map.mp he
      refine hold _ (heq ▸ List.mem_append_right _ List.mem_cons_self) (hperm.mem_iff.mpr ?_)
      exact List.mem_map.mpr ⟨v, hbefore v hv, rfl⟩
  have hput : ∀ v ∈ visits, (signed sign v).1 ∈ w.hidden.recordDataCache.map Prod.fst :=
    fun v hv => hperm.mem_iff.mpr (List.mem_map.mpr ⟨v, hvisits v hv, rfl⟩)
  have hresigned := keys_resigned evict hnodup hput
  have hall : ∀ e ∈ w.hidden.recordDataCache, e ∈ visits := by
    intro e he
    have hkey : e.1 ∈ visits.map Prod.fst := by
      refine (hiter.all e he).resolve_right ?_
      rintro ⟨before, hbefore, hnot⟩
      have hstays := keys_resigned evict hnodup
        fun v hv => hput v (hbefore.subset hv)
      exact hnot (hstays.mem_iff.mpr (List.mem_map_of_mem he))
    obtain ⟨v, hv, heq⟩ := List.mem_map.mp hkey
    exact entry_of_key hnodup (hvisits v hv) he heq ▸ hv
  refine replaces_of_resigned (fun e he => ?_) fun e he => ?_
  · rcases mem_resigned he with ⟨hmem, hne⟩ | ⟨v, hv, rfl⟩
    · obtain ⟨c, hc, heq⟩ := List.mem_map.mp (hkeys e hmem)
      exact absurd heq.symm (hne c (hall c hc))
    · have hmem : v.2 ∈ w.hidden.recordDataCache.map Prod.snd :=
        List.mem_map_of_mem (hvisits v hv)
      exact ⟨hmem, rfl⟩
  · exact hresigned.mem_iff.mpr (hput e (hall e he))

/-- Where the keys do not change, an iteration sees the old entries whatever it sees. -/
theorem oldUnchanged_of_same (hsame : ∀ e ∈ cache, sign e.2.request = e.1)
    (hiter : Iteration evict sign cache visits) : OldUnchanged cache visits := by
  suffices ∀ v ∈ visits, v ∈ cache from fun v hv _ => this v hv
  refine forall_of_before fun before e after heq hbefore => ?_
  rcases List.mem_append.mp (hiter.seen before e after heq) with he | he
  · exact he
  · obtain ⟨v, hv, rfl⟩ := List.mem_map.mp he
    have hv := hbefore v hv
    have hsigned : signed sign v = v := by rw [signed, hsame v hv]
    exact hsigned.symm ▸ hv

/-- The iteration that sees the old entries and nothing else. -/
theorem iteration_self (hnodup : (cache.map Prod.fst).Nodup) :
    Iteration evict sign cache cache where
  once := hnodup
  seen _ _ _ heq :=
    List.mem_append_left _ (heq ▸ List.mem_append_right _ List.mem_cons_self)
  all _ he := .inl (List.mem_map_of_mem he)

/-- A key that is not a new one stays, or the cache has grown beyond its new keys. -/
theorem keysStay_of_replaces (hnodup : (w.hidden.recordDataCache.map Prod.fst).Nodup)
    (hsize : w.hidden.recordDataCache.length < MAXIMUM_SIZE)
    (h : Replaces .newest sign visits w) : KeysStay sign w.hidden.recordDataCache := by
  obtain ⟨w', hrun, hreplaces⟩ := h
  rw [signerChanged_run] at hrun
  obtain ⟨-, rfl⟩ := EStateM.Result.ok.inj hrun
  dsimp only at hreplaces
  have hnew : (resigned .newest sign visits w.hidden.recordDataCache).map Prod.fst ⊆
      w.hidden.recordDataCache.map fun e => sign e.2.request := by
    intro key hkey
    obtain ⟨b, hb⟩ := exists_getIfPresent hkey
    obtain ⟨hmem, rfl⟩ := (hreplaces key).1 b hb
    obtain ⟨e, he, rfl⟩ := List.mem_map.mp hmem
    exact List.mem_map.mpr ⟨e, he, rfl⟩
  have hlength : (resigned .newest sign visits w.hidden.recordDataCache).length ≤
      w.hidden.recordDataCache.length := by
    have hle := ((nodup_resigned hnodup).subperm hnew).length_le
    rwa [List.length_map, List.length_map] at hle
  have hsub := (resigned_newest_cases sign visits hnodup).resolve_right
    (by omega)
  exact fun e he => hnew (hsub (List.mem_map_of_mem he))

/-- An iteration that comes to `e` first and then sees its bundle under its new key. -/
def seeAgain (sign : Option (HttpObject Ref) → JString) (e : Entry) (cache : List Entry) :
    List Entry :=
  e :: signed sign e :: cache.filter fun e' => e'.1 ≠ e.1 ∧ e'.1 ≠ (signed sign e).1

theorem iteration_seeAgain (hnodup : (cache.map Prod.fst).Nodup) {e : Entry} (he : e ∈ cache)
    (hne : (signed sign e).1 ≠ e.1) :
    Iteration evict sign cache (seeAgain sign e cache) where
  once := by
    rw [seeAgain, List.map_cons, List.map_cons, List.nodup_cons, List.nodup_cons, List.mem_cons,
      not_or]
    have hrest : ∀ key ∈ (cache.filter fun e' => e'.1 ≠ e.1 ∧ e'.1 ≠ (signed sign e).1).map
        Prod.fst, key ≠ e.1 ∧ key ≠ (signed sign e).1 := by
      intro key hkey
      obtain ⟨e', he', rfl⟩ := List.mem_map.mp hkey
      simpa using (List.mem_filter.mp he').2
    exact ⟨⟨hne.symm, fun h => (hrest _ h).1 rfl⟩, fun h => (hrest _ h).2 rfl,
      hnodup.sublist (List.filter_sublist.map _)⟩
  seen before v after heq := by
    cases before with
    | nil =>
      rw [seeAgain, List.nil_append, List.cons.injEq] at heq
      exact List.mem_append_left _ (heq.1 ▸ he)
    | cons u before =>
      rw [seeAgain, List.cons_append, List.cons.injEq] at heq
      obtain ⟨rfl, heq⟩ := heq
      cases before with
      | nil =>
        rw [List.nil_append, List.cons.injEq] at heq
        rw [← heq.1]
        exact List.mem_append_right _ List.mem_cons_self
      | cons u' before =>
        rw [List.cons_append, List.cons.injEq] at heq
        have hv : v ∈ cache.filter fun e' => e'.1 ≠ e.1 ∧ e'.1 ≠ (signed sign e).1 :=
          heq.2 ▸ List.mem_append_right _ List.mem_cons_self
        exact List.mem_append_left _ (List.mem_filter.mp hv).1
  all e' he' := by
    refine .inl ?_
    rw [seeAgain, List.map_cons, List.map_cons, List.mem_cons, List.mem_cons]
    by_cases h1 : e'.1 = e.1
    · exact .inl h1
    · by_cases h2 : e'.1 = (signed sign e).1
      · exact .inr (.inl h2)
      · refine .inr (.inr (List.mem_map_of_mem (List.mem_filter.mpr ⟨he', ?_⟩)))
        simpa using ⟨h1, h2⟩

/-- **An overwritten bundle is lost**: with its old entry overwritten before the iteration comes to
it, a bundle is under no key any more. -/
theorem not_replaces_seeAgain (hnodup : (w.hidden.recordDataCache.map Prod.fst).Nodup)
    (hkeys : KeysStay sign w.hidden.recordDataCache) {e : Entry}
    (he : e ∈ w.hidden.recordDataCache) (hne : (signed sign e).1 ≠ e.1) :
    ¬ Replaces evict sign (seeAgain sign e w.hidden.recordDataCache) w := by
  rintro ⟨w', hrun, hreplaces⟩
  rw [signerChanged_run] at hrun
  obtain ⟨-, rfl⟩ := EStateM.Result.ok.inj hrun
  dsimp only at hreplaces
  have hperm := keys_perm_of_keysStay hnodup hkeys
  -- the new key tells the entries apart, too
  have hinj : ∀ c ∈ w.hidden.recordDataCache, ∀ c' ∈ w.hidden.recordDataCache,
      sign c.2.request = sign c'.2.request → c = c' := fun c hc c' hc' heq =>
    List.inj_on_of_nodup_map (hperm.nodup_iff.mp hnodup) hc hc' heq
  obtain ⟨e2, he2, hkey2⟩ := List.mem_map.mp
    (hperm.mem_iff.mpr (List.mem_map.mpr ⟨e, he, rfl⟩))
  have hne2 : e ≠ e2 := fun heq => hne (by rw [signed, ← hkey2, heq])
  obtain ⟨b, hb⟩ := (hreplaces (sign e2.2.request)).2 ⟨e2.2, List.mem_map_of_mem he2, rfl⟩
  obtain ⟨hmem, hsign⟩ := (hreplaces (sign e2.2.request)).1 b hb
  obtain ⟨c, hc, rfl⟩ := List.mem_map.mp hmem
  obtain rfl := hinj c hc e2 he2 hsign
  rcases mem_resigned (mem_of_getIfPresent hb) with ⟨hold, hnot⟩ | ⟨v, hv, heq⟩
  · have hsame : c = (sign c.2.request, c.2) := hinj c hc _ hold rfl
    refine hnot e List.mem_cons_self ?_
    exact (congrArg Prod.fst hsame).symm.trans hkey2
  · have hv2 : c.2 = v.2 := (Prod.ext_iff.mp heq).2
    rcases List.mem_cons.mp hv with rfl | hv
    · exact hne2 (hinj v he c hc (by rw [hv2]))
    rcases List.mem_cons.mp hv with rfl | hv
    · exact hne2 (hinj e he c hc (by rw [hv2]; rfl))
    · obtain ⟨hv, hrest⟩ := List.mem_filter.mp hv
      obtain rfl := hinj v hv c hc (by rw [hv2])
      exact absurd hkey2 (of_decide_eq_true hrest).2

end Iterations

/-- **Signing the cache again**: every iteration replaces the keys iff every bundle is under its new
key already; every iteration that sees the old entries as they were does iff the old keys stay. -/
theorem signerChanged_replaces_iff (sign : Option (HttpObject Ref) → JString)
    {w : World CacheStorage} (hnodup : (w.hidden.recordDataCache.map Prod.fst).Nodup)
    (hsize : w.hidden.recordDataCache.length < MAXIMUM_SIZE) :
    ((∀ evict visits, Iteration evict sign w.hidden.recordDataCache visits →
        Replaces evict sign visits w) ↔
      ∀ e ∈ w.hidden.recordDataCache, sign e.2.request = e.1) ∧
    ((∀ evict visits, Iteration evict sign w.hidden.recordDataCache visits →
        OldUnchanged w.hidden.recordDataCache visits → Replaces evict sign visits w) ↔
      ∀ e ∈ w.hidden.recordDataCache,
        e.1 ∈ w.hidden.recordDataCache.map fun e => sign e.2.request) := by
  refine ⟨⟨fun hall e he => ?_, fun hsame evict visits hiter => ?_⟩,
    ⟨fun hall => ?_, fun hkeys evict visits hiter hold => ?_⟩⟩
  · have hkeys := keysStay_of_replaces hnodup hsize
      (hall .newest _ (iteration_self hnodup))
    by_contra hne
    exact not_replaces_seeAgain hnodup hkeys he hne
      (hall .newest _ (iteration_seeAgain hnodup he hne))
  · have hkeys : KeysStay sign w.hidden.recordDataCache := fun e he =>
      List.mem_map.mpr ⟨e, he, hsame e he⟩
    exact replaces_of_keysStay hnodup hkeys hiter (oldUnchanged_of_same hsame hiter)
  · exact keysStay_of_replaces hnodup hsize
      (hall .newest _ (iteration_self hnodup) fun _ hv _ => hv)
  · exact replaces_of_keysStay hnodup hkeys hiter hold

/-- `GET /a` was recorded under this key. -/
def recordedUnder (key : JString) : World CacheStorage :=
  ⟨⟨[default]⟩, ⟨[(key, ⟨some (.request ((HttpRequest.get "/a").map fun _ => 0)), none⟩)], []⟩⟩

/-- A signer of the URI. -/
def uriOf : Option (HttpObject Ref) → JString
  | some (.request q) => q.uri
  | _ => []

theorem replaces_recordedUnder_uri :
    ((recordedUnder (lit "/a")).hidden.recordDataCache.map Prod.fst).Nodup ∧
      (recordedUnder (lit "/a")).hidden.recordDataCache.length < MAXIMUM_SIZE ∧
      ∀ evict visits,
        Iteration evict uriOf (recordedUnder (lit "/a")).hidden.recordDataCache visits →
          Replaces evict uriOf visits (recordedUnder (lit "/a")) := by
  have hnodup : ((recordedUnder (lit "/a")).hidden.recordDataCache.map Prod.fst).Nodup :=
    List.nodup_singleton _
  have hsize : (recordedUnder (lit "/a")).hidden.recordDataCache.length < MAXIMUM_SIZE := by decide
  refine ⟨hnodup, hsize, (signerChanged_replaces_iff uriOf hnodup hsize).1.mpr fun e he => ?_⟩
  rw [List.mem_singleton.mp he]
  rfl

/-- Recorded under another key, it is found under that one still. -/
theorem not_replaces_recordedUnder_old :
    Iteration .newest uriOf (recordedUnder (lit "old")).hidden.recordDataCache
        (recordedUnder (lit "old")).hidden.recordDataCache ∧
      ¬ Replaces .newest uriOf (recordedUnder (lit "old")).hidden.recordDataCache
        (recordedUnder (lit "old")) := by
  refine ⟨iteration_self (List.nodup_singleton _), ?_⟩
  rintro ⟨w', hrun, hreplaces⟩
  rw [signerChanged_run] at hrun
  obtain ⟨-, rfl⟩ := EStateM.Result.ok.inj hrun
  obtain ⟨-, hsign⟩ := (hreplaces (lit "old")).1 _ rfl
  exact absurd hsign (by decide)

end Terminator.Storage.CacheStorage
