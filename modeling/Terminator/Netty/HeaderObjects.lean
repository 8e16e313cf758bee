import Terminator.Netty.HeaderTableRefines

/-!
# The headers of all messages

The header tables of all messages of the program on one heap, and the calls on them in any order.
The specification is the list of headers each message has; it has no heap, no buckets and no ring.

* `step` is one call on the tables, `specStep` the same call on the lists;
* **`run_eq_specRun`**: whatever is called, on whatever messages, with whatever arguments, every
  call ends, and answers what the lists answer.

So `getHeaders()` always gives the headers in the order they were added, `getHeader(name)` the value
added last, and a call on one message never shows in another. A call of `setHeader(name, values)`
that fails has removed the old values and kept those in front of the one it failed on
(`specSetHeaders`).
-/

namespace Terminator.Netty.HeaderTable

open Terminator.Java HeaderEntry
open Function (update)

/-! ## The calls -/

/-- A call on an `HttpHeaders`. -/
inductive HeaderCall where
  | addHeader (name : Option JString) (value : HeaderObject)
  | setHeader (name : Option JString) (value : HeaderObject)
  | setHeaders (name : Option JString) (values : Option (List HeaderObject))
  | removeHeader (name : Option JString)
  | clearHeaders
  | getHeader (name : Option JString)
  | getHeaders (name : Option JString)
  | getAllHeaders
  | containsHeader (name : Option JString)

/-- What a call gives its caller. -/
inductive HeaderAnswer where
  | done
  | thrown (e : Throwable)
  | value (v : Option JString)
  | values (vs : List JString)
  | headers (hs : List (JString × JString))
  | truth (b : Bool)
  deriving DecidableEq

/-- The answer of a method that returns with `f`. -/
def answer {α : Type} (f : α → HeaderAnswer) : Except Throwable α → HeaderAnswer
  | .ok a => f a
  | .error e => .thrown e

section Calls

variable (V : Validation)

/-- A call on a table. -/
def HeaderCall.exec (s : HeaderState) : HeaderCall → Option (HeaderAnswer × HeaderState)
  | addHeader name value =>
    let r := HeaderTable.addHeader V name value s
    some (answer (fun _ => .done) r.1, r.2)
  | setHeader name value =>
    (HeaderTable.setHeader V name value s).map fun r => (answer (fun _ => .done) r.1, r.2)
  | setHeaders name values =>
    (HeaderTable.setHeaders V name values s).map fun r => (answer (fun _ => .done) r.1, r.2)
  | removeHeader name =>
    (HeaderTable.removeHeader name s).map fun r => (answer (fun _ => .done) r.1, r.2)
  | clearHeaders => some (.done, HeaderTable.clearHeaders s)
  | getHeader name => (HeaderTable.getHeader name s).map fun r => (answer .value r, s)
  | getHeaders name => (HeaderTable.getHeaders name s).map fun r => (answer .values r, s)
  | getAllHeaders => (HeaderTable.getAllHeaders s).map fun hs => (.headers hs, s)
  | containsHeader name => (HeaderTable.containsHeader name s).map fun r => (answer .truth r, s)

/-- Adding the values in turn, up to a `null` or to one that is rejected. -/
def specAddValues (name : JString) :
    List HeaderObject → HttpHeaders → Except Throwable Unit × HttpHeaders
  | [], hs => (.ok (), hs)
  | none :: _, hs => (.ok (), hs)
  | some v :: vs, hs =>
    match validateHeaderValue V v with
    | .error e => (.error e, hs)
    | .ok strVal => specAddValues name vs (hs ++ [(name, strVal)])

/-- `setHeader(name, values)` of a list. -/
def specSetHeaders (name : Option JString) (values : Option (List HeaderObject))
    (hs : HttpHeaders) : Except Throwable Unit × HttpHeaders :=
  match values with
  | none => (.error .nullPointer, hs)
  | some values =>
    match validateHeaderName V name with
    | .error e => (.error e, hs)
    | .ok name => specAddValues V name values (hs.removeHeader name)

/-- A method of a name that may be `null`. -/
def withName {α : Type} (f : JString → α) : Option JString → Except Throwable α
  | none => .error .nullPointer
  | some name => .ok (f name)

/-- A call on a list of headers. -/
def HeaderCall.spec (hs : HttpHeaders) : HeaderCall → HeaderAnswer × HttpHeaders
  | addHeader name value =>
    match validateHeaderName V name, validateHeaderValue V value.join with
    | .error e, _ => (.thrown e, hs)
    | .ok _, .error e => (.thrown e, hs)
    | .ok name, .ok value => (.done, hs ++ [(name, value)])
  | setHeader name value =>
    match validateHeaderName V name, validateHeaderValue V value.join with
    | .error e, _ => (.thrown e, hs)
    | .ok _, .error e => (.thrown e, hs)
    | .ok name, .ok value => (.done, hs.setHeader name value)
  | setHeaders name values =>
    let r := specSetHeaders V name values hs
    (answer (fun _ => .done) r.1, r.2)
  | removeHeader none => (.thrown .nullPointer, hs)
  | removeHeader (some name) => (.done, HttpHeaders.removeHeader hs name)
  | clearHeaders => (.done, [])
  | getHeader name => (answer .value (withName (HttpHeaders.getHeader hs) name), hs)
  | getHeaders name => (answer .values (withName (HttpHeaders.getHeaders hs) name), hs)
  | getAllHeaders => (.headers hs, hs)
  | containsHeader name =>
    (answer .truth (withName (fun name => (HttpHeaders.getHeader hs name).isSome) name), hs)

/-! ## One table -/

/-- What a call that ends leaves of a table with the entries `rs`: the headers `hs`, on entries that
were the table's or are new, and everything else untouched. -/
def Leaves (s : HeaderState) (rs : List Ref) (hs : HttpHeaders) (s' : HeaderState) : Prop :=
  ∃ rs', Represents s' rs' ∧ headersOf s'.heap rs' = hs ∧ Frame s s' rs ∧
    ∀ r ∈ rs', r ∈ rs ∨ s.heap.size ≤ r

variable {V} {s s' s'' : HeaderState} {rs : List Ref} {hs hs' : HttpHeaders}

/-- The headers of entries an operation did not touch. -/
theorem headersOf_of_frame (h : Represents s rs) (hframe : Frame s s' rs) :
    headersOf s'.heap rs = headersOf s.heap rs := by
  refine List.map_congr_left fun r hr => ?_
  rw [hframe.data r (h.allocated r (List.mem_cons_of_mem _ hr))]

theorem leaves_self (h : Represents s rs) : Leaves s rs (headersOf s.heap rs) s :=
  ⟨rs, h, rfl, Frame.refl s rs, fun _ hr => .inl hr⟩

theorem leaves_remove (h : Represents s rs) (name : JString) :
    ∃ s', removeHeader0 (hash name) (index (hash name)) name s = some s' ∧
      Leaves s rs ((headersOf s.heap rs).removeHeader name) s' := by
  obtain ⟨s', hrun, hrep, hframe⟩ := h.removeHeader0_spec name
  refine ⟨s', hrun, _, hrep, ?_, hframe, fun r hr => .inl (List.mem_of_mem_filter hr)⟩
  rw [HttpHeaders.removeHeader, headersOf, headersOf, List.filter_map]
  refine List.map_congr_left fun r hr => ?_
  exact congrArg Prod.snd (hframe.data r
    (h.allocated r (List.mem_cons_of_mem _ (List.mem_of_mem_filter hr))))

theorem leaves_add (h : Represents s rs) (name value : JString) :
    Leaves s rs (headersOf s.heap rs ++ [(name, value)])
      (addHeader0 (hash name) (index (hash name)) name value s) := by
  obtain ⟨hrep, hframe, hdata⟩ := h.addHeader0_spec name value
  refine ⟨_, hrep, ?_, hframe, fun r hr => ?_⟩
  · rw [headersOf, List.map_append, ← headersOf, headersOf_of_frame h hframe, List.map_singleton,
      hdata]
  · rcases List.mem_append.mp hr with hr | hr
    · exact .inl hr
    · rw [List.mem_singleton.mp hr]
      exact .inr (Nat.le_refl _)

/-- One operation after another. -/
theorem Leaves.bind (h : Leaves s rs hs s')
    (h' : ∀ rs', Represents s' rs' → headersOf s'.heap rs' = hs → Leaves s' rs' hs' s'') :
    Leaves s rs hs' s'' := by
  obtain ⟨rs1, hrep1, hhs1, hframe1, hsub1⟩ := h
  obtain ⟨rs2, hrep2, hhs2, hframe2, hsub2⟩ := h' rs1 hrep1 hhs1
  refine ⟨rs2, hrep2, hhs2, hframe1.trans hframe2 hsub1, fun r hr => ?_⟩
  rcases hsub2 r hr with hr | hle
  · exact hsub1 r hr
  · exact .inr (Nat.le_trans hframe1.size hle)

theorem leaves_addValues (name : JString) (values : List HeaderObject) (h : Represents s rs) :
    (addValues V name values s).1 = (specAddValues V name values (headersOf s.heap rs)).1 ∧
      Leaves s rs (specAddValues V name values (headersOf s.heap rs)).2
        (addValues V name values s).2 := by
  induction values generalizing s rs with
  | nil => exact ⟨rfl, leaves_self h⟩
  | cons v vs ih =>
    cases v with
    | none => exact ⟨rfl, leaves_self h⟩
    | some v =>
      rw [addValues, specAddValues]
      cases validateHeaderValue V v with
      | error e => exact ⟨rfl, leaves_self h⟩
      | ok strVal =>
        obtain ⟨rs1, hrep1, hhs1, hframe1, hsub1⟩ := leaves_add h name strVal
        obtain ⟨hans, hleaves⟩ := ih hrep1
        rw [hhs1] at hans hleaves
        refine ⟨hans, Leaves.bind ⟨rs1, hrep1, hhs1, hframe1, hsub1⟩ fun rs' hrep' hhs' => ?_⟩
        have := (ih hrep').2
        rw [hhs'] at this
        exact this

theorem leaves_set (h : Represents s rs) (name value : JString) :
    ∃ s', removeHeader0 (hash name) (index (hash name)) name s = some s' ∧
      Leaves s rs ((headersOf s.heap rs).setHeader name value)
        (addHeader0 (hash name) (index (hash name)) name value s') := by
  obtain ⟨s', hrun, hleaves⟩ := leaves_remove h name
  refine ⟨s', hrun, hleaves.bind fun rs' hrep' hhs' => ?_⟩
  rw [HttpHeaders.setHeader, ← hhs']
  exact leaves_add hrep' name value

/-- **One call**: it ends, with the answer and the headers the list gives. -/
theorem exec_spec (h : Represents s rs) (c : HeaderCall) :
    ∃ s', c.exec V s = some ((c.spec V (headersOf s.heap rs)).1, s') ∧
      Leaves s rs (c.spec V (headersOf s.heap rs)).2 s' := by
  cases c with
  | addHeader name value =>
    rw [HeaderCall.exec, HeaderCall.spec, addHeader]
    cases validateHeaderName V name with
    | error e => exact ⟨s, rfl, leaves_self h⟩
    | ok name =>
      cases validateHeaderValue V value.join with
      | error e => exact ⟨s, rfl, leaves_self h⟩
      | ok value => exact ⟨_, rfl, leaves_add h name value⟩
  | setHeader name value =>
    rw [HeaderCall.exec, HeaderCall.spec, setHeader]
    cases validateHeaderName V name with
    | error e => exact ⟨s, rfl, leaves_self h⟩
    | ok name =>
      cases validateHeaderValue V value.join with
      | error e => exact ⟨s, rfl, leaves_self h⟩
      | ok value =>
        obtain ⟨s', hrun, hleaves⟩ := leaves_set h name value
        dsimp only
        rw [hrun]
        exact ⟨_, rfl, hleaves⟩
  | setHeaders name values =>
    cases values with
    | none => exact ⟨s, rfl, leaves_self h⟩
    | some values =>
      rw [HeaderCall.exec, HeaderCall.spec, setHeaders, specSetHeaders]
      cases validateHeaderName V name with
      | error e => exact ⟨s, rfl, leaves_self h⟩
      | ok name =>
        obtain ⟨s', hrun, hleaves⟩ := leaves_remove h name
        obtain ⟨rs', hrep', hhs', -, -⟩ := id hleaves
        have hans := (leaves_addValues (V := V) name values hrep').1
        rw [hhs'] at hans
        dsimp only
        rw [hrun]
        refine ⟨_, congrArg (fun a => some (answer _ a, _)) hans,
          hleaves.bind fun rs1 hrep1 hhs1 => ?_⟩
        rw [← hhs1]
        exact (leaves_addValues name values hrep1).2
  | removeHeader name =>
    cases name with
    | none => exact ⟨s, rfl, leaves_self h⟩
    | some name =>
      obtain ⟨s', hrun, hleaves⟩ := leaves_remove h name
      rw [HeaderCall.exec, HeaderCall.spec, removeHeader]
      dsimp only
      rw [hrun]
      exact ⟨_, rfl, hleaves⟩
  | clearHeaders =>
    obtain ⟨hrep, hframe⟩ := h.clearHeaders_spec
    exact ⟨_, rfl, [], hrep, rfl, hframe, fun r hr => absurd hr List.not_mem_nil⟩
  | getHeader name =>
    cases name with
    | none => exact ⟨s, rfl, leaves_self h⟩
    | some name =>
      rw [HeaderCall.exec, h.getHeader_spec name]
      exact ⟨s, rfl, leaves_self h⟩
  | getHeaders name =>
    cases name with
    | none => exact ⟨s, rfl, leaves_self h⟩
    | some name =>
      rw [HeaderCall.exec, h.getHeaders_spec name]
      exact ⟨s, rfl, leaves_self h⟩
  | getAllHeaders =>
    rw [HeaderCall.exec, h.getAllHeaders_spec]
    exact ⟨s, rfl, leaves_self h⟩
  | containsHeader name =>
    cases name with
    | none => exact ⟨s, rfl, leaves_self h⟩
    | some name =>
      rw [HeaderCall.exec, containsHeader, h.getHeader_spec name]
      exact ⟨s, rfl, leaves_self h⟩

end Calls

/-! ## All tables -/

/-- The header tables of all messages, in the order they were created. -/
structure HeaderObjects where
  heap : Heap HeaderEntry
  tables : List HeaderTable

/-- No message yet. -/
def HeaderObjects.empty : HeaderObjects := ⟨⟨[]⟩, []⟩

/-- What the program does: it creates a message, or calls one. -/
inductive HeaderEvent where
  | create
  | call (i : Nat) (c : HeaderCall)

section Objects

variable (V : Validation)

/-- One event; `none` when the call does not end. A message that does not exist is not called. -/
def step (o : HeaderObjects) : HeaderEvent → Option (HeaderAnswer × HeaderObjects)
  | .create =>
    let s := new o.heap
    some (.done, ⟨s.heap, o.tables ++ [s.toHeaderTable]⟩)
  | .call i c =>
    match o.tables[i]? with
    | none => some (.done, o)
    | some t => (c.exec V ⟨t, o.heap⟩).map fun r =>
        (r.1, ⟨r.2.heap, o.tables.set i r.2.toHeaderTable⟩)

/-- One event on the lists of headers of the messages. -/
def specStep (hss : List HttpHeaders) : HeaderEvent → HeaderAnswer × List HttpHeaders
  | .create => (.done, hss ++ [[]])
  | .call i c =>
    match hss[i]? with
    | none => (.done, hss)
    | some hs => ((c.spec V hs).1, hss.set i (c.spec V hs).2)

/-- The answers to a sequence of events. -/
def run : List HeaderEvent → HeaderObjects → Option (List HeaderAnswer)
  | [], _ => some []
  | e :: es, o =>
    match step V o e with
    | none => none
    | some (a, o') => (run es o').map (a :: ·)

/-- The answers of the lists. -/
def specRun : List HeaderEvent → List HttpHeaders → List HeaderAnswer
  | [], _ => []
  | e :: es, hss => (specStep V hss e).1 :: specRun es (specStep V hss e).2

/-- **The invariant of all tables**: each of them represents its list of headers, and no two have an
object in common. -/
structure Shows (o : HeaderObjects) (cells : Nat → List Ref) (hss : List HttpHeaders) : Prop where
  length : hss.length = o.tables.length
  table : ∀ i t, o.tables[i]? = some t →
    Represents ⟨t, o.heap⟩ (cells i) ∧ hss[i]? = some (headersOf o.heap (cells i))
  apart : ∀ i j t u, i ≠ j → o.tables[i]? = some t → o.tables[j]? = some u →
    ∀ r ∈ t.head :: cells i, r ∉ u.head :: cells j

variable {V} {o o' : HeaderObjects} {cells : Nat → List Ref} {hss : List HttpHeaders}

/-- A table none of whose objects changed. -/
theorem represents_of_get_eq {t : HeaderTable} {heap heap' : Heap HeaderEntry} {rs : List Ref}
    (h : Represents ⟨t, heap⟩ rs) (hsize : heap.size ≤ heap'.size)
    (hget : ∀ r ∈ t.head :: rs, heap'.get r = heap.get r) :
    Represents ⟨t, heap'⟩ rs ∧ headersOf heap' rs = headersOf heap rs := by
  have hdata : ∀ r ∈ rs, datas heap' r = datas heap r :=
    fun r hr => Heap.field_congr (hget r (List.mem_cons_of_mem _ hr)) _
  refine ⟨⟨h.ring.congr (fun r hr => ?_) fun r hr => ?_, fun i => ?_, fun r hr => ?_,
    fun r hr => Nat.lt_of_lt_of_le (h.allocated r hr) hsize⟩, ?_⟩
  · exact (Heap.field_congr (hget r hr) _).symm
  · exact (Heap.field_congr (hget r hr) _).symm
  · have hfilter : rs.filter (inBucket heap' i) = rs.filter (inBucket heap i) := by
      refine List.filter_congr fun r hr => ?_
      rw [inBucket, inBucket, hdata r hr]
    rw [hfilter]
    refine (chain_congr fun r hr => ?_).mp (h.bucket i)
    have hr := List.mem_of_mem_filter (List.mem_reverse.mp hr)
    exact (Heap.field_congr (hget r (List.mem_cons_of_mem _ hr)) _).symm
  · rw [hdata r hr]
    exact h.hashed r hr
  · refine List.map_congr_left fun r hr => ?_
    rw [hdata r hr]

/-- Creating a message keeps the invariant: its head is a new object. -/
theorem shows_create (h : Shows o cells hss) :
    Shows ⟨(new o.heap).heap, o.tables ++ [(new o.heap).toHeaderTable]⟩
      (update cells o.tables.length []) (hss ++ [[]]) := by
  obtain ⟨hrep, hsize, hhead, hget⟩ := represents_new o.heap
  have hlt : ∀ {i t}, o.tables[i]? = some t → i < o.tables.length :=
    fun ht => (List.getElem?_eq_some_iff.mp ht).1
  have hold : ∀ i t, o.tables[i]? = some t → ∀ r ∈ t.head :: cells i, r < o.heap.size :=
    fun i t ht => (h.table i t ht).1.allocated
  have hcases : ∀ i t, (o.tables ++ [(new o.heap).toHeaderTable])[i]? = some t →
      o.tables[i]? = some t ∨ i = o.tables.length ∧ t = (new o.heap).toHeaderTable := by
    intro i t ht
    rcases Nat.lt_trichotomy i o.tables.length with hi | rfl | hi
    · rw [List.getElem?_append_left hi] at ht
      exact .inl ht
    · rw [List.getElem?_concat_length] at ht
      exact .inr ⟨rfl, (Option.some.inj ht).symm⟩
    · rw [List.getElem?_eq_none (by rw [List.length_append]; exact hi)] at ht
      exact absurd ht (Option.some_ne_none t).symm
  refine ⟨?_, fun i t ht => ?_, fun i j t u hij ht hu r hr => ?_⟩
  · rw [List.length_append, List.length_append, h.length]
    rfl
  · rcases hcases i t ht with ht | ⟨rfl, rfl⟩
    · obtain ⟨hrepi, hhs⟩ := h.table i t ht
      have hkeep := represents_of_get_eq hrepi (Nat.le_of_lt hsize)
        fun r hr => hget r (hold i t ht r hr)
      rw [Function.update_of_ne (Nat.ne_of_lt (hlt ht))]
      refine ⟨hkeep.1, ?_⟩
      rw [List.getElem?_append_left (by rw [h.length]; exact hlt ht), hhs, hkeep.2]
    · rw [Function.update_self, ← h.length]
      exact ⟨hrep, List.getElem?_concat_length⟩
  · rcases hcases i t ht with ht | ⟨rfl, rfl⟩
    · rw [Function.update_of_ne (Nat.ne_of_lt (hlt ht))] at hr
      rcases hcases j u hu with hu | ⟨rfl, rfl⟩
      · rw [Function.update_of_ne (Nat.ne_of_lt (hlt hu))]
        exact h.apart i j t u hij ht hu r hr
      · rw [Function.update_self, hhead]
        exact fun hm => Nat.lt_irrefl _ (List.mem_singleton.mp hm ▸ hold i t ht r hr)
    · rw [Function.update_self, hhead, List.mem_singleton] at hr
      rcases hcases j u hu with hu | ⟨rfl, rfl⟩
      · rw [Function.update_of_ne (Nat.ne_of_lt (hlt hu)), hr]
        exact fun hm => Nat.lt_irrefl _ (hold j u hu _ hm)
      · exact absurd rfl hij

/-- A call on a message keeps the invariant: it stays on the objects of its message, and on new
ones. -/
theorem shows_call {i : Nat} {t : HeaderTable} {s' : HeaderState} {hs : HttpHeaders}
    (h : Shows o cells hss) (ht : o.tables[i]? = some t)
    (hleaves : Leaves ⟨t, o.heap⟩ (cells i) hs s') :
    ∃ cells', Shows ⟨s'.heap, o.tables.set i s'.toHeaderTable⟩ cells' (hss.set i hs) := by
  obtain ⟨rs, hrep, hhs, hframe, hsub⟩ := hleaves
  have hi : i < o.tables.length := (List.getElem?_eq_some_iff.mp ht).1
  have hhead : s'.head = t.head := hframe.head
  have hold : ∀ j u, o.tables[j]? = some u → ∀ r ∈ u.head :: cells j, r < o.heap.size :=
    fun j u hu => (h.table j u hu).1.allocated
  -- an object of the message was one before, or is new
  have hmine : ∀ r ∈ s'.head :: rs, r ∈ t.head :: cells i ∨ o.heap.size ≤ r := by
    intro r hr
    rw [hhead] at hr
    rcases List.mem_cons.mp hr with rfl | hr
    · exact .inl List.mem_cons_self
    · exact (hsub r hr).imp_left (List.mem_cons_of_mem _)
  have hapart : ∀ j u, i ≠ j → o.tables[j]? = some u → ∀ r ∈ s'.head :: rs,
      r ∉ u.head :: cells j := by
    intro j u hij hu r hr hm
    rcases hmine r hr with hr | hle
    · exact h.apart i j t u hij ht hu r hr hm
    · exact absurd (hold j u hu r hm) (Nat.not_lt.mpr hle)
  have hcases : ∀ j u, (o.tables.set i s'.toHeaderTable)[j]? = some u →
      i ≠ j ∧ o.tables[j]? = some u ∨ i = j ∧ u = s'.toHeaderTable := by
    intro j u hu
    by_cases hij : i = j
    · subst hij
      rw [List.getElem?_set_self hi] at hu
      exact .inr ⟨rfl, (Option.some.inj hu).symm⟩
    · rw [List.getElem?_set_ne hij] at hu
      exact .inl ⟨hij, hu⟩
  refine ⟨update cells i rs, ?_, fun j u hu => ?_, fun j k u v hjk hu hv r hr => ?_⟩
  · rw [List.length_set, List.length_set, h.length]
  · rcases hcases j u hu with ⟨hij, hu⟩ | ⟨rfl, rfl⟩
    · obtain ⟨hrepj, hhsj⟩ := h.table j u hu
      have hkeep := represents_of_get_eq hrepj hframe.size fun r hr =>
        hframe.other r (hold j u hu r hr) fun hm => h.apart i j t u hij ht hu r hm hr
      rw [Function.update_of_ne (Ne.symm hij), List.getElem?_set_ne hij]
      exact ⟨hkeep.1, by rw [hhsj, hkeep.2]⟩
    · rw [Function.update_self, List.getElem?_set_self (by rw [h.length]; exact hi), hhs]
      exact ⟨hrep, rfl⟩
  · rcases hcases j u hu with ⟨hij, hu⟩ | ⟨rfl, rfl⟩
    · rw [Function.update_of_ne (Ne.symm hij)] at hr
      rcases hcases k v hv with ⟨hik, hv⟩ | ⟨rfl, rfl⟩
      · rw [Function.update_of_ne (Ne.symm hik)]
        exact h.apart j k u v hjk hu hv r hr
      · rw [Function.update_self]
        exact fun hm => hapart j u hij hu r hm hr
    · rw [Function.update_self] at hr
      rcases hcases k v hv with ⟨hik, hv⟩ | ⟨rfl, rfl⟩
      · rw [Function.update_of_ne (Ne.symm hik)]
        exact hapart k v hik hv r hr
      · exact absurd rfl hjk

/-- **One event**: it ends, with the answer of the lists, and the invariant is kept. -/
theorem step_spec (h : Shows o cells hss) (e : HeaderEvent) :
    ∃ o' cells', step V o e = some ((specStep V hss e).1, o') ∧
      Shows o' cells' (specStep V hss e).2 := by
  cases e with
  | create => exact ⟨_, _, rfl, shows_create h⟩
  | call i c =>
    rw [step, specStep]
    cases ht : o.tables[i]? with
    | none =>
      have hnone : hss[i]? = none := by
        rw [List.getElem?_eq_none_iff, h.length]
        exact List.getElem?_eq_none_iff.mp ht
      rw [hnone]
      exact ⟨o, cells, rfl, h⟩
    | some t =>
      obtain ⟨hrep, hhs⟩ := h.table i t ht
      obtain ⟨s', hexec, hleaves⟩ := exec_spec (V := V) hrep c
      obtain ⟨cells', hshows⟩ := shows_call h ht hleaves
      rw [hhs]
      dsimp only
      rw [hexec]
      exact ⟨_, cells', rfl, hshows⟩

theorem run_of_shows (h : Shows o cells hss) (es : List HeaderEvent) :
    run V es o = some (specRun V es hss) := by
  induction es generalizing o cells hss with
  | nil => rfl
  | cons e es ih =>
    obtain ⟨o', cells', hstep, hshows⟩ := step_spec (V := V) h e
    rw [run, hstep, specRun]
    dsimp only
    rw [ih hshows]
    rfl

theorem shows_empty : Shows .empty (fun _ => []) [] :=
  ⟨rfl, fun i t ht => by simp [HeaderObjects.empty] at ht,
    fun i j t u _ ht => by simp [HeaderObjects.empty] at ht⟩

/-- **The header tables are lists of headers**: whatever messages are created and called, in any
order and with any arguments, every call ends and answers what the lists answer. -/
theorem run_eq_specRun (V : Validation) (es : List HeaderEvent) :
    run V es .empty = some (specRun V es []) := run_of_shows shows_empty es

end Objects

end Terminator.Netty.HeaderTable
