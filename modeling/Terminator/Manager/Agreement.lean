import Terminator.Manager.Requests

/-!
# Whether the row agrees with the running server

After all requests are done the row of the link should say running exactly when a server is
registered for it, and that server should be bound. A request decides by its lookup in
`linkIdServerMap` and writes the row at its end. When a `startServer` and a `stopServer` overlap in
between, the one may write the row after the other has changed the map.

**`agrees_of_apart`**: requests that start and requests that stop the link may run side by side with
their own kind; as long as none looks the server up while one of the other kind is between its
lookup and its write, the row agrees whenever all of them are done. The server is bound then if no
stop has failed at it.
-/

namespace Terminator.Manager.Requests

open Terminator.Java Terminator.Run

/-- The row of the link says running. -/
def RowRunning (id : Nat) (c : LinkControl) : Prop :=
  ∃ row, c.table.rows id = some row ∧ row.status = some .running

/-- The server has its port. -/
def Bound (c : LinkControl) (q : Ref) : Prop := (c.servers.get q).state = .running

/-- **The row says running** exactly when a server is registered, and that server is bound. -/
structure Agrees (id : Nat) (c : LinkControl) : Prop where
  row : RowRunning id c ↔ c.linkIdServerMap id ≠ none
  bound : ∀ q, c.linkIdServerMap id = some q → Bound c q

/-- A `startServer` has looked the server up and has not written the row. -/
def Phase.Starting : Phase → Prop
  | startMissing _ _ | startOpened _ _ | startLinkPut _ _ | startRegistered _ => True
  | _ => False

/-- A `stopServer` has looked the server up and has not written the row. -/
def Phase.Stopping : Phase → Prop
  | stopFound _ _ _ | stopStopped _ | stopUnregistered _ | stopLinkRemoved _ => True
  | _ => False

/-- A `stopServer` that has nothing to do any more but to write the row. -/
def Phase.Stopped : Phase → Prop
  | stopUnregistered _ | stopLinkRemoved _ => True
  | _ => False

/-- The requests are those that start and stop the link. -/
def Event.StartsOrStops : Event → Prop
  | begin _ (.startServer _) | begin _ (.stopServer _) | go _ => True
  | begin _ (.changeWorkMode _) | updateLink _ => False

/-- No request looks the server up while one of the other kind is between its lookup and its
write. -/
def Apart (e : Event) (s : Threads) : Prop :=
  ∀ t, e = .go t →
    (∀ up l, s.phase t = .startRead up l → ∀ u, ¬ (s.phase u).Stopping) ∧
      ∀ stops l, s.phase t = .stopRead stops l → ∀ u, ¬ (s.phase u).Starting

/-- The server that a `stopServer` has found can be stopped. -/
def Releases (e : Event) (s : Threads) : Prop :=
  ∀ t, e = .go t → ∀ stops l q, s.phase t = .stopFound stops l q → stops = true

/-! ## The invariant -/

/-- An object that will be written back to the row. -/
def Copy (id : Nat) (c : LinkControl) (l : Ref) : Prop :=
  (c.links.get l).id = some id ∧ c.table.rows id ≠ none

/-- What a thread may rely on. -/
def PhaseOk (id : Nat) (c : LinkControl) : Phase → Prop
  | .idle | .done => True
  | .startRead _ l | .startMissing _ l | .stopRead _ l | .stopFound _ l _ | .stopStopped l =>
    Copy id c l
  | .startOpened l q | .startLinkPut l q => Copy id c l ∧ Bound c q
  | .startRegistered l => Copy id c l ∧ c.linkIdServerMap id ≠ none
  | .stopUnregistered l | .stopLinkRemoved l => Copy id c l ∧ c.linkIdServerMap id = none
  | .changeFound _ _ | .changeSet _ | .changeRead _ _ => False

/-- Where the row, the map and the server disagree, a request is about to put it right. No more is
said of the servers if one may lose its channels to a stop that fails. -/
structure Inv (id : Nat) (releases : Prop) (s : Threads) : Prop where
  phases : ∀ t, PhaseOk id s.control (s.phase t)
  apart : ∀ t u, (s.phase t).Starting → ¬ (s.phase u).Stopping
  bound : releases → ∀ q, s.control.linkIdServerMap id = some q →
    Bound s.control q ∨ ∃ u l, s.phase u = .stopStopped l
  row : RowRunning id s.control → s.control.linkIdServerMap id ≠ none ∨ ∃ u, (s.phase u).Stopped
  registered : s.control.linkIdServerMap id ≠ none →
    RowRunning id s.control ∨ ∃ u l, s.phase u = .startRegistered l

theorem inv_ready {id : Nat} {releases : Prop} {c : LinkControl} (h : Agrees id c) :
    Inv id releases (ready c) where
  phases _ := trivial
  apart _ _ h _ := h
  bound _ q hq := .inl (h.bound q hq)
  row hrow := .inl (h.row.mp hrow)
  registered hq := .inl (h.row.mpr hq)

/-- **When all requests are done** nobody is left to put anything right. -/
theorem Inv.row_iff {id : Nat} {releases : Prop} {s : Threads} (h : Inv id releases s)
    (hdone : s.Completed) : RowRunning id s.control ↔ s.control.linkIdServerMap id ≠ none := by
  refine ⟨fun hrow => (h.row hrow).resolve_right ?_, fun hq => (h.registered hq).resolve_right ?_⟩
  · rintro ⟨u, hu⟩
    rcases hdone u with hidle | hdone
    · rw [hidle] at hu
      exact hu
    · rw [hdone] at hu
      exact hu
  · rintro ⟨u, l, hu⟩
    rcases hdone u with hidle | hdone
    · rw [hidle] at hu
      cases hu
    · rw [hdone] at hu
      cases hu

theorem Inv.agrees {id : Nat} {releases : Prop} {s : Threads} (h : Inv id releases s)
    (hreleases : releases) (hdone : s.Completed) : Agrees id s.control := by
  refine ⟨h.row_iff hdone, fun q hq => (h.bound hreleases q hq).resolve_right ?_⟩
  rintro ⟨u, l, hu⟩
  rcases hdone u with hidle | hdone
  · rw [hidle] at hu
    cases hu
  · rw [hdone] at hu
    cases hu

/-! ## What a statement leaves alone -/

section Statements

variable {id : Nat} {c c' : LinkControl} {l q : Ref} {p : Phase}

/-- A reference to a link with an id is allocated. -/
theorem lt_size_of_id (h : (c.links.get l).id = some id) : l < c.links.size := by
  by_contra hlt
  rw [Heap.get_of_size_le (Nat.le_of_not_lt hlt)] at h
  cases h

/-- A reference to a server that is bound is allocated. -/
theorem lt_size_of_bound (h : Bound c q) : q < c.servers.size := by
  by_contra hlt
  unfold Bound at h
  rw [Heap.get_of_size_le (Nat.le_of_not_lt hlt)] at h
  cases h

theorem Bound.of_servers (h : Bound c q)
    (hservers : c'.servers = c.servers ∨ ∃ server, c'.servers = (c.servers.alloc server).2) :
    Bound c' q := by
  have hlt := lt_size_of_bound h
  unfold Bound at h ⊢
  rcases hservers with hservers | ⟨server, hservers⟩
  · rw [hservers]
    exact h
  · rw [hservers, Heap.get_alloc_of_lt hlt]
    exact h

/-- What a thread relies on survives what the others do: no object loses its id, no row goes, and
only a request of the other kind unbinds a server or changes the map. -/
theorem PhaseOk.frame (h : PhaseOk id c p)
    (hids : ∀ l, (c.links.get l).id = some id → (c'.links.get l).id = some id)
    (hrow : c.table.rows id ≠ none → c'.table.rows id ≠ none)
    (hbound : p.Starting → ∀ q, Bound c q → Bound c' q)
    (hsome : p.Starting → c.linkIdServerMap id ≠ none → c'.linkIdServerMap id ≠ none)
    (hnone : p.Stopping → c.linkIdServerMap id = none → c'.linkIdServerMap id = none) :
    PhaseOk id c' p := by
  have hcopy : ∀ {l}, Copy id c l → Copy id c' l := fun h => ⟨hids _ h.1, hrow h.2⟩
  cases p with
  | idle | done => trivial
  | startRead | startMissing | stopRead | stopFound | stopStopped => exact hcopy h
  | startOpened l q | startLinkPut l q => exact ⟨hcopy h.1, hbound trivial _ h.2⟩
  | startRegistered l => exact ⟨hcopy h.1, hsome trivial h.2⟩
  | stopUnregistered l | stopLinkRemoved l => exact ⟨hcopy h.1, hnone trivial h.2⟩
  | changeFound | changeSet | changeRead => exact h

/-- An assignment that leaves the id of its link alone. -/
theorem ids_set {h : Heap Link} (f : Link → Link) (hf : ∀ link, (f link).id = link.id) (l' : Ref)
    (hid : (h.get l').id = some id) : ((h.set l (f (h.get l))).get l').id = some id := by
  rcases Heap.get_set_or h l l' (f (h.get l)) with hget | ⟨rfl, hget⟩
  · rw [hget]
    exact hid
  · rw [hget, hf]
    exact hid

theorem Builds.ids (h : Builds c l c') (l' : Ref) (hid : (c.links.get l').id = some id) :
    (c'.links.get l').id = some id := by
  rcases h.links with hlinks | ⟨signer, extractor, hlinks⟩
  · rw [hlinks]
    exact hid
  · rw [hlinks]
    exact ids_set (Link.configured signer extractor) (fun _ => rfl) l' hid

theorem ids_statusWritten (status : ServerStatus) (l l' : Ref) (c : LinkControl)
    (hid : (c.links.get l').id = some id) :
    ((statusWritten status l c).links.get l').id = some id :=
  ids_set (fun link => { link with status := some status }) (fun _ => rfl) l' hid

/-- **Writing the row** makes it say what is written. -/
theorem rows_statusWritten (status : ServerStatus) (h : Copy id c l) :
    ∃ row, (statusWritten status l c).table.rows id = some row ∧ row.status = some status := by
  obtain ⟨row, hrow⟩ := Option.ne_none_iff_exists'.mp h.2
  have hlt := lt_size_of_id h.1
  unfold statusWritten
  dsimp only
  rw [Heap.get_set_self hlt]
  unfold LinkTable.updateLink
  rw [h.1, LinkTable.rows_update_self, hrow]
  exact ⟨_, rfl, rfl⟩

theorem exists_statusWritten (status : ServerStatus) (h : Copy id c l) :
    (statusWritten status l c).table.rows id ≠ none := by
  obtain ⟨row, hrow, -⟩ := rows_statusWritten status h
  rw [hrow]
  exact Option.some_ne_none _

theorem rowRunning_statusWritten (status : ServerStatus) (h : Copy id c l) :
    RowRunning id (statusWritten status l c) ↔ status = .running := by
  obtain ⟨row, hrow, hstatus⟩ := rows_statusWritten status h
  unfold RowRunning
  rw [hrow]
  simp [hstatus]

end Statements

/-- A statement that leaves the row, the entry of the map, and the servers that are bound. -/
structure Quiet (id : Nat) (c c' : LinkControl) : Prop where
  table : c'.table = c.table
  map : c'.linkIdServerMap id = c.linkIdServerMap id
  bound : ∀ q, Bound c q → Bound c' q
  ids : ∀ l, (c.links.get l).id = some id → (c'.links.get l).id = some id

section Quiet

variable {id : Nat} {c c' : LinkControl} {l : Ref} {p : Phase}

theorem Quiet.refl (id : Nat) (c : LinkControl) : Quiet id c c :=
  ⟨rfl, rfl, fun _ h => h, fun _ h => h⟩

theorem Builds.quiet (h : Builds c l c') : Quiet id c c' :=
  ⟨h.table, congrFun h.serverMap id, fun _ hq => hq.of_servers h.servers, h.ids⟩

theorem quiet_alloc (id : Nat) (c : LinkControl) (link : Link) :
    Quiet id c { c with links := (c.links.alloc link).2 } :=
  ⟨rfl, rfl, fun _ h => h, fun l hl => by rw [Heap.get_alloc_of_lt (lt_size_of_id hl), hl]⟩

theorem Quiet.copy (h : Quiet id c c') (hl : Copy id c l) : Copy id c' l :=
  ⟨h.ids l hl.1, by rw [h.table]; exact hl.2⟩

theorem Quiet.phaseOk (h : Quiet id c c') (hp : PhaseOk id c p) : PhaseOk id c' p :=
  hp.frame h.ids (fun hrow => by rw [h.table]; exact hrow) (fun _ => h.bound)
    (fun _ hq => by rw [h.map]; exact hq) fun _ hq => by rw [h.map]; exact hq

theorem Quiet.rowRunning_iff (h : Quiet id c c') : RowRunning id c' ↔ RowRunning id c := by
  unfold RowRunning
  rw [h.table]

/-- A row that was selected, as an object. -/
theorem copy_alloc {link : Link} (h : c.table.selectLinkById id = some link) :
    Copy id { c with links := (c.links.alloc link).2 } c.links.size := by
  obtain ⟨row, hrow, -, -⟩ := LinkTable.selectLinkById_eq_some h
  refine ⟨?_, by rw [hrow]; exact Option.some_ne_none _⟩
  rw [Heap.get_alloc_self]
  exact LinkTable.id_of_selectLinkById h

end Quiet

/-! ## The steps -/

section Steps

variable {id t : Nat} {releases : Prop} {s : Threads} {c' : LinkControl} {p p' : Phase}

theorem Phase.Starting.not_stopping (h : p.Starting) : ¬ p.Stopping := by
  cases p with
  | startMissing | startOpened | startLinkPut | startRegistered => exact fun hp => hp
  | _ => exact h.elim

/-- Somebody who is about to do something still is, when it is not the thread that took the step,
or when that one has not done it yet. -/
theorem exists_update {P : Phase → Prop} {phase : Nat → Phase} (h : ∃ u, P (phase u))
    (ht : P (phase t) → P p') : ∃ u, P (Function.update phase t p' u) := by
  obtain ⟨u, hu⟩ := h
  refine ⟨u, ?_⟩
  by_cases hut : u = t
  · rw [hut, Function.update_self]
    exact ht (hut ▸ hu)
  · rw [Function.update_of_ne hut]
    exact hu

/-- The thread does not turn to a start beside a stop, or to a stop beside a start. -/
structure Joins (s : Threads) (p' : Phase) : Prop where
  start : p'.Starting → ∀ u, ¬ (s.phase u).Stopping
  stop : p'.Stopping → ∀ u, ¬ (s.phase u).Starting

theorem Joins.apart (h : Joins s p') (hs : ∀ t u, (s.phase t).Starting → ¬ (s.phase u).Stopping)
    (u v : Nat) (hu : (Function.update s.phase t p' u).Starting) :
    ¬ (Function.update s.phase t p' v).Stopping := by
  intro hv
  by_cases hut : u = t
  · rw [hut, Function.update_self] at hu
    by_cases hvt : v = t
    · rw [hvt, Function.update_self] at hv
      exact hu.not_stopping hv
    · rw [Function.update_of_ne hvt] at hv
      exact h.start hu v hv
  · rw [Function.update_of_ne hut] at hu
    by_cases hvt : v = t
    · rw [hvt, Function.update_self] at hv
      exact h.stop hv u hu
    · rw [Function.update_of_ne hvt] at hv
      exact hs u v hu hv

/-- The other threads, and the one that took the step. -/
theorem phases_update (h : PhaseOk id c' p') (hother : ∀ u, u ≠ t → PhaseOk id c' (s.phase u))
    (u : Nat) : PhaseOk id c' (Function.update s.phase t p' u) := by
  by_cases hut : u = t
  · rw [hut, Function.update_self]
    exact h
  · rw [Function.update_of_ne hut]
    exact hother u hut

theorem joins_of_neither (hstart : ¬ p'.Starting) (hstop : ¬ p'.Stopping) : Joins s p' :=
  ⟨fun h => absurd h hstart, fun h => absurd h hstop⟩

/-- A start that goes on. -/
theorem joins_of_starting (h : Inv id releases s) (ht : (s.phase t).Starting) (hp : p'.Starting) :
    Joins s p' :=
  ⟨fun _ u => h.apart t u ht, fun hstop => absurd hstop hp.not_stopping⟩

/-- A stop that goes on. -/
theorem joins_of_stopping (h : Inv id releases s) (ht : (s.phase t).Stopping) (hp : p'.Stopping) :
    Joins s p' :=
  ⟨fun hstart => absurd hp hstart.not_stopping, fun _ u hu => h.apart u t hu ht⟩

/-- **A quiet step** of a thread nobody waits for. -/
theorem Inv.quiet (h : Inv id releases s) (hq : Quiet id s.control c') (hp : PhaseOk id c' p')
    (hjoins : Joins s p') (hstopped : ∀ l, s.phase t ≠ .stopStopped l)
    (hstop : (s.phase t).Stopped → p'.Stopped) (hregistered : ∀ l, s.phase t ≠ .startRegistered l) :
    Inv id releases ⟨c', Function.update s.phase t p'⟩ where
  phases := phases_update hp fun u _ => hq.phaseOk (h.phases u)
  apart := hjoins.apart h.apart
  bound hreleases q hmap := by
    rw [hq.map] at hmap
    rcases h.bound hreleases q hmap with hbound | hu
    · exact .inl (hq.bound q hbound)
    · refine .inr (exists_update (P := fun p => ∃ l, p = .stopStopped l) hu ?_)
      rintro ⟨l, hl⟩
      exact absurd hl (hstopped l)
  row hrow := by
    rcases h.row (hq.rowRunning_iff.mp hrow) with hmap | hu
    · exact .inl (by rw [hq.map]; exact hmap)
    · exact .inr (exists_update hu hstop)
  registered hmap := by
    rw [hq.map] at hmap
    rcases h.registered hmap with hrow | hu
    · exact .inl (hq.rowRunning_iff.mpr hrow)
    · refine .inr (exists_update (P := fun p => ∃ l, p = .startRegistered l) hu ?_)
      rintro ⟨l, hl⟩
      exact absurd hl (hregistered l)

/-- **A server is registered**: it is bound, and its request will write the row. -/
theorem Inv.startRegistered (h : Inv id releases s) {l q : Ref}
    (ht : s.phase t = .startLinkPut l q) :
    Inv id releases ⟨{ s.control with
      linkIdServerMap := Function.update s.control.linkIdServerMap id (some q) },
      Function.update s.phase t (.startRegistered l)⟩ := by
  have hok := h.phases t
  rw [ht] at hok
  have hstarting : (s.phase t).Starting := by
    rw [ht]
    trivial
  have hself : Function.update s.control.linkIdServerMap id (some q) id = some q :=
    Function.update_self _ _ _
  have hsome : Function.update s.control.linkIdServerMap id (some q) id ≠ none := by
    rw [hself]
    exact Option.some_ne_none _
  have hjoins : Joins s (.startRegistered l) := joins_of_starting h hstarting trivial
  refine ⟨phases_update ⟨hok.1, hsome⟩ fun u _ => ?_, hjoins.apart h.apart,
    fun _ q' hq' => .inl ?_, fun _ => .inl hsome, fun _ => .inr ⟨t, l, Function.update_self _ _ _⟩⟩
  · exact (h.phases u).frame (fun _ hid => hid) (fun hrow => hrow) (fun _ _ hq => hq)
      (fun _ _ => hsome) fun hstop => absurd hstop (h.apart t u hstarting)
  · obtain rfl := Option.some.inj (hself.symm.trans hq')
    exact hok.2

/-- **A start writes the row**: it says running, and a server is registered. -/
theorem Inv.started (h : Inv id releases s) {l : Ref} (ht : s.phase t = .startRegistered l) :
    Inv id releases ⟨statusWritten .running l s.control, Function.update s.phase t .done⟩ := by
  have hok := h.phases t
  rw [ht] at hok
  have hrow : RowRunning id (statusWritten .running l s.control) :=
    (rowRunning_statusWritten .running hok.1).mpr rfl
  have hjoins : Joins s .done := joins_of_neither (fun hp => hp) fun hp => hp
  refine ⟨phases_update trivial fun u _ => ?_, hjoins.apart h.apart,
    fun hreleases q hq => ?_, fun _ => .inl hok.2, fun _ => .inl hrow⟩
  · exact (h.phases u).frame (ids_statusWritten .running l · s.control)
      (fun _ => exists_statusWritten .running hok.1) (fun _ _ hq => hq) (fun _ hq => hq)
      fun _ hq => hq
  · refine (h.bound hreleases q hq).imp_right fun hu => ?_
    refine exists_update (P := fun p => ∃ l, p = .stopStopped l) hu ?_
    rintro ⟨l', hl'⟩
    rw [ht] at hl'
    cases hl'

/-- **A server is stopped**: its request will take it out of the map. -/
theorem Inv.stopStopped (h : Inv id releases s) {l q : Ref} (ht : s.phase t = .stopFound true l q) :
    Inv id releases ⟨{ s.control with
      servers := s.control.servers.set q { s.control.servers.get q with state := .stopped } },
      Function.update s.phase t (.stopStopped l)⟩ := by
  have hok := h.phases t
  rw [ht] at hok
  have hstopping : (s.phase t).Stopping := by
    rw [ht]
    trivial
  have hjoins : Joins s (.stopStopped l) := joins_of_stopping h hstopping trivial
  refine ⟨phases_update hok fun u _ => ?_, hjoins.apart h.apart,
    fun _ _ _ => .inr ⟨t, l, Function.update_self _ _ _⟩, fun hrow => ?_, fun hmap => ?_⟩
  · exact (h.phases u).frame (fun _ hid => hid) (fun hrow => hrow)
      (fun hstart => absurd hstopping (h.apart u t hstart)) (fun _ hq => hq) fun _ hq => hq
  · refine (h.row hrow).imp_right fun hu => exists_update hu fun hp => ?_
    rw [ht] at hp
    exact hp.elim
  · refine (h.registered hmap).imp_right fun hu => ?_
    refine exists_update (P := fun p => ∃ l, p = .startRegistered l) hu ?_
    rintro ⟨l', hl'⟩
    rw [ht] at hl'
    cases hl'

/-- **A stop fails** at its server, which stays registered. -/
theorem Inv.stopFailed (h : Inv id releases s) (hreleases : ¬ releases) {l q : Ref}
    (ht : s.phase t = .stopFound false l q) :
    Inv id releases ⟨{ s.control with
      servers := s.control.servers.set q { s.control.servers.get q with state := .closed } },
      Function.update s.phase t .done⟩ := by
  have hstopping : (s.phase t).Stopping := by
    rw [ht]
    trivial
  have hjoins : Joins s .done := joins_of_neither (fun hp => hp) fun hp => hp
  refine ⟨phases_update trivial fun u _ => ?_, hjoins.apart h.apart,
    fun h => absurd h hreleases, fun hrow => ?_, fun hmap => ?_⟩
  · exact (h.phases u).frame (fun _ hid => hid) (fun hrow => hrow)
      (fun hstart => absurd hstopping (h.apart u t hstart)) (fun _ hq => hq) fun _ hq => hq
  · refine (h.row hrow).imp_right fun hu => exists_update hu fun hp => ?_
    rw [ht] at hp
    exact hp.elim
  · refine (h.registered hmap).imp_right fun hu => ?_
    refine exists_update (P := fun p => ∃ l, p = .startRegistered l) hu ?_
    rintro ⟨l', hl'⟩
    rw [ht] at hl'
    cases hl'

/-- **A server is taken out of the map**: its request will write the row. -/
theorem Inv.stopUnregistered (h : Inv id releases s) {l : Ref} (ht : s.phase t = .stopStopped l) :
    Inv id releases ⟨{ s.control with
      linkIdServerMap := Function.update s.control.linkIdServerMap id none },
      Function.update s.phase t (.stopUnregistered l)⟩ := by
  have hok := h.phases t
  rw [ht] at hok
  have hstopping : (s.phase t).Stopping := by
    rw [ht]
    trivial
  have hnone : Function.update s.control.linkIdServerMap id none id = none :=
    Function.update_self _ _ _
  have hjoins : Joins s (.stopUnregistered l) := joins_of_stopping h hstopping trivial
  refine ⟨phases_update ⟨hok, hnone⟩ fun u _ => ?_, hjoins.apart h.apart, fun _ q hq => ?_,
    fun _ => .inr ⟨t, ?_⟩, fun hmap => absurd hnone hmap⟩
  · exact (h.phases u).frame (fun _ hid => hid) (fun hrow => hrow) (fun _ _ hq => hq)
      (fun hstart => absurd hstopping (h.apart u t hstart)) fun _ _ => hnone
  · exact absurd (hnone.symm.trans hq) (by simp)
  · dsimp only
    rw [Function.update_self]
    trivial

/-- **A stop writes the row**: it says stopped, and no server is registered. -/
theorem Inv.stopped (h : Inv id releases s) {l : Ref} (ht : s.phase t = .stopLinkRemoved l) :
    Inv id releases ⟨statusWritten .stopped l s.control, Function.update s.phase t .done⟩ := by
  have hok := h.phases t
  rw [ht] at hok
  have hjoins : Joins s .done := joins_of_neither (fun hp => hp) fun hp => hp
  refine ⟨phases_update trivial fun u _ => ?_, hjoins.apart h.apart, fun _ q hq => ?_,
    fun hrow => ?_, fun hmap => absurd hok.2 hmap⟩
  · exact (h.phases u).frame (ids_statusWritten .stopped l · s.control)
      (fun _ => exists_statusWritten .stopped hok.1) (fun _ _ hq => hq) (fun _ hq => hq)
      fun _ hq => hq
  · exact absurd (hok.2.symm.trans hq) (by simp)
  · have := (rowRunning_statusWritten .stopped hok.1).mp hrow
    cases this

/-- **A thread goes on.** -/
theorem inv_goes (h : Inv id releases s) (ht : s.phase t = p) (hgoes : Goes id s.control p c' p')
    (hapart : Apart (.go t) s) (hreleases : releases → Releases (.go t) s) :
    Inv id releases ⟨c', Function.update s.phase t p'⟩ := by
  have hok := h.phases t
  obtain ⟨hstart, hstop⟩ := hapart t rfl
  subst ht
  generalize hp : s.phase t = p at hgoes hok
  -- A quiet step of a thread nobody waits for.
  have hquiet : (∀ l, p ≠ .stopStopped l) → (p.Stopped → p'.Stopped) →
      (∀ l, p ≠ .startRegistered l) → Quiet id s.control c' → PhaseOk id c' p' → Joins s p' →
      Inv id releases ⟨c', Function.update s.phase t p'⟩ := by
    subst hp
    exact fun h1 h2 h3 hq hp' hjoins => h.quiet hq hp' hjoins h1 h2 h3
  have hdone : Joins s .done := joins_of_neither (fun h => h) fun h => h
  have hstarting : p.Starting → p'.Starting → Joins s p' := by
    subst hp
    exact joins_of_starting h
  have hstopping : p.Stopping → p'.Stopping → Joins s p' := by
    subst hp
    exact joins_of_stopping h
  cases hgoes with
  | startMissing hq =>
    exact hquiet (by simp) (fun h => h.elim) (by simp) (.refl id _) hok
      ⟨fun _ => hstart _ _ hp, fun h => h.elim⟩
  | startFound hq =>
    exact hquiet (by simp) (fun h => h.elim) (by simp) (.refl id _)
      ⟨hok, by rw [hq]; exact Option.some_ne_none _⟩ ⟨fun _ => hstart _ _ hp, fun h => h.elim⟩
  | startFailed hbuilds =>
    exact hquiet (by simp) (fun h => h.elim) (by simp) hbuilds.quiet trivial hdone
  | startOpened hbuilds hservers =>
    refine hquiet (by simp) (fun h => h.elim) (by simp) hbuilds.quiet
      ⟨hbuilds.quiet.copy hok, ?_⟩ (hstarting trivial trivial)
    unfold Bound
    rw [hservers, Heap.get_alloc_self]
  | startLinkPut =>
    exact hquiet (by simp) (fun h => h.elim) (by simp)
      ⟨rfl, rfl, fun _ hq => hq, fun _ hid => hid⟩ hok (hstarting trivial trivial)
  | startRegistered => exact h.startRegistered hp
  | started => exact h.started hp
  | stopMissing hq =>
    exact hquiet (by simp) (fun h => h.elim) (by simp) (.refl id _) ⟨hok, hq⟩
      ⟨fun h => h.elim, fun _ => hstop _ _ hp⟩
  | stopFound hq =>
    exact hquiet (by simp) (fun h => h.elim) (by simp) (.refl id _) hok
      ⟨fun h => h.elim, fun _ => hstop _ _ hp⟩
  | @stopFailed l q =>
    refine h.stopFailed (fun hall => ?_) hp
    cases hreleases hall t rfl false l q hp
  | stopStopped => exact h.stopStopped hp
  | stopUnregistered => exact h.stopUnregistered hp
  | stopLinkRemoved =>
    exact hquiet (by simp) (fun _ => trivial) (by simp)
      ⟨rfl, rfl, fun _ hq => hq, fun _ hid => hid⟩ hok (hstopping trivial trivial)
  | stopped => exact h.stopped hp
  | changeSet => exact hok.elim
  | changeGone => exact hok.elim
  | changeRead => exact hok.elim
  | changed => exact hok.elim

/-- **A thread takes up a request.** -/
theorem inv_begins (h : Inv id releases s) (ht : s.phase t = .idle) {request : Request}
    (hrequest : (Event.begin t request).StartsOrStops)
    (hbegins : Begins id s.control request c' p') :
    Inv id releases ⟨c', Function.update s.phase t p'⟩ := by
  have hquiet : Quiet id s.control c' → PhaseOk id c' p' → ¬ p'.Starting → ¬ p'.Stopping →
      Inv id releases ⟨c', Function.update s.phase t p'⟩ := fun hq hp hstart hstop =>
    h.quiet hq hp (joins_of_neither hstart hstop) (by simp [ht])
      (fun h => by rw [ht] at h; exact h.elim)
      (by simp [ht])
  cases hbegins with
  | absent => exact hquiet (.refl id _) trivial (fun h => h) fun h => h
  | startRead hlink =>
    exact hquiet (quiet_alloc id _ _) (copy_alloc hlink) (fun h => h) fun h => h
  | stopAbsent => exact hquiet (.refl id _) trivial (fun h => h) fun h => h
  | stopRead hlink =>
    exact hquiet (quiet_alloc id _ _) (copy_alloc hlink) (fun h => h) fun h => h
  | refused => exact hrequest.elim
  | changeFound => exact hrequest.elim

/-- **A step keeps the invariant** while starts and stops stay apart. -/
theorem inv_step (register : ProtocolRegister) {e : Event} (h : Inv id releases s)
    (he : e.StartsOrStops) (hapart : Apart e s) (hreleases : releases → Releases e s) :
    Inv id releases (step register id e s) := by
  have htakes := takes_step register id e s
  generalize step register id e s = s' at htakes
  cases htakes with
  | stay => exact h
  | begin ht hbegins => exact inv_begins h ht he hbegins
  | go hgoes => exact inv_goes h rfl hgoes hapart hreleases
  | updateLink form => exact he.elim

end Steps

/-! ## Runs -/

/-- **The row agrees with the registered server** in every state of a run in which all requests are
done, if starts and stops of the link stay apart; and that server is bound, if no stop has failed at
it. -/
theorem agrees_of_apart (register : ProtocolRegister) {id : Nat} {c : LinkControl}
    (hc : Agrees id c) {es : List Event} (hes : ∀ e ∈ es, e.StartsOrStops)
    (hapart : Meets (step register id) Apart es (ready c)) :
    Always (step register id) (fun s => s.Completed →
      (RowRunning id s.control ↔ s.control.linkIdServerMap id ≠ none)) es (ready c) ∧
    (Meets (step register id) Releases es (ready c) →
      Always (step register id) (fun s => s.Completed → Agrees id s.control) es (ready c)) := by
  have hkind : Meets (step register id) (fun e s => e.StartsOrStops ∧ Apart e s) es (ready c) :=
    (meets_of_forall fun e he _ => hes e he).and hapart
  constructor
  · exact always_of_invariant (I := Inv id False) (fun s h => h.row_iff)
      (fun e s h he => inv_step register h he.1 he.2 False.elim) (inv_ready hc) hkind
  · intro hreleases
    exact always_of_invariant (I := Inv id True) (fun s h => h.agrees trivial)
      (fun e s h he => inv_step register h he.1.1 he.1.2 fun _ => he.2) (inv_ready hc)
      (hkind.and hreleases)

/-- No thread but `t` is starting or stopping. -/
def Threads.Lone (t : Nat) (s : Threads) : Prop :=
  ∀ u, u ≠ t → ¬ (s.phase u).Starting ∧ ¬ (s.phase u).Stopping

theorem Threads.Lone.apart_go {t : Nat} {s : Threads} (h : s.Lone t) : Apart (.go t) s := by
  intro t' ht'
  obtain rfl := Event.go.inj ht'
  have hnobody : ¬ (s.phase t).Starting → ¬ (s.phase t).Stopping →
      ∀ u, ¬ (s.phase u).Starting ∧ ¬ (s.phase u).Stopping := fun hstart hstop u => by
    by_cases hu : u = t
    · rw [hu]
      exact ⟨hstart, hstop⟩
    · exact h u hu
  refine ⟨fun up l ht u => ?_, fun stops l ht u => ?_⟩
  · rw [ht] at hnobody
    exact (hnobody (fun h => h) (fun h => h) u).2
  · rw [ht] at hnobody
    exact (hnobody (fun h => h) (fun h => h) u).1

theorem meets_apart_go (register : ProtocolRegister) (id t n : Nat) {s : Threads} (h : s.Lone t) :
    Meets (step register id) Apart (List.replicate n (.go t)) s := by
  induction n generalizing s with
  | zero => trivial
  | succ n ih =>
    refine ⟨h.apart_go, ih fun u hu => ?_⟩
    have htakes := takes_step register id (.go t) s
    generalize step register id (.go t) s = s' at htakes
    cases htakes with
    | stay => exact h u hu
    | go hgoes =>
      dsimp only
      rw [Function.update_of_ne hu]
      exact h u hu

/-- **A request no other one overlaps** meets the condition. -/
theorem meets_apart_request (register : ProtocolRegister) (id t n : Nat) (request : Request)
    {s : Threads} (h : s.Lone t) :
    Meets (step register id) Apart (.begin t request :: List.replicate n (.go t)) s := by
  refine ⟨fun t' ht' => (by cases ht'), meets_apart_go register id t n fun u hu => ?_⟩
  have htakes := takes_step register id (.begin t request) s
  generalize step register id (.begin t request) s = s' at htakes
  cases htakes with
  | stay => exact h u hu
  | begin ht hbegins =>
    dsimp only
    rw [Function.update_of_ne hu]
    exact h u hu

theorem agrees_addedLink : Agrees 1 addedLink where
  row := by
    refine ⟨?_, fun h => absurd rfl h⟩
    rintro ⟨row, hrow, hstatus⟩
    obtain rfl := Option.some.inj hrow
    cases hstatus
  bound q hq := by cases hq

/-- The link is started, and stopped when it has been started. -/
def startThenStop : List Event :=
  .begin 0 (.startServer freePort) :: List.replicate 5 (.go 0) ++
    .begin 1 (.stopServer true) :: List.replicate 5 (.go 1)

/-- The link is stopped before its start has written the row. -/
def stopInStart : List Event :=
  .begin 0 (.startServer freePort) :: List.replicate 4 (.go 0) ++
    .begin 1 (.stopServer true) :: List.replicate 5 (.go 1) ++ [.go 0]

theorem agrees_startThenStop :
    Always (step httpRegister 1) (fun s => s.Completed → Agrees 1 s.control) startThenStop
      (ready addedLink) :=
  (agrees_of_apart httpRegister agrees_addedLink (by simp [startThenStop, Event.StartsOrStops]) (by
    refine (meets_append_iff (_ :: _) (_ :: _) _).mpr
      ⟨meets_apart_request httpRegister 1 0 5 (.startServer freePort) fun u _ => ⟨id, id⟩,
        meets_apart_request httpRegister 1 1 5 (.stopServer true) fun u _ => ?_⟩
    rw [alone_startServer freePort (ready addedLink) rfl]
    by_cases hu : u = 0
    · rw [hu]
      exact ⟨id, id⟩
    · dsimp only
      rw [Function.update_of_ne hu]
      exact ⟨id, id⟩)).2
    (by
      simp only [startThenStop, List.replicate, List.cons_append, List.nil_append, Meets,
        and_true]
      refine ⟨?_, ?_, ?_, ?_, ?_, ?_, ?_, ?_, ?_, ?_, ?_, ?_⟩ <;> intro t ht stops l q hfound <;>
        cases ht <;> cases hfound
      rfl)

/-- The row says running, and no server is. -/
theorem not_agrees_stopInStart :
    Agrees 1 addedLink ∧ (∀ e ∈ stopInStart, e.StartsOrStops) ∧
    ¬ Always (step httpRegister 1) (fun s => s.Completed → Agrees 1 s.control) stopInStart
      (ready addedLink) := by
  refine ⟨agrees_addedLink, by simp [stopInStart, Event.StartsOrStops], fun h => ?_⟩
  have hdone : (run (step httpRegister 1) stopInStart (ready addedLink)).Completed := by
    rintro (_ | _ | t)
    · exact .inr rfl
    · exact .inr rfl
    · exact .inl rfl
  have hagrees := always_iff.mp h stopInStart [] (List.append_nil _).symm hdone
  exact hagrees.row.mp ⟨_, rfl, rfl⟩ rfl

end Terminator.Manager.Requests
