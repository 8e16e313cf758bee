import Terminator.Manager.Agreement
import Terminator.Manager.Storages

/-!
# Whether the services reach the running server

`startServer` puts the link it has configured into one map and its server into the other;
`stopServer` takes them out one after the other. A request to the stubs of a link finds the link,
the handlers have the server, and nothing locks the two maps. A stop that comes between the two puts
of a start takes the link out again: the server that is put then runs, and requests to its stubs are
refused. Two starts at once may leave the link of the one beside the server of the other, and stubs
are added to a storage no handler looks at.

**`reaches_of_exclusive`**: whatever requests interleave, as long as no start finds the link without
a server while another request is between its lookup and its last map, and no stop looks up while a
start is, a request to the services reaches the storage of the registered server, or is refused if
there is none, whenever all requests are done.
-/

namespace Terminator.Manager.Requests

open Terminator.Java Terminator.Run

/-- The link in the one map is that of the server in the other. -/
def Wired (id : Nat) (c : LinkControl) : Prop :=
  c.linkIdLinkMap id = (c.linkIdServerMap id).map fun q => (c.servers.get q).link

/-- **A request to the services** gets the link of the registered server, or is refused. -/
def Reaches (id : Nat) (c : LinkControl) : Prop :=
  ∀ (γ δ : Type) (s : Storages.Process γ δ), s.control = c →
    (Storages.getActiveStorage id).run s =
      match c.linkIdServerMap id with
      | none => .error .linkStatus s
      | some q => .ok (c.servers.get q).link s

theorem reaches_of_wired {id : Nat} {c : LinkControl} (h : Wired id c) : Reaches id c := by
  rintro γ δ s rfl
  cases hq : s.control.linkIdServerMap id with
  | none =>
    rw [Wired, hq, Option.map_none] at h
    exact run_bind_of_error (Storages.checkLinkStatus_running_run_of_none h)
  | some q =>
    rw [Wired, hq, Option.map_some] at h
    unfold Storages.getActiveStorage
    rw [run_bind_of_ok (Storages.checkLinkStatus_running_run_of_some h),
      run_bind_of_ok (Storages.getLink_run id s), h]
    rfl

/-- A `startServer` that found no server and has not put its own. -/
def Phase.Opening : Phase → Prop
  | startMissing _ _ | startOpened _ _ | startLinkPut _ _ => True
  | _ => False

/-- A `stopServer` that has looked the server up and has not cleared both maps. -/
def Phase.Closing : Phase → Prop
  | stopFound _ _ _ | stopStopped _ | stopUnregistered _ => True
  | _ => False

/-- A request between its two maps. -/
def Phase.Between : Phase → Prop
  | startLinkPut _ _ | stopUnregistered _ => True
  | _ => False

/-- No start finds the link without a server while another request is at the maps, and no stop looks
the server up while a start is. -/
def Exclusive (id : Nat) (e : Event) (s : Threads) : Prop :=
  ∀ t, e = .go t →
    (∀ up l, s.phase t = .startRead up l → s.control.linkIdServerMap id = none →
      ∀ u, ¬ (s.phase u).Opening ∧ ¬ (s.phase u).Closing) ∧
    ∀ stops l, s.phase t = .stopRead stops l → ∀ u, ¬ (s.phase u).Opening

/-! ## The invariant -/

/-- What a thread at the maps may rely on. -/
def Held (id : Nat) (c : LinkControl) : Phase → Prop
  | .startMissing _ _ => c.linkIdServerMap id = none ∧ c.linkIdLinkMap id = none
  | .startOpened l q => c.linkIdServerMap id = none ∧ c.linkIdLinkMap id = none ∧
      q < c.servers.size ∧ (c.servers.get q).link = l
  | .startLinkPut l q => c.linkIdServerMap id = none ∧ c.linkIdLinkMap id = some l ∧
      q < c.servers.size ∧ (c.servers.get q).link = l
  | .stopUnregistered _ => c.linkIdServerMap id = none
  | _ => True

/-- One start is at the maps, or any number of stops; where the maps do not match, a request is
between them. -/
structure MapsInv (id : Nat) (s : Threads) : Prop where
  held : ∀ t, Held id s.control (s.phase t)
  alone : ∀ t u, (s.phase t).Opening → u ≠ t → ¬ (s.phase u).Opening ∧ ¬ (s.phase u).Closing
  registered : ∀ q, s.control.linkIdServerMap id = some q →
    q < s.control.servers.size ∧ s.control.linkIdLinkMap id = some (s.control.servers.get q).link
  absent : s.control.linkIdServerMap id = none →
    s.control.linkIdLinkMap id = none ∨ ∃ u, (s.phase u).Between

/-- **When all requests are done** the maps match. -/
theorem MapsInv.wired {id : Nat} {s : Threads} (h : MapsInv id s) (hdone : s.Completed) :
    Wired id s.control := by
  cases hq : s.control.linkIdServerMap id with
  | none =>
    rw [Wired, hq, Option.map_none]
    refine (h.absent hq).resolve_right ?_
    rintro ⟨u, hu⟩
    rcases hdone u with hidle | hdone
    · rw [hidle] at hu
      exact hu
    · rw [hdone] at hu
      exact hu
  | some q =>
    rw [Wired, hq, Option.map_some]
    exact (h.registered q hq).2

/-- A manager whose registered servers were built, and whose maps match. -/
structure WiredManager (id : Nat) (c : LinkControl) : Prop where
  built : ∀ q, c.linkIdServerMap id = some q → q < c.servers.size
  wired : Wired id c

theorem mapsInv_ready {id : Nat} {c : LinkControl} (h : WiredManager id c) :
    MapsInv id (ready c) where
  held _ := trivial
  alone _ _ h := h.elim
  registered q hq := by
    have hwired : c.linkIdLinkMap id = _ := h.wired
    have hq : c.linkIdServerMap id = some q := hq
    rw [hq, Option.map_some] at hwired
    exact ⟨h.built q hq, hwired⟩
  absent hq := by
    have hwired : c.linkIdLinkMap id = _ := h.wired
    have hq : c.linkIdServerMap id = none := hq
    rw [hq, Option.map_none] at hwired
    exact .inl hwired

/-! ## The steps -/

/-- A statement that leaves the entries of both maps, and the links of the servers. -/
structure Unmapped (id : Nat) (c c' : LinkControl) : Prop where
  server : c'.linkIdServerMap id = c.linkIdServerMap id
  link : c'.linkIdLinkMap id = c.linkIdLinkMap id
  servers : ∀ q, q < c.servers.size →
    q < c'.servers.size ∧ (c'.servers.get q).link = (c.servers.get q).link

section Steps

variable {register : ProtocolRegister} {id t : Nat} {s : Threads} {c c' : LinkControl} {l q : Ref}
  {p p' : Phase}

theorem Phase.Opening.not_closing (h : p.Opening) : ¬ p.Closing := by
  cases p with
  | startMissing | startOpened | startLinkPut => exact fun hp => hp
  | _ => exact h.elim

theorem unmapped_of_servers (hserver : c'.linkIdServerMap = c.linkIdServerMap)
    (hlink : c'.linkIdLinkMap = c.linkIdLinkMap) (hservers : c'.servers = c.servers) :
    Unmapped id c c' :=
  ⟨congrFun hserver id, congrFun hlink id, fun q hq => by rw [hservers]; exact ⟨hq, rfl⟩⟩

theorem Builds.unmapped (h : Builds c l c') : Unmapped id c c' := by
  refine ⟨congrFun h.serverMap id, congrFun h.linkMap id, fun q hq => ?_⟩
  rcases h.servers with hservers | ⟨server, hservers⟩
  · rw [hservers]
    exact ⟨hq, rfl⟩
  · rw [hservers, Heap.get_alloc_of_lt hq]
    exact ⟨Heap.lt_size_alloc hq server, rfl⟩

theorem Unmapped.held (h : Unmapped id c c') (hp : Held id c p) : Held id c' p := by
  cases p with
  | startMissing => exact ⟨h.server.trans hp.1, h.link.trans hp.2⟩
  | startOpened l q =>
    obtain ⟨hq_lt, hlink⟩ := h.servers q hp.2.2.1
    exact ⟨h.server.trans hp.1, h.link.trans hp.2.1, hq_lt, hlink.trans hp.2.2.2⟩
  | startLinkPut l q =>
    obtain ⟨hq_lt, hlink⟩ := h.servers q hp.2.2.1
    exact ⟨h.server.trans hp.1, h.link.trans hp.2.1, hq_lt, hlink.trans hp.2.2.2⟩
  | stopUnregistered => exact h.server.trans hp
  | _ => trivial

/-- The thread is at the maps alone if it opens, and beside no start if it closes. -/
structure Enters (s : Threads) (t : Nat) (p' : Phase) : Prop where
  opening : p'.Opening → ∀ u, u ≠ t → ¬ (s.phase u).Opening ∧ ¬ (s.phase u).Closing
  closing : p'.Closing → ∀ u, u ≠ t → ¬ (s.phase u).Opening

theorem Enters.alone (h : Enters s t p')
    (hs : ∀ t u, (s.phase t).Opening → u ≠ t → ¬ (s.phase u).Opening ∧ ¬ (s.phase u).Closing)
    (u v : Nat) (hu : (Function.update s.phase t p' u).Opening) (hne : v ≠ u) :
    ¬ (Function.update s.phase t p' v).Opening ∧ ¬ (Function.update s.phase t p' v).Closing := by
  by_cases hut : u = t
  · subst hut
    rw [Function.update_self] at hu
    rw [Function.update_of_ne hne]
    exact h.opening hu v hne
  · rw [Function.update_of_ne hut] at hu
    by_cases hvt : v = t
    · subst hvt
      rw [Function.update_self]
      exact ⟨fun hp => (h.opening hp u hut).1 hu, fun hp => h.closing hp u hut hu⟩
    · rw [Function.update_of_ne hvt]
      exact hs u v hu hne

theorem enters_of_neither (hopening : ¬ p'.Opening) (hclosing : ¬ p'.Closing) : Enters s t p' :=
  ⟨fun h => absurd h hopening, fun h => absurd h hclosing⟩

/-- A start that goes on. -/
theorem enters_of_opening (h : MapsInv id s) (ht : (s.phase t).Opening) (hp : p'.Opening) :
    Enters s t p' :=
  ⟨fun _ u hu => h.alone t u ht hu, fun hclosing => absurd hclosing hp.not_closing⟩

/-- A stop that goes on. -/
theorem enters_of_closing (h : MapsInv id s) (ht : (s.phase t).Closing) (hp : p'.Closing) :
    Enters s t p' :=
  ⟨fun hopening => absurd hp hopening.not_closing,
    fun _ u hu hopening => (h.alone u t hopening (Ne.symm hu)).2 ht⟩

theorem held_update (hp : Held id c' p') (hother : ∀ u, u ≠ t → Held id c' (s.phase u)) (u : Nat) :
    Held id c' (Function.update s.phase t p' u) := by
  by_cases hut : u = t
  · rw [hut, Function.update_self]
    exact hp
  · rw [Function.update_of_ne hut]
    exact hother u hut

/-- **A step that leaves the maps.** -/
theorem MapsInv.unmapped (h : MapsInv id s) (hc : Unmapped id s.control c') (hp : Held id c' p')
    (henters : Enters s t p') (hbetween : (s.phase t).Between → p'.Between) :
    MapsInv id ⟨c', Function.update s.phase t p'⟩ where
  held := held_update hp fun u _ => hc.held (h.held u)
  alone := henters.alone h.alone
  registered q hq := by
    have hq : s.control.linkIdServerMap id = some q := hc.server.symm.trans hq
    obtain ⟨hq_lt, hlink⟩ := h.registered q hq
    obtain ⟨hq_lt', hsame⟩ := hc.servers q hq_lt
    refine ⟨hq_lt', ?_⟩
    dsimp only
    rw [hc.link, hlink, hsame]
  absent hq := by
    have hq : s.control.linkIdServerMap id = none := hc.server.symm.trans hq
    rcases h.absent hq with hlink | hu
    · exact .inl (hc.link.trans hlink)
    · exact .inr (exists_update hu hbetween)

/-- A thread that is not at the maps relies on nothing. -/
theorem held_of_away (hopening : ¬ p.Opening) (hclosing : ¬ p.Closing) : Held id c p := by
  cases p with
  | startMissing | startOpened | startLinkPut => exact absurd trivial hopening
  | stopUnregistered => exact absurd trivial hclosing
  | _ => trivial

/-- **The link is put**: no other request is at the maps. -/
theorem MapsInv.startLinkPut (h : MapsInv id s) (ht : s.phase t = .startOpened l q) :
    MapsInv id ⟨{ s.control with
      linkIdLinkMap := Function.update s.control.linkIdLinkMap id (some l) },
      Function.update s.phase t (.startLinkPut l q)⟩ := by
  have hheld := h.held t
  have hopening : (s.phase t).Opening := by rw [ht]; trivial
  rw [ht] at hheld
  obtain ⟨hserver, -, hq_lt, hlink⟩ := hheld
  have henters : Enters s t (.startLinkPut l q) := enters_of_opening h hopening trivial
  refine ⟨held_update ⟨hserver, Function.update_self _ _ _, hq_lt, hlink⟩ fun u hu => ?_,
    henters.alone h.alone, fun q' hq' => ?_, fun _ => .inr ⟨t, ?_⟩⟩
  · exact held_of_away (h.alone t u hopening hu).1 (h.alone t u hopening hu).2
  · exact absurd (hserver.symm.trans hq') (by simp)
  · dsimp only
    rw [Function.update_self]
    trivial

/-- **The server is put**: its link is in the other map. -/
theorem MapsInv.startRegistered (h : MapsInv id s) (ht : s.phase t = .startLinkPut l q) :
    MapsInv id ⟨{ s.control with
      linkIdServerMap := Function.update s.control.linkIdServerMap id (some q) },
      Function.update s.phase t (.startRegistered l)⟩ := by
  have hheld := h.held t
  have hopening : (s.phase t).Opening := by rw [ht]; trivial
  rw [ht] at hheld
  obtain ⟨-, hput, hq_lt, hlink⟩ := hheld
  have hself : Function.update s.control.linkIdServerMap id (some q) id = some q :=
    Function.update_self _ _ _
  have henters : Enters s t (.startRegistered l) := enters_of_neither (fun h => h) fun h => h
  refine ⟨held_update trivial fun u hu => ?_, henters.alone h.alone, fun q' hq' => ?_,
    fun hq' => absurd (hself.symm.trans hq') (by simp)⟩
  · exact held_of_away (h.alone t u hopening hu).1 (h.alone t u hopening hu).2
  · obtain rfl := Option.some.inj (hself.symm.trans hq')
    exact ⟨hq_lt, hput.trans (congrArg some hlink.symm)⟩

/-- **The server is taken out**: no start is at the maps. -/
theorem MapsInv.stopUnregistered (h : MapsInv id s) (ht : s.phase t = .stopStopped l) :
    MapsInv id ⟨{ s.control with
      linkIdServerMap := Function.update s.control.linkIdServerMap id none },
      Function.update s.phase t (.stopUnregistered l)⟩ := by
  have hclosing : (s.phase t).Closing := by rw [ht]; trivial
  have hnone : Function.update s.control.linkIdServerMap id none id = none :=
    Function.update_self _ _ _
  have henters : Enters s t (.stopUnregistered l) := enters_of_closing h hclosing trivial
  refine ⟨held_update hnone fun u hu => ?_, henters.alone h.alone, fun q hq => ?_,
    fun _ => .inr ⟨t, ?_⟩⟩
  · have hother := h.held u
    have hopening := fun hu' => (h.alone u t hu' (Ne.symm hu)).2 hclosing
    generalize s.phase u = p at hother hopening
    cases p with
    | startMissing | startOpened | startLinkPut => exact absurd trivial hopening
    | stopUnregistered => exact hnone
    | _ => trivial
  · exact absurd (hnone.symm.trans hq) (by simp)
  · dsimp only
    rw [Function.update_self]
    trivial

/-- **The link is taken out**: there is no server, and no start at the maps. -/
theorem MapsInv.stopLinkRemoved (h : MapsInv id s) (ht : s.phase t = .stopUnregistered l) :
    MapsInv id ⟨{ s.control with
      linkIdLinkMap := Function.update s.control.linkIdLinkMap id none },
      Function.update s.phase t (.stopLinkRemoved l)⟩ := by
  have hheld := h.held t
  have hclosing : (s.phase t).Closing := by rw [ht]; trivial
  rw [ht] at hheld
  have hnone : s.control.linkIdServerMap id = none := hheld
  have henters : Enters s t (.stopLinkRemoved l) := enters_of_neither (fun h => h) fun h => h
  refine ⟨held_update trivial fun u hu => ?_, henters.alone h.alone, fun q hq => ?_,
    fun _ => .inl (Function.update_self _ _ _)⟩
  · have hother := h.held u
    have hopening := fun hu' => (h.alone u t hu' (Ne.symm hu)).2 hclosing
    generalize s.phase u = p at hother hopening
    cases p with
    | startMissing | startOpened | startLinkPut => exact absurd trivial hopening
    | stopUnregistered => exact hnone
    | _ => trivial
  · exact absurd (hnone.symm.trans hq) (by simp)

/-- **A thread goes on.** -/
theorem mapsInv_goes (h : MapsInv id s) (ht : s.phase t = p) (hgoes : Goes id s.control p c' p')
    (hexclusive : Exclusive id (.go t) s) : MapsInv id ⟨c', Function.update s.phase t p'⟩ := by
  have hheld := h.held t
  obtain ⟨hstart, hstop⟩ := hexclusive t rfl
  subst ht
  generalize hp : s.phase t = p at hgoes hheld
  have hstep : Unmapped id s.control c' → Held id c' p' → Enters s t p' →
      (p.Between → p'.Between) → MapsInv id ⟨c', Function.update s.phase t p'⟩ := by
    subst hp
    exact h.unmapped
  have haway : ∀ {p' : Phase}, ¬ p'.Opening → ¬ p'.Closing → Enters s t p' := enters_of_neither
  have hopening : p.Opening → p'.Opening → Enters s t p' := by
    subst hp
    exact enters_of_opening h
  have hclosing : p.Closing → p'.Closing → Enters s t p' := by
    subst hp
    exact enters_of_closing h
  have hrefl : Unmapped id s.control s.control := unmapped_of_servers rfl rfl rfl
  have hstate : ∀ (q : Ref) (state : ServerState), Unmapped id s.control { s.control with
      servers := s.control.servers.set q { s.control.servers.get q with state := state } } :=
    fun q state => ⟨rfl, rfl, fun q' hq' =>
      ⟨by rw [Heap.size_set]; exact hq', link_of_set_state s.control.servers q q' state⟩⟩
  cases hgoes with
  | startMissing hq =>
    have hnobody := hstart _ _ hp hq
    refine hstep hrefl ⟨hq, ?_⟩ ⟨fun _ u _ => hnobody u, fun hp' => hp'.elim⟩ fun hp' => hp'.elim
    refine (h.absent hq).resolve_right ?_
    rintro ⟨u, hu⟩
    obtain ⟨hopen, hclose⟩ := hnobody u
    generalize s.phase u = p' at hu hopen hclose
    cases p' with
    | startLinkPut => exact hopen trivial
    | stopUnregistered => exact hclose trivial
    | _ => exact hu.elim
  | startFound => exact hstep hrefl trivial (haway (fun h => h) fun h => h) fun hp' => hp'.elim
  | startFailed hbuilds =>
    exact hstep hbuilds.unmapped trivial (haway (fun h => h) fun h => h) fun hp' => hp'.elim
  | startOpened hbuilds hservers =>
    have hc : Unmapped id _ _ := hbuilds.unmapped
    refine hstep hc ⟨hc.server.trans hheld.1, hc.link.trans hheld.2, ?_, ?_⟩
      (hopening trivial trivial) fun hp' => hp'.elim
    · rw [hservers]
      exact Heap.size_lt_size_alloc _ _
    · rw [hservers, Heap.get_alloc_self]
  | startLinkPut => exact h.startLinkPut hp
  | startRegistered => exact h.startRegistered hp
  | started =>
    exact hstep (unmapped_of_servers rfl rfl rfl) trivial (haway (fun h => h) fun h => h)
      fun hp' => hp'.elim
  | stopMissing hq =>
    exact hstep hrefl hq ⟨fun hp' => hp'.elim, fun _ u _ => hstop _ _ hp u⟩ fun hp' => hp'.elim
  | stopFound =>
    exact hstep hrefl trivial ⟨fun hp' => hp'.elim, fun _ u _ => hstop _ _ hp u⟩
      fun hp' => hp'.elim
  | @stopFailed l q =>
    exact hstep (hstate q .closed) trivial (haway (fun h => h) fun h => h) fun hp' => hp'.elim
  | @stopStopped l q =>
    exact hstep (hstate q .stopped) trivial (hclosing trivial trivial) fun hp' => hp'.elim
  | stopUnregistered => exact h.stopUnregistered hp
  | stopLinkRemoved => exact h.stopLinkRemoved hp
  | stopped =>
    exact hstep (unmapped_of_servers rfl rfl rfl) trivial (haway (fun h => h) fun h => h)
      fun hp' => hp'.elim
  | changeSet | changeRead | changed =>
    exact hstep (unmapped_of_servers rfl rfl rfl) trivial (haway (fun h => h) fun h => h)
      fun hp' => hp'.elim
  | changeGone => exact hstep hrefl trivial (haway (fun h => h) fun h => h) fun hp' => hp'.elim

/-- **A thread takes up a request.** -/
theorem mapsInv_begins (h : MapsInv id s) (ht : s.phase t = .idle) {request : Request}
    (hbegins : Begins id s.control request c' p') :
    MapsInv id ⟨c', Function.update s.phase t p'⟩ := by
  have hbetween : (s.phase t).Between → p'.Between := fun hp => by
    rw [ht] at hp
    exact hp.elim
  have haway : ∀ {p' : Phase}, ¬ p'.Opening → ¬ p'.Closing → Enters s t p' := enters_of_neither
  cases hbegins with
  | absent | stopAbsent | refused | changeFound | startRead | stopRead =>
    exact h.unmapped (unmapped_of_servers rfl rfl rfl) trivial (haway (fun h => h) fun h => h)
      hbetween

/-- **A step keeps the invariant** while no start is disturbed. -/
theorem mapsInv_step (register : ProtocolRegister) {e : Event} (h : MapsInv id s)
    (hexclusive : Exclusive id e s) : MapsInv id (step register id e s) := by
  have htakes := takes_step register id e s
  generalize step register id e s = s' at htakes
  cases htakes with
  | stay => exact h
  | begin ht hbegins => exact mapsInv_begins h ht hbegins
  | go hgoes => exact mapsInv_goes h rfl hgoes hexclusive
  | updateLink form => exact ⟨h.held, h.alone, h.registered, h.absent⟩

end Steps

/-! ## Runs -/

/-- **The services reach the running server** in every state of a run in which all requests are
done, if no start is disturbed. -/
theorem reaches_of_exclusive (register : ProtocolRegister) {id : Nat} {c : LinkControl}
    (hc : WiredManager id c) {es : List Event}
    (hes : Meets (step register id) (Exclusive id) es (ready c)) :
    Always (step register id) (fun s => s.Completed → Reaches id s.control) es (ready c) :=
  always_of_invariant (fun _ h hdone => reaches_of_wired (h.wired hdone))
    (fun _ _ h he => mapsInv_step register h he) (mapsInv_ready hc) hes

theorem wiredManager_addedLink : WiredManager 1 addedLink where
  built q hq := by cases hq
  wired := rfl

/-- The stop that leaves a wrong row behind leaves the maps as they should be. -/
theorem reaches_stopInStart :
    Always (step httpRegister 1) (fun s => s.Completed → Reaches 1 s.control) stopInStart
      (ready addedLink) :=
  reaches_of_exclusive httpRegister wiredManager_addedLink (by
    simp only [stopInStart, List.replicate, List.cons_append, List.nil_append, Meets, and_true]
    refine ⟨?_, ?_, ?_, ?_, ?_, ?_, ?_, ?_, ?_, ?_, ?_, ?_⟩ <;> intro t ht <;> cases ht <;>
      refine ⟨fun up l hp _ => ?_, fun stops l hp => ?_⟩ <;> cases hp
    · rintro (_ | u) <;> exact ⟨fun h => h, fun h => h⟩
    · rintro (_ | _ | u) <;> exact fun h => h)

/-- The link is stopped between the two puts of its start. -/
def stopBetween : List Event :=
  .begin 0 (.startServer freePort) :: List.replicate 3 (.go 0) ++
    .begin 1 (.stopServer true) :: List.replicate 3 (.go 1) ++ List.replicate 2 (.go 0)

/-- The server runs, and its services are refused. -/
theorem not_reaches_stopBetween :
    ¬ Always (step httpRegister 1) (fun s => s.Completed → Reaches 1 s.control) stopBetween
      (ready addedLink) := by
  intro h
  have hdone : (run (step httpRegister 1) stopBetween (ready addedLink)).Completed := by
    rintro (_ | _ | t)
    · exact .inr rfl
    · exact .inr rfl
    · exact .inl rfl
  have hreaches := always_iff.mp h stopBetween [] (List.append_nil _).symm hdone Unit Unit
    ⟨_, fun _ => (), ()⟩ rfl
  cases hreaches

end Terminator.Manager.Requests
