import Terminator.Manager.LinkLoggers
import Terminator.Manager.Storages

/-!
# The log of a running link

A server is built of components that ask for their loggers when they are built: the plugins, the
storage and the server by `startServer`, a handler with each connection. `StorageFactory` builds a
`CacheStorage` first, whatever the type; for a link of type `FILE` it is no component. `deleteLog`
closes all loggers of a link, and a component never asks again, so `checkLinkStatus` refuses it
while the link has an object.

**`always_logged_iff`**: over any requests to the manager and the logs, connections and restarts,
every line of a component of a registered server goes once to the log of its link, exactly when
each of them could open the log, or found it open for its class.
-/

namespace Terminator.Manager.RunningLogs

open Terminator.Java Terminator.Run Terminator.Storage
open Terminator.Manager.LinkLoggers (Logs Held Ledger Related)
open Terminator.Manager.Storages (bootControl)

/-! ## The model -/

/-- The logs and the manager of a process, and which of the loggers the components of the registered
servers hold. -/
structure Site where
  control : LinkControl
  process : LinkLoggers.Process
  components : Nat → List Nat

/-- A call of `getLogger`: its class, whether the log opens, and whether a component of the server
keeps the logger. -/
structure Ask where
  clazz : JString
  opens : Bool
  kept : Bool

/-- What the constructors of a start meet: the classes the plugins ask for loggers of, and whether
the log opens, for these, for the storages and for the server. -/
structure Asks where
  plugins : List (JString × Bool)
  cacheStorageOpens : Bool
  fileStorageOpens : Bool
  serverOpens : Bool

/-- What happens. -/
inductive Event where
  | manage (op : Operation) (asks : Asks)
  /-- A handler of the server is built. -/
  | handler (linkId : Nat) (clazz : JString) (opens : Bool)
  | info (i : Nat) (line : List Byte)
  | readLog (linkId : Nat)
  | deleteLog (linkId : Nat)
  | restart

/-- The loggers of the plugins. -/
def pluginAsks (asks : Asks) : List Ask :=
  asks.plugins.map fun ask => ⟨ask.1, ask.2, true⟩

/-- The loggers of the storages that `StorageFactory` builds: a `CacheStorage` for every link, which
a link of type `FILE` does not keep. -/
def storageAsks (asks : Asks) (type : StorageType) : List Ask :=
  ⟨lit "com.baidu.terminator.storage.cache.CacheStorage", asks.cacheStorageOpens, type ≠ .FILE⟩ ::
    if type = .FILE then
      [⟨lit "com.baidu.terminator.storage.file.FileStorage", asks.fileStorageOpens, true⟩]
    else []

/-- The loggers that a request asks for: those of the plugins, of the storages and of the server. -/
def asked (register : ProtocolRegister) (asks : Asks) (op : Operation) (s : LinkControl) :
    List Ask :=
  match op with
  | .startServer linkId up =>
    match s.table.selectLinkById linkId, s.linkIdServerMap linkId with
    | some link, none =>
      match createPlugins register up link with
      | .error _ => pluginAsks asks
      | .ok _ => pluginAsks asks ++ storageAsks asks (storageOf link.storageType) ++
          [⟨lit "com.baidu.terminator.server.common.ServerImpl", asks.serverOpens, true⟩]
    | _, _ => []
  | _ => []

/-- Loggers are asked for one after another. -/
def askAll (linkId : Nat) (loggers : List Ask) (s : LinkLoggers.Process) : LinkLoggers.Process :=
  run LinkLoggers.step (loggers.map fun ask => .getLogger ask.opens ask.clazz linkId) s

/-- The places of the loggers that are kept, when the first of all gets place `n`. -/
def places : Nat → List Ask → List Nat
  | _, [] => []
  | n, ask :: loggers => if ask.kept then n :: places (n + 1) loggers else places (n + 1) loggers

/-- `deleteLog`. -/
def deleteLog (linkId : Nat) : Method Site Unit := do
  let s ← get
  if s.control.linkIdLinkMap linkId ≠ none then throw .linkStatus
  else set { s with process := LinkLoggers.step (.deleteLog linkId) s.process }

/-- The state after an event. -/
def step (register : ProtocolRegister) (e : Event) (s : Site) : Site :=
  match e with
  | .manage op asks =>
    let control := Manager.step register op s.control
    let loggers := asked register asks op s.control
    { control := control
      process := match op with
        | .startServer linkId _ => askAll linkId loggers s.process
        | _ => s.process
      components := fun id =>
        if control.running id = none then []
        else if s.control.running id = none then places s.process.held.length loggers
        else s.components id }
  | .handler linkId clazz opens =>
    if s.control.running linkId = none then s
    else { s with
      process := LinkLoggers.step (.getLogger opens clazz linkId) s.process
      components := Function.update s.components linkId
        (s.components linkId ++ [s.process.held.length]) }
  | .info i line => { s with process := LinkLoggers.step (.info i line) s.process }
  | .readLog linkId => { s with process := LinkLoggers.step (.readLog linkId) s.process }
  | .deleteLog linkId => after ((deleteLog linkId).run s)
  | .restart =>
    { control := bootControl s.control.table
      process := LinkLoggers.step .restart s.process
      components := fun _ => [] }

/-- A new installation. -/
def start (table : LinkTable) : Site :=
  ⟨bootControl table, LinkLoggers.boot ⟨[]⟩ fun _ => none, fun _ => []⟩

/-- A line through the logger at place `i` goes to the log of the link, once, and to no other. -/
def LogsTo (s : LinkLoggers.Process) (i linkId : Nat) : Prop :=
  ∀ line, (LinkLoggers.step (.info i line) s).logs.contents =
    Function.update s.logs.contents linkId (s.logs.contents linkId ++ line)

/-- The components of the registered servers write to the logs of their links. -/
def Logged (s : Site) : Prop :=
  ∀ id, ∀ i ∈ s.components id, LogsTo s.process i id

/-- The logger of a class of a link has the log open. -/
def HasAppender (s : Logs) (linkId : Nat) (clazz : JString) : Prop :=
  ∃ m, s.linkIdLogManagerMap linkId = some m ∧ s.getAppender ⟨m, clazz⟩ ≠ none

/-- The components that an event adds to a registered server can open the log, or find it open. -/
def Opens (register : ProtocolRegister) (e : Event) (s : Site) : Prop :=
  match e with
  | .manage op asks =>
    ∀ id, s.control.running id = none → (Manager.step register op s.control).running id ≠ none →
      ∀ ask ∈ asked register asks op s.control, ask.kept = true →
        HasAppender s.process.logs id ask.clazz ∨
          ∃ other ∈ asked register asks op s.control, other.clazz = ask.clazz ∧ other.opens = true
  | .handler linkId clazz opens =>
    s.control.running linkId ≠ none → HasAppender s.process.logs linkId clazz ∨ opens = true
  | _ => True

/-! ## Loggers that are asked for in a row -/

section Ledgers

variable {s : LinkLoggers.Process} {p : Ledger} {linkId i : Nat} {loggers : List Ask}

/-- The ledger after loggers were asked for one after another. -/
def ledgerAll (linkId : Nat) (loggers : List Ask) (p : Ledger) : Ledger :=
  run Ledger.step (loggers.map fun ask => .getLogger ask.opens ask.clazz linkId) p

theorem related_askAll (h : Related s p) (linkId : Nat) (loggers : List Ask) :
    Related (askAll linkId loggers s) (ledgerAll linkId loggers p) :=
  run_of_simulation (fun e s p h _ => LinkLoggers.related_step e s p h) h
    (meets_of_forall fun _ _ _ => trivial : Meets _ (fun _ _ => True) _ _)

theorem held_ledgerAll (linkId : Nat) (loggers : List Ask) (p : Ledger) :
    (ledgerAll linkId loggers p).held =
      p.held ++ loggers.map fun ask => ⟨linkId, ask.clazz, false⟩ := by
  induction loggers generalizing p with
  | nil => exact (List.append_nil p.held).symm
  | cons ask loggers ih =>
    change (ledgerAll linkId loggers (p.step (.getLogger ask.opens ask.clazz linkId))).held = _
    rw [ih, List.map_cons, List.append_cons]
    rfl

/-- A class has the log open if it had, or one of its calls could open it. -/
theorem opened_ledgerAll_iff {id : Nat} {c : JString} :
    (ledgerAll linkId loggers p).opened id c = true ↔
      p.opened id c = true ∨
        (id = linkId ∧ ∃ ask ∈ loggers, ask.clazz = c ∧ ask.opens = true) := by
  induction loggers generalizing p with
  | nil => simp [ledgerAll, run]
  | cons ask loggers ih =>
    change (ledgerAll linkId loggers (p.step (.getLogger ask.opens ask.clazz linkId))).opened id c =
      true ↔ _
    rw [ih]
    change (p.openLog ask.opens ask.clazz linkId).opened id c = true ∨ _ ↔ _
    obtain ⟨clazz, opens, kept⟩ := ask
    by_cases hid : id = linkId
    · by_cases hc : c = clazz
      · subst hid hc
        rw [p.opened_openLog_self, Bool.or_eq_true]
        simp [or_assoc]
      · rw [p.opened_openLog_of_ne opens (.inr hc)]
        simp [Ne.symm hc]
    · rw [p.opened_openLog_of_ne opens (.inl hid)]
      simp [hid]

theorem hasAppender_iff (h : LinkLoggers.Sim s.logs p) {clazz : JString} :
    HasAppender s.logs linkId clazz ↔ p.opened linkId clazz = true := by
  constructor
  · rintro ⟨m, hm, happender⟩
    by_contra hclosed
    rw [Logs.getAppender, h.appenders hm clazz, if_neg hclosed] at happender
    exact happender rfl
  · intro hopened
    obtain ⟨hm, hfile⟩ := h.opened hopened
    obtain ⟨m, hm⟩ := Option.ne_none_iff_exists'.mp hm
    obtain ⟨file, hfile⟩ := Option.ne_none_iff_exists'.mp hfile
    refine ⟨m, hm, ?_⟩
    rw [Logs.getAppender, h.appenders hm clazz, if_pos hopened, hfile]
    exact Option.some_ne_none file

/-- **A line goes to the log of a link** iff the logger is one of that link and writes. -/
theorem logsTo_iff (h : Related s p) :
    LogsTo s i linkId ↔ ∃ hold, p.held[i]? = some hold ∧ p.Writes hold ∧ hold.linkId = linkId := by
  have hcontents : s.logs.contents = p.contents := funext h.logs.contents
  have hwritten : ∀ line, (LinkLoggers.step (.info i line) s).logs.contents =
      (p.step (.info i line)).contents := fun line =>
    funext (LinkLoggers.related_step (.info i line) s p h).logs.contents
  have hgrows : p.contents linkId ≠ p.contents linkId ++ [0] := by
    intro heq
    have hlength := congrArg List.length heq
    rw [List.length_append] at hlength
    exact absurd hlength (Nat.ne_of_lt (Nat.lt_succ_self _))
  unfold LogsTo
  simp only [hwritten, hcontents]
  constructor
  · intro hlogs
    have hline := congrFun (hlogs [0]) linkId
    rw [Function.update_self] at hline
    unfold Ledger.step at hline
    dsimp only at hline
    cases hold : p.held[i]? with
    | none =>
      rw [hold] at hline
      exact absurd hline hgrows
    | some hold' =>
      rw [hold] at hline
      dsimp only at hline
      unfold Ledger.write at hline
      by_cases hwrites : p.Writes hold'
      · rw [if_pos hwrites] at hline
        refine ⟨hold', rfl, hwrites, ?_⟩
        by_contra hne
        dsimp only at hline
        rw [Function.update_of_ne (Ne.symm hne)] at hline
        exact hgrows hline
      · rw [if_neg hwrites] at hline
        exact absurd hline hgrows
  · rintro ⟨hold, hi, hwrites, rfl⟩ line
    unfold Ledger.step
    dsimp only
    rw [hi]
    dsimp only
    rw [Ledger.write, if_pos hwrites]

end Ledgers

/-! ## The invariant -/

section Invariant

variable {register : ProtocolRegister} {s : Site} {p : Ledger} {linkId i : Nat}

/-- The logger at place `i` is one of the link's, and writes. -/
def Live (p : Ledger) (i linkId : Nat) : Prop :=
  ∃ hold, p.held[i]? = some hold ∧ p.Writes hold ∧ hold.linkId = linkId

/-- Only registered servers have components, and their loggers write. -/
structure Inv (s : Site) (p : Ledger) : Prop where
  owned : ∀ id, Owned s.control id
  related : Related s.process p
  runs : ∀ id, ∀ i ∈ s.components id, s.control.running id ≠ none
  live : ∀ id, ∀ i ∈ s.components id, Live p i id

theorem Inv.logged (h : Inv s p) : Logged s := fun id i hi =>
  (logsTo_iff h.related).mpr (h.live id i hi)

/-- Loggers that are asked for later, and logs that are opened, leave a logger as it is. -/
theorem Live.mono {p' : Ledger} (h : Live p i linkId) {more : List Held}
    (hheld : p'.held = p.held ++ more)
    (hopened : ∀ c, p.opened linkId c = true → p'.opened linkId c = true) : Live p' i linkId := by
  obtain ⟨hold, hi, ⟨hclosed, hwrites⟩, rfl⟩ := h
  refine ⟨hold, ?_, ⟨hclosed, hopened _ hwrites⟩, rfl⟩
  obtain ⟨hlt, -⟩ := List.getElem?_eq_some_iff.mp hi
  rw [hheld, List.getElem?_append_left hlt, hi]

/-- A line leaves the loggers as they are. -/
theorem Live.info (h : Live p i linkId) (j : Nat) (line : List Byte) :
    Live (p.step (.info j line)) i linkId := by
  unfold Ledger.step
  dsimp only
  cases p.held[j]? with
  | none => exact h
  | some hold =>
    obtain ⟨hold', hi, hwrites, hid⟩ := h
    refine ⟨hold', by rw [p.held_write, hi], ?_, hid⟩
    rwa [Ledger.Writes, p.opened_write]

/-- The deletion of another link's log leaves a logger as it is. -/
theorem Live.closeLog {id : Nat} (h : Live p i linkId) (hne : linkId ≠ id) :
    Live (p.closeLog id) i linkId := by
  obtain ⟨hold, hi, ⟨hclosed, hwrites⟩, rfl⟩ := h
  refine ⟨hold, ?_, ⟨hclosed, ?_⟩, rfl⟩
  · change (p.held.map (Held.close id))[i]? = _
    rw [List.getElem?_map, hi, Option.map_some, Held.close, if_neg hne]
  · rw [p.opened_closeLog_of_ne hne]
    exact hwrites

/-- The logger of an ask, at its place behind those that are held. -/
theorem live_ledgerAll_iff {loggers : List Ask} {j : Nat} {ask : Ask}
    (hj : loggers[j]? = some ask) :
    Live (ledgerAll linkId loggers p) (p.held.length + j) linkId ↔
      p.opened linkId ask.clazz = true ∨
        ∃ other ∈ loggers, other.clazz = ask.clazz ∧ other.opens = true := by
  have hplace : (ledgerAll linkId loggers p).held[p.held.length + j]? =
      some ⟨linkId, ask.clazz, false⟩ := by
    rw [held_ledgerAll, List.getElem?_append_right (Nat.le_add_right _ _), Nat.add_sub_cancel_left,
      List.getElem?_map, hj]
    rfl
  have hopened : (ledgerAll linkId loggers p).opened linkId ask.clazz = true ↔
      p.opened linkId ask.clazz = true ∨
        ∃ other ∈ loggers, other.clazz = ask.clazz ∧ other.opens = true := by
    rw [opened_ledgerAll_iff, and_iff_right rfl]
  rw [← hopened]
  constructor
  · rintro ⟨hold, hhold, hwrites, -⟩
    obtain rfl := Option.some.inj (hplace.symm.trans hhold)
    exact hwrites.2
  · exact fun hwrites => ⟨_, hplace, ⟨rfl, hwrites⟩, rfl⟩

/-- The places of the loggers the components of a start keep. -/
theorem mem_places_iff {loggers : List Ask} {n : Nat} :
    i ∈ places n loggers ↔ ∃ j ask, loggers[j]? = some ask ∧ ask.kept = true ∧ i = n + j := by
  induction loggers generalizing n with
  | nil => simp [places]
  | cons ask loggers ih =>
    have hcons : (∃ j other, (ask :: loggers)[j]? = some other ∧ other.kept = true ∧ i = n + j) ↔
        (ask.kept = true ∧ i = n) ∨
          ∃ j other, loggers[j]? = some other ∧ other.kept = true ∧ i = n + 1 + j := by
      constructor
      · rintro ⟨j, other, hj, hkept, rfl⟩
        cases j with
        | zero =>
          obtain rfl := Option.some.inj hj
          exact .inl ⟨hkept, rfl⟩
        | succ j => exact .inr ⟨j, other, hj, hkept, by omega⟩
      · rintro (⟨hkept, rfl⟩ | ⟨j, other, hj, hkept, rfl⟩)
        · exact ⟨0, ask, rfl, hkept, rfl⟩
        · exact ⟨j + 1, other, hj, hkept, by omega⟩
    rw [hcons, places, ← ih]
    by_cases hkept : ask.kept = true
    · rw [if_pos hkept, List.mem_cons, and_iff_right hkept]
    · rw [if_neg hkept, or_iff_right fun h => hkept h.1]

/-- Only a start registers a server. -/
theorem started_of_moves {t t' : LinkTable} {running running' : Nat → Option Link}
    {op : Operation} (hmoves : Moves register t running op t' running')
    (hnone : running linkId = none) (hruns : running' linkId ≠ none) :
    ∃ up, op = .startServer linkId up := by
  cases hmoves with
  | addLink | updateLink | deleteLink | startIdle | startAgain | stopIdle | stopAgain |
    changeIdle => exact absurd hnone hruns
  | @start id up =>
    by_cases hid : linkId = id
    · exact ⟨up, by rw [hid]⟩
    · rw [Function.update_of_ne hid] at hruns
      exact absurd hnone hruns
  | @stop id =>
    by_cases hid : linkId = id
    · rw [hid, Function.update_self] at hruns
      exact absurd rfl hruns
    · rw [Function.update_of_ne hid] at hruns
      exact absurd hnone hruns
  | @changeGone id _ _ hrunning | @change id _ _ _ hrunning =>
    by_cases hid : linkId = id
    · rw [hid, hrunning] at hnone
      cases hnone
    · rw [Function.update_of_ne hid] at hruns
      exact absurd hnone hruns

/-- The loggers a request asks for are those of one link, the one it starts if it starts one. -/
theorem manage_process (register : ProtocolRegister) (howned : ∀ id, Owned s.control id)
    (op : Operation) (asks : Asks) :
    ∃ k, (step register (.manage op asks) s).process =
        askAll k (asked register asks op s.control) s.process ∧
      ∀ id, s.control.running id = none →
        (Manager.step register op s.control).running id ≠ none → id = k := by
  obtain ⟨-, hmoves⟩ := step_moves register howned op
  cases op with
  | startServer linkId up =>
    refine ⟨linkId, rfl, fun id hnone hruns => ?_⟩
    obtain ⟨up', hop⟩ := started_of_moves hmoves hnone hruns
    cases hop
    rfl
  | _ =>
    refine ⟨0, rfl, fun id hnone hruns => ?_⟩
    obtain ⟨up', hop⟩ := started_of_moves hmoves hnone hruns
    cases hop

theorem components_manage (op : Operation) (asks : Asks) (s : Site) (id : Nat) :
    (step register (.manage op asks) s).components id =
      if (Manager.step register op s.control).running id = none then []
      else if s.control.running id = none then
        places s.process.held.length (asked register asks op s.control)
      else s.components id := rfl

theorem length_held (h : Inv s p) : s.process.held.length = p.held.length :=
  h.related.held.length_eq

theorem inv_manage (h : Inv s p) {op : Operation} {asks : Asks}
    (hopens : Opens register (.manage op asks) s) :
    ∃ p', Inv (step register (.manage op asks) s) p' := by
  obtain ⟨howned, -⟩ := step_moves register h.owned op
  obtain ⟨k, hprocess, hstarts⟩ := manage_process register h.owned op asks
  refine ⟨ledgerAll k (asked register asks op s.control) p, howned, ?_, fun id i hi => ?_,
    fun id i hi => ?_⟩
  · rw [hprocess]
    exact related_askAll h.related k _
  · rw [components_manage] at hi
    intro hnone
    change (Manager.step register op s.control).running id = none at hnone
    rw [if_pos hnone] at hi
    exact absurd hi List.not_mem_nil
  · rw [components_manage] at hi
    by_cases hruns : (Manager.step register op s.control).running id = none
    · rw [if_pos hruns] at hi
      exact absurd hi List.not_mem_nil
    rw [if_neg hruns] at hi
    by_cases hnone : s.control.running id = none
    · rw [if_pos hnone, length_held h] at hi
      obtain ⟨j, ask, hj, hkept, rfl⟩ := mem_places_iff.mp hi
      obtain rfl := hstarts id hnone hruns
      have hask := hopens id hnone hruns ask (List.mem_of_getElem? hj) hkept
      rw [hasAppender_iff h.related.logs] at hask
      exact (live_ledgerAll_iff hj).mpr hask
    · rw [if_neg hnone] at hi
      exact (h.live id i hi).mono (held_ledgerAll _ _ _) fun c hc =>
        opened_ledgerAll_iff.mpr (.inl hc)

theorem inv_handler (h : Inv s p) {clazz : JString} {opens : Bool}
    (hopens : Opens register (.handler linkId clazz opens) s) :
    ∃ p', Inv (step register (.handler linkId clazz opens) s) p' := by
  unfold step
  dsimp only
  by_cases hnone : s.control.running linkId = none
  · rw [if_pos hnone]
    exact ⟨p, h⟩
  rw [if_neg hnone]
  let ask : Ask := ⟨clazz, opens, true⟩
  refine ⟨ledgerAll linkId [ask] p, h.owned, related_askAll h.related linkId [ask],
    fun id i hi => ?_, fun id i hi => ?_⟩
  · by_cases hid : id = linkId
    · rw [hid]
      exact hnone
    · dsimp only at hi
      rw [Function.update_of_ne hid] at hi
      exact h.runs id i hi
  · have hold : ∀ i ∈ s.components id, Live (ledgerAll linkId [ask] p) i id :=
      fun i hi => (h.live id i hi).mono (held_ledgerAll _ _ _) fun c hc =>
        opened_ledgerAll_iff.mpr (.inl hc)
    dsimp only at hi
    by_cases hid : id = linkId
    · subst hid
      rw [Function.update_self, List.mem_append, List.mem_singleton] at hi
      rcases hi with hi | rfl
      · exact hold i hi
      · have hask := hopens hnone
        rw [hasAppender_iff h.related.logs] at hask
        rw [length_held h]
        exact (live_ledgerAll_iff (j := 0) rfl).mpr (hask.imp_right fun htrue =>
          ⟨ask, List.mem_singleton_self _, rfl, htrue⟩)
    · rw [Function.update_of_ne hid] at hi
      exact hold i hi

/-- **`deleteLog` is refused** while the link has a server; the logs of other links stay. -/
theorem inv_deleteLog (h : Inv s p) (linkId : Nat) :
    ∃ p', Inv (step register (.deleteLog linkId) s) p' := by
  have hrun : step register (.deleteLog linkId) s =
      if s.control.linkIdLinkMap linkId ≠ none then s
      else { s with process := LinkLoggers.step (.deleteLog linkId) s.process } := by
    change after ((deleteLog linkId).run s) = _
    unfold deleteLog
    rw [run_get_bind]
    split
    · rfl
    · rfl
  rw [hrun]
  by_cases hmap : s.control.linkIdLinkMap linkId = none
  · rw [if_neg (not_not_intro hmap)]
    refine ⟨p.closeLog linkId, h.owned, LinkLoggers.related_step (.deleteLog linkId) _ _ h.related,
      h.runs, fun id i hi => (h.live id i hi).closeLog ?_⟩
    rintro rfl
    exact h.runs id i hi ((Storages.linkMap_eq_none_iff (h.owned id)).mp hmap)
  · rw [if_pos hmap]
    exact ⟨p, h⟩

/-- **One event** keeps the components writing, if those it adds can. -/
theorem inv_step (e : Event) (s : Site) (h : ∃ p, Inv s p) (hopens : Opens register e s) :
    ∃ p, Inv (step register e s) p := by
  obtain ⟨p, h⟩ := h
  cases e with
  | manage op asks => exact inv_manage h hopens
  | handler linkId clazz opens => exact inv_handler h hopens
  | deleteLog linkId => exact inv_deleteLog h linkId
  | info i line =>
    exact ⟨p.step (.info i line), h.owned, LinkLoggers.related_step (.info i line) _ _ h.related,
      h.runs, fun id j hj => (h.live id j hj).info i line⟩
  | readLog linkId =>
    exact ⟨p, h.owned, LinkLoggers.related_step (.readLog linkId) _ _ h.related, h.runs, h.live⟩
  | restart =>
    exact ⟨p.step .restart, owned_of_emptyMaps fun _ => ⟨rfl, rfl⟩,
      LinkLoggers.related_step .restart _ _ h.related, nofun, nofun⟩

/-- A component that can not open the log does not write to it. -/
theorem not_logged_step (e : Event) (s : Site) (h : ∃ p, Inv s p)
    (hopens : ¬ Opens register e s) : ¬ Logged (step register e s) := by
  obtain ⟨p, h⟩ := h
  intro hlogged
  apply hopens
  cases e with
  | manage op asks =>
    obtain ⟨k, hprocess, hstarts⟩ := manage_process register h.owned op asks
    intro id hnone hruns ask hask hkept
    obtain rfl := hstarts id hnone hruns
    obtain ⟨j, hj⟩ := List.getElem?_of_mem hask
    have hplace : p.held.length + j ∈ (step register (.manage op asks) s).components id := by
      rw [components_manage, if_neg hruns, if_pos hnone, length_held h]
      exact mem_places_iff.mpr ⟨j, ask, hj, hkept, rfl⟩
    have hlogs := hlogged id _ hplace
    rw [hprocess] at hlogs
    rw [hasAppender_iff h.related.logs]
    exact (live_ledgerAll_iff hj).mp ((logsTo_iff (related_askAll h.related id _)).mp hlogs)
  | handler linkId clazz opens =>
    intro hruns
    unfold step at hlogged
    dsimp only at hlogged
    rw [if_neg hruns] at hlogged
    have hplace : p.held.length + 0 ∈ Function.update s.components linkId
        (s.components linkId ++ [s.process.held.length]) linkId := by
      rw [Function.update_self, length_held h]
      exact List.mem_append_right _ (List.mem_singleton_self _)
    have hlogs := (logsTo_iff (related_askAll h.related linkId [⟨clazz, opens, true⟩])).mp
      (hlogged linkId _ hplace)
    rw [hasAppender_iff h.related.logs]
    refine ((live_ledgerAll_iff rfl).mp hlogs).imp_right ?_
    rintro ⟨other, hother, -, hopened⟩
    rw [List.mem_singleton.mp hother] at hopened
    exact hopened
  | info | readLog | deleteLog | restart => trivial

theorem inv_start (table : LinkTable) :
    Inv (start table) (Ledger.boot fun _ => []) where
  owned := owned_of_emptyMaps fun _ => ⟨rfl, rfl⟩
  related := LinkLoggers.related_boot _ _ _ nofun nofun fun _ => rfl
  runs := nofun
  live := nofun

/-- **No line of a running link is lost, doubled or misplaced** as long as its components can open
the log, or find it open, and only then. -/
theorem always_logged_iff (register : ProtocolRegister) (table : LinkTable) (es : List Event) :
    Always (step register) Logged es (start table) ↔
      Meets (step register) (Opens register) es (start table) := by
  have hlogged : ∀ s, (∃ p, Inv s p) → Logged s := fun s ⟨p, h⟩ => h.logged
  exact always_iff_meets hlogged inv_step not_logged_step ⟨_, inv_start table⟩

end Invariant

end Terminator.Manager.RunningLogs
