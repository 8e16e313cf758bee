import Terminator.Java.Exec
import Terminator.Manager.LinkTable

/-!
# Link control

`LinkControlServiceImpl.java`, with what it calls of `LinkServiceImpl.java`, `LinkAction.java` and
`ServerImpl.java`. A running link is kept in three places: the two maps of the service, the `Link`
object its server was built with, and the row, which every call reads and rewrites. The SQL
statements succeed here: `Manager/FailedCalls` has the ones that fail, and the transactions.

`Starts`, `Stops` and `Changes` say once how a call of `startServer`, `stopServer` and
`changeWorkMode` can end and in which state; the results on runs go by cases on them.
-/

namespace Terminator.Manager

open Terminator.Java Terminator.Storage

/-! ## The state of the manager -/

/-- Where a server is in its life. A `closed` one has lost its channels, and has not released its
timer and its channel factories. -/
inductive ServerState where
  | idle
  | running
  | closed
  | stopped
  deriving DecidableEq, Repr

/-- `ServerImpl`: the link it was built with. -/
structure Server where
  link : Ref
  state : ServerState
  deriving DecidableEq

instance : Inhabited Server := ⟨⟨0, .idle⟩⟩

/-- The table, the objects, and the fields of `LinkControlServiceImpl`. -/
structure LinkControl where
  table : LinkTable
  links : Heap Link
  servers : Heap Server
  linkIdServerMap : Nat → Option Ref
  linkIdLinkMap : Nat → Option Ref

/-- The `ProtocolRegister`: the default plugins of a protocol. -/
structure ProtocolRegister where
  getDefaultSignerMap : Option JString → Option JString
  getDefaultExtractorMap : Option JString → Option JString

/-- What one call of `startServer` meets: the classes that are found, the plugins whose constructor
returns, and whether the port is free. -/
structure Startup where
  forName : JString → Bool
  newInstance : JString → Bool
  binds : Bool

/-! ## `LinkService` -/

/-- `getLinkById`: the mapper builds a new object. -/
def getLinkById (id : Nat) : Method LinkControl (Option Ref) := modifyGet fun s =>
  match s.table.selectLinkById id with
  | none => (none, s)
  | some link => (some s.links.size, { s with links := (s.links.alloc link).2 })

/-- `modifyLink`. -/
def modifyLink (l : Ref) : Method LinkControl Unit :=
  modify fun s => { s with table := s.table.updateLink (s.links.get l) }

/-- The fields of a link. -/
def readLink (l : Ref) : Method LinkControl Link := do return (← get).links.get l

/-- Assignments to fields of a link. -/
def setLink (l : Ref) (f : Link → Link) : Method LinkControl Unit :=
  modify fun s => { s with links := s.links.set l (f (s.links.get l)) }

/-! ## `ServerImpl` -/

/-- Assignments to fields of a server. -/
def setServer (q : Ref) (f : Server → Server) : Method LinkControl Unit :=
  modify fun s => { s with servers := s.servers.set q (f (s.servers.get q)) }

/-- `new ServerImpl(link)`. -/
def newServer (l : Ref) : Method LinkControl Ref := modifyGet fun s =>
  (s.servers.size, { s with servers := (s.servers.alloc ⟨l, .idle⟩).2 })

/-- `start`: the port may be taken. -/
def Server.start (up : Startup) (q : Ref) : Method LinkControl Unit :=
  if up.binds then setServer q fun server => { server with state := .running }
  else throw .channel

/-- `stop`: `releaseResources` closes the channels, and may throw then. -/
def Server.stop (stops : Bool) (q : Ref) : Method LinkControl Unit :=
  if stops then setServer q fun server => { server with state := .stopped }
  else do
    setServer q fun server => { server with state := .closed }
    throw .illegalState

/-- `changeWorkMode`: the mode of the server's own link; the channels it closes are not part of this
state. -/
def Server.changeWorkMode (mode : WorkMode) (q : Ref) : Method LinkControl Unit := do
  let server := (← get).servers.get q
  setLink server.link fun link => { link with workMode := some mode }

/-! ## `LinkControlServiceImpl` -/

/-- `Character.isWhitespace`. -/
def isWhitespace (c : JChar) : Bool :=
  let n := c.toNat
  (0x09 ≤ n && n ≤ 0x0D) || (0x1C ≤ n && n ≤ 0x20) || n == 0x1680 || n == 0x180E ||
    (0x2000 ≤ n && n ≤ 0x200A && n != 0x2007) || n == 0x2028 || n == 0x2029 || n == 0x205F ||
    n == 0x3000

/-- `StringUtils.isBlank`. -/
def isBlank : Option JString → Bool
  | none => true
  | some s => s.all isWhitespace

/-- `getPluginClass`: `none` is `null`. -/
def getPluginClass (register : ProtocolRegister) (up : Startup) (link : Link) (mode : WorkMode) :
    Except Throwable (Option JString) :=
  let className := match mode with
    | .RECORD | .REPLAY => link.signClass
    | .STUB => link.extractClass
    | .TUNNEL => none
  if isBlank className then
    match mode with
    | .RECORD | .REPLAY => .ok (register.getDefaultSignerMap link.protocolType)
    | .STUB => .ok (register.getDefaultExtractorMap link.protocolType)
    | .TUNNEL => .ok none
  else if className.any up.forName then .ok className
  else .error .signerInitialization

/-- `getPluginInstance`: a plugin is told by its class. -/
def getPluginInstance (up : Startup) : Option JString → Except Throwable JString
  | none => .error .nullPointer
  | some clazz => if up.newInstance clazz then .ok clazz else .error .signerInitialization

/-- `StorageFactory.getStorage`, as the type of the storage it builds. -/
def storageOf : Option StorageType → StorageType
  | some .FILE => .FILE
  | _ => .CACHE

/-- The signer and the extractor that `configLink` builds. -/
def createPlugins (register : ProtocolRegister) (up : Startup) (link : Link) :
    Except Throwable (JString × JString) := do
  let signerClass ← getPluginClass register up link .RECORD
  let extractorClass ← getPluginClass register up link .STUB
  let signer ← getPluginInstance up signerClass
  let extractor ← getPluginInstance up extractorClass
  return (signer, extractor)

/-- The link with its plugins and its storage. -/
def Link.configured (signer extractor : JString) (link : Link) : Link :=
  { link with
    requestSigner := some signer
    requestExtractor := some extractor
    storage := some (storageOf link.storageType) }

/-- `configLink`. -/
def configLink (register : ProtocolRegister) (up : Startup) (l : Ref) :
    Method LinkControl Unit := do
  let link ← readLink l
  let plugins ← fromExcept (createPlugins register up link)
  setLink l (Link.configured plugins.1 plugins.2)

/-- `if (server == null) { … }` of `startServer`. -/
def openServer (register : ProtocolRegister) (up : Startup) (linkId : Nat) (l : Ref) :
    Method LinkControl Unit := do
  match (← get).linkIdServerMap linkId with
  | some _ => pure ()
  | none => do
    configLink register up l
    let q ← newServer l
    Server.start up q
    modify fun s => { s with linkIdLinkMap := Function.update s.linkIdLinkMap linkId (some l) }
    modify fun s => { s with linkIdServerMap := Function.update s.linkIdServerMap linkId (some q) }

/-- `startServer`. -/
def startServer (register : ProtocolRegister) (up : Startup) (linkId : Nat) :
    Method LinkControl Unit := do
  match ← getLinkById linkId with
  | none => pure ()
  | some l => do
    openServer register up linkId l
    setLink l fun link => { link with status := some .running }
    modifyLink l

/-- `if (server != null) { … }` of `stopServer`. -/
def closeServer (stops : Bool) (linkId : Nat) : Method LinkControl Unit := do
  match (← get).linkIdServerMap linkId with
  | none => pure ()
  | some q => do
    Server.stop stops q
    modify fun s => { s with linkIdServerMap := Function.update s.linkIdServerMap linkId none }

/-- `stopServer`. -/
def stopServer (stops : Bool) (linkId : Nat) : Method LinkControl Unit := do
  match ← getLinkById linkId with
  | none => pure ()
  | some l => do
    closeServer stops linkId
    modify fun s => { s with linkIdLinkMap := Function.update s.linkIdLinkMap linkId none }
    setLink l fun link => { link with status := some .stopped }
    modifyLink l

/-- `changeWorkMode`. -/
def changeWorkMode (mode : WorkMode) (linkId : Nat) : Method LinkControl Unit := do
  match (← get).linkIdServerMap linkId with
  | none => throw .linkStatus
  | some q => do
    Server.changeWorkMode mode q
    match ← getLinkById linkId with
    | none => throw .nullPointer
    | some l => do
      setLink l fun link => { link with workMode := some mode }
      modifyLink l

/-! ## The requests -/

/-- A request to `LinkAction` or `LinkControlAction`, with what it meets. -/
inductive Operation where
  | addLink (form : LinkForm)
  | updateLink (linkId : Nat) (form : LinkForm)
  | deleteLink (linkId : Nat)
  | startServer (linkId : Nat) (up : Startup)
  | stopServer (linkId : Nat) (stops : Bool)
  | changeWorkMode (linkId : Nat) (mode : WorkMode)

/-- The method a request calls. -/
def Operation.call (register : ProtocolRegister) : Operation → Method LinkControl Unit
  | addLink form => modify fun s => { s with table := s.table.insertLink (form.link none) }
  | updateLink id form =>
    modify fun s => { s with table := s.table.updateLink (form.link (some id)) }
  | deleteLink id => modify fun s => { s with table := s.table.deleteLink id }
  | startServer id up => Manager.startServer register up id
  | stopServer id stops => Manager.stopServer stops id
  | changeWorkMode id mode => Manager.changeWorkMode mode id

/-- One request, to its end. -/
def step (register : ProtocolRegister) (op : Operation) (s : LinkControl) : LinkControl :=
  after ((op.call register).run s)

/-! ## Values for small runs -/

/-- The default plugins of `HTTP`. -/
def httpRegister : ProtocolRegister where
  getDefaultSignerMap protocol :=
    if protocol = some (lit "HTTP") then
      some (lit "com.baidu.terminator.plugin.signer.DefaultHttpSigner")
    else none
  getDefaultExtractorMap protocol :=
    if protocol = some (lit "HTTP") then
      some (lit "com.baidu.terminator.plugin.extractor.http.DefaultHttpExtractor")
    else none

/-- Every class is found, every plugin built, and the port is free. -/
def freePort : Startup := ⟨fun _ => true, fun _ => true, true⟩

/-- A link that records into a file. -/
def recordForm : LinkForm where
  name := lit "http_proxy"
  localPort := 8080
  remoteAddress := lit "127.0.0.1"
  remotePort := 80
  workMode := .RECORD
  protocolType := lit "HTTP"
  storageType := .FILE
  signClass := none
  extractClass := none

/-- The manager of a new process, over an empty table. -/
def newManager : LinkControl where
  table := LinkTable.empty
  links := ⟨[]⟩
  servers := ⟨[]⟩
  linkIdServerMap _ := none
  linkIdLinkMap _ := none

/-! ## What one statement leaves -/

section Statements

variable {s : LinkControl} {id : Nat} {l : Ref}

theorem getLinkById_run_none (h : s.table.selectLinkById id = none) :
    (getLinkById id).run s = .ok none s := by
  unfold getLinkById
  rw [EStateM.run_modifyGet, h]

theorem getLinkById_run_some {link : Link} (h : s.table.selectLinkById id = some link) :
    (getLinkById id).run s =
      .ok (some s.links.size) { s with links := (s.links.alloc link).2 } := by
  unfold getLinkById
  rw [EStateM.run_modifyGet, h]

/-- Assignments to an object that was just built. -/
theorem setLink_run_alloc {h : Heap Link} {link : Link} (hs : s.links = (h.alloc link).2)
    (f : Link → Link) :
    (setLink h.size f).run s = .ok () { s with links := (h.alloc (f link)).2 } := by
  unfold setLink
  rw [EStateM.run_modify, hs, Heap.get_alloc_self, Heap.set_alloc]

theorem readLink_run_alloc {h : Heap Link} {link : Link} (hs : s.links = (h.alloc link).2) :
    (readLink h.size).run s = .ok link s := by
  unfold readLink
  rw [run_bind_of_ok (EStateM.run_get s), EStateM.run_pure, hs, Heap.get_alloc_self]

theorem modifyLink_run_alloc {h : Heap Link} {link : Link} (hs : s.links = (h.alloc link).2) :
    (modifyLink h.size).run s = .ok () { s with table := s.table.updateLink link } := by
  unfold modifyLink
  rw [EStateM.run_modify, hs, Heap.get_alloc_self]

end Statements

/-! ## How a call can end -/

section Calls

variable (register : ProtocolRegister) (up : Startup) (s : LinkControl) (id : Nat)

/-- The plugins of the link are built, and its port is free. -/
def Opens (t : LinkTable) (plugins : JString × JString) : Prop :=
  ∃ link, t.selectLinkById id = some link ∧ createPlugins register up link = .ok plugins ∧
    up.binds = true

/-- How `startServer` can end. -/
inductive Starts : EStateM.Result Throwable LinkControl Unit → Prop where
  | absent (hlink : s.table.selectLinkById id = none) : Starts (.ok () s)
  | again {link : Link} {q : Ref} (hlink : s.table.selectLinkById id = some link)
      (hq : s.linkIdServerMap id = some q) :
      Starts (.ok () { s with
        table := s.table.setStatus .running id
        links := (s.links.alloc { link with status := some .running }).2 })
  | failed {link : Link} (e : Throwable) (link' : Link) (servers : Heap Server)
      (hlink : s.table.selectLinkById id = some link) (hq : s.linkIdServerMap id = none)
      (hfail : ∀ plugins, ¬ Opens register up id s.table plugins)
      (hservers : servers = s.servers ∨ ∃ server, servers = (s.servers.alloc server).2) :
      Starts (.error e { s with links := (s.links.alloc link').2, servers := servers })
  | opened {link : Link} {plugins : JString × JString}
      (hlink : s.table.selectLinkById id = some link) (hq : s.linkIdServerMap id = none)
      (hplugins : createPlugins register up link = .ok plugins) (hbinds : up.binds = true) :
      Starts (.ok ()
        { table := s.table.setStatus .running id
          links := (s.links.alloc
            { link.configured plugins.1 plugins.2 with status := some .running }).2
          servers := (s.servers.alloc ⟨s.links.size, .running⟩).2
          linkIdServerMap := Function.update s.linkIdServerMap id (some s.servers.size)
          linkIdLinkMap := Function.update s.linkIdLinkMap id (some s.links.size) })

/-- How `stopServer` can end. -/
inductive Stops (stops : Bool) : EStateM.Result Throwable LinkControl Unit → Prop where
  | absent (hlink : s.table.selectLinkById id = none) : Stops stops (.ok () s)
  | failed {link : Link} {q : Ref} (hlink : s.table.selectLinkById id = some link)
      (hq : s.linkIdServerMap id = some q) (hstops : stops = false) :
      Stops stops (.error .illegalState { s with
        links := (s.links.alloc link).2
        servers := s.servers.set q { s.servers.get q with state := .closed } })
  | again {link : Link} (hlink : s.table.selectLinkById id = some link)
      (hq : s.linkIdServerMap id = none) :
      Stops stops (.ok () { s with
        table := s.table.setStatus .stopped id
        links := (s.links.alloc { link with status := some .stopped }).2
        linkIdLinkMap := Function.update s.linkIdLinkMap id none })
  | closed {link : Link} {q : Ref} (hlink : s.table.selectLinkById id = some link)
      (hq : s.linkIdServerMap id = some q) (hstops : stops = true) :
      Stops stops (.ok ()
        { table := s.table.setStatus .stopped id
          links := (s.links.alloc { link with status := some .stopped }).2
          servers := s.servers.set q { s.servers.get q with state := .stopped }
          linkIdServerMap := Function.update s.linkIdServerMap id none
          linkIdLinkMap := Function.update s.linkIdLinkMap id none })

/-- The links after `server.changeWorkMode(mode)`. -/
def modeLinks (mode : WorkMode) (q : Ref) : Heap Link :=
  let l := (s.servers.get q).link
  s.links.set l { s.links.get l with workMode := some mode }

/-- How `changeWorkMode` can end. -/
inductive Changes (mode : WorkMode) : EStateM.Result Throwable LinkControl Unit → Prop where
  | refused (hq : s.linkIdServerMap id = none) : Changes mode (.error .linkStatus s)
  | gone {q : Ref} (hq : s.linkIdServerMap id = some q)
      (hlink : s.table.selectLinkById id = none) :
      Changes mode (.error .nullPointer { s with links := modeLinks s mode q })
  | changed {link : Link} {q : Ref} (hq : s.linkIdServerMap id = some q)
      (hlink : s.table.selectLinkById id = some link) :
      Changes mode (.ok () { s with
        table := s.table.setWorkMode mode id
        links := ((modeLinks s mode q).alloc { link with workMode := some mode }).2 })

end Calls

section CallsProved

variable {register : ProtocolRegister} {up : Startup} {s : LinkControl} {id : Nat}

theorem newServer_run (l : Ref) (s : LinkControl) : (newServer l).run s =
    .ok s.servers.size { s with servers := (s.servers.alloc ⟨l, .idle⟩).2 } := rfl

theorem Server.start_run_alloc (hbinds : up.binds = true) {h : Heap Server} {server : Server}
    (hs : s.servers = (h.alloc server).2) : (Server.start up h.size).run s =
      .ok () { s with servers := (h.alloc { server with state := .running }).2 } := by
  unfold Server.start setServer
  rw [if_pos hbinds, EStateM.run_modify, hs, Heap.get_alloc_self, Heap.set_alloc]

theorem Server.start_run_of_taken (hbinds : up.binds = false) {q : Ref} :
    (Server.start up q).run s = .error .channel s := by
  unfold Server.start
  rw [hbinds]
  rfl

/-- `configLink` of a link that was just built either throws before it assigns, or configures it. -/
theorem configLink_run_alloc (register : ProtocolRegister) (up : Startup) {h : Heap Link}
    {link : Link} (hs : s.links = (h.alloc link).2) :
    (∃ e, createPlugins register up link = .error e ∧
        (configLink register up h.size).run s = .error e s) ∨
      ∃ plugins, createPlugins register up link = .ok plugins ∧
        (configLink register up h.size).run s =
          .ok () { s with links := (h.alloc (link.configured plugins.1 plugins.2)).2 } := by
  unfold configLink
  rw [run_bind_of_ok (readLink_run_alloc hs)]
  cases hplugins : createPlugins register up link with
  | error e => exact .inl ⟨e, rfl, run_bind_of_error (run_fromExcept_error e s)⟩
  | ok plugins =>
    refine .inr ⟨plugins, rfl, ?_⟩
    rw [run_bind_of_ok (run_fromExcept_ok plugins s), setLink_run_alloc hs]

theorem openServer_run_some {l q : Ref} (hq : s.linkIdServerMap id = some q) :
    (openServer register up id l).run s = .ok () s := by
  unfold openServer
  rw [run_bind_of_ok (EStateM.run_get s), hq]
  rfl

/-- A start that fails registers nothing. -/
theorem openServer_run_none (register : ProtocolRegister) (up : Startup) {h : Heap Link}
    {link : Link} (hs : s.links = (h.alloc link).2) (hq : s.linkIdServerMap id = none) :
    (∃ e link' servers,
      (∀ plugins, createPlugins register up link = .ok plugins → up.binds = false) ∧
      (servers = s.servers ∨ ∃ server, servers = (s.servers.alloc server).2) ∧
      (openServer register up id h.size).run s =
        .error e { s with links := (h.alloc link').2, servers := servers }) ∨
    ∃ plugins, createPlugins register up link = .ok plugins ∧ up.binds = true ∧
      (openServer register up id h.size).run s = .ok () { s with
        links := (h.alloc (link.configured plugins.1 plugins.2)).2
        servers := (s.servers.alloc ⟨h.size, .running⟩).2
        linkIdServerMap := Function.update s.linkIdServerMap id (some s.servers.size)
        linkIdLinkMap := Function.update s.linkIdLinkMap id (some h.size) } := by
  unfold openServer
  rw [run_bind_of_ok (EStateM.run_get s), hq]
  rcases configLink_run_alloc register up hs with
    ⟨e, hplugins, hconfig⟩ | ⟨plugins, hplugins, hconfig⟩
  · refine .inl ⟨e, link, s.servers, fun _ h => ?_, .inl rfl, ?_⟩
    · rw [hplugins] at h
      cases h
    · rw [run_bind_of_error hconfig, ← hs]
  · rw [run_bind_of_ok hconfig, run_bind_of_ok (newServer_run _ _)]
    cases hbinds : up.binds with
    | true =>
      refine .inr ⟨plugins, hplugins, rfl, ?_⟩
      rw [run_bind_of_ok (Server.start_run_alloc hbinds rfl)]
      rfl
    | false =>
      refine .inl ⟨.channel, link.configured plugins.1 plugins.2,
        (s.servers.alloc ⟨h.size, .idle⟩).2, fun _ _ => rfl, .inr ⟨_, rfl⟩, ?_⟩
      rw [run_bind_of_error (Server.start_run_of_taken hbinds)]

/-- **`startServer`**, every way it can end. -/
theorem startServer_starts (register : ProtocolRegister) (up : Startup) (s : LinkControl)
    (id : Nat) :
    Starts register up s id ((startServer register up id).run s) := by
  unfold startServer
  cases hlink : s.table.selectLinkById id with
  | none =>
    rw [run_bind_of_ok (getLinkById_run_none hlink)]
    exact .absent hlink
  | some link =>
    rw [run_bind_of_ok (getLinkById_run_some hlink)]
    dsimp only
    cases hq : s.linkIdServerMap id with
    | some q =>
      have hopen : (openServer register up id s.links.size).run
          { s with links := (s.links.alloc link).2 } = .ok () _ := openServer_run_some hq
      rw [run_bind_of_ok hopen, run_bind_of_ok (setLink_run_alloc rfl _), modifyLink_run_alloc rfl,
        LinkTable.updateLink_status hlink]
      exact .again hlink hq
    | none =>
      rcases openServer_run_none register up (s := { s with links := (s.links.alloc link).2 })
        rfl hq with ⟨e, link', servers, hfail, hservers, hopen⟩ | ⟨plugins, hplugins, hbinds, hopen⟩
      · rw [run_bind_of_error hopen]
        refine .failed e link' servers hlink hq (fun plugins hopens => ?_) hservers
        obtain ⟨link0, hlink0, hplugins, hbinds⟩ := hopens
        obtain rfl := Option.some.inj (hlink.symm.trans hlink0)
        rw [hfail plugins hplugins] at hbinds
        cases hbinds
      · rw [run_bind_of_ok hopen, run_bind_of_ok (setLink_run_alloc rfl _),
          modifyLink_run_alloc rfl]
        have htable : s.table.updateLink
            { link.configured plugins.1 plugins.2 with status := some .running } =
            s.table.setStatus .running id := LinkTable.updateLink_status hlink .running
        rw [htable]
        exact .opened hlink hq hplugins hbinds

theorem closeServer_run_none {stops : Bool} (hq : s.linkIdServerMap id = none) :
    (closeServer stops id).run s = .ok () s := by
  unfold closeServer
  rw [run_bind_of_ok (EStateM.run_get s), hq]
  rfl

theorem closeServer_run_some {q : Ref} (hq : s.linkIdServerMap id = some q) :
    (closeServer true id).run s = .ok () { s with
      servers := s.servers.set q { s.servers.get q with state := .stopped }
      linkIdServerMap := Function.update s.linkIdServerMap id none } := by
  unfold closeServer
  rw [run_bind_of_ok (EStateM.run_get s), hq]
  rfl

theorem closeServer_run_error {q : Ref} (hq : s.linkIdServerMap id = some q) :
    (closeServer false id).run s = .error .illegalState { s with
      servers := s.servers.set q { s.servers.get q with state := .closed } } := by
  unfold closeServer
  rw [run_bind_of_ok (EStateM.run_get s), hq]
  rfl

/-- **`stopServer`**, every way it can end. -/
theorem stopServer_stops (stops : Bool) (s : LinkControl) (id : Nat) :
    Stops s id stops ((stopServer stops id).run s) := by
  unfold stopServer
  cases hlink : s.table.selectLinkById id with
  | none =>
    rw [run_bind_of_ok (getLinkById_run_none hlink)]
    exact .absent hlink
  | some link =>
    rw [run_bind_of_ok (getLinkById_run_some hlink)]
    dsimp only
    cases hq : s.linkIdServerMap id with
    | none =>
      have hclose : (closeServer stops id).run { s with links := (s.links.alloc link).2 } =
          .ok () _ := closeServer_run_none hq
      rw [run_bind_of_ok hclose, run_bind_of_ok (EStateM.run_modify _ _),
        run_bind_of_ok (setLink_run_alloc rfl _), modifyLink_run_alloc rfl,
        LinkTable.updateLink_status hlink]
      exact .again hlink hq
    | some q =>
      cases stops with
      | false =>
        have hclose : (closeServer false id).run { s with links := (s.links.alloc link).2 } =
            .error _ _ := closeServer_run_error hq
        rw [run_bind_of_error hclose]
        exact .failed hlink hq rfl
      | true =>
        have hclose : (closeServer true id).run { s with links := (s.links.alloc link).2 } =
            .ok () _ := closeServer_run_some hq
        rw [run_bind_of_ok hclose, run_bind_of_ok (EStateM.run_modify _ _),
          run_bind_of_ok (setLink_run_alloc rfl _), modifyLink_run_alloc rfl,
          LinkTable.updateLink_status hlink]
        exact .closed hlink hq rfl

/-- **`changeWorkMode`**, every way it can end. -/
theorem changeWorkMode_changes (mode : WorkMode) (s : LinkControl) (id : Nat) :
    Changes s id mode ((changeWorkMode mode id).run s) := by
  unfold changeWorkMode
  rw [run_bind_of_ok (EStateM.run_get s)]
  cases hq : s.linkIdServerMap id with
  | none => exact .refused hq
  | some q =>
    have hmode : (Server.changeWorkMode mode q).run s =
        .ok () { s with links := modeLinks s mode q } := rfl
    dsimp only
    rw [run_bind_of_ok hmode]
    cases hlink : s.table.selectLinkById id with
    | none =>
      have hget : (getLinkById id).run { s with links := modeLinks s mode q } = .ok none _ :=
        getLinkById_run_none hlink
      rw [run_bind_of_ok hget]
      exact .gone hq hlink
    | some link =>
      have hget : (getLinkById id).run { s with links := modeLinks s mode q } = .ok _ _ :=
        getLinkById_run_some hlink
      rw [run_bind_of_ok hget]
      dsimp only
      rw [run_bind_of_ok (setLink_run_alloc rfl _), modifyLink_run_alloc rfl,
        LinkTable.updateLink_workMode hlink]
      exact .changed hq hlink

end CallsProved

end Terminator.Manager
