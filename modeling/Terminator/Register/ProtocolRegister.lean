import Terminator.Java.Collections
import Terminator.Manager.LinkControl

/-!
# The protocol register

`ProtocolRegisterImpl.java`: what `afterPropertiesSet` makes of the annotated classes the scanner
returns, and what the manager finds in it for a link (`getPluginClass` of
`LinkControlServiceImpl.java`).

A protocol needs a pipeline factory, a default signer and a default extractor. It is listed as
supported before the extractors are scanned, and on its factory and its signer alone.

* `mem_supportedProtocols_iff`, `isSome_defaultExtractor_iff`: what the register holds, by the
  classes;
* **`listed_iff`**: the protocols it lists are those with all three, and a link of a listed one
  finds both its plugins, iff every protocol with a factory and a signer has an extractor;
* `createPlugins_of_no_extractor`: the link of another one is started with a `null` class.
-/

namespace Terminator.Register

open Terminator.Java Terminator.Storage Terminator.Manager

/-! ## The classes -/

/-- A class with `@PipelineFactory(protocol)`. -/
structure FactoryClass where
  name : JString
  protocol : JString
  deriving DecidableEq

/-- A class with one of the four annotations of a plugin, `@DefaultSigner(protocol, message)`,
`@CustomizedSigner`, `@DefaultExtractor` or `@CustomizedExtractor`. -/
structure PluginClass where
  name : JString
  protocol : JString
  message : JString
  deriving DecidableEq

/-- What `scanAnnotatedClass` returns, by annotation. -/
structure Scanned where
  pipelineFactory : List FactoryClass
  defaultSigner : List PluginClass
  customizedSigner : List PluginClass
  defaultExtractor : List PluginClass
  customizedExtractor : List PluginClass

/-- `PluginInfo`. -/
structure PluginInfo where
  protocol : JString
  name : JString
  message : JString
  deriving DecidableEq

/-! ## The register -/

/-- The fields of `ProtocolRegisterImpl`. -/
structure ProtocolRegisterImpl where
  supportedProtocols : LinkedHashSet JString
  protocolChannelPipelineFactoryMap : HashMap JString JString
  protocolRequestSignerMap : HashMap JString JString
  defaultSigners : List PluginInfo
  customizedSigners : List PluginInfo
  protocolRequestExtractorMap : HashMap JString JString
  defaultExtractors : List PluginInfo
  customizedExtractors : List PluginInfo

/-- `pi.setName(clazz.getName())`, `setProtocol` and `setMessage`. -/
def PluginClass.info (clazz : PluginClass) : PluginInfo :=
  ⟨clazz.protocol, clazz.name, clazz.message⟩

/-- `map.put(protocol, clazz)` for each class. -/
def putClasses (map : HashMap JString JString) (classes : List PluginClass) :
    HashMap JString JString :=
  map.putAll (classes.map fun clazz => (clazz.protocol, clazz.name))

namespace ProtocolRegisterImpl

/-- Its fields before `afterPropertiesSet`. -/
def initial : ProtocolRegisterImpl where
  supportedProtocols := .empty
  protocolChannelPipelineFactoryMap := .empty
  protocolRequestSignerMap := .empty
  defaultSigners := []
  customizedSigners := []
  protocolRequestExtractorMap := .empty
  defaultExtractors := []
  customizedExtractors := []

def scanPipelineFactory (cpfClasses : List FactoryClass) (r : ProtocolRegisterImpl) :
    ProtocolRegisterImpl :=
  { r with
    protocolChannelPipelineFactoryMap := r.protocolChannelPipelineFactoryMap.putAll
      (cpfClasses.map fun clazz => (clazz.protocol, clazz.name)) }

def scanDefaultSigner (rsClasses : List PluginClass) (r : ProtocolRegisterImpl) :
    ProtocolRegisterImpl :=
  { r with
    protocolRequestSignerMap := putClasses r.protocolRequestSignerMap rsClasses
    defaultSigners := r.defaultSigners ++ rsClasses.map PluginClass.info }

def scanCustomizedSigner (rsClasses : List PluginClass) (r : ProtocolRegisterImpl) :
    ProtocolRegisterImpl :=
  { r with customizedSigners := r.customizedSigners ++ rsClasses.map PluginClass.info }

/-- `calculateSupportedProtocols`; a protocol without a default signer is logged and skipped. -/
def calculateSupportedProtocols (walk : Walk JString) (r : ProtocolRegisterImpl) :
    ProtocolRegisterImpl :=
  { r with
    supportedProtocols := r.supportedProtocols.addWhere
      (fun protocol => (r.protocolRequestSignerMap.get protocol).isSome)
      (walk.keySet r.protocolChannelPipelineFactoryMap.keys) }

def scanDefaultExtractor (reClasses : List PluginClass) (r : ProtocolRegisterImpl) :
    ProtocolRegisterImpl :=
  { r with
    protocolRequestExtractorMap := putClasses r.protocolRequestExtractorMap reClasses
    defaultExtractors := r.defaultExtractors ++ reClasses.map PluginClass.info }

def scanCustomizedExtractor (rsClasses : List PluginClass) (r : ProtocolRegisterImpl) :
    ProtocolRegisterImpl :=
  { r with customizedExtractors := r.customizedExtractors ++ rsClasses.map PluginClass.info }

/-- `afterPropertiesSet`. -/
def afterPropertiesSet (walk : Walk JString) (scanned : Scanned) : ProtocolRegisterImpl :=
  let r := scanPipelineFactory scanned.pipelineFactory initial
  let r := scanDefaultSigner scanned.defaultSigner r
  let r := scanCustomizedSigner scanned.customizedSigner r
  let r := calculateSupportedProtocols walk r
  let r := scanDefaultExtractor scanned.defaultExtractor r
  scanCustomizedExtractor scanned.customizedExtractor r

def getChannelPipelineFactory (r : ProtocolRegisterImpl) (protocol : Option JString) :
    Option JString :=
  protocol.bind r.protocolChannelPipelineFactoryMap.get

def getDefaultSignerMap (r : ProtocolRegisterImpl) (protocol : Option JString) : Option JString :=
  protocol.bind r.protocolRequestSignerMap.get

def getDefaultExtractorMap (r : ProtocolRegisterImpl) (protocol : Option JString) :
    Option JString :=
  protocol.bind r.protocolRequestExtractorMap.get

/-- The register as the manager sees it. -/
def toProtocolRegister (r : ProtocolRegisterImpl) : ProtocolRegister :=
  ⟨r.getDefaultSignerMap, r.getDefaultExtractorMap⟩

/-! ## What it holds -/

section Held

variable (walk : Walk JString) (scanned : Scanned) (protocol : JString)

theorem isSome_get_putClasses_iff (classes : List PluginClass) :
    ((putClasses .empty classes).get protocol).isSome ↔
      ∃ clazz ∈ classes, clazz.protocol = protocol := by
  unfold putClasses
  rw [HashMap.isSome_get_putAll_iff]
  simp

/-- A protocol has a pipeline factory iff a class is one for it. -/
theorem isSome_channelPipelineFactory_iff :
    ((afterPropertiesSet walk scanned).getChannelPipelineFactory (some protocol)).isSome ↔
      ∃ clazz ∈ scanned.pipelineFactory, clazz.protocol = protocol := by
  have hmap : (afterPropertiesSet walk scanned).protocolChannelPipelineFactoryMap =
      HashMap.putAll .empty
        (scanned.pipelineFactory.map fun clazz => (clazz.protocol, clazz.name)) := rfl
  rw [getChannelPipelineFactory, hmap, Option.bind_some, HashMap.isSome_get_putAll_iff]
  simp

theorem isSome_defaultSigner_iff :
    ((afterPropertiesSet walk scanned).getDefaultSignerMap (some protocol)).isSome ↔
      ∃ clazz ∈ scanned.defaultSigner, clazz.protocol = protocol :=
  isSome_get_putClasses_iff protocol scanned.defaultSigner

theorem isSome_defaultExtractor_iff :
    ((afterPropertiesSet walk scanned).getDefaultExtractorMap (some protocol)).isSome ↔
      ∃ clazz ∈ scanned.defaultExtractor, clazz.protocol = protocol :=
  isSome_get_putClasses_iff protocol scanned.defaultExtractor

/-- A protocol is listed iff it has a pipeline factory and a default signer. -/
theorem mem_supportedProtocols_iff :
    protocol ∈ (afterPropertiesSet walk scanned).supportedProtocols ↔
      ((afterPropertiesSet walk scanned).getChannelPipelineFactory (some protocol)).isSome ∧
        ((afterPropertiesSet walk scanned).getDefaultSignerMap (some protocol)).isSome := by
  refine (LinkedHashSet.mem_addWhere_iff _ _ _ _).trans ?_
  rw [Walk.mem_keySet_iff]
  exact or_iff_right (LinkedHashSet.not_mem_empty protocol)

end Held

/-! ## The protocols it lists -/

/-- The listed protocols are those with all three classes. -/
def ListsExactly (r : ProtocolRegisterImpl) : Prop :=
  ∀ protocol, protocol ∈ r.supportedProtocols ↔
    (r.getChannelPipelineFactory (some protocol)).isSome ∧
      (r.getDefaultSignerMap (some protocol)).isSome ∧
        (r.getDefaultExtractorMap (some protocol)).isSome

/-- A link of a listed protocol that names no plugin finds the classes of both. -/
def FindsPlugins (r : ProtocolRegisterImpl) : Prop :=
  ∀ (up : Startup) (link : Link), (∃ protocol ∈ r.supportedProtocols,
      link.protocolType = some protocol) → isBlank link.signClass → isBlank link.extractClass →
    ∃ signerClass extractorClass,
      getPluginClass r.toProtocolRegister up link .RECORD = .ok (some signerClass) ∧
        getPluginClass r.toProtocolRegister up link .STUB = .ok (some extractorClass)

variable {r : ProtocolRegisterImpl} {up : Startup} {link : Link}

theorem getPluginClass_record (hblank : isBlank link.signClass) :
    getPluginClass r.toProtocolRegister up link .RECORD =
      .ok (r.getDefaultSignerMap link.protocolType) :=
  if_pos hblank

theorem getPluginClass_stub (hblank : isBlank link.extractClass) :
    getPluginClass r.toProtocolRegister up link .STUB =
      .ok (r.getDefaultExtractorMap link.protocolType) :=
  if_pos hblank

theorem ListsExactly.findsPlugins (h : r.ListsExactly) : r.FindsPlugins := by
  rintro up link ⟨protocol, hprotocol, hlink⟩ hsign hextract
  obtain ⟨-, hsigner, hextractor⟩ := (h protocol).mp hprotocol
  obtain ⟨signerClass, hsignerClass⟩ := Option.isSome_iff_exists.mp hsigner
  obtain ⟨extractorClass, hextractorClass⟩ := Option.isSome_iff_exists.mp hextractor
  refine ⟨signerClass, extractorClass, ?_, ?_⟩
  · rw [getPluginClass_record hsign, hlink, hsignerClass]
  · rw [getPluginClass_stub hextract, hlink, hextractorClass]

/-- With no extractor for its protocol, the link is started with a `null` class. -/
theorem createPlugins_of_no_extractor (hsign : isBlank link.signClass)
    (hextract : isBlank link.extractClass)
    (hnull : r.getDefaultExtractorMap link.protocolType = none)
    (hnew : ∀ clazz, up.newInstance clazz = true) :
    createPlugins r.toProtocolRegister up link = .error .nullPointer := by
  have hinstance : ∀ clazz, getPluginInstance up (some clazz) = .ok clazz :=
    fun clazz => if_pos (hnew clazz)
  rw [createPlugins, getPluginClass_record hsign, getPluginClass_stub hextract, hnull]
  cases r.getDefaultSignerMap link.protocolType with
  | none => rfl
  | some clazz =>
    change getPluginInstance up (some clazz) >>= _ = _
    rw [hinstance]
    rfl

/-- **The exact condition**: no protocol has a pipeline factory and a default signer, but no default
extractor. -/
theorem listed_iff (walk : Walk JString) (scanned : Scanned) :
    (afterPropertiesSet walk scanned).ListsExactly ∧
        (afterPropertiesSet walk scanned).FindsPlugins ↔
      ∀ protocol, (∃ clazz ∈ scanned.pipelineFactory, clazz.protocol = protocol) →
        (∃ clazz ∈ scanned.defaultSigner, clazz.protocol = protocol) →
          ∃ clazz ∈ scanned.defaultExtractor, clazz.protocol = protocol := by
  have hlists : (afterPropertiesSet walk scanned).ListsExactly ↔
      ∀ protocol, (∃ clazz ∈ scanned.pipelineFactory, clazz.protocol = protocol) →
        (∃ clazz ∈ scanned.defaultSigner, clazz.protocol = protocol) →
          ∃ clazz ∈ scanned.defaultExtractor, clazz.protocol = protocol := by
    refine forall_congr' fun protocol => ?_
    rw [mem_supportedProtocols_iff, isSome_channelPipelineFactory_iff, isSome_defaultSigner_iff,
      isSome_defaultExtractor_iff]
    constructor
    · exact fun h hfactory hsigner => (h.mp ⟨hfactory, hsigner⟩).2.2
    · intro h
      exact ⟨fun ⟨hfactory, hsigner⟩ => ⟨hfactory, hsigner, h hfactory hsigner⟩,
        fun ⟨hfactory, hsigner, _⟩ => ⟨hfactory, hsigner⟩⟩
  rw [← hlists]
  exact ⟨And.left, fun h => ⟨h, h.findsPlugins⟩⟩

/-- A protocol with a pipeline factory and a default signer alone. -/
def noExtractor : Scanned where
  pipelineFactory := [⟨lit "TcpServerPipelineFactory", lit "TCP"⟩]
  defaultSigner := [⟨lit "DefaultTcpSigner", lit "TCP", []⟩]
  customizedSigner := []
  defaultExtractor := []
  customizedExtractor := []

theorem not_listed_noExtractor :
    ¬ ∀ (walk : Walk JString) (scanned : Scanned),
      (afterPropertiesSet walk scanned).ListsExactly ∧
        (afterPropertiesSet walk scanned).FindsPlugins := by
  intro h
  have walk : Walk JString := ⟨id, List.Perm.refl⟩
  have hlisted : lit "TCP" ∈ (afterPropertiesSet walk noExtractor).supportedProtocols := by
    rw [mem_supportedProtocols_iff, isSome_channelPipelineFactory_iff, isSome_defaultSigner_iff]
    exact ⟨⟨_, List.mem_cons_self, rfl⟩, ⟨_, List.mem_cons_self, rfl⟩⟩
  have hextractor := (((h walk noExtractor).1 (lit "TCP")).mp hlisted).2.2
  rw [isSome_defaultExtractor_iff] at hextractor
  obtain ⟨_, hmem, _⟩ := hextractor
  exact List.not_mem_nil hmem

end ProtocolRegisterImpl

end Terminator.Register
