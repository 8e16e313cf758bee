import Terminator.Manager.Moves
import Terminator.Run.Invariant
import Terminator.Storage.Streams
import Terminator.Plugin.Signer

/-!
# Changing the signer of a link

A link that records into a file, while its row is edited and its server is stopped and started. The
signer of a running server is the one `configLink` built for it; the rows of `data_index` keep the
signatures they were inserted with. `signerChanged`, which would sign the stored requests again, has
no caller.

Signers are told by their classes, and are pure functions of the request. Whoever manages the link
may do so by any request to the manager, for this link or another one.

**`signedBy_iff`**: in every state in which the link runs its signer gives the recorded requests the
signatures they are stored under exactly when every start of the link builds a signer that agrees,
on the requests recorded so far, with the signers they were recorded with.
-/

namespace Terminator.Manager

open Terminator.Java Terminator.Netty Terminator.Storage

/-- The manager, the storage of one link, and the requests recorded for it so far, as they were
received, each with the class whose instance signed it. -/
structure RecordingLink (ρ : Type) where
  manager : LinkControl
  storage : FileStorage
  recorded : List (JString × ρ)

/-- A request that was answered, with the bundle that is put and what becomes of its bytes, or a
request to the manager. -/
inductive LinkEvent (ρ : Type) where
  | record (request : ρ) (outcome : WriteOutcome) (bundles : RequestResponseBundle ChannelBuffer)
  | manage (op : Operation)

/-- The signer of the link, if its server records into a file. -/
def recordingSigner (id : Nat) (s : LinkControl) : Option JString :=
  match s.running id with
  | none => none
  | some link =>
    if link.workMode = some .RECORD ∧ link.storage = some .FILE then link.requestSigner else none

section Model

variable {ρ : Type} (register : ProtocolRegister) (sign : JString → ρ → JString) (env : FileEnv)

/-- `storage.putRecordData(signer.sign(request), bundle)`, if the server of the link records. -/
def RecordingLink.record (request : ρ) (outcome : WriteOutcome)
    (bundles : RequestResponseBundle ChannelBuffer) (s : RecordingLink ρ) : RecordingLink ρ :=
  match recordingSigner env.linkId s.manager with
  | none => s
  | some clazz =>
    { s with
      storage := FileStorage.put env outcome (sign clazz request) bundles s.storage
      recorded := s.recorded ++ [(clazz, request)] }

/-- One event. -/
def linkStep : LinkEvent ρ → RecordingLink ρ → RecordingLink ρ
  | .record request outcome bundles, s => s.record sign env request outcome bundles
  | .manage op, s => { s with manager := step register op s.manager }

/-- The signatures in the rows of the link. -/
def signatures (s : RecordingLink ρ) : List JString :=
  (FileStorage.rows env s.storage).map DataIndex.signature

/-- While the link runs, its signer gives each recorded request the signature in its row. -/
def SignedBy (s : RecordingLink ρ) : Prop :=
  ∀ link clazz, s.manager.running env.linkId = some link → link.requestSigner = some clazz →
    signatures env s = s.recorded.map fun p => sign clazz p.2

/-- A start of the link builds a signer that agrees with those the requests were recorded with. -/
def SameSigner (e : LinkEvent ρ) (s : RecordingLink ρ) : Prop :=
  ∀ up plugins, e = .manage (.startServer env.linkId up) →
    s.manager.linkIdServerMap env.linkId = none →
    Opens register up env.linkId s.manager.table plugins →
    ∀ p ∈ s.recorded, sign plugins.1 p.2 = sign p.1 p.2

/-- The signer of a running link agrees with those the requests were recorded with. -/
def Agreeing (recorded : List (JString × ρ)) (running : Nat → Option Link) : Prop :=
  ∀ link, running env.linkId = some link →
    ∃ clazz, link.requestSigner = some clazz ∧ ∀ p ∈ recorded, sign clazz p.2 = sign p.1 p.2

/-- What a run keeps: every row has the signature of its request by the class it was recorded
with. -/
structure Recorded (s : RecordingLink ρ) : Prop where
  owned : ∀ id, Owned s.manager id
  rows : signatures env s = s.recorded.map fun p => sign p.1 p.2
  agreeing : Agreeing sign env s.recorded s.manager.running

end Model

section Proof

variable {ρ : Type} {register : ProtocolRegister} {sign : JString → ρ → JString} {env : FileEnv}
  {s : RecordingLink ρ}

theorem Recorded.signedBy (h : Recorded sign env s) : SignedBy sign env s := by
  intro link clazz hrunning hclazz
  obtain ⟨clazz', hclazz', hagree⟩ := h.agreeing link hrunning
  obtain rfl := Option.some.inj (hclazz.symm.trans hclazz')
  rw [h.rows]
  exact List.map_congr_left fun p hp => (hagree p hp).symm

/-- A recorded request is signed by the signer of the running link. -/
theorem running_of_recordingSigner {m : LinkControl} {id : Nat} {clazz : JString}
    (h : recordingSigner id m = some clazz) :
    ∃ link, m.running id = some link ∧ link.requestSigner = some clazz := by
  unfold recordingSigner at h
  cases hrunning : m.running id with
  | none => rw [hrunning] at h; cases h
  | some link =>
    rw [hrunning] at h
    dsimp only at h
    by_cases hrecord : link.workMode = some .RECORD ∧ link.storage = some .FILE
    · rw [if_pos hrecord] at h
      exact ⟨link, rfl, h⟩
    · rw [if_neg hrecord] at h
      cases h

theorem signatures_put (key : JString) (outcome : WriteOutcome)
    (bundles : RequestResponseBundle ChannelBuffer) (recorded : List (JString × ρ)) :
    signatures env ⟨s.manager, FileStorage.put env outcome key bundles s.storage, recorded⟩ =
      signatures env s ++ [key] := by
  unfold signatures FileStorage.put
  rw [FileStorage.rows_insertDataIndex, List.map_append]
  rfl

/-- **A recording** keeps the signer in agreement: it is the running one that signs. -/
theorem Recorded.record (h : Recorded sign env s) (request : ρ) (outcome : WriteOutcome)
    (bundles : RequestResponseBundle ChannelBuffer) :
    Recorded sign env (s.record sign env request outcome bundles) := by
  unfold RecordingLink.record
  cases hsigner : recordingSigner env.linkId s.manager with
  | none => exact h
  | some clazz =>
    obtain ⟨link, hrunning, hclazz⟩ := running_of_recordingSigner hsigner
    refine ⟨h.owned, ?_, fun link' hrunning' => ⟨clazz, ?_, fun p hp => ?_⟩⟩
    · rw [signatures_put, h.rows, List.map_append, List.map_singleton]
    · rw [← Option.some.inj (hrunning.symm.trans hrunning')]
      exact hclazz
    · rcases List.mem_append.mp hp with hp | hp
      · obtain ⟨clazz', hclazz', hagree⟩ := h.agreeing link hrunning
        obtain rfl := Option.some.inj (hclazz.symm.trans hclazz')
        exact hagree p hp
      · rw [List.mem_singleton.mp hp]

/-- **A request to the manager** keeps the signer of a running link, but for a start of the link. -/
theorem agreeing_of_moves {op : Operation} {recorded : List (JString × ρ)} {t t' : LinkTable}
    {running running' : Nat → Option Link} (h : Agreeing sign env recorded running)
    (hstart : ∀ up plugins, op = .startServer env.linkId up → running env.linkId = none →
      Opens register up env.linkId t plugins → ∀ p ∈ recorded, sign plugins.1 p.2 = sign p.1 p.2)
    (hmoves : Moves register t running op t' running') : Agreeing sign env recorded running' := by
  -- A step that replaces the link of one id.
  have hupdate : ∀ id new, (id = env.linkId → ∀ link, new = some link →
      ∃ clazz, link.requestSigner = some clazz ∧ ∀ p ∈ recorded, sign clazz p.2 = sign p.1 p.2) →
      Agreeing sign env recorded (Function.update running id new) := by
    intro id new hnew link hlink
    by_cases hid : env.linkId = id
    · rw [← hid, Function.update_self] at hlink
      exact hnew hid.symm link hlink
    · rw [Function.update_of_ne hid] at hlink
      exact h link hlink
  have hmode : ∀ id link mode, running id = some link →
      Agreeing sign env recorded
        (Function.update running id (some { link with workMode := some mode })) := by
    intro id link mode hrunning
    refine hupdate id _ fun hid link' hlink' => ?_
    obtain rfl := Option.some.inj hlink'
    rw [hid] at hrunning
    exact h link hrunning
  cases hmoves with
  | addLink | updateLink | deleteLink => exact h
  | startIdle | startAgain | stopIdle | stopAgain | changeIdle => exact h
  | @start id up link plugins hlink hrunning hplugins hbinds =>
    refine hupdate id _ fun hid link' hlink' => ?_
    obtain rfl := Option.some.inj hlink'
    obtain rfl := hid
    exact ⟨plugins.1, rfl, hstart up plugins rfl hrunning ⟨link, hlink, hplugins, hbinds⟩⟩
  | stop => exact hupdate _ _ fun _ _ hnone => by cases hnone
  | changeGone hrunning => exact hmode _ _ _ hrunning
  | change hrunning => exact hmode _ _ _ hrunning

/-- The signer of a link that was just started. -/
theorem signer_of_start {id : Nat} {up : Startup} {t t' : LinkTable}
    {running running' : Nat → Option Link} {plugins : JString × JString} (hnone : running id = none)
    (hopens : Opens register up id t plugins)
    (hmoves : Moves register t running (.startServer id up) t' running') :
    ∃ link, running' id = some link ∧ link.requestSigner = some plugins.1 := by
  cases hmoves with
  | startIdle h => exact absurd hopens (h plugins)
  | startAgain _ hrunning => rw [hnone] at hrunning; cases hrunning
  | @start _ _ link plugins' hlink _ hplugins _ =>
    obtain ⟨link', hlink', hplugins', -⟩ := hopens
    obtain rfl := Option.some.inj (hlink.symm.trans hlink')
    obtain rfl := Except.ok.inj (hplugins.symm.trans hplugins')
    exact ⟨_, Function.update_self _ _ _, rfl⟩

theorem Recorded.step (h : Recorded sign env s) {e : LinkEvent ρ}
    (he : SameSigner register sign env e s) :
    Recorded sign env (linkStep register sign env e s) := by
  cases e with
  | record request outcome bundles => exact h.record request outcome bundles
  | manage op =>
    obtain ⟨howned, hmoves⟩ := step_moves register h.owned op
    refine ⟨howned, h.rows, agreeing_of_moves h.agreeing (fun up plugins hop hrunning => ?_) hmoves⟩
    exact he up plugins (congrArg LinkEvent.manage hop) (running_eq_none_iff.mp hrunning)

/-- **A start with a signer that disagrees** shows at once. -/
theorem not_signedBy (h : Recorded sign env s) {e : LinkEvent ρ}
    (he : ¬ SameSigner register sign env e s) :
    ¬ SignedBy sign env (linkStep register sign env e s) := by
  intro hsigned
  refine he fun up plugins heq hq hopens => ?_
  subst heq
  obtain ⟨-, hmoves⟩ := step_moves register h.owned (.startServer env.linkId up)
  obtain ⟨link, hrunning, hclazz⟩ := signer_of_start (running_eq_none_iff.mpr hq) hopens hmoves
  have hrows := hsigned link plugins.1 hrunning hclazz
  exact fun p hp => (List.map_inj_left.mp (hrows.symm.trans h.rows) p hp)

/-- **A recorded request replays after a signer change** exactly when, at every start of the link,
the signer that is built agrees with those the requests were recorded with. -/
theorem signedBy_iff (register : ProtocolRegister) (sign : JString → ρ → JString) (env : FileEnv)
    (s : RecordingLink ρ) (es : List (LinkEvent ρ)) (hmaps : EmptyMaps s.manager)
    (hrows : FileStorage.rows env s.storage = []) (hrecorded : s.recorded = []) :
    Run.Always (linkStep register sign env) (SignedBy sign env) es s ↔
      Run.Meets (linkStep register sign env) (SameSigner register sign env) es s := by
  refine Run.always_iff_meets (I := Recorded sign env) (fun _ h => h.signedBy)
    (fun _ _ h he => h.step he) (fun _ _ h he => not_signedBy h he)
    ⟨owned_of_emptyMaps hmaps, ?_, fun link hrunning => ?_⟩
  · unfold signatures
    rw [hrows, hrecorded]
    rfl
  · rw [running_eq_none_iff.mpr (hmaps _).1] at hrunning
    cases hrunning

end Proof

/-! ## One recording -/

/-- The default signer, and one that signs by the URI. -/
def twoSigners (clazz : JString) (request : HttpRequest ChannelBuffer) : JString :=
  if clazz = lit "UriSigner" then request.uri
  else Plugin.DefaultHttpSigner.keyOf utf8 request

/-- `GET /a`, recorded by the default signer; then the link is stopped. -/
def recordAndStop : List (LinkEvent (HttpRequest ChannelBuffer)) :=
  [.manage (.addLink recordForm), .manage (.startServer 1 freePort),
    .record (.get "/a") .complete ⟨some (.request (.get "/a")), none⟩,
    .manage (.stopServer 1 true)]

/-- Nothing is recorded and nothing runs. -/
def newRecording : RecordingLink (HttpRequest ChannelBuffer) := ⟨newManager, ⟨none, [], 0⟩, []⟩

/-- The link is started again with the signer it had. -/
theorem signedBy_restart :
    Run.Always (linkStep httpRegister twoSigners (fileEnv 1)) (SignedBy twoSigners (fileEnv 1))
      (recordAndStop ++ [.manage (.startServer 1 freePort)]) newRecording := by
  refine (signedBy_iff httpRegister twoSigners (fileEnv 1) newRecording _ (fun _ => ⟨rfl, rfl⟩)
    rfl rfl).mpr ⟨?_, ?_, ?_, ?_, ?_, trivial⟩ <;> intro up plugins heq hq hopens p hp <;> cases heq
  · exact absurd hp List.not_mem_nil
  · obtain ⟨link, hlink, hplugins, -⟩ := hopens
    obtain rfl := Option.some.inj (hlink : some _ = some link)
    obtain rfl := Except.ok.inj (hplugins : Except.ok _ = Except.ok plugins)
    rw [List.mem_singleton.mp hp]

/-- The link is started again with another signer: the signature of `GET /a` is still the digest. -/
theorem not_signedBy_signerChange :
    ¬ Run.Always (linkStep httpRegister twoSigners (fileEnv 1)) (SignedBy twoSigners (fileEnv 1))
      (recordAndStop ++
        [.manage (.updateLink 1 { recordForm with signClass := some (lit "UriSigner") }),
          .manage (.startServer 1 freePort)]) newRecording := by
  intro h
  have hlast := Run.always_iff.mp h _ [] (List.append_nil _).symm
  have hrows : [Plugin.DefaultHttpSigner.keyOf utf8 (.get "/a")] = [lit "/a"] :=
    hlast _ (lit "UriSigner") rfl rfl
  have hhex := (Plugin.DefaultHttpSigner.signature_eq utf8 (.get "/a")).2 0x2F
  rw [List.singleton_inj.mp hrows] at hhex
  exact absurd (hhex (by decide)) (by decide)

end Terminator.Manager
