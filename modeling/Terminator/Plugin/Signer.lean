import Terminator.Plugin.MD5OfString
import Terminator.Storage.Bundle

/-!
# Signers

`Signer.java`, `BaseSigner.java` and `DefaultHttpSigner.java`. A signer computes the key a
recording is stored under. Computing it reads the content of the request, and reading moves the
reader index of the shared buffer: **`sign_run`** gives the key, `signature` of the request as it
was, and the heap, on which that request is drained.

`logResponse` only matters for what it can throw: `array()` is not supported by every buffer, and
what it returns, unzipped or not, goes to the log.

The text that is hashed is a concatenation without separators (`signText`).
**`signText_inj`** says what it still determines: requests whose version texts, methods and URIs
have the same lengths and whose bodies the charset represents faithfully are told apart.
-/

namespace Terminator.Plugin

open Terminator.Java Terminator.Netty Terminator.Netty.ChannelBuffer Terminator.Storage

/-- An object that is not the content of the message a plugin is given. -/
def NotContentOf (message : Option (HttpObject Ref)) (r : Ref) : Prop :=
  ∀ m, message = some m → m.content ≠ r

/-- `Signer`. A signer may read the request it is given, and so move its reader index; it leaves
every other object alone, and `logResponse` leaves all of them alone. -/
structure Signer (σ : Type) where
  sign : Option (HttpObject Ref) → Method (World σ) JString
  logResponse : RequestResponseBundle Ref → Method (World σ) Unit
  sign_preserves : ∀ request, World.Preserves (NotContentOf request) (sign request)
  logResponse_preserves : ∀ bundle, World.Preserves (fun _ => True) (logResponse bundle)

/-- `(HttpRequest) object`, and the null check of the first call on it. -/
def requestOf {β : Type} : Option (HttpObject β) → Except Throwable (HttpRequest β)
  | none => .error .nullPointer
  | some m => m.asRequest

/-! ## `BaseSigner.logResponse` -/

namespace BaseSigner

/-- `logResponse(bundle)`. -/
def logResponse (bundle : RequestResponseBundle Ref) : Method (Heap ChannelBuffer) Unit := do
  match bundle.response with
  | none => pure ()
  | some m =>
    let response ← fromExcept m.asResponse
    let content := (← get).get response.content
    if content.readable then
      -- Unzipped or, after an `IOException`, as it is: the array only goes to the log.
      let _ ← fromExcept content.array
      pure ()
    else pure ()

/-- `logResponse` gets through: no response, or one whose content is empty or array-backed. -/
def Loggable : Option (HttpObject ChannelBuffer) → Prop
  | none => True
  | some (.response r) => r.content.readable = true → r.content.hasArray = true
  | some _ => False

instance : DecidablePred Loggable
  | none => isTrue trivial
  | some (.response r) =>
    inferInstanceAs (Decidable (r.content.readable = true → r.content.hasArray = true))
  | some (.request _) => isFalse id
  | some (.chunk _) => isFalse id

/-- **`logResponse`** changes nothing, and returns iff the response is loggable. -/
theorem logResponse_run (bundle : RequestResponseBundle Ref) (h : Heap ChannelBuffer) :
    after ((logResponse bundle).run h) = h ∧
      (Returned ((logResponse bundle).run h) ↔ Loggable (bundle.deref h).response) := by
  obtain ⟨req, resp⟩ := bundle
  cases resp with
  | none => exact ⟨rfl, fun _ => trivial, fun _ => trivial⟩
  | some m =>
    cases m with
    | request r => exact ⟨rfl, fun hr => absurd hr id, fun hl => absurd hl id⟩
    | chunk c => exact ⟨rfl, fun hr => absurd hr id, fun hl => absurd hl id⟩
    | response r =>
      simp only [logResponse, RequestResponseBundle.deref, RequestResponseBundle.map,
        Option.map_some, HttpObject.map_response, Loggable, HttpResponse.map, HttpObject.asResponse]
      rw [run_bind_of_ok (run_fromExcept_ok r h), run_bind_of_ok (EStateM.run_get h)]
      by_cases hr : (h.get r.content).readable = true
      · rw [if_pos hr]
        by_cases ha : (h.get r.content).hasArray = true
        · rw [array, if_pos ha, run_bind_of_ok (run_fromExcept_ok _ h)]
          exact ⟨rfl, fun _ _ => ha, fun _ => trivial⟩
        · rw [array, if_neg ha, run_bind_of_error (run_fromExcept_error _ h)]
          exact ⟨rfl, fun hret => absurd hret id, fun hl => absurd (hl hr) ha⟩
      · rw [if_neg hr]
        simp [hr]

theorem logResponse_run_of_loggable {bundle : RequestResponseBundle Ref} {h : Heap ChannelBuffer}
    (hl : Loggable (bundle.deref h).response) : (logResponse bundle).run h = .ok () h := by
  obtain ⟨hs, hr⟩ := logResponse_run bundle h
  obtain ⟨a, s, ho⟩ := returned_iff.mp (hr.mpr hl)
  rw [ho] at hs ⊢
  rw [← hs]
  rfl

end BaseSigner

/-! ## `DefaultHttpSigner` -/

namespace DefaultHttpSigner

/-- `sb` before the body: `append(protocalVersion).append(method).append(uri)`. -/
def header {β : Type} (r : HttpRequest β) : JString := r.version.getText ++ r.method ++ r.uri

/-- `sign(req)`. -/
def sign (cs : Charset) (req : Option (HttpObject Ref)) :
    Method (Heap ChannelBuffer) JString := do
  let httpRequest ← fromExcept (requestOf req)
  let sb := header httpRequest
  let content := (← get).get httpRequest.content
  if content.readable then
    let stringContent ← onBuffer httpRequest.content (ChannelUtil.readChannelBufferAsString cs)
    fromExcept (MD5.getMD5ofStr cs (sb ++ stringContent))
  else fromExcept (MD5.getMD5ofStr cs sb)

/-- The string that is hashed for a request with the given content. -/
def signText (cs : Charset) (r : HttpRequest ChannelBuffer) : JString :=
  header r ++ if r.content.readable then cs.decode r.content.content else []

/-- The key of a request. -/
def signature (cs : Charset) (r : HttpRequest ChannelBuffer) : Except Throwable JString :=
  MD5.getMD5ofStr cs (signText cs r)

/-- A body nobody can read from decodes to nothing, so the branch does not show in the text. -/
theorem signText_eq (cs : Charset) (r : HttpRequest ChannelBuffer) :
    signText cs r = header r ++ cs.decode r.content.content := by
  unfold signText
  by_cases hr : r.content.readable = true
  · rw [if_pos hr]
  · rw [if_neg hr, not_readable_iff.mp (Bool.eq_false_iff.mpr hr), cs.decode_nil]

/-- The fields of two requests end at the same places in the hashed text, and the charset
represents both bodies. -/
structure SameShape (cs : Charset) (r r' : HttpRequest ChannelBuffer) : Prop where
  version : r.version.getText.length = r'.version.getText.length
  method : r.method.length = r'.method.length
  uri : r.uri.length = r'.uri.length
  body : cs.Faithful r.content.content
  body' : cs.Faithful r'.content.content

/-- The four parts of a request that reach the hashed text. -/
def SameParts (r r' : HttpRequest ChannelBuffer) : Prop :=
  r.version = r'.version ∧ r.method = r'.method ∧ r.uri = r'.uri ∧
    r.content.content = r'.content.content

theorem signText_congr (cs : Charset) {r r' : HttpRequest ChannelBuffer} (h : SameParts r r') :
    signText cs r = signText cs r' := by
  obtain ⟨hv, hm, hu, hb⟩ := h
  rw [signText_eq, signText_eq, header, header, hv, hm, hu, hb]

/-- **The hashed text** of requests of one shape determines the four parts. -/
theorem signText_inj {cs : Charset} {r r' : HttpRequest ChannelBuffer} (hs : SameShape cs r r')
    (h : signText cs r = signText cs r') : SameParts r r' := by
  rw [signText_eq, signText_eq, header, header] at h
  have hlen : (r.version.getText ++ r.method).length =
      (r'.version.getText ++ r'.method).length := by
    simp only [List.length_append, hs.version, hs.method]
  have hlen' : (r.version.getText ++ r.method ++ r.uri).length
      = (r'.version.getText ++ r'.method ++ r'.uri).length := by
    simp only [List.length_append, hs.version, hs.method, hs.uri]
  obtain ⟨hhead, hbody⟩ := List.append_inj h hlen'
  obtain ⟨hhead, huri⟩ := List.append_inj hhead hlen
  obtain ⟨hver, hmethod⟩ := List.append_inj hhead hs.version
  exact ⟨HttpVersion.getText_inj hver, hmethod, huri, hs.body.decode_inj hs.body' hbody⟩

theorem signature_ok (cs : Charset) (r : HttpRequest ChannelBuffer) :
    ∃ key, signature cs r = .ok key ∧ ∀ c ∈ key, MD5.IsLowerHex c :=
  MD5.getMD5ofStr_ok cs (signText cs r)

/-- The key of a request, which every request has. -/
def keyOf (cs : Charset) (r : HttpRequest ChannelBuffer) : JString :=
  match signature cs r with
  | .ok key => key
  | .error _ => []

theorem signature_eq (cs : Charset) (r : HttpRequest ChannelBuffer) :
    signature cs r = .ok (keyOf cs r) ∧ ∀ c ∈ keyOf cs r, MD5.IsLowerHex c := by
  obtain ⟨key, hkey, hhex⟩ := signature_ok cs r
  unfold keyOf
  rw [hkey]
  exact ⟨rfl, hhex⟩

/-- **`sign` on a request** returns the signature of the request as it was and leaves it
drained. -/
theorem sign_run (cs : Charset) (r : HttpRequest Ref) (h : Heap ChannelBuffer) :
    ∃ key, signature cs (r.map h.get) = .ok key ∧
      (sign cs (some (.request r))).run h = .ok key (drain h r.content) := by
  obtain ⟨key, hkey, -⟩ := signature_ok cs (r.map h.get)
  refine ⟨key, hkey, ?_⟩
  unfold signature signText at hkey
  simp only [sign, requestOf, HttpObject.asRequest]
  rw [run_bind_of_ok (run_fromExcept_ok r h), run_bind_of_ok (EStateM.run_get h)]
  by_cases hr : (h.get r.content).readable = true
  · have hread := ChannelUtil.readChannelBufferAsString_run cs (h.get r.content)
    rw [if_pos hr, run_bind_of_ok (run_onBuffer_of_ok hread)]
    have : (r.map h.get).content.readable = true := hr
    rw [if_pos this] at hkey
    exact congrArg (fun x => (fromExcept x).run (drain h r.content)) hkey
  · rw [if_neg hr]
    have : ¬ (r.map h.get).content.readable = true := hr
    rw [if_neg this, List.append_nil] at hkey
    rw [drain_of_not_readable hr]
    exact congrArg (fun x => (fromExcept x).run h) hkey

/-- On anything but a request `sign` throws and touches nothing. -/
theorem sign_run_error (cs : Charset) {req : Option (HttpObject Ref)} {e : Throwable}
    (he : requestOf req = .error e) (h : Heap ChannelBuffer) :
    (sign cs req).run h = .error e h := by
  rw [sign, he, run_bind_of_error (run_fromExcept_error e h)]

theorem sign_preserves (cs : Charset) (req : Option (HttpObject Ref)) (h : Heap ChannelBuffer) :
    h.size ≤ (after ((sign cs req).run h)).size ∧
      ∀ r < h.size, NotContentOf req r → (after ((sign cs req).run h)).get r = h.get r := by
  rcases req with _ | q | m | m
  · rw [sign_run_error cs rfl, after_error]
    exact ⟨Nat.le_refl _, fun _ _ _ => rfl⟩
  · obtain ⟨key, -, hrun⟩ := sign_run cs q h
    rw [hrun, after_ok, size_drain]
    exact ⟨Nat.le_refl _, fun r _ hr => get_drain_ne (hr _ rfl)⟩
  · rw [sign_run_error cs rfl, after_error]
    exact ⟨Nat.le_refl _, fun _ _ _ => rfl⟩
  · rw [sign_run_error cs rfl, after_error]
    exact ⟨Nat.le_refl _, fun _ _ _ => rfl⟩

end DefaultHttpSigner

/-- `DefaultHttpSigner`, with the `logResponse` it inherits. -/
def DefaultHttpSigner (cs : Charset) {σ : Type} : Signer σ where
  sign req := World.onHeap (DefaultHttpSigner.sign cs req)
  logResponse bundle := World.onHeap (BaseSigner.logResponse bundle)
  sign_preserves req := World.preserves_onHeap (DefaultHttpSigner.sign_preserves cs req)
  logResponse_preserves bundle := World.preserves_onHeap fun h => by
    rw [(BaseSigner.logResponse_run bundle h).1]
    exact ⟨Nat.le_refl _, fun _ _ _ => rfl⟩

end Terminator.Plugin
