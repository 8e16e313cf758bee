import Terminator.Plugin.Bodies
import Terminator.Plugin.JsonFlattening
import Terminator.Server.StubForms

/-!
# Bodies that do not parse

`HttpJsonExtractor.extract` and `HttpXmlExtractor.extract` catch the exception of their parser and
then use the `null` it left, so a body that does not parse ends the extraction, and with it the
handler: `exceptionCaught` closes the connection.

**`malformed_body_iff`**: a request whose URI can be read keeps its METHOD, URI and header elements,
and is matched on them in STUB mode, iff its body is empty or parses.
-/

namespace Terminator.Server.MalformedBody

open Terminator.Java Terminator.Netty Terminator.Storage Terminator.Plugin
open BaseStubServerHandler HttpStubServerHandler StubForms

section Matched

variable {ε : Type}

/-- The handler returned, and the stubs, sorted, were asked about these elements: one of them has
answered, or the request was passed on to the remote server. -/
def Matched (extractor : Extractor ε)
    (elements : List RequestElement) (conn : Connection) (m : HttpObject ChannelBuffer)
    (isWritable : Bool) (s : Stubbing ε) : Prop :=
  let handler := HttpStubServerHandler (context extractor)
  let s0 : Session (CacheStorage × ε) := ⟨s.world, conn⟩
  let s' := handler.step (.client m isWritable) s0
  Returned (handler.outcome (.client m isWritable) s0) ∧
    ∃ order answer,
      TimSort.sort StubMatcherComparator.compare s.stubDataCache = .ok order ∧
      matchLoop responseWhenHit elements order = .ok answer ∧
      ((∃ response, answer = some response ∧ s'.toClient = s0.toClient ++ [response] ∧
          s'.toRemote = s0.toRemote) ∨
        (answer = none ∧ s'.toClient = s0.toClient ∧
          s'.toRemote = s0.toRemote ++ [s'.wire (m.deliver s.world.heap).1]))

/-- METHOD, URI and headers are matched, and elements of the body only when it parses. -/
def MatchedAnyway (extractor : Extractor ε)
    (start : List RequestElement)
    (parses : Prop) (conn : Connection) (m : HttpObject ChannelBuffer) (isWritable : Bool)
    (s : Stubbing ε) : Prop :=
  ∃ body, (¬ parses → body = []) ∧
    Matched extractor (start ++ body) conn m isWritable s

variable {extractor : Extractor ε}
  {conn : Connection} {m : HttpObject ChannelBuffer} {isWritable : Bool} {s : Stubbing ε}

/-- The world the extractor finds when the message arrives. -/
def arrival (m : HttpObject ChannelBuffer) (s : Stubbing ε) : World ε :=
  ⟨(m.deliver s.world.heap).2, s.world.hidden.2⟩

/-- The context of the link runs the extractor in its own part of the world. -/
theorem context_extract_run_iff {elements : List RequestElement} :
    (∃ w', (extractor.extract (some (m.deliver s.world.heap).1)).run (arrival m s) =
        .ok elements w') ↔
      ∃ w1, ((context extractor).extractor.extract (some (m.deliver s.world.heap).1)).run
        ((⟨s.world, conn⟩ : Session (CacheStorage × ε)).arrived m).world = .ok elements w1 := by
  let w : World (CacheStorage × ε) :=
    ((⟨s.world, conn⟩ : Session (CacheStorage × ε)).arrived m).world
  have hcomponent : (context extractor).extractor.extract (some (m.deliver s.world.heap).1) =
      World.component Prod.snd (fun t h => (h.1, t))
        (extractor.extract (some (m.deliver s.world.heap).1)) := rfl
  rw [hcomponent]
  constructor
  · rintro ⟨w', hrun⟩
    exact ⟨_, World.run_component_of_ok (w := w) hrun⟩
  · rintro ⟨w1, hcontext⟩
    cases hrun : (extractor.extract (some (m.deliver s.world.heap).1)).run (arrival m s) with
    | ok a t =>
      have hok := (World.run_component_of_ok (w := w) hrun).symm.trans hcontext
      exact ⟨t, congrArg (EStateM.Result.ok · t) (EStateM.Result.ok.inj hok).1⟩
    | error e t =>
      have herror := (run_zoom_of_error (s := w) hrun).symm.trans hcontext
      cases herror

/-- **A message over complete stubs** is matched on what the extraction returns. -/
theorem matched_of_extract (hcomplete : ∀ data ∈ s.stubDataCache, Complete data)
    (hsortable : Sortable s.stubDataCache) {elements : List RequestElement} {w' : World ε}
    (hextract : (extractor.extract (some (m.deliver s.world.heap).1)).run (arrival m s) =
      .ok elements w') :
    Matched extractor elements conn m isWritable s := by
  obtain ⟨w1, hcontext⟩ := context_extract_run_iff.mp ⟨w', hextract⟩
  obtain ⟨order, answer, w, hsort, hloop, hconsult, -⟩ :=
    consulting_of_complete hcomplete hsortable hcontext
  obtain ⟨s', hstep, -, -, hcase⟩ :=
    step_client (context extractor) m isWritable ⟨s.world, conn⟩
  unfold Matched
  dsimp only
  rw [hstep]
  rw [hconsult] at hcase
  rcases hcase with ⟨response, w', hok, hreturned, hclient, hremote⟩ |
    ⟨w', hok, hreturned, hclient, hremote⟩ | ⟨e, w', herror, -⟩
  · obtain ⟨rfl, -⟩ := EStateM.Result.ok.inj hok
    exact ⟨hreturned, order, _, hsort, hloop, .inl ⟨response, rfl, hclient, hremote⟩⟩
  · obtain ⟨rfl, -⟩ := EStateM.Result.ok.inj hok
    exact ⟨hreturned, order, _, hsort, hloop, .inr ⟨rfl, hclient, hremote⟩⟩
  · cases herror

/-- A handler that returns went through the extraction. -/
theorem extract_of_returned
    (h : Returned ((HttpStubServerHandler (context extractor)).outcome
      (.client m isWritable) ⟨s.world, conn⟩)) :
    Returned ((extractor.extract (some (m.deliver s.world.heap).1)).run (arrival m s)) := by
  obtain ⟨s', -, -, -, hcase⟩ :=
    step_client (context extractor) m isWritable ⟨s.world, conn⟩
  have hconsult : ∃ answer w,
      consulting (context extractor) m ⟨s.world, conn⟩ = .ok answer w := by
    rcases hcase with ⟨response, w, hok, -⟩ | ⟨w, hok, -⟩ | ⟨e, w, -, hthrown, -⟩
    · exact ⟨some response, w, hok⟩
    · exact ⟨none, w, hok⟩
    · exact absurd h hthrown
  obtain ⟨answer, w, hconsult⟩ := hconsult
  obtain ⟨elements, w1, hextract, -⟩ := (consult_eq_ok_iff _).mp hconsult
  obtain ⟨w', hrun⟩ := context_extract_run_iff.mpr ⟨w1, hextract⟩
  exact returned_iff.mpr ⟨elements, w', hrun⟩

/-- In STUB mode a request is matched on its own elements iff the extraction returns them. -/
theorem matchedAnyway_iff (hcomplete : ∀ data ∈ s.stubDataCache, Complete data)
    (hsortable : Sortable s.stubDataCache) {start : List RequestElement} {parses ok : Prop}
    (hreturned : Returned ((extractor.extract (some (m.deliver s.world.heap).1)).run
      (arrival m s)) ↔ ok)
    (htolerant : Tolerant start parses
      ((extractor.extract (some (m.deliver s.world.heap).1)).run (arrival m s)) ↔ ok) :
    MatchedAnyway extractor start parses conn m isWritable s ↔ ok := by
  constructor
  · rintro ⟨body, -, hmatched, -⟩
    exact hreturned.mp (extract_of_returned hmatched)
  · intro h
    obtain ⟨body, w', hextract, hbody⟩ := htolerant.mpr h
    exact ⟨body, hbody, matched_of_extract hcomplete hsortable hextract⟩

end Matched

/-! ## The shipped extractors -/

section Shipped

variable {ε : Type} {cs : Charset} {parses : JString → Prop}

/-- The body of a request is empty, or it parses. -/
def ContentOk (cs : Charset) (parses : JString → Prop) (q : HttpRequest ChannelBuffer) : Prop :=
  q.content.readable = false ∨ parses (cs.decode q.content.content)

/-- Over stubs that do not fail by themselves, a request whose URI can be read is matched on its own
elements exactly when its body is empty or parses. -/
def MatchedIffContentOk (cs : Charset) (parses : JString → Prop) (extractor : Extractor ε) : Prop :=
  ∀ s : Stubbing ε,
    (∀ data ∈ s.stubDataCache, Complete data) → Sortable s.stubDataCache →
      ∀ conn isWritable q uri, UriElementGetter.getUri q.uri = .ok uri →
        (MatchedAnyway extractor (requestElements q uri) (parses (cs.decode q.content.content))
            conn (.request q) isWritable s ↔ ContentOk cs parses q)

/-- The body that arrives is the one the extractor finds. -/
theorem get_arrival (q : HttpRequest ChannelBuffer) (s : Stubbing ε) :
    (arrival (.request q) s).heap.get s.world.heap.size = q.content :=
  Heap.get_alloc_self _ _

/-- It is enough to know the extractor on a request that has arrived. -/
theorem matchedIffContentOk_of_extract {extractor : Extractor ε}
    (hreturned : ∀ (q : HttpRequest Ref) (w : World ε) uri,
      UriElementGetter.getUri q.uri = .ok uri →
      (Returned ((extractor.extract (some (.request q))).run w) ↔ BodyOk cs parses q w))
    (htolerant : ∀ (q : HttpRequest Ref) (w : World ε) uri,
      UriElementGetter.getUri q.uri = .ok uri →
      (Tolerant (requestElements q uri) (parses (bodyText cs q w))
        ((extractor.extract (some (.request q))).run w) ↔ BodyOk cs parses q w)) :
    MatchedIffContentOk cs parses extractor := by
  intro s hcomplete hsortable conn isWritable q uri huri
  let q' : HttpRequest Ref := q.map fun _ => s.world.heap.size
  have hbody : BodyOk cs parses q' (arrival (.request q) s) ↔ ContentOk cs parses q := by
    have hget : (arrival (.request q) s).heap.get q'.content = q.content := get_arrival q s
    rw [BodyOk, bodyText, hget]
    rfl
  have htext : bodyText cs q' (arrival (.request q) s) = cs.decode q.content.content :=
    congrArg (fun b : ChannelBuffer => cs.decode b.content) (get_arrival q s)
  have ht := htolerant q' (arrival (.request q) s) uri huri
  rw [htext] at ht
  rw [← hbody]
  exact matchedAnyway_iff hcomplete hsortable
    (hreturned q' (arrival (.request q) s) uri huri) ht

theorem returned_component_iff {σ τ α : Type} {get : σ → τ} {set : τ → σ → σ}
    {x : Method (World τ) α} {w : World σ} :
    Returned ((World.component get set x).run w) ↔ Returned (x.run ⟨w.heap, get w.hidden⟩) := by
  rw [World.component, run_zoom]
  cases x.run ⟨w.heap, get w.hidden⟩ <;> simp

theorem tolerant_component_iff {σ τ : Type} {get : σ → τ} {set : τ → σ → σ}
    {x : Method (World τ) (List RequestElement)} {w : World σ} {start : List RequestElement}
    {ok : Prop} :
    Tolerant start ok ((World.component get set x).run w) ↔
      Tolerant start ok (x.run ⟨w.heap, get w.hidden⟩) := by
  rw [World.component, run_zoom]
  unfold Tolerant
  cases x.run ⟨w.heap, get w.hidden⟩ <;> simp

end Shipped

/-- **A malformed body**: for a request whose URI can be read, both extractors return METHOD, URI
and headers, and STUB mode goes on with them, iff the body is empty or parses. -/
theorem malformed_body_iff (cs : Charset) {lib : JsonLib} (hlib : lib.RaisesJson) (dom4j : Dom4j) :
    (∀ (τ : Type) (q : HttpRequest Ref) (w : World τ) (uri : List RequestElement),
      UriElementGetter.getUri q.uri = .ok uri →
        (Tolerant (requestElements q uri) (JsonParser.Parses lib (bodyText cs q w))
          ((HttpJsonExtractor.extract cs lib (some (.request q))).run w) ↔
            BodyOk cs (JsonParser.Parses lib) q w)) ∧
    (∀ (q : HttpRequest Ref) (w : World (List RequestElement)) (uri : List RequestElement),
      UriElementGetter.getUri q.uri = .ok uri →
        (Tolerant (requestElements q uri) (HttpXmlExtractor.Parses dom4j (bodyText cs q w))
          ((HttpXmlExtractor.extract cs dom4j (some (.request q))).run w) ↔
            BodyOk cs (HttpXmlExtractor.Parses dom4j) q w)) ∧
    (∀ ε : Type, MatchedIffContentOk cs (JsonParser.Parses lib)
      ((ShippedExtractor.json lib : ShippedExtractor ε).extractor cs)) ∧
    (∀ (ε : Type) (get : ε → List RequestElement) (set : List RequestElement → ε → ε),
      MatchedIffContentOk cs (HttpXmlExtractor.Parses dom4j)
        ((ShippedExtractor.xml dom4j get set).extractor cs)) := by
  have hjson := fun (τ : Type) => @json_returned_iff _ hlib τ
  refine ⟨fun τ q w uri huri => extractWith_tolerant_iff (hjson τ) huri,
    fun q w uri huri => extractWith_tolerant_iff HttpXmlExtractor.xml_returned_iff huri,
    fun ε => ?_, fun ε get set => ?_⟩
  · exact matchedIffContentOk_of_extract
      (fun q w uri huri => extractWith_returned_iff (hjson ε) huri)
      (fun q w uri huri => extractWith_tolerant_iff (hjson ε) huri)
  · refine matchedIffContentOk_of_extract (fun q w uri huri => ?_) (fun q w uri huri => ?_)
    · exact returned_component_iff.trans
        (extractWith_returned_iff (w := ⟨w.heap, get w.hidden⟩) HttpXmlExtractor.xml_returned_iff
          huri)
    · exact tolerant_component_iff.trans
        (extractWith_tolerant_iff (w := ⟨w.heap, get w.hidden⟩) HttpXmlExtractor.xml_returned_iff
          huri)

theorem twoTexts_raisesJson : JsonParser.twoTexts.RaisesJson where
  fromObject jstr e h := by
    unfold JsonParser.twoTexts at h
    dsimp only at h
    split_ifs at h
    exact (Except.error.inj h).symm
  fromArray jstr e h := by
    unfold JsonParser.twoTexts at h
    dsimp only at h
    split_ifs at h
    exact (Except.error.inj h).symm

/-- `POST /` with a JSON object. -/
def postObject : HttpRequest ChannelBuffer := .post "/" (utf8.encode (lit "\x7b\"a\":1\x7d"))

/-- `POST /` with a text that is neither JSON nor XML. -/
def postText : HttpRequest ChannelBuffer := .post "/" (utf8.encode (lit "x"))

/-- METHOD and URI of the two. -/
def postElements : List RequestElement := [⟨lit "METHOD", lit "POST"⟩, ⟨lit "URI", lit "/"⟩]

theorem postObject_tolerant :
    JsonParser.twoTexts.RaisesJson ∧
    Tolerant postElements (JsonParser.Parses JsonParser.twoTexts (lit "\x7b\"a\":1\x7d"))
      ((HttpJsonExtractor.extract utf8 JsonParser.twoTexts
        (some (.request (postObject.map fun _ => 0)))).run
        (⟨⟨[postObject.content]⟩, ()⟩ : World Unit)) := by
  have hbody : BodyOk utf8 (JsonParser.Parses JsonParser.twoTexts) (postObject.map fun _ => 0)
      (⟨⟨[postObject.content]⟩, ()⟩ : World Unit) := .inr (.inl ⟨_, rfl⟩)
  exact ⟨twoTexts_raisesJson,
    ((malformed_body_iff utf8 twoTexts_raisesJson HttpXmlExtractor.twoDocuments).1 Unit _ _
      [⟨lit "URI", lit "/"⟩] rfl).mpr hbody⟩

/-- A text that does not parse ends both extractions, and in STUB mode the connection is closed. -/
theorem not_tolerant_postText :
    UriElementGetter.getUri postText.uri = .ok [⟨lit "URI", lit "/"⟩] ∧
    ¬ Tolerant postElements (JsonParser.Parses JsonParser.twoTexts (lit "x"))
      ((HttpJsonExtractor.extract utf8 JsonParser.twoTexts
        (some (.request (postText.map fun _ => 0)))).run
        (⟨⟨[postText.content]⟩, ()⟩ : World Unit)) ∧
    ¬ Tolerant postElements (HttpXmlExtractor.Parses HttpXmlExtractor.twoDocuments (lit "x"))
      ((HttpXmlExtractor.extract utf8 HttpXmlExtractor.twoDocuments
        (some (.request (postText.map fun _ => 0)))).run
          (HttpXmlExtractor.worldOf postText.content)) ∧
    ¬ MatchedAnyway
      ((ShippedExtractor.json JsonParser.twoTexts : ShippedExtractor Unit).extractor utf8)
      postElements (JsonParser.Parses JsonParser.twoTexts (lit "x")) .opened (.request postText)
      true newStubbing := by
  refine ⟨rfl, ?_, ?_, ?_⟩
  · rintro ⟨body, w', hrun, -⟩
    cases hrun
  · rintro ⟨body, w', hrun, -⟩
    cases hrun
  · rintro ⟨body, -, hreturned, -⟩
    exact absurd hreturned (by decide)

end Terminator.Server.MalformedBody
