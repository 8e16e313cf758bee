import Terminator.Plugin.Matcher
import Terminator.Plugin.Signer

/-!
# Extractors

`DefaultHttpExtractor.java`, `HttpJsonExtractor.java` and `HttpXmlExtractor.java`, with
`UriElementGetter.java` and `JsonParser.java`. What the libraries parse is a parameter: `JsonLib`
gives the tree json-lib builds and the order a `HashMap` is iterated in, `Dom4j` the element
tree. `HttpXmlExtractor` collects the leaves in a field, `contentmap`, that outlives the call.

* **`extract_drains`**: whichever of the three it is, an extraction that returns has read the
  whole content of the request, and nothing else on the heap.
-/

namespace Terminator.Plugin

open Terminator.Java Terminator.Netty Terminator.Netty.ChannelBuffer Terminator.Storage

/-- `Extractor`; like a signer, it may read the request it is given. -/
structure Extractor (σ : Type) where
  extract : Option (HttpObject Ref) → Method (World σ) (List RequestElement)
  extract_preserves : ∀ request, World.Preserves (NotContentOf request) (extract request)

/-- `METHOD`, the elements of the URI, then the headers: what the three extractors start with. -/
def requestElements {β : Type} (r : HttpRequest β) (uriElements : List RequestElement) :
    List RequestElement :=
  ⟨lit "METHOD", r.method⟩ :: uriElements ++ r.headers.map fun entry => ⟨entry.1, entry.2⟩

/-- The end of the three methods: the elements the body adds, if there is one. -/
def bodyElements {τ : Type} (cs : Charset) (r : HttpRequest Ref)
    (parse : JString → Method (World τ) (List RequestElement)) :
    Method (World τ) (List RequestElement) := do
  let content := (← get).heap.get r.content
  if content.readable then
    let stringContent ←
      World.onHeap (onBuffer r.content (ChannelUtil.readChannelBufferAsString cs))
    parse stringContent
  else pure []

/-- The three `extract` methods: they differ in the elements of the URI and of the body. -/
def extractWith {τ : Type} (cs : Charset)
    (uriElements : JString → Except Throwable (List RequestElement))
    (parse : JString → Method (World τ) (List RequestElement))
    (request : Option (HttpObject Ref)) : Method (World τ) (List RequestElement) := do
  let httpRequest ← fromExcept (requestOf request)
  let uri_elements ← fromExcept (uriElements httpRequest.uri)
  let body ← bodyElements cs httpRequest parse
  pure (requestElements httpRequest uri_elements ++ body)

/-! ## `DefaultHttpExtractor` -/

/-- `DefaultHttpExtractor.extract`. -/
def DefaultHttpExtractor.extract (cs : Charset) {τ : Type} :
    Option (HttpObject Ref) → Method (World τ) (List RequestElement) :=
  extractWith cs (fun uri => .ok [⟨lit "URI", uri⟩])
    fun plainContent => pure [⟨lit "BODY", plainContent⟩]

/-! ## `UriElementGetter` -/

namespace UriElementGetter

/-- The elements of the parameters. -/
def params : List JString → Except Throwable (List RequestElement)
  | [] => .ok []
  | param :: rest => do
    let key_value := split 0x3D param
    let key ← load key_value 0
    let value ← load key_value 1
    let elements ← params rest
    pure (⟨key, value⟩ :: elements)

/-- `getUri`. -/
def getUri (uri : JString) : Except Throwable (List RequestElement) := do
  let strs := split 0x3F uri
  let path ← load strs 0
  let uriPath : RequestElement := ⟨lit "URI", path⟩
  if strs.length ≥ 2 then
    let query ← load strs 1
    let elements ← params (split 0x26 query)
    pure (uriPath :: elements)
  else pure [uriPath]

end UriElementGetter

/-! ## `JsonParser` and `HttpJsonExtractor` -/

/-- The tree json-lib builds; a scalar, `null` included, is its `toString()`. -/
inductive Json where
  | scalar (text : JString)
  | object (members : List (JString × Json))
  | array (items : List Json)

/-- A `HashMap` of the parser. -/
abbrev JsonMap := List (JString × JString)

/-- json-lib, and the iteration order of a `HashMap`. -/
structure JsonLib where
  /-- `JSONObject.fromObject(jstr)`: its members in the order of `keys()`. -/
  fromObject : JString → Except Throwable (List (JString × Json))
  /-- `JSONArray.fromObject(jstr)`. -/
  fromArray : JString → Except Throwable (List Json)
  /-- The entries in the order of `keySet()`. -/
  entries : JsonMap → JsonMap
  entries_perm : ∀ m, (entries m).Perm m

namespace JsonParser

/-- `itemmap.put(key, value)`. -/
def put (m : JsonMap) (key value : JString) : JsonMap :=
  m.filter (fun e => !(e.1 == key)) ++ [(key, value)]

/-- The loop over `normalkeys`. -/
def itemmap : List (JString × Json) → JsonMap → JsonMap
  | [], m => m
  | (key, .scalar text) :: members, m => itemmap members (put m key text)
  | _ :: members, m => itemmap members m

/-- An array inside an array is not walked. -/
def isArray : Json → Bool
  | .array _ => true
  | _ => false

mutual

/-- `walk`: the maps it adds to `totallist`. -/
def walk : Json → List JsonMap
  | .scalar _ => []
  | .object members => itemmap members [] :: walkMembers members
  | .array items => walkItems items

def walkMembers : List (JString × Json) → List JsonMap
  | [] => []
  | member :: members => walkMember member ++ walkMembers members

def walkMember : JString × Json → List JsonMap
  | (_, value) => walk value

def walkItems : List Json → List JsonMap
  | [] => []
  | item :: items => (if isArray item then [] else walk item) ++ walkItems items

end

/-- `getJSON`: as an object, as an array, then both once more with the quotes around nested
objects removed. -/
def getJSON (lib : JsonLib) (jstr : JString) : Except Throwable (List JsonMap) :=
  match lib.fromObject jstr with
  | .ok members => .ok (walk (.object members))
  | .error .json =>
    match lib.fromArray jstr with
    | .ok items => .ok (walk (.array items))
    | .error .json =>
      let jstr := replace (lit "\"\x7b") (lit "\x7b") 0 jstr
      let jstr := replace (lit "\x7d\"") (lit "\x7d") 0 jstr
      match lib.fromObject jstr with
      | .ok members => .ok (walk (.object members))
      | .error .json => do
        let items ← lib.fromArray jstr
        pure (walk (.array items))
      | .error e => .error e
    | .error e => .error e
  | .error e => .error e

/-- `parseJsonObjectToListMap`: `null` when the text does not parse. -/
def parseJsonObjectToListMap (lib : JsonLib) (jstr : JString) :
    Except Throwable (Option (List JsonMap)) :=
  match getJSON lib jstr with
  | .ok totallist => .ok (some totallist)
  | .error .json => .ok none
  | .error .io => .ok none
  | .error e => .error e

end JsonParser

/-- The elements of the maps the parser returned. -/
def HttpJsonExtractor.elements (lib : JsonLib) (maps : List JsonMap) : List RequestElement :=
  maps.flatMap fun m => (lib.entries m).map fun entry => ⟨entry.1, entry.2⟩

/-- `HttpJsonExtractor.extract`. -/
def HttpJsonExtractor.extract (cs : Charset) (lib : JsonLib) {τ : Type} :
    Option (HttpObject Ref) → Method (World τ) (List RequestElement) :=
  extractWith cs UriElementGetter.getUri fun stringContent => do
    let resultJson ← fromExcept (JsonParser.parseJsonObjectToListMap lib stringContent)
    let maps ← fromExcept (nonNull resultJson)
    pure (HttpJsonExtractor.elements lib maps)

/-! ## `HttpXmlExtractor` -/

/-- A dom4j `Element`, with the text `getTextTrim()` returns. -/
inductive Element where
  | mk (name textTrim : JString) (elements : List Element)

/-- dom4j: the root element of `DocumentHelper.parseText(text)`. -/
structure Dom4j where
  parseText : JString → Except Throwable Element

namespace HttpXmlExtractor

mutual

/-- `getElementList(element)`, which appends the leaves to `contentmap`. -/
def getElementList : Element → List RequestElement → List RequestElement
  | .mk name textTrim [], contentmap => contentmap ++ [⟨name, textTrim⟩]
  | .mk _ _ (elem :: elements), contentmap =>
    getElementLists elements (getElementList elem contentmap)

def getElementLists : List Element → List RequestElement → List RequestElement
  | [], contentmap => contentmap
  | elem :: elements, contentmap => getElementLists elements (getElementList elem contentmap)

end

/-- The root of the document; one that does not parse leaves `document` null. -/
def rootElement (dom4j : Dom4j) (text : JString) : Except Throwable Element :=
  match dom4j.parseText text with
  | .ok root => .ok root
  | .error .document => .error .nullPointer
  | .error e => .error e

/-- `extract`. -/
def extract (cs : Charset) (dom4j : Dom4j) :
    Option (HttpObject Ref) → Method (World (List RequestElement)) (List RequestElement) :=
  extractWith cs UriElementGetter.getUri fun stringContent => do
    let root ← fromExcept (rootElement dom4j stringContent)
    modify fun w => { w with hidden := [] }
    modify fun w => { w with hidden := getElementList root w.hidden }
    pure (← get).hidden

end HttpXmlExtractor

/-! ## What extraction does to the request -/

section Frame

variable {τ : Type}

theorem keeps_default (text : JString) :
    Keeps World.heap (pure [⟨lit "BODY", text⟩] : Method (World τ) (List RequestElement)) :=
  keeps_pure _ _

theorem keeps_json (lib : JsonLib) (text : JString) :
    Keeps World.heap (do
      let resultJson ← fromExcept (JsonParser.parseJsonObjectToListMap lib text)
      let maps ← fromExcept (nonNull resultJson)
      pure (HttpJsonExtractor.elements lib maps) : Method (World τ) (List RequestElement)) :=
  keeps_bind (keeps_fromExcept _ _) fun _ =>
    keeps_bind (keeps_fromExcept _ _) fun _ => keeps_pure _ _

theorem keeps_xml (dom4j : Dom4j) (text : JString) :
    Keeps World.heap (do
      let root ← fromExcept (HttpXmlExtractor.rootElement dom4j text)
      modify fun w => { w with hidden := [] }
      modify fun w => { w with hidden := HttpXmlExtractor.getElementList root w.hidden }
      pure (← get).hidden : Method (World (List RequestElement)) (List RequestElement)) :=
  keeps_bind (keeps_fromExcept _ _) fun _ _ => rfl

variable {parse : JString → Method (World τ) (List RequestElement)}

/-- Whatever the parser says, the body has been read. -/
theorem bodyElements_heap (cs : Charset) (hparse : ∀ text, Keeps World.heap (parse text))
    (r : HttpRequest Ref) (w : World τ) :
    (after ((bodyElements cs r parse).run w)).heap = drain w.heap r.content := by
  rw [bodyElements, run_bind_of_ok (EStateM.run_get w)]
  by_cases hr : (w.heap.get r.content).readable = true
  · have hread := ChannelUtil.readChannelBufferAsString_run cs (w.heap.get r.content)
    rw [if_pos hr, run_bind_of_ok (World.run_onHeap_of_ok (run_onBuffer_of_ok hread)), hparse]
    rfl
  · rw [if_neg hr, drain_of_not_readable hr]
    rfl

variable {cs : Charset} {uriElements : JString → Except Throwable (List RequestElement)}

theorem requestOf_eq_ok_iff {β : Type} {request : Option (HttpObject β)} {r : HttpRequest β} :
    requestOf request = .ok r ↔ request = some (.request r) := by
  rcases request with _ | m | m | m <;> simp [requestOf, HttpObject.asRequest]

/-- An extraction that returns was of a request, and has read its body and nothing else. -/
theorem extractWith_ok (hparse : ∀ text, Keeps World.heap (parse text))
    {request : Option (HttpObject Ref)}
    {w w' : World τ} {elements : List RequestElement}
    (h : (extractWith cs uriElements parse request).run w = .ok elements w') :
    ∃ r, request = some (.request r) ∧ w'.heap = drain w.heap r.content := by
  obtain ⟨r, w1, hr, h1⟩ := run_bind_eq_ok_iff.mp h
  obtain ⟨uri, w2, huri, h2⟩ := run_bind_eq_ok_iff.mp h1
  obtain ⟨body, w3, hbody, h3⟩ := run_bind_eq_ok_iff.mp h2
  obtain ⟨hreq, hw1⟩ := run_fromExcept_eq_ok_iff.mp hr
  obtain ⟨-, hw2⟩ := run_fromExcept_eq_ok_iff.mp huri
  have hheap := bodyElements_heap cs hparse r w2
  rw [hbody, after_ok, hw2, hw1] at hheap
  rw [EStateM.run_pure, EStateM.Result.ok.injEq] at h3
  exact ⟨r, requestOf_eq_ok_iff.mp hreq, h3.2 ▸ hheap⟩

/-- Once the URI has been read, everything depends on the body. -/
theorem extractWith_run {r : HttpRequest Ref} {w : World τ} {uri : List RequestElement}
    (huri : uriElements r.uri = .ok uri) :
    (extractWith cs uriElements parse (some (.request r))).run w =
      if (w.heap.get r.content).readable then
        (parse (cs.decode (w.heap.get r.content).content) >>= fun body =>
          pure (requestElements r uri ++ body)).run { w with heap := drain w.heap r.content }
      else .ok (requestElements r uri) w := by
  have hrequest : (fromExcept (requestOf (some (.request r))) : Method (World τ) _).run w =
      .ok r w := rfl
  rw [extractWith, run_bind_of_ok hrequest, huri, run_bind_of_ok (run_fromExcept_ok uri w),
    bodyElements, bind_assoc, run_bind_of_ok (EStateM.run_get w)]
  by_cases hr : (w.heap.get r.content).readable = true
  · have hread := ChannelUtil.readChannelBufferAsString_run cs (w.heap.get r.content)
    rw [if_pos hr, if_pos hr, bind_assoc,
      run_bind_of_ok (World.run_onHeap_of_ok (run_onBuffer_of_ok hread))]
    rfl
  · rw [if_neg hr, if_neg hr, pure_bind, List.append_nil]
    rfl

theorem extractWith_preserves (hparse : ∀ text, Keeps World.heap (parse text))
    (request : Option (HttpObject Ref)) :
    World.Preserves (NotContentOf request) (extractWith cs uriElements parse request) := by
  intro w
  unfold extractWith
  cases hreq : requestOf request with
  | error e =>
    rw [run_bind_of_error (run_fromExcept_error e w), after_error]
    exact ⟨Nat.le_refl _, fun _ _ _ => rfl⟩
  | ok r =>
    rw [run_bind_of_ok (run_fromExcept_ok r w)]
    cases huri : uriElements r.uri with
    | error e =>
      rw [run_bind_of_error (run_fromExcept_error e w), after_error]
      exact ⟨Nat.le_refl _, fun _ _ _ => rfl⟩
    | ok elems =>
      rw [run_bind_of_ok (run_fromExcept_ok elems w)]
      have hheap := bodyElements_heap cs hparse r w
      have hdrain : w.heap.size ≤ (drain w.heap r.content).size ∧
          ∀ r' < w.heap.size, NotContentOf request r' →
            (drain w.heap r.content).get r' = w.heap.get r' := by
        rw [size_drain]
        exact ⟨Nat.le_refl _, fun r' _ hr' => get_drain_ne (hr' _ (requestOf_eq_ok_iff.mp hreq))⟩
      cases hbody : (bodyElements cs r parse).run w with
      | error e w' =>
        rw [hbody, after_error] at hheap
        rw [run_bind_of_error hbody, after_error, hheap]
        exact hdrain
      | ok body w' =>
        rw [hbody, after_ok] at hheap
        rw [run_bind_of_ok hbody, EStateM.run_pure, after_ok, hheap]
        exact hdrain

end Frame

/-! ## The shipped extractors -/

/-- The extractors of the repository. The field of `HttpXmlExtractor` is a part of the hidden
state. -/
inductive ShippedExtractor (σ : Type) where
  | default
  | json (lib : JsonLib)
  | xml (dom4j : Dom4j) (get : σ → List RequestElement) (set : List RequestElement → σ → σ)

namespace ShippedExtractor

variable {σ : Type}

def extract (cs : Charset) :
    ShippedExtractor σ → Option (HttpObject Ref) → Method (World σ) (List RequestElement)
  | default => DefaultHttpExtractor.extract cs
  | json lib => HttpJsonExtractor.extract cs lib
  | xml dom4j get set => fun request =>
    World.component get set (HttpXmlExtractor.extract cs dom4j request)

/-- **Extraction drains**: one that returns was of a request, and has read its body and nothing
else. -/
theorem extract_drains {cs : Charset} {x : ShippedExtractor σ} {request : Option (HttpObject Ref)}
    {w w' : World σ} {elements : List RequestElement}
    (h : (x.extract cs request).run w = .ok elements w') :
    ∃ r, request = some (.request r) ∧ w'.heap = drain w.heap r.content := by
  cases x with
  | default =>
    have hdefault : (DefaultHttpExtractor.extract cs request).run w = .ok elements w' := h
    exact extractWith_ok keeps_default hdefault
  | json lib => exact extractWith_ok (keeps_json lib) h
  | xml dom4j get set =>
    simp only [extract, World.component, run_zoom] at h
    cases hx : (HttpXmlExtractor.extract cs dom4j request).run ⟨w.heap, get w.hidden⟩ with
    | error e t => simp [hx] at h
    | ok a t =>
      obtain ⟨r, hr, hheap⟩ := extractWith_ok (keeps_xml dom4j) hx
      simp only [hx, EStateM.Result.ok.injEq] at h
      exact ⟨r, hr, h.2 ▸ hheap⟩

theorem extract_preserves (cs : Charset) (x : ShippedExtractor σ)
    (request : Option (HttpObject Ref)) :
    World.Preserves (NotContentOf request) (x.extract cs request) := by
  cases x with
  | default =>
    change World.Preserves _ (DefaultHttpExtractor.extract cs request)
    exact extractWith_preserves keeps_default request
  | json lib => exact extractWith_preserves (keeps_json lib) request
  | xml dom4j get set =>
    exact World.preserves_component (extractWith_preserves (keeps_xml dom4j) request)

/-- The extractor as a component of a link. -/
def extractor (cs : Charset) (x : ShippedExtractor σ) : Extractor σ where
  extract := x.extract cs
  extract_preserves := x.extract_preserves cs

end ShippedExtractor

end Terminator.Plugin
