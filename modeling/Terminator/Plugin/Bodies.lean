import Terminator.Plugin.SharedExtractor
import Terminator.Plugin.UriElements

/-!
# What a body adds to the elements

`HttpJsonExtractor.extract` and `HttpXmlExtractor.extract` in one piece, for a request whose URI
`getUri` reads. `JsonParser` answers `null` for a text json-lib refuses, and an unparsed document
leaves `document` null; both extractors go on with what they got.

* `extractWith_returned_iff`, `extractWith_tolerant_iff`: an extraction returns iff its body is
  empty or parses;
* **`xml_extract_leaves_iff`**: over any elements left in `contentmap`, the leaves of the document
  follow METHOD, URI and headers iff the URI can be read.
-/

namespace Terminator.Plugin

open Terminator.Java Terminator.Netty Terminator.Netty.ChannelBuffer Terminator.Storage

/-! ## A body that may not parse -/

section Body

variable {τ : Type} {cs : Charset} {uriElements : JString → Except Throwable (List RequestElement)}
  {parse : JString → Method (World τ) (List RequestElement)} {q : HttpRequest Ref} {w : World τ}
  {uri : List RequestElement} {parses : JString → Prop}

/-- The text of the body. -/
def bodyText (cs : Charset) (q : HttpRequest Ref) (w : World τ) : JString :=
  cs.decode (w.heap.get q.content).content

/-- There is no body to parse, or it parses. -/
def BodyOk (cs : Charset) (parses : JString → Prop) (q : HttpRequest Ref) (w : World τ) : Prop :=
  (w.heap.get q.content).readable = false ∨ parses (bodyText cs q w)

/-- The method returned what it started with, and elements of the body only when it parses. -/
def Tolerant (start : List RequestElement) (parses : Prop)
    (r : EStateM.Result Throwable (World τ) (List RequestElement)) : Prop :=
  ∃ body w', r = .ok (start ++ body) w' ∧ (¬ parses → body = [])

/-- Once the URI has been read, an extraction returns iff the parser does. -/
theorem extractWith_returned_iff (hparse : ∀ text w, Returned ((parse text).run w) ↔ parses text)
    (huri : uriElements q.uri = .ok uri) :
    Returned ((extractWith cs uriElements parse (some (.request q))).run w) ↔
      BodyOk cs parses q w := by
  rw [extractWith_run huri, BodyOk]
  by_cases hr : (w.heap.get q.content).readable = true
  · have htotal : ∀ (body : List RequestElement) (w' : World τ), Returned
        ((pure (requestElements q uri ++ body) : Method (World τ) _).run w') :=
      fun _ _ => trivial
    rw [if_pos hr, returned_bind_iff_of_total htotal, hparse]
    simp [hr, bodyText]
  · rw [if_neg hr]
    simp [hr]

/-- The three common kinds of elements come first, whatever the body is. -/
theorem extractWith_tolerant_iff (hparse : ∀ text w, Returned ((parse text).run w) ↔ parses text)
    (huri : uriElements q.uri = .ok uri) :
    Tolerant (requestElements q uri) (parses (bodyText cs q w))
        ((extractWith cs uriElements parse (some (.request q))).run w) ↔
      BodyOk cs parses q w := by
  constructor
  · rintro ⟨body, w', hrun, -⟩
    rw [← extractWith_returned_iff hparse huri, hrun]
    exact returned_ok _ _
  · intro hbody
    rw [extractWith_run huri]
    by_cases hr : (w.heap.get q.content).readable = true
    · have hparses : parses (bodyText cs q w) := hbody.resolve_left (by simp [hr])
      have hreturned := (hparse (bodyText cs q w)
        { w with heap := drain w.heap q.content }).mpr hparses
      obtain ⟨body, w', hrun⟩ := returned_iff.mp hreturned
      rw [if_pos hr]
      exact ⟨body, w', run_bind_of_ok hrun, fun hnot => absurd hparses hnot⟩
    · rw [if_neg hr]
      exact ⟨[], w, by rw [List.append_nil], fun _ => rfl⟩

end Body

/-! ## JSON -/

/-- json-lib throws a `JSONException` when it throws. -/
structure JsonLib.RaisesJson (lib : JsonLib) : Prop where
  fromObject : ∀ jstr e, lib.fromObject jstr = .error e → e = .json
  fromArray : ∀ jstr e, lib.fromArray jstr = .error e → e = .json

namespace JsonParser

/-- The text of the second attempt, without the quotes around nested objects. -/
def repaired (jstr : JString) : JString :=
  replace (lit "\x7d\"") (lit "\x7d") 0 (replace (lit "\"\x7b") (lit "\x7b") 0 jstr)

/-- One of the four attempts succeeds. -/
def Parses (lib : JsonLib) (jstr : JString) : Prop :=
  (∃ members, lib.fromObject jstr = .ok members) ∨ (∃ items, lib.fromArray jstr = .ok items) ∨
    (∃ members, lib.fromObject (repaired jstr) = .ok members) ∨
      ∃ items, lib.fromArray (repaired jstr) = .ok items

variable {lib : JsonLib}

theorem fromObject_cases (h : lib.RaisesJson) (jstr : JString) :
    (∃ members, lib.fromObject jstr = .ok members) ∨ lib.fromObject jstr = .error .json := by
  cases hobject : lib.fromObject jstr with
  | ok members => exact .inl ⟨members, rfl⟩
  | error e => exact .inr (by rw [h.fromObject jstr e hobject])

theorem fromArray_cases (h : lib.RaisesJson) (jstr : JString) :
    (∃ items, lib.fromArray jstr = .ok items) ∨ lib.fromArray jstr = .error .json := by
  cases harray : lib.fromArray jstr with
  | ok items => exact .inl ⟨items, rfl⟩
  | error e => exact .inr (by rw [h.fromArray jstr e harray])

/-- `getJSON` tries until one attempt succeeds. -/
theorem getJSON_cases (h : lib.RaisesJson) (jstr : JString) :
    (Parses lib jstr ∧ ∃ totallist, getJSON lib jstr = .ok totallist) ∨
      (¬ Parses lib jstr ∧ getJSON lib jstr = .error .json) := by
  unfold Parses getJSON
  rcases fromObject_cases h jstr with ⟨members, hobject⟩ | hobject
  · exact .inl ⟨.inl ⟨members, hobject⟩, _, by rw [hobject]⟩
  rcases fromArray_cases h jstr with ⟨items, harray⟩ | harray
  · exact .inl ⟨.inr (.inl ⟨items, harray⟩), _, by rw [hobject, harray]⟩
  rw [hobject, harray]
  dsimp only
  rcases fromObject_cases h (repaired jstr) with ⟨members, hobject'⟩ | hobject'
  · refine .inl ⟨.inr (.inr (.inl ⟨members, hobject'⟩)), walk (.object members), ?_⟩
    unfold repaired at hobject'
    rw [hobject']
  rcases fromArray_cases h (repaired jstr) with ⟨items, harray'⟩ | harray'
  · refine .inl ⟨.inr (.inr (.inr ⟨items, harray'⟩)), walk (.array items), ?_⟩
    unfold repaired at hobject' harray'
    rw [hobject', harray']
    rfl
  · rw [hobject', harray']
    refine .inr ⟨by simp, ?_⟩
    unfold repaired at hobject' harray'
    rw [hobject', harray']
    rfl

/-- `null` is what a text that does not parse gives. -/
theorem parseJsonObjectToListMap_cases (h : lib.RaisesJson) (jstr : JString) :
    (Parses lib jstr ∧ ∃ totallist, parseJsonObjectToListMap lib jstr = .ok (some totallist)) ∨
      (¬ Parses lib jstr ∧ parseJsonObjectToListMap lib jstr = .ok none) := by
  unfold parseJsonObjectToListMap
  rcases getJSON_cases h jstr with ⟨hparses, totallist, hjson⟩ | ⟨hparses, hjson⟩
  · exact .inl ⟨hparses, totallist, by rw [hjson]⟩
  · exact .inr ⟨hparses, by rw [hjson]⟩

end JsonParser

/-- The body part of `HttpJsonExtractor.extract`. -/
theorem json_returned_iff {lib : JsonLib} (hlib : lib.RaisesJson) {τ : Type} (text : JString)
    (w : World τ) :
    Returned ((do
      let resultJson ← fromExcept (JsonParser.parseJsonObjectToListMap lib text)
      let maps ← fromExcept (nonNull resultJson)
      pure (HttpJsonExtractor.elements lib maps) :
        Method (World τ) (List RequestElement)).run w) ↔ JsonParser.Parses lib text := by
  rcases JsonParser.parseJsonObjectToListMap_cases hlib text with
    ⟨hparses, maps, hmaps⟩ | ⟨hparses, hnull⟩
  · rw [hmaps]
    exact ⟨fun _ => hparses, fun _ => trivial⟩
  · rw [hnull]
    exact ⟨fun h => absurd h id, fun h => absurd h hparses⟩

/-! ## XML -/

namespace HttpXmlExtractor

/-- The document parses. -/
def Parses (dom4j : Dom4j) (text : JString) : Prop := ∃ root, dom4j.parseText text = .ok root

mutual

/-- The number of elements without elements of their own. -/
def leafCount : Element → Nat
  | .mk _ _ [] => 1
  | .mk _ _ (elem :: elements) => leafCount elem + leafCountOf elements

def leafCountOf : List Element → Nat
  | [] => 0
  | elem :: elements => leafCount elem + leafCountOf elements

end

mutual

theorem length_leaves (elem : Element) : (leaves elem).length = leafCount elem := by
  cases elem with
  | mk name textTrim elements =>
    cases elements with
    | nil => rfl
    | cons elem elements =>
      rw [leaves, leafCount, List.length_append, length_leaves, length_leavesOf]

theorem length_leavesOf (elements : List Element) :
    (leavesOf elements).length = leafCountOf elements := by
  cases elements with
  | nil => rfl
  | cons elem elements =>
    rw [leavesOf, leafCountOf, List.length_append, length_leaves, length_leavesOf]

end

theorem rootElement_eq_ok_iff {dom4j : Dom4j} {text : JString} {root : Element} :
    rootElement dom4j text = .ok root ↔ dom4j.parseText text = .ok root := by
  unfold rootElement
  cases dom4j.parseText text with
  | ok root' => exact Iff.rfl
  | error e => cases e <;> simp

/-- The body part of `HttpXmlExtractor.extract`. -/
theorem xml_returned_iff {dom4j : Dom4j} (text : JString) (w : World (List RequestElement)) :
    Returned ((collect dom4j text).run w) ↔ Parses dom4j text := by
  constructor
  · intro h
    obtain ⟨_, _, hrun⟩ := returned_iff.mp h
    obtain ⟨root, _, hroot, -⟩ := run_bind_eq_ok_iff.mp hrun
    exact ⟨root, rootElement_eq_ok_iff.mp (run_fromExcept_eq_ok_iff.mp hroot).1⟩
  · rintro ⟨root, hroot⟩
    rw [collect_run_of_ok (rootElement_eq_ok_iff.mpr hroot)]
    exact returned_ok _ _

section Xml

variable {cs : Charset} {dom4j : Dom4j} {q : HttpRequest Ref} {w : World (List RequestElement)}
  {uri : List RequestElement}

/-- The field is cleared first, so what earlier calls left there does not matter. -/
theorem xml_extract_run_of_root {root : Element} (huri : UriElementGetter.getUri q.uri = .ok uri)
    (hr : (w.heap.get q.content).readable = true)
    (hroot : dom4j.parseText (cs.decode (w.heap.get q.content).content) = .ok root) :
    (extract cs dom4j (some (.request q))).run w =
      .ok (requestElements q uri ++ leaves root)
        { w with heap := drain w.heap q.content, hidden := leaves root } := by
  have hextract : extract cs dom4j =
      extractWith cs UriElementGetter.getUri (collect dom4j) := rfl
  rw [hextract, extractWith_run huri, if_pos hr,
    run_bind_of_ok (collect_run_of_ok (rootElement_eq_ok_iff.mpr hroot) _)]
  rfl

/-- **Leaves in document order**: whatever earlier calls left in `contentmap`, a call that runs
alone returns METHOD, URI, headers and one element a leaf of its own document iff the URI can be
read. -/
theorem xml_extract_leaves_iff {root : Element} (hr : (w.heap.get q.content).readable = true)
    (hroot : dom4j.parseText (cs.decode (w.heap.get q.content).content) = .ok root) :
    (∃ uri body w', UriElementGetter.getUri q.uri = .ok uri ∧
      (extract cs dom4j (some (.request q))).run w = .ok (requestElements q uri ++ body) w' ∧
      body = leaves root ∧ body.length = leafCount root) ↔ UriElementGetter.Readable q.uri := by
  rw [← UriElementGetter.getUri_returns_iff]
  constructor
  · rintro ⟨uri, body, w', huri, -⟩
    exact ⟨uri, huri⟩
  · rintro ⟨uri, huri⟩
    exact ⟨uri, _, _, huri, xml_extract_run_of_root huri hr hroot, rfl, length_leaves root⟩

end Xml

/-- A world with one buffer on the heap, and an element left in `contentmap`. -/
def worldOf (content : ChannelBuffer) : World (List RequestElement) :=
  ⟨⟨[content]⟩, [⟨lit "old", lit "leaf"⟩]⟩

theorem xml_extract_leaves_postA :
    ∃ uri body w', UriElementGetter.getUri (lit "/") = .ok uri ∧
      (extract utf8 twoDocuments (some (.request (postA.map fun _ => 0)))).run
          (worldOf postA.content) =
        .ok (requestElements (postA.map fun _ => 0) uri ++ body) w' ∧
      body = leaves (.mk (lit "a") (lit "1") []) ∧
      body.length = leafCount (.mk (lit "a") (lit "1") []) :=
  (@xml_extract_leaves_iff utf8 twoDocuments (postA.map fun _ => 0) (worldOf postA.content)
    (.mk (lit "a") (lit "1") []) rfl rfl).mpr (by decide)

/-- The same document, sent to `/a?x`. -/
def postNoValue : HttpRequest ChannelBuffer := .post "/a?x" (utf8.encode (lit "<a>1</a>"))

/-- A parameter without a value ends the call before it comes to the document. -/
theorem not_xml_extract_leaves_postNoValue :
    ¬ ∃ uri body w', UriElementGetter.getUri postNoValue.uri = .ok uri ∧
      (extract utf8 twoDocuments (some (.request (postNoValue.map fun _ => 0)))).run
          (worldOf postNoValue.content) =
        .ok (requestElements (postNoValue.map fun _ => 0) uri ++ body) w' ∧
      body = leaves (.mk (lit "a") (lit "1") []) ∧
      body.length = leafCount (.mk (lit "a") (lit "1") []) := by
  rintro ⟨uri, body, w', huri, -⟩
  have hreadable : UriElementGetter.Readable postNoValue.uri :=
    UriElementGetter.getUri_returns_iff.mp ⟨uri, huri⟩
  exact absurd hreadable (by decide)

end HttpXmlExtractor

end Terminator.Plugin
