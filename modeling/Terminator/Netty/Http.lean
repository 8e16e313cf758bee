import Mathlib.Data.List.Nodup
import Terminator.Netty.ChannelBuffer

/-!
# HTTP messages

`HttpVersion.java`, `HttpHeaders.java` and the message objects of the codec, as far as the
handlers and plugins read them. A message is parametric in what stands for its content:

* `HttpObject Ref`: the object itself, whose content is a buffer on the heap;
* `HttpObject ChannelBuffer`: the value of the object at one moment (`deref`), which is what the
  codec delivers and what Java serialization keeps;
* `HttpObject (List Byte)`: the message on the wire. netty's encoder sends the content bytes
  between the two indices and moves neither (`wire`).

`chunked` is the answer of `isChunked()`. `DecoderEmits` is the language of message sequences the
HTTP request decoder delivers on a connection.
-/

namespace Terminator.Netty

open Terminator.Java

/-! ## Versions -/

/-- The decimal text of a non-negative `int`. -/
def decimal (n : Nat) : JString := (Nat.toDigits 10 n).map fun c => UInt16.ofNat c.toNat

/-- A decimal digit, as the code unit it is. -/
theorem toNat_digit {d : Char} (hd : d.isDigit = true) :
    (UInt16.ofNat d.toNat).toNat = d.toNat ∧ 0x30 ≤ d.toNat ∧ d.toNat ≤ 0x39 := by
  have h : 48 ≤ d.toNat ∧ d.toNat ≤ 57 := by
    simpa [Char.isDigit, UInt32.le_iff_toNat_le] using hd
  have hlt : d.toNat < UInt16.size := Nat.lt_of_le_of_lt h.2 (by decide)
  exact ⟨UInt16.toNat_ofNat_of_lt' hlt, h.1, h.2⟩

theorem mem_decimal {n : Nat} {c : JChar} (hc : c ∈ decimal n) :
    0x30 ≤ c.toNat ∧ c.toNat ≤ 0x39 := by
  obtain ⟨d, hd, rfl⟩ := List.mem_map.mp hc
  obtain ⟨hu, hlo, hhi⟩ := toNat_digit (Nat.isDigit_of_mem_toDigits (by decide) (by decide) hd)
  exact ⟨hu.symm ▸ hlo, hu.symm ▸ hhi⟩

theorem notMem_decimal {c : JChar} (hc : c.toNat < 0x30) (n : Nat) : c ∉ decimal n := by
  intro hm
  have := (mem_decimal hm).1
  omega

theorem decimal_inj {m n : Nat} (h : decimal m = decimal n) : m = n := by
  have hinj : ∀ c ∈ Nat.toDigits 10 m, ∀ d ∈ Nat.toDigits 10 n,
      UInt16.ofNat c.toNat = UInt16.ofNat d.toNat → c = d := by
    intro c hc d hd hcd
    have hu := (toNat_digit (Nat.isDigit_of_mem_toDigits (by decide) (by decide) hc)).1
    have hv := (toNat_digit (Nat.isDigit_of_mem_toDigits (by decide) (by decide) hd)).1
    exact Char.toNat_inj.mp (by rw [← hu, ← hv, hcd])
  have hdig : Nat.toDigits 10 m = Nat.toDigits 10 n := by
    refine List.ext_getElem ?_
      fun i hi hj => hinj _ (List.getElem_mem hi) _ (List.getElem_mem hj) ?_
    · simpa [decimal] using congrArg List.length h
    · have := List.getElem_of_eq h (i := i) (by simpa [decimal] using hi)
      simpa [decimal] using this
  rw [← Nat.ofDigitChars_ten_toDigits (n := m), hdig, Nat.ofDigitChars_ten_toDigits]

/-- What follows the last occurrence of a unit is determined. -/
theorem append_cons_inj_of_notMem_right {c : JChar} {x x' y y' : JString} (hy : c ∉ y)
    (hy' : c ∉ y') (h : x ++ c :: y = x' ++ c :: y') : x = x' ∧ y = y' := by
  rcases List.append_eq_append_iff.mp h with ⟨a, hx, ha⟩ | ⟨a, hx, ha⟩
  · cases a with
    | nil => exact ⟨by simpa using hx.symm, (List.cons.inj ha).2⟩
    | cons d a =>
      have : y = a ++ c :: y' := (List.cons.inj ha).2
      exact absurd (by rw [this]; simp) hy
  · cases a with
    | nil => exact ⟨by simpa using hx, (List.cons.inj ha).2.symm⟩
    | cons d a =>
      have : y' = a ++ c :: y := (List.cons.inj ha).2
      exact absurd (by rw [this]; simp) hy'

/-- `HttpVersion`. -/
structure HttpVersion where
  protocolName : JString
  majorVersion : Nat
  minorVersion : Nat
  deriving DecidableEq

namespace HttpVersion

def HTTP_1_0 : HttpVersion := ⟨lit "HTTP", 1, 0⟩

def HTTP_1_1 : HttpVersion := ⟨lit "HTTP", 1, 1⟩

/-- `getText()`, which `toString()` and so string concatenation use. -/
def getText (v : HttpVersion) : JString :=
  v.protocolName ++ lit "/" ++ decimal v.majorVersion ++ lit "." ++ decimal v.minorVersion

/-- `String.compareTo`: the first difference of code units, else the difference of lengths. -/
def compareText : JString → JString → Int
  | [], [] => 0
  | [], _ :: ds => -((ds.length : Int) + 1)
  | _ :: cs, [] => (cs.length : Int) + 1
  | c :: cs, d :: ds => if c = d then compareText cs ds else (c.toNat : Int) - d.toNat

/-- `compareTo`. -/
def compareTo (v o : HttpVersion) : Int :=
  let p := compareText v.protocolName o.protocolName
  if p ≠ 0 then p
  else
    let d := (v.majorVersion : Int) - o.majorVersion
    if d ≠ 0 then d else (v.minorVersion : Int) - o.minorVersion

theorem getText_eq (v : HttpVersion) :
    v.getText = v.protocolName ++ 0x2F ::
      (decimal v.majorVersion ++ 0x2E :: decimal v.minorVersion) := by
  have hs : lit "/" = [0x2F] := rfl
  have hd : lit "." = [0x2E] := rfl
  rw [getText, hs, hd]
  simp

/-- **The text determines the version**: its last slash ends the protocol name, and the numbers
have no dot in them. -/
theorem getText_inj {v v' : HttpVersion} (h : v.getText = v'.getText) : v = v' := by
  rw [getText_eq, getText_eq] at h
  have hno : ∀ w : HttpVersion,
      (0x2F : JChar) ∉ decimal w.majorVersion ++ 0x2E :: decimal w.minorVersion := by
    intro w hm
    rcases List.mem_append.mp hm with hm | hm
    · exact notMem_decimal (by decide) _ hm
    · rcases List.mem_cons.mp hm with hm | hm
      · exact absurd hm (by decide)
      · exact notMem_decimal (by decide) _ hm
  obtain ⟨hname, hnum⟩ := append_cons_inj_of_notMem_right (hno v) (hno v') h
  obtain ⟨hmajor, -, hminor⟩ := (List.append_cons_inj_of_notMem
    (notMem_decimal (by decide) _) (notMem_decimal (by decide) _)).mp hnum
  cases v
  cases v'
  simp only [HttpVersion.mk.injEq]
  exact ⟨hname, decimal_inj hmajor, decimal_inj hminor⟩

end HttpVersion

/-! ## Headers -/

/-- `HttpHeaders`: the entries in the order they were added. -/
abbrev HttpHeaders := List (JString × JString)

namespace HttpHeaders

/-- `eq`: header names are compared without the case of ASCII letters. -/
def eq (name1 name2 : JString) : Bool := name1.map lowerAscii == name2.map lowerAscii

/-- `getHeader(name)`: a bucket chain starts with the entry added last. -/
def getHeader (hs : HttpHeaders) (name : JString) : Option JString :=
  (hs.reverse.find? fun e => eq name e.1).map Prod.snd

/-- `getHeaders(name)`. -/
def getHeaders (hs : HttpHeaders) (name : JString) : List JString :=
  (hs.filter fun e => eq name e.1).map Prod.snd

/-- `removeHeader(name)`. -/
def removeHeader (hs : HttpHeaders) (name : JString) : HttpHeaders :=
  hs.filter fun e => !eq name e.1

/-- `setHeader(name, value)`. -/
def setHeader (hs : HttpHeaders) (name value : JString) : HttpHeaders :=
  removeHeader hs name ++ [(name, value)]

/-- The case folding of `equalsIgnoreCase` against an ASCII string: the four units outside ASCII
that share an upper or a lower case with an ASCII letter fold to that letter. -/
def foldCase (c : JChar) : JChar :=
  if c = 0x130 ∨ c = 0x131 then 0x69
  else if c = 0x17F then 0x73
  else if c = 0x212A then 0x6B
  else lowerAscii c

/-- `constant.equalsIgnoreCase(s)` for an ASCII constant. -/
def equalsIgnoreCase (constant s : JString) : Bool := constant.map foldCase == s.map foldCase

end HttpHeaders

/-! ## Messages -/

/-- `HttpRequest`; a method is its name. -/
structure HttpRequest (β : Type) where
  version : HttpVersion
  method : JString
  uri : JString
  headers : HttpHeaders
  chunked : Bool
  content : β
  deriving DecidableEq

/-- `HttpResponse`; a status is its code and reason phrase. -/
structure HttpResponse (β : Type) where
  version : HttpVersion
  status : Nat × JString
  headers : HttpHeaders
  chunked : Bool
  content : β
  deriving DecidableEq

/-- `HttpChunk`; `last` is the answer of `isLast()`. -/
structure HttpChunk (β : Type) where
  last : Bool
  content : β
  deriving DecidableEq

/-- Any message the codec hands to a handler or a handler to the codec. -/
inductive HttpObject (β : Type) where
  | request (r : HttpRequest β)
  | response (r : HttpResponse β)
  | chunk (c : HttpChunk β)
  deriving DecidableEq

/-- `HttpResponseStatus.CONTINUE`, `OK` and `NOT_IMPLEMENTED`. -/
def CONTINUE : Nat × JString := (100, lit "Continue")
def OK : Nat × JString := (200, lit "OK")
def NOT_IMPLEMENTED : Nat × JString := (501, lit "Not Implemented")

variable {β γ : Type}

/-- `HttpHeaders.is100ContinueExpected(request)`. -/
def HttpRequest.is100ContinueExpected (r : HttpRequest β) : Bool :=
  if r.version.compareTo .HTTP_1_1 < 0 then false
  else
    match r.headers.getHeader (lit "Expect") with
    | none => false
    | some value =>
      if HttpHeaders.equalsIgnoreCase (lit "100-continue") value then true
      else (r.headers.getHeaders (lit "Expect")).any
        (HttpHeaders.equalsIgnoreCase (lit "100-continue"))

/-- An informational response, which never is the final one to its request. -/
def HttpResponse.interim (r : HttpResponse β) : Bool := r.status.1 / 100 == 1

def HttpRequest.map (f : β → γ) (r : HttpRequest β) : HttpRequest γ :=
  ⟨r.version, r.method, r.uri, r.headers, r.chunked, f r.content⟩

def HttpResponse.map (f : β → γ) (r : HttpResponse β) : HttpResponse γ :=
  ⟨r.version, r.status, r.headers, r.chunked, f r.content⟩

def HttpChunk.map (f : β → γ) (c : HttpChunk β) : HttpChunk γ := ⟨c.last, f c.content⟩

namespace HttpObject

def map (f : β → γ) : HttpObject β → HttpObject γ
  | request r => request (r.map f)
  | response r => response (r.map f)
  | chunk c => chunk (c.map f)

def content : HttpObject β → β
  | request r => r.content
  | response r => r.content
  | chunk c => c.content

/-- The cast `(HttpRequest) message`. -/
def asRequest : HttpObject β → Except Throwable (HttpRequest β)
  | request r => .ok r
  | _ => .error .classCast

/-- The cast `(HttpResponse) message`. -/
def asResponse : HttpObject β → Except Throwable (HttpResponse β)
  | response r => .ok r
  | _ => .error .classCast

/-- The cast `(HttpChunk) message`. -/
def asChunk : HttpObject β → Except Throwable (HttpChunk β)
  | chunk c => .ok c
  | _ => .error .classCast

/-- The value of the object a message is, at the heap `h`. -/
def deref (h : Heap ChannelBuffer) (m : HttpObject Ref) : HttpObject ChannelBuffer := m.map h.get

/-- What the encoder sends of a message. -/
def wire (m : HttpObject ChannelBuffer) : HttpObject (List Byte) := m.map ChannelBuffer.content

@[simp] theorem content_map (f : β → γ) (m : HttpObject β) : (m.map f).content = f m.content := by
  cases m <;> rfl

@[simp] theorem map_request (f : β → γ) (r : HttpRequest β) :
    (request r).map f = request (r.map f) := rfl

@[simp] theorem map_response (f : β → γ) (r : HttpResponse β) :
    (response r).map f = response (r.map f) := rfl

/-- A message with one content for another: what `deref` reads depends on the content only. -/
theorem map_congr {f g : β → γ} {m : HttpObject β} (h : f m.content = g m.content) :
    m.map f = m.map g := by
  cases m <;> simp only [map, content, HttpRequest.map, HttpResponse.map, HttpChunk.map] at h ⊢ <;>
    rw [h]

/-- Two heaps that agree on a message's buffer agree on its value. -/
theorem deref_congr {h h' : Heap ChannelBuffer} {m : HttpObject Ref}
    (hm : h.get m.content = h'.get m.content) : m.deref h = m.deref h' := map_congr hm

/-- The codec's delivery of a message: its buffer is allocated on the heap. -/
def deliver (m : HttpObject ChannelBuffer) (h : Heap ChannelBuffer) :
    HttpObject Ref × Heap ChannelBuffer :=
  (m.map fun _ => h.size, (h.alloc m.content).2)

@[simp] theorem content_deliver (m : HttpObject ChannelBuffer) (h : Heap ChannelBuffer) :
    (m.deliver h).1.content = h.size := content_map _ m

@[simp] theorem size_deliver (m : HttpObject ChannelBuffer) (h : Heap ChannelBuffer) :
    (m.deliver h).2.size = h.size + 1 := Heap.size_alloc h m.content

theorem size_lt_size_deliver (m : HttpObject ChannelBuffer) (h : Heap ChannelBuffer) :
    h.size < (m.deliver h).2.size := Heap.size_lt_size_alloc h m.content

/-- The delivered object has the delivered value. -/
@[simp] theorem deref_deliver (m : HttpObject ChannelBuffer) (h : Heap ChannelBuffer) :
    (m.deliver h).1.deref (m.deliver h).2 = m := by
  cases m <;>
    simp [deliver, deref, map, HttpRequest.map, HttpResponse.map, HttpChunk.map, content]

/-- Delivery leaves the messages delivered before it alone. -/
theorem get_deliver_of_lt {h : Heap ChannelBuffer} {r : Ref} (hr : r < h.size)
    (m : HttpObject ChannelBuffer) : (m.deliver h).2.get r = h.get r :=
  Heap.get_alloc_of_lt hr m.content

end HttpObject

/-- `GET uri` without headers or body. -/
def HttpRequest.get (uri : String) : HttpRequest ChannelBuffer :=
  ⟨.HTTP_1_1, lit "GET", lit uri, [], false, .EMPTY_BUFFER⟩

/-- `POST uri` with a body. -/
def HttpRequest.post (uri : String) (body : List Byte) : HttpRequest ChannelBuffer :=
  ⟨.HTTP_1_1, lit "POST", lit uri, [], false, .wrapped body true⟩

/-- A chunked `POST uri` with the chunks `a` and `b` and an empty last one. -/
def chunkedPost (uri : String) : List (HttpObject ChannelBuffer) :=
  [.request { HttpRequest.get uri with method := lit "POST", chunked := true },
    .chunk ⟨false, .wrapped [0x61] true⟩, .chunk ⟨false, .wrapped [0x62] true⟩,
    .chunk ⟨true, .EMPTY_BUFFER⟩]

/-- `200 OK` with the given content. -/
def HttpResponse.ok (content : ChannelBuffer) : HttpResponse ChannelBuffer :=
  ⟨.HTTP_1_1, OK, [], false, content⟩

/-! ## The request decoder -/

/-- The message sequences the HTTP request decoder delivers on a connection, the flag saying
whether the last request is still waiting for chunks. -/
def DecoderEmits : Bool → List (HttpObject β) → Prop
  | _, [] => True
  | false, .request r :: ms => DecoderEmits r.chunked ms
  | true, .chunk c :: ms => DecoderEmits (!c.last) ms
  | _, _ :: _ => False

/-- The requests a sequence of messages completes, each with its whole body; `pending` is the header
of a chunked one and what its chunks have brought so far. -/
def wholeRequests : Option (HttpRequest ChannelBuffer × List Byte) →
    List (HttpObject ChannelBuffer) → List (HttpRequest ChannelBuffer)
  | none, .request q :: ms =>
    if q.chunked then wholeRequests (some (q, q.content.content)) ms
    else q :: wholeRequests none ms
  | some (q, body), .chunk c :: ms =>
    if c.last then
      { q with content := .wrapped (body ++ c.content.content) true } :: wholeRequests none ms
    else wholeRequests (some (q, body ++ c.content.content)) ms
  | pending, _ :: ms => wholeRequests pending ms
  | _, [] => []

/-- A request that announces chunks. -/
def isChunkedRequest : HttpObject β → Bool
  | .request q => q.chunked
  | _ => false

/-- The header of a chunked request completes nothing. -/
theorem length_wholeRequests (ms : List (HttpObject ChannelBuffer)) :
    ∀ pending : Option (HttpRequest ChannelBuffer × List Byte),
    DecoderEmits pending.isSome ms →
    (wholeRequests pending ms).length + ms.countP isChunkedRequest ≤ ms.length := by
  induction ms with
  | nil =>
    intro pending _
    cases pending <;> exact Nat.le_refl _
  | cons m ms ih =>
    intro pending h
    rw [List.countP_cons, List.length_cons]
    cases pending with
    | none =>
      cases m with
      | response r => exact h.elim
      | chunk c => exact h.elim
      | request q =>
        have hq : DecoderEmits q.chunked ms := h
        rw [wholeRequests, isChunkedRequest]
        cases hc : q.chunked with
        | true =>
          have := ih (some (q, q.content.content)) (by simpa [hc] using hq)
          simp only [if_true]
          omega
        | false =>
          have := ih none (by simpa [hc] using hq)
          simp only [Bool.false_eq_true, if_false, List.length_cons]
          omega
    | some p =>
      obtain ⟨q, body⟩ := p
      cases m with
      | response r => exact h.elim
      | request r => exact h.elim
      | chunk c =>
        have hc' : DecoderEmits (!c.last) ms := h
        have hnot : isChunkedRequest (HttpObject.chunk c) = false := rfl
        rw [wholeRequests, hnot]
        cases hc : c.last with
        | true =>
          have := ih none (by simpa [hc] using hc')
          simp only [if_true, Bool.false_eq_true, if_false, List.length_cons]
          omega
        | false =>
          have := ih (some (q, body ++ c.content.content)) (by simpa [hc] using hc')
          simp only [Bool.false_eq_true, if_false]
          omega

/-- As many requests as messages: then none of them is chunked. -/
theorem unchunked_of_length {ms : List (HttpObject ChannelBuffer)} (h : DecoderEmits false ms)
    (hlen : (wholeRequests none ms).length = ms.length) :
    ∀ q, .request q ∈ ms → q.chunked = false := by
  intro q hq
  have hle := length_wholeRequests ms none h
  have hnone : ms.countP isChunkedRequest = 0 := by omega
  exact Bool.eq_false_iff.mpr (List.countP_eq_zero.mp hnone _ hq)

/-- Without chunked requests the messages are the requests. -/
theorem wholeRequests_of_unchunked {ms : List (HttpObject ChannelBuffer)}
    (h : DecoderEmits false ms)
    (hall : ∀ q, .request q ∈ ms → q.chunked = false) :
    (wholeRequests none ms).map .request = ms := by
  induction ms with
  | nil => rfl
  | cons m ms ih =>
    cases m with
    | response r => exact h.elim
    | chunk c => exact h.elim
    | request q =>
      have hq : q.chunked = false := hall q List.mem_cons_self
      have h' : DecoderEmits q.chunked ms := h
      rw [wholeRequests, hq, if_neg Bool.false_ne_true, List.map_cons,
        ih (hq ▸ h') fun q hq => hall q (List.mem_cons_of_mem _ hq)]

end Terminator.Netty
