import Terminator.Java.Exec
import Terminator.Java.Linked
import Terminator.Netty.Http

/-!
# The header table

`HttpHeaders.java` as the mutable structure it is. Every header is a `HeaderEntry` on the heap, in
two lists at once: the chain of its bucket (`entries[i]`, `next`), newest first, and the ring round
`head` (`before`, `after`), oldest first. The hash and `eq` of a name do not see the case of ASCII
letters.

* A loop along a chain takes `fuel`; `none` says that it did not end. The heap's size is always
  enough (`Represents.length_lt_size`).
* `HttpCodecUtil` is netty's: `Validation` is what its two methods accept. Both throw a
  `NullPointerException` for `null` and an `IllegalArgumentException` for a text they reject.
* An object given as a header value is what its `toString()` returns.

`Represents s rs` is the invariant: the ring passes the entries `rs`, each bucket's chain passes
backwards those of them that belong to it, and each entry carries the hash of its key. The lemmas
`…_spec` give for each operation the list it leaves, in the words of `Netty.HttpHeaders`; `Frame`
says what it does not touch.
-/

namespace Terminator.Netty

open Terminator.Java
open Function (update)

/-- What `HttpCodecUtil.validateHeaderName` and `validateHeaderValue` accept. -/
structure Validation where
  headerName : JString → Bool
  headerValue : JString → Bool

/-- An object as a header value: `null`, or what its `toString()` returns. -/
abbrev HeaderObject := Option (Option JString)

namespace HeaderTable

def BUCKET_SIZE : Nat := 17

/-- `hash(name)`, which is never negative (`hash_nonneg`). -/
def hash (name : JString) : Int32 :=
  let h := name.reverse.foldl (fun h c => 31 * h + (lowerAscii c).toUInt32.toInt32) 0
  if 0 < h then h
  else if h = Int32.minValue then Int32.maxValue
  else -h

theorem toNat_tmod_lt (z : Int) : (z.tmod 17).toNat < BUCKET_SIZE := by
  have := Int.tmod_lt_of_pos z (b := 17)
  unfold BUCKET_SIZE
  omega

/-- `index(hash)`, of a hash that is not negative. -/
def index (hash : Int32) : Fin BUCKET_SIZE := ⟨(hash.toInt.tmod 17).toNat, toNat_tmod_lt _⟩

end HeaderTable

/-- `HeaderEntry`. The links are assigned before they are read; the key and value of a head, which
are `null`, are never read. -/
structure HeaderEntry where
  hash : Int32
  key : JString
  value : JString
  next : Option Ref
  before : Ref
  after : Ref
  deriving Inhabited

namespace HeaderEntry

/-- `new HeaderEntry(hash, key, value)`. -/
def new (hash : Int32) (key value : JString) : HeaderEntry := ⟨hash, key, value, none, 0, 0⟩

/-- What never changes in an entry. -/
def data (e : HeaderEntry) : Int32 × JString × JString := (e.hash, e.key, e.value)

/-- `e.next = n`, and the same of the other two links. -/
def setNext (e : Ref) (n : Option Ref) (h : Heap HeaderEntry) : Heap HeaderEntry :=
  h.set e { h.get e with next := n }

def setBefore (e b : Ref) (h : Heap HeaderEntry) : Heap HeaderEntry :=
  h.set e { h.get e with before := b }

def setAfter (e a : Ref) (h : Heap HeaderEntry) : Heap HeaderEntry :=
  h.set e { h.get e with after := a }

/-- `remove()`. -/
def remove (this : Ref) (h : Heap HeaderEntry) : Heap HeaderEntry :=
  let h := setAfter (h.get this).before (h.get this).after h
  setBefore (h.get this).after (h.get this).before h

/-- `addBefore(e)`. -/
def addBefore (this e : Ref) (h : Heap HeaderEntry) : Heap HeaderEntry :=
  let h := setAfter this e h
  let h := setBefore this (h.get e).before h
  let h := setAfter (h.get this).before this h
  setBefore (h.get this).after this h

/-- `e.hash == hash && eq(name, e.key)`. -/
def isOf (hash : Int32) (name : JString) (e : HeaderEntry) : Bool :=
  e.hash == hash && HttpHeaders.eq name e.key

end HeaderEntry

/-- The fields of an `HttpHeaders`. -/
structure HeaderTable where
  entries : Fin HeaderTable.BUCKET_SIZE → Option Ref
  head : Ref

/-- An `HttpHeaders` and the heap its entries are on. -/
structure HeaderState extends HeaderTable where
  heap : Heap HeaderEntry

namespace HeaderTable

open HeaderEntry

/-- `new HttpHeaders()`. -/
def new (heap : Heap HeaderEntry) : HeaderState :=
  let (head, heap) := heap.alloc (HeaderEntry.new (-1) [] [])
  let heap := setAfter head head heap
  ⟨⟨fun _ => none, head⟩, setBefore head head heap⟩

/-- `addHeader0(h, i, name, value)`. -/
def addHeader0 (h : Int32) (i : Fin BUCKET_SIZE) (name value : JString) (s : HeaderState) :
    HeaderState :=
  let e := s.entries i
  let (newEntry, heap) := s.heap.alloc (HeaderEntry.new h name value)
  let heap := setNext newEntry e heap
  { s with entries := update s.entries i (some newEntry), heap := addBefore newEntry s.head heap }

/-- The second loop of `removeHeader0`: `e` stays, and what follows it is looked at. -/
def removeBehind (h : Int32) (name : JString) : Nat → Ref → HeaderState → Option HeaderState
  | 0, _, _ => none
  | fuel + 1, e, s =>
    match (s.heap.get e).next with
    | none => some s
    | some next =>
      if (s.heap.get next).isOf h name then
        let heap := setNext e (s.heap.get next).next s.heap
        removeBehind h name fuel e { s with heap := remove next heap }
      else removeBehind h name fuel next s

/-- The first loop of `removeHeader0`: `e` is the first entry of bucket `i`. -/
def removeFront (h : Int32) (i : Fin BUCKET_SIZE) (name : JString) :
    Nat → Ref → HeaderState → Option HeaderState
  | 0, _, _ => none
  | fuel + 1, e, s =>
    if (s.heap.get e).isOf h name then
      let heap := remove e s.heap
      match (heap.get e).next with
      | some next =>
        removeFront h i name fuel next
          { s with entries := update s.entries i (some next), heap := heap }
      | none => some { s with entries := update s.entries i none, heap := heap }
    else removeBehind h name fuel e s

/-- `removeHeader0(h, i, name)`. -/
def removeHeader0 (h : Int32) (i : Fin BUCKET_SIZE) (name : JString) (s : HeaderState) :
    Option HeaderState :=
  match s.entries i with
  | none => some s
  | some e => removeFront h i name s.heap.size e s

/-- The loop of `getHeader(name)` from the link `e`. -/
def findValue (h : Int32) (name : JString) (heap : Heap HeaderEntry) :
    Nat → Option Ref → Option (Option JString)
  | _, none => some none
  | 0, some _ => none
  | fuel + 1, some e =>
    if (heap.get e).isOf h name then some (some (heap.get e).value)
    else findValue h name heap fuel (heap.get e).next

/-- The loop of `getHeaders(name)` from the link `e`; `values.addFirst` puts a value in front. -/
def collectValues (h : Int32) (name : JString) (heap : Heap HeaderEntry) :
    Nat → Option Ref → List JString → Option (List JString)
  | _, none, values => some values
  | 0, some _, _ => none
  | fuel + 1, some e, values =>
    collectValues h name heap fuel (heap.get e).next
      (if (heap.get e).isOf h name then (heap.get e).value :: values else values)

/-! ## The methods -/

section Methods

variable (V : Validation)

/-- `HttpCodecUtil.validateHeaderName(name)`, which returns when the name can be used. -/
def validateHeaderName : Option JString → Except Throwable JString
  | none => .error .nullPointer
  | some name => if V.headerName name then .ok name else .error .illegalArgument

/-- `HttpCodecUtil.validateHeaderValue(value)`. -/
def validateHeaderValue : Option JString → Except Throwable JString
  | none => .error .nullPointer
  | some value => if V.headerValue value then .ok value else .error .illegalArgument

/-- `addHeader(name, value)`. -/
def addHeader (name : Option JString) (value : HeaderObject) (s : HeaderState) :
    Except Throwable Unit × HeaderState :=
  match validateHeaderName V name with
  | .error e => (.error e, s)
  | .ok name =>
    match validateHeaderValue V value.join with
    | .error e => (.error e, s)
    | .ok strVal => (.ok (), addHeader0 (hash name) (index (hash name)) name strVal s)

/-- `removeHeader(name)`. -/
def removeHeader (name : Option JString) (s : HeaderState) :
    Option (Except Throwable Unit × HeaderState) :=
  match name with
  | none => some (.error .nullPointer, s)
  | some name => (removeHeader0 (hash name) (index (hash name)) name s).map fun s => (.ok (), s)

/-- `setHeader(name, value)`. -/
def setHeader (name : Option JString) (value : HeaderObject) (s : HeaderState) :
    Option (Except Throwable Unit × HeaderState) :=
  match validateHeaderName V name with
  | .error e => some (.error e, s)
  | .ok name =>
    match validateHeaderValue V value.join with
    | .error e => some (.error e, s)
    | .ok strVal => (removeHeader0 (hash name) (index (hash name)) name s).map fun s =>
        (.ok (), addHeader0 (hash name) (index (hash name)) name strVal s)

/-- The loop of `setHeader(name, values)`. -/
def addValues (name : JString) :
    List HeaderObject → HeaderState → Except Throwable Unit × HeaderState
  | [], s => (.ok (), s)
  | none :: _, s => (.ok (), s)
  | some v :: vs, s =>
    match validateHeaderValue V v with
    | .error e => (.error e, s)
    | .ok strVal => addValues name vs (addHeader0 (hash name) (index (hash name)) name strVal s)

/-- `setHeader(name, values)` with an `Iterable`. -/
def setHeaders (name : Option JString) (values : Option (List HeaderObject)) (s : HeaderState) :
    Option (Except Throwable Unit × HeaderState) :=
  match values with
  | none => some (.error .nullPointer, s)
  | some values =>
    match validateHeaderName V name with
    | .error e => some (.error e, s)
    | .ok name =>
      (removeHeader0 (hash name) (index (hash name)) name s).map fun s => addValues V name values s

/-- `clearHeaders()`. -/
def clearHeaders (s : HeaderState) : HeaderState :=
  let heap := setAfter s.head s.head s.heap
  { s with entries := fun _ => none, heap := setBefore s.head s.head heap }

/-- `getHeader(name)`. -/
def getHeader (name : Option JString) (s : HeaderState) :
    Option (Except Throwable (Option JString)) :=
  match name with
  | none => some (.error .nullPointer)
  | some name =>
    (findValue (hash name) name s.heap s.heap.size (s.entries (index (hash name)))).map .ok

/-- `getHeaders(name)`. -/
def getHeaders (name : Option JString) (s : HeaderState) :
    Option (Except Throwable (List JString)) :=
  match name with
  | none => some (.error .nullPointer)
  | some name =>
    (collectValues (hash name) name s.heap s.heap.size (s.entries (index (hash name))) []).map .ok

/-- `getHeaders()`, with the entries as the keys and values they hold. -/
def getAllHeaders (s : HeaderState) : Option (List (JString × JString)) :=
  (walk (s.heap.field HeaderEntry.after) s.head s.heap.size (s.heap.get s.head).after).map
    (·.map fun e => ((s.heap.get e).key, (s.heap.get e).value))

/-- `containsHeader(name)`. -/
def containsHeader (name : Option JString) (s : HeaderState) : Option (Except Throwable Bool) :=
  (getHeader name s).map (·.map Option.isSome)

end Methods

end HeaderTable

end Terminator.Netty
