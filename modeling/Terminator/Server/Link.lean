import Mathlib.Logic.Function.Basic
import Terminator.Run.Invariant
import Terminator.Server.Record
import Terminator.Server.Replay
import Terminator.Storage.StorageFactory

/-!
# A link

The connections of a link share its storage and its plugins. A step of a link is a step of one of
its connections; when the link is switched to another mode its connections are new and what they
share stays.

`Orderly` says that every connection has at most one request outstanding, and `exchanges` lists the
requests with their responses, in the order the responses came in. **`run_recording`**: after an
orderly run in RECORD mode the storage holds the exchanges, each under the signature of its request,
and each with the request as signing has left it.
-/

namespace Terminator.Server

open Terminator.Java Terminator.Netty Terminator.Storage Terminator.Plugin
open Terminator.Run (Meets)

variable {σ : Type}

/-- A link: what its connections share, and the connections by number. -/
structure Link (σ : Type) where
  world : World σ
  conns : Nat → Connection

namespace Link

/-- A link in a work mode it has just been started in. -/
def opened (w : World σ) : Link σ := ⟨w, fun _ => .opened⟩

/-- A connection of the link. -/
def session (l : Link σ) (k : Nat) : Session σ := ⟨l.world, l.conns k⟩

/-- The link with another state of a connection and of what they share. -/
def set (l : Link σ) (k : Nat) (s : Session σ) : Link σ :=
  ⟨s.world, Function.update l.conns k s.conn⟩

@[simp] theorem world_set (l : Link σ) (k : Nat) (s : Session σ) : (l.set k s).world = s.world :=
  rfl

@[simp] theorem conns_set_self (l : Link σ) (k : Nat) (s : Session σ) :
    (l.set k s).conns k = s.conn := by
  simp only [set, Function.update_self]

theorem conns_set_ne (l : Link σ) {k k' : Nat} (h : k' ≠ k) (s : Session σ) :
    (l.set k s).conns k' = l.conns k' := by
  simp only [set, Function.update_of_ne h]

/-- An event on a connection. -/
def step (handler : HttpServerHandler σ) (e : Nat × Event) (l : Link σ) : Link σ :=
  l.set e.1 (handler.step e.2 (l.session e.1))

/-- The link after a sequence of events. -/
def run (handler : HttpServerHandler σ) : List (Nat × Event) → Link σ → Link σ
  | [], l => l
  | e :: es, l => run handler es (l.step handler e)

/-! ## Exchanges -/

/-- The requests that wait for a response, by connection. -/
abbrev Pending := Nat → Option (HttpRequest ChannelBuffer)

/-- Every connection sends whole requests, each after the final response to the one before it, and
gets nothing but these responses. -/
def Orderly : Pending → List (Nat × Event) → Prop
  | _, [] => True
  | pending, (k, .client (.request q) _) :: es =>
    pending k = none ∧ q.chunked = false ∧ Orderly (Function.update pending k (some q)) es
  | pending, (k, .remote (.response r) _) :: es =>
    pending k ≠ none ∧ r.chunked = false ∧ r.interim = false ∧
      Orderly (Function.update pending k none) es
  | _, _ :: _ => False

/-- The exchanges of a sequence of events, in the order they are completed. -/
def exchanges : Pending → List (Nat × Event) →
    List (HttpRequest ChannelBuffer × HttpResponse ChannelBuffer)
  | _, [] => []
  | pending, (k, .client (.request q) _) :: es =>
    exchanges (Function.update pending k (some q)) es
  | pending, (k, .remote (.response r) _) :: es =>
    match pending k with
    | some q => (q, r) :: exchanges (Function.update pending k none) es
    | none => exchanges pending es
  | pending, _ :: es => exchanges pending es

/-- No request is outstanding. -/
def idle : Pending := fun _ => none

theorem Orderly.of_append {es es' : List (Nat × Event)} :
    ∀ {pending : Pending}, Orderly pending (es ++ es') → Orderly pending es := by
  induction es with
  | nil =>
    intro pending _
    trivial
  | cons e es ih =>
    intro pending h
    obtain ⟨k, e⟩ := e
    rcases e with ⟨q | r | c, b⟩ | ⟨q | r | c, b⟩
    · exact ⟨h.1, h.2.1, ih h.2.2⟩
    · exact h.elim
    · exact h.elim
    · exact h.elim
    · exact ⟨h.1, h.2.1, h.2.2.1, ih h.2.2.2⟩
    · exact h.elim

/-- Each exchange is the last one of some beginning of the events. -/
theorem exists_prefix_of_mem {es : List (Nat × Event)}
    {e : HttpRequest ChannelBuffer × HttpResponse ChannelBuffer} :
    ∀ {pending : Pending}, Orderly pending es → e ∈ exchanges pending es →
    ∃ es1 es2 done, es = es1 ++ es2 ∧ exchanges pending es1 = done ++ [e] := by
  induction es with
  | nil =>
    intro pending _ h
    exact absurd h List.not_mem_nil
  | cons a es ih =>
    intro pending ho h
    obtain ⟨k, a⟩ := a
    rcases a with ⟨q | r | c, b⟩ | ⟨q | r | c, b⟩
    · obtain ⟨es1, es2, done, hes, hdone⟩ := ih ho.2.2 h
      exact ⟨(k, .client (.request q) b) :: es1, es2, done, by rw [hes]; rfl, hdone⟩
    · exact ho.elim
    · exact ho.elim
    · exact ho.elim
    · obtain ⟨q, hq⟩ := Option.ne_none_iff_exists'.mp ho.1
      rw [exchanges, hq] at h
      rcases List.mem_cons.mp h with rfl | h
      · exact ⟨[(k, .remote (.response r) b)], es, [], rfl, by rw [exchanges, hq]; rfl⟩
      · obtain ⟨es1, es2, done, hes, hdone⟩ := ih ho.2.2.2 h
        exact ⟨(k, .remote (.response r) b) :: es1, es2, (q, r) :: done, by rw [hes]; rfl, by
          rw [exchanges, hq]
          exact congrArg ((q, r) :: ·) hdone⟩
    · exact ho.elim

/-- What `BaseRecordServerHandler` puts for exchanges: the request has been drained by then. -/
def puts (cs : Charset)
    (done : List (HttpRequest ChannelBuffer × HttpResponse ChannelBuffer)) : History :=
  done.map fun e => (DefaultHttpSigner.keyOf cs e.1,
    ⟨some (.request (e.1.map ChannelBuffer.drained)), some (.response e.2)⟩)

/-! ## Recording -/

variable {cs : Charset} {S : RecordStorage σ} {hist : History}

/-- `logResponse` leaves the world as it is, whether it throws or not. -/
theorem after_logResponse (bundle : RequestResponseBundle Ref) (w : World σ) :
    after (((DefaultHttpSigner cs).logResponse bundle).run w) = w := by
  have hafter : after (((DefaultHttpSigner cs).logResponse bundle).run w)
      = { w with heap := after ((BaseSigner.logResponse bundle).run w.heap) } := after_zoom
  rw [hafter, (BaseSigner.logResponse_run bundle w.heap).1]

/-- A request and the response that was just delivered, once the request has been signed. -/
theorem deref_signed {q : HttpRequest Ref} {h : Heap ChannelBuffer} (hq : q.content < h.size)
    (r : HttpResponse ChannelBuffer) :
    RequestResponseBundle.deref
        (ChannelBuffer.drain (HttpObject.deliver (.response r) h).2 q.content)
        ⟨some (.request q), some (HttpObject.deliver (.response r) h).1⟩
      = ⟨some (.request ((q.map h.get).map ChannelBuffer.drained)), some (.response r)⟩ := by
  let h1 := ChannelBuffer.drain (HttpObject.deliver (.response r) h).2 q.content
  have hcontent : h1.get q.content = (h.get q.content).drained := by
    have hlt : q.content < (HttpObject.deliver (.response r) h).2.size := by
      rw [HttpObject.size_deliver]
      exact Nat.lt_succ_of_lt hq
    rw [ChannelBuffer.get_drain_self hlt, HttpObject.get_deliver_of_lt hq]
  have hresponse : (HttpObject.deliver (.response r) h).1.deref h1 = .response r := by
    rw [← HttpObject.deref_deliver (.response r) h]
    refine HttpObject.deref_congr ?_
    rw [HttpObject.content_deliver]
    exact ChannelBuffer.get_drain_ne (Nat.ne_of_lt hq)
  simp only [RequestResponseBundle.deref, RequestResponseBundle.map, Option.map_some,
    HttpObject.map_request, RequestResponseBundle.mk.injEq, Option.some.injEq]
  exact ⟨by simp only [HttpRequest.map, h1] at hcontent ⊢; rw [hcontent], hresponse⟩

/-- **Recording a response** puts the drained request with it, under the signature the request had
before. Logging it afterwards changes nothing, whether it throws or not. -/
theorem after_recording (R : Refines S) {s : Session σ} {q : HttpRequest Ref}
    {r : HttpResponse ChannelBuffer} (hw : R.Holds s.world hist)
    (hreq : s.conn.request = some (.request q)) (hq : q.content < s.world.heap.size)
    (hkeep : ¬ R.Keeps s.world.hidden q.content) :
    ∃ hidden, after (HttpRecordServerHandler.recording (DefaultHttpSigner cs) S (.response r) s)
        = ⟨ChannelBuffer.drain (s.arrived (.response r)).world.heap q.content, hidden⟩ ∧
      R.Holds ⟨ChannelBuffer.drain (s.arrived (.response r)).world.heap q.content, hidden⟩
        (hist ++ puts cs [(q.map s.world.heap.get, r)]) ∧
      R.Has hidden (DefaultHttpSigner.keyOf cs (q.map s.world.heap.get)) ∧
      ∀ x, R.Keeps hidden x → R.Keeps s.world.hidden x ∨ x = q.content ∨ x = s.world.heap.size := by
  let w0 := (s.arrived (.response r)).world
  let m : HttpObject Ref := (HttpObject.deliver (.response r) s.world.heap).1
  have hm : m.content = s.world.heap.size := HttpObject.content_deliver _ _
  have hsize : w0.heap.size = s.world.heap.size + 1 := HttpObject.size_deliver _ _
  have hold : ∀ x < s.world.heap.size, w0.heap.get x = s.world.heap.get x := fun x hx =>
    HttpObject.get_deliver_of_lt hx (.response r)
  have hvalue : q.map w0.heap.get = q.map s.world.heap.get := by
    simp only [HttpRequest.map, hold _ hq]
  obtain ⟨key, hkey, hsign⟩ := DefaultHttpSigner.sign_run cs q w0.heap
  rw [hvalue] at hkey
  obtain ⟨hkeyOf, hhex⟩ := DefaultHttpSigner.signature_eq cs (q.map s.world.heap.get)
  obtain rfl : key = DefaultHttpSigner.keyOf cs (q.map s.world.heap.get) :=
    Except.ok.inj (hkey.symm.trans hkeyOf)
  let h1 := ChannelBuffer.drain w0.heap q.content
  have hsign' : ((DefaultHttpSigner cs).sign (some (.request q))).run w0
      = .ok (DefaultHttpSigner.keyOf cs (q.map s.world.heap.get)) ⟨h1, s.world.hidden⟩ :=
    World.run_onHeap_of_ok hsign
  -- Signing drains the request and nothing the storage refers to.
  have hholds : R.Holds ⟨h1, s.world.hidden⟩ hist := by
    refine R.holds_of_heap hw ?_ fun x hx => ?_
    · rw [ChannelBuffer.size_drain, hsize]
      exact Nat.le_succ _
    · have hne : q.content ≠ x := fun heq => hkeep (heq ▸ hx)
      rw [ChannelBuffer.get_drain_ne hne, hold x (R.keeps_lt hw hx)]
  let bundle : RequestResponseBundle Ref := ⟨some (.request q), some m⟩
  have hmentions : ∀ x, bundle.Mentions x → x = q.content ∨ x = s.world.heap.size := by
    rintro x ⟨m', hm' | hm', rfl⟩
    · rw [← Option.some.inj hm']
      exact .inl rfl
    · rw [← Option.some.inj hm']
      exact .inr hm
  have hderef : bundle.deref h1
      = ⟨some (.request ((q.map s.world.heap.get).map ChannelBuffer.drained)),
          some (.response r)⟩ := deref_signed hq r
  have hlt : ∀ x, bundle.Mentions x → x < h1.size := by
    intro x hx
    rw [ChannelBuffer.size_drain, hsize]
    rcases hmentions x hx with rfl | rfl
    · exact Nat.lt_succ_of_lt hq
    · exact Nat.lt_succ_self _
  obtain ⟨hidden, hput, hholds', hhas, hkeeps⟩ := R.put hholds hhex hlt
  rw [hderef] at hholds'
  refine ⟨hidden, ?_, hholds', hhas, fun x hx => ?_⟩
  · unfold HttpRecordServerHandler.recording BaseRecordServerHandler.record
    rw [hreq, run_bind_of_ok hsign', run_bind_of_ok hput]
    exact after_logResponse bundle _
  · rcases hkeeps x hx with hx | hx
    · exact .inl hx
    · exact .inr (hmentions x hx)

/-- A connection waits for the response to a request: its handler has it, it is as it arrived, and
nobody else has a reference to it. -/
structure Waits (R : Refines S) (l : Link σ) (k : Nat) (q : HttpRequest ChannelBuffer)
    (r : HttpRequest Ref) : Prop where
  request : (l.conns k).request = some (.request r)
  value : r.map l.world.heap.get = q
  allocated : r.content < l.world.heap.size
  unkept : ¬ R.Keeps l.world.hidden r.content

/-- The state of an orderly run: the storage holds what was completed so far, and the requests that
wait are intact and all different. -/
structure Recording (R : Refines S) (pending : Pending) (l : Link σ) (hist : History) :
    Prop where
  holds : R.Holds l.world hist
  reading : ∀ k, (l.conns k).readingChunks = false
  relay : ∀ k, (l.conns k).relayReadingChunks = false
  waits : ∀ k q, pending k = some q → ∃ r, Waits R l k q r
  distinct : ∀ k k' q q' r r', k ≠ k' → pending k = some q → pending k' = some q' →
    Waits R l k q r → Waits R l k' q' r' → r.content ≠ r'.content

theorem recording_opened {R : Refines S} {w : World σ} (hw : R.Holds w hist) :
    Recording R idle (opened w) hist where
  holds := hw
  reading _ := rfl
  relay _ := rfl
  waits _ _ h := by cases h
  distinct _ _ _ _ _ _ _ h := by cases h

/-- The one request a connection waits with. -/
theorem Waits.unique {R : Refines S} {l : Link σ} {k : Nat} {q q' : HttpRequest ChannelBuffer}
    {r r' : HttpRequest Ref} (h : Waits R l k q r) (h' : Waits R l k q' r') : r = r' := by
  have := h.request.symm.trans h'.request
  exact HttpObject.request.inj (Option.some.inj this)

/-- A step of another connection leaves a waiting request alone, unless it touches its buffer. -/
theorem Waits.set {R : Refines S} {l : Link σ} {k : Nat} {q : HttpRequest ChannelBuffer}
    {r : HttpRequest Ref} (h : Waits R l k q r) {k' : Nat} (hk : k ≠ k') {s : Session σ}
    (hsize : l.world.heap.size ≤ s.world.heap.size)
    (hget : s.world.heap.get r.content = l.world.heap.get r.content)
    (hkeep : ¬ R.Keeps s.world.hidden r.content) : Waits R (l.set k' s) k q r where
  request := by
    rw [conns_set_ne l hk]
    exact h.request
  value := by
    rw [world_set, ← h.value]
    simp only [HttpRequest.map, hget]
  allocated := Nat.lt_of_lt_of_le h.allocated hsize
  unkept := hkeep

variable {R : Refines S} {pending : Pending} {l : Link σ}

/-- A step of connection `k` keeps the invariant, if it leaves the other requests that wait alone
and has a request of its own to wait with, unless it is done waiting. -/
theorem Recording.set (hl : Recording R pending l hist) {pending' : Pending} {hist' : History}
    {k : Nat} {s : Session σ} (hpending : ∀ k', k' ≠ k → pending' k' = pending k')
    (hholds : R.Holds s.world hist') (hread : s.conn.readingChunks = false)
    (hrelay : s.conn.relayReadingChunks = false)
    (hothers : ∀ k' q' r', k' ≠ k → pending k' = some q' → Waits R l k' q' r' →
      Waits R (l.set k s) k' q' r')
    (hself : ∀ q, pending' k = some q → ∃ r, Waits R (l.set k s) k q r ∧
      ∀ k' q' r', Waits R l k' q' r' → r.content ≠ r'.content) :
    Recording R pending' (l.set k s) hist' := by
  have hback : ∀ k' q', k' ≠ k → pending' k' = some q' →
      pending k' = some q' ∧ ∃ r', Waits R l k' q' r' ∧ Waits R (l.set k s) k' q' r' := by
    intro k' q' hk' h
    rw [hpending k' hk'] at h
    obtain ⟨r', hr'⟩ := hl.waits k' q' h
    exact ⟨h, r', hr', hothers k' q' r' hk' h hr'⟩
  refine ⟨hholds, fun k' => ?_, fun k' => ?_, fun k' q' h => ?_, ?_⟩
  · by_cases hk : k' = k
    · rw [hk, conns_set_self, hread]
    · rw [conns_set_ne l hk, hl.reading k']
  · by_cases hk : k' = k
    · rw [hk, conns_set_self, hrelay]
    · rw [conns_set_ne l hk, hl.relay k']
  · by_cases hk : k' = k
    · obtain ⟨r, hr, -⟩ := hself q' (hk ▸ h)
      exact ⟨r, hk ▸ hr⟩
    · obtain ⟨-, r', -, hr'⟩ := hback k' q' hk h
      exact ⟨r', hr'⟩
  · intro k1 k2 q1 q2 r1 r2 hne h1 h2 hw1 hw2
    by_cases hk1 : k1 = k
    · subst hk1
      obtain ⟨r, hr, hnew⟩ := hself q1 h1
      obtain ⟨-, r', hold, hr'⟩ := hback k2 q2 (Ne.symm hne) h2
      obtain rfl := hr.unique hw1
      obtain rfl := hr'.unique hw2
      exact hnew k2 q2 _ hold
    · obtain ⟨hp1, r1', hold1, hr1'⟩ := hback k1 q1 hk1 h1
      obtain rfl := hr1'.unique hw1
      by_cases hk2 : k2 = k
      · subst hk2
        obtain ⟨r, hr, hnew⟩ := hself q2 h2
        obtain rfl := hr.unique hw2
        exact Ne.symm (hnew k1 q1 _ hold1)
      · obtain ⟨hp2, r2', hold2, hr2'⟩ := hback k2 q2 hk2 h2
        obtain rfl := hr2'.unique hw2
        exact hl.distinct k1 k2 q1 q2 _ _ hne hp1 hp2 hold1 hold2

/-- **A request arrives** and waits. -/
theorem recording_request (hl : Recording R pending l hist) {k : Nat}
    {q : HttpRequest ChannelBuffer} (hq : q.chunked = false) (isWritable : Bool) :
    Recording R (Function.update pending k (some q))
      (l.step (HttpRecordServerHandler (DefaultHttpSigner cs) S)
        (k, .client (.request q) isWritable)) hist := by
  obtain ⟨s', hstep, hworld, hreq, hread, hrelay, -, -⟩ :=
    HttpRecordServerHandler.step_request (DefaultHttpSigner cs) S (s := l.session k) (hl.reading k)
      q isWritable
  let r : HttpRequest Ref := q.map fun _ => l.world.heap.size
  have hsize : s'.world.heap.size = l.world.heap.size + 1 := by
    rw [hworld]
    exact HttpObject.size_deliver _ _
  have hhidden : s'.world.hidden = l.world.hidden := by
    rw [hworld]
    rfl
  have hold : ∀ x < l.world.heap.size, s'.world.heap.get x = l.world.heap.get x := by
    intro x hx
    rw [hworld]
    exact HttpObject.get_deliver_of_lt hx (.request q)
  rw [Link.step, hstep]
  refine hl.set (fun k' hk' => Function.update_of_ne hk' _ _) ?_ (hread.trans hq)
    (hrelay.trans (hl.relay k)) (fun k' q' r' hk' _ h => ?_) fun q' h => ⟨r, ⟨?_, ?_, ?_, ?_⟩, ?_⟩
  · have hholds :=
      R.holds_of_heap hl.holds (h := s'.world.heap) (by rw [hsize]; exact Nat.le_succ _)
      fun x hx => hold x (R.keeps_lt hl.holds hx)
    rw [← hhidden] at hholds
    exact hholds
  · refine h.set hk' (by rw [hsize]; exact Nat.le_succ _) (hold _ h.allocated) ?_
    rw [hhidden]
    exact h.unkept
  · rw [conns_set_self]
    exact hreq
  · rw [Function.update_self, Option.some.injEq] at h
    rw [world_set, hworld, ← h]
    exact HttpObject.request.inj (HttpObject.deref_deliver (.request q) l.world.heap)
  · rw [world_set, hsize]
    exact Nat.lt_succ_self _
  · intro hkeep
    rw [world_set, hhidden] at hkeep
    exact Nat.lt_irrefl _ (R.keeps_lt hl.holds hkeep)
  · intro k' q' r' h'
    exact Ne.symm (Nat.ne_of_lt h'.allocated)

/-- **A response arrives** and completes an exchange; the storage has its key then. -/
theorem recording_response (hl : Recording R pending l hist) {k : Nat}
    {q : HttpRequest ChannelBuffer} (hq : pending k = some q) {r : HttpResponse ChannelBuffer}
    (hr : r.chunked = false) (isWritable : Bool) :
    let l' := l.step (HttpRecordServerHandler (DefaultHttpSigner cs) S)
      (k, .remote (.response r) isWritable)
    Recording R (Function.update pending k none) l' (hist ++ puts cs [(q, r)]) ∧
      R.Has l'.world.hidden (DefaultHttpSigner.keyOf cs q) := by
  obtain ⟨q0, hwaits⟩ := hl.waits k q hq
  obtain ⟨s', hstep, hworld, -, hread, hrelay, -, -⟩ :=
    HttpRecordServerHandler.step_response (DefaultHttpSigner cs) S (s := l.session k) (hl.relay k)
      hr isWritable
  have hvalue : q0.map (l.session k).world.heap.get = q := hwaits.value
  obtain ⟨hidden, hafter, hholds, hhas, hkeeps⟩ := after_recording R (s := l.session k)
    (q := q0) (r := r) hl.holds hwaits.request hwaits.allocated hwaits.unkept
  rw [hvalue] at hholds hhas
  rw [hafter] at hworld
  have hsize : s'.world.heap.size = l.world.heap.size + 1 := by
    rw [hworld, ChannelBuffer.size_drain]
    exact HttpObject.size_deliver _ _
  dsimp only
  rw [Link.step, hstep]
  refine ⟨hl.set (fun k' hk' => Function.update_of_ne hk' _ _) ?_ (hread.trans (hl.reading k))
    hrelay (fun k' q' r' hk' hp h => ?_) fun q' h => ?_, ?_⟩
  · rw [hworld]
    exact hholds
  · have hne : q0.content ≠ r'.content :=
      hl.distinct k k' q q' q0 r' (Ne.symm hk') hq hp hwaits h
    refine h.set hk' (by rw [hsize]; exact Nat.le_succ _) ?_ ?_
    · rw [hworld, ChannelBuffer.get_drain_ne hne]
      exact HttpObject.get_deliver_of_lt h.allocated (.response r)
    · intro hkeep
      rw [hworld] at hkeep
      rcases hkeeps _ hkeep with hkeep | hkeep | hkeep
      · exact h.unkept hkeep
      · exact hne hkeep.symm
      · exact absurd h.allocated (hkeep ▸ Nat.lt_irrefl _)
  · rw [Function.update_self] at h
    cases h
  · rw [world_set, hworld]
    exact hhas

/-- The exchange a response completes is put last. -/
theorem puts_exchanges_response (cs : Charset) {k : Nat} {q : HttpRequest ChannelBuffer}
    (hq : pending k = some q) (r : HttpResponse ChannelBuffer) (b : Bool)
    (es : List (Nat × Event)) :
    puts cs (exchanges pending ((k, .remote (.response r) b) :: es))
      = puts cs [(q, r)] ++ puts cs (exchanges (Function.update pending k none) es) := by
  rw [exchanges, hq]
  rfl

/-- **An orderly run** in RECORD mode: the storage holds the exchanges, in their order. -/
theorem run_recording (es : List (Nat × Event)) :
    ∀ {pending : Pending} {l : Link σ} {hist : History}, Recording R pending l hist →
    Orderly pending es →
    R.Holds (run (HttpRecordServerHandler (DefaultHttpSigner cs) S) es l).world
      (hist ++ puts cs (exchanges pending es)) := by
  induction es with
  | nil =>
    intro pending l hist hl _
    rw [exchanges, puts, List.map_nil, List.append_nil]
    exact hl.holds
  | cons e es ih =>
    intro pending l hist hl ho
    obtain ⟨k, e⟩ := e
    rcases e with ⟨q | r | c, b⟩ | ⟨q | r | c, b⟩
    · exact ih (recording_request hl ho.2.1 b) ho.2.2
    · exact ho.elim
    · exact ho.elim
    · exact ho.elim
    · obtain ⟨q, hq⟩ := Option.ne_none_iff_exists'.mp ho.1
      rw [puts_exchanges_response cs hq, ← List.append_assoc]
      exact ih (recording_response hl hq ho.2.1 b).1 ho.2.2.2
    · exact ho.elim

/-- **What is never lost is there**: when no event takes a key away, the storage has the key of
every exchange. -/
theorem has_of_run_recording (es : List (Nat × Event)) :
    ∀ {pending : Pending} {l : Link σ} {hist : History}, Recording R pending l hist →
    Orderly pending es → (∀ p ∈ hist, R.Has l.world.hidden p.1) →
    Meets (fun e l => l.step (HttpRecordServerHandler (DefaultHttpSigner cs) S) e)
      (fun e l => ∀ key, R.Has l.world.hidden key →
        R.Has (l.step (HttpRecordServerHandler (DefaultHttpSigner cs) S) e).world.hidden key) es l →
    ∀ p ∈ hist ++ puts cs (exchanges pending es),
      R.Has (run (HttpRecordServerHandler (DefaultHttpSigner cs) S) es l).world.hidden p.1 := by
  induction es with
  | nil =>
    intro pending l hist _ _ hhist _ p hp
    rw [exchanges, puts, List.map_nil, List.append_nil] at hp
    exact hhist p hp
  | cons e es ih =>
    intro pending l hist hl ho hhist hkept p hp
    have hold := fun p hp => hkept.1 _ (hhist p hp)
    obtain ⟨k, e⟩ := e
    rcases e with ⟨q | r | c, b⟩ | ⟨q | r | c, b⟩
    · exact ih (recording_request hl ho.2.1 b) ho.2.2 hold hkept.2 p hp
    · exact ho.elim
    · exact ho.elim
    · exact ho.elim
    · obtain ⟨q, hq⟩ := Option.ne_none_iff_exists'.mp ho.1
      obtain ⟨hl', hhas⟩ := @recording_response σ cs S hist R pending l hl k q hq r ho.2.1 b
      rw [puts_exchanges_response cs hq, ← List.append_assoc] at hp
      refine ih hl' ho.2.2.2 (fun p hp => ?_) hkept.2 p hp
      rcases List.mem_append.mp hp with hp | hp
      · exact hold p hp
      · rw [List.mem_singleton.mp hp]
        exact hhas
    · exact ho.elim

end Link

end Terminator.Server
