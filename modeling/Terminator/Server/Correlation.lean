import Terminator.Server.Record

/-!
# Which request a recorded response belongs to

In RECORD mode the handler keeps one request, the one received last, and pairs every response of
the remote server with it (`BaseRecordServerHandler.onRelayResponse`). The remote server answers
the requests of a connection in their order, each with one final response and any number of
interim ones before it; the client may have several requests outstanding.

`Traffic` is that correspondence, kept beside a run by an observer who sees the channels only.
`spied` is a storage that notes the bundles it is handed. **`correlated_iff`** compares the two.
-/

namespace Terminator.Server

open Terminator.Java Terminator.Netty Terminator.Storage Terminator.Plugin

variable {σ τ : Type}

/-! ## The observer -/

/-- The requests without a final response, oldest first, and the ones with it. -/
structure Traffic where
  outstanding : List (HttpObject Ref)
  exchanges : List (HttpObject Ref × HttpObject Ref)

/-- What an event adds, the session before it telling which objects are delivered. -/
def Traffic.step (s : Session σ) (t : Traffic) : Event → Traffic
  | .client (.request q) _ =>
    { t with outstanding := t.outstanding ++ [(HttpObject.deliver (.request q) s.world.heap).1] }
  | .remote (.response r) _ =>
    match r.interim, t.outstanding with
    | false, q :: qs =>
      ⟨qs, t.exchanges ++ [(q, (HttpObject.deliver (.response r) s.world.heap).1)]⟩
    | _, _ => t
  | _ => t

/-- The remote server sends whole responses, in the order of the requests: with `n` requests
outstanding it may answer if there is one, and a final response completes one. -/
def AnswersInOrder : Nat → List Event → Prop
  | _, [] => True
  | n, .client (.request _) _ :: es => AnswersInOrder (n + 1) es
  | n, .client _ _ :: es => AnswersInOrder n es
  | n, .remote (.response r) _ :: es =>
    r.chunked = false ∧ 0 < n ∧ AnswersInOrder (if r.interim then n else n - 1) es
  | _, .remote _ _ :: _ => False

/-! ## The spied storage -/

/-- A signer that does not see what the spy notes. -/
def blind (signer : Signer σ) : Signer (σ × τ) where
  sign request := World.component Prod.fst (fun t h => (t, h.2)) (signer.sign request)
  logResponse bundle := World.component Prod.fst (fun t h => (t, h.2)) (signer.logResponse bundle)
  sign_preserves request := World.preserves_component (signer.sign_preserves request)
  logResponse_preserves bundle := World.preserves_component (signer.logResponse_preserves bundle)

/-- A storage together with a list of the bundles it is handed. -/
def spied (storage : RecordStorage σ) :
    RecordStorage (σ × List (RequestResponseBundle Ref)) where
  putRecordData key bundle := do
    modify fun w => { w with hidden := (w.hidden.1, w.hidden.2 ++ [bundle]) }
    World.component Prod.fst (fun t h => (t, h.2)) (storage.putRecordData key bundle)
  getRecordData key := World.component Prod.fst (fun t h => (t, h.2)) (storage.getRecordData key)
  put_preserves key bundle :=
    World.preserves_bind (fun _ => ⟨Nat.le_refl _, fun _ _ _ => rfl⟩) fun _ =>
      World.preserves_component (storage.put_preserves key bundle)
  get_preserves key := World.preserves_component (storage.get_preserves key)

namespace Correlation

variable (signer : Signer σ) (storage : RecordStorage σ)

/-- The handler of RECORD mode over the spied storage. -/
def handler : HttpServerHandler (σ × List (RequestResponseBundle Ref)) :=
  HttpRecordServerHandler (blind signer) (spied storage)

/-- The session a connection starts with, and nothing noted yet. -/
def start (w : World σ) : Session (σ × List (RequestResponseBundle Ref)) :=
  ⟨⟨w.heap, (w.hidden, [])⟩, .opened⟩

/-- The traffic beside a run. -/
def observe : List Event → Session (σ × List (RequestResponseBundle Ref)) → Traffic → Traffic
  | [], _, t => t
  | e :: es, s, t => observe es ((handler signer storage).step e s) (t.step s e)

/-- What the storage was handed are the exchanges: nothing else, and none of them is missing. -/
def Correlated (handed : List (RequestResponseBundle Ref)) (t : Traffic) : Prop :=
  (∀ b ∈ handed, ∃ e ∈ t.exchanges, b = ⟨some e.1, some e.2⟩) ∧
    ∀ e ∈ t.exchanges, (⟨some e.1, some e.2⟩ : RequestResponseBundle Ref) ∈ handed

/-- Signing the handler's request returns when `m` arrives. -/
def Signs (m : HttpObject ChannelBuffer)
    (s : Session (σ × List (RequestResponseBundle Ref))) : Prop :=
  Returned ((signer.sign s.conn.request).run ⟨(s.arrived m).world.heap, s.world.hidden.1⟩)

instance (m : HttpObject ChannelBuffer) (s : Session (σ × List (RequestResponseBundle Ref))) :
    Decidable (Signs signer m s) :=
  inferInstanceAs (Decidable (Returned _))

/-- The response is recorded as it should be: a final one arrives when exactly one request is
outstanding and signing it returns, an interim one is kept out because signing throws. -/
def Paired (s : Session (σ × List (RequestResponseBundle Ref))) (t : Traffic) : Event → Prop
  | .remote (.response r) _ =>
    if r.interim then ¬ Signs signer (.response r) s
    else t.outstanding.length = 1 ∧ Signs signer (.response r) s
  | _ => True

/-- In the run of the events, each response is recorded as it should be. -/
def AllPaired : List Event → Session (σ × List (RequestResponseBundle Ref)) → Traffic → Prop
  | [], _, _ => True
  | e :: es, s, t =>
    Paired signer s t e ∧ AllPaired es ((handler signer storage).step e s) (t.step s e)

/-! ## Invariant -/

/-- The handler's request is the youngest one outstanding, and objects are told apart by their
buffers: those seen so far are allocated, and the outstanding requests are all different. -/
structure Invariant (s : Session (σ × List (RequestResponseBundle Ref))) (t : Traffic) : Prop where
  ready : HttpRecordServerHandler.Ready s
  youngest : ∀ m, t.outstanding.getLast? = some m → s.conn.request = some m
  increasing : t.outstanding.Pairwise fun a b => a.content < b.content
  outstanding_lt : ∀ q ∈ t.outstanding, q.content < s.world.heap.size
  exchanges_lt : ∀ e ∈ t.exchanges, e.2.content < s.world.heap.size
  handed_lt : ∀ b ∈ s.world.hidden.2, ∀ m, b.response = some m → m.content < s.world.heap.size

theorem invariant_start (w : World σ) : Invariant (start w) ⟨[], []⟩ where
  ready := ⟨rfl, fun _ h => by cases h⟩
  youngest _ h := by cases h
  increasing := .nil
  outstanding_lt _ h := absurd h List.not_mem_nil
  exchanges_lt _ h := absurd h List.not_mem_nil
  handed_lt _ h := absurd h List.not_mem_nil

/-- **What a response adds to the notes**: the handler's request with it, if signing returned. -/
theorem handed_after_recording (m : HttpObject ChannelBuffer)
    (s : Session (σ × List (RequestResponseBundle Ref))) :
    (after (HttpRecordServerHandler.recording (blind signer) (spied storage) m s)).hidden.2
      = s.world.hidden.2 ++ (if Signs signer m s then
          [(⟨s.conn.request, some (m.deliver s.world.heap).1⟩ : RequestResponseBundle Ref)]
          else []) := by
  unfold HttpRecordServerHandler.recording BaseRecordServerHandler.record
  cases hsign : (signer.sign s.conn.request).run ⟨(s.arrived m).world.heap, s.world.hidden.1⟩ with
  | error e t =>
    have hrun : ((blind signer).sign s.conn.request).run (s.arrived m).world
        = .error e ⟨t.heap, (t.hidden, s.world.hidden.2)⟩ := run_zoom_of_error hsign
    have hnot : ¬ Signs signer m s := by
      rw [Signs, hsign]
      exact not_returned_error e t
    rw [if_neg hnot, List.append_nil, run_bind_of_error hrun]
    rfl
  | ok key t =>
    have hrun : ((blind signer).sign s.conn.request).run (s.arrived m).world
        = .ok key ⟨t.heap, (t.hidden, s.world.hidden.2)⟩ := run_zoom_of_ok hsign
    have hsigns : Signs signer m s := by
      rw [Signs, hsign]
      exact returned_ok key t
    rw [if_pos hsigns, run_bind_of_ok hrun]
    -- Once the bundle is noted, neither storing nor logging it changes the notes.
    let bundle : RequestResponseBundle Ref := ⟨s.conn.request, some (m.deliver s.world.heap).1⟩
    have hrest : Keeps (fun w : World (σ × List (RequestResponseBundle Ref)) => w.hidden.2)
        (World.component Prod.fst (fun t h => (t, h.2)) (storage.putRecordData key bundle) >>=
          fun _ => (blind signer).logResponse bundle) :=
      keeps_bind (World.keeps_component_fst _) fun _ => World.keeps_component_fst _
    exact hrest ⟨t.heap, (t.hidden, s.world.hidden.2 ++ [bundle])⟩

/-! ## The notes and the exchanges -/

section Fresh

variable {handed : List (RequestResponseBundle Ref)} {t : Traffic} {m : HttpObject Ref} {n : Nat}

/-- No exchange has a response the storage is handed for the first time. -/
theorem not_correlated_of_extra (ht : ∀ e ∈ t.exchanges, e.2.content < n) (hm : m.content = n)
    (request : Option (HttpObject Ref)) :
    ¬ Correlated (handed ++ [⟨request, some m⟩]) t := by
  intro h
  obtain ⟨e, he, heq⟩ := h.1 ⟨request, some m⟩ (List.mem_append_right _ List.mem_cons_self)
  obtain ⟨-, hresp⟩ := RequestResponseBundle.mk.inj heq
  have hlt := ht e he
  rw [← Option.some.inj hresp, hm] at hlt
  exact Nat.lt_irrefl _ hlt

/-- An exchange that was just completed is not among the notes. -/
theorem not_correlated_of_missing
    (hh : ∀ b ∈ handed, ∀ r, b.response = some r → r.content < n) (hm : m.content = n)
    (q : HttpObject Ref) (qs : List (HttpObject Ref)) :
    ¬ Correlated handed ⟨qs, t.exchanges ++ [(q, m)]⟩ := by
  intro h
  have hmem := h.2 (q, m) (List.mem_append_right _ List.mem_cons_self)
  have hlt := hh _ hmem m rfl
  rw [hm] at hlt
  exact Nat.lt_irrefl _ hlt

/-- Noting a bundle while an exchange is completed keeps the two lists together exactly when the
bundle is the exchange. -/
theorem correlated_concat_iff (ht : ∀ e ∈ t.exchanges, e.2.content < n)
    (hh : ∀ b ∈ handed, ∀ r, b.response = some r → r.content < n) (hm : m.content = n)
    (request : Option (HttpObject Ref)) (q : HttpObject Ref) (qs : List (HttpObject Ref)) :
    Correlated (handed ++ [⟨request, some m⟩]) ⟨qs, t.exchanges ++ [(q, m)]⟩ ↔
      Correlated handed t ∧ request = some q := by
  constructor
  · intro h
    refine ⟨⟨fun b hb => ?_, fun e he => ?_⟩, ?_⟩
    · obtain ⟨e, he, rfl⟩ := h.1 b (List.mem_append_left _ hb)
      rcases List.mem_append.mp he with he | he
      · exact ⟨e, he, rfl⟩
      · rw [List.mem_singleton.mp he] at hb
        exact absurd (hm ▸ hh _ hb m rfl) (Nat.lt_irrefl _)
    · rcases List.mem_append.mp (h.2 e (List.mem_append_left _ he)) with hb | hb
      · exact hb
      · have hresp := (RequestResponseBundle.mk.inj (List.mem_singleton.mp hb)).2
        have hlt := ht e he
        rw [Option.some.inj hresp, hm] at hlt
        exact absurd hlt (Nat.lt_irrefl _)
    · rcases List.mem_append.mp (h.2 (q, m) (List.mem_append_right _ List.mem_cons_self))
        with hb | hb
      · exact absurd (hm ▸ hh _ hb m rfl) (Nat.lt_irrefl _)
      · exact (RequestResponseBundle.mk.inj (List.mem_singleton.mp hb)).1.symm
  · rintro ⟨h, rfl⟩
    refine ⟨fun b hb => ?_, fun e he => ?_⟩
    · rcases List.mem_append.mp hb with hb | hb
      · obtain ⟨e, he, rfl⟩ := h.1 b hb
        exact ⟨e, List.mem_append_left _ he, rfl⟩
      · exact ⟨(q, m), List.mem_append_right _ List.mem_cons_self, List.mem_singleton.mp hb⟩
    · rcases List.mem_append.mp he with he | he
      · exact List.mem_append_left _ (h.2 e he)
      · rw [List.mem_singleton.mp he]
        exact List.mem_append_right _ List.mem_cons_self

end Fresh

/-! ## Steps -/

section Steps

variable {s : Session (σ × List (RequestResponseBundle Ref))} {t : Traffic}

/-- The handler's request is the oldest one outstanding exactly when it is the only one. -/
theorem request_eq_oldest_iff (hi : Invariant s t) {q : HttpObject Ref}
    {qs : List (HttpObject Ref)} (ht : t.outstanding = q :: qs) :
    s.conn.request = some q ↔ t.outstanding.length = 1 := by
  have hinc := hi.increasing
  have hyoung := hi.youngest
  rw [ht] at hinc hyoung ⊢
  cases qs with
  | nil => exact ⟨fun _ => rfl, fun _ => hyoung q rfl⟩
  | cons q' qs =>
    have hreq := hyoung _ (List.getLast?_eq_some_getLast (List.cons_ne_nil q (q' :: qs)))
    refine ⟨fun heq => ?_, fun h => by simp at h⟩
    -- The youngest request is younger than `q`.
    rw [hreq, Option.some.injEq, List.getLast_cons (List.cons_ne_nil q' qs)] at heq
    have hlt := (List.pairwise_cons.mp hinc).1 _ (List.getLast_mem (List.cons_ne_nil q' qs))
    rw [heq] at hlt
    exact absurd hlt (Nat.lt_irrefl _)

/-- The invariant survives the delivery of an object nobody refers to yet. -/
theorem Invariant.of_world {s' : Session (σ × List (RequestResponseBundle Ref))}
    (hi : Invariant s t) (hconn : s'.conn.request = s.conn.request)
    (hrelay : s'.conn.relayReadingChunks = false)
    (hsize : s.world.heap.size ≤ s'.world.heap.size)
    (hnotes : s'.world.hidden.2 = s.world.hidden.2) : Invariant s' t where
  ready := ⟨hrelay, fun m hm => Nat.lt_of_lt_of_le (hi.ready.request m (hconn ▸ hm)) hsize⟩
  youngest m hm := hconn.trans (hi.youngest m hm)
  increasing := hi.increasing
  outstanding_lt q hq := Nat.lt_of_lt_of_le (hi.outstanding_lt q hq) hsize
  exchanges_lt e he := Nat.lt_of_lt_of_le (hi.exchanges_lt e he) hsize
  handed_lt b hb m hm := Nat.lt_of_lt_of_le (hi.handed_lt b (hnotes ▸ hb) m hm) hsize

/-- **A request** is the youngest one outstanding from now on. -/
theorem step_request (hi : Invariant s t) (hs : s.conn.readingChunks = false)
    (q : HttpRequest ChannelBuffer) (isWritable : Bool) :
    ∃ s', (handler signer storage).step (.client (.request q) isWritable) s = s' ∧
      Invariant s' (t.step s (.client (.request q) isWritable)) ∧
      s'.conn.readingChunks = q.chunked ∧ s'.world.hidden.2 = s.world.hidden.2 := by
  obtain ⟨s', hstep, hworld, hreq, hread, hrelay, -, -⟩ :=
    HttpRecordServerHandler.step_request (blind signer) (spied storage) hs q isWritable
  have hsize : s'.world.heap.size = s.world.heap.size + 1 := by
    rw [hworld]
    exact HttpObject.size_deliver _ _
  have hnew : (HttpObject.deliver (.request q) s.world.heap).1.content = s.world.heap.size :=
    HttpObject.content_deliver _ _
  refine ⟨s', hstep, ?_, hread, congrArg (fun w => w.hidden.2) hworld⟩
  refine ⟨⟨hrelay.trans hi.ready.relay, fun m hm => ?_⟩, fun m hm => ?_, ?_, fun q' hq' => ?_,
    fun e he => Nat.lt_trans (hi.exchanges_lt e he) (by omega), fun b hb m hm => ?_⟩
  · rw [hreq, Option.some.injEq] at hm
    rw [← hm, hnew, hsize]
    exact Nat.lt_succ_self _
  · rw [Traffic.step, List.getLast?_concat] at hm
    exact hreq.trans hm
  · refine List.pairwise_append.mpr
      ⟨hi.increasing, List.pairwise_singleton _ _, fun a ha b hb => ?_⟩
    rw [List.mem_singleton.mp hb, hnew]
    exact hi.outstanding_lt a ha
  · rcases List.mem_append.mp hq' with hq' | hq'
    · exact Nat.lt_trans (hi.outstanding_lt q' hq') (by omega)
    · rw [List.mem_singleton.mp hq', hnew, hsize]
      exact Nat.lt_succ_self _
  · rw [hworld] at hb
    exact Nat.lt_trans (hi.handed_lt b hb m hm) (by omega)

/-- The response of what is noted has been delivered. -/
theorem Invariant.handed_lt_response (hi : Invariant s t) (m : HttpObject ChannelBuffer) {n : Nat}
    (hn : s.world.heap.size < n) :
    ∀ b ∈ s.world.hidden.2 ++ (if Signs signer m s then
        [(⟨s.conn.request, some (m.deliver s.world.heap).1⟩ : RequestResponseBundle Ref)] else []),
      ∀ x, b.response = some x → x.content < n := by
  intro b hb x hx
  rcases List.mem_append.mp hb with hb | hb
  · exact Nat.lt_trans (hi.handed_lt b hb x hx) hn
  · split at hb
    · rw [List.mem_singleton.mp hb, Option.some.injEq] at hx
      rw [← hx, HttpObject.content_deliver]
      exact hn
    · exact absurd hb List.not_mem_nil

/-- A response that completes no exchange must not be noted. -/
theorem correlated_interim_iff (hi : Invariant s t) (m : HttpObject ChannelBuffer) :
    Correlated (s.world.hidden.2 ++ (if Signs signer m s then
        [(⟨s.conn.request, some (m.deliver s.world.heap).1⟩ : RequestResponseBundle Ref)] else []))
        t ↔
      Correlated s.world.hidden.2 t ∧ ¬ Signs signer m s := by
  by_cases hsigns : Signs signer m s
  · rw [if_pos hsigns]
    have hm : (m.deliver s.world.heap).1.content = s.world.heap.size :=
      HttpObject.content_deliver _ _
    exact ⟨fun h => absurd h (not_correlated_of_extra hi.exchanges_lt hm _),
      fun h => absurd hsigns h.2⟩
  · rw [if_neg hsigns, List.append_nil]
    exact (and_iff_left hsigns).symm

/-- A response that completes an exchange must be noted, with the only request outstanding. -/
theorem correlated_final_iff (hi : Invariant s t) (m : HttpObject ChannelBuffer)
    {q : HttpObject Ref} {qs : List (HttpObject Ref)} (hqs : t.outstanding = q :: qs) :
    Correlated (s.world.hidden.2 ++ (if Signs signer m s then
        [(⟨s.conn.request, some (m.deliver s.world.heap).1⟩ : RequestResponseBundle Ref)] else []))
        ⟨qs, t.exchanges ++ [(q, (m.deliver s.world.heap).1)]⟩ ↔
      Correlated s.world.hidden.2 t ∧ t.outstanding.length = 1 ∧ Signs signer m s := by
  have hm : (m.deliver s.world.heap).1.content = s.world.heap.size := HttpObject.content_deliver _ _
  by_cases hsigns : Signs signer m s
  · rw [if_pos hsigns, correlated_concat_iff hi.exchanges_lt hi.handed_lt hm,
      request_eq_oldest_iff hi hqs]
    exact and_congr_right fun _ => (and_iff_left hsigns).symm
  · rw [if_neg hsigns, List.append_nil]
    exact ⟨fun h => absurd h (not_correlated_of_missing hi.handed_lt hm q qs),
      fun h => absurd h.2.2 hsigns⟩

/-- **A response** keeps the invariant, and keeps the notes together with the exchanges exactly
when it is recorded as it should be. -/
theorem step_response (hi : Invariant s t) {r : HttpResponse ChannelBuffer}
    (hr : r.chunked = false) (ht : 0 < t.outstanding.length) (isWritable : Bool) :
    ∃ s', (handler signer storage).step (.remote (.response r) isWritable) s = s' ∧
      Invariant s' (t.step s (.remote (.response r) isWritable)) ∧
      s'.conn.readingChunks = s.conn.readingChunks ∧
      (t.step s (.remote (.response r) isWritable)).outstanding.length
        = (if r.interim then t.outstanding.length else t.outstanding.length - 1) ∧
      (Correlated s'.world.hidden.2 (t.step s (.remote (.response r) isWritable)) ↔
        Correlated s.world.hidden.2 t ∧ Paired signer s t (.remote (.response r) isWritable)) := by
  obtain ⟨s', hstep, hworld, hreq, hread, hrelay, -, -⟩ :=
    HttpRecordServerHandler.step_response (blind signer) (spied storage) hi.ready.relay hr
      isWritable
  obtain ⟨-, hsize⟩ := HttpRecordServerHandler.wire_after_recording hi.ready hworld
  have hnotes := (congrArg (fun w => w.hidden.2) hworld).trans
    (handed_after_recording signer storage (.response r) s)
  have hhanded : ∀ b ∈ s'.world.hidden.2, ∀ x, b.response = some x →
      x.content < s'.world.heap.size := by
    rw [hnotes]
    exact hi.handed_lt_response signer (.response r) hsize
  have hready : HttpRecordServerHandler.Ready s' :=
    ⟨hrelay, fun x hx => Nat.lt_trans (hi.ready.request x (hreq ▸ hx)) hsize⟩
  obtain ⟨q, qs, hqs⟩ := List.exists_cons_of_length_pos ht
  refine ⟨s', hstep, ?_⟩
  cases hint : r.interim with
  | true =>
    have htraffic : t.step s (.remote (.response r) isWritable) = t := by
      simp only [Traffic.step, hint]
    rw [htraffic]
    refine ⟨⟨hready, fun x hx => hreq.trans (hi.youngest x hx), hi.increasing,
      fun x hx => Nat.lt_trans (hi.outstanding_lt x hx) hsize,
      fun e he => Nat.lt_trans (hi.exchanges_lt e he) hsize, hhanded⟩, hread, rfl, ?_⟩
    simp only [Paired, hint, if_true]
    rw [hnotes]
    exact correlated_interim_iff signer hi (.response r)
  | false =>
    have htraffic : t.step s (.remote (.response r) isWritable)
        = ⟨qs, t.exchanges ++ [(q, (HttpObject.deliver (.response r) s.world.heap).1)]⟩ := by
      simp only [Traffic.step, hint, hqs]
    have hinc := hi.increasing
    have hlt := hi.outstanding_lt
    rw [hqs] at hinc hlt
    rw [htraffic]
    refine ⟨⟨hready, fun x hx => hreq.trans (hi.youngest x ?_), hinc.of_cons,
      fun x hx => Nat.lt_trans (hlt x (List.mem_cons_of_mem _ hx)) hsize, fun e he => ?_, hhanded⟩,
      hread, by simp [hqs], ?_⟩
    · rw [hqs, List.getLast?_cons, hx]
      rfl
    · rcases List.mem_append.mp he with he | he
      · exact Nat.lt_trans (hi.exchanges_lt e he) hsize
      · rw [List.mem_singleton.mp he, HttpObject.content_deliver]
        exact hsize
    · simp only [Paired, hint, Bool.false_eq_true, if_false]
      rw [hnotes]
      exact correlated_final_iff signer hi (.response r) hqs

end Steps

/-! ## Runs -/

/-- The run form of the step lemmas. -/
theorem run_correlated_iff (es : List Event) :
    ∀ {b : Bool} {s : Session (σ × List (RequestResponseBundle Ref))} {t : Traffic},
    Invariant s t → s.conn.readingChunks = b → DecoderEmits b (clientMessages es) →
    AnswersInOrder t.outstanding.length es →
    (Correlated ((handler signer storage).run es s).world.hidden.2 (observe signer storage es s t) ↔
      Correlated s.world.hidden.2 t ∧ AllPaired signer storage es s t) := by
  induction es with
  | nil =>
    intro b s t _ _ _ _
    exact (and_iff_left trivial).symm
  | cons e es ih =>
    intro b s t hi hb hes hans
    rw [HttpServerHandler.run, observe, AllPaired]
    cases e with
    | remote m w =>
      cases m with
      | request q => exact hans.elim
      | chunk c => exact hans.elim
      | response r =>
        obtain ⟨s', hstep, hi', hread, hlen, hiff⟩ :=
          step_response signer storage hi hans.1 hans.2.1 w
        rw [hstep, ih hi' (hread.trans hb) hes (hlen ▸ hans.2.2), hiff, and_assoc]
    | client m w =>
      cases b with
      | false =>
        cases m with
        | response r => exact hes.elim
        | chunk c => exact hes.elim
        | request q =>
          obtain ⟨s', hstep, hi', hread, hnotes⟩ := step_request signer storage hi hb q w
          have hlen : (t.step s (.client (.request q) w)).outstanding.length
              = t.outstanding.length + 1 := by simp [Traffic.step]
          rw [hstep, ih hi' hread hes (hlen ▸ hans), hnotes]
          exact and_congr_right fun _ => (and_iff_right trivial).symm
      | true =>
        cases m with
        | response r => exact hes.elim
        | request q => exact hes.elim
        | chunk c =>
          obtain ⟨s', hstep, hworld, hreq, hread, hrelay, -, -⟩ :=
            HttpRecordServerHandler.step_chunk (blind signer) (spied storage) hb c w
          have hnotes : s'.world.hidden.2 = s.world.hidden.2 :=
            congrArg (fun w => w.hidden.2) hworld
          have hsize : s.world.heap.size ≤ s'.world.heap.size := by
            rw [hworld]
            exact Nat.le_of_lt (HttpObject.size_lt_size_deliver _ _)
          have hi' : Invariant s' t := hi.of_world hreq (hrelay.trans hi.ready.relay) hsize hnotes
          have hstep' : (handler signer storage).step (.client (.chunk c) w) s = s' := hstep
          rw [hstep']
          have hsame : t.step s (.client (.chunk c) w) = t := rfl
          rw [hsame, ih hi' hread hes hans, hnotes]
          exact and_congr_right fun _ => (and_iff_right trivial).symm

/-- **Correlation while recording**: the bundles a connection hands to the storage are its
exchanges exactly when each final response arrives while its request is the only one outstanding
and can be signed, and no interim response is recorded. With a second request outstanding the
handler's `request` field is not the one that is answered. -/
theorem correlated_iff (w : World σ) {es : List Event}
    (hes : DecoderEmits false (clientMessages es)) (hans : AnswersInOrder 0 es) :
    Correlated ((handler signer storage).run es (start w)).world.hidden.2
        (observe signer storage es (start w) ⟨[], []⟩) ↔
      AllPaired signer storage es (start w) ⟨[], []⟩ := by
  rw [run_correlated_iff signer storage es (invariant_start w) rfl hes hans]
  refine and_iff_right ⟨fun b hb => ?_, fun e he => ?_⟩
  · exact absurd hb List.not_mem_nil
  · exact absurd he List.not_mem_nil

/-- `GET uri`, and the remote server's `200 OK`. -/
def get (uri : String) : Event := .client (.request (.get uri)) true

def answer : Event := .remote (.response (.ok .EMPTY_BUFFER)) true

theorem single_exchange_correlated :
    Correlated ((handler (DefaultHttpSigner utf8) (CacheStorage.recordStorage .newest)).run
        [get "/a", answer] (start CacheStorage.emptyWorld)).world.hidden.2
      (observe (DefaultHttpSigner utf8) (CacheStorage.recordStorage .newest) [get "/a", answer]
        (start CacheStorage.emptyWorld) ⟨[], []⟩) :=
  have hes : DecoderEmits false (clientMessages [get "/a", answer]) := trivial
  have hans : AnswersInOrder 0 [get "/a", answer] := ⟨rfl, by decide, trivial⟩
  (correlated_iff (DefaultHttpSigner utf8) (CacheStorage.recordStorage .newest)
    CacheStorage.emptyWorld hes hans).mpr ⟨trivial, ⟨rfl, by decide +kernel⟩, trivial⟩

/-- Two requests in a row, and the answer to the first: it is recorded with the second. -/
theorem pipelined_not_correlated :
    DecoderEmits false (clientMessages [get "/a", get "/b", answer]) ∧
    AnswersInOrder 0 [get "/a", get "/b", answer] ∧
    ¬ Correlated ((handler (DefaultHttpSigner utf8) (CacheStorage.recordStorage .newest)).run
        [get "/a", get "/b", answer] (start CacheStorage.emptyWorld)).world.hidden.2
      (observe (DefaultHttpSigner utf8) (CacheStorage.recordStorage .newest)
        [get "/a", get "/b", answer] (start CacheStorage.emptyWorld) ⟨[], []⟩) := by
  refine ⟨trivial, ⟨rfl, by decide, trivial⟩, ?_⟩
  unfold Correlated
  decide +kernel

end Correlation

end Terminator.Server
