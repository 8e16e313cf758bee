import Terminator.Server.TunnelConnection

/-!
# How a tunnelled connection ends

The closes of the two channels of a connection.

* **`always_complete`**: a peer that ends its stream has everything it sent delivered before the
  other channel is closed for it, unless an exception was caught on an open channel.
* **`always_followed_iff`**: the close of one channel is followed by the close of the other exactly
  as long as no connect succeeds after the handler of the client's channel was told of its close.
  That call found the remote channel unconnected, so `closeOnFlush` did nothing, and nobody closes
  the remote channel any more.

Both properties relate a channel to the other one, in both directions (`Both`).
-/

namespace Terminator.Server.TunnelConnection

open Terminator.Java Terminator.Run
open Terminator.Server.BackPressure (Side)

/-! ## What should hold -/

/-- A peer that ended its stream has had everything it sent delivered, once the other channel is
closed for it. -/
def Complete (s : Connection) : Prop :=
  ∀ side : Side, (s.channel side).cause = some .ended →
    (s.channel side.other).cause = some .flushed →
    (s.channel side.other).delivered = (s.channel side).sent

/-- When a channel is closed, and its handler has been told, the other channel is closed, or has the
close queued, or was never connected. -/
def Followed (s : Connection) : Prop :=
  ∀ side : Side, (s.channel side).status = .closed → (s.channel side).notice = false →
    (s.channel side.other).status = .connected → Write.close ∈ (s.channel side.other).outgoing

/-- No exception is caught on a channel that is open. -/
def Undisturbed : Event → Connection → Prop
  | .exceptionCaught side, s => (s.channel side).status ≠ .connected
  | _, _ => True

/-- No connect succeeds after the handler of the client's channel was told of its close. -/
def InTime : Event → Connection → Prop
  | .connect true, s => (s.channel .outbound).status = .connecting →
      ¬ ((s.channel .inbound).status = .closed ∧ (s.channel .inbound).notice = false)
  | _, _ => True

/-! ## The end of a stream -/

/-- What holds of a channel `a` and the channel `b` its data goes to, as long as no exception is
caught: `closeOnFlush` is called of `b` after the close of `a`, behind all the data of `a`. -/
structure Orderly (a b : Channel) : Prop where
  cause : a.cause = none ↔ a.status ≠ .closed
  notice : a.notice = true → a.status = .closed
  ended : a.cause = some .ended → a.ended = true ∧ a.incoming = []
  marked : Write.close ∈ b.outgoing → a.status = .closed
  last : ∀ pre post, b.outgoing = pre ++ .close :: post → queued post = []
  flushed : b.cause = some .flushed →
    a.status = .closed ∧ (a.cause = some .ended → b.delivered = a.sent)

namespace Orderly

variable {a b a' b' : Channel} {why : Cause}

/-- A change of other fields. -/
theorem congr (h : Orderly a b)
    (ha : (a'.cause, a'.status, a'.notice, a'.ended, a'.incoming, a'.sent) =
      (a.cause, a.status, a.notice, a.ended, a.incoming, a.sent))
    (hb : (b'.outgoing, b'.cause, b'.delivered) = (b.outgoing, b.cause, b.delivered)) :
    Orderly a' b' := by
  simp only [Prod.mk.injEq] at ha hb
  obtain ⟨hcause, hstatus, hnotice, hended, hincoming, hsent⟩ := ha
  obtain ⟨hout, hbcause, hdel⟩ := hb
  refine ⟨?_, ?_, ?_, ?_, ?_, ?_⟩
  · rw [hcause, hstatus]; exact h.cause
  · rw [hnotice, hstatus]; exact h.notice
  · rw [hcause, hended, hincoming]; exact h.ended
  · rw [hout, hstatus]; exact h.marked
  · rw [hout]; exact h.last
  · rw [hbcause, hstatus, hcause, hdel, hsent]; exact h.flushed

/-- The source is closed. -/
theorem close_left (h : Orderly a b)
    (hwhy : why = .ended → a.ended = true ∧ a.incoming = []) : Orderly (a.close why) b := by
  unfold Channel.close
  split
  · exact h
  · next hopen =>
    refine ⟨by simp, fun _ => rfl, fun he => hwhy (Option.some.inj he), fun _ => rfl, h.last,
      fun hb => ?_⟩
    exact absurd (h.flushed hb).1 hopen

/-- The sink is closed for another reason than the flush. -/
theorem close_right (h : Orderly a b) (hwhy : why ≠ .flushed) : Orderly a (b.close why) := by
  unfold Channel.close
  split
  · exact h
  · exact ⟨h.cause, h.notice, h.ended, by simp, by simp, fun hb => absurd (Option.some.inj hb) hwhy⟩

/-- Data goes into the sink while the source is open. -/
theorem write_right (h : Orderly a b) (hopen : a.status ≠ .closed) (bytes : List Byte) :
    Orderly a (b.write bytes) := by
  unfold Channel.write
  split
  · have hno : Write.close ∉ b.outgoing := fun hm => hopen (h.marked hm)
    have hno' : Write.close ∉ b.outgoing ++ [.data bytes] := by simp [hno]
    exact ⟨h.cause, h.notice, h.ended, fun hm => absurd hm hno',
      fun pre post he => absurd (by rw [show b.outgoing ++ _ = _ from he]; simp) hno', h.flushed⟩
  · exact h

/-- The close is queued behind everything else. -/
theorem closeOnFlush_right (h : Orderly a b) (hclosed : a.status = .closed) :
    Orderly a b.closeOnFlush := by
  unfold Channel.closeOnFlush
  split
  · refine ⟨h.cause, h.notice, h.ended, fun _ => hclosed, fun pre post he => ?_, h.flushed⟩
    rcases List.append_eq_append_iff.mp he with ⟨us, -, hus⟩ | ⟨us, hpre, hus⟩
    · cases us with
      | nil => rw [← (List.cons.inj hus).2]; rfl
      | cons w us =>
        have : ([] : List Write) = us ++ .close :: post := (List.cons.inj hus).2
        simp at this
    · cases us with
      | nil => rw [(List.cons.inj hus).2]; rfl
      | cons w us =>
        obtain ⟨rfl, rfl⟩ := List.cons.inj hus
        have := h.last pre us hpre
        simp [this]
  · exact h

theorem write_left (h : Orderly a b) (bytes : List Byte) : Orderly (a.write bytes) b := by
  rw [Channel.write_eq]
  exact h.congr rfl rfl

theorem closeOnFlush_left (h : Orderly a b) : Orderly a.closeOnFlush b := by
  unfold Channel.closeOnFlush
  split
  · exact h.congr rfl rfl
  · exact h

/-- The sink flushes; `hstream` is the invariant of the stream from `a` to `b`. -/
theorem flush_right (h : Orderly a b) (hb : b.cause = none ↔ b.status ≠ .closed) (n : Nat)
    (hstream : b.status ≠ .closed → a.sent = b.delivered ++ queued b.outgoing ++ a.incoming) :
    Orderly a (b.flush n) := by
  unfold Channel.flush
  by_cases hcon : b.status = .connected
  · rw [if_pos hcon]
    have hopen : b.status ≠ .closed := by rw [hcon]; decide
    have hnone : b.cause = none := hb.mpr hopen
    cases hout : b.outgoing with
    | nil => exact h
    | cons w ws =>
      cases w with
      | data bytes =>
        have hws : ∀ pre post, ws = pre ++ .close :: post → queued post = [] :=
          fun pre post he => h.last (.data bytes :: pre) post (by rw [hout, he]; rfl)
        have hmem : Write.close ∈ ws → a.status = .closed :=
          fun hm => h.marked (by rw [hout]; exact List.mem_cons_of_mem _ hm)
        refine ⟨h.cause, h.notice, h.ended, fun hm => hmem ?_, fun pre post he => ?_,
          fun hf => absurd (hnone.symm.trans hf) (Option.some_ne_none _).symm⟩
        · dsimp only at hm
          split at hm
          · exact hm
          · simpa using hm
        · dsimp only at he
          split at he
          · exact hws pre post he
          · cases pre with
            | nil => simp at he
            | cons w pre => exact hws pre post (List.cons.inj he).2
      | close =>
        have hclosed : a.status = .closed := h.marked (by rw [hout]; exact List.mem_cons_self)
        dsimp only
        rw [Channel.close, if_neg hopen]
        refine ⟨h.cause, h.notice, h.ended, by simp, by simp, fun _ => ⟨hclosed, fun he => ?_⟩⟩
        have hs := hstream hopen
        rw [hout, queued_close, h.last [] ws hout, (h.ended he).2] at hs
        simpa using hs.symm
  · rw [if_neg hcon]
    exact h

/-- The source flushes. -/
theorem flush_left (h : Orderly a b) (n : Nat) : Orderly (a.flush n) b := by
  unfold Channel.flush
  split
  · cases a.outgoing with
    | nil => exact h
    | cons w ws =>
      cases w with
      | data bytes => exact h.congr rfl rfl
      | close => exact h.close_left (by simp)
  · exact h

/-- The peer of the source sends, when it has not ended its stream. -/
theorem send_left (h : Orderly a b) (hended : a.ended = false) (bytes : List Byte) :
    Orderly { a with incoming := a.incoming ++ bytes, sent := a.sent ++ bytes } b := by
  have hno : a.cause ≠ some .ended := fun he => Bool.noConfusion (hended.symm.trans (h.ended he).1)
  exact ⟨h.cause, h.notice, fun he => absurd he hno, h.marked, h.last,
    fun hb => ⟨(h.flushed hb).1, fun he => absurd he hno⟩⟩

/-- The source reads, which it does only while it is open. -/
theorem read_left (h : Orderly a b) (hopen : a.status ≠ .closed) (n : Nat) :
    Orderly { a with incoming := a.incoming.drop n } b := by
  have hnone : a.cause = none := h.cause.mpr hopen
  exact ⟨h.cause, h.notice, fun he => absurd (hnone.symm.trans he) (Option.some_ne_none _).symm,
    h.marked, h.last, fun hb => absurd (h.flushed hb).1 hopen⟩

theorem finish_left (h : Orderly a b) : Orderly { a with ended := true } b :=
  ⟨h.cause, h.notice, fun he => ⟨rfl, (h.ended he).2⟩, h.marked, h.last, h.flushed⟩

/-- The handler is told of the close. -/
theorem told_left (h : Orderly a b) : Orderly { a with notice := false } b :=
  ⟨h.cause, Bool.noConfusion, h.ended, h.marked, h.last, h.flushed⟩

/-- The connect of the source succeeds. -/
theorem connect_left (h : Orderly a b) (hc : a.status = .connecting) :
    Orderly { a with status := .connected } b := by
  have hopen : a.status ≠ .closed := by rw [hc]; decide
  exact ⟨by simp [h.cause, hopen], fun hn => absurd (h.notice hn) hopen, h.ended,
    fun hm => absurd (h.marked hm) hopen, h.last,
    fun hb => absurd (h.flushed hb).1 hopen⟩

end Orderly

/-- A relation of a channel to the other one, in both directions. -/
def Both (R : Channel → Channel → Prop) (s : Connection) : Prop :=
  ∀ side : Side, R (s.channel side) (s.channel side.other)

section Ends

variable {R : Channel → Channel → Prop} {s : Connection} {x : Side} {f : Channel → Channel}

theorem Both.symm (h : Both R s) (x : Side) : R (s.channel x.other) (s.channel x) := by
  have := h x.other
  rwa [Side.other_other] at this

theorem Both.setChannel (hself : R (f (s.channel x)) (s.channel x.other))
    (hother : R (s.channel x.other) (f (s.channel x))) : Both R (s.setChannel x f) := by
  intro side
  rcases x.eq_or_eq_other side with rfl | rfl
  · rw [Connection.channel_setChannel_self, Connection.channel_setChannel_other]
    exact hself
  · rw [Side.other_other, Connection.channel_setChannel_self, Connection.channel_setChannel_other]
    exact hother

theorem Both.setOther (hself : R (s.channel x) (f (s.channel x.other)))
    (hother : R (f (s.channel x.other)) (s.channel x)) : Both R (s.setChannel x.other f) := by
  refine Both.setChannel ?_ ?_
  · rw [Side.other_other]
    exact hother
  · rw [Side.other_other]
    exact hself

theorem orderly_setReadable (h : Both Orderly s) (x : Side) (b : Bool) :
    Both Orderly (s.setChannel x (Channel.setReadable b)) :=
  Both.setChannel ((h x).congr rfl rfl) ((h.symm x).congr rfl rfl)

theorem orderly_close (h : Both Orderly s) {why : Cause} (hwhy : why ≠ .flushed)
    (hended : why = .ended → (s.channel x).ended = true ∧ (s.channel x).incoming = []) :
    Both Orderly (s.setChannel x (Channel.close why)) :=
  Both.setChannel ((h x).close_left hended) ((h.symm x).close_right hwhy)

theorem orderly_break (h : Both Orderly s) (x : Side) :
    Both Orderly (s.setChannel x (Channel.close .broken)) :=
  orderly_close h (by decide) fun he => Cause.noConfusion he

/-- **One event**, when no exception is caught on an open channel. -/
theorem orderly_step (e : Event) (s : Connection) (h : Inv s ∧ Both Orderly s)
    (hcond : Undisturbed e s) : Inv (step e s) ∧ Both Orderly (step e s) := by
  obtain ⟨hinv, hord⟩ := h
  refine ⟨inv_step e s hinv, ?_⟩
  have hback := hord.symm
  cases e with
  | connect isSuccess =>
    rw [step]
    split
    · next hc =>
      cases isSuccess with
      | true =>
        have hconn : Both Orderly (s.setChannel .outbound fun c =>
            { c with status := .connected }) :=
          Both.setChannel ((hord .outbound).connect_left hc)
            (Orderly.congr (hback .outbound) rfl rfl)
        exact hconn
      | false =>
        exact orderly_break hord .outbound
    · exact hord
  | operationComplete =>
    rw [step]
    split
    · next isSuccess hfut =>
      split
      · cases isSuccess with
        | true => exact orderly_setReadable hord .inbound true
        | false => exact orderly_break hord .inbound
      · exact hord
    · exact hord
  | send side bytes =>
    rw [step]
    split
    · next hc =>
      exact Both.setChannel ((hord side).send_left hc.2 bytes)
        (Orderly.congr (hback side) rfl rfl)
    · exact hord
  | finish side =>
    rw [step]
    split
    · exact Both.setChannel (hord side).finish_left (Orderly.congr (hback side) rfl rfl)
    · exact hord
  | read side n isWritable =>
    rw [step]
    split
    · next hc =>
      have hopen : (s.channel side).status ≠ .closed := by rw [hc.1]; decide
      have hread := (hord side).read_left hopen n
      have hwritten : Both Orderly ((s.setChannel side fun c =>
          { c with incoming := c.incoming.drop n }).setChannel side.other
            (Channel.write ((s.channel side).incoming.take n))) := by
        refine Both.setOther ?_ ?_ <;>
          rw [Connection.channel_setChannel_self, Connection.channel_setChannel_other]
        · exact hread.write_right hopen _
        · exact ((hback side).write_left _).congr rfl rfl
      rw [messageReceived]
      split
      · exact orderly_setReadable hwritten side false
      · exact hwritten
    · exact hord
  | readEnd side =>
    rw [step]
    split
    · next hc => exact orderly_close hord (by decide) fun _ => ⟨hc.2.2.2, hc.2.2.1⟩
    · exact hord
  | flush side n =>
    refine Both.setChannel ((hord side).flush_left n)
      ((hback side).flush_right (hord side).cause n fun hopen => ?_)
    have := hinv.stream side.other
    rw [Side.other_other] at this
    exact this hopen
  | reset side =>
    rw [step]
    split
    · exact orderly_break hord side
    · exact hord
  | channelClosed side =>
    rw [step]
    split
    · next hnotice =>
      have hclosed := (hord side).notice hnotice
      have htold := (hord side).told_left
      refine Both.setOther ?_ ?_ <;>
        rw [Connection.channel_setChannel_self, Connection.channel_setChannel_other]
      · exact htold.closeOnFlush_right hclosed
      · exact ((hback side).closeOnFlush_left).congr rfl rfl
    · exact hord
  | exceptionCaught side =>
    have hskip : (s.channel side).closeOnFlush = s.channel side := if_neg hcond
    refine Both.setChannel ?_ ?_
    · rw [hskip]
      exact hord side
    · rw [hskip]
      exact hback side
  | channelInterestChanged side isWritable =>
    rw [step]
    split
    · rw [channelInterestChanged]
      split
      · exact orderly_setReadable hord _ _
      · exact hord
    · exact hord
  | closeOtherChannels =>
    exact orderly_break (orderly_break hord .inbound) .outbound

theorem orderly_channelOpen : Both Orderly channelOpen := by
  intro side
  cases side <;> exact ⟨by decide, Bool.noConfusion,
    fun he => absurd he (Option.some_ne_none _).symm, fun hm => absurd hm List.not_mem_nil,
    by simp [channelOpen, Side.other], fun he => absurd he (Option.some_ne_none _).symm⟩

theorem Both.complete (h : Both Orderly s) : Complete s :=
  fun side hended hflushed => ((h side).flushed hflushed).2 hended

end Ends

/-- **The end of a stream**: where no exception is caught on an open channel, a peer that ends its
stream has everything it sent delivered before the other channel is closed for it. -/
theorem always_complete (es : List Event) (h : Meets step Undisturbed es channelOpen) :
    Always step Complete es channelOpen :=
  always_of_invariant (I := fun s => Inv s ∧ Both Orderly s) (fun _ h => h.2.complete)
    orderly_step ⟨inv_channelOpen, orderly_channelOpen⟩ h

/-- The client sends two bytes and ends its stream. -/
theorem always_complete_client :
    (run step [.connect true, .operationComplete, .send .inbound [1, 2], .finish .inbound,
      .read .inbound 5 true, .readEnd .inbound, .channelClosed .inbound, .flush .outbound 1,
      .flush .outbound 1, .flush .outbound 1] channelOpen).channel .outbound =
      ⟨.closed, true, [], false, [], [1, 2], true, [], some .flushed⟩ ∧
    Always step Complete [.connect true, .operationComplete, .send .inbound [1, 2],
      .finish .inbound, .read .inbound 5 true, .readEnd .inbound, .channelClosed .inbound,
      .flush .outbound 1, .flush .outbound 1, .flush .outbound 1] channelOpen :=
  ⟨by rfl, always_complete _ (meets_of_forall fun e he s => by
    simp only [List.mem_cons, List.not_mem_nil, or_false] at he
    rcases he with rfl | rfl | rfl | rfl | rfl | rfl | rfl | rfl | rfl | rfl <;> trivial)⟩

/-! ## One close follows the other -/

/-- When `a` is closed and its handler told, `b` has the close queued if it is connected. -/
def FollowedBy (a b : Channel) : Prop :=
  a.status = .closed → a.notice = false → b.status = .connected → Write.close ∈ b.outgoing

/-- A channel `c` becomes `c'` with nobody told of a close, no connect and no close taken back. -/
structure Keeps (c c' : Channel) : Prop where
  told : c'.status = .closed → c'.notice = false → c.status = .closed ∧ c.notice = false
  queued : c'.status = .connected →
    c.status = .connected ∧ (Write.close ∈ c.outgoing → Write.close ∈ c'.outgoing)

section Closes

variable {s : Connection} {x : Side} {f : Channel → Channel} {c : Channel}

theorem Both.keep (h : Both FollowedBy s) (hf : Keeps (s.channel x) (f (s.channel x))) :
    Both FollowedBy (s.setChannel x f) := by
  refine Both.setChannel (fun hc hn hb => ?_) fun hc hn hb => ?_
  · obtain ⟨hc, hn⟩ := hf.told hc hn
    exact h x hc hn hb
  · obtain ⟨hb, hm⟩ := hf.queued hb
    exact hm (h.symm x hc hn hb)

theorem keeps_close (why : Cause) (c : Channel) : Keeps c (c.close why) := by
  unfold Channel.close
  split
  · exact ⟨fun hc hn => ⟨hc, hn⟩, fun hc => ⟨hc, id⟩⟩
  · exact ⟨fun _ hn => Bool.noConfusion hn, fun hc => Status.noConfusion hc⟩

theorem keeps_write (bytes : List Byte) (c : Channel) : Keeps c (c.write bytes) := by
  unfold Channel.write
  split
  · exact ⟨fun hc hn => ⟨hc, hn⟩, fun hc => ⟨hc, fun hm => List.mem_append_left _ hm⟩⟩
  · exact ⟨fun hc hn => ⟨hc, hn⟩, fun hc => ⟨hc, id⟩⟩

theorem keeps_closeOnFlush (c : Channel) : Keeps c c.closeOnFlush := by
  unfold Channel.closeOnFlush
  split
  · exact ⟨fun hc hn => ⟨hc, hn⟩, fun hc => ⟨hc, fun hm => List.mem_append_left _ hm⟩⟩
  · exact ⟨fun hc hn => ⟨hc, hn⟩, fun hc => ⟨hc, id⟩⟩

theorem keeps_flush (n : Nat) (c : Channel) : Keeps c (c.flush n) := by
  unfold Channel.flush
  split
  · cases hout : c.outgoing with
    | nil => exact ⟨fun hc hn => ⟨hc, hn⟩, fun hc => ⟨hc, id⟩⟩
    | cons w ws =>
      cases w with
      | close => exact keeps_close .flushed c
      | data bytes =>
        refine ⟨fun hc hn => ⟨hc, hn⟩, fun hc => ⟨hc, fun hm => ?_⟩⟩
        have hws : Write.close ∈ ws := by simpa [hout] using hm
        dsimp only
        split
        · exact hws
        · exact List.mem_cons_of_mem _ hws
  · exact ⟨fun hc hn => ⟨hc, hn⟩, fun hc => ⟨hc, id⟩⟩

theorem followed_channelOpen : Both FollowedBy channelOpen := by
  intro side
  cases side <;> exact fun hc => Status.noConfusion hc

/-- **One event**, when the connect succeeds in time. -/
theorem followed_step (e : Event) (s : Connection) (h : Inv s ∧ Both FollowedBy s)
    (hcond : InTime e s) : Inv (step e s) ∧ Both FollowedBy (step e s) := by
  obtain ⟨hinv, hfol⟩ := h
  refine ⟨inv_step e s hinv, ?_⟩
  cases e with
  | connect isSuccess =>
    rw [step]
    split
    · next hc =>
      cases isSuccess with
      | false => exact hfol.keep (keeps_close .broken _)
      | true =>
        have hconn : Both FollowedBy (s.setChannel .outbound fun c =>
            { c with status := .connected }) := by
          refine Both.setChannel (fun hclosed => Status.noConfusion hclosed) fun hclosed hn => ?_
          exact absurd ⟨hclosed, hn⟩ (hcond hc)
        exact hconn
    · exact hfol
  | operationComplete =>
    rw [step]
    split
    · next isSuccess hfut =>
      split
      · cases isSuccess with
        | true => exact hfol.keep ⟨fun hc hn => ⟨hc, hn⟩, fun hc => ⟨hc, id⟩⟩
        | false => exact hfol.keep (keeps_close .broken _)
      · exact hfol
    · exact hfol
  | send side bytes =>
    rw [step]
    split
    · exact hfol.keep ⟨fun hc hn => ⟨hc, hn⟩, fun hc => ⟨hc, id⟩⟩
    · exact hfol
  | finish side =>
    rw [step]
    split
    · exact hfol.keep ⟨fun hc hn => ⟨hc, hn⟩, fun hc => ⟨hc, id⟩⟩
    · exact hfol
  | read side n isWritable =>
    rw [step]
    split
    · have hread : Both FollowedBy ((s.setChannel side fun c =>
          { c with incoming := c.incoming.drop n }).setChannel side.other
            (Channel.write ((s.channel side).incoming.take n))) :=
        Both.keep (hfol.keep ⟨fun hc hn => ⟨hc, hn⟩, fun hc => ⟨hc, id⟩⟩) (keeps_write _ _)
      rw [messageReceived]
      split
      · exact hread.keep ⟨fun hc hn => ⟨hc, hn⟩, fun hc => ⟨hc, id⟩⟩
      · exact hread
    · exact hfol
  | readEnd side =>
    rw [step]
    split
    · exact hfol.keep (keeps_close .ended _)
    · exact hfol
  | flush side n => exact hfol.keep (keeps_flush n _)
  | reset side =>
    rw [step]
    split
    · exact hfol.keep (keeps_close .broken _)
    · exact hfol
  | channelClosed side =>
    rw [step]
    split
    · refine Both.setOther (fun _ _ hb => ?_) ?_
      · rw [Connection.channel_setChannel_other] at hb ⊢
        have hconn : (s.channel side.other).status = .connected := by
          by_contra hne
          rw [Channel.closeOnFlush, if_neg hne] at hb
          exact hne hb
        rw [Channel.closeOnFlush, if_pos hconn]
        exact List.mem_append_right _ List.mem_cons_self
      · rw [Connection.channel_setChannel_self, Connection.channel_setChannel_other]
        intro hc hn hb
        obtain ⟨hc, hn⟩ := (keeps_closeOnFlush (s.channel side.other)).told hc hn
        exact hfol.symm side hc hn hb
    · exact hfol
  | exceptionCaught side => exact hfol.keep (keeps_closeOnFlush _)
  | channelInterestChanged side isWritable =>
    rw [step]
    split
    · rw [channelInterestChanged]
      split
      · exact hfol.keep ⟨fun hc hn => ⟨hc, hn⟩, fun hc => ⟨hc, id⟩⟩
      · exact hfol
    · exact hfol
  | closeOtherChannels =>
    have hclosed : Both FollowedBy ((s.setChannel .inbound (Channel.close .broken)).setChannel
        .outbound (Channel.close .broken)) :=
      Both.keep (hfol.keep (keeps_close .broken _)) (keeps_close .broken _)
    exact hclosed

/-- A connect that succeeds too late leaves a remote channel that nobody closes. -/
theorem not_followed_step (e : Event) (s : Connection) (h : Inv s ∧ Both FollowedBy s)
    (hcond : ¬ InTime e s) : ¬ Followed (step e s) := by
  cases e with
  | connect isSuccess =>
    cases isSuccess with
    | false => exact absurd trivial hcond
    | true =>
      obtain ⟨hc, hclosed⟩ := Classical.not_imp.mp hcond
      obtain ⟨hclosed, hn⟩ := Classical.not_not.mp hclosed
      intro hfol
      rw [step, if_pos hc] at hfol
      have hmem := hfol .inbound hclosed hn rfl
      have hempty : (s.channel .outbound).outgoing = [] := (h.1.early hc).2.2.2.1
      change Write.close ∈ (s.channel .outbound).outgoing at hmem
      rw [hempty] at hmem
      exact absurd hmem List.not_mem_nil
  | _ => exact absurd trivial hcond

/-- **When one close follows the other**: in every run in which no connect succeeds after the
handler of the client's channel was told of its close, and in no other. -/
theorem always_followed_iff (es : List Event) :
    Always step Followed es channelOpen ↔ Meets step InTime es channelOpen :=
  always_iff_meets (I := fun s => Inv s ∧ Both FollowedBy s) (fun _ h => h.2) followed_step
    not_followed_step ⟨inv_channelOpen, followed_channelOpen⟩

end Closes

end Terminator.Server.TunnelConnection
