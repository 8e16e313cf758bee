import Terminator.Server.RecordReplay
import Terminator.Storage.LocalCache

/-!
# What a Guava cache has evicted

`replays_last_recorded` says what REPLAY mode answers for the keys a storage still has. With the
segments of Guava these are known (**`has_recorded_iff`**): the last 250 different signatures of
each segment. **`has_of_segments`**: while no segment has more, everything that was recorded is
replayed.

One signature more in a segment is too many, however few there are in the others:
**`evicted_not_replayed`**.
-/

namespace Terminator.Server.Link

open Terminator.Java Terminator.Netty Terminator.Storage Terminator.Plugin Terminator.Digest
open Terminator.Cache DefaultHttpSigner StorageFactory HttpReplayServerHandler
open CacheStorage (MAX_SEGMENT_WEIGHT MAXIMUM_SIZE segmentFor keysOf rehash hashCode)

/-- A cache as Guava makes it. -/
def guavaEnv : StorageType.CACHE.Env := CacheStorage.Eviction.segments

variable {es : List (Nat × Event)} {w : World CacheStorage}

/-- The signatures of the exchanges, in the order they are completed. -/
def signatures (cs : Charset) (es : List (Nat × Event)) : List JString :=
  (exchanges idle es).map fun e => keyOf cs e.1

/-- **What the cache has** after a recording: the last signatures of each segment. -/
theorem has_recorded_iff (cs : Charset) (hfresh : w.hidden.recordDataCache = [])
    (hes : Orderly idle es) (key : JString) :
    Has guavaEnv (recorded guavaEnv cs es w).world.hidden key ↔
      key ∈ Lru.newest MAX_SEGMENT_WEIGHT
        (keysOf (segmentFor key) (signatures cs es)).dedup := by
  obtain ⟨heap, cache, stubs⟩ := w
  obtain rfl : cache = [] := hfresh
  have hheld : CacheStorage.Cached (recorded guavaEnv cs es ⟨heap, ⟨[], stubs⟩⟩).world
      (puts cs (exchanges idle es)) :=
    @holds_recorded .CACHE guavaEnv es ⟨heap, ⟨[], stubs⟩⟩ cs CacheStorage.refinesSegments
      (CacheStorage.cached_nil heap stubs) hes
  have hkeys : (puts cs (exchanges idle es)).map Prod.fst = signatures cs es := by
    rw [puts, signatures, List.map_map]
    rfl
  rw [← hkeys]
  exact hheld.has_iff key

/-- **Nothing is lost** while no segment has more than its share of different signatures. -/
theorem has_of_segments (cs : Charset) (hfresh : w.hidden.recordDataCache = [])
    (hes : Orderly idle es)
    (hshare : ∀ i, (keysOf i (signatures cs es)).dedup.length ≤ MAX_SEGMENT_WEIGHT) :
    ∀ e ∈ exchanges idle es,
      Has guavaEnv (recorded guavaEnv cs es w).world.hidden (keyOf cs e.1) := by
  intro e he
  rw [has_recorded_iff cs hfresh hes, ← Lru.foldl_touch]
  refine Lru.mem_foldl_touch_of_length_le (hshare _) (CacheStorage.mem_keysOf.mpr ⟨?_, rfl⟩)
  exact List.mem_map.mpr ⟨e, he, rfl⟩

/-- **One signature too many** for a segment: the first of them is lost. -/
theorem not_has_of_segment (cs : Charset) (hfresh : w.hidden.recordDataCache = [])
    (hes : Orderly idle es) {key : JString} {keys : List JString}
    (hkeys : signatures cs es = key :: keys) (hnodup : (key :: keys).Nodup)
    (hsegment : ∀ k ∈ key :: keys, segmentFor k = segmentFor key)
    (hlength : keys.length = MAX_SEGMENT_WEIGHT) :
    ¬ Has guavaEnv (recorded guavaEnv cs es w).world.hidden key := by
  have hall : keysOf (segmentFor key) (key :: keys) = key :: keys :=
    List.filter_eq_self.mpr fun k hk => beq_iff_eq.mpr (hsegment k hk)
  rw [has_recorded_iff cs hfresh hes, hkeys, hall, ← Lru.foldl_touch]
  exact Lru.notMem_foldl_touch hnodup hlength

/-! ## A recording that is too much for a segment -/

/-- Requests on a connection, each answered by the byte `a`. -/
def recording (qs : List (HttpRequest ChannelBuffer)) : List (Nat × Event) :=
  qs.flatMap fun q => [(0, .client (.request q) true),
    (0, .remote (.response (.ok (.wrapped [0x61] true))) true)]

theorem update_idle (o : Option (HttpRequest ChannelBuffer)) :
    Function.update (Function.update idle 0 o) 0 none = idle := by
  rw [Function.update_idem]
  exact Function.update_eq_self 0 idle

theorem orderly_recording {qs : List (HttpRequest ChannelBuffer)}
    (h : ∀ q ∈ qs, q.chunked = false) : Orderly idle (recording qs) := by
  induction qs with
  | nil => trivial
  | cons q qs ih =>
    have htail := ih fun q' hq' => h q' (List.mem_cons_of_mem _ hq')
    refine ⟨rfl, h q List.mem_cons_self, by simp, rfl, rfl, ?_⟩
    rw [update_idle]
    exact htail

theorem exchanges_recording (qs : List (HttpRequest ChannelBuffer)) :
    exchanges idle (recording qs) = qs.map fun q => (q, .ok (.wrapped [0x61] true)) := by
  induction qs with
  | nil => rfl
  | cons q qs ih =>
    have hfirst : exchanges idle (recording (q :: qs)) = (q, .ok (.wrapped [0x61] true)) ::
        exchanges (Function.update (Function.update idle 0 (some q)) 0 none) (recording qs) := by
      rw [recording, List.flatMap_cons, List.cons_append, exchanges, List.cons_append, exchanges,
        Function.update_self]
      rfl
    rw [hfirst, update_idle, ih, List.map_cons]

/-- `GET /n`. -/
def getOf (n : Nat) : HttpRequest ChannelBuffer :=
  { HttpRequest.get "/" with uri := 0x2F :: decimal n }

/-- The hash of the signature of `GET /n`, whose text is digested by one block. -/
def hashOf (n : Nat) : Nat :=
  rehash (hashCode (MD5.lowerHex (Rfc1321.digestOfNumber
    (Rfc1321.numberOf (Rfc1321.pad (MD5.digested utf8 (signText utf8 (getOf n))))))))

/-- The text of `GET /n` fits into a block. -/
def Short (n : Nat) : Prop := (utf8.encode (signText utf8 (getOf n))).length < 56

instance (n : Nat) : Decidable (Short n) :=
  inferInstanceAs (Decidable ((utf8.encode (signText utf8 (getOf n))).length < 56))

theorem hash_keyOf {n : Nat} (h : Short n) :
    rehash (hashCode (keyOf utf8 (getOf n))) = hashOf n := by
  have henc : MD5.Encodable utf8 (signText utf8 (getOf n)) := Nat.lt_trans h (by decide)
  have hlen : (MD5.digested utf8 (signText utf8 (getOf n))).length < 56 :=
    Nat.lt_of_le_of_lt (List.length_take_le' _ _) h
  have hkey : Except.ok (keyOf utf8 (getOf n))
      = .ok (MD5.lowerHex (Rfc1321.digest (MD5.digested utf8 (signText utf8 (getOf n))))) :=
    (signature_eq utf8 (getOf n)).1.symm.trans (MD5.getMD5ofStr_eq henc)
  rw [Except.ok.inj hkey, Rfc1321.digest_of_short hlen]
  rfl

/-- The hashes grow, and all of them are of the segment. -/
def growing (i : Nat) : Nat → List Nat → Bool
  | _, [] => true
  | low, n :: ns =>
    decide (Short n) && low < hashOf n && hashOf n >>> 30 == i && growing i (hashOf n) ns

/-- Signatures whose hashes grow are different ones. -/
theorem nodup_of_growing {i low : Nat} {ns : List Nat} (h : growing i low ns = true) :
    (∀ n ∈ ns, low < rehash (hashCode (keyOf utf8 (getOf n))) ∧
      segmentFor (keyOf utf8 (getOf n)) = i) ∧
    (ns.map fun n => keyOf utf8 (getOf n)).Nodup := by
  induction ns generalizing low with
  | nil => exact ⟨fun n hn => absurd hn List.not_mem_nil, List.nodup_nil⟩
  | cons n ns ih =>
    rw [growing, Bool.and_eq_true, Bool.and_eq_true, Bool.and_eq_true] at h
    obtain ⟨⟨⟨hshort, hlow⟩, hsegment⟩, hrest⟩ := h
    obtain ⟨hmem, hnodup⟩ := ih hrest
    have hhash := hash_keyOf (of_decide_eq_true hshort)
    have hlow := of_decide_eq_true hlow
    refine ⟨List.forall_mem_cons.mpr ⟨⟨hhash ▸ hlow, ?_⟩, fun m hm => ?_⟩,
      List.nodup_cons.mpr ⟨fun hin => ?_, hnodup⟩⟩
    · rw [segmentFor, hhash]
      exact beq_iff_eq.mp hsegment
    · exact ⟨Nat.lt_trans hlow (hmem m hm).1, (hmem m hm).2⟩
    · obtain ⟨m, hm, heq⟩ := List.mem_map.mp hin
      have hlt := (hmem m hm).1
      rw [heq, hhash] at hlt
      exact Nat.lt_irrefl _ hlt

/-- 250 requests whose signatures are of one segment, in the order of their hashes. -/
def others : List Nat :=
  [753, 806, 578, 757, 45, 571, 648, 573, 153, 719, 7, 553, 787, 981, 780, 745, 143, 977, 951,
    822, 402, 683, 734, 114, 186, 756, 430, 270, 30, 65, 127, 115, 137, 862, 335, 845, 67, 666, 6,
    735, 933, 3, 583, 979, 473, 712, 888, 202, 519, 302, 801, 496, 334, 176, 173, 520, 729, 221,
    23, 538, 330, 873, 967, 679, 562, 667, 69, 458, 893, 384, 170, 587, 502, 131, 276, 717, 487,
    269, 453, 429, 86, 249, 986, 929, 875, 635, 405, 856, 216, 21, 778, 890, 116, 558, 529, 584,
    922, 726, 385, 814, 698, 366, 409, 348, 239, 141, 219, 26, 206, 827, 881, 22, 74, 690, 555,
    15, 209, 266, 982, 764, 449, 254, 398, 315, 351, 297, 551, 193, 299, 321, 281, 417, 189, 547,
    389, 972, 128, 188, 521, 960, 464, 13, 968, 695, 528, 693, 766, 964, 546, 622, 594, 522, 18,
    418, 931, 272, 958, 408, 842, 393, 744, 684, 259, 150, 24, 112, 820, 918, 35, 325, 902, 675,
    713, 37, 271, 84, 647, 865, 670, 211, 362, 178, 835, 789, 426, 93, 515, 89, 917, 97, 484, 543,
    440, 580, 775, 275, 800, 574, 863, 410, 486, 793, 618, 34, 782, 378, 985, 289, 350, 203, 949,
    388, 158, 598, 810, 841, 10, 615, 518, 312, 799, 420, 383, 908, 651, 197, 46, 665, 235, 252,
    488, 777, 129, 864, 623, 174, 962, 40, 508, 228, 565, 611, 678, 530, 833, 732, 514, 921, 616,
    928]

theorem growing_others : growing 2 0 (672 :: others) = true := by
  decide +kernel

theorem length_others : others.length = 250 := by
  decide +kernel

/-- **Recorded and lost**: of 251 requests the first one is answered by the default response. -/
theorem evicted_not_replayed :
    let es := recording ((672 :: others).map getOf)
    Orderly idle es ∧ (∀ e ∈ exchanges idle es, e.2.content.hasArray = true) ∧
      (signatures utf8 es).dedup.length ≤ MAXIMUM_SIZE ∧
      (∃ e ∈ exchanges idle es, SameParts e.1 (getOf 672)) ∧
      Answers guavaEnv utf8 es [] CacheStorage.emptyWorld 1 (getOf 672) true [responseWhenNotHit] ∧
      ∀ e ∈ exchanges idle es, ¬ Answers guavaEnv utf8 es [] CacheStorage.emptyWorld 1 (getOf 672)
        true [(HttpObject.response e.2).wire] := by
  intro es
  have hes : Orderly idle es := orderly_recording fun q hq => by
    obtain ⟨n, -, rfl⟩ := List.mem_map.mp hq
    rfl
  have hexchanges : exchanges idle es
      = ((672 :: others).map getOf).map fun q => (q, .ok (.wrapped [0x61] true)) :=
    exchanges_recording _
  have hresponse : ∀ e ∈ exchanges idle es, e.2 = .ok (.wrapped [0x61] true) := by
    rw [hexchanges]
    intro e he
    obtain ⟨q, -, rfl⟩ := List.mem_map.mp he
    rfl
  have hkeys : signatures utf8 es = (672 :: others).map fun n => keyOf utf8 (getOf n) := by
    rw [signatures, hexchanges, List.map_map, List.map_map]
    rfl
  obtain ⟨hsegment, hnodup⟩ := nodup_of_growing growing_others
  have hlost : ¬ Has guavaEnv (recorded guavaEnv utf8 es CacheStorage.emptyWorld).world.hidden
      (keyOf utf8 (getOf 672)) := by
    refine not_has_of_segment utf8 rfl hes hkeys hnodup (fun k hk => ?_) ?_
    · rw [← List.map_cons (f := fun n => keyOf utf8 (getOf n))] at hk
      obtain ⟨n, hn, rfl⟩ := List.mem_map.mp hk
      exact (hsegment n hn).2.trans (hsegment 672 List.mem_cons_self).2.symm
    · rw [List.length_map, length_others]
      rfl
  have hanswer : Answers guavaEnv utf8 es [] CacheStorage.emptyWorld 1 (getOf 672) true
      [responseWhenNotHit] :=
    (@answers_recorded .CACHE guavaEnv es [] CacheStorage.emptyWorld utf8 rfl hes
      (fun e he => absurd he List.not_mem_nil) 1 (getOf 672) true).2 hlost
  refine ⟨hes, fun e he => ?_, ?_,
    ⟨(getOf 672, .ok (.wrapped [0x61] true)), ?_, rfl, rfl, rfl, rfl⟩, hanswer,
    fun e he hother => ?_⟩
  · rw [hresponse e he]
    rfl
  · rw [hkeys, hnodup.dedup, List.length_map, List.length_cons, length_others]
    decide
  · rw [hexchanges]
    exact List.mem_cons_self
  · unfold Answers at hanswer hother
    rw [hanswer, hresponse e he] at hother
    have hsame := List.append_cancel_left hother
    exact absurd hsame (by decide)

end Terminator.Server.Link
