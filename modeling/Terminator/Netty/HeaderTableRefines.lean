import Terminator.Netty.HeaderTable

/-!
# The header table is a list
-/

namespace Terminator.Netty.HeaderTable

open Terminator.Java HeaderEntry
open Function (update)

/-! ## The hash of a name -/

theorem hash_nonneg (name : JString) : 0 ≤ (hash name).toInt := by
  unfold hash
  generalize name.reverse.foldl (fun h c => 31 * h + (lowerAscii c).toUInt32.toInt32) 0 = h
  dsimp only
  split_ifs with hpos hmin
  · exact Int.le_of_lt (Int32.lt_iff_toInt_lt.mp hpos)
  · decide
  · have hle : h.toInt ≤ 0 := Int.not_lt.mp fun hlt => hpos (Int32.lt_iff_toInt_lt.mpr hlt)
    have hne : h.toInt ≠ -2147483648 := fun he => hmin (Int32.toInt_inj.mp he)
    have hge : -2147483648 ≤ h.toInt := h.le_toInt
    rw [Int32.toInt_neg, Int.bmod_eq_of_le (by omega) (by omega)]
    omega

/-- The bucket of a name is the one `%` gives. -/
theorem index_hash (name : JString) :
    ((index (hash name)).val : Int) = (hash name).toInt.tmod BUCKET_SIZE := by
  exact Int.toNat_of_nonneg (Int.tmod_nonneg _ (hash_nonneg name))

/-- Names that `eq` does not tell apart have one hash. -/
theorem hash_congr {name name' : JString} (h : HttpHeaders.eq name name' = true) :
    hash name = hash name' := by
  have hmap : name.map lowerAscii = name'.map lowerAscii := by simpa [HttpHeaders.eq] using h
  have hfold : ∀ n : JString,
      n.reverse.foldl (fun (h : Int32) c => 31 * h + (lowerAscii c).toUInt32.toInt32) 0 =
        (n.map lowerAscii).reverse.foldl (fun h c => 31 * h + c.toUInt32.toInt32) 0 := by
    intro n
    rw [← List.map_reverse, List.foldl_map]
  unfold hash
  rw [hfold name, hfold name', hmap]

/-! ## Assignments to the links -/

section Links

variable (h : Heap HeaderEntry) (r e : Ref) (n : Option Ref)

/-- The links of the entries on a heap, and what never changes in them. -/
abbrev nexts : Ref → Option Ref := h.field HeaderEntry.next
abbrev befores : Ref → Ref := h.field HeaderEntry.before
abbrev afters : Ref → Ref := h.field HeaderEntry.after
abbrev datas : Ref → Int32 × JString × JString := h.field HeaderEntry.data

@[simp] theorem size_setNext : (setNext r n h).size = h.size := Heap.size_set ..
@[simp] theorem size_setBefore : (setBefore r e h).size = h.size := Heap.size_set ..
@[simp] theorem size_setAfter : (setAfter r e h).size = h.size := Heap.size_set ..
@[simp] theorem size_remove : (remove r h).size = h.size := by simp [remove]
@[simp] theorem size_addBefore : (addBefore r e h).size = h.size := by simp [addBefore]

@[simp] theorem datas_setNext : datas (setNext r n h) = datas h := Heap.field_set_of_eq rfl
@[simp] theorem datas_setBefore : datas (setBefore r e h) = datas h := Heap.field_set_of_eq rfl
@[simp] theorem datas_setAfter : datas (setAfter r e h) = datas h := Heap.field_set_of_eq rfl
@[simp] theorem datas_remove : datas (remove r h) = datas h := by simp [remove]
@[simp] theorem datas_addBefore : datas (addBefore r e h) = datas h := by simp [addBefore]

@[simp] theorem nexts_setBefore : nexts (setBefore r e h) = nexts h := Heap.field_set_of_eq rfl
@[simp] theorem nexts_setAfter : nexts (setAfter r e h) = nexts h := Heap.field_set_of_eq rfl
@[simp] theorem nexts_remove : nexts (remove r h) = nexts h := by simp [remove]
@[simp] theorem nexts_addBefore : nexts (addBefore r e h) = nexts h := by simp [addBefore]
@[simp] theorem befores_setNext : befores (setNext r n h) = befores h := Heap.field_set_of_eq rfl
@[simp] theorem befores_setAfter : befores (setAfter r e h) = befores h := Heap.field_set_of_eq rfl
@[simp] theorem afters_setNext : afters (setNext r n h) = afters h := Heap.field_set_of_eq rfl
@[simp] theorem afters_setBefore : afters (setBefore r e h) = afters h := Heap.field_set_of_eq rfl

variable {h r e n}

theorem nexts_setNext (hr : r < h.size) : nexts (setNext r n h) = update (nexts h) r n :=
  Heap.field_set_of_lt hr ..
theorem befores_setBefore (hr : r < h.size) : befores (setBefore r e h) = update (befores h) r e :=
  Heap.field_set_of_lt hr ..
theorem afters_setAfter (hr : r < h.size) : afters (setAfter r e h) = update (afters h) r e :=
  Heap.field_set_of_lt hr ..

/-- `remove()` links the neighbours of an entry to each other. -/
theorem afters_remove (hb : befores h r < h.size) :
    afters (remove r h) = update (afters h) (befores h r) (afters h r) := by
  rw [remove, afters_setBefore]
  exact afters_setAfter hb

theorem befores_remove (ha : afters h r < h.size) (hne : befores h r ≠ r) :
    befores (remove r h) = update (befores h) (afters h r) (befores h r) := by
  have hget : (setAfter (h.get r).before (h.get r).after h).get r = h.get r := Heap.get_set_ne hne _
  rw [remove, hget, befores_setBefore (by simpa using ha), befores_setAfter]
  rfl

/-- The four assignments of `addBefore(e)`. -/
theorem addBefore_eq (hr : r < h.size) (hb : befores h e < h.size) (hne : befores h e ≠ r) :
    addBefore r e h = setBefore e r (setAfter (befores h e) r
      (setBefore r (befores h e) (setAfter r e h))) := by
  have hold : ((setAfter r e h).get e).before = befores h e := congrFun (befores_setAfter h r e) e
  have hthis : ((setBefore r (befores h e) (setAfter r e h)).get r).before = befores h e := by
    refine (congrFun (befores_setBefore (by simpa using hr)) r).trans ?_
    rw [Function.update_self]
  have haft : afters (setAfter (befores h e) r (setBefore r (befores h e) (setAfter r e h))) =
      update (update (afters h) r e) (befores h e) r := by
    rw [afters_setAfter (by simpa using hb), afters_setBefore, afters_setAfter hr]
  have hnext : ((setAfter (befores h e) r
      (setBefore r (befores h e) (setAfter r e h))).get r).after = e := by
    refine (congrFun haft r).trans ?_
    rw [Function.update_of_ne (Ne.symm hne), Function.update_self]
  rw [addBefore]
  simp only [hold, hthis, hnext]

/-- `addBefore(e)` puts an entry between `e` and the one before it. -/
theorem afters_addBefore (hr : r < h.size) (hb : befores h e < h.size) (hne : befores h e ≠ r) :
    afters (addBefore r e h) = update (update (afters h) r e) (befores h e) r := by
  rw [addBefore_eq hr hb hne, afters_setBefore, afters_setAfter (by simpa using hb),
    afters_setBefore, afters_setAfter hr]

theorem befores_addBefore (hr : r < h.size) (he : e < h.size) (hb : befores h e < h.size)
    (hne : befores h e ≠ r) :
    befores (addBefore r e h) = update (update (befores h) r (befores h e)) e r := by
  rw [addBefore_eq hr hb hne, befores_setBefore (by simpa using he), befores_setAfter,
    befores_setBefore (by simpa using hr), befores_setAfter]

/-- Which entries `remove()` and `addBefore(e)` leave alone. -/
theorem get_remove_of_ne {u : Ref} (hb : u ≠ befores h r) (ha : u ≠ afters h r)
    (hne : befores h r ≠ r) : (remove r h).get u = h.get u := by
  have hget : (setAfter (h.get r).before (h.get r).after h).get r = h.get r := Heap.get_set_ne hne _
  rw [remove, hget]
  exact (Heap.get_set_ne (Ne.symm ha) _).trans (Heap.get_set_ne (Ne.symm hb) _)

theorem get_addBefore_of_ne {u : Ref} (hr : r < h.size) (hb : befores h e < h.size)
    (hne : befores h e ≠ r) (hur : u ≠ r) (hue : u ≠ e) (hub : u ≠ befores h e) :
    (addBefore r e h).get u = h.get u := by
  rw [addBefore_eq hr hb hne]
  exact (Heap.get_set_ne (Ne.symm hue) _).trans ((Heap.get_set_ne (Ne.symm hub) _).trans
    ((Heap.get_set_ne (Ne.symm hur) _).trans (Heap.get_set_ne (Ne.symm hur) _)))

end Links

/-! ## The invariant -/

/-- The bucket an entry belongs to. -/
def inBucket (heap : Heap HeaderEntry) (i : Fin BUCKET_SIZE) (r : Ref) : Bool :=
  index (datas heap r).1 == i

/-- The headers of a list of entries. -/
def headersOf (heap : Heap HeaderEntry) (rs : List Ref) : HttpHeaders :=
  rs.map fun r => (datas heap r).2

/-- **The invariant**: the ring passes the entries `rs`, oldest first, and each bucket's chain
passes those of the bucket, newest first. -/
structure Represents (s : HeaderState) (rs : List Ref) : Prop where
  ring : Ring (afters s.heap) (befores s.heap) s.head rs
  bucket : ∀ i, Chain (nexts s.heap) (s.entries i) (rs.filter (inBucket s.heap i)).reverse
  hashed : ∀ r ∈ rs, (datas s.heap r).1 = hash (datas s.heap r).2.1
  allocated : ∀ r ∈ s.head :: rs, r < s.heap.size

theorem inBucket_congr {h h' : Heap HeaderEntry} (hd : datas h' = datas h) :
    inBucket h' = inBucket h := by
  funext i r
  rw [inBucket, inBucket, hd]

/-- What an operation on a table with the entries `rs` does not touch: keys and values, and every
object that is not of this table. -/
structure Frame (s s' : HeaderState) (rs : List Ref) : Prop where
  head : s'.head = s.head
  size : s.heap.size ≤ s'.heap.size
  data : ∀ r, r < s.heap.size → datas s'.heap r = datas s.heap r
  other : ∀ r, r < s.heap.size → r ∉ s.head :: rs → s'.heap.get r = s.heap.get r

variable {s s' s'' : HeaderState} {rs rs' xs ys : List Ref} {r e : Ref}

theorem Frame.refl (s : HeaderState) (rs : List Ref) : Frame s s rs :=
  ⟨rfl, Nat.le_refl _, fun _ _ => rfl, fun _ _ _ => rfl⟩

theorem Frame.trans (h : Frame s s' rs) (h' : Frame s' s'' rs')
    (hrs : ∀ r ∈ rs', r ∈ rs ∨ s.heap.size ≤ r) : Frame s s'' rs := by
  refine ⟨h'.head.trans h.head, Nat.le_trans h.size h'.size, fun r hr => ?_, fun r hr hnot => ?_⟩
  · exact (h'.data r (Nat.lt_of_lt_of_le hr h.size)).trans (h.data r hr)
  · refine (h'.other r (Nat.lt_of_lt_of_le hr h.size) ?_).trans (h.other r hr hnot)
    rw [h.head]
    intro hmem
    rcases List.mem_cons.mp hmem with rfl | hmem
    · exact hnot List.mem_cons_self
    · rcases hrs r hmem with hin | hle
      · exact hnot (List.mem_cons_of_mem _ hin)
      · exact absurd hr (Nat.not_lt.mpr hle)

namespace Represents

/-- There are fewer entries than objects: the head is one of them. -/
theorem length_lt_size (h : Represents s rs) : rs.length < s.heap.size :=
  length_le_of_nodup h.ring.nodup h.allocated

/-- An entry is told by its key alone. -/
theorem isOf_eq (h : Represents s rs) (name : JString) (hr : r ∈ rs) :
    (s.heap.get r).isOf (hash name) name = HttpHeaders.eq name (datas s.heap r).2.1 := by
  have hhash : (s.heap.get r).hash = hash (s.heap.get r).key := h.hashed r hr
  change _ = HttpHeaders.eq name (s.heap.get r).key
  cases heq : HttpHeaders.eq name (s.heap.get r).key with
  | false => simp [isOf, heq]
  | true => simp [isOf, heq, hhash, hash_congr heq]

/-- The entries of a name are in one bucket. -/
theorem inBucket_of_eq (h : Represents s rs) {name : JString} (hr : r ∈ rs)
    (heq : HttpHeaders.eq name (datas s.heap r).2.1 = true) :
    inBucket s.heap (index (hash name)) r = true := by
  rw [inBucket, h.hashed r hr, ← hash_congr heq]
  exact beq_self_eq_true _

/-- The cells next to an entry are cells of the ring, and other ones. -/
theorem neighbours (h : Represents s (xs ++ r :: ys)) :
    befores s.heap r ∈ s.head :: (xs ++ r :: ys) ∧ afters s.heap r ∈ s.head :: (xs ++ r :: ys) ∧
      befores s.heap r ≠ r := by
  have hb := h.ring.before_mem
  have ha := h.ring.after_mem
  have hnd := h.ring.nodup
  rw [← List.cons_append, List.nodup_append] at hnd
  refine ⟨?_, ?_, hnd.2.2 _ hb r List.mem_cons_self⟩
  · rw [← List.cons_append]
    exact List.mem_append_left _ hb
  · simp only [List.mem_append, List.mem_cons, List.not_mem_nil, or_false] at ha ⊢
    tauto

/-- **An entry leaves the ring**: `s'` is `s` with the links of the chains already set. -/
theorem unlink (h : Represents s (xs ++ r :: ys)) (s' : HeaderState) (hhead : s'.head = s.head)
    (hsize : s'.heap.size = s.heap.size) (hdata : datas s'.heap = datas s.heap)
    (hafter : afters s'.heap = afters s.heap) (hbefore : befores s'.heap = befores s.heap)
    (hchain : ∀ i, Chain (nexts s'.heap) (s'.entries i)
      ((xs ++ ys).filter (inBucket s.heap i)).reverse) :
    Represents { s' with heap := remove r s'.heap } (xs ++ ys) := by
  obtain ⟨hb, ha, hbr⟩ := h.neighbours
  have hsub : ∀ u ∈ xs ++ ys, u ∈ xs ++ r :: ys := by
    intro u hu
    rcases List.mem_append.mp hu with hu | hu
    · exact List.mem_append_left _ hu
    · exact List.mem_append_right _ (List.mem_cons_of_mem r hu)
  have hbucket : inBucket (remove r s'.heap) = inBucket s.heap :=
    inBucket_congr ((datas_remove ..).trans hdata)
  refine ⟨?_, fun i => ?_, fun u hu => ?_, fun u hu => ?_⟩ <;> dsimp only at *
  · rw [afters_remove (by rw [hbefore, hsize]; exact h.allocated _ hb),
      befores_remove (by rw [hafter, hsize]; exact h.allocated _ ha) (by rw [hbefore]; exact hbr),
      hafter, hbefore, hhead]
    exact h.ring.unlink
  · rw [nexts_remove, hbucket]
    exact hchain i
  · rw [datas_remove, hdata]
    exact h.hashed u (hsub u hu)
  · rw [size_remove, hsize]
    rw [hhead] at hu
    rcases List.mem_cons.mp hu with rfl | hu
    · exact h.allocated _ List.mem_cons_self
    · exact h.allocated u (List.mem_cons_of_mem _ (hsub u hu))

/-- What leaving the ring does not touch. -/
theorem frame_unlink (h : Represents s (xs ++ r :: ys)) (s' : HeaderState)
    (hhead : s'.head = s.head)
    (hsize : s'.heap.size = s.heap.size) (hdata : datas s'.heap = datas s.heap)
    (hafter : afters s'.heap = afters s.heap) (hbefore : befores s'.heap = befores s.heap)
    (hother : ∀ u, u ∉ s.head :: (xs ++ r :: ys) → s'.heap.get u = s.heap.get u) :
    Frame s { s' with heap := remove r s'.heap } (xs ++ r :: ys) := by
  obtain ⟨hb, ha, hbr⟩ := h.neighbours
  refine ⟨hhead, Nat.le_of_eq ?_, fun u _ => ?_, fun u _ hu => ?_⟩ <;> dsimp only
  · rw [size_remove, hsize]
  · rw [datas_remove, hdata]
  · rw [← hother u hu]
    rw [← hbefore] at hb hbr
    rw [← hafter] at ha
    exact get_remove_of_ne (ne_of_mem_of_not_mem hb hu).symm (ne_of_mem_of_not_mem ha hu).symm hbr

end Represents

/-! ## `removeHeader0` -/

/-- The place of an entry in its bucket is its place in the ring, from the other end. -/
theorem filter_reverse_of_append_cons {q : Ref → Bool} {us vs : List Ref}
    (hnd : (xs ++ r :: ys).Nodup) (hq : q r = true)
    (h : ((xs ++ r :: ys).filter q).reverse = us ++ r :: vs) :
    ((xs ++ ys).filter q).reverse = us ++ vs := by
  have hsplit : (ys.filter q).reverse ++ r :: (xs.filter q).reverse = us ++ r :: vs := by
    rw [← h]
    simp [hq]
  obtain ⟨-, hrest, hne⟩ := List.nodup_append.mp hnd
  have hys : r ∉ (ys.filter q).reverse := by
    have := (List.nodup_cons.mp hrest).1
    simp [this]
  have hxs : r ∉ (xs.filter q).reverse := by
    intro hm
    exact hne r (List.mem_of_mem_filter (List.mem_reverse.mp hm)) r List.mem_cons_self rfl
  obtain ⟨hu, -, hv⟩ := (List.append_cons_inj_of_notMem hys hxs).mp hsplit
  rw [List.filter_append, List.reverse_append, hu, hv]

/-- An entry that leaves a list it is in once. -/
theorem filter_of_append_cons_of_neg {q : Ref → Bool} (hq : q r = false) :
    (xs ++ ys).filter q = (xs ++ r :: ys).filter q := by
  simp [hq]

/-- The entry `r` has the name. -/
def isNamed (heap : Heap HeaderEntry) (name : JString) (r : Ref) : Bool :=
  HttpHeaders.eq name (datas heap r).2.1

theorem isNamed_congr {h h' : Heap HeaderEntry} (hd : datas h' = datas h) :
    isNamed h' = isNamed h := by
  funext name r
  rw [isNamed, isNamed, hd]

namespace Represents

variable {name : JString}

/-- The entries of other names in the order of the ring, when the bucket has no other ones. -/
theorem filter_eq_self (h : Represents s rs) (name : JString)
    (hno : ∀ u ∈ rs, inBucket s.heap (index (hash name)) u = true → isNamed s.heap name u = false) :
    rs.filter (fun u => !isNamed s.heap name u) = rs := by
  refine List.filter_eq_self.mpr fun u hu => ?_
  cases heq : isNamed s.heap name u with
  | false => rfl
  | true => exact absurd (hno u hu (h.inBucket_of_eq hu heq)) (by rw [heq]; exact Bool.noConfusion)

/-- One step of the second loop: the entry `r` behind `e` leaves its chain, and then the ring. -/
theorem skip {us vs : List Ref} {i : Fin BUCKET_SIZE} (h : Represents s (xs ++ r :: ys))
    (hin : inBucket s.heap i r = true)
    (hbucket : ((xs ++ r :: ys).filter (inBucket s.heap i)).reverse = us ++ e :: r :: vs) :
    Represents { s with heap := remove r (setNext e (s.heap.get r).next s.heap) } (xs ++ ys) ∧
      ((xs ++ ys).filter (inBucket s.heap i)).reverse = us ++ e :: vs ∧
      Frame s { s with heap := remove r (setNext e (s.heap.get r).next s.heap) }
        (xs ++ r :: ys) := by
  obtain ⟨he, hein⟩ : e ∈ xs ++ r :: ys ∧ inBucket s.heap i e = true := by
    rw [← List.mem_filter, ← List.mem_reverse, hbucket]
    simp
  have hlt := h.allocated e (List.mem_cons_of_mem _ he)
  have hbucket' : ((xs ++ ys).filter (inBucket s.heap i)).reverse = us ++ e :: vs := by
    have hsplit : us ++ e :: r :: vs = (us ++ [e]) ++ r :: vs := by simp
    rw [filter_reverse_of_append_cons h.ring.nodup_tail hin (hbucket.trans hsplit)]
    simp
  have hchain : ∀ j, Chain (nexts (setNext e (s.heap.get r).next s.heap)) (s.entries j)
      ((xs ++ ys).filter (inBucket s.heap j)).reverse := by
    intro j
    rw [nexts_setNext hlt]
    have hj := h.bucket j
    by_cases hij : i = j
    · subst hij
      rw [hbucket'] at *
      rw [hbucket] at hj
      refine hj.skip ?_
      rw [← hbucket, List.nodup_reverse]
      exact h.ring.nodup_tail.filter _
    · have hother : ∀ u, inBucket s.heap i u = true → inBucket s.heap j u = false := by
        intro u hu
        rw [inBucket, beq_iff_eq] at hu
        rw [inBucket, hu]
        exact beq_false_of_ne hij
      rw [filter_of_append_cons_of_neg (hother r hin)]
      refine hj.update_of_notMem fun hm => ?_
      have := List.of_mem_filter (List.mem_reverse.mp hm)
      rw [hother e hein] at this
      exact Bool.noConfusion this
  refine ⟨h.unlink { s with heap := setNext e (s.heap.get r).next s.heap } rfl
    (size_setNext ..) (datas_setNext ..) (afters_setNext ..) (befores_setNext ..) hchain, hbucket',
    h.frame_unlink { s with heap := setNext e (s.heap.get r).next s.heap } rfl
    (size_setNext ..) (datas_setNext ..) (afters_setNext ..) (befores_setNext ..) fun u hu => ?_⟩
  exact Heap.get_set_ne (ne_of_mem_of_not_mem (List.mem_cons_of_mem _ he) hu) _

/-- **The second loop** takes the entries of the name behind `e` out. -/
theorem removeBehind_spec {us vs : List Ref} {fuel : Nat} (h : Represents s rs)
    (hbucket : (rs.filter (inBucket s.heap (index (hash name)))).reverse = us ++ e :: vs)
    (hno : ∀ u ∈ us ++ [e], isNamed s.heap name u = false) (hfuel : vs.length < fuel) :
    ∃ s', removeBehind (hash name) name fuel e s = some s' ∧
      Represents s' (rs.filter fun u => !isNamed s.heap name u) ∧ Frame s s' rs := by
  induction fuel generalizing s rs us vs e with
  | zero => exact absurd hfuel (Nat.not_lt_zero _)
  | succ fuel ih =>
    have hchain := h.bucket (index (hash name))
    rw [hbucket] at hchain
    have hmem : ∀ u, u ∈ us ++ e :: vs ↔
        u ∈ rs ∧ inBucket s.heap (index (hash name)) u = true := by
      intro u
      rw [← hbucket, List.mem_reverse, List.mem_filter]
    cases vs with
    | nil =>
      have hend : (s.heap.get e).next = none := hchain.behind
      refine ⟨s, by rw [removeBehind, hend], ?_, Frame.refl s rs⟩
      rw [h.filter_eq_self name fun u hu hin => hno u ((hmem u).mpr ⟨hu, hin⟩)]
      exact h
    | cons r vs =>
      have hnext : (s.heap.get e).next = some r := hchain.behind.1
      obtain ⟨hr, hin⟩ := (hmem r).mp (by simp)
      have hof : (s.heap.get r).isOf (hash name) name = isNamed s.heap name r := h.isOf_eq name hr
      cases hnamed : isNamed s.heap name r with
      | false =>
        have hsplit : us ++ e :: r :: vs = (us ++ [e]) ++ r :: vs := by simp
        obtain ⟨s', hrun, hrep, hframe⟩ := ih (e := r) h (hbucket.trans hsplit) (fun u hu => by
          rcases List.mem_append.mp hu with hu | hu
          · exact hno u hu
          · rw [List.mem_singleton.mp hu, hnamed]) (Nat.lt_of_succ_lt_succ hfuel)
        refine ⟨s', ?_, hrep, hframe⟩
        rw [removeBehind, hnext]
        simp only [hof, hnamed]
        exact hrun
      | true =>
        obtain ⟨xs, ys, rfl⟩ := List.append_of_mem hr
        obtain ⟨hrep1, hbucket1, hframe1⟩ := h.skip hin hbucket
        have hdata : datas (remove r (setNext e (s.heap.get r).next s.heap)) = datas s.heap := by
          rw [datas_remove, datas_setNext]
        have hname := isNamed_congr hdata
        obtain ⟨s', hrun, hrep, hframe⟩ := ih hrep1
          (by rw [inBucket_congr hdata]; exact hbucket1) (by rw [hname]; exact hno)
          (Nat.lt_of_succ_lt_succ hfuel)
        refine ⟨s', ?_, ?_, hframe1.trans hframe fun u hu => .inl ?_⟩
        · rw [removeBehind, hnext]
          simp only [hof, hnamed]
          exact hrun
        · rw [hname] at hrep
          rw [← filter_of_append_cons_of_neg (r := r) (by rw [hnamed]; rfl)]
          exact hrep
        · simp only [List.mem_append, List.mem_cons] at hu ⊢
          tauto

/-- One step of the first loop: the first entry of a bucket leaves the ring, and the bucket starts
with the next one. -/
theorem dropFirst {vs : List Ref} {i : Fin BUCKET_SIZE} (h : Represents s (xs ++ r :: ys))
    (hin : inBucket s.heap i r = true)
    (hbucket : ((xs ++ r :: ys).filter (inBucket s.heap i)).reverse = r :: vs) :
    Represents { s with entries := update s.entries i (s.heap.get r).next,
                        heap := remove r s.heap } (xs ++ ys) ∧
      ((xs ++ ys).filter (inBucket s.heap i)).reverse = vs ∧
      Frame s { s with entries := update s.entries i (s.heap.get r).next,
                       heap := remove r s.heap } (xs ++ r :: ys) := by
  have hbucket' : ((xs ++ ys).filter (inBucket s.heap i)).reverse = vs :=
    filter_reverse_of_append_cons h.ring.nodup_tail hin (hbucket.trans (List.nil_append _).symm)
  have hchain : ∀ j, Chain (nexts s.heap) (update s.entries i (s.heap.get r).next j)
      ((xs ++ ys).filter (inBucket s.heap j)).reverse := by
    intro j
    have hj := h.bucket j
    by_cases hij : j = i
    · subst hij
      rw [hbucket] at hj
      rw [Function.update_self, hbucket']
      exact hj.2
    · have hother : inBucket s.heap j r = false := by
        rw [inBucket, beq_iff_eq] at hin
        rw [inBucket, hin]
        exact beq_false_of_ne (Ne.symm hij)
      rw [Function.update_of_ne hij, filter_of_append_cons_of_neg hother]
      exact hj
  exact ⟨h.unlink { s with entries := update s.entries i (s.heap.get r).next } rfl rfl rfl
    rfl rfl hchain, hbucket',
    h.frame_unlink { s with entries := update s.entries i (s.heap.get r).next } rfl rfl rfl
    rfl rfl fun _ _ => rfl⟩

/-- **The first loop** takes the entries of the name at the front of the bucket out, and leaves the
others to the second one. -/
theorem removeFront_spec {vs : List Ref} {fuel : Nat} (h : Represents s rs)
    (hbucket : (rs.filter (inBucket s.heap (index (hash name)))).reverse = e :: vs)
    (hfuel : vs.length + 1 < fuel) :
    ∃ s', removeFront (hash name) (index (hash name)) name fuel e s = some s' ∧
      Represents s' (rs.filter fun u => !isNamed s.heap name u) ∧ Frame s s' rs := by
  induction fuel generalizing s rs vs e with
  | zero => exact absurd hfuel (Nat.not_lt_zero _)
  | succ fuel ih =>
    have hchain := h.bucket (index (hash name))
    rw [hbucket] at hchain
    obtain ⟨he, hin⟩ : e ∈ rs ∧ inBucket s.heap (index (hash name)) e = true := by
      rw [← List.mem_filter, ← List.mem_reverse, hbucket]
      exact List.mem_cons_self
    have hof : (s.heap.get e).isOf (hash name) name = isNamed s.heap name e := h.isOf_eq name he
    cases hnamed : isNamed s.heap name e with
    | false =>
      obtain ⟨s', hrun, hrep, hframe⟩ := h.removeBehind_spec
        (hbucket.trans (List.nil_append _).symm)
        (fun u hu => by rw [List.mem_singleton.mp hu, hnamed])
        (Nat.lt_of_succ_lt_succ hfuel)
      refine ⟨s', ?_, hrep, hframe⟩
      rw [removeFront]
      simp only [hof, hnamed]
      exact hrun
    | true =>
      obtain ⟨xs, ys, rfl⟩ := List.append_of_mem he
      obtain ⟨hrep1, hbucket1, hframe1⟩ := h.dropFirst hin hbucket
      have hdata : datas (remove e s.heap) = datas s.heap := datas_remove ..
      have hname := isNamed_congr hdata
      have hfilter : (xs ++ ys).filter (fun u => !isNamed s.heap name u) =
          (xs ++ e :: ys).filter fun u => !isNamed s.heap name u :=
        filter_of_append_cons_of_neg (by rw [hnamed]; rfl)
      have hlink : ((remove e s.heap).get e).next = (s.heap.get e).next :=
        congrFun (nexts_remove s.heap e) e
      cases vs with
      | nil =>
        have hend : (s.heap.get e).next = none := hchain.2
        rw [hend] at hrep1 hframe1 hlink
        refine ⟨_, ?_, ?_, hframe1⟩
        · rw [removeFront]
          simp only [hof, hnamed, if_true, hlink]
        · rw [← hfilter, List.filter_eq_self.mpr]
          · exact hrep1
          · have hno := hrep1.filter_eq_self name fun u hu hin' => by
              have : u ∈ ((xs ++ ys).filter (inBucket s.heap (index (hash name)))).reverse := by
                rw [← inBucket_congr hdata, List.mem_reverse, List.mem_filter]
                exact ⟨hu, hin'⟩
              rw [hbucket1] at this
              exact absurd this List.not_mem_nil
            rw [hname] at hno
            exact List.filter_eq_self.mp hno
      | cons r vs =>
        have hnext : (s.heap.get e).next = some r := hchain.2.1
        rw [hnext] at hrep1 hframe1 hlink
        obtain ⟨s', hrun, hrep, hframe⟩ := ih hrep1
          (by rw [inBucket_congr hdata]; exact hbucket1) (Nat.lt_of_succ_lt_succ hfuel)
        refine ⟨s', ?_, ?_, hframe1.trans hframe fun u hu => .inl ?_⟩
        · rw [removeFront]
          simp only [hof, hnamed, if_true, hlink]
          exact hrun
        · rw [hname, hfilter] at hrep
          exact hrep
        · simp only [List.mem_append, List.mem_cons] at hu ⊢
          tauto

/-- **`removeHeader0`** ends, and takes the entries of the name out. -/
theorem removeHeader0_spec (h : Represents s rs) (name : JString) :
    ∃ s', removeHeader0 (hash name) (index (hash name)) name s = some s' ∧
      Represents s' (rs.filter fun u => !isNamed s.heap name u) ∧ Frame s s' rs := by
  have hchain := h.bucket (index (hash name))
  cases hlist : (rs.filter (inBucket s.heap (index (hash name)))).reverse with
  | nil =>
    rw [hlist] at hchain
    refine ⟨s, by rw [removeHeader0, chain_nil.mp hchain], ?_, Frame.refl s rs⟩
    rw [h.filter_eq_self name fun u hu hin => ?_]
    · exact h
    · have : u ∈ (rs.filter (inBucket s.heap (index (hash name)))).reverse :=
        List.mem_reverse.mpr (List.mem_filter.mpr ⟨hu, hin⟩)
      rw [hlist] at this
      exact absurd this List.not_mem_nil
  | cons e vs =>
    rw [hlist] at hchain
    have hlen : vs.length + 1 ≤ rs.length := by
      have : (e :: vs).length ≤ rs.length := by
        rw [← hlist, List.length_reverse]
        exact List.length_filter_le ..
      exact this
    rw [removeHeader0, hchain.1]
    exact h.removeFront_spec hlist (Nat.lt_of_le_of_lt hlen h.length_lt_size)

end Represents

/-! ## `addHeader0` -/

/-- The heap `addHeader0` links the new entry on. -/
def withEntry (s : HeaderState) (h : Int32) (i : Fin BUCKET_SIZE) (name value : JString) :
    Heap HeaderEntry :=
  setNext s.heap.size (s.entries i) (s.heap.alloc (HeaderEntry.new h name value)).2

section WithEntry

variable (s : HeaderState) (h : Int32) (i : Fin BUCKET_SIZE) (name value : JString)

theorem size_withEntry : (withEntry s h i name value).size = s.heap.size + 1 :=
  (size_setNext ..).trans (Heap.size_alloc ..)

theorem get_withEntry_of_lt (hr : r < s.heap.size) :
    (withEntry s h i name value).get r = s.heap.get r := by
  rw [withEntry, setNext, Heap.get_set_ne (Nat.ne_of_gt hr), Heap.get_alloc_of_lt hr]

theorem get_withEntry_self :
    (withEntry s h i name value).get s.heap.size =
      { HeaderEntry.new h name value with next := s.entries i } := by
  rw [withEntry, setNext, Heap.get_set_self (by simp), Heap.get_alloc_self]

theorem addHeader0_eq :
    addHeader0 h i name value s =
      { s with entries := update s.entries i (some s.heap.size),
               heap := addBefore s.heap.size s.head (withEntry s h i name value) } := rfl

end WithEntry

/-- **`addHeader0`** puts a new entry at the end of the ring and in front of its bucket. -/
theorem Represents.addHeader0_spec (h : Represents s rs) (name value : JString) :
    Represents (addHeader0 (hash name) (index (hash name)) name value s) (rs ++ [s.heap.size]) ∧
      Frame s (addHeader0 (hash name) (index (hash name)) name value s) rs ∧
      datas (addHeader0 (hash name) (index (hash name)) name value s).heap s.heap.size =
        (hash name, name, value) := by
  rw [addHeader0_eq]
  have hold : ∀ u, u < s.heap.size →
      (withEntry s (hash name) (index (hash name)) name value).get u = s.heap.get u :=
    fun u hu => get_withEntry_of_lt s _ _ _ _ hu
  have hself := get_withEntry_self s (hash name) (index (hash name)) name value
  have hsize := size_withEntry s (hash name) (index (hash name)) name value
  generalize withEntry s (hash name) (index (hash name)) name value = heap at *
  have hhead : s.head < s.heap.size := h.allocated _ List.mem_cons_self
  have hfresh : s.heap.size ∉ s.head :: rs := fun hm => Nat.lt_irrefl _ (h.allocated _ hm)
  have hbefore : befores heap s.head = befores s.heap s.head := Heap.field_congr (hold _ hhead) _
  have hlast : befores heap s.head ∈ s.head :: rs := by
    rw [hbefore]
    exact h.ring.linked.before_mem
  have hb : befores heap s.head < heap.size := by
    rw [hsize]
    exact Nat.lt_succ_of_lt (h.allocated _ hlast)
  have hne : befores heap s.head ≠ s.heap.size := ne_of_mem_of_not_mem hlast hfresh
  have hr : s.heap.size < heap.size := by omega
  have hdata : ∀ u, u < s.heap.size → datas heap u = datas s.heap u :=
    fun u hu => Heap.field_congr (hold u hu) _
  have hentry : datas heap s.heap.size = (hash name, name, value) :=
    congrArg HeaderEntry.data hself
  refine ⟨⟨?_, fun i => ?_, fun u hu => ?_, fun u hu => ?_⟩, ⟨rfl, ?_, fun u hu => ?_,
    fun u hu hnot => ?_⟩, ?_⟩ <;> dsimp only at *
  · rw [afters_addBefore hr hb hne, befores_addBefore hr (Nat.lt_trans hhead hr) hb hne]
    refine Ring.push (h.ring.congr (fun u hu => ?_) fun u hu => ?_) hfresh
    · exact Heap.field_congr (hold u (h.allocated u hu)).symm _
    · exact Heap.field_congr (hold u (h.allocated u hu)).symm _
  · rw [nexts_addBefore, inBucket_congr (datas_addBefore ..)]
    have hfilter : rs.filter (inBucket heap i) = rs.filter (inBucket s.heap i) := by
      refine List.filter_congr fun u hu => ?_
      rw [inBucket, hdata u (h.allocated u (List.mem_cons_of_mem _ hu)), inBucket]
    have hchain : Chain (nexts heap) (s.entries i) (rs.filter (inBucket s.heap i)).reverse := by
      refine (chain_congr fun u hu => ?_).mp (h.bucket i)
      have hu := List.mem_of_mem_filter (List.mem_reverse.mp hu)
      exact Heap.field_congr (hold u (h.allocated u (List.mem_cons_of_mem _ hu))).symm _
    rw [List.filter_append, hfilter]
    by_cases hi : i = index (hash name)
    · have hin : inBucket heap i s.heap.size = true := by
        rw [inBucket, hentry, hi]
        exact beq_self_eq_true _
      subst hi
      rw [List.filter_singleton, hin, Function.update_self]
      simp only [cond_true, List.reverse_append, List.reverse_singleton, List.singleton_append]
      have hlink : nexts heap s.heap.size = s.entries (index (hash name)) :=
        congrArg HeaderEntry.next hself
      refine ⟨rfl, ?_⟩
      rw [hlink]
      exact hchain
    · have hin : inBucket heap i s.heap.size = false := by
        rw [inBucket, hentry]
        exact beq_false_of_ne (Ne.symm hi)
      rw [List.filter_singleton, hin, Function.update_of_ne hi]
      simp only [cond_false, List.append_nil]
      exact hchain
  · rw [datas_addBefore]
    rcases List.mem_append.mp hu with hu | hu
    · rw [hdata u (h.allocated u (List.mem_cons_of_mem _ hu))]
      exact h.hashed u hu
    · rw [List.mem_singleton.mp hu, hentry]
  · rw [size_addBefore, hsize]
    rw [← List.cons_append] at hu
    rcases List.mem_append.mp hu with hu | hu
    · exact Nat.lt_succ_of_lt (h.allocated u hu)
    · rw [List.mem_singleton.mp hu]
      exact Nat.lt_succ_self _
  · rw [size_addBefore, hsize]
    exact Nat.le_succ _
  · rw [datas_addBefore, hdata u hu]
  · rw [get_addBefore_of_ne hr hb hne (Nat.ne_of_lt hu)
      (fun he => hnot (by rw [he]; exact List.mem_cons_self))
      (ne_of_mem_of_not_mem hlast hnot).symm, hold u hu]
  · rw [datas_addBefore, hentry]

/-! ## Creation and `clearHeaders` -/

/-- **A new table** is empty, and every object that was there is as it was. -/
theorem represents_new (heap : Heap HeaderEntry) :
    Represents (new heap) [] ∧ heap.size < (new heap).heap.size ∧ (new heap).head = heap.size ∧
      ∀ u, u < heap.size → (new heap).heap.get u = heap.get u := by
  have hsize : (heap.alloc (HeaderEntry.new (-1) [] [])).2.size = heap.size + 1 :=
    Heap.size_alloc ..
  have hlt : heap.size < (heap.alloc (HeaderEntry.new (-1) [] [])).2.size := by omega
  have hnew : new heap = ⟨⟨fun _ => none, heap.size⟩, setBefore heap.size heap.size
      (setAfter heap.size heap.size (heap.alloc (HeaderEntry.new (-1) [] [])).2)⟩ := rfl
  rw [hnew]
  refine ⟨⟨Ring.nil ?_ ?_, fun i => rfl, fun u hu => absurd hu List.not_mem_nil, fun u hu => ?_⟩,
    ?_, rfl, fun u hu => ?_⟩ <;> dsimp only
  · rw [afters_setBefore, afters_setAfter hlt, Function.update_self]
  · rw [befores_setBefore (by simp), Function.update_self]
  · rw [List.mem_singleton.mp hu]
    simp
  · simp
  · have hne : heap.size ≠ u := Nat.ne_of_gt hu
    exact (Heap.get_set_ne hne _).trans ((Heap.get_set_ne hne _).trans (Heap.get_alloc_of_lt hu _))

/-- **`clearHeaders`** leaves the head alone in the ring. -/
theorem Represents.clearHeaders_spec (h : Represents s rs) :
    Represents (clearHeaders s) [] ∧ Frame s (clearHeaders s) rs := by
  have hlt : s.head < s.heap.size := h.allocated _ List.mem_cons_self
  refine ⟨⟨Ring.nil ?_ ?_, fun i => rfl, fun u hu => absurd hu List.not_mem_nil, fun u hu => ?_⟩,
    rfl, ?_, fun u _ => ?_, fun u _ hu => ?_⟩ <;> dsimp only [clearHeaders] at *
  · rw [afters_setBefore, afters_setAfter hlt, Function.update_self]
  · rw [befores_setBefore (by simpa using hlt), Function.update_self]
  · rw [List.mem_singleton.mp hu]
    simpa using hlt
  · simp
  · rw [datas_setBefore, datas_setAfter]
  · have hne : s.head ≠ u := fun he => hu (by rw [he]; exact List.mem_cons_self)
    exact (Heap.get_set_ne hne _).trans (Heap.get_set_ne hne _)

/-! ## Reading -/

/-- The loop of `getHeader` along a chain that ends. -/
theorem findValue_of_chain {heap : Heap HeaderEntry} {l : Option Ref} {fuel : Nat} {h : Int32}
    {name : JString} (hchain : Chain (nexts heap) l rs) (hfuel : rs.length ≤ fuel) :
    findValue h name heap fuel l =
      some ((rs.find? fun r => (heap.get r).isOf h name).map fun r => (heap.get r).value) := by
  induction rs generalizing l fuel with
  | nil =>
    rw [chain_nil.mp hchain]
    cases fuel <;> rfl
  | cons r rs ih =>
    obtain ⟨rfl, hrest⟩ := hchain
    cases fuel with
    | zero => exact absurd hfuel (Nat.not_succ_le_zero _)
    | succ fuel =>
      rw [findValue, List.find?_cons]
      cases (heap.get r).isOf h name with
      | true => rfl
      | false => exact ih hrest (Nat.le_of_succ_le_succ hfuel)

/-- The loop of `getHeaders(name)` along a chain that ends. -/
theorem collectValues_of_chain {heap : Heap HeaderEntry} {l : Option Ref} {fuel : Nat} {h : Int32}
    {name : JString} (hchain : Chain (nexts heap) l rs) (hfuel : rs.length ≤ fuel)
    (values : List JString) :
    collectValues h name heap fuel l values =
      some (((rs.filter fun r => (heap.get r).isOf h name).map
        fun r => (heap.get r).value).reverse ++ values) := by
  induction rs generalizing l fuel values with
  | nil =>
    rw [chain_nil.mp hchain]
    cases fuel <;> rfl
  | cons r rs ih =>
    obtain ⟨rfl, hrest⟩ := hchain
    cases fuel with
    | zero => exact absurd hfuel (Nat.not_succ_le_zero _)
    | succ fuel =>
      rw [collectValues, List.filter_cons]
      refine (ih hrest (Nat.le_of_succ_le_succ hfuel) _).trans ?_
      cases (heap.get r).isOf h name <;> simp

namespace Represents

/-- The entries of a name among those of its bucket. -/
theorem filter_bucket (h : Represents s rs) (name : JString) :
    ((rs.filter (inBucket s.heap (index (hash name)))).reverse.filter
      fun r => (s.heap.get r).isOf (hash name) name) =
    (rs.filter (isNamed s.heap name)).reverse := by
  rw [List.filter_reverse, List.filter_filter]
  refine congrArg List.reverse (List.filter_congr fun r hr => ?_)
  have hof : (s.heap.get r).isOf (hash name) name = isNamed s.heap name r := h.isOf_eq name hr
  rw [hof]
  cases hnamed : isNamed s.heap name r with
  | false => rfl
  | true => rw [h.inBucket_of_eq hr hnamed]; rfl

theorem length_bucket_le (h : Represents s rs) (i : Fin BUCKET_SIZE) :
    (rs.filter (inBucket s.heap i)).reverse.length ≤ s.heap.size := by
  rw [List.length_reverse]
  exact Nat.le_trans (List.length_filter_le ..) (Nat.le_of_lt h.length_lt_size)

/-- **`getHeader`** ends, with the value of the last entry of the name. -/
theorem getHeader_spec (h : Represents s rs) (name : JString) :
    getHeader (some name) s = some (.ok ((headersOf s.heap rs).getHeader name)) := by
  rw [getHeader, findValue_of_chain (h.bucket _) (h.length_bucket_le _), ← List.head?_filter,
    h.filter_bucket, HttpHeaders.getHeader, headersOf, ← List.map_reverse, List.find?_map,
    ← List.head?_filter, List.filter_reverse]
  simp only [Option.map_some, Option.map_map]
  rfl

/-- **`getHeaders(name)`** ends, with the values of the name in the order they were added. -/
theorem getHeaders_spec (h : Represents s rs) (name : JString) :
    getHeaders (some name) s = some (.ok ((headersOf s.heap rs).getHeaders name)) := by
  rw [getHeaders, collectValues_of_chain (h.bucket _) (h.length_bucket_le _), h.filter_bucket,
    HttpHeaders.getHeaders, headersOf, List.filter_map]
  simp only [Option.map_some, List.map_reverse, List.reverse_reverse, List.append_nil, List.map_map]
  rfl

/-- **`getHeaders()`** ends, with the headers in the order they were added. -/
theorem getAllHeaders_spec (h : Represents s rs) :
    getAllHeaders s = some (headersOf s.heap rs) := by
  have hwalk := h.ring.walk_eq (Nat.le_of_lt h.length_lt_size)
  rw [getAllHeaders]
  exact congrArg (Option.map _) hwalk

end Represents

end Terminator.Netty.HeaderTable
