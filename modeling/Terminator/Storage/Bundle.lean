import Terminator.Netty.Http

/-!
# Bundles, and the state the components of a link share

A `RequestResponseBundle` is what a storage keeps under a key. Its fields have type `Object` in
the source and start as `null`; `none` is `null`.

The handlers of a link, its storage and its plugins work on the same message objects. `World σ`
is what they share: the heap with the content buffers, and `hidden`, whatever the storage and
the plugins keep to themselves.
-/

namespace Terminator.Storage

open Terminator.Java Terminator.Netty

/-- `RequestResponseBundle`. -/
structure RequestResponseBundle (β : Type) where
  request : Option (HttpObject β)
  response : Option (HttpObject β)
  deriving DecidableEq

namespace RequestResponseBundle

variable {β γ : Type}

/-- `new RequestResponseBundle()`. -/
def empty : RequestResponseBundle β := ⟨none, none⟩

def map (f : β → γ) (b : RequestResponseBundle β) : RequestResponseBundle γ :=
  ⟨b.request.map (HttpObject.map f), b.response.map (HttpObject.map f)⟩

/-- The value of a bundle's objects at the heap `h`. -/
def deref (h : Heap ChannelBuffer) (b : RequestResponseBundle Ref) :
    RequestResponseBundle ChannelBuffer := b.map h.get

@[simp] theorem deref_empty (h : Heap ChannelBuffer) : empty.deref h = empty := rfl

/-- The objects a bundle holds, through their buffers. -/
def Mentions (b : RequestResponseBundle Ref) (r : Ref) : Prop :=
  ∃ m, (b.request = some m ∨ b.response = some m) ∧ m.content = r

/-- Two heaps that agree on the objects of a bundle agree on its value. -/
theorem deref_congr {h h' : Heap ChannelBuffer} {b : RequestResponseBundle Ref}
    (hb : ∀ r, b.Mentions r → h.get r = h'.get r) : b.deref h = b.deref h' := by
  obtain ⟨request, response⟩ := b
  have hmap : ∀ o : Option (HttpObject Ref), (o = request ∨ o = response) →
      o.map (HttpObject.map h.get) = o.map (HttpObject.map h'.get) := by
    intro o ho
    cases o with
    | none => rfl
    | some m =>
      have hm : h.get m.content = h'.get m.content := by
        refine hb _ ⟨m, ?_, rfl⟩
        rcases ho with ho | ho
        · exact .inl ho.symm
        · exact .inr ho.symm
      simp only [Option.map_some, HttpObject.map_congr hm]
  simp only [deref, map, mk.injEq]
  exact ⟨hmap request (.inl rfl), hmap response (.inr rfl)⟩

/-- An object of a bundle that was read back: a fresh one, if there is one. -/
def allocObject (o : Option (HttpObject ChannelBuffer)) (h : Heap ChannelBuffer) :
    Option (HttpObject Ref) × Heap ChannelBuffer :=
  match o with
  | none => (none, h)
  | some m => (some (m.deliver h).1, (m.deliver h).2)

/-- A bundle that was read back: its objects are fresh ones. -/
def alloc (b : RequestResponseBundle ChannelBuffer) (h : Heap ChannelBuffer) :
    RequestResponseBundle Ref × Heap ChannelBuffer :=
  let request := allocObject b.request h
  let response := allocObject b.response request.2
  (⟨request.1, response.1⟩, response.2)

/-- Reading an object back takes nothing away and gives an object of its value. -/
theorem allocObject_spec (o : Option (HttpObject ChannelBuffer)) (h : Heap ChannelBuffer) :
    h.size ≤ (allocObject o h).2.size ∧
      (∀ r < h.size, (allocObject o h).2.get r = h.get r) ∧
      ∀ h' : Heap ChannelBuffer,
        (∀ r < (allocObject o h).2.size, h'.get r = (allocObject o h).2.get r) →
        (allocObject o h).1.map (HttpObject.map h'.get) = o := by
  cases o with
  | none => exact ⟨Nat.le_refl _, fun _ _ => rfl, fun _ _ => rfl⟩
  | some m =>
    have hsize : (allocObject (some m) h).2.size = h.size + 1 := HttpObject.size_deliver m h
    refine ⟨by omega, fun r hr => HttpObject.get_deliver_of_lt hr m, fun h' hh' => ?_⟩
    have hself := hh' (m.deliver h).1.content (by rw [hsize, HttpObject.content_deliver]; omega)
    have hcongr : (m.deliver h).1.deref h' = (m.deliver h).1.deref (m.deliver h).2 :=
      HttpObject.deref_congr hself
    rw [HttpObject.deref_deliver] at hcongr
    exact congrArg some hcongr

/-- **A bundle that was read back** has the value that was read, and nothing else changes. -/
theorem alloc_spec (b : RequestResponseBundle ChannelBuffer) (h : Heap ChannelBuffer) :
    (b.alloc h).1.deref (b.alloc h).2 = b ∧ h.size ≤ (b.alloc h).2.size ∧
      ∀ r < h.size, (b.alloc h).2.get r = h.get r := by
  obtain ⟨request, response⟩ := b
  obtain ⟨hsize, hold, hval⟩ := allocObject_spec request h
  obtain ⟨hsize', hold', hval'⟩ := allocObject_spec response (allocObject request h).2
  refine ⟨?_, Nat.le_trans hsize hsize', fun r hr => ?_⟩
  · simp only [deref, alloc, map, mk.injEq]
    exact ⟨hval _ hold', hval' _ fun _ _ => rfl⟩
  · exact (hold' r (Nat.lt_of_lt_of_le hr hsize)).trans (hold r hr)

/-- The objects of a bundle that was read back are allocated. -/
theorem lt_of_mentions_alloc {b : RequestResponseBundle ChannelBuffer} {h : Heap ChannelBuffer}
    {r : Ref} (hr : (b.alloc h).1.Mentions r) : r < (b.alloc h).2.size := by
  have hobject : ∀ (o : Option (HttpObject ChannelBuffer)) (h : Heap ChannelBuffer) (m),
      (allocObject o h).1 = some m → m.content < (allocObject o h).2.size := by
    intro o h m hm
    cases o with
    | none => cases hm
    | some o =>
      have hsize : (allocObject (some o) h).2.size = h.size + 1 := HttpObject.size_deliver o h
      have hm' : (o.deliver h).1 = m := Option.some.inj hm
      rw [← hm', HttpObject.content_deliver, hsize]
      exact Nat.lt_succ_self _
  obtain ⟨m, hm | hm, rfl⟩ := hr
  · exact Nat.lt_of_lt_of_le (hobject b.request h m hm) (allocObject_spec b.response _).1
  · exact hobject b.response _ m hm

end RequestResponseBundle

/-- What the components of a link share. -/
structure World (σ : Type) where
  heap : Heap ChannelBuffer
  hidden : σ

namespace World

variable {σ α : Type}

/-- A method that only works on message objects. -/
def onHeap (x : Method (Heap ChannelBuffer) α) : Method (World σ) α :=
  zoom World.heap (fun h w => { w with heap := h }) x

theorem run_onHeap_of_ok {x : Method (Heap ChannelBuffer) α} {w : World σ} {a : α}
    {h : Heap ChannelBuffer} (hx : x.run w.heap = .ok a h) :
    (onHeap x).run w = .ok a { w with heap := h } := run_zoom_of_ok hx

theorem run_onHeap_of_error {x : Method (Heap ChannelBuffer) α} {w : World σ} {e : Throwable}
    {h : Heap ChannelBuffer} (hx : x.run w.heap = .error e h) :
    (onHeap x).run w = .error e { w with heap := h } := run_zoom_of_error hx

/-- A method that takes no object away from the world and leaves those with `keep` alone. -/
def Preserves (keep : Ref → Prop) (x : Method (World σ) α) : Prop :=
  ∀ w, w.heap.size ≤ (after (x.run w)).heap.size ∧
    ∀ r < w.heap.size, keep r → (after (x.run w)).heap.get r = w.heap.get r

theorem Preserves.mono {keep keep' : Ref → Prop} {x : Method (World σ) α} (hx : Preserves keep x)
    (h : ∀ r, keep' r → keep r) : Preserves keep' x :=
  fun w => ⟨(hx w).1, fun r hr hk => (hx w).2 r hr (h r hk)⟩

/-- What two statements leave alone, their sequence does. -/
theorem preserves_bind {β : Type} {keep : Ref → Prop} {x : Method (World σ) α}
    {f : α → Method (World σ) β} (hx : Preserves keep x) (hf : ∀ a, Preserves keep (f a)) :
    Preserves keep (x >>= f) := by
  intro w
  obtain ⟨hsize, hget⟩ := hx w
  cases hrun : x.run w with
  | error e w' =>
    rw [hrun, after_error] at hsize hget
    rw [run_bind_of_error hrun, after_error]
    exact ⟨hsize, hget⟩
  | ok a w' =>
    rw [hrun, after_ok] at hsize hget
    rw [run_bind_of_ok hrun]
    obtain ⟨hsize', hget'⟩ := hf a w'
    refine ⟨Nat.le_trans hsize hsize', fun r hr hk => ?_⟩
    rw [hget' r (Nat.lt_of_lt_of_le hr hsize) hk, hget r hr hk]

theorem preserves_onHeap {keep : Ref → Prop} {x : Method (Heap ChannelBuffer) α}
    (hx : ∀ h, h.size ≤ (after (x.run h)).size ∧
      ∀ r < h.size, keep r → (after (x.run h)).get r = h.get r) :
    Preserves keep (onHeap x : Method (World σ) α) := by
  intro w
  rw [onHeap, after_zoom]
  exact hx w.heap

theorem preserves_onHeap_of_keeps {keep : Ref → Prop} {x : Method (Heap ChannelBuffer) α}
    (hx : Keeps id x) : Preserves keep (onHeap x : Method (World σ) α) :=
  preserves_onHeap fun h => by
    rw [show after (x.run h) = h from hx h]
    exact ⟨Nat.le_refl _, fun _ _ _ => rfl⟩

/-- A component that keeps only a part of the hidden state, read by `get` and written by `set`. -/
def component {τ : Type} (get : σ → τ) (set : τ → σ → σ) (x : Method (World τ) α) :
    Method (World σ) α :=
  zoom (fun w => ⟨w.heap, get w.hidden⟩) (fun t w => ⟨t.heap, set t.hidden w.hidden⟩) x

theorem run_component_of_ok {τ : Type} {get : σ → τ} {set : τ → σ → σ} {x : Method (World τ) α}
    {w : World σ} {a : α} {t : World τ} (hx : x.run ⟨w.heap, get w.hidden⟩ = .ok a t) :
    (component get set x).run w = .ok a ⟨t.heap, set t.hidden w.hidden⟩ := run_zoom_of_ok hx

/-- A component of the first part of the hidden state leaves the second alone. -/
theorem keeps_component_fst {τ : Type} (x : Method (World σ) α) :
    Keeps (fun w : World (σ × τ) => w.hidden.2) (component Prod.fst (fun t h => (t, h.2)) x) :=
  keeps_zoom x fun _ _ => rfl

theorem preserves_component {τ : Type} {get : σ → τ} {set : τ → σ → σ} {keep : Ref → Prop}
    {x : Method (World τ) α} (hx : Preserves keep x) :
    Preserves keep (component get set x : Method (World σ) α) := by
  intro w
  rw [component, after_zoom]
  exact hx ⟨w.heap, get w.hidden⟩

end World

end Terminator.Storage
