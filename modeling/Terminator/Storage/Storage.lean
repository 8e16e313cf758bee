import Mathlib.Data.List.Induction
import Terminator.Plugin.Matcher
import Terminator.Plugin.MD5
import Terminator.Storage.Bundle

/-!
# Storages

`Storage.java`, split by who calls it: `RecordStorage` is what recording and replaying use,
`StubStorage` what the stub handler uses. No operation of either changes a message object.

What a `RecordStorage` is for is a last-write-wins map, stated without its representation: a
`History` lists the bundles put, with the values their objects had, and `lookup` is the bundle put
last under a key. `Refines S` says that `S` implements it, but for the keys it has lost; the frame
rule `holds_of_heap` is for a storage that keeps references, whose contents depend on objects other
components can reach.
-/

namespace Terminator.Storage

open Terminator.Java Terminator.Netty Terminator.Plugin

/-- `Storage`, as recording and replaying use it. -/
structure RecordStorage (σ : Type) where
  putRecordData : JString → RequestResponseBundle Ref → Method (World σ) Unit
  getRecordData : JString → Method (World σ) (RequestResponseBundle Ref)
  put_preserves : ∀ key bundle, World.Preserves (fun _ => True) (putRecordData key bundle)
  get_preserves : ∀ key, World.Preserves (fun _ => True) (getRecordData key)

/-- `Storage`, as the stub handler uses it: the list `getStubData` returns, and what becomes of it
when it is sorted in place. -/
structure StubStorage (σ : Type) where
  getStubData : Method (World σ) (List StubData)
  sorted : List StubData → σ → σ
  getStubData_preserves : World.Preserves (fun _ => True) getStubData

/-! ## The abstract storage -/

/-- The bundles put so far, the last one at the end. -/
abbrev History := List (JString × RequestResponseBundle ChannelBuffer)

/-- The bundle put last under a key, the empty bundle if there is none. -/
def lookup (hist : History) (key : JString) : RequestResponseBundle ChannelBuffer :=
  match hist.reverse.find? fun p => p.1 == key with
  | some p => p.2
  | none => .empty

/-- A put is seen under its own key and under no other. -/
theorem lookup_concat (hist : History) (key : JString) (b : RequestResponseBundle ChannelBuffer)
    (key' : JString) :
    lookup (hist ++ [(key, b)]) key' = if key = key' then b else lookup hist key' := by
  unfold lookup
  rw [List.reverse_append, List.reverse_singleton, List.singleton_append, List.find?_cons]
  by_cases h : key = key'
  · simp [h]
  · have hbeq : (key == key') = false := beq_eq_false_iff_ne.mpr h
    simp only [hbeq, if_neg h]

/-- Under a key nothing was put under, there is nothing. -/
theorem lookup_of_forall_ne {hist : History} {key : JString} (h : ∀ p ∈ hist, p.1 ≠ key) :
    lookup hist key = .empty := by
  unfold lookup
  have : hist.reverse.find? (fun p => p.1 == key) = none :=
    List.find?_eq_none.mpr fun p hp => by simpa using h p (List.mem_reverse.mp hp)
  rw [this]

/-- The put after which none has its key is the one seen under it. -/
theorem lookup_of_last {hist : History} {p : JString × RequestResponseBundle ChannelBuffer}
    {j : Nat} (hp : hist[j]? = some p)
    (hlast : ∀ j', j < j' → (hist.map Prod.fst)[j']? ≠ some p.1) : lookup hist p.1 = p.2 := by
  induction hist using List.reverseRecOn generalizing j with
  | nil => simp at hp
  | append_singleton hist q ih =>
    rw [show q = (q.1, q.2) from rfl, lookup_concat]
    rcases Nat.lt_trichotomy j hist.length with hj | hj | hj
    · have hne : q.1 ≠ p.1 := fun heq =>
        hlast hist.length hj (by rw [List.getElem?_map, List.getElem?_concat_length]; simp [heq])
      rw [if_neg hne]
      rw [List.getElem?_append_left hj] at hp
      refine ih hp fun j' hj' hget => hlast j' hj' ?_
      have hlt : j' < (hist.map Prod.fst).length := (List.getElem?_eq_some_iff.mp hget).1
      rw [List.map_append, List.getElem?_append_left hlt]
      exact hget
    · subst hj
      rw [List.getElem?_concat_length, Option.some.injEq] at hp
      rw [if_pos (congrArg Prod.fst hp), hp]
    · rw [List.getElem?_eq_none (by simp; omega)] at hp
      cases hp

/-- A key as `MD5.getMD5ofStr` makes them. -/
def IsSignature (key : JString) : Prop := ∀ c ∈ key, MD5.IsLowerHex c

instance : DecidablePred IsSignature := fun key => List.decidableBAll MD5.IsLowerHex key

/-- `S` implements the last-write-wins map, but for what it has lost: `Holds` is kept by every put,
and by whatever the other components do to objects the storage keeps no reference to. A get finds
what was put last under a key the storage `Has`, and nothing under any other. -/
structure Refines {σ : Type} (S : RecordStorage σ) where
  /-- The storage holds a history. -/
  Holds : World σ → History → Prop
  /-- The objects the storage keeps references to. -/
  Keeps : σ → Ref → Prop
  /-- What was put under the key has not been lost. -/
  Has : σ → JString → Prop
  keeps_lt : ∀ {w hist r}, Holds w hist → Keeps w.hidden r → r < w.heap.size
  holds_of_heap : ∀ {w hist} {h : Heap ChannelBuffer}, Holds w hist → w.heap.size ≤ h.size →
    (∀ r, Keeps w.hidden r → h.get r = w.heap.get r) → Holds ⟨h, w.hidden⟩ hist
  put : ∀ {w hist key bundle}, Holds w hist → IsSignature key →
    (∀ r, bundle.Mentions r → r < w.heap.size) →
    ∃ hidden, (S.putRecordData key bundle).run w = .ok () ⟨w.heap, hidden⟩ ∧
      Holds ⟨w.heap, hidden⟩ (hist ++ [(key, bundle.deref w.heap)]) ∧ Has hidden key ∧
      ∀ r, Keeps hidden r → Keeps w.hidden r ∨ bundle.Mentions r
  get : ∀ {w hist key}, Holds w hist → IsSignature key →
    ∃ bundle h, (S.getRecordData key).run w = .ok bundle ⟨h, w.hidden⟩ ∧
      (Has w.hidden key → bundle.deref h = lookup hist key) ∧
      (¬ Has w.hidden key → bundle = .empty) ∧ w.heap.size ≤ h.size ∧
      ∀ r < w.heap.size, h.get r = w.heap.get r

end Terminator.Storage
