import Mathlib.Data.List.Perm.Basic
import Terminator.Plugin.Extractor

/-!
# The maps of a JSON document

`JsonParser.walk` adds a map for every object it comes to: the scalar members of the object, then
those of the objects in it. `walk(JSONArray)` goes into the objects of an array and not into the
arrays of it.

* `walk_of_reached`: where it comes to every object, the maps are the scalar members of each;
* **`parse_eq_members_iff`**: one map an object, and the members with a scalar value all together,
  iff no object is inside an array that is itself an item of an array.
-/

namespace Terminator.Plugin.JsonParser

open Terminator.Java

/-! ## The objects of a document -/

mutual

/-- The objects anywhere in the tree, each with its members. -/
def objects : Json → List (List (JString × Json))
  | .scalar _ => []
  | .object members => members :: objectsOfMembers members
  | .array items => objectsOfItems items

def objectsOfMembers : List (JString × Json) → List (List (JString × Json))
  | [] => []
  | member :: members => objectsOfMember member ++ objectsOfMembers members

def objectsOfMember : JString × Json → List (List (JString × Json))
  | (_, value) => objects value

def objectsOfItems : List Json → List (List (JString × Json))
  | [] => []
  | item :: items => objects item ++ objectsOfItems items

end

/-- The members of an object with a scalar value. -/
def scalars : List (JString × Json) → JsonMap
  | [] => []
  | (key, .scalar text) :: members => (key, text) :: scalars members
  | _ :: members => scalars members

/-- An object has a key once. -/
def KeysDistinct (root : Json) : Prop := ∀ members ∈ objects root, (members.map Prod.fst).Nodup

mutual

/-- No object is inside an array that is an item of an array. -/
def Reached : Json → Prop
  | .scalar _ => True
  | .object members => ReachedMembers members
  | .array items => ReachedItems items

def ReachedMembers : List (JString × Json) → Prop
  | [] => True
  | member :: members => ReachedMember member ∧ ReachedMembers members

def ReachedMember : JString × Json → Prop
  | (_, value) => Reached value

def ReachedItems : List Json → Prop
  | [] => True
  | item :: items => (if isArray item then objects item = [] else Reached item) ∧ ReachedItems items

end

/-! ## How many objects `walk` comes to -/

mutual

theorem length_walk_le : ∀ json : Json, (walk json).length ≤ (objects json).length
  | .scalar _ => Nat.le_refl _
  | .object members => by
    rw [walk, objects, List.length_cons, List.length_cons]
    exact Nat.succ_le_succ (length_walkMembers_le members)
  | .array items => by
    rw [walk, objects]
    exact length_walkItems_le items

theorem length_walkMembers_le : ∀ members : List (JString × Json),
    (walkMembers members).length ≤ (objectsOfMembers members).length
  | [] => Nat.le_refl _
  | member :: members => by
    rw [walkMembers, objectsOfMembers, List.length_append, List.length_append]
    exact Nat.add_le_add (length_walkMember_le member) (length_walkMembers_le members)

theorem length_walkMember_le : ∀ member : JString × Json,
    (walkMember member).length ≤ (objectsOfMember member).length
  | (_, value) => by
    rw [walkMember, objectsOfMember]
    exact length_walk_le value

theorem length_walkItems_le : ∀ items : List Json,
    (walkItems items).length ≤ (objectsOfItems items).length
  | [] => Nat.le_refl _
  | item :: items => by
    rw [walkItems, objectsOfItems, List.length_append, List.length_append]
    refine Nat.add_le_add ?_ (length_walkItems_le items)
    by_cases h : isArray item = true
    · rw [if_pos h]
      exact Nat.zero_le _
    · rw [if_neg h]
      exact length_walk_le item

end

mutual

/-- An object that is not come to is missing in the count. -/
theorem reached_of_length : ∀ json : Json,
    (walk json).length = (objects json).length → Reached json
  | .scalar _, _ => by rw [Reached]; trivial
  | .object members, h => by
    rw [walk, objects, List.length_cons, List.length_cons] at h
    rw [Reached]
    exact reachedMembers_of_length members (Nat.succ.inj h)
  | .array items, h => by
    rw [walk, objects] at h
    rw [Reached]
    exact reachedItems_of_length items h

theorem reachedMembers_of_length : ∀ members : List (JString × Json),
    (walkMembers members).length = (objectsOfMembers members).length → ReachedMembers members
  | [], _ => by rw [ReachedMembers]; trivial
  | member :: members, h => by
    rw [walkMembers, objectsOfMembers, List.length_append, List.length_append] at h
    have hmember := length_walkMember_le member
    have hmembers := length_walkMembers_le members
    rw [ReachedMembers]
    exact ⟨reachedMember_of_length member (by omega), reachedMembers_of_length members (by omega)⟩

theorem reachedMember_of_length : ∀ member : JString × Json,
    (walkMember member).length = (objectsOfMember member).length → ReachedMember member
  | (_, value), h => by
    rw [walkMember, objectsOfMember] at h
    rw [ReachedMember]
    exact reached_of_length value h

theorem reachedItems_of_length : ∀ items : List Json,
    (walkItems items).length = (objectsOfItems items).length → ReachedItems items
  | [], _ => by rw [ReachedItems]; trivial
  | item :: items, h => by
    rw [walkItems, objectsOfItems, List.length_append, List.length_append] at h
    have hitem := length_walk_le item
    have hitems := length_walkItems_le items
    rw [ReachedItems]
    by_cases harray : isArray item = true
    · rw [if_pos harray] at h ⊢
      rw [List.length_nil] at h
      exact ⟨List.length_eq_zero_iff.mp (by omega), reachedItems_of_length items (by omega)⟩
    · rw [if_neg harray] at h ⊢
      exact ⟨reached_of_length item (by omega), reachedItems_of_length items (by omega)⟩

end

mutual

/-- Where `walk` comes to every object, it makes a map of each. -/
theorem walk_of_reached : ∀ json : Json, Reached json →
    walk json = (objects json).map fun members => itemmap members []
  | .scalar _, _ => rfl
  | .object members, h => by
    rw [Reached] at h
    rw [walk, objects, List.map_cons, walkMembers_of_reached members h]
  | .array items, h => by
    rw [Reached] at h
    rw [walk, objects, walkItems_of_reached items h]

theorem walkMembers_of_reached : ∀ members : List (JString × Json), ReachedMembers members →
    walkMembers members = (objectsOfMembers members).map fun members => itemmap members []
  | [], _ => rfl
  | member :: members, h => by
    rw [ReachedMembers] at h
    rw [walkMembers, objectsOfMembers, List.map_append, walkMember_of_reached member h.1,
      walkMembers_of_reached members h.2]

theorem walkMember_of_reached : ∀ member : JString × Json, ReachedMember member →
    walkMember member = (objectsOfMember member).map fun members => itemmap members []
  | (_, value), h => by
    rw [ReachedMember] at h
    rw [walkMember, objectsOfMember, walk_of_reached value h]

theorem walkItems_of_reached : ∀ items : List Json, ReachedItems items →
    walkItems items = (objectsOfItems items).map fun members => itemmap members []
  | [], _ => rfl
  | item :: items, h => by
    rw [ReachedItems] at h
    rw [walkItems, objectsOfItems, List.map_append, walkItems_of_reached items h.2]
    by_cases harray : isArray item = true
    · rw [if_pos harray] at h ⊢
      rw [h.1, List.map_nil]
    · rw [if_neg harray] at h ⊢
      rw [walk_of_reached item h.1]

end

/-! ## The map of an object -/

/-- A key that is new is put at the end. -/
theorem put_of_not_mem {m : JsonMap} {key : JString} (h : key ∉ m.map Prod.fst)
    (value : JString) : put m key value = m ++ [(key, value)] := by
  have hfilter : m.filter (fun e => !(e.1 == key)) = m := by
    refine List.filter_eq_self.mpr fun e he => ?_
    have hne : e.1 ≠ key := fun heq => h (heq ▸ List.mem_map_of_mem he)
    simpa using hne
  rw [put, hfilter]

/-- The map of an object has its scalar members, behind those already there. -/
theorem itemmap_eq_append : ∀ (members : List (JString × Json)) (m : JsonMap),
    (members.map Prod.fst).Nodup → (∀ key ∈ members.map Prod.fst, key ∉ m.map Prod.fst) →
      itemmap members m = m ++ scalars members
  | [], m, _, _ => (List.append_nil m).symm
  | (key, value) :: members, m, hnodup, hnew => by
    rw [List.map_cons, List.nodup_cons] at hnodup
    have htail : ∀ k ∈ members.map Prod.fst, k ∉ m.map Prod.fst := fun k hk =>
      hnew k (List.mem_cons_of_mem _ hk)
    cases value with
    | scalar text =>
      have hput := put_of_not_mem (hnew key List.mem_cons_self) text
      rw [itemmap, scalars, hput, itemmap_eq_append members _ hnodup.2, List.append_assoc]
      · rfl
      · intro k hk
        rw [List.map_append, List.mem_append, not_or]
        refine ⟨htail k hk, fun heq => hnodup.1 ?_⟩
        rw [List.map_singleton, List.mem_singleton] at heq
        exact heq ▸ hk
    | object _ => exact itemmap_eq_append members m hnodup.2 htail
    | array _ => exact itemmap_eq_append members m hnodup.2 htail

/-! ## The document -/

/-- json-lib builds this tree of the text, at its first attempt as an object or as an array. -/
def IsDocument (lib : JsonLib) (jstr : JString) : Json → Prop
  | .object members => lib.fromObject jstr = .ok members
  | .array items => lib.fromObject jstr = .error .json ∧ lib.fromArray jstr = .ok items
  | .scalar _ => False

theorem parse_of_isDocument {lib : JsonLib} {jstr : JString} {root : Json}
    (h : IsDocument lib jstr root) :
    parseJsonObjectToListMap lib jstr = .ok (some (walk root)) := by
  unfold parseJsonObjectToListMap getJSON
  cases root with
  | scalar _ => exact h.elim
  | object members =>
    have hobject : lib.fromObject jstr = .ok members := h
    rw [hobject]
  | array items =>
    obtain ⟨hobject, harray⟩ := h
    rw [hobject, harray]

/-- **JSON flattening**: there is one map an object, and the maps together hold the members with a
scalar value, each as often as the document does, iff `walk` comes to every object. -/
theorem parse_eq_members_iff {lib : JsonLib} {jstr : JString} {root : Json}
    (hroot : IsDocument lib jstr root) (hkeys : KeysDistinct root) :
    (∃ maps, parseJsonObjectToListMap lib jstr = .ok (some maps) ∧
      maps.length = (objects root).length ∧
      maps.flatten.Perm ((objects root).flatMap scalars)) ↔ Reached root := by
  rw [parse_of_isDocument hroot]
  constructor
  · rintro ⟨maps, hmaps, hlength, -⟩
    obtain rfl := Option.some.inj (Except.ok.inj hmaps)
    exact reached_of_length root hlength
  · intro hreached
    have hwalk : walk root = (objects root).map scalars := by
      rw [walk_of_reached root hreached]
      refine List.map_congr_left fun members hmem => ?_
      exact itemmap_eq_append members [] (hkeys members hmem) (fun _ _ => List.not_mem_nil)
    refine ⟨_, rfl, ?_, ?_⟩
    · rw [hwalk, List.length_map]
    · rw [hwalk, List.flatMap_def]

/-- json-lib, for an object and for that object inside two arrays. -/
def twoTexts : JsonLib where
  fromObject jstr :=
    if jstr = lit "\x7b\"a\":1\x7d" then .ok [(lit "a", .scalar (lit "1"))] else .error .json
  fromArray jstr :=
    if jstr = lit "[[\x7b\"a\":1\x7d]]" then
      .ok [.array [.object [(lit "a", .scalar (lit "1"))]]]
    else .error .json
  entries m := m
  entries_perm _ := List.Perm.refl _

theorem parse_eq_members_object :
    ∃ maps, parseJsonObjectToListMap twoTexts (lit "\x7b\"a\":1\x7d") = .ok (some maps) ∧
      maps.length = (objects (.object [(lit "a", .scalar (lit "1"))])).length ∧
      maps.flatten.Perm ((objects (.object [(lit "a", .scalar (lit "1"))])).flatMap scalars) := by
  have hroot : IsDocument twoTexts (lit "\x7b\"a\":1\x7d")
      (.object [(lit "a", .scalar (lit "1"))]) := rfl
  have hkeys : KeysDistinct (.object [(lit "a", .scalar (lit "1"))]) := by
    intro members hmem
    rw [List.mem_singleton.mp hmem]
    exact List.nodup_singleton _
  refine (parse_eq_members_iff hroot hkeys).mpr ?_
  simp [Reached, ReachedMembers, ReachedMember]

/-- An object inside two arrays has no map. -/
theorem not_parse_eq_members_arrays :
    IsDocument twoTexts (lit "[[\x7b\"a\":1\x7d]]")
        (.array [.array [.object [(lit "a", .scalar (lit "1"))]]]) ∧
      ¬ ∃ maps, parseJsonObjectToListMap twoTexts (lit "[[\x7b\"a\":1\x7d]]") = .ok (some maps) ∧
        maps.length = (objects (.array [.array [.object [(lit "a", .scalar (lit "1"))]]])).length ∧
        maps.flatten.Perm
          ((objects (.array [.array [.object [(lit "a", .scalar (lit "1"))]]])).flatMap
            scalars) := by
  refine ⟨⟨rfl, rfl⟩, ?_⟩
  rintro ⟨maps, hmaps, hlength, -⟩
  have hparse : parseJsonObjectToListMap twoTexts (lit "[[\x7b\"a\":1\x7d]]") = .ok (some []) := rfl
  rw [hparse] at hmaps
  obtain rfl := Option.some.inj (Except.ok.inj hmaps)
  exact absurd hlength (by decide)

end Terminator.Plugin.JsonParser
