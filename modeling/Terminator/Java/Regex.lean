import Mathlib.Data.List.Infix
import Terminator.Java.Text

/-!
# Regular expressions, by priority

The part of `java.util.regex` with literals, single characters, repetitions of a character (greedy
or reluctant) and capturing groups. A pattern finds its matches at the front of a text in the
order the engine tries them (`results`); `Matcher.matches()` is the first that leaves nothing of
the text (`first`).

* `first_seq`: a sequence takes the first match of its front that the rest can complete;
* **`first_seq_many_of_unique`**: where only one split of the text can be completed, the order does
  not matter;
* **`first_seq_group_reluctant`**: a reluctant group ends where the rest matches for the first time;
* **`mem_results_iff`**: whatever the order, the engine tries the parses of a text (`Parses`), so
  that `matches()` finds one iff there is one (`parses_of_first`, `first_isSome_of_parses`).

A pattern on a string goes by its code points (`characters`): half of a pair is no character.
-/

namespace Terminator.Java

/-- A pattern over characters of any type. -/
inductive Regex (α : Type) where
  | literal (text : List α)
  /-- One character of a class. -/
  | one (p : α → Bool)
  /-- `p*` if greedy, else `p*?`. -/
  | many (greedy : Bool) (p : α → Bool)
  | seq (r r' : Regex α)
  | group (r : Regex α)

namespace Regex

variable {α : Type}

/-- A match at the front of a text: what it takes, what it leaves, and its groups. -/
structure Match (α : Type) where
  taken : List α
  rest : List α
  groups : List (List α)

/-- `group(n)`; the groups are counted from 1. -/
def Match.group (m : Match α) (n : Nat) : List α := m.groups.getD (n - 1) []

/-- A match, and one of what it leaves. -/
def Match.append (m m' : Match α) : Match α :=
  ⟨m.taken ++ m'.taken, m'.rest, m.groups ++ m'.groups⟩

/-- The ways to take characters of a class off the front, the shortest first. -/
def splits (p : α → Bool) : List α → List (List α × List α)
  | [] => [([], [])]
  | c :: s => ([], c :: s) :: if p c then (splits p s).map fun x => (c :: x.1, x.2) else []

section Splits

variable {p : α → Bool} {s t x y w : List α} {β γ : Type}

theorem mem_splits : (x, y) ∈ splits p s ↔ x ++ y = s ∧ ∀ c ∈ x, p c := by
  induction s generalizing x with
  | nil =>
    rw [splits, List.mem_singleton, Prod.mk.injEq, List.append_eq_nil_iff]
    exact ⟨fun h => ⟨h, fun c hc => by simp [h.1] at hc⟩, And.left⟩
  | cons c s ih =>
    cases x with
    | nil => by_cases hc : p c <;> simp [splits, hc]
    | cons d x => by_cases hc : p c <;> simp [splits, hc, ih] <;> grind

/-- Nothing is found on the way through `w`, the splits inside it being of no use. -/
theorem findSome?_splits_append {f : List α × List α → Option β} (hw : ∀ c ∈ w, p c)
    (hnone : ∀ x z, x ++ z = w → z ≠ [] → f (x, z ++ t) = none) :
    (splits p (w ++ t)).findSome? f = (splits p t).findSome? fun x => f (w ++ x.1, x.2) := by
  induction w generalizing f with
  | nil => rfl
  | cons c w ih =>
    have hc := hw c List.mem_cons_self
    have hhead : f ([], c :: (w ++ t)) = none := hnone [] (c :: w) rfl (List.cons_ne_nil _ _)
    rw [List.cons_append, splits, if_pos hc, List.findSome?_cons, hhead, List.findSome?_map]
    exact ih (fun d hd => hw d (List.mem_cons_of_mem _ hd))
      fun x z hxz hz => hnone (c :: x) z (by rw [List.cons_append, hxz]) hz

/-- Only one element of the list is of any use. -/
theorem findSome?_of_unique {l : List γ} {f : γ → Option β} {a : γ} {b : β} (ha : a ∈ l)
    (hfa : f a = some b) (h : ∀ c ∈ l, (f c).isSome → c = a) : l.findSome? f = some b := by
  induction l with
  | nil => exact absurd ha List.not_mem_nil
  | cons c l ih =>
    rw [List.findSome?_cons]
    cases hfc : f c with
    | some b' =>
      rw [h c List.mem_cons_self (by rw [hfc]; rfl), hfa] at hfc
      exact hfc.symm
    | none =>
      refine ih ?_ fun d hd => h d (List.mem_cons_of_mem _ hd)
      refine (List.mem_cons.mp ha).resolve_left fun hac => ?_
      rw [← hac, hfa] at hfc
      cases hfc

end Splits

/-! ## The engine -/

section Engine

variable [DecidableEq α]

/-- The matches at the front of a text, in the order they are tried. -/
def results : Regex α → List α → List (Match α)
  | literal text, s => if text <+: s then [⟨text, s.drop text.length, []⟩] else []
  | one _, [] => []
  | one p, c :: s => if p c then [⟨[c], s, []⟩] else []
  | many greedy p, s =>
    (if greedy then (splits p s).reverse else splits p s).map fun x => ⟨x.1, x.2, []⟩
  | seq r r', s => (results r s).flatMap fun m => (results r' m.rest).map m.append
  | group r, s => (results r s).map fun m => { m with groups := m.taken :: m.groups }

/-- `matches()`: the first match that takes the whole text. -/
def first (r : Regex α) (s : List α) : Option (Match α) :=
  (results r s).find? fun m => m.rest.isEmpty

variable {p : α → Bool} {s x y w : List α} {r : Regex α} {m : Match α} {greedy : Bool}

/-- **A sequence**: the first match of the front that the rest can complete. -/
theorem first_seq (r r' : Regex α) (s : List α) :
    first (seq r r') s = (results r s).findSome? fun m => (first r' m.rest).map m.append := by
  unfold first
  rw [results, List.find?_flatMap]
  refine congrArg (fun f => List.findSome? f _) (funext fun m => ?_)
  rw [List.find?_map]
  rfl

theorem first_seq_literal (text : List α) (h : first r s = some m) :
    first (seq (literal text) r) (text ++ s) = some (Match.append ⟨text, s, []⟩ m) := by
  rw [first_seq, results, if_pos (List.prefix_append _ _), List.drop_left]
  simp [h]

/-- A literal that is not there. -/
theorem first_seq_literal_absent {text : List α} (h : ¬ text <+: s) :
    first (seq (literal text) r) s = none := by
  rw [first_seq, results, if_neg h]
  rfl

theorem mem_results_many {m : Match α} : m ∈ results (many greedy p) s ↔
    m.taken ++ m.rest = s ∧ (∀ c ∈ m.taken, p c) ∧ m.groups = [] := by
  obtain ⟨taken, rest, groups⟩ := m
  have hmem : (taken, rest) ∈ (if greedy then (splits p s).reverse else splits p s) ↔
      taken ++ rest = s ∧ ∀ c ∈ taken, p c := by
    cases greedy <;> simp [mem_splits]
  rw [results, List.mem_map]
  constructor
  · rintro ⟨⟨taken, rest⟩, h, heq⟩
    cases heq
    exact ⟨(hmem.mp h).1, (hmem.mp h).2, rfl⟩
  · rintro ⟨heq, hp, rfl⟩
    exact ⟨(taken, rest), hmem.mpr ⟨heq, hp⟩, rfl⟩

/-- A repetition takes all, if nothing follows. -/
theorem first_many (hs : ∀ c ∈ s, p c) : first (many greedy p) s = some ⟨s, [], []⟩ := by
  have hmem : (⟨s, [], []⟩ : Match α) ∈ results (many greedy p) s :=
    mem_results_many.mpr ⟨List.append_nil s, hs, rfl⟩
  unfold first
  rw [← List.findSome?_guard]
  refine findSome?_of_unique hmem (by simp) ?_
  rintro ⟨taken, rest, groups⟩ hmem hsome
  obtain ⟨heq, -, hgroups⟩ := mem_results_many.mp hmem
  have hrest : rest = [] := by simpa [Option.guard] using hsome
  subst hrest
  rw [List.append_nil] at heq
  dsimp only at heq hgroups
  rw [heq, hgroups]

/-- **One split only** can be completed: a repetition comes to it, greedy or not. -/
theorem first_seq_many_of_unique (hx : ∀ c ∈ x, p c) (h : first r y = some m)
    (hunique : ∀ x' y', x' ++ y' = x ++ y → (first r y').isSome → x' = x) :
    first (seq (many greedy p) r) (x ++ y) = some (Match.append ⟨x, y, []⟩ m) := by
  have hmem : (⟨x, y, []⟩ : Match α) ∈ results (many greedy p) (x ++ y) :=
    mem_results_many.mpr ⟨rfl, hx, rfl⟩
  rw [first_seq]
  refine findSome?_of_unique hmem (by rw [h]; rfl) ?_
  rintro ⟨taken, rest, groups⟩ hmem hsome
  obtain ⟨heq, -, hgroups⟩ := mem_results_many.mp hmem
  dsimp only at heq hgroups hsome
  rw [Option.isSome_map] at hsome
  obtain rfl := hunique taken rest heq hsome
  rw [List.append_cancel_left heq, hgroups]

/-- **A reluctant group** of at least one character ends where the rest matches at first. -/
theorem first_seq_group_reluctant (hw : ∀ c ∈ w, p c) (hne : w ≠ []) (h : first r y = some m)
    (hearlier : ∀ x z, x ++ z = w → z ≠ [] → x ≠ [] → first r (z ++ y) = none) :
    first (seq (group (seq (one p) (many false p))) r) (w ++ y) =
      some (Match.append ⟨w, y, [w]⟩ m) := by
  cases w with
  | nil => exact absurd rfl hne
  | cons c w =>
    have hc := hw c List.mem_cons_self
    have hresults : results (group (seq (one p) (many false p))) (c :: w ++ y) =
        (splits p (w ++ y)).map fun x => ⟨c :: x.1, x.2, [c :: x.1]⟩ := by
      simp [results, hc, Match.append, Function.comp_def]
    rw [first_seq, hresults, List.findSome?_map,
      findSome?_splits_append fun d hd => hw d (List.mem_cons_of_mem _ hd)]
    · -- the first split behind `w` takes nothing more
      cases y <;> simp [splits, h]
    · intro x z hxz hz
      have hnone := hearlier (c :: x) z (by rw [List.cons_append, hxz]) hz (List.cons_ne_nil _ _)
      simp [hnone]

/-! ## Parses -/

/-- A text that a pattern matches, and the groups it matches it with; the order in which the engine
tries them is left out. -/
def Parses : Regex α → List α → List (List α) → Prop
  | literal text, x, gs => x = text ∧ gs = []
  | one p, x, gs => (∃ c, p c ∧ x = [c]) ∧ gs = []
  | many _ p, x, gs => (∀ c ∈ x, p c) ∧ gs = []
  | seq r r', x, gs =>
    ∃ y gs1 z gs2, x = y ++ z ∧ gs = gs1 ++ gs2 ∧ Parses r y gs1 ∧ Parses r' z gs2
  | group r, x, gs => ∃ gs', gs = x :: gs' ∧ Parses r x gs'

/-- **The engine tries the parses of what it takes**, and nothing else. -/
theorem mem_results_iff {m : Match α} :
    m ∈ results r s ↔ m.taken ++ m.rest = s ∧ Parses r m.taken m.groups := by
  induction r generalizing s m with
  | literal text =>
    obtain ⟨taken, rest, groups⟩ := m
    simp only [results, Parses]
    constructor
    · intro h
      split at h
      · next hprefix =>
        obtain ⟨t, rfl⟩ := hprefix
        rw [List.drop_left, List.mem_singleton] at h
        cases h
        exact ⟨rfl, rfl, rfl⟩
      · exact absurd h List.not_mem_nil
    · rintro ⟨rfl, rfl, rfl⟩
      rw [if_pos (List.prefix_append _ _), List.drop_left]
      exact List.mem_singleton.mpr rfl
  | one p =>
    obtain ⟨taken, rest, groups⟩ := m
    simp only [Parses]
    cases s with
    | nil =>
      constructor
      · exact fun h => absurd h List.not_mem_nil
      · rintro ⟨h, ⟨c, -, rfl⟩, -⟩
        exact absurd h (List.cons_ne_nil c rest)
    | cons c s =>
      rw [results]
      constructor
      · intro h
        split at h
        · next hc =>
          rw [List.mem_singleton] at h
          cases h
          exact ⟨rfl, ⟨c, hc, rfl⟩, rfl⟩
        · exact absurd h List.not_mem_nil
      · rintro ⟨h, ⟨d, hd, rfl⟩, rfl⟩
        obtain ⟨rfl, rfl⟩ := List.cons.inj h
        rw [if_pos hd]
        exact List.mem_singleton.mpr rfl
  | many greedy p => exact mem_results_many
  | seq r r' ih ih' =>
    rw [results, List.mem_flatMap]
    constructor
    · rintro ⟨m1, hm1, hm⟩
      obtain ⟨m2, hm2, rfl⟩ := List.mem_map.mp hm
      obtain ⟨heq1, hp1⟩ := ih.mp hm1
      obtain ⟨heq2, hp2⟩ := ih'.mp hm2
      refine ⟨?_, m1.taken, m1.groups, m2.taken, m2.groups, rfl, rfl, hp1, hp2⟩
      rw [Match.append, List.append_assoc, heq2, heq1]
    · obtain ⟨taken, rest, groups⟩ := m
      rintro ⟨rfl, y, gs1, z, gs2, rfl, rfl, hp1, hp2⟩
      refine ⟨⟨y, z ++ rest, gs1⟩, ih.mpr ⟨(List.append_assoc ..).symm, hp1⟩, ?_⟩
      exact List.mem_map.mpr ⟨⟨z, rest, gs2⟩, ih'.mpr ⟨rfl, hp2⟩, rfl⟩
  | group r ih =>
    rw [results, List.mem_map]
    constructor
    · rintro ⟨m', hm', rfl⟩
      obtain ⟨heq, hp⟩ := ih.mp hm'
      exact ⟨heq, m'.groups, rfl, hp⟩
    · obtain ⟨taken, rest, groups⟩ := m
      rintro ⟨heq, gs, hgs, hp⟩
      obtain rfl : groups = taken :: gs := hgs
      exact ⟨⟨taken, rest, gs⟩, ih.mpr ⟨heq, hp⟩, rfl⟩

/-- What `matches()` finds is a parse of the text. -/
theorem parses_of_first (h : first r s = some m) : Parses r s m.groups := by
  unfold first at h
  have hrest : m.rest = [] := by simpa using List.find?_some h
  obtain ⟨heq, hp⟩ := mem_results_iff.mp (List.mem_of_find?_eq_some h)
  rw [hrest, List.append_nil] at heq
  rwa [heq] at hp

/-- `matches()` finds a parse where there is one. -/
theorem first_isSome_of_parses {gs : List (List α)} (h : Parses r s gs) : (first r s).isSome := by
  rw [first, List.find?_isSome]
  exact ⟨⟨s, [], gs⟩, mem_results_iff.mpr ⟨List.append_nil s, h⟩, rfl⟩

/-- **The only parse** is the match. -/
theorem groups_first_of_unique {gs : List (List α)} (h : Parses r s gs)
    (hunique : ∀ gs', Parses r s gs' → gs' = gs) : ∃ m, first r s = some m ∧ m.groups = gs := by
  obtain ⟨m, hm⟩ := Option.isSome_iff_exists.mp (first_isSome_of_parses h)
  exact ⟨m, hm, hunique _ (parses_of_first hm)⟩

end Engine

end Regex

/-! ## The characters of a string -/

open Utf8

/-- The code points of a string, each as the units it takes. -/
def characters : JString → List JString
  | [] => []
  | [c] => [[c]]
  | c :: d :: s =>
    if isHighSurrogate c && isLowSurrogate d then [c, d] :: characters s
    else [c] :: characters (d :: s)

/-- What `.` does not match. -/
def lineTerminators : JString := [0x0A, 0x0D, 0x85, 0x2028, 0x2029]

/-- `.` -/
def dot (c : JString) : Bool := !lineTerminators.any fun u => c == [u]

section Characters

variable {c d : JChar} {s t : JString}

@[simp] theorem flatten_characters (s : JString) : (characters s).flatten = s := by
  induction s using characters.induct with
  | case1 => rfl
  | case2 c => rfl
  | case3 c d s h ih => simp [characters, h, ih]
  | case4 c d s h ih => simp [characters, h, ih]

theorem ne_nil_of_mem_characters {x : JString} (h : x ∈ characters s) : x ≠ [] := by
  induction s using characters.induct with
  | case1 => simp [characters] at h
  | case2 c => simp_all [characters]
  | case3 c d s hpair ih =>
    rw [characters, if_pos hpair, List.mem_cons] at h
    rcases h with rfl | h
    · exact List.cons_ne_nil _ _
    · exact ih h
  | case4 c d s hpair ih =>
    rw [characters, if_neg hpair, List.mem_cons] at h
    rcases h with rfl | h
    · exact List.cons_ne_nil _ _
    · exact ih h

/-- A unit that begins no pair is a character. -/
theorem characters_cons (hc : isHighSurrogate c = false) (s : JString) :
    characters (c :: s) = [c] :: characters s := by
  cases s with
  | nil => rfl
  | cons d s => rw [characters, if_neg (by simp [hc])]

/-- No pair reaches over a unit that ends none. -/
theorem characters_append (hd : isLowSurrogate d = false) (s t : JString) :
    characters (s ++ d :: t) = characters s ++ characters (d :: t) := by
  induction s using characters.induct with
  | case1 => rfl
  | case2 c =>
    have hpair : ¬ (isHighSurrogate c && isLowSurrogate d) = true := by simp [hd]
    exact if_neg hpair
  | case3 c d s h ih =>
    rw [List.cons_append, List.cons_append, characters, if_pos h, ih, characters, if_pos h,
      List.cons_append]
  | case4 c d s h ih =>
    rw [List.cons_append, List.cons_append, characters, if_neg h, characters, if_neg h,
      List.cons_append, ← ih, List.cons_append]

/-- A text without halves of pairs, in front. -/
theorem characters_plain_append (hs : ∀ c ∈ s, isHighSurrogate c = false) (t : JString) :
    characters (s ++ t) = characters s ++ characters t := by
  induction s with
  | nil => rfl
  | cons c s ih =>
    have hc := hs c List.mem_cons_self
    rw [List.cons_append, characters_cons hc, characters_cons hc, List.cons_append,
      ih fun d hd => hs d (List.mem_cons_of_mem _ hd)]

theorem mem_of_singleton_mem_characters (h : [c] ∈ characters s) : c ∈ s := by
  rw [← flatten_characters s, List.mem_flatten]
  exact ⟨[c], h, List.mem_singleton_self c⟩

theorem dot_of_mem_characters (hs : ∀ u ∈ s, u ∉ lineTerminators) {x : JString}
    (hx : x ∈ characters s) : dot x = true := by
  simp only [dot, Bool.not_eq_true', List.any_eq_false, beq_iff_eq]
  rintro u hu rfl
  exact hs u (mem_of_singleton_mem_characters hx) hu

/-- A front of the characters is known by how many units it has. -/
theorem front_unique {x x' y y' : List JString} (hne : ∀ c ∈ x ++ y, c ≠ [])
    (h : x ++ y = x' ++ y') (hlength : x.flatten.length = x'.flatten.length) : x = x' := by
  induction x generalizing x' with
  | nil =>
    cases x' with
    | nil => rfl
    | cons c x' =>
      rw [List.nil_append] at h
      rw [h] at hne
      have hc := List.length_pos_iff.mpr (hne c List.mem_cons_self)
      simp only [List.flatten_nil, List.length_nil, List.flatten_cons,
        List.length_append] at hlength
      omega
  | cons c x ih =>
    cases x' with
    | nil =>
      have hc := List.length_pos_iff.mpr (hne c List.mem_cons_self)
      simp only [List.flatten_nil, List.length_nil, List.flatten_cons,
        List.length_append] at hlength
      omega
    | cons c' x' =>
      obtain ⟨rfl, htail⟩ := List.cons.inj h
      simp only [List.flatten_cons, List.length_append, Nat.add_left_cancel_iff] at hlength
      rw [ih (fun d hd => hne d (List.mem_cons_of_mem _ hd)) htail hlength]

end Characters

end Terminator.Java
