import Terminator.Run.Invariant
import Terminator.Storage.Streams

/-!
# Puts, gets and deletes

Any sequence of calls of `putRecordData`, `getRecordData` and `deleteRecordData` on a
`FileStorage`, each made with the message objects as they are at that moment. What it is compared
with is the list of the bundles put since the last delete (`sinceDelete`).

**`getRecordData_after_calls`**: a get finds the bundle put last under its key since the last
delete, the empty one if there is none.
-/

namespace Terminator.Storage.FileStorage

open Terminator.Java Terminator.Netty Terminator.Plugin Terminator.Run

/-- A call of the storage. -/
inductive Call where
  | putRecordData (key : JString) (bundles : RequestResponseBundle Ref)
  | getRecordData (key : JString)
  | deleteRecordData (version : Int)

/-- The method a call runs; nobody looks at what it returns. -/
def Call.method (env : FileEnv) : Call → Method (World FileStorage) Unit
  | putRecordData key bundles => FileStorage.putRecordData env .complete key bundles
  | getRecordData key => do let _ ← FileStorage.getRecordData env key
  | deleteRecordData version => FileStorage.deleteRecordData env version

/-- The key of a put is a signature. -/
def Call.Signed : Call → Prop
  | putRecordData key _ => IsSignature key
  | getRecordData _ | deleteRecordData _ => True

/-- The storage after a call made while the message objects are those of `e.1`. -/
def call (env : FileEnv) (e : Heap ChannelBuffer × Call) (f : FileStorage) : FileStorage :=
  (after ((e.2.method env).run ⟨e.1, f⟩)).hidden

/-- The bundles put since the last delete, after one more call. -/
def sinceDelete (e : Heap ChannelBuffer × Call) (hist : History) : History :=
  match e.2 with
  | .putRecordData key bundles => hist ++ [(key, bundles.deref e.1)]
  | .getRecordData _ => hist
  | .deleteRecordData _ => []

variable {env : FileEnv} {f : FileStorage} {hist : History}

/-- **One call**: the file and the table hold what was put since the last delete. -/
theorem Holds.call (h : Holds env f hist) {e : Heap ChannelBuffer × Call} (he : e.2.Signed) :
    Holds env (call env e f) (sinceDelete e hist) := by
  obtain ⟨heap, c⟩ := e
  cases c with
  | putRecordData key bundles => exact h.put he (bundles.deref heap)
  | getRecordData key => exact h
  | deleteRecordData version => exact holds_delete env f

/-- **`FileStorage` is a last-write-wins map** under puts, gets and deletes. -/
theorem getRecordData_after_calls (hf : rows env f = []) {es : List (Heap ChannelBuffer × Call)}
    (hes : ∀ e ∈ es, e.2.Signed) {key : JString} (hkey : IsSignature key)
    (heap : Heap ChannelBuffer) :
    ∃ bundles heap', (getRecordData env key).run ⟨heap, run (call env) es f⟩
        = .ok bundles ⟨heap', run (call env) es f⟩ ∧
      bundles.deref heap' = lookup (run sinceDelete es []) key := by
  have hmeets : Meets (call env) (fun e _ => e.2.Signed) es f :=
    meets_of_forall fun e he _ => hes e he
  have hholds : Holds env (run (call env) es f) (run sinceDelete es []) :=
    run_of_simulation (fun _ _ _ h he => h.call he) (holds_nil hf) hmeets
  obtain ⟨bundles, heap', hrun, hval, -, -⟩ :=
    getRecordData_run env key ⟨heap, run (call env) es f⟩
  exact ⟨bundles, heap', hrun, hval.trans (hholds.read hkey)⟩

/-- A put, a delete and a put under the same key. -/
def putDeletePut : List (Heap ChannelBuffer × Call) :=
  [(⟨[.EMPTY_BUFFER]⟩, .putRecordData (lit "a") .empty),
    (⟨[.EMPTY_BUFFER]⟩, .deleteRecordData 0),
    (⟨[.EMPTY_BUFFER]⟩, .putRecordData (lit "a") ⟨some (.chunk ⟨true, 0⟩), none⟩)]

/-- The later bundle is found. -/
theorem getRecordData_after_putDeletePut :
    ∃ bundles heap, (getRecordData (fileEnv 1) (lit "a")).run
        ⟨⟨[]⟩, run (call (fileEnv 1)) putDeletePut ⟨none, [], 0⟩⟩
        = .ok bundles ⟨heap, run (call (fileEnv 1)) putDeletePut ⟨none, [], 0⟩⟩ ∧
      bundles.deref heap = ⟨some (.chunk ⟨true, .EMPTY_BUFFER⟩), none⟩ := by
  have ha : IsSignature (lit "a") := by decide
  exact getRecordData_after_calls rfl (by simp [putDeletePut, Call.Signed, ha]) ha ⟨[]⟩

end Terminator.Storage.FileStorage
