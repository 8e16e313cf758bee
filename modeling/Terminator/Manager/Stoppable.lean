import Terminator.Manager.Moves
import Terminator.Run.Invariant

/-!
# Stopping a server

`stopServer` looks its link up in the table first, and returns without a word when there is no row
to read. `deleteLink` marks the row and leaves the server running. After the two a server runs that
no request stops: it keeps its port, and `startServer` does not find its link either.

**`stoppable_iff`**: every server can be stopped in every state of a run exactly when each
`deleteLink` of the run finds no server registered under its id.
-/

namespace Terminator.Manager

open Terminator.Java Terminator.Storage

/-- Whatever `stopServer` is called for and returns, it has stopped. -/
def Stoppable (s : LinkControl) : Prop :=
  ∀ id stops s', (stopServer stops id).run s = .ok () s' →
    s'.linkIdServerMap id = none ∧ s'.linkIdLinkMap id = none ∧
      ∀ q, s.linkIdServerMap id = some q → (s'.servers.get q).state = .stopped

/-- A link is deleted when it is not running. -/
def DeletesStopped (op : Operation) (s : LinkControl) : Prop :=
  ∀ id, op = .deleteLink id → s.linkIdServerMap id = none

/-- Every running link has a row to be found by. -/
def Found (t : LinkTable) (running : Nat → Option Link) : Prop :=
  ∀ id, running id ≠ none → t.Live id

variable {register : ProtocolRegister} {s : LinkControl} {id : Nat}

/-! ## One state -/

theorem stopServer_run_of_absent (stops : Bool) (hlink : s.table.selectLinkById id = none) :
    (stopServer stops id).run s = .ok () s := by
  unfold stopServer
  rw [run_bind_of_ok (getLinkById_run_none hlink)]
  rfl

/-- A server whose link is not found is not stopped. -/
theorem not_stoppable (hq : s.linkIdServerMap id ≠ none) (hlink : ¬ s.table.Live id) :
    ¬ Stoppable s := by
  intro h
  have hnone : s.table.selectLinkById id = none := by
    by_contra hne
    exact hlink (LinkTable.selectLinkById_ne_none_iff.mp hne)
  exact hq (h id true s (stopServer_run_of_absent true hnone)).1

theorem stoppable_of_found (howned : ∀ id, Owned s id) (hfound : Found s.table s.running) :
    Stoppable s := by
  intro id stops s' hrun
  have hstops := stopServer_stops stops s id
  rw [hrun] at hstops
  cases hstops with
  | absent hlink =>
    have hq : s.linkIdServerMap id = none := by
      by_contra hq
      exact LinkTable.selectLinkById_ne_none_iff.mpr
        (hfound id (mt running_eq_none_iff.mp hq)) hlink
    exact ⟨hq, (howned id).of_no_server hq, fun q hq' => by rw [hq] at hq'; cases hq'⟩
  | again hlink hq =>
    exact ⟨hq, Function.update_self _ _ _, fun q hq' => by rw [hq] at hq'; cases hq'⟩
  | @closed link q hlink hq _ =>
    refine ⟨Function.update_self _ _ _, Function.update_self _ _ _, fun q' hq' => ?_⟩
    obtain rfl := Option.some.inj (hq.symm.trans hq')
    obtain ⟨-, -, hlt, -⟩ := (howned id).of_server hq
    exact congrArg Server.state (Heap.get_set_self hlt _)

/-! ## Runs -/

/-- **Only the deletion of a running link loses a server.** -/
theorem found_of_moves {op : Operation} {t t' : LinkTable} {running running' : Nat → Option Link}
    (h : Found t running) (hop : ∀ id, op = .deleteLink id → running id = none)
    (hmoves : Moves register t running op t' running') : Found t' running' := by
  have hset : ∀ id link, t.Live id → ∀ id', Function.update running id link id' ≠ none →
      t.Live id' := fun id link hlive id' hrunning => by
    by_cases hid : id' = id
    · rw [hid]
      exact hlive
    · rw [Function.update_of_ne hid] at hrunning
      exact h id' hrunning
  cases hmoves with
  | addLink form => exact fun id hid => (h id hid).insertLink _
  | updateLink id form => exact fun id hid => (h id hid).updateLink _
  | deleteLink id =>
    intro id' hrunning
    refine (h id' hrunning).deleteLink ?_
    rintro rfl
    exact hrunning (hop id' rfl)
  | startIdle => exact h
  | stopIdle => exact h
  | changeIdle => exact h
  | startAgain => exact fun id hid => (h id hid).setStatus _ _
  | stopAgain => exact fun id hid => (h id hid).setStatus _ _
  | start hlink =>
    have hlive := LinkTable.live_of_select hlink
    exact fun id hid => (hset _ _ hlive id hid).setStatus _ _
  | stop hlink =>
    have hlive := LinkTable.live_of_select hlink
    exact fun id hid => (hset _ _ hlive id hid).setStatus _ _
  | changeGone hrunning =>
    exact hset _ _ (h _ (by rw [hrunning]; exact Option.some_ne_none _))
  | change hrunning =>
    have hlive := h _ (by rw [hrunning]; exact Option.some_ne_none _)
    exact fun id hid => (hset _ _ hlive id hid).setWorkMode _ _

/-- **Every server can be stopped** in every state of a run exactly when no running link is deleted
in it. -/
theorem stoppable_iff (register : ProtocolRegister) (s : LinkControl) (ops : List Operation)
    (hmaps : EmptyMaps s) :
    Run.Always (step register) Stoppable ops s ↔
      Run.Meets (step register) DeletesStopped ops s := by
  refine Run.always_iff_meets (I := fun s => (∀ id, Owned s id) ∧ Found s.table s.running)
    (fun s h => stoppable_of_found h.1 h.2) (fun op s h hop => ?_) (fun op s h hop => ?_)
    ⟨owned_of_emptyMaps hmaps, fun id hrunning => ?_⟩
  · obtain ⟨howned, hmoves⟩ := step_moves register h.1 op
    exact ⟨howned, found_of_moves h.2 (fun id hid => running_eq_none_iff.mpr (hop id hid)) hmoves⟩
  · obtain ⟨id, hop⟩ := not_forall.mp hop
    obtain ⟨rfl, hq⟩ := Classical.not_imp.mp hop
    exact not_stoppable hq (LinkTable.not_live_deleteLink id s.table)
  · exact absurd (running_eq_none_iff.mpr (hmaps id).1) hrunning

/-- A link that is stopped before it is deleted. -/
theorem stoppable_stopDelete :
    Run.Always (step httpRegister) Stoppable
      [.addLink recordForm, .startServer 1 freePort, .stopServer 1 true, .deleteLink 1]
      newManager :=
  (stoppable_iff httpRegister newManager _ fun _ => ⟨rfl, rfl⟩).mpr (by
    refine ⟨?_, ?_, ?_, ?_, trivial⟩ <;> intro id h <;> cases h
    rfl)

/-- A link that is started, deleted and then stopped goes on running. -/
theorem not_stoppable_deleteStop :
    ¬ Run.Always (step httpRegister) Stoppable
      [.addLink recordForm, .startServer 1 freePort, .deleteLink 1, .stopServer 1 true]
      newManager := by
  intro h
  have hstate : Stoppable (Run.run (step httpRegister)
      [.addLink recordForm, .startServer 1 freePort, .deleteLink 1] newManager) :=
    Run.always_iff.mp h _ [.stopServer 1 true] rfl
  have hstopped := hstate 1 true _ rfl
  exact absurd hstopped.1 (by decide)

end Terminator.Manager
