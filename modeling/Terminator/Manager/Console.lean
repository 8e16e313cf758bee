import Terminator.Manager.InStep
import Terminator.Manager.Stoppable

/-!
# The web console

The pages `index.jsp` and `link.jsp` in any number of browser windows, their requests and the
replies to them, which take their time and may be lost. A button of `index.jsp` sends a request at
once; to delete or to edit a link its `stopServer` is sent first, and what comes after is in the
`success` function: the `DELETE`, or the page `link.jsp` whose form sends the `PUT`. A window that
loads another page drops the functions of the one it leaves.

What the lists of links show is left out, as are the tests of the form fields: a button may be
pressed whatever is shown, and any form saved. `link.jsp` is opened for a link by `editLink` only.

The manager handles one request to its end before the next, and every SQL statement succeeds: what
requests do that overlap is in `Requests`, and what failing statements do in `FailedCalls`. A stop
may fail, and leaves its server registered with its channels closed.

**`always_safe_iff`**: in every state a link that is being deleted or edited has no server, the
rows, the maps and the servers agree, and every server can be stopped, exactly when no start that
comes while a window is deleting or editing the link opens a server. The manager alone promises as
much only if no row is edited or deleted past it (`inStep_of_control`, `stoppable_iff`).
-/

namespace Terminator.Manager.Console

open Terminator.Java Terminator.Run

/-! ## The model -/

/-- The requests of the pages. -/
inductive Request where
  | addLink (form : LinkForm)
  | updateLink (linkId : Nat) (form : LinkForm)
  | deleteLink (linkId : Nat)
  | startServer (linkId : Nat)
  | stopServer (linkId : Nat)
  | changeWorkMode (linkId : Nat) (mode : WorkMode)

/-- The request, with what it meets when it is handled. -/
def Request.operation (up : Startup) (stops : Bool) : Request → Operation
  | addLink form => .addLink form
  | updateLink linkId form => .updateLink linkId form
  | deleteLink linkId => .deleteLink linkId
  | startServer linkId => .startServer linkId up
  | stopServer linkId => .stopServer linkId stops
  | changeWorkMode linkId mode => .changeWorkMode linkId mode

/-- What the `success` function of a request does. -/
inductive Success where
  /-- A list of the links, or a message. -/
  | nothing
  | deleteLink (linkId : Nat)
  /-- `link.jsp?function=update&linkId=…`. -/
  | edit (linkId : Nat)
  /-- Back to `index.jsp`. -/
  | index

/-- What a window shows. -/
inductive Page where
  | away
  | index
  /-- `link.jsp?function=add`. -/
  | add
  /-- `link.jsp?function=update`. -/
  | update (linkId : Nat)

/-- A request on its way, or the reply to it. -/
structure Message where
  window : Nat
  request : Request
  success : Success

/-- The manager, the windows, and what is on its way between them. A reply is one of success: the
other ones only raise a message. -/
structure Windows where
  control : LinkControl
  pages : Nat → Page
  requests : List Message
  replies : List Message

/-- What happens. -/
inductive Event where
  /-- Window `w` is opened or closed, or shows another page. -/
  | load (w : Nat) (page : Page)
  | startServer (w linkId : Nat)
  | stopServer (w linkId : Nat)
  | deleteLink (w linkId : Nat)
  | editLink (w linkId : Nat)
  | changeWorkMode (w linkId : Nat) (mode : WorkMode)
  | saveOrUpdateLink (w : Nat) (form : LinkForm)
  /-- The manager handles the request at place `i`. -/
  | handle (i : Nat) (up : Startup) (stops : Bool)
  /-- The reply at place `i` is there. -/
  | reply (i : Nat)
  | loseRequest (i : Nat)
  | loseReply (i : Nat)

namespace Windows

/-- `$.ajax`. -/
def send (w : Nat) (request : Request) (success : Success) (s : Windows) : Windows :=
  { s with requests := s.requests ++ [⟨w, request, success⟩] }

/-- The message, if it is of window `w`, without its function. -/
def drop (w : Nat) (m : Message) : Message :=
  if m.window = w then { m with success := .nothing } else m

/-- `window.location.href = …`. -/
def load (w : Nat) (page : Page) (s : Windows) : Windows :=
  { s with
    pages := Function.update s.pages w page
    requests := s.requests.map (drop w)
    replies := s.replies.map (drop w) }

/-- A button of `index.jsp`. -/
def press (w : Nat) (request : Request) (success : Success) (s : Windows) : Windows :=
  match s.pages w with
  | .index => s.send w request success
  | _ => s

/-- `saveOrUpdateLink`. -/
def saveOrUpdateLink (w : Nat) (form : LinkForm) (s : Windows) : Windows :=
  match s.pages w with
  | .add => s.send w (.addLink form) .index
  | .update linkId => s.send w (.updateLink linkId form) .index
  | _ => s

/-- The `success` function of a reply. -/
def succeed (m : Message) (s : Windows) : Windows :=
  match m.success with
  | .nothing => s
  | .deleteLink linkId => s.send m.window (.deleteLink linkId) .nothing
  | .edit linkId => s.load m.window (.update linkId)
  | .index => s.load m.window .index

/-- The manager handles a request, to its end. -/
def handle (register : ProtocolRegister) (up : Startup) (stops : Bool) (m : Message)
    (s : Windows) : Windows :=
  match ((m.request.operation up stops).call register).run s.control with
  | .ok _ control => { s with control := control, replies := s.replies ++ [m] }
  | .error _ control => { s with control := control }

end Windows

/-- What an event leads to. -/
def step (register : ProtocolRegister) (e : Event) (s : Windows) : Windows :=
  match e with
  -- `link.jsp` for a link is what `editLink` comes to
  | .load _ (.update _) => s
  | .load w page => s.load w page
  | .startServer w linkId => s.press w (.startServer linkId) .nothing
  | .stopServer w linkId => s.press w (.stopServer linkId) .nothing
  | .deleteLink w linkId => s.press w (.stopServer linkId) (.deleteLink linkId)
  | .editLink w linkId => s.press w (.stopServer linkId) (.edit linkId)
  | .changeWorkMode w linkId mode => s.press w (.changeWorkMode linkId mode) .nothing
  | .saveOrUpdateLink w form => s.saveOrUpdateLink w form
  | .handle i up stops =>
    match s.requests[i]? with
    | none => s
    | some m => { s with requests := s.requests.eraseIdx i }.handle register up stops m
  | .reply i =>
    match s.replies[i]? with
    | none => s
    | some m => { s with replies := s.replies.eraseIdx i }.succeed m
  | .loseRequest i => { s with requests := s.requests.eraseIdx i }
  | .loseReply i => { s with replies := s.replies.eraseIdx i }

/-- Nothing is open yet. -/
def boot (control : LinkControl) : Windows := ⟨control, fun _ => .away, [], []⟩

/-- The deletion or the edit of a link. -/
def Request.Changes (linkId : Nat) (request : Request) : Prop :=
  request = .deleteLink linkId ∨ ∃ form, request = .updateLink linkId form

/-- A function that goes on to the deletion or the edit of a link. -/
def Success.Changes (linkId : Nat) (success : Success) : Prop :=
  success = .deleteLink linkId ∨ success = .edit linkId

/-- A window is deleting or editing the link: its `stopServer` was handled, and the deletion, or the
last `PUT` of the form, was not. -/
structure UnderWay (linkId : Nat) (s : Windows) : Prop where
  somewhere : (∃ m ∈ s.requests, m.request.Changes linkId) ∨
    (∃ m ∈ s.replies, m.success.Changes linkId) ∨ ∃ w, s.pages w = .update linkId

/-- No start that comes while a window is deleting or editing the link opens a server. -/
def StartsApart (register : ProtocolRegister) (e : Event) (s : Windows) : Prop :=
  ∀ i up stops m linkId, e = .handle i up stops → s.requests[i]? = some m →
    m.request = .startServer linkId → UnderWay linkId s →
    ∀ plugins, ¬ Opens register up linkId s.control.table plugins

/-- What the console means to keep: a link that is being deleted or edited has no server, the maps,
the rows and the servers agree, and every server can be stopped. -/
structure Safe (s : Windows) : Prop where
  idle : ∀ id, UnderWay id s → s.control.linkIdServerMap id = none
  rowsMatch : RowsMatch s.control
  stoppable : Stoppable s.control

/-! ## The manager, link by link -/

section Requests

variable {register : ProtocolRegister} {t t' : LinkTable} {running running' : Nat → Option Link}
  {op : Operation} {id : Nat}

/-- A statement that leaves the status of a stopped row. -/
theorem agrees_of_stopped {f : LinkRow → LinkRow} (h : Agrees t running id)
    (hrunning : running id = none) (hf : ∀ row, (f row).status = row.status) :
    Agrees (t.update id f) running id := by
  refine .stopped hrunning fun row hrow => ?_
  rw [LinkTable.rows_update_self] at hrow
  obtain ⟨row', hrow', rfl⟩ := Option.map_eq_some_iff.mp hrow
  cases h with
  | stopped _ hstopped => exact (hf row').trans (hstopped row' hrow')
  | running hrunning' => rw [hrunning] at hrunning'; cases hrunning'

/-- **A request keeps every id in agreement** if it edits or deletes no running link. -/
theorem agrees_of_moves_apart (h : ∀ id, Agrees t running id)
    (hdelete : ∀ id, op = .deleteLink id → running id = none)
    (hupdate : ∀ id form, op = .updateLink id form → running id = none)
    (hmoves : Moves register t running op t' running') : ∀ id, Agrees t' running' id := by
  cases op with
  | addLink | startServer | changeWorkMode =>
    refine agrees_of_moves h ?_ hmoves
    exact trivial
  | stopServer id stops =>
    cases hmoves with
    | stopIdle => exact h
    | stopAgain hlink hrunning =>
      have hmoves : Moves register t running (.stopServer id true) _ _ := .stopAgain hlink hrunning
      refine agrees_of_moves h ?_ hmoves
      exact rfl
    | stop hlink hrunning =>
      have hmoves : Moves register t running (.stopServer id true) _ _ := .stop hlink hrunning
      refine agrees_of_moves h ?_ hmoves
      exact rfl
  | updateLink id form =>
    cases hmoves
    have hset : ∀ row : LinkRow, ((form.link (some id)).toColumns.set row.toColumns).status =
        row.status := fun row => Option.none_or
    exact agrees_update h (agrees_of_stopped (h id) (hupdate id form rfl) hset) fun _ _ => rfl
  | deleteLink id =>
    cases hmoves
    exact agrees_update h (agrees_of_stopped (h id) (hdelete id rfl) fun _ => rfl) fun _ _ => rfl

/-- Only a start makes a link run. -/
theorem running_of_moves (hmoves : Moves register t running op t' running')
    (hrunning : running id = none)
    (hop : ∀ up, op = .startServer id up → ∀ plugins, ¬ Opens register up id t plugins) :
    running' id = none := by
  have hset : ∀ {id' : Nat} {link : Option Link}, id' ≠ id →
      Function.update running id' link id = none := fun hid =>
    (Function.update_of_ne hid.symm _ _).trans hrunning
  cases hmoves with
  | addLink | updateLink | deleteLink | startIdle | startAgain | stopIdle | stopAgain
  | changeIdle => exact hrunning
  | @start id' up link plugins hlink _ hplugins hbinds =>
    refine hset ?_
    rintro rfl
    exact hop up rfl plugins ⟨link, hlink, hplugins, hbinds⟩
  | @stop id' =>
    by_cases hid : id' = id
    · rw [hid, Function.update_self]
    · exact hset hid
  | changeGone hsome | change hsome =>
    refine hset ?_
    rintro rfl
    rw [hrunning] at hsome
    cases hsome

theorem found_of_agrees (h : ∀ id, Agrees t running id) : Found t running := by
  intro id hid
  cases h id with
  | stopped hrunning => exact absurd hrunning hid
  | running _ hrow hdel => exact ⟨_, hrow, hdel⟩

end Requests

/-! ## The invariant -/

section Invariant

variable {register : ProtocolRegister} {s s' : Windows} {id : Nat}

/-- The manager agrees with itself; what goes on to a deletion or an edit is a stop of that link;
and no link runs that is being deleted or edited. -/
structure Inv (s : Windows) : Prop where
  owned : ∀ id, Owned s.control id
  agrees : ∀ id, Agrees s.control.table s.control.running id
  stops : ∀ m ∈ s.requests, ∀ id, m.success.Changes id → m.request = .stopServer id
  apart : ∀ id, UnderWay id s → s.control.running id = none

theorem Inv.safe (h : Inv s) : Safe s where
  idle id hid := running_eq_none_iff.mp (h.apart id hid)
  rowsMatch := rowsMatch_of_agrees h.owned h.agrees
  stoppable := stoppable_of_found h.owned (found_of_agrees h.agrees)

/-- What the windows do on their own. -/
theorem Inv.of_windows (h : Inv s) (hcontrol : s'.control = s.control)
    (hstops : ∀ m ∈ s'.requests, m ∈ s.requests ∨
      ∀ id, m.success.Changes id → m.request = .stopServer id)
    (hapart : ∀ id, UnderWay id s' → s.control.running id = none) : Inv s' where
  owned := by
    rw [hcontrol]
    exact h.owned
  agrees := by
    rw [hcontrol]
    exact h.agrees
  stops m hm id hsuccess := by
    rcases hstops m hm with hm | hstop
    · exact h.stops m hm id hsuccess
    · exact hstop id hsuccess
  apart id hid := by
    rw [hcontrol]
    exact hapart id hid

theorem not_changes_nothing (id : Nat) : ¬ Success.nothing.Changes id := by
  rintro (h | h) <;> cases h

theorem not_changes_index (id : Nat) : ¬ Success.index.Changes id := by
  rintro (h | h) <;> cases h

/-- A request is sent. -/
theorem Inv.send (h : Inv s) (w : Nat) (request : Request) (success : Success)
    (hsuccess : ∀ id, success.Changes id → request = .stopServer id)
    (hrequest : ∀ id, request.Changes id → s.control.running id = none) :
    Inv (s.send w request success) := by
  refine h.of_windows rfl (fun m hm => ?_) fun id hid => ?_
  · rcases List.mem_append.mp hm with hm | hm
    · exact .inl hm
    · rw [List.mem_singleton.mp hm]
      exact .inr hsuccess
  · rcases hid.somewhere with ⟨m, hm, hchanges⟩ | hrest
    · rcases List.mem_append.mp hm with hm | hm
      · exact h.apart id ⟨.inl ⟨m, hm, hchanges⟩⟩
      · rw [List.mem_singleton.mp hm] at hchanges
        exact hrequest id hchanges
    · exact h.apart id ⟨.inr hrest⟩

/-- A window loads a page. -/
theorem Inv.load (h : Inv s) (w : Nat) (page : Page)
    (hpage : ∀ id, page = .update id → s.control.running id = none) : Inv (s.load w page) := by
  have hdrop : ∀ m : Message, (Windows.drop w m).request = m.request ∧
      ∀ id, (Windows.drop w m).success.Changes id → m.success.Changes id := by
    intro m
    unfold Windows.drop
    split
    · exact ⟨rfl, fun id hchanges => absurd hchanges (not_changes_nothing id)⟩
    · exact ⟨rfl, fun _ h => h⟩
  refine h.of_windows rfl (fun m hm => .inr fun id hsuccess => ?_) fun id hid => ?_
  · obtain ⟨sent, hsent, rfl⟩ := List.mem_map.mp hm
    rw [(hdrop sent).1]
    exact h.stops sent hsent id ((hdrop sent).2 id hsuccess)
  · rcases hid.somewhere with ⟨m, hm, hchanges⟩ | ⟨m, hm, hchanges⟩ | ⟨w', hw'⟩
    · obtain ⟨sent, hsent, rfl⟩ := List.mem_map.mp hm
      rw [(hdrop sent).1] at hchanges
      exact h.apart id ⟨.inl ⟨sent, hsent, hchanges⟩⟩
    · obtain ⟨sent, hsent, rfl⟩ := List.mem_map.mp hm
      exact h.apart id ⟨.inr (.inl ⟨sent, hsent, (hdrop sent).2 id hchanges⟩)⟩
    · change Function.update s.pages w page w' = .update id at hw'
      by_cases hw : w' = w
      · rw [hw, Function.update_self] at hw'
        exact hpage id hw'
      · rw [Function.update_of_ne hw] at hw'
        exact h.apart id ⟨.inr (.inr ⟨w', hw'⟩)⟩

/-- A message is lost, or was received. -/
theorem Inv.of_sublist (h : Inv s) {requests replies : List Message}
    (hrequests : ∀ m ∈ requests, m ∈ s.requests) (hreplies : ∀ m ∈ replies, m ∈ s.replies) :
    Inv { s with requests := requests, replies := replies } := by
  refine h.of_windows rfl (fun m hm => .inl (hrequests m hm)) fun id hid => ?_
  rcases hid.somewhere with ⟨m, hm, hchanges⟩ | ⟨m, hm, hchanges⟩ | hpage
  · exact h.apart id ⟨.inl ⟨m, hrequests m hm, hchanges⟩⟩
  · exact h.apart id ⟨.inr (.inl ⟨m, hreplies m hm, hchanges⟩)⟩
  · exact h.apart id ⟨.inr (.inr hpage)⟩

/-- **A reply** is received: the link it goes on to delete or edit does not run. -/
theorem Inv.succeed (h : Inv s) {m : Message}
    (hm : ∀ id, m.success.Changes id → s.control.running id = none) : Inv (s.succeed m) := by
  unfold Windows.succeed
  cases hsuccess : m.success with
  | nothing => exact h
  | deleteLink linkId =>
    refine h.send _ _ _ (fun id hid => absurd hid (not_changes_nothing id)) fun id hid => ?_
    rcases hid with hid | ⟨form, hid⟩
    · cases hid
      exact hm linkId (.inl hsuccess)
    · cases hid
  | edit linkId =>
    refine h.load _ _ fun id hid => ?_
    cases hid
    exact hm linkId (.inr hsuccess)
  | index =>
    refine h.load _ _ fun id hid => ?_
    cases hid

theorem operation_eq_startServer {up up' : Startup} {stops : Bool} {request : Request}
    (h : request.operation up stops = .startServer id up') :
    request = .startServer id ∧ up = up' := by
  cases request with
  | startServer => cases h; exact ⟨rfl, rfl⟩
  | addLink | updateLink | deleteLink | stopServer | changeWorkMode => cases h

theorem operation_eq_deleteLink {up : Startup} {stops : Bool} {request : Request}
    (h : request.operation up stops = .deleteLink id) : request.Changes id := by
  cases request with
  | deleteLink => cases h; exact .inl rfl
  | addLink | updateLink | startServer | stopServer | changeWorkMode => cases h

theorem operation_eq_updateLink {up : Startup} {stops : Bool} {request : Request} {form : LinkForm}
    (h : request.operation up stops = .updateLink id form) : request.Changes id := by
  cases request with
  | updateLink => cases h; exact .inr ⟨form, rfl⟩
  | addLink | deleteLink | startServer | stopServer | changeWorkMode => cases h

/-- **A request** is handled: a stop that succeeds leaves no server, and nothing else that is under
way is started. -/
theorem Inv.handle (h : Inv s) (register : ProtocolRegister) (up : Startup) (stops : Bool)
    {m : Message} (hstop : ∀ id, m.success.Changes id → m.request = .stopServer id)
    (hrequest : ∀ id, m.request.Changes id → s.control.running id = none)
    (hstart : ∀ id, m.request = .startServer id → UnderWay id s →
      ∀ plugins, ¬ Opens register up id s.control.table plugins) :
    Inv (s.handle register up stops m) := by
  obtain ⟨howned, hmoves⟩ := step_moves register h.owned (m.request.operation up stops)
  unfold Manager.step at howned hmoves
  have hagrees := agrees_of_moves_apart h.agrees
    (fun id hop => hrequest id (operation_eq_deleteLink hop))
    (fun id form hop => hrequest id (operation_eq_updateLink hop)) hmoves
  have hkept : ∀ id, UnderWay id s → LinkControl.running
      (after (((m.request.operation up stops).call register).run s.control)) id = none :=
    fun id hid => running_of_moves hmoves (h.apart id hid) fun up' hop => by
      obtain ⟨hrequest, rfl⟩ := operation_eq_startServer hop
      exact hstart id hrequest hid
  unfold Windows.handle
  cases hrun : ((m.request.operation up stops).call register).run s.control with
  | error e control =>
    rw [hrun] at howned hagrees hkept
    exact ⟨howned, hagrees, h.stops, fun id hid => hkept id ⟨hid.somewhere⟩⟩
  | ok a control =>
    rw [hrun] at howned hagrees hkept
    refine ⟨howned, hagrees, h.stops, fun id hid => ?_⟩
    rcases hid.somewhere with hsent | ⟨r, hr, hchanges⟩ | hpage
    · exact hkept id ⟨.inl hsent⟩
    · rcases List.mem_append.mp hr with hr | hr
      · exact hkept id ⟨.inr (.inl ⟨r, hr, hchanges⟩)⟩
      · -- the stop itself has succeeded
        rw [List.mem_singleton.mp hr] at hchanges
        rw [hstop id hchanges] at hrun
        have hstopped : (stopServer stops id).run s.control = .ok () control := hrun
        exact running_eq_none_iff.mpr (h.safe.stoppable id stops control hstopped).1
    · exact hkept id ⟨.inr (.inr hpage)⟩

/-- **One event.** -/
theorem inv_step (register : ProtocolRegister) (e : Event) (s : Windows) (h : Inv s)
    (hapart : StartsApart register e s) : Inv (step register e s) := by
  have hpress : ∀ (w : Nat) (request : Request) (success : Success),
      (∀ id, success.Changes id → request = .stopServer id) → (∀ id, ¬ request.Changes id) →
      Inv (s.press w request success) := by
    intro w request success hsuccess hrequest
    unfold Windows.press
    cases s.pages w with
    | index => exact h.send w request success hsuccess fun id hid => absurd hid (hrequest id)
    | away | add | update => exact h
  cases e with
  | load w page =>
    cases page with
    | update => exact h
    | away | index | add => exact h.load w _ fun id hid => by cases hid
  | startServer w linkId =>
    exact hpress w _ _ (fun id hid => absurd hid (not_changes_nothing id)) fun id hid => by
      rcases hid with hid | ⟨form, hid⟩ <;> cases hid
  | stopServer w linkId =>
    exact hpress w _ _ (fun id hid => absurd hid (not_changes_nothing id)) fun id hid => by
      rcases hid with hid | ⟨form, hid⟩ <;> cases hid
  | changeWorkMode w linkId mode =>
    exact hpress w _ _ (fun id hid => absurd hid (not_changes_nothing id)) fun id hid => by
      rcases hid with hid | ⟨form, hid⟩ <;> cases hid
  | deleteLink w linkId =>
    refine hpress w _ _ (fun id hid => ?_) fun id hid => by
      rcases hid with hid | ⟨form, hid⟩ <;> cases hid
    rcases hid with hid | hid
    · cases hid
      rfl
    · cases hid
  | editLink w linkId =>
    refine hpress w _ _ (fun id hid => ?_) fun id hid => by
      rcases hid with hid | ⟨form, hid⟩ <;> cases hid
    rcases hid with hid | hid
    · cases hid
    · cases hid
      rfl
  | saveOrUpdateLink w form =>
    rw [step, Windows.saveOrUpdateLink]
    cases hpage : s.pages w with
    | add =>
      refine h.send w _ _ (fun id hid => absurd hid (not_changes_index id)) fun id hid => ?_
      rcases hid with hid | ⟨form, hid⟩ <;> cases hid
    | update linkId =>
      refine h.send w _ _ (fun id hid => absurd hid (not_changes_index id)) fun id hid => ?_
      rcases hid with hid | ⟨form, hid⟩
      · cases hid
      · cases hid
        exact h.apart linkId ⟨.inr (.inr ⟨w, hpage⟩)⟩
    | away | index => exact h
  | handle i up stops =>
    rw [step]
    cases hm : s.requests[i]? with
    | none => exact h
    | some m =>
      have hmem := List.mem_of_getElem? hm
      have hrest : Inv { s with requests := s.requests.eraseIdx i } :=
        h.of_sublist (fun _ => List.mem_of_mem_eraseIdx) fun _ hr => hr
      refine hrest.handle register up stops (h.stops m hmem) (fun id hid => ?_)
        fun id hid hway => ?_
      · exact h.apart id ⟨.inl ⟨m, hmem, hid⟩⟩
      · refine hapart i up stops m id rfl hm hid ?_
        rcases hway.somewhere with ⟨r, hr, hchanges⟩ | hway
        · exact ⟨.inl ⟨r, List.mem_of_mem_eraseIdx hr, hchanges⟩⟩
        · exact ⟨.inr hway⟩
  | reply i =>
    rw [step]
    cases hm : s.replies[i]? with
    | none => exact h
    | some m =>
      have hrest : Inv { s with replies := s.replies.eraseIdx i } :=
        h.of_sublist (fun _ hr => hr) fun _ => List.mem_of_mem_eraseIdx
      exact hrest.succeed fun id hid =>
        h.apart id ⟨.inr (.inl ⟨m, List.mem_of_getElem? hm, hid⟩)⟩
  | loseRequest i => exact h.of_sublist (fun _ => List.mem_of_mem_eraseIdx) fun _ hr => hr
  | loseReply i => exact h.of_sublist (fun _ hr => hr) fun _ => List.mem_of_mem_eraseIdx

theorem inv_boot {control : LinkControl} (hmaps : EmptyMaps control)
    (hrows : ∀ id row, control.table.rows id = some row → row.status = some .stopped) :
    Inv (boot control) where
  owned := owned_of_emptyMaps hmaps
  agrees id := .stopped (running_eq_none_iff.mpr (hmaps id).1) (hrows id)
  stops _ hm := absurd hm List.not_mem_nil
  apart id _ := running_eq_none_iff.mpr (hmaps id).1

end Invariant

/-- A start that opens a server puts a link that is under way to work. -/
theorem not_safe_of_start (register : ProtocolRegister) (e : Event) (s : Windows) (h : Inv s)
    (hstart : ¬ StartsApart register e s) : ¬ Safe (step register e s) := by
  unfold StartsApart at hstart
  push Not at hstart
  obtain ⟨i, up, stops, m, id, rfl, hm, hrequest, hway, plugins, hopens⟩ := hstart
  have hidle := running_eq_none_iff.mp (h.apart id hway)
  have hrun : ∃ control, ((m.request.operation up stops).call register).run s.control =
      .ok () control ∧ control.linkIdServerMap id ≠ none := by
    rw [hrequest]
    change ∃ control, (Manager.startServer register up id).run s.control = _ ∧ _
    have hstarts := startServer_starts register up s.control id
    generalize (Manager.startServer register up id).run s.control = r at hstarts
    cases hstarts with
    | absent hnone =>
      obtain ⟨link, hlink, -⟩ := hopens
      rw [hnone] at hlink
      cases hlink
    | again _ hq =>
      rw [hidle] at hq
      cases hq
    | failed _ _ _ _ _ hfail => exact absurd hopens (hfail plugins)
    | opened =>
      refine ⟨_, rfl, ?_⟩
      dsimp only
      rw [Function.update_self]
      exact Option.some_ne_none _
  obtain ⟨control, hrun, hq⟩ := hrun
  have hstep : step register (.handle i up stops) s =
      { s with control := control, requests := s.requests.eraseIdx i,
               replies := s.replies ++ [m] } := by
    rw [step, hm]
    dsimp only
    rw [Windows.handle, hrun]
  rw [hstep]
  refine fun hsafe => hq (hsafe.idle id ⟨?_⟩)
  rcases hway.somewhere with ⟨r, hr, hchanges⟩ | ⟨r, hr, hchanges⟩ | hpage
  · -- what is on its way is not the start
    obtain ⟨j, hj⟩ := List.mem_iff_getElem?.mp hr
    have hne : j ≠ i := by
      rintro rfl
      obtain rfl := Option.some.inj (hj.symm.trans hm)
      rw [hrequest] at hchanges
      rcases hchanges with hchanges | ⟨form, hchanges⟩ <;> cases hchanges
    exact .inl ⟨r, List.mem_eraseIdx_iff_getElem?.mpr ⟨j, hne, hj⟩, hchanges⟩
  · exact .inr (.inl ⟨r, List.mem_append_left _ hr, hchanges⟩)
  · exact .inr (.inr hpage)

/-- **The console keeps the manager in step**: whatever is pressed and saved in any windows, and
however the requests and replies overtake each other or are lost, a link that is being deleted or
edited has no server, the maps, the rows and the servers agree and every server can be stopped, in
every state, exactly when no start in between opens a server. The requests are handled one after the
other, without a failing SQL statement. -/
theorem always_safe_iff (register : ProtocolRegister) {control : LinkControl}
    (hmaps : EmptyMaps control)
    (hrows : ∀ id row, control.table.rows id = some row → row.status = some .stopped)
    (es : List Event) :
    Always (step register) Safe es (boot control) ↔
      Meets (step register) (StartsApart register) es (boot control) :=
  always_iff_meets (fun _ h => h.safe) (inv_step register) (not_safe_of_start register)
    (inv_boot hmaps hrows)

/-- A link is added in window 0 and started. -/
def addAndStart : List Event :=
  [.load 0 .add, .saveOrUpdateLink 0 recordForm, .handle 0 freePort true, .reply 0,
    .startServer 0 1, .handle 0 freePort true, .reply 0]

/-- Window 1 starts the link between the stop and the deletion in window 0. -/
def startBetween : List Event :=
  addAndStart ++ [.load 1 .index, .deleteLink 0 1, .handle 0 freePort true, .startServer 1 1,
    .handle 0 freePort true]

theorem not_apart_startBetween :
    ¬ Meets (step httpRegister) (StartsApart httpRegister) startBetween (boot newManager) := by
  rw [← always_safe_iff httpRegister (fun _ => ⟨rfl, rfl⟩) (fun _ _ h => by cases h)]
  intro h
  have hsafe : Safe (run (step httpRegister) startBetween (boot newManager)) :=
    always_iff.mp h _ [] (List.append_nil _).symm
  have hway : UnderWay 1 (run (step httpRegister) startBetween (boot newManager)) :=
    ⟨.inr (.inl ⟨_, List.mem_cons_self, .inl rfl⟩)⟩
  exact absurd (hsafe.idle 1 hway) (by decide)

end Terminator.Manager.Console
