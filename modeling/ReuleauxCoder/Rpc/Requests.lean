import ReuleauxCoder.Library.JsonRoundTrip
import ReuleauxCoder.Library.Transition
import ReuleauxCoder.Rpc.Peer

/-!
# Completion of outgoing requests

A future is written at most once, by a response with the request's own id or by
`close`, and a request leaves with what its future holds or with a failure of its
own.  Reading a response touches nothing but the request it names as long as the
reader can make sense of it; a response that it cannot read ends the connection.
-/

namespace ReuleauxCoder.Rpc

open PyText PyJson Function

/-- A request that is still in the pending table. -/
def Request.isOpen : Request → Bool
  | .registered _ _ | .waiting | .leaving _ => true
  | _ => false

/-- A request that has neither its answer nor a failure. -/
def Request.isAwaiting : Request → Bool
  | .registered _ _ | .waiting => true
  | _ => false

def Request.outcome : Request → Option RequestOutcome
  | .leaving outcome | .finished outcome => some outcome
  | _ => none

def Future.isDone : Future → Bool
  | .pending => false
  | _ => true

theorem decimal_injective : Function.Injective decimal := by
  intro left right heq
  simpa [digitsValue_decimal] using congrArg digitsValue heq

theorem Request.isOpen_of_isAwaiting {request : Request} (hawaiting : request.isAwaiting = true) :
    request.isOpen = true := by
  cases request <;> simp_all [isOpen, isAwaiting]

@[simp]
theorem isDone_disconnect (future : Future) : (Peer.disconnect future).isDone = true := by
  cases future <;> rfl

namespace Peer

@[simp]
theorem setRequest_request (peer : Peer) (id : ℕ) (request : Request) :
    (peer.setRequest id request).request = Function.update peer.request id request := rfl

variable {config : Config} {peer next : Peer} {id : ℕ}

/-- A response that was read names the request and says what the future holds. -/
def Carried (peer : Peer) (id : ℕ) (future : Future) : Prop :=
  ∃ fields, Json.obj fields ∈ peer.received ∧ isResponse fields = true ∧
    field fields "id" = .str (decimal id) ∧ response? fields = some future

def Sourced (peer : Peer) (id : ℕ) : Future → Prop
  | .result value => peer.Carried id (.result value)
  | .error error => peer.Carried id (.error error)
  | .pending | .disconnected => True

/-- A request leaves with what its future holds. -/
def Held (peer : Peer) (id : ℕ) : Option RequestOutcome → Prop
  | some (.returned value) => peer.future id = .result value
  | some (.failed error) => peer.future id = .error error
  | _ => True

/-- The pending table is that of the requests under way, and futures are written
once. -/
structure Tracked (peer : Peer) : Prop where
  fresh : ∀ id, peer.nextId ≤ id → peer.request id = .absent
  keyed : ∀ key id, (key, id) ∈ peer.pending → key = decimal id ∧ id < peer.nextId
  listed : ∀ id, (peer.request id).isOpen = true → lookup (decimal id) peer.pending = some id
  sourced : ∀ id, peer.Sourced id (peer.future id)
  held : ∀ id, peer.Held id (peer.request id).outcome
  once : peer.consumed.Nodup
  spent : ∀ id ∈ peer.consumed, id < peer.nextId ∧ (peer.future id).isDone = true
  released : peer.closed = true →
    ∀ id, (peer.request id).isAwaiting = true → (peer.future id).isDone = true
  ended : (peer.closing || peer.closeComplete) = true → peer.closed = true

theorem tracked_new : Tracked {} where
  fresh _ _ := rfl
  keyed _ _ hmem := by cases hmem
  listed _ hopen := by cases hopen
  sourced _ := trivial
  held _ := trivial
  once := List.nodup_nil
  spent _ hmem := by cases hmem
  released hclosed := by cases hclosed
  ended hended := by cases hended

/-! ## Steps that leave the requests alone -/

/-- Only frames, tasks, queues and threads differ, and more may have been read. -/
structure SameRequests (before after : Peer) : Prop where
  closed : after.closed = before.closed
  nextId : after.nextId = before.nextId
  pending : after.pending = before.pending
  future : after.future = before.future
  request : after.request = before.request
  consumed : after.consumed = before.consumed
  received : before.received ⊆ after.received
  ended : (after.closing || after.closeComplete) = (before.closing || before.closeComplete)

theorem SameRequests.refl (peer : Peer) : SameRequests peer peer :=
  ⟨rfl, rfl, rfl, rfl, rfl, rfl, List.Subset.refl _, rfl⟩

theorem Sourced.mono {after : Peer} (hreceived : peer.received ⊆ after.received) {future : Future}
    (hsourced : peer.Sourced id future) : after.Sourced id future := by
  cases future with
  | pending | disconnected => trivial
  | result value =>
      obtain ⟨fields, hmem, hrest⟩ := hsourced
      exact ⟨fields, hreceived hmem, hrest⟩
  | error error =>
      obtain ⟨fields, hmem, hrest⟩ := hsourced
      exact ⟨fields, hreceived hmem, hrest⟩

theorem Held.congr {after : Peer} {outcome : Option RequestOutcome} (hheld : peer.Held id outcome)
    (hfuture : after.future id = peer.future id) : after.Held id outcome := by
  match outcome with
  | some (.returned _) | some (.failed _) => exact hfuture.trans hheld
  | none | some .disconnected | some .cancelled | some .timedOut | some .notSent => trivial

theorem Tracked.of_same {after : Peer} (htracked : peer.Tracked)
    (hsame : SameRequests peer after) : after.Tracked where
  fresh id hid := by
    rw [hsame.request]
    exact htracked.fresh id (hsame.nextId ▸ hid)
  keyed := by
    rw [hsame.pending, hsame.nextId]
    exact htracked.keyed
  listed := by
    rw [hsame.request, hsame.pending]
    exact htracked.listed
  sourced id := by
    rw [hsame.future]
    exact (htracked.sourced id).mono hsame.received
  held id := by
    rw [hsame.request]
    exact (htracked.held id).congr (congrFun hsame.future id)
  once := by
    rw [hsame.consumed]
    exact htracked.once
  spent := by
    rw [hsame.consumed, hsame.nextId, hsame.future]
    exact htracked.spent
  released := by
    rw [hsame.closed, hsame.request, hsame.future]
    exact htracked.released
  ended := by
    rw [hsame.closed, hsame.ended]
    exact htracked.ended

theorem same_setPhase (peer : Peer) (id : ℕ) (phase : Phase) :
    SameRequests peer (peer.setPhase id phase) :=
  ⟨rfl, rfl, rfl, rfl, rfl, rfl, List.Subset.refl _, rfl⟩

theorem same_send {frame : Frame} {fails : Bool}
    (hsend : peer.send config frame fails = some next) : SameRequests peer next := by
  rw [send] at hsend
  split at hsend
  · cases hsend
    exact ⟨rfl, rfl, rfl, rfl, rfl, rfl, List.Subset.refl _, rfl⟩
  · cases hsend

theorem same_submit {message : Json} (hsubmit : peer.submit message = some next) :
    SameRequests peer next := by
  rw [submit] at hsubmit
  split at hsubmit
  · cases hsubmit
  · cases hsubmit
    exact ⟨rfl, rfl, rfl, rfl, rfl, rfl, List.Subset.refl _, rfl⟩

theorem same_hear (peer : Peer) (message : Json) : SameRequests peer (peer.hear message) :=
  ⟨rfl, rfl, rfl, rfl, rfl, rfl, List.subset_append_left _ _, rfl⟩

theorem same_finishClose (peer : Peer) : SameRequests peer peer.finishClose := by
  rw [finishClose]
  split
  · rename_i hclosing
    exact ⟨rfl, rfl, rfl, rfl, rfl, rfl, List.Subset.refl _, by simp [hclosing]⟩
  · exact SameRequests.refl peer

theorem same_notify (method : Text) (params : PyValue) (fails : Bool) :
    SameRequests peer (peer.notify config method params fails) := by
  rw [notify]
  cases hsend : peer.send config (.notification method params) fails with
  | none => exact SameRequests.refl peer
  | some next => exact same_send hsend

theorem same_dispatch (outcomes : ℕ → Outcome) :
    SameRequests peer (peer.dispatch config id outcomes) := by
  rw [dispatch]
  split
  · exact same_setPhase peer id _
  · exact SameRequests.refl peer

/-! ## Closing -/

theorem Sourced.disconnect {future : Future} (hsourced : peer.Sourced id future) :
    peer.Sourced id (Peer.disconnect future) := by
  cases future with
  | pending => trivial
  | result _ | error _ | disconnected => exact hsourced

section

variable (htracked : peer.Tracked)
include htracked

theorem tracked_close : peer.close.Tracked := by
  rw [close]
  split
  · exact htracked
  · exact {
      fresh := htracked.fresh
      keyed := htracked.keyed
      listed := htracked.listed
      sourced := fun id => by
        show peer.Sourced id (if _ then _ else _)
        split
        · exact (htracked.sourced id).disconnect
        · exact htracked.sourced id
      held := fun id => by
        have hheld := htracked.held id
        show Held _ id (peer.request id).outcome
        match hrequest : (peer.request id).outcome with
        | some (.returned value) =>
            rw [hrequest] at hheld
            have hvalue : peer.future id = .result value := hheld
            show (if _ then _ else _) = _
            simp [hvalue, Peer.disconnect]
        | some (.failed error) =>
            rw [hrequest] at hheld
            have hvalue : peer.future id = .error error := hheld
            show (if _ then _ else _) = _
            simp [hvalue, Peer.disconnect]
        | none | some .disconnected | some .cancelled | some .timedOut | some .notSent => trivial
      once := htracked.once
      spent := fun id hmem => by
        obtain ⟨hlt, hdone⟩ := htracked.spent id hmem
        refine ⟨hlt, ?_⟩
        show (if _ then _ else _ : Future).isDone = true
        split
        · exact isDone_disconnect _
        · exact hdone
      released := fun _ id hawaiting => by
        have hlookup := htracked.listed id (Request.isOpen_of_isAwaiting hawaiting)
        have hmem : id ∈ peer.pending.map Prod.snd :=
          List.mem_map.mpr ⟨_, mem_of_lookup_eq_some hlookup, rfl⟩
        show (if _ then _ else _ : Future).isDone = true
        rw [if_pos hmem]
        exact isDone_disconnect _
      ended := fun _ => rfl }

theorem tracked_stopReading : peer.stopReading.Tracked :=
  tracked_close (htracked.of_same ⟨rfl, rfl, rfl, rfl, rfl, rfl, List.Subset.refl _, rfl⟩)

/-! ## Steps of a request -/

theorem tracked_startRequest (method : Text) (params : PyValue) :
    (peer.startRequest method params).Tracked := by
  rw [startRequest]
  split
  · exact htracked
  · rename_i hclosed
    have hnone : lookup (decimal peer.nextId) peer.pending = none := by
      cases hlookup : lookup (decimal peer.nextId) peer.pending with
      | none => rfl
      | some other =>
          obtain ⟨hkey, hlt⟩ := htracked.keyed _ _ (mem_of_lookup_eq_some hlookup)
          exact absurd (decimal_injective hkey) (Nat.ne_of_gt hlt)
    have hne : ∀ {other}, (peer.request other).isOpen = true → other ≠ peer.nextId := by
      rintro other hopen rfl
      rw [htracked.fresh _ le_rfl] at hopen
      cases hopen
    refine {
      fresh := fun other hother => ?_
      keyed := fun key other hmem => ?_
      listed := fun other hopen => ?_
      sourced := fun other => ?_
      held := fun other => ?_
      once := htracked.once
      spent := fun other hmem => ?_
      released := fun hnow => absurd hnow hclosed
      ended := htracked.ended }
    · have hother : peer.nextId + 1 ≤ other := hother
      show Function.update peer.request peer.nextId _ other = _
      rw [update_of_ne (by omega)]
      exact htracked.fresh other (by omega)
    · have hmem : (key, other) ∈ store (decimal peer.nextId) peer.nextId peer.pending := hmem
      rw [store_of_lookup_eq_none _ hnone, List.mem_append, List.mem_singleton] at hmem
      rcases hmem with hmem | hmem
      · obtain ⟨hkey, hlt⟩ := htracked.keyed key other hmem
        exact ⟨hkey, Nat.lt_succ_of_lt hlt⟩
      · cases hmem
        exact ⟨rfl, Nat.lt_succ_self _⟩
    · show lookup (decimal other) (store (decimal peer.nextId) peer.nextId peer.pending) = _
      by_cases heq : other = peer.nextId
      · subst heq
        exact lookup_store_self _ _ _
      · rw [lookup_store_of_ne (fun h => heq (decimal_injective h))]
        refine htracked.listed other ?_
        have hopen : (Function.update peer.request peer.nextId _ other).isOpen = true := hopen
        rwa [update_of_ne heq] at hopen
    · show peer.Sourced other (Function.update peer.future peer.nextId .pending other)
      by_cases heq : other = peer.nextId
      · subst heq
        rw [update_self]
        trivial
      · rw [update_of_ne heq]
        exact htracked.sourced other
    · show Held _ other (Function.update peer.request peer.nextId _ other).outcome
      by_cases heq : other = peer.nextId
      · subst heq
        rw [update_self]
        trivial
      · rw [update_of_ne heq]
        exact (htracked.held other).congr (update_of_ne heq _ _)
    · obtain ⟨hlt, hdone⟩ := htracked.spent other hmem
      refine ⟨Nat.lt_succ_of_lt hlt, ?_⟩
      show (Function.update peer.future peer.nextId .pending other).isDone = true
      rwa [update_of_ne (Nat.ne_of_lt hlt)]

/-- A request that is under way moves on without being finished. -/
theorem tracked_setRequest {request : Request}
    (hopen : (peer.request id).isOpen = true) (hheld : peer.Held id request.outcome)
    (hawaiting : request.isAwaiting = true → (peer.request id).isAwaiting = true) :
    (peer.setRequest id request).Tracked where
  fresh other hother := by
    have hne : other ≠ id := by
      rintro rfl
      rw [htracked.fresh other hother] at hopen
      cases hopen
    exact (update_of_ne hne request peer.request).trans (htracked.fresh other hother)
  keyed := htracked.keyed
  listed other hother := by
    by_cases heq : other = id
    · subst heq
      exact htracked.listed other hopen
    · refine htracked.listed other ?_
      rwa [setRequest_request, update_of_ne heq] at hother
  sourced := htracked.sourced
  held other := by
    by_cases heq : other = id
    · subst heq
      rw [setRequest_request, update_self]
      exact hheld
    · rw [setRequest_request, update_of_ne heq]
      exact htracked.held other
  once := htracked.once
  spent := htracked.spent
  released hclosed other hother := by
    by_cases heq : other = id
    · subst heq
      rw [setRequest_request, update_self] at hother
      exact htracked.released hclosed other (hawaiting hother)
    · rw [setRequest_request, update_of_ne heq] at hother
      exact htracked.released hclosed other hother
  ended := htracked.ended

theorem tracked_sendRequest (fails : Bool) :
    (peer.sendRequest config id fails).Tracked := by
  rw [sendRequest]
  split
  · rename_i method params hrequest
    split
    · rename_i next hsend
      have hsame := same_send hsend
      have hrequest' : next.request id = .registered method params := by
        rw [hsame.request, hrequest]
      exact tracked_setRequest (htracked.of_same hsame) (by rw [hrequest']; rfl) trivial
        (fun _ => by rw [hrequest']; rfl)
    · exact tracked_setRequest htracked (by rw [hrequest]; rfl) trivial (fun h => by cases h)
  · exact htracked

theorem tracked_resolve : (peer.resolve id).Tracked := by
  rw [resolve]
  split
  · rename_i value hrequest hfuture
    exact tracked_setRequest htracked (by rw [hrequest]; rfl) hfuture (fun h => by cases h)
  · rename_i error hrequest hfuture
    exact tracked_setRequest htracked (by rw [hrequest]; rfl) hfuture (fun h => by cases h)
  · rename_i hrequest hfuture
    exact tracked_setRequest htracked (by rw [hrequest]; rfl) trivial (fun h => by cases h)
  · exact htracked

theorem tracked_timeOut : (peer.timeOut id).Tracked := by
  rw [timeOut]
  split
  · rename_i hrequest
    exact tracked_setRequest htracked (by rw [hrequest]; rfl) trivial (fun h => by cases h)
  · exact htracked

theorem tracked_cancel : (peer.cancel id).Tracked := by
  rw [cancel]
  split
  · rename_i hrequest
    exact tracked_setRequest htracked (by rw [hrequest]; rfl) trivial (fun h => by cases h)
  · rename_i hrequest
    exact tracked_setRequest htracked (by rw [hrequest]; rfl) trivial (fun h => by cases h)
  · exact htracked

theorem tracked_leave : (peer.leave id).Tracked := by
  rw [leave]
  split
  · rename_i outcome hrequest
    have hheld : peer.Held id (Request.finished outcome).outcome := by
      have := htracked.held id
      rwa [hrequest] at this
    have hmoved : (peer.setRequest id (.finished outcome)).Tracked :=
      tracked_setRequest htracked (by rw [hrequest]; rfl) hheld (fun h => by cases h)
    exact {
      fresh := hmoved.fresh
      keyed := fun key other hmem =>
        htracked.keyed key other ((drop_sublist _ _).subset hmem)
      listed := fun other hopen => by
        have hne : other ≠ id := by
          rintro rfl
          have hopen : (Function.update peer.request other _ other).isOpen = true := hopen
          rw [update_self] at hopen
          cases hopen
        show lookup (decimal other) (drop (decimal id) peer.pending) = _
        rw [lookup_drop_of_ne (fun h => hne (decimal_injective h))]
        exact hmoved.listed other hopen
      sourced := hmoved.sourced
      held := hmoved.held
      once := hmoved.once
      spent := hmoved.spent
      released := hmoved.released
      ended := hmoved.ended }
  · exact htracked

/-! ## Reading a response -/

theorem awaited_eq_some {value : Json}
    (hawaited : peer.awaited value = some id) :
    value = .str (decimal id) ∧ id < peer.nextId ∧ peer.future id = .pending := by
  cases value with
  | str key =>
      simp only [awaited, Option.filter_eq_some_iff] at hawaited
      obtain ⟨hlookup, hpending⟩ := hawaited
      obtain ⟨hkey, hlt⟩ := htracked.keyed _ _ (mem_of_lookup_eq_some hlookup)
      refine ⟨by rw [hkey], hlt, ?_⟩
      cases hfuture : peer.future id <;> simp_all
  | null | bool _ | int _ | float _ | arr _ | obj _ => cases hawaited

end

variable {fields : List (Text × Json)}

theorem isDone_response {future : Future} (hresponse : response? fields = some future) :
    future.isDone = true := by
  rw [response?] at hresponse
  split at hresponse
  · obtain ⟨error, -, rfl⟩ := Option.map_eq_some_iff.mp hresponse
    rfl
  · cases hresponse
    rfl

/-- What the reader's locked region does: it sets the future of the request named,
or nothing. -/
theorem complete_cases (hcomplete : peer.complete fields = some next) :
    next = peer ∨ ∃ id future, peer.awaited (field fields "id") = some id ∧
      response? fields = some future ∧
      next = { peer.setFuture id future with consumed := peer.consumed ++ [id] } := by
  simp only [complete] at hcomplete
  split at hcomplete
  · split at hcomplete
    · rename_i id hawaited
      obtain ⟨future, hresponse, rfl⟩ := Option.map_eq_some_iff.mp hcomplete
      exact .inr ⟨id, future, hawaited, hresponse, rfl⟩
    · cases hcomplete
      exact .inl rfl
  · cases hcomplete

section

variable (htracked : peer.Tracked)
include htracked

theorem tracked_complete (hreceived : Json.obj fields ∈ peer.received)
    (hshape : isResponse fields = true) (hcomplete : peer.complete fields = some next) :
    next.Tracked := by
  obtain rfl | ⟨id, future, hawaited, hresponse, rfl⟩ := complete_cases hcomplete
  · exact htracked
  obtain ⟨hid, hlt, hpending⟩ := awaited_eq_some htracked hawaited
  have hdone := isDone_response hresponse
  have hcarried : peer.Carried id future := ⟨fields, hreceived, hshape, hid, hresponse⟩
  have hnew : id ∉ peer.consumed := by
    intro hmem
    have := (htracked.spent id hmem).2
    rw [hpending] at this
    cases this
  refine {
    fresh := htracked.fresh
    keyed := htracked.keyed
    listed := htracked.listed
    sourced := fun other => ?_
    held := fun other => ?_
    once := List.nodup_append.mpr ⟨htracked.once, List.nodup_singleton id, ?_⟩
    spent := fun other hmem => ?_
    released := fun hclosed other hawaiting => ?_
    ended := htracked.ended }
  · show peer.Sourced other (Function.update peer.future id future other)
    by_cases heq : other = id
    · subst heq
      rw [update_self]
      cases future with
      | pending | disconnected => trivial
      | result _ | error _ => exact hcarried
    · rw [update_of_ne heq]
      exact htracked.sourced other
  · by_cases heq : other = id
    · subst heq
      have hheld := htracked.held other
      show Held _ other (peer.request other).outcome
      match hrequest : (peer.request other).outcome with
      | some (.returned value) =>
          rw [hrequest] at hheld
          exact absurd (hpending.symm.trans hheld) (by simp)
      | some (.failed error) =>
          rw [hrequest] at hheld
          exact absurd (hpending.symm.trans hheld) (by simp)
      | none | some .disconnected | some .cancelled | some .timedOut | some .notSent => trivial
    · exact (htracked.held other).congr (update_of_ne heq _ _)
  · intro other hmem consumed hconsumed
    rw [List.mem_singleton] at hconsumed
    rintro rfl
    exact hnew (hconsumed ▸ hmem)
  · show other < peer.nextId ∧ (Function.update peer.future id future other).isDone = true
    by_cases heq : other = id
    · subst heq
      rw [update_self]
      exact ⟨hlt, hdone⟩
    · rw [update_of_ne heq]
      have hmem : other ∈ peer.consumed ++ [id] := hmem
      rw [List.mem_append, List.mem_singleton] at hmem
      exact htracked.spent other (hmem.resolve_right heq)
  · show (Function.update peer.future id future other).isDone = true
    by_cases heq : other = id
    · subst heq
      rw [update_self]
      exact hdone
    · rw [update_of_ne heq]
      exact htracked.released hclosed other hawaiting

theorem tracked_handle {message : Json}
    (hreceived : message ∈ peer.received)
    (hhandle : peer.handle config message = some next) : next.Tracked := by
  unfold handle at hhandle
  split at hhandle
  · rename_i fields
    split at hhandle
    · rename_i hshape
      exact tracked_complete htracked hreceived hshape hhandle
    · split at hhandle
      · split at hhandle
        · cases hhandle
        · split at hhandle
          · cases hhandle
            exact htracked.of_same ⟨rfl, rfl, rfl, rfl, rfl, rfl, List.Subset.refl _, rfl⟩
          · exact htracked.of_same (same_submit hhandle)
      · exact htracked.of_same (same_submit hhandle)
  · exact htracked.of_same (same_submit hhandle)

theorem tracked_receive (line : Line) (fails : Bool) :
    (peer.receive config line fails).Tracked := by
  unfold receive
  split
  · exact htracked
  · cases line with
    | closed | raised | nested _ => exact tracked_stopReading htracked
    | invalid =>
        show Tracked ((peer.send config .refusal fails).getD peer.stopReading)
        cases hsend : peer.send config .refusal fails with
        | some next => exact htracked.of_same (same_send hsend)
        | none => exact tracked_stopReading htracked
    | message message =>
        have hread := htracked.of_same (same_hear peer message)
        show Tracked (((peer.hear message).handle config message).getD _)
        cases hhandle : (peer.hear message).handle config message with
        | some next => exact tracked_handle hread (by simp [hear]) hhandle
        | none => exact tracked_stopReading hread

/-! ## Runs -/

theorem tracked_sendAnswer (fails : Bool) :
    (peer.sendAnswer config id fails).Tracked := by
  rw [sendAnswer]
  split
  · exact htracked.of_same (same_setPhase peer id _)
  · split
    · exact htracked.of_same (same_setPhase peer id _)
    · split
      · rename_i next hsend
        exact (htracked.of_same (same_send hsend)).of_same (same_setPhase next id _)
      · exact tracked_close (htracked.of_same (same_setPhase peer id _))
  · exact htracked

theorem tracked_deliver (raises : Bool) :
    (peer.deliver raises).Tracked := by
  rw [deliver]
  split
  · exact htracked
  · split
    · exact htracked
    · exact htracked.of_same ⟨rfl, rfl, rfl, rfl, rfl, rfl, List.Subset.refl _, rfl⟩
    · split
      · exact htracked.of_same ⟨rfl, rfl, rfl, rfl, rfl, rfl, List.Subset.refl _, rfl⟩
      · exact tracked_close (htracked.of_same ⟨rfl, rfl, rfl, rfl, rfl, rfl, List.Subset.refl _, rfl⟩)

/-- After each step the pending table is that of the requests under way, and a future that has
a result keeps it. -/
theorem step_tracked (action : Action) :
    (peer.step config action).Tracked := by
  cases action with
  | startRequest method params => exact tracked_startRequest htracked method params
  | sendRequest id fails => exact tracked_sendRequest htracked fails
  | resolve id => exact tracked_resolve htracked
  | timeOut id => exact tracked_timeOut htracked
  | cancel id => exact tracked_cancel htracked
  | leave id => exact tracked_leave htracked
  | notify method params fails => exact htracked.of_same (same_notify method params fails)
  | receive line fails => exact tracked_receive htracked line fails
  | dispatch id outcomes => exact htracked.of_same (same_dispatch outcomes)
  | sendAnswer id fails => exact tracked_sendAnswer htracked fails
  | deliver raises => exact tracked_deliver htracked raises
  | close => exact tracked_close htracked
  | finishClose => exact htracked.of_same (same_finishClose peer)

end

/-- By induction on the actions, from a peer that has sent nothing. -/
theorem run_tracked (config : Config) (actions : List Action) :
    (actions.foldl (step config) {}).Tracked := by
  have hall : ∀ action ∈ actions, (fun _ : Action => True) action := fun _ _ => trivial
  exact Transition.invariant_foldl Tracked
    (fun _ action htracked _ => step_tracked htracked action) tracked_new
    (Transition.meets_of_forall_mem hall _)

/-! ## What a response can do -/

/-- The reader can make sense of a response: it can look the id up, and it finds the
code and message of an error with which it has to complete a request. -/
def readable (peer : Peer) (fields : List (Text × Json)) : Bool :=
  hashable (field fields "id") &&
    ((peer.awaited (field fields "id")).isNone || (response? fields).isSome)

/-- While the connection is open, only responses that the reader can read arrive. -/
def ReadableResponse (peer : Peer) : Action → Prop
  | .receive (.message (.obj fields)) _ =>
      isResponse fields = true → peer.reading = true → peer.closed = false →
        peer.readable fields = true
  | .receive (.nested (some (.obj fields))) _ =>
      isResponse fields = true → peer.reading = true → peer.closed = false → False
  | _ => True

/-- The connection and every request that the response does not name are left alone. -/
def Alone (fields : List (Text × Json)) (peer next : Peer) : Prop :=
  next.closed = peer.closed ∧
    ∀ id, field fields "id" ≠ .str (decimal id) →
      next.future id = peer.future id ∧ next.request id = peer.request id

/-- Reading a response leaves the connection and every other request alone. -/
def Isolated (config : Config) (peer : Peer) : Action → Prop
  | .receive (.message (.obj fields)) fails =>
      isResponse fields = true →
        Alone fields peer (peer.receive config (.message (.obj fields)) fails)
  | .receive (.nested (some (.obj fields))) fails =>
      isResponse fields = true →
        Alone fields peer (peer.receive config (.nested (some (.obj fields))) fails)
  | _ => True

theorem alone_refl (fields : List (Text × Json)) (peer : Peer) : Alone fields peer peer :=
  ⟨rfl, fun _ _ => ⟨rfl, rfl⟩⟩

theorem complete_isSome_iff : (peer.complete fields).isSome = peer.readable fields := by
  simp only [complete, readable]
  split
  · rename_i hhashable
    cases peer.awaited (field fields "id") with
    | none => simp [hhashable]
    | some id => simp [hhashable]
  · rename_i hhashable
    simp [hhashable]

theorem receive_response (hreading : peer.reading = true) (hshape : isResponse fields = true)
    (fails : Bool) :
    peer.receive config (.message (.obj fields)) fails =
      ((peer.hear (.obj fields)).complete fields).getD (peer.hear (.obj fields)).stopReading := by
  simp [receive, hreading, handle, hshape]

theorem isolated_response_iff (htracked : peer.Tracked) (fields : List (Text × Json))
    (fails : Bool) :
    peer.Isolated config (.receive (.message (.obj fields)) fails) ↔
      peer.ReadableResponse (.receive (.message (.obj fields)) fails) := by
  refine forall_congr' fun hshape => ?_
  by_cases hreading : peer.reading = true
  · have hreadable : ((peer.hear (.obj fields)).complete fields).isSome = peer.readable fields :=
      complete_isSome_iff
    have hread := htracked.of_same (same_hear peer (.obj fields))
    rw [receive_response hreading hshape]
    cases hcomplete : (peer.hear (.obj fields)).complete fields with
    | some next =>
        rw [hcomplete] at hreadable
        refine iff_of_true ?_ (fun _ _ => hreadable.symm)
        obtain rfl | ⟨id, future, hawaited, -, rfl⟩ := complete_cases hcomplete
        · exact ⟨rfl, fun _ _ => ⟨rfl, rfl⟩⟩
        · refine ⟨rfl, fun other hother => ⟨?_, rfl⟩⟩
          obtain ⟨hid, -, -⟩ := awaited_eq_some hread hawaited
          have hne : other ≠ id := by
            rintro rfl
            exact hother hid
          exact update_of_ne hne _ _
    | none =>
        rw [hcomplete] at hreadable
        cases hclosed : peer.closed with
        | true =>
            refine iff_of_true ?_ (fun _ hopen => by cases hopen)
            simp [Alone, stopReading, close, hear, hclosed]
        | false =>
            refine iff_of_false (fun hisolated => ?_) (fun hall => ?_)
            · have hstays := hisolated.1
              simp [stopReading, close, hear, hclosed] at hstays
            · rw [hall hreading rfl] at hreadable
              cases hreadable
  · refine iff_of_true ?_ (fun h => absurd h hreading)
    have hsame : peer.receive config (.message (.obj fields)) fails = peer := by
      simp [receive, hreading]
    rw [hsame]
    exact alone_refl fields peer

/-- A line that is nested too deeply ends an open connection, whatever it names. -/
theorem isolated_nested_iff (fields : List (Text × Json)) (fails : Bool) :
    peer.Isolated config (.receive (.nested (some (.obj fields))) fails) ↔
      peer.ReadableResponse (.receive (.nested (some (.obj fields))) fails) := by
  refine forall_congr' fun _ => ?_
  cases hreading : peer.reading with
  | false =>
      have hsame : peer.receive config (.nested (some (.obj fields))) fails = peer := by
        simp [receive, hreading]
      rw [hsame]
      exact iff_of_true (alone_refl fields peer) nofun
  | true =>
      have hstops : peer.receive config (.nested (some (.obj fields))) fails =
          peer.stopReading := by
        simp [receive, hreading]
      rw [hstops]
      cases hclosed : peer.closed with
      | true => exact iff_of_true (by simp [Alone, stopReading, close, hclosed]) nofun
      | false =>
          refine iff_of_false (fun halone => ?_) (fun hall => hall rfl rfl)
          have hstays := halone.1
          simp [stopReading, close, hclosed] at hstays

theorem isolated_iff (htracked : peer.Tracked) (action : Action) :
    peer.Isolated config action ↔ peer.ReadableResponse action := by
  cases action with
  | receive line fails =>
      cases line with
      | message message =>
          cases message with
          | obj fields => exact isolated_response_iff htracked fields fails
          | null | bool _ | int _ | float _ | str _ | arr _ => exact Iff.rfl
      | nested document =>
          cases document with
          | none => exact Iff.rfl
          | some document =>
              cases document with
              | obj fields => exact isolated_nested_iff fields fails
              | null | bool _ | int _ | float _ | str _ | arr _ => exact Iff.rfl
      | closed | raised | invalid => exact Iff.rfl
  | startRequest | sendRequest | resolve | timeOut | cancel | leave | notify | dispatch
  | sendAnswer | deliver | close | finishClose => exact Iff.rfl

/-! ## The contract of requests -/

/-- What callers of `request` may rely on in every state: an answer comes from a
response with the request's own id, a request consumes at most one response, and
once the connection is closed no request is left waiting. -/
structure Answered (peer : Peer) : Prop where
  returned : ∀ id value, (peer.request id).outcome = some (.returned value) →
    peer.Carried id (.result value)
  failed : ∀ id error, (peer.request id).outcome = some (.failed error) →
    peer.Carried id (.error error)
  once : peer.consumed.Nodup
  released : peer.closed = true →
    ∀ id, (peer.request id).isAwaiting = true → (peer.future id).isDone = true
  ended : peer.closeComplete = true → peer.closed = true

theorem Tracked.answered (htracked : peer.Tracked) : peer.Answered where
  returned id value houtcome := by
    have hheld := htracked.held id
    rw [houtcome] at hheld
    have hsourced := htracked.sourced id
    rwa [show peer.future id = .result value from hheld] at hsourced
  failed id error houtcome := by
    have hheld := htracked.held id
    rw [houtcome] at hheld
    have hsourced := htracked.sourced id
    rwa [show peer.future id = .error error from hheld] at hsourced
  once := htracked.once
  released := htracked.released
  ended hcomplete := htracked.ended (by simp [hcomplete])

/-- Every run keeps the contract of requests, and its responses are harmless exactly
when the reader can read each of them. -/
theorem run_requests (config : Config) (actions : List Action) :
    (actions.foldl (step config) {}).Answered ∧
      (Transition.Meets (step config) (Isolated config) {} actions ↔
        Transition.Meets (step config) ReadableResponse {} actions) :=
  ⟨(run_tracked config actions).answered,
    Transition.meets_congr_of_invariant Tracked
      (fun _ action htracked => step_tracked htracked action)
      (fun _ action htracked => isolated_iff htracked action) tracked_new⟩

/-- A result for a list as its id fails the request that is waiting, which it does not
name, and ends the connection. -/
theorem unhashableId_disconnects :
    let config : Config := plainConfig []
    let actions : List Action := [.startRequest (lit "ping") .null, .sendRequest 1 false,
      .receive (.message (.obj [(lit "id", .arr []), (lit "result", .int 1)])) false, .resolve 1]
    ¬ Transition.Meets (step config) (Isolated config) {} actions ∧
      (actions.foldl (step config) {}).closed = true ∧
      (actions.foldl (step config) {}).request 1 = .leaving .disconnected := by
  intro config actions
  refine ⟨fun hisolated => ?_, rfl, rfl⟩
  have hstays := (hisolated.2.2.1 rfl).1
  exact absurd hstays (by decide)

end Peer

end ReuleauxCoder.Rpc
