import ReuleauxCoder.Runtime.Submissions

/-!
# Admissions and the decisions they record

The lock of an admission is what makes the separate updates of its status, receipt and error
one history: the invariant ties each admission to the decisions made under its key, and each
delivery to the admission it holds.
-/

namespace ReuleauxCoder.Runtime

open List

variable {C : Type}

/-! ## Generations only grow -/

namespace Server

variable {host : Host C} {server after : Server C} {disposition : Disposition}

/-- The generation of the agent's session. -/
abbrev generation (server : Server C) : ℤ := server.agent.sessionGeneration

theorem wakeGoal_generation : server.wakeGoal.generation = server.generation := by
  rw [wakeGoal]
  split
  · rfl
  · split <;> rfl

theorem fail_generation (worker : Worker C) (fault : Fault) :
    (server.fail worker fault).generation = server.generation := by
  cases fault with
  | interrupted => rfl
  | raised usageLimited =>
      rw [fail]
      split <;> rfl
  | unrecorded => rfl

theorem begin_generation (worker : Worker C) (fault : Fault) (work : Work C) :
    (server.begin host worker fault work).generation = server.generation := by
  cases work with
  | continuation goalId generation => rfl
  | input value =>
      rw [begin]
      split
      · exact fail_generation worker fault
      all_goals rfl

theorem chat_generation (worker : Worker C) (fault : Fault) (value : Input C) :
    (server.chat host worker fault value).generation = server.generation := by
  rw [chat]
  split
  · exact fail_generation worker fault
  · rfl

theorem complete_generation (worker : Worker C) (exits : Bool) :
    (server.complete worker exits).generation = server.generation := by
  rw [complete]
  split <;> split <;> rfl

theorem nextWork_generation (worker : Worker C) :
    (server.nextWork worker).2.2.generation = server.generation := by
  rw [nextWork]
  split
  · rfl
  · have hpopped : (if server.closing then (none, server) else server.nextPending).2.generation =
        server.generation := by
      split
      · rfl
      · rw [nextPending]
        split <;> rfl
    split
    · rename_i hresult
      rwa [hresult] at hpopped
    · rename_i hresult
      rwa [hresult] at hpopped

theorem next_generation (worker : Worker C) (publishFails : Bool) :
    (server.next worker publishFails).generation = server.generation := by
  have hwork : (server.nextWork worker).2.2.generation = server.generation :=
    nextWork_generation worker
  rw [next]
  split
  · rename_i hresult
    rw [hresult] at hwork
    rw [← hwork]
    split <;> rfl
  · rename_i hresult
    rw [hresult] at hwork
    rw [← hwork]
    split <;> rfl

theorem decided_generation {value : Input C}
    (hdecided : Decided host server value disposition after) :
    after.generation = server.generation := by
  cases hdecided <;> rfl

theorem submit_generation {value : PyJson.Json} {submissionId : Option PyText.Text}
    {generation : Option ℤ} {choices : Choices}
    (hsubmit : server.submit host value submissionId generation choices =
      .ok (disposition, after)) : after.generation = server.generation := by
  obtain ⟨-, -, input, -, hdecided⟩ := submit_cases hsubmit
  exact decided_generation hdecided

theorem withWorker_generation (id : ℕ) {next : Worker C → Server C}
    (hnext : ∀ worker, (next worker).generation = server.generation) :
    (server.withWorker id next).generation = server.generation := by
  rw [withWorker]
  split
  · rfl
  · exact hnext _

/-- No step of the server takes the session generation back. -/
theorem generation_le_step (action : Action) :
    server.generation ≤ (server.step host action).generation := by
  cases action with
  | handshake => exact le_rfl
  | ready =>
      rw [step]
      split
      · exact wakeGoal_generation.ge
      · exact le_rfl
  | submit value choices =>
      simp only [step]
      split
      · exact le_rfl
      · rename_i hsubmit
        exact (submit_generation hsubmit).ge
  | begin id fault =>
      refine (withWorker_generation id fun worker => ?_).ge
      split
      · exact begin_generation worker fault _
      · rfl
  | dispatch id control =>
      refine (withWorker_generation id fun worker => ?_).ge
      split
      · cases control <;> rfl
      · rfl
  | chat id fault =>
      refine (withWorker_generation id fun worker => ?_).ge
      split
      · exact chat_generation worker fault _
      · rfl
  | complete id =>
      refine (withWorker_generation id fun worker => ?_).ge
      split
      · exact complete_generation worker false
      · exact complete_generation worker true
      · rfl
  | fail id fault =>
      refine (withWorker_generation id fun worker => ?_).ge
      split
      · rfl
      · rfl
      · rfl
      · exact fail_generation worker fault
  | next id publishFails =>
      refine (withWorker_generation id fun worker => ?_).ge
      split
      · exact next_generation worker publishFails
      · rfl
  | crash id =>
      refine (withWorker_generation id fun worker => ?_).ge
      split <;> rfl
  | leave id =>
      refine (withWorker_generation id fun worker => ?_).ge
      split
      · rw [leave, wakeGoal_generation]
      · rfl
  | stop => exact le_rfl
  | shutdown => exact le_rfl
  | agent change =>
      cases change with
      | reset => exact (lt_add_one _).le
      | _ => exact le_rfl

end Server

namespace Submissions

open PyText PyJson Transition

variable {F : Type} {connection : Connection C F} {system : System C F}

/-! ## The invariant -/

/-- What was let in under a key: every decision but a rejection. -/
def System.admissions (system : System C F) (key : Key) : List (Decision F) :=
  system.decisions.filter fun decision =>
    decision.key = key && decision.disposition ≠ .rejected

/-- What an admission says of the decisions under its key. -/
structure Settled (admission : Admission F) (admitted : List (Decision F)) : Prop where
  undecided : admission.status = none ∨ admission.status = some .rejected → admitted = []
  decided : ∀ status, admission.status = some status → status ≠ .rejected →
    ∃ decision, admitted = [decision] ∧ decision.disposition.status = status ∧
      decision.fingerprint = admission.fingerprint
  recorded : admission.error ≠ none → admission.status = none
  receipted : ∀ receipt, admission.receipt = some receipt →
    admission.status = some receipt.status ∧ receipt.submissionId = admission.submissionId

/-- The delivery belongs to the admission. -/
structure Serves (connection : Connection C F) (delivery : Delivery) (admission : Admission F) :
    Prop where
  submissionId : delivery.submissionId = .str admission.submissionId
  generation : delivery.generation = admission.generation
  fingerprint : fingerprint connection.digest delivery.value = some admission.fingerprint

/-- How the admission stands while the delivery is at a stage. -/
def Stage.Fits (index : ℕ) (admission : Admission F) : Stage → Prop
  | .submitting _ =>
      admission.owner = some index ∧ admission.status = none ∧ admission.receipt = none ∧
        admission.error = none
  | .publishing _ status | .flushing _ status | .recovering _ status | .capturing _ status =>
      admission.owner = some index ∧ admission.status = some status
  | .replying _ submission =>
      admission.owner = some index ∧ admission.status = some submission.status ∧
        submission.submissionId = admission.submissionId
  | _ => True

/-- An answer reports a decision on the same value under the delivery's key, or a rejection. -/
def Answers (connection : Connection C F) (system : System C F) (delivery : Delivery)
    (submission : Submission) : Prop :=
  delivery.submissionId = .str submission.submissionId ∧
    (submission.status = .rejected ∨
      ∃ decision ∈ system.admissions ⟨submission.submissionId, delivery.generation⟩,
        decision.disposition.status = submission.status ∧
          fingerprint connection.digest delivery.value = some decision.fingerprint)

structure Fits (connection : Connection C F) (system : System C F) (index : ℕ)
    (delivery : Delivery) : Prop where
  serving : ∀ entry, delivery.stage.entry = some entry →
    ∃ admission, system.entries[entry]? = some admission ∧
      Serves connection delivery admission ∧ delivery.stage.Fits index admission
  answering : ∀ submission, delivery.stage = .finished (.answered submission) →
    Answers connection system delivery submission

structure Invariant (connection : Connection C F) (system : System C F) : Prop where
  current : system.tableGeneration ≤ system.server.generation
  bounded : ∀ admission ∈ system.entries, admission.generation ≤ system.tableGeneration
  listed : ∀ admission ∈ system.entries, admission.generation = system.tableGeneration →
    admission.listed = true
  distinct : ∀ (first second : ℕ) (left right : Admission F), system.entries[first]? = some left →
    system.entries[second]? = some right → left.key = right.key → first = second
  listedOnce : ∀ (first second : ℕ) (left right : Admission F), system.entries[first]? = some left →
    system.entries[second]? = some right → left.listed = true → right.listed = true →
      left.submissionId = right.submissionId → first = second
  settled : ∀ admission ∈ system.entries, Settled admission (system.admissions admission.key)
  known : ∀ decision ∈ system.decisions, ∃ admission ∈ system.entries,
    admission.key = decision.key
  fits : ∀ index delivery, system.deliveries[index]? = some delivery →
    Fits connection system index delivery
  arrived : ∀ delivery ∈ system.deliveries, delivery.stage = .accepted →
    delivery.generation ≤ system.server.generation
  named : ∀ admission ∈ system.entries,
    1 ≤ admission.submissionId.length ∧ admission.submissionId.length ≤ 128

/-! ## What a step of a delivery leaves alone -/

/-- The parts of an admission that never change once it is made. -/
structure Same (admission other : Admission F) : Prop where
  submissionId : other.submissionId = admission.submissionId
  fingerprint : other.fingerprint = admission.fingerprint
  generation : other.generation = admission.generation
  listed : other.listed = admission.listed

variable {admission : Admission F} {delivery : Delivery} {index : ℕ} {stage : Stage}

theorem Same.key {other : Admission F} (hsame : Same admission other) :
    other.key = admission.key := by
  rw [Admission.key, Admission.key, hsame.submissionId, hsame.generation]

theorem Same.serves {other : Admission F} (hsame : Same admission other)
    (hserves : Serves connection delivery admission) : Serves connection delivery other where
  submissionId := by rw [hsame.submissionId, hserves.submissionId]
  generation := by rw [hsame.generation, hserves.generation]
  fingerprint := by rw [hsame.fingerprint, hserves.fingerprint]

/-- A stage that holds no lock, or not this one. -/
theorem Stage.Fits.of_not_owner {other : Admission F} (hfits : stage.Fits index admission)
    (howner : admission.owner ≠ some index) : stage.Fits index other := by
  cases stage <;> simp_all [Stage.Fits]

theorem mem_admissions {key : Key} {decision : Decision F} :
    decision ∈ system.admissions key ↔
      decision ∈ system.decisions ∧ decision.key = key ∧ decision.disposition ≠ .rejected := by
  simp [System.admissions]

/-- What a step that decides nothing else may change: the server, one admission within its
identity, the stage of one delivery and the decisions under the admission's key. -/
def System.after (system : System C F) (server : Server C) (decided : List (Decision F))
    (entry : ℕ) (change : Admission F → Admission F) (index : ℕ) (stage : Stage) : System C F :=
  ({ system with server, decisions := system.decisions ++ decided }.modifyEntry entry
    change).setStage index stage

theorem Fits.mono {other : System C F} (hfits : Fits connection system index delivery)
    (hentries : ∀ entry admission, delivery.stage.entry = some entry →
      system.entries[entry]? = some admission → delivery.stage.Fits index admission →
        ∃ later, other.entries[entry]? = some later ∧ Same admission later ∧
          delivery.stage.Fits index later)
    (hdecisions : ∀ decision ∈ system.decisions, decision ∈ other.decisions) :
    Fits connection other index delivery where
  serving entry hentry := by
    obtain ⟨admission, hadmission, hserves, hstage⟩ := hfits.serving entry hentry
    obtain ⟨later, hlater, hsame, hstands⟩ := hentries entry admission hentry hadmission hstage
    exact ⟨later, hlater, hsame.serves hserves, hstands⟩
  answering submission hstage := by
    obtain ⟨hid, hrejected | ⟨decision, hdecision, hstatus⟩⟩ := hfits.answering submission hstage
    · exact ⟨hid, .inl hrejected⟩
    · rw [mem_admissions] at hdecision
      exact ⟨hid, .inr ⟨decision,
        mem_admissions.mpr ⟨hdecisions decision hdecision.1, hdecision.2⟩, hstatus⟩⟩

theorem mem_setStage {moved : Delivery} (hdelivery : system.deliveries[index]? = some delivery)
    (hmoved : moved ∈ (system.setStage index stage).deliveries) :
    moved = { delivery with stage } ∨ moved ∈ system.deliveries := by
  obtain ⟨position, hposition⟩ := getElem?_of_mem hmoved
  rw [System.setStage, getElem?_modify] at hposition
  by_cases hindex : index = position
  · subst hindex
    simp only [hdelivery, if_true, Option.map_eq_map, Option.map_some,
      Option.some.injEq] at hposition
    exact .inl hposition.symm
  · have hkept : system.deliveries[position]? = some moved := by
      simpa [hindex] using hposition
    exact .inr (mem_of_getElem? hkept)

namespace Invariant

theorem setStage (hinvariant : Invariant connection system)
    (hdelivery : system.deliveries[index]? = some delivery)
    (hfits : Fits connection system index { delivery with stage })
    (harrived : stage = .accepted → delivery.generation ≤ system.server.generation) :
    Invariant connection (system.setStage index stage) where
  __ := hinvariant
  arrived moved hmoved haccepted := by
    rcases mem_setStage hdelivery hmoved with rfl | hold
    · exact harrived haccepted
    · exact hinvariant.arrived moved hold haccepted
  fits other moved hmoved := by
    simp only [System.setStage, getElem?_modify] at hmoved
    by_cases hindex : index = other
    · subst hindex
      simp only [hdelivery, if_true, Option.map_eq_map, Option.map_some,
        Option.some.injEq] at hmoved
      subst hmoved
      exact ⟨hfits.serving, hfits.answering⟩
    · have hkept : system.deliveries[other]? = some moved := by
        simpa [hindex] using hmoved
      have hold := hinvariant.fits other moved hkept
      exact ⟨hold.serving, hold.answering⟩

theorem settled_append {decided : List (Decision F)} {key : Key}
    (hdecided : ∀ decision ∈ decided, decision.key = key) (hother : admission.key ≠ key)
    (hsettled : Settled admission (system.admissions admission.key)) (server : Server C) :
    Settled admission ({ system with
      server, decisions := system.decisions ++ decided }.admissions admission.key) := by
  have hnone : (decided.filter fun decision =>
      decision.key = admission.key && decision.disposition ≠ .rejected) = [] := by
    refine filter_eq_nil_iff.mpr fun decision hdecision => ?_
    have hne : decision.key ≠ admission.key := by
      rw [hdecided decision hdecision]
      exact hother.symm
    simp [hne]
  rw [System.admissions, filter_append, hnone, append_nil]
  exact hsettled

variable {entry : ℕ}

section Update

variable {change : Admission F → Admission F} (hentry : system.entries[entry]? = some admission)
  (hsame : Same admission (change admission))
include hentry hsame

/-- At its own position an admission is the changed one, elsewhere it is as before. -/
theorem former_of_modify {position : ℕ} {later : Admission F}
    (hlater : (system.entries.modify entry change)[position]? = some later) :
    ∃ former, system.entries[position]? = some former ∧ Same former later ∧
      (position = entry ∧ later = change admission ∨ position ≠ entry ∧ later = former) := by
  rw [getElem?_modify] at hlater
  by_cases hposition : entry = position
  · subst hposition
    simp only [hentry, if_true, Option.map_eq_map, Option.map_some, Option.some.injEq] at hlater
    subst hlater
    exact ⟨admission, hentry, hsame, .inl ⟨rfl, rfl⟩⟩
  · have hformer : system.entries[position]? = some later := by
      simpa [hposition] using hlater
    exact ⟨later, hformer, ⟨rfl, rfl, rfl, rfl⟩, .inr ⟨fun heq => hposition heq.symm, rfl⟩⟩

theorem former_of_mem_modify {later : Admission F}
    (hlater : later ∈ system.entries.modify entry change) :
    ∃ former ∈ system.entries, Same former later := by
  obtain ⟨position, hposition⟩ := getElem?_of_mem hlater
  obtain ⟨former, hformer, hstays, -⟩ := former_of_modify hentry hsame hposition
  exact ⟨former, mem_of_getElem? hformer, hstays⟩

/-- Every admission that was there still stands, under the same key. -/
theorem later_of_mem {former : Admission F} (hformer : former ∈ system.entries) :
    ∃ later ∈ system.entries.modify entry change, later.key = former.key := by
  obtain ⟨position, hposition⟩ := getElem?_of_mem hformer
  by_cases hat : entry = position
  · subst hat
    rw [hentry] at hposition
    cases hposition
    refine ⟨change admission, mem_of_getElem? (i := entry) ?_, hsame.key⟩
    rw [getElem?_modify_eq, hentry]
    rfl
  · refine ⟨former, mem_of_getElem? (i := position) ?_, rfl⟩
    rw [getElem?_modify_ne _ _ hat, hposition]

variable (hinvariant : Invariant connection system) {first second : ℕ} {left right : Admission F}
  (hleft : (system.entries.modify entry change)[first]? = some left)
  (hright : (system.entries.modify entry change)[second]? = some right)
include hinvariant

include hleft hright in
theorem distinct_modify (hkey : left.key = right.key) : first = second := by
  obtain ⟨formerLeft, hformerLeft, hstaysLeft, -⟩ := former_of_modify hentry hsame hleft
  obtain ⟨formerRight, hformerRight, hstaysRight, -⟩ := former_of_modify hentry hsame hright
  rw [hstaysLeft.key, hstaysRight.key] at hkey
  exact hinvariant.distinct first second _ _ hformerLeft hformerRight hkey

include hleft hright in
theorem listedOnce_modify (hleftListed : left.listed = true) (hrightListed : right.listed = true)
    (hid : left.submissionId = right.submissionId) : first = second := by
  obtain ⟨formerLeft, hformerLeft, hstaysLeft, -⟩ := former_of_modify hentry hsame hleft
  obtain ⟨formerRight, hformerRight, hstaysRight, -⟩ := former_of_modify hentry hsame hright
  rw [hstaysLeft.listed] at hleftListed
  rw [hstaysRight.listed] at hrightListed
  rw [hstaysLeft.submissionId, hstaysRight.submissionId] at hid
  exact hinvariant.listedOnce first second _ _ hformerLeft hformerRight hleftListed
    hrightListed hid

variable {server : Server C} {decided : List (Decision F)}
  (hdecided : ∀ decision ∈ decided, decision.key = admission.key)

include hdecided in
theorem settled_modify (hsettled : Settled (change admission) (({ system with
      server, decisions := system.decisions ++ decided }).admissions admission.key))
    {later : Admission F} (hlater : later ∈ system.entries.modify entry change) :
    Settled later (({ system with
      server, decisions := system.decisions ++ decided }).admissions later.key) := by
  obtain ⟨position, hposition⟩ := getElem?_of_mem hlater
  obtain ⟨former, hformer, -, ⟨rfl, rfl⟩ | ⟨hne, rfl⟩⟩ :=
    former_of_modify hentry hsame hposition
  · rw [hsame.key]
    exact hsettled
  · refine settled_append hdecided ?_ (hinvariant.settled _ (mem_of_getElem? hformer)) server
    intro hkey
    exact hne (hinvariant.distinct _ _ _ _ hformer hentry hkey)

include hdecided in
theorem known_modify {decision : Decision F} (hdecision : decision ∈ system.decisions ++ decided) :
    ∃ later ∈ system.entries.modify entry change, later.key = decision.key := by
  rcases mem_append.mp hdecision with hold | hnew
  · obtain ⟨former, hformer, hkey⟩ := hinvariant.known decision hold
    obtain ⟨later, hlater, hlaterKey⟩ := later_of_mem hentry hsame hformer
    exact ⟨later, hlater, hlaterKey.trans hkey⟩
  · obtain ⟨later, hlater, hlaterKey⟩ :=
      later_of_mem hentry hsame (mem_of_getElem? hentry)
    exact ⟨later, hlater, hlaterKey.trans (hdecided decision hnew).symm⟩

/-- The other deliveries stand as before: none of them has the lock. -/
theorem fits_after (howner : admission.owner = none ∨ admission.owner = some index) {other : ℕ}
    (hother : index ≠ other) {moved : Delivery} (hmoved : system.deliveries[other]? = some moved) :
    Fits connection (system.after server decided entry change index stage) other moved := by
  refine (hinvariant.fits other moved hmoved).mono ?_ fun decision hdecision =>
    mem_append_left _ hdecision
  intro position former hstage hformer hstands
  by_cases hat : entry = position
  · subst hat
    rw [hentry] at hformer
    cases hformer
    refine ⟨change admission, ?_, hsame, hstands.of_not_owner ?_⟩
    · simp only [System.after, System.setStage, System.modifyEntry, getElem?_modify_eq,
        hentry]
      rfl
    · rcases howner with hfree | hheld
      · simp [hfree]
      · simp [hheld, hother]
  · refine ⟨former, ?_, ⟨rfl, rfl, rfl, rfl⟩, hstands⟩
    simp only [System.after, System.setStage, System.modifyEntry,
      getElem?_modify_ne _ _ hat, hformer]

end Update

/-- A delivery that may take the lock, or has it, changes its admission. -/
theorem update (hinvariant : Invariant connection system)
    (hdelivery : system.deliveries[index]? = some delivery)
    (hentry : system.entries[entry]? = some admission)
    (howner : admission.owner = none ∨ admission.owner = some index)
    {change : Admission F → Admission F} (hsame : Same admission (change admission))
    {server : Server C} (hserver : system.server.generation ≤ server.generation)
    {decided : List (Decision F)} (hdecided : ∀ decision ∈ decided, decision.key = admission.key)
    (hsettled : Settled (change admission) (({ system with
      server, decisions := system.decisions ++ decided }).admissions admission.key))
    {stage : Stage}
    (hfits : Fits connection (system.after server decided entry change index stage) index
      { delivery with stage }) (hstage : stage ≠ .accepted) :
    Invariant connection (system.after server decided entry change index stage) where
  current := hinvariant.current.trans hserver
  bounded later hlater := by
    obtain ⟨former, hformer, hstays⟩ := former_of_mem_modify hentry hsame hlater
    rw [hstays.generation]
    exact hinvariant.bounded former hformer
  listed later hlater hgeneration := by
    obtain ⟨former, hformer, hstays⟩ := former_of_mem_modify hentry hsame hlater
    rw [hstays.listed]
    exact hinvariant.listed former hformer (hstays.generation ▸ hgeneration)
  distinct _ _ _ _ hleft hright := distinct_modify hentry hsame hinvariant hleft hright
  listedOnce _ _ _ _ hleft hright := listedOnce_modify hentry hsame hinvariant hleft hright
  settled _ hlater := settled_modify hentry hsame hinvariant hdecided hsettled hlater
  known _ hdecision := known_modify hentry hsame hinvariant hdecided hdecision
  fits other moved hmoved := by
    simp only [System.after, System.setStage, System.modifyEntry,
      getElem?_modify] at hmoved
    by_cases hindex : index = other
    · subst hindex
      simp only [hdelivery, if_true, Option.map_eq_map, Option.map_some,
        Option.some.injEq] at hmoved
      subst hmoved
      exact hfits
    · exact fits_after hentry hsame hinvariant howner hindex (by simpa [hindex] using hmoved)
  arrived moved hmoved haccepted := by
    rcases mem_setStage hdelivery hmoved with rfl | hold
    · exact absurd haccepted hstage
    · exact (hinvariant.arrived moved hold haccepted).trans hserver
  named later hlater := by
    obtain ⟨former, hformer, hstays⟩ := former_of_mem_modify hentry hsame hlater
    rw [hstays.submissionId]
    exact hinvariant.named former hformer

/-- The same without a decision. -/
theorem change (hinvariant : Invariant connection system)
    (hdelivery : system.deliveries[index]? = some delivery)
    (hentry : system.entries[entry]? = some admission)
    (howner : admission.owner = none ∨ admission.owner = some index)
    {change : Admission F → Admission F} (hsame : Same admission (change admission))
    (hsettled : Settled (change admission) (system.admissions admission.key))
    (hfits : Fits connection ((system.modifyEntry entry change).setStage index stage) index
      { delivery with stage }) (hstage : stage ≠ .accepted) :
    Invariant connection ((system.modifyEntry entry change).setStage index stage) := by
  have hafter : system.after system.server [] entry change index stage =
      (system.modifyEntry entry change).setStage index stage := by
    simp [System.after]
  rw [← hafter] at hfits ⊢
  refine hinvariant.update hdelivery hentry howner hsame le_rfl (by simp) ?_ hfits hstage
  rw [append_nil]
  exact hsettled

/-- The admission that a delivery works with is the one at its entry. -/
theorem serving (hinvariant : Invariant connection system)
    (hdelivery : system.deliveries[index]? = some delivery)
    (hstage : delivery.stage.entry = some entry)
    (hentry : system.entries[entry]? = some admission) :
    Serves connection delivery admission ∧ delivery.stage.Fits index admission := by
  obtain ⟨found, hfound, hserves, hstands⟩ :=
    (hinvariant.fits index delivery hdelivery).serving entry hstage
  rw [hentry] at hfound
  cases hfound
  exact ⟨hserves, hstands⟩

theorem modifyEntry_get (hentry : system.entries[entry]? = some admission)
    (change : Admission F → Admission F) (index : ℕ) (stage : Stage) :
    ((system.modifyEntry entry change).setStage index stage).entries[entry]? =
      some (change admission) := by
  simp only [System.setStage, System.modifyEntry, getElem?_modify_eq, hentry]
  rfl

section

variable (hinvariant : Invariant connection system)
include hinvariant

section

variable (hdelivery : system.deliveries[index]? = some delivery)
include hdelivery

/-- A delivery that keeps or takes the lock. -/
theorem hold
    (hentry : system.entries[entry]? = some admission)
    (howner : admission.owner = none ∨ admission.owner = some index)
    (hserves : Serves connection delivery admission) {change : Admission F → Admission F}
    (hsame : Same admission (change admission))
    (hsettled : Settled (change admission) (system.admissions admission.key))
    (hstage : stage.entry = some entry) (hstands : stage.Fits index (change admission)) :
    Invariant connection ((system.modifyEntry entry change).setStage index stage) := by
  refine hinvariant.change hdelivery hentry howner hsame hsettled ⟨fun other hother => ?_, ?_⟩
    (by rintro rfl; cases hstage)
  · have hat : entry = other := Option.some.inj (hstage.symm.trans hother)
    subst hat
    exact ⟨change admission, modifyEntry_get hentry change index stage,
      ⟨(hsame.serves hserves).submissionId, (hsame.serves hserves).generation,
        (hsame.serves hserves).fingerprint⟩, hstands⟩
  · rintro submission rfl
    cases hstage

theorem finish
    (hentry : system.entries[entry]? = some admission)
    (howner : admission.owner = none ∨ admission.owner = some index) {outcome : Outcome}
    (hanswers : ∀ submission, outcome = .answered submission →
      Answers connection system delivery submission) :
    Invariant connection (system.finish index entry outcome) := by
  have hsettled := hinvariant.settled admission (mem_of_getElem? hentry)
  refine hinvariant.change hdelivery hentry howner ⟨rfl, rfl, rfl, rfl⟩
    ⟨hsettled.undecided, hsettled.decided, hsettled.recorded, hsettled.receipted⟩
    ⟨fun other hother => (by cases hother), fun submission houtcome => ?_⟩ (by simp)
  exact hanswers submission (Stage.finished.inj houtcome)

/-- A stage change of the lock's holder. -/
theorem advanceStage
    (hentry : system.entries[entry]? = some admission)
    (hserves : Serves connection delivery admission) (hstage : stage.entry = some entry)
    (hstands : stage.Fits index admission) :
    Invariant connection (system.setStage index stage) := by
  refine hinvariant.setStage hdelivery ⟨fun other hother => ?_, ?_⟩
    (by rintro rfl; cases hstage)
  · have hat : entry = other := Option.some.inj (hstage.symm.trans hother)
    subst hat
    exact ⟨admission, hentry, ⟨hserves.submissionId, hserves.generation, hserves.fingerprint⟩,
      hstands⟩
  · rintro submission rfl
    cases hstage

theorem record
    (hentry : system.entries[entry]? = some admission)
    (hserves : Serves connection delivery admission) {status : SubmissionStatus}
    (howner : admission.owner = some index) (hstatus : admission.status = some status) :
    Invariant connection (system.record index entry admission status) := by
  have hsettled := hinvariant.settled admission (mem_of_getElem? hentry)
  refine hinvariant.hold hdelivery hentry (.inr howner) hserves ⟨rfl, rfl, rfl, rfl⟩
    ⟨hsettled.undecided, hsettled.decided, hsettled.recorded, ?_⟩ rfl ⟨howner, hstatus, rfl⟩
  rintro receipt hreceipt
  cases hreceipt
  exact ⟨hstatus, rfl⟩

theorem acquire
    (hentry : system.entries[entry]? = some admission)
    (hserves : Serves connection delivery admission) :
    Invariant connection (system.acquire index entry delivery admission) := by
  have hsettled := hinvariant.settled admission (mem_of_getElem? hentry)
  have hheld : Settled { admission with owner := some index } (system.admissions admission.key) :=
    ⟨hsettled.undecided, hsettled.decided, hsettled.recorded, hsettled.receipted⟩
  rw [System.acquire]
  split
  · exact hinvariant
  rename_i hfree
  have hfree : admission.owner = none := by simpa using hfree
  split
  · exact hinvariant.finish hdelivery hentry (.inl hfree) (by simp)
  split
  · rename_i receipt hreceipt
    obtain ⟨hstatus, hid⟩ := hsettled.receipted receipt hreceipt
    split
    · exact hinvariant.hold hdelivery hentry (.inl hfree) hserves ⟨rfl, rfl, rfl, rfl⟩ hheld rfl
        ⟨rfl, hstatus, hid⟩
    · rename_i hrejected
      have hrejected : admission.status = some .rejected := by simpa using hrejected
      split
      · rename_i failure herror
        have hnone := hsettled.recorded (by simp [herror])
        rw [hnone] at hstatus
        cases hstatus
      · rename_i herror
        refine hinvariant.hold hdelivery hentry (.inl hfree) hserves ⟨rfl, rfl, rfl, rfl⟩
          ⟨fun _ => hsettled.undecided (.inr hrejected), by simp, by simp, by simp⟩ rfl
          ⟨rfl, rfl, rfl, herror⟩
  · rename_i hreceipt
    split
    · exact hinvariant.finish hdelivery hentry (.inl hfree) (by simp)
    · rename_i herror hstatus
      exact hinvariant.hold hdelivery hentry (.inl hfree) hserves ⟨rfl, rfl, rfl, rfl⟩ hheld rfl
        ⟨rfl, hstatus, hreceipt, herror⟩
    · rename_i status herror hstatus
      exact hinvariant.hold hdelivery hentry (.inl hfree) hserves ⟨rfl, rfl, rfl, rfl⟩ hheld rfl
        ⟨rfl, hstatus⟩

end

end

theorem admissions_decide {key : Key} (hempty : system.admissions key = []) (server : Server C)
    {decision : Decision F} (hkey : decision.key = key) :
    ({ system with server, decisions := system.decisions ++ [decision] }).admissions key =
      if decision.disposition = .rejected then [] else [decision] := by
  rw [System.admissions, filter_append]
  change system.admissions key ++ _ = _
  rw [hempty, nil_append]
  split
  · rename_i hrejected
    simp [hrejected]
  · rename_i haccepted
    simp [hkey, haccepted]

section

variable (hinvariant : Invariant connection system)
include hinvariant

theorem submit
    (hdelivery : system.deliveries[index]? = some delivery)
    (hentry : system.entries[entry]? = some admission)
    (hserves : Serves connection delivery admission)
    (hstands : Stage.Fits index admission (.submitting entry)) (choices : Choices) :
    Invariant connection
      (system.submit connection index entry delivery admission choices) := by
  obtain ⟨howner, hstatus, hreceipt, herror⟩ := hstands
  have hsettled := hinvariant.settled admission (mem_of_getElem? hentry)
  have hempty := hsettled.undecided (.inl hstatus)
  rw [System.submit]
  split
  · rename_i failure hfailed
    rw [System.finish, System.modifyEntry, System.modifyEntry, modify_modify_eq]
    refine hinvariant.change hdelivery hentry (.inr howner) ⟨rfl, rfl, rfl, rfl⟩ ?_
      ⟨fun other hother => (by cases hother), by simp⟩ (by simp)
    exact ⟨hsettled.undecided, hsettled.decided, fun _ => hstatus, hsettled.receipted⟩
  · rename_i disposition server hsubmit
    refine hinvariant.update hdelivery hentry (.inr howner) ⟨rfl, rfl, rfl, rfl⟩
      (Server.submit_generation hsubmit).ge (by simp) ⟨?_, ?_, ?_, ?_⟩
      ⟨fun other hother => ?_, by simp⟩ (by simp)
    · rintro (hnone | hrejected)
      · cases hnone
      · have hdisposition : disposition = .rejected := by
          cases disposition <;> simp_all [Disposition.status]
        rw [admissions_decide hempty server rfl, if_pos hdisposition]
    · rintro status hdecided haccepted
      cases hdecided
      have hdisposition : disposition ≠ .rejected := by
        rintro rfl
        exact haccepted rfl
      rw [admissions_decide hempty server rfl, if_neg hdisposition]
      exact ⟨_, rfl, rfl, rfl⟩
    · intro hrecorded
      exact absurd herror hrecorded
    · intro receipt hrecorded
      rw [hreceipt] at hrecorded
      cases hrecorded
    · cases hother
      refine ⟨_, modifyEntry_get hentry _ index (.publishing entry disposition.status),
        ⟨hserves.submissionId, hserves.generation,
          hserves.fingerprint⟩, howner, rfl⟩

/-- The answer that a delivery is about to give is the decision's. -/
theorem answers
    (hentry : system.entries[entry]? = some admission)
    (hserves : Serves connection delivery admission) {submission : Submission}
    (hstatus : admission.status = some submission.status)
    (hid : submission.submissionId = admission.submissionId) :
    Answers connection system delivery submission := by
  have hsettled := hinvariant.settled admission (mem_of_getElem? hentry)
  refine ⟨by rw [hid, hserves.submissionId], ?_⟩
  by_cases hrejected : submission.status = .rejected
  · exact .inl hrejected
  · obtain ⟨decision, hadmitted, hdecision, hfingerprint⟩ :=
      hsettled.decided submission.status hstatus hrejected
    have hkey : (⟨submission.submissionId, delivery.generation⟩ : Key) = admission.key := by
      rw [hid, hserves.generation, Admission.key]
    refine .inr ⟨decision, ?_, hdecision, by rw [hserves.fingerprint, hfingerprint]⟩
    rw [hkey, hadmitted]
    exact mem_singleton_self decision

theorem proceed
    (hdelivery : system.deliveries[index]? = some delivery)
    (hentry : system.entries[entry]? = some admission) (hstage : delivery.stage.entry = some entry)
    (turn : System.Turn) :
    Invariant connection
      (system.proceed connection index delivery turn entry admission) := by
  obtain ⟨hserves, hstands⟩ := hinvariant.serving hdelivery hstage hentry
  rw [System.proceed]
  cases hat : delivery.stage with
  | arrived => exact hinvariant
  | accepted => exact hinvariant
  | finished outcome => exact hinvariant
  | waiting at_ => exact hinvariant.acquire hdelivery hentry hserves
  | submitting other =>
      rw [hat] at hstands
      exact hinvariant.submit hdelivery hentry hserves hstands turn.choices
  | publishing other status =>
      rw [hat] at hstands
      dsimp only
      split
      · exact hinvariant.finish hdelivery hentry (.inr hstands.1) (by simp)
      · exact hinvariant.advanceStage hdelivery hentry hserves rfl hstands
  | flushing other status =>
      rw [hat] at hstands
      dsimp only
      split
      · exact hinvariant.finish hdelivery hentry (.inr hstands.1) (by simp)
      · exact hinvariant.record hdelivery hentry hserves hstands.1 hstands.2
  | recovering other status =>
      rw [hat] at hstands
      dsimp only
      split
      · exact hinvariant.finish hdelivery hentry (.inr hstands.1) (by simp)
      · exact hinvariant.advanceStage hdelivery hentry hserves rfl hstands
  | capturing other status =>
      rw [hat] at hstands
      dsimp only
      split
      · exact hinvariant.finish hdelivery hentry (.inr hstands.1) (by simp)
      · exact hinvariant.record hdelivery hentry hserves hstands.1 hstands.2
  | replying other submission =>
      rw [hat] at hstands
      dsimp only
      split
      · exact hinvariant.finish hdelivery hentry (.inr hstands.1) (by simp)
      · refine hinvariant.finish hdelivery hentry (.inr hstands.1) ?_
        rintro answered hanswered
        cases hanswered
        exact hinvariant.answers hentry hserves hstands.2.1 hstands.2.2

/-! ## Looking an admission up -/

theorem refuse
    (hdelivery : system.deliveries[index]? = some delivery) {outcome : Outcome}
    (houtcome : ∀ submission, outcome ≠ .answered submission) :
    Invariant connection (system.setStage index (.finished outcome)) := by
  refine hinvariant.setStage hdelivery ⟨fun entry hentry => (by cases hentry), ?_⟩ (by simp)
  intro submission hanswered
  exact absurd (Stage.finished.inj hanswered) (houtcome submission)

/-- The table moves on to a generation that the session has reached. -/
theorem moveOn {generation : ℤ}
    (hlater : ¬generation < system.tableGeneration)
    (hcurrent : generation ≤ system.server.generation) :
    Invariant connection { system with tableGeneration := generation } where
  __ := hinvariant
  current := hcurrent
  bounded admission hadmission :=
    (hinvariant.bounded admission hadmission).trans (not_lt.mp hlater)
  listed admission hadmission hgeneration := by
    have hbound := hinvariant.bounded admission hadmission
    have hgeneration : admission.generation = generation := hgeneration
    exact hinvariant.listed admission hadmission (by omega)
  fits index delivery hdelivery := by
    have hold := hinvariant.fits index delivery hdelivery
    exact ⟨hold.serving, hold.answering⟩

/-- Admissions of other generations are forgotten by the table, not by who holds them. -/
theorem unlist :
    Invariant connection { system with
      entries := system.entries.map fun admission => { admission with
        listed := admission.listed && admission.generation = system.tableGeneration } } := by
  have hformer : ∀ {position : ℕ} {later : Admission F},
      (system.entries.map fun admission => { admission with
        listed := admission.listed && admission.generation = system.tableGeneration })[position]? =
          some later →
        ∃ former, system.entries[position]? = some former ∧ later = { former with
          listed := former.listed && former.generation = system.tableGeneration } := by
    intro position later hlater
    rw [getElem?_map, Option.map_eq_some_iff] at hlater
    obtain ⟨former, hformer, rfl⟩ := hlater
    exact ⟨former, hformer, rfl⟩
  constructor
  case current => exact hinvariant.current
  case bounded =>
    intro later hlater
    obtain ⟨former, hformer, rfl⟩ := mem_map.mp hlater
    exact hinvariant.bounded former hformer
  case listed =>
    intro later hlater hgeneration
    obtain ⟨former, hformer, rfl⟩ := mem_map.mp hlater
    have hgeneration : former.generation = system.tableGeneration := hgeneration
    simp [hinvariant.listed former hformer hgeneration, hgeneration]
  case distinct =>
    intro first second left right hleft hright hkey
    obtain ⟨formerLeft, hformerLeft, rfl⟩ := hformer hleft
    obtain ⟨formerRight, hformerRight, rfl⟩ := hformer hright
    exact hinvariant.distinct first second _ _ hformerLeft hformerRight hkey
  case listedOnce =>
    intro first second left right hleft hright hleftListed hrightListed hid
    obtain ⟨formerLeft, hformerLeft, rfl⟩ := hformer hleft
    obtain ⟨formerRight, hformerRight, rfl⟩ := hformer hright
    exact hinvariant.listedOnce first second _ _ hformerLeft hformerRight
      (Bool.and_eq_true_iff.mp hleftListed).1 (Bool.and_eq_true_iff.mp hrightListed).1 hid
  case settled =>
    intro later hlater
    obtain ⟨former, hformer, rfl⟩ := mem_map.mp hlater
    have hsettled := hinvariant.settled former hformer
    exact ⟨hsettled.undecided, hsettled.decided, hsettled.recorded, hsettled.receipted⟩
  case known =>
    intro decision hdecision
    obtain ⟨former, hformer, hkey⟩ := hinvariant.known decision hdecision
    exact ⟨_, mem_map_of_mem hformer, hkey⟩
  case fits =>
    intro index delivery hdelivery
    have hold := hinvariant.fits index delivery hdelivery
    refine ⟨fun entry hentry => ?_, hold.answering⟩
    obtain ⟨former, hformer, hserves, hstands⟩ := hold.serving entry hentry
    refine ⟨{ former with
      listed := former.listed && former.generation = system.tableGeneration },
      by rw [getElem?_map, hformer, Option.map_some], ⟨hserves.submissionId,
        hserves.generation, hserves.fingerprint⟩, ?_⟩
    generalize delivery.stage = stage at hstands ⊢
    cases stage <;> exact hstands
  case arrived => exact hinvariant.arrived
  case named =>
    intro later hlater
    obtain ⟨former, hformer, rfl⟩ := mem_map.mp hlater
    exact hinvariant.named former hformer

/-- A new admission for an id that the table does not list. -/
theorem enroll
    (hgeneration : admission.generation = system.tableGeneration)
    (hlisted : admission.listed = true) (hstatus : admission.status = none)
    (hreceipt : admission.receipt = none)
    (hnamed : 1 ≤ admission.submissionId.length ∧ admission.submissionId.length ≤ 128)
    (hnew : ∀ other ∈ system.entries, other.listed = true →
      other.submissionId ≠ admission.submissionId) :
    Invariant connection { system with entries := system.entries ++ [admission] } := by
  have hat : ∀ {position : ℕ} {found : Admission F},
      (system.entries ++ [admission])[position]? = some found →
        system.entries[position]? = some found ∨
          position = system.entries.length ∧ found = admission := by
    intro position found hfound
    rcases lt_or_ge position system.entries.length with hlt | hge
    · rw [getElem?_append_left hlt] at hfound
      exact .inl hfound
    · rw [getElem?_append_right hge, getElem?_singleton] at hfound
      split at hfound
      · cases hfound
        exact .inr ⟨by omega, rfl⟩
      · cases hfound
  have hmem : ∀ {found : Admission F}, found ∈ system.entries ++ [admission] →
      found ∈ system.entries ∨ found = admission := by
    intro found hfound
    simpa using hfound
  have hfresh : ∀ other ∈ system.entries, other.key ≠ admission.key := by
    intro other hother hkey
    have hid : other.submissionId = admission.submissionId := congrArg Key.submissionId hkey
    have hsame : other.generation = admission.generation := congrArg Key.generation hkey
    exact hnew other hother (hinvariant.listed other hother (hsame.trans hgeneration)) hid
  have hempty : system.admissions admission.key = [] := by
    refine filter_eq_nil_iff.mpr fun decision hdecision => ?_
    obtain ⟨other, hother, hkey⟩ := hinvariant.known decision hdecision
    have hne : decision.key ≠ admission.key := by
      rw [← hkey]
      exact hfresh other hother
    simp [hne]
  constructor
  case current => exact hinvariant.current
  case bounded =>
    intro found hfound
    rcases hmem hfound with hold | rfl
    · exact hinvariant.bounded found hold
    · exact hgeneration.le
  case listed =>
    intro found hfound hcurrent
    rcases hmem hfound with hold | rfl
    · exact hinvariant.listed found hold hcurrent
    · exact hlisted
  case distinct =>
    intro first second left right hleft hright hkey
    rcases hat hleft with hold | ⟨rfl, rfl⟩ <;> rcases hat hright with hother | ⟨rfl, rfl⟩
    · exact hinvariant.distinct first second left right hold hother hkey
    · exact absurd hkey (hfresh left (mem_of_getElem? hold))
    · exact absurd hkey.symm (hfresh right (mem_of_getElem? hother))
    · rfl
  case listedOnce =>
    intro first second left right hleft hright hleftListed hrightListed hid
    rcases hat hleft with hold | ⟨rfl, rfl⟩ <;> rcases hat hright with hother | ⟨rfl, rfl⟩
    · exact hinvariant.listedOnce first second left right hold hother hleftListed hrightListed hid
    · exact absurd hid (hnew left (mem_of_getElem? hold) hleftListed)
    · exact absurd hid.symm (hnew right (mem_of_getElem? hother) hrightListed)
    · rfl
  case settled =>
    intro found hfound
    rcases hmem hfound with hold | rfl
    · exact hinvariant.settled found hold
    · exact ⟨fun _ => hempty, by simp [hstatus], fun _ => hstatus, by simp [hreceipt]⟩
  case known =>
    intro decision hdecision
    obtain ⟨found, hfound, hkey⟩ := hinvariant.known decision hdecision
    exact ⟨found, mem_append_left _ hfound, hkey⟩
  case fits =>
    intro index delivery hdelivery
    have hold := hinvariant.fits index delivery hdelivery
    refine ⟨fun entry hentry => ?_, hold.answering⟩
    obtain ⟨found, hfound, hserves⟩ := hold.serving entry hentry
    refine ⟨found, ?_, hserves⟩
    rw [getElem?_append_left (List.getElem?_eq_some_iff.mp hfound).1]
    exact hfound
  case arrived => exact hinvariant.arrived
  case named =>
    intro found hfound
    rcases hmem hfound with hold | rfl
    · exact hinvariant.named found hold
    · exact hnamed

end

theorem find_none {submissionId : Text} (hfind : system.find submissionId = none) :
    ∀ admission ∈ system.entries, admission.listed = true →
      admission.submissionId ≠ submissionId := by
  intro admission hadmission hlisted hid
  have hnot := findIdx?_eq_none_iff.mp hfind admission hadmission
  simp [hlisted, hid] at hnot

section

variable (hinvariant : Invariant connection system)
include hinvariant

theorem register
    (hdelivery : system.deliveries[index]? = some delivery) {submissionId : Text} {mark : F}
    (hid : delivery.submissionId = .str submissionId)
    (hmark : fingerprint connection.digest delivery.value = some mark)
    (hnamed : 1 ≤ submissionId.length ∧ submissionId.length ≤ 128)
    (hcurrent : delivery.generation = system.tableGeneration)
    (hfind : system.find submissionId = none) :
    Invariant connection
      (system.register connection index ⟨submissionId, delivery.generation⟩ mark) := by
  have hkept := hinvariant.unlist
  rw [System.register]
  dsimp only
  rw [hcurrent]
  split
  · exact hkept.refuse hdelivery (fun submission => by simp)
  · refine advanceStage (hkept.enroll rfl rfl rfl rfl hnamed ?_) hdelivery
      (getElem?_concat_length) ⟨hid, hcurrent, hmark⟩ rfl trivial
    intro other hother hlisted
    obtain ⟨former, hformer, rfl⟩ := mem_map.mp hother
    exact find_none hfind former hformer (Bool.and_eq_true_iff.mp hlisted).1

theorem lookUp [DecidableEq F]
    (hdelivery : system.deliveries[index]? = some delivery) {submissionId : Text} {mark : F}
    (hid : delivery.submissionId = .str submissionId)
    (hmark : fingerprint connection.digest delivery.value = some mark)
    (hnamed : 1 ≤ submissionId.length ∧ submissionId.length ≤ 128)
    (hcurrent : delivery.generation ≤ system.server.generation) :
    Invariant connection
      (system.lookUp connection index ⟨submissionId, delivery.generation⟩ mark) := by
  rw [System.lookUp]
  split
  · exact hinvariant.refuse hdelivery (by simp)
  rename_i hlater
  have hmoved := hinvariant.moveOn hlater hcurrent
  dsimp only
  split
  · rename_i hfind
    exact hmoved.register hdelivery hid hmark hnamed rfl hfind
  · rename_i entry hfind
    split
    · exact hmoved
    · rename_i admission hentry
      split
      · rename_i hsame
        refine hmoved.advanceStage hdelivery hentry ⟨?_, hsame.2.symm, ?_⟩ rfl trivial
        · have hfound := findIdx?_eq_some_iff_getElem.mp hfind
          obtain ⟨hlt, hmatches, -⟩ := hfound
          have hat : system.entries[entry] = admission :=
            (List.getElem?_eq_some_iff.mp hentry).2
          simp only [hat, Bool.and_eq_true, decide_eq_true_eq] at hmatches
          rw [hid, hmatches.2]
        · rw [hmark, hsame.1]
      · exact hmoved.refuse hdelivery (by simp)

/-! ## Steps -/

theorem advance [DecidableEq F] (index : ℕ)
    (turn : System.Turn) : Invariant connection (system.advance connection index turn) := by
  rw [System.advance]
  split
  · exact hinvariant
  rename_i delivery hdelivery
  split
  · rw [System.arrive]
    split
    · rename_i hcurrent
      exact hinvariant.setStage hdelivery ⟨fun entry hentry => (by cases hentry), by simp⟩
        fun _ => hcurrent.le
    · exact hinvariant.refuse hdelivery (by simp)
  · rename_i hstage
    have hcurrent := hinvariant.arrived delivery (mem_of_getElem? hdelivery) hstage
    rw [System.accept]
    split
    · rename_i submissionId hid
      split
      · rename_i hnamed
        split
        · exact hinvariant.refuse hdelivery (by simp)
        · rename_i mark hmark
          exact hinvariant.lookUp hdelivery hid hmark hnamed hcurrent
      · exact hinvariant.refuse hdelivery (by simp)
    · exact hinvariant.refuse hdelivery (by simp)
  · split
    · exact hinvariant
    · rename_i entry hentry
      split
      · exact hinvariant
      · rename_i admission hadmission
        exact hinvariant.proceed hdelivery hadmission hentry turn

theorem deliver (delivery : Delivery)
    (hstage : delivery.stage = .arrived) :
    Invariant connection { system with deliveries := system.deliveries ++ [delivery] } where
  __ := hinvariant
  fits index found hfound := by
    have hfound : (system.deliveries ++ [delivery])[index]? = some found := hfound
    rcases lt_or_ge index system.deliveries.length with hlt | hge
    · rw [getElem?_append_left hlt] at hfound
      have hold := hinvariant.fits index found hfound
      exact ⟨hold.serving, hold.answering⟩
    · rw [getElem?_append_right hge, getElem?_singleton] at hfound
      split at hfound
      · cases hfound
        exact ⟨by simp [hstage, Stage.entry], by simp [hstage]⟩
      · cases hfound
  arrived found hfound haccepted := by
    rcases mem_append.mp hfound with hold | hnew
    · exact hinvariant.arrived found hold haccepted
    · rw [mem_singleton.mp hnew, hstage] at haccepted
      cases haccepted

/-- Every step of a delivery or of the server keeps the table: one admission for a key, and its
entry says what was decided. -/
theorem step [DecidableEq F] (action : Action) :
    Invariant connection (system.step connection action) := by
  cases action with
  | server action =>
      have hgrows : system.server.generation ≤
          (system.server.step connection.host action).generation :=
        Server.generation_le_step action
      exact {
        hinvariant with
        current := hinvariant.current.trans hgrows
        fits := fun index delivery hdelivery => by
          have hold := hinvariant.fits index delivery hdelivery
          exact ⟨hold.serving, hold.answering⟩
        arrived := fun delivery hdelivery haccepted =>
          (hinvariant.arrived delivery hdelivery haccepted).trans hgrows }
  | deliver submissionId value generation => exact hinvariant.deliver _ rfl
  | advance index turn => exact hinvariant.advance index turn

end

/-- A connection whose session has been reset some number of times. -/
theorem connected (agent : AgentState C) (resets : ℕ) :
    Invariant connection { server := { agent := { agent with sessionGeneration := resets } } } where
  current := by
    have hresets : (-1 : ℤ) ≤ resets := by omega
    exact hresets
  bounded := by simp
  listed := by simp
  distinct := by simp
  listedOnce := by simp
  settled := by simp
  known := by simp
  fits := by simp
  arrived := by simp
  named := by simp

/-- By induction on the actions, in any order of the deliveries. -/
theorem run [DecidableEq F] (hinvariant : Invariant connection system) (actions : List Action) :
    Invariant connection (system.run connection actions) := by
  induction actions generalizing system with
  | nil => exact hinvariant
  | cons action rest ih => exact ih (hinvariant.step action)

end Invariant

end Submissions

end ReuleauxCoder.Runtime
