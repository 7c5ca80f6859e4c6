import ReuleauxCoder.Runtime.Admissions

/-!
# A submission is let in at most once

What holds of every order of deliveries of a submission: at most one of them lets the input
in, the answers report that decision, and a delivery that comes later with the same value is
told of it, unless the session has moved on or that delivery fails itself.
-/

namespace ReuleauxCoder.Runtime.Submissions

open PyText PyJson Transition List

variable {C F : Type} {connection : Connection C F} {system : System C F}

/-! ## How a delivery goes on -/

/-- The stage that a delivery may go on to from another, and what it found there. -/
def Moves (connection : Connection C F) (system : System C F) (delivery : Delivery) :
    Stage → Stage → Prop
  | .arrived, .accepted => True
  | .arrived, .finished .sessionChanged => delivery.generation ≠ system.server.generation
  | .accepted, .finished .sessionChanged => delivery.generation < system.server.generation
  | .accepted, .finished (.refused _) => ∀ admission ∈ system.entries,
      delivery.submissionId = .str admission.submissionId →
        delivery.generation = admission.generation →
          fingerprint connection.digest delivery.value ≠ some admission.fingerprint
  | .accepted, .waiting _ => ∀ admission ∈ system.entries,
      delivery.submissionId = .str admission.submissionId →
        delivery.generation = admission.generation →
          fingerprint connection.digest delivery.value = some admission.fingerprint
  | .waiting _, .finished .sessionChanged => delivery.generation ≠ system.server.generation
  | .waiting _, .submitting _ | .waiting _, .finished (.recorded _) =>
      ∀ submissionId, delivery.submissionId = .str submissionId →
        system.admissions ⟨submissionId, delivery.generation⟩ = []
  | .waiting _, .replying _ submission => submission.status ≠ .rejected
  | .waiting _, .recovering _ status => status = .rejected →
      ∀ submissionId, delivery.submissionId = .str submissionId →
        system.admissions ⟨submissionId, delivery.generation⟩ = []
  | .submitting _, .publishing _ _ | .submitting _, .finished (.raised _) => True
  | .publishing _ _, .flushing _ _ | .publishing _ _, .finished (.failed .publication) => True
  | .flushing _ _, .replying _ _ | .flushing _ _, .finished (.failed .persistence) => True
  | .recovering _ status, .capturing _ same => same = status
  | .capturing _ status, .replying _ submission => submission.status = status
  | .replying _ submission, .finished (.answered same) => same = submission
  | .recovering _ _, .finished (.failed .persistence) => True
  | .capturing _ _, .finished (.failed .capture) => True
  | .replying _ _, .finished (.failed .encoding) => True
  | _, _ => False

/-- The deliveries after one of them has gone on to a stage. -/
def Goes (system next : System C F) (index : ℕ) (stage : Stage) : Prop :=
  next.deliveries = system.deliveries.modify index fun delivery => { delivery with stage }

variable {admission : Admission F} {delivery : Delivery} {entry index : ℕ}

variable {mark : F}

namespace Invariant

section

variable (hinvariant : Invariant connection system)
include hinvariant

theorem acquire_moves
    (hdelivery : system.deliveries[index]? = some delivery)
    (hstage : delivery.stage = .waiting entry) (hentry : system.entries[entry]? = some admission) :
    (system.acquire index entry delivery admission).deliveries = system.deliveries ∨
      ∃ stage, Goes system (system.acquire index entry delivery admission) index stage ∧
        Moves connection system delivery delivery.stage stage := by
  have hserves := (hinvariant.serving hdelivery (by rw [hstage]; rfl) hentry).1
  have hsettled := hinvariant.settled admission (mem_of_getElem? hentry)
  have hnothing : admission.status = none ∨ admission.status = some .rejected →
      ∀ submissionId, delivery.submissionId = .str submissionId →
        system.admissions ⟨submissionId, delivery.generation⟩ = [] := by
    intro hstatus submissionId hid
    rw [hserves.submissionId] at hid
    cases hid
    rw [hserves.generation]
    exact hsettled.undecided hstatus
  rw [hstage, System.acquire]
  split
  · exact .inl rfl
  right
  split
  · rename_i hmoved
    exact ⟨_, rfl, hmoved⟩
  split
  · rename_i hreceipt
    split
    · rename_i haccepted
      refine ⟨_, rfl, fun hrejected => haccepted ?_⟩
      rw [(hsettled.receipted _ hreceipt).1, hrejected]
    · rename_i hrejected
      have hrejected : admission.status = some .rejected := by simpa using hrejected
      split
      · exact ⟨_, rfl, hnothing (.inr hrejected)⟩
      · exact ⟨_, rfl, hnothing (.inr hrejected)⟩
  · split
    · rename_i failure status herror
      exact ⟨_, rfl, hnothing (.inl (hsettled.recorded (by simp [herror])))⟩
    · rename_i herror hstatus
      exact ⟨_, rfl, hnothing (.inl hstatus)⟩
    · rename_i status hreceipt herror hstatus
      exact ⟨_, rfl, fun hrejected => hnothing (.inr (by rw [hstatus, hrejected]))⟩

theorem proceed_moves
    (hdelivery : system.deliveries[index]? = some delivery)
    (hstage : delivery.stage.entry = some entry) (hentry : system.entries[entry]? = some admission)
    (turn : System.Turn) :
    (system.proceed connection index delivery turn entry admission).deliveries =
        system.deliveries ∨
      ∃ stage, Goes system (system.proceed connection index delivery turn entry admission) index
          stage ∧ Moves connection system delivery delivery.stage stage := by
  rw [System.proceed]
  cases hat : delivery.stage with
  | arrived => exact .inl rfl
  | accepted => exact .inl rfl
  | finished outcome => exact .inl rfl
  | waiting other =>
      rw [hat] at hstage
      cases hstage
      have hmoves := hinvariant.acquire_moves hdelivery hat hentry
      rwa [hat] at hmoves
  | submitting other =>
      right
      dsimp only
      rw [System.submit]
      split
      · exact ⟨_, rfl, trivial⟩
      · exact ⟨_, rfl, trivial⟩
  | publishing other status =>
      right
      dsimp only
      split
      · exact ⟨_, rfl, trivial⟩
      · exact ⟨_, rfl, trivial⟩
  | flushing other status =>
      right
      dsimp only
      split
      · exact ⟨_, rfl, trivial⟩
      · exact ⟨_, rfl, trivial⟩
  | recovering other status =>
      right
      dsimp only
      split
      · exact ⟨_, rfl, trivial⟩
      · exact ⟨_, rfl, rfl⟩
  | capturing other status =>
      right
      dsimp only
      split
      · exact ⟨_, rfl, trivial⟩
      · exact ⟨_, rfl, rfl⟩
  | replying other submission =>
      right
      dsimp only
      split
      · exact ⟨_, rfl, trivial⟩
      · exact ⟨_, rfl, rfl⟩

/-- The table finds the admission of a current key. -/
theorem find_of_key
    (hadmission : admission ∈ system.entries)
    (hcurrent : ¬admission.generation < system.tableGeneration) :
    ∃ entry, system.find admission.submissionId = some entry ∧
      system.entries[entry]? = some admission := by
  have hgeneration : admission.generation = system.tableGeneration :=
    le_antisymm (hinvariant.bounded admission hadmission) (not_lt.mp hcurrent)
  have hlisted := hinvariant.listed admission hadmission hgeneration
  obtain ⟨position, hposition⟩ := getElem?_of_mem hadmission
  cases hfind : system.find admission.submissionId with
  | none => exact absurd rfl (find_none hfind admission hadmission hlisted)
  | some entry =>
      obtain ⟨hlt, hmatches, -⟩ := findIdx?_eq_some_iff_getElem.mp hfind
      simp only [Bool.and_eq_true, decide_eq_true_eq] at hmatches
      have hat : system.entries[entry]? = some system.entries[entry] :=
        getElem?_eq_getElem hlt
      have hsame := hinvariant.listedOnce entry position _ _ hat hposition hmatches.1 hlisted
        hmatches.2
      exact ⟨entry, rfl, by rw [hsame]; exact hposition⟩

theorem lookUp_moves [DecidableEq F]
    {submissionId : Text} (hid : delivery.submissionId = .str submissionId)
    (hmark : fingerprint connection.digest delivery.value = some mark) :
    ∃ stage, Goes system (system.lookUp connection index ⟨submissionId, delivery.generation⟩ mark)
      index stage ∧ Moves connection system delivery .accepted stage := by
  rw [System.lookUp]
  split
  · rename_i hstale
    exact ⟨_, rfl, hstale.trans_le hinvariant.current⟩
  rename_i hlater
  dsimp only at hlater ⊢
  -- The admission of the delivery's key, where there is one, is what the table finds.
  have hlisted : ∀ admission ∈ system.entries,
      delivery.submissionId = .str admission.submissionId →
        delivery.generation = admission.generation →
          ∃ entry, system.find submissionId = some entry ∧
            system.entries[entry]? = some admission := by
    intro admission hadmission hname hgeneration
    rw [hid] at hname
    cases hname
    exact hinvariant.find_of_key hadmission (hgeneration ▸ hlater)
  have hsame : System.find { system with tableGeneration := delivery.generation } submissionId =
      system.find submissionId := rfl
  rw [hsame]
  cases hfind : system.find submissionId with
  | none =>
      have hnone : ∀ admission ∈ system.entries,
          delivery.submissionId = .str admission.submissionId →
            delivery.generation ≠ admission.generation := by
        intro admission hadmission hname hgeneration
        obtain ⟨entry, hfound, -⟩ := hlisted admission hadmission hname hgeneration
        rw [hfind] at hfound
        cases hfound
      dsimp only
      rw [System.register]
      dsimp only
      split
      · exact ⟨_, rfl, fun admission hadmission hname hgeneration =>
          absurd hgeneration (hnone admission hadmission hname)⟩
      · exact ⟨_, rfl, fun admission hadmission hname hgeneration =>
          absurd hgeneration (hnone admission hadmission hname)⟩
  | some entry =>
      obtain ⟨hlt, -⟩ := findIdx?_eq_some_iff_getElem.mp hfind
      have hentry : system.entries[entry]? = some system.entries[entry] :=
        getElem?_eq_getElem hlt
      have honly : ∀ admission ∈ system.entries,
          delivery.submissionId = .str admission.submissionId →
            delivery.generation = admission.generation → admission = system.entries[entry] := by
        intro admission hadmission hname hgeneration
        obtain ⟨other, hfound, hother⟩ := hlisted admission hadmission hname hgeneration
        rw [hfind] at hfound
        cases hfound
        rw [hentry] at hother
        exact (Option.some.inj hother).symm
      simp only [hentry]
      split
      · rename_i hsame
        refine ⟨_, rfl, fun admission hadmission hname hgeneration => ?_⟩
        rw [honly admission hadmission hname hgeneration, hmark, hsame.1]
      · rename_i hdiffers
        refine ⟨_, rfl, fun admission hadmission hname hgeneration hequal => hdiffers ?_⟩
        rw [honly admission hadmission hname hgeneration] at hequal hgeneration
        rw [hmark] at hequal
        exact ⟨(Option.some.inj hequal).symm, hgeneration.symm⟩

theorem accept_moves [DecidableEq F] (index : ℕ)
    (delivery : Delivery) :
    ∃ stage, Goes system (system.accept connection index delivery) index stage ∧
      Moves connection system delivery .accepted stage := by
  rw [System.accept]
  split
  · rename_i submissionId hid
    split
    · split
      · rename_i hnone
        refine ⟨_, rfl, fun admission _ _ _ hequal => ?_⟩
        rw [hnone] at hequal
        cases hequal
      · rename_i mark hmark
        exact hinvariant.lookUp_moves hid hmark
    · rename_i hlength
      refine ⟨_, rfl, fun admission hadmission hname _ _ => hlength ?_⟩
      rw [hid] at hname
      cases hname
      exact hinvariant.named admission hadmission
  · rename_i hname
    exact ⟨_, rfl, fun admission _ hsame _ _ => hname _ hsame⟩

theorem advance_moves [DecidableEq F] (index : ℕ)
    (turn : System.Turn) :
    (system.advance connection index turn).deliveries = system.deliveries ∨
      ∃ delivery stage, system.deliveries[index]? = some delivery ∧
        Goes system (system.advance connection index turn) index stage ∧
          Moves connection system delivery delivery.stage stage := by
  rw [System.advance]
  split
  · exact .inl rfl
  rename_i delivery hdelivery
  split
  · rename_i hstage
    right
    rw [System.arrive]
    split
    · exact ⟨delivery, _, hdelivery, rfl, by rw [hstage]; trivial⟩
    · rename_i hmoved
      exact ⟨delivery, _, hdelivery, rfl, by rw [hstage]; exact hmoved⟩
  · rename_i hstage
    obtain ⟨stage, hgoes, hmoves⟩ := hinvariant.accept_moves index delivery
    exact .inr ⟨delivery, stage, hdelivery, hgoes, by rw [hstage]; exact hmoves⟩
  · split
    · exact .inl rfl
    · rename_i entry hentry
      split
      · exact .inl rfl
      · rename_i admission hadmission
        rcases hinvariant.proceed_moves hdelivery hentry hadmission turn with hsame | hmoves
        · exact .inl hsame
        · obtain ⟨stage, hgoes, hmoves⟩ := hmoves
          exact .inr ⟨delivery, stage, hdelivery, hgoes, hmoves⟩

end

end Invariant

/-! ## Nothing is forgotten -/

/-- Admissions keep their identity, and decisions stay decided. -/
structure Keeps (system next : System C F) : Prop where
  entries : ∀ admission ∈ system.entries, ∃ later ∈ next.entries,
    later.submissionId = admission.submissionId ∧ later.generation = admission.generation ∧
      later.fingerprint = admission.fingerprint
  decisions : ∀ decision ∈ system.decisions, decision ∈ next.decisions

variable {key : Key}

namespace Keeps

variable {next last : System C F}

theorem of_same (hentries : next.entries = system.entries)
    (hdecisions : next.decisions = system.decisions) : Keeps system next where
  entries admission hadmission := ⟨admission, hentries ▸ hadmission, rfl, rfl, rfl⟩
  decisions _ hdecision := hdecisions ▸ hdecision

theorem trans (hfirst : Keeps system next) (hsecond : Keeps next last) : Keeps system last where
  entries admission hadmission := by
    obtain ⟨later, hlater, hid, hgeneration, hmark⟩ := hfirst.entries admission hadmission
    obtain ⟨final, hfinal, hfinalId, hfinalGeneration, hfinalMark⟩ :=
      hsecond.entries later hlater
    exact ⟨final, hfinal, hfinalId.trans hid, hfinalGeneration.trans hgeneration,
      hfinalMark.trans hmark⟩
  decisions decision hdecision := hsecond.decisions decision (hfirst.decisions decision hdecision)

section

variable (hentry : system.entries[entry]? = some admission)
include hentry

theorem modifyEntry
    {change : Admission F → Admission F} (hsame : Same admission (change admission))
    (stage : Stage) :
    Keeps system ((system.modifyEntry entry change).setStage index stage) where
  entries former hformer := by
    obtain ⟨position, hposition⟩ := getElem?_of_mem hformer
    by_cases hat : entry = position
    · subst hat
      rw [hentry] at hposition
      cases hposition
      exact ⟨change admission,
        mem_of_getElem? (Invariant.modifyEntry_get hentry change index stage),
        hsame.submissionId, hsame.generation, hsame.fingerprint⟩
    · refine ⟨former, mem_of_getElem? (i := position) ?_, rfl, rfl, rfl⟩
      simp only [System.setStage, System.modifyEntry, getElem?_modify_ne _ _ hat, hposition]
  decisions _ hdecision := hdecision

theorem finish (outcome : Outcome) :
    Keeps system (system.finish index entry outcome) :=
  modifyEntry hentry ⟨rfl, rfl, rfl, rfl⟩ _

theorem acquire :
    Keeps system (system.acquire index entry delivery admission) := by
  rw [System.acquire]
  split
  · exact of_same rfl rfl
  split
  · exact finish hentry _
  split
  · split
    · exact modifyEntry hentry ⟨rfl, rfl, rfl, rfl⟩ _
    · split
      · exact modifyEntry hentry ⟨rfl, rfl, rfl, rfl⟩ _
      · exact modifyEntry hentry ⟨rfl, rfl, rfl, rfl⟩ _
  · split
    · exact finish hentry _
    · exact modifyEntry hentry ⟨rfl, rfl, rfl, rfl⟩ _
    · exact modifyEntry hentry ⟨rfl, rfl, rfl, rfl⟩ _

theorem submit (choices : Choices) :
    Keeps system (system.submit connection index entry delivery admission choices) := by
  rw [System.submit]
  split
  · rw [System.finish, System.modifyEntry, System.modifyEntry, modify_modify_eq]
    exact modifyEntry hentry ⟨rfl, rfl, rfl, rfl⟩ _
  · rename_i disposition server hsubmit
    let decided : System C F := { system with
      server, decisions := system.decisions ++
        [⟨admission.key, admission.fingerprint, disposition⟩] }
    have hdecided : Keeps system decided :=
      ⟨fun former hformer => ⟨former, hformer, rfl, rfl, rfl⟩,
        fun _ hdecision => mem_append_left _ hdecision⟩
    have hentry : decided.entries[entry]? = some admission := hentry
    exact hdecided.trans (modifyEntry hentry ⟨rfl, rfl, rfl, rfl⟩ _)

theorem proceed (turn : System.Turn) :
    Keeps system (system.proceed connection index delivery turn entry admission) := by
  rw [System.proceed]
  split
  · exact acquire hentry
  · exact submit hentry _
  · split
    · exact finish hentry _
    · exact of_same rfl rfl
  · split
    · exact finish hentry _
    · exact modifyEntry hentry ⟨rfl, rfl, rfl, rfl⟩ _
  · split
    · exact finish hentry _
    · exact of_same rfl rfl
  · split
    · exact finish hentry _
    · exact modifyEntry hentry ⟨rfl, rfl, rfl, rfl⟩ _
  · split
    · exact finish hentry _
    · exact finish hentry _
  · exact of_same rfl rfl

end

theorem register : Keeps system (system.register connection index key mark) := by
  have hkept : ∀ admission ∈ system.entries, ∃ later ∈ system.entries.map fun admission =>
      { admission with listed := admission.listed && admission.generation = key.generation },
      later.submissionId = admission.submissionId ∧ later.generation = admission.generation ∧
        later.fingerprint = admission.fingerprint := fun admission hadmission =>
    ⟨_, mem_map_of_mem hadmission, rfl, rfl, rfl⟩
  rw [System.register]
  dsimp only
  split
  · exact ⟨hkept, fun decision hdecision => hdecision⟩
  · refine ⟨fun admission hadmission => ?_, fun decision hdecision => hdecision⟩
    obtain ⟨later, hlater, hsame⟩ := hkept admission hadmission
    exact ⟨later, mem_append_left _ hlater, hsame⟩

theorem lookUp [DecidableEq F] : Keeps system (system.lookUp connection index key mark) := by
  rw [System.lookUp]
  split
  · exact of_same rfl rfl
  dsimp only
  split
  · have hmoved : Keeps system { system with tableGeneration := key.generation } :=
      of_same rfl rfl
    exact hmoved.trans register
  · split
    · exact of_same rfl rfl
    · split
      · exact of_same rfl rfl
      · exact of_same rfl rfl

theorem advance [DecidableEq F] (index : ℕ) (turn : System.Turn) :
    Keeps system (system.advance connection index turn) := by
  rw [System.advance]
  split
  · exact of_same rfl rfl
  split
  · rw [System.arrive]
    split
    · exact of_same rfl rfl
    · exact of_same rfl rfl
  · rw [System.accept]
    split
    · split
      · split
        · exact of_same rfl rfl
        · exact lookUp
      · exact of_same rfl rfl
    · exact of_same rfl rfl
  · split
    · exact of_same rfl rfl
    · split
      · exact of_same rfl rfl
      · rename_i hentry
        exact proceed hentry turn

theorem step [DecidableEq F] (action : Action) : Keeps system (system.step connection action) := by
  cases action with
  | server action => exact of_same rfl rfl
  | deliver submissionId value generation => exact of_same rfl rfl
  | advance index turn => exact advance index turn

end Keeps

/-! ## Deliveries that come later -/

/-- Every delivery from a position on satisfies a property. -/
def Late (start : ℕ) (property : Delivery → Prop) (deliveries : List Delivery) : Prop :=
  ∀ index delivery, start ≤ index → deliveries[index]? = some delivery → property delivery

variable {start : ℕ}

/-- A property of late deliveries stays where every move keeps it and each delivery that arrives
has it. -/
theorem late_step [DecidableEq F] (hinvariant : Invariant connection system)
    {property later : Delivery → Prop} (hlate : Late start property system.deliveries)
    (hstays : ∀ delivery, property delivery → later delivery)
    (harrives : ∀ submissionId value generation, later ⟨submissionId, value, generation, .arrived⟩)
    (hmoves : ∀ delivery stage, property delivery →
      Moves connection system delivery delivery.stage stage → later { delivery with stage })
    (action : Action) : Late start later (system.step connection action).deliveries := by
  cases action with
  | server action =>
      intro index delivery hindex hat
      exact hstays delivery (hlate index delivery hindex hat)
  | deliver submissionId value generation =>
      intro index delivery hindex hat
      have hat : (system.deliveries ++ [⟨submissionId, value, generation, .arrived⟩])[index]? =
          some delivery := hat
      rcases lt_or_ge index system.deliveries.length with hlt | hge
      · rw [getElem?_append_left hlt] at hat
        exact hstays delivery (hlate index delivery hindex hat)
      · rw [getElem?_append_right hge, getElem?_singleton] at hat
        split at hat
        · cases hat
          exact harrives submissionId value generation
        · cases hat
  | advance moved turn =>
      intro index delivery hindex hat
      have hat : (system.advance connection moved turn).deliveries[index]? = some delivery := hat
      rcases hinvariant.advance_moves moved turn with hsame | ⟨found, stage, hfound, hgoes, hmove⟩
      · rw [hsame] at hat
        exact hstays delivery (hlate index delivery hindex hat)
      · rw [hgoes, getElem?_modify] at hat
        by_cases hmoved : moved = index
        · subst hmoved
          simp only [hfound, if_true, Option.map_eq_map, Option.map_some,
            Option.some.injEq] at hat
          subst hat
          exact hmoves found stage (hlate moved found hindex hfound) hmove
        · have hkept : system.deliveries[index]? = some delivery := by
            simpa [hmoved] using hat
          exact hstays delivery (hlate index delivery hindex hkept)

/-- A delivery that has not come, or was turned away, at the look-up. -/
def Stage.IsOutside : Stage → Prop
  | .arrived | .accepted | .finished .sessionChanged | .finished (.refused _) => True
  | _ => False

/-- The delivery is outside if its value is another one than the admission's of its key. -/
def Excludes (connection : Connection C F) (key : Key) (mark : F) (delivery : Delivery) : Prop :=
  delivery.submissionId = .str key.submissionId → delivery.generation = key.generation →
    fingerprint connection.digest delivery.value ≠ some mark → delivery.stage.IsOutside

/-- How a delivery stands that came after the input was let in. -/
def Stage.IsRetry (generation current : ℤ) : Stage → Prop
  | .submitting _ | .publishing _ _ | .flushing _ _ => False
  | .recovering _ status | .capturing _ status => status ≠ .rejected
  | .replying _ submission => submission.status ≠ .rejected
  | .finished outcome =>
      (∃ submission, outcome = .answered submission ∧ submission.status ≠ .rejected) ∨
        outcome = .sessionChanged ∧ generation < current ∨
          ∃ point, outcome = .failed point ∧ point ≠ .publication
  | _ => True

def Retries (connection : Connection C F) (key : Key) (mark : F) (current : ℤ)
    (delivery : Delivery) : Prop :=
  delivery.submissionId = .str key.submissionId → delivery.generation = key.generation →
    fingerprint connection.digest delivery.value = some mark →
      delivery.stage.IsRetry delivery.generation current

variable {stage : Stage} {decision : Decision F}

theorem Excludes.moves (hadmission : admission ∈ system.entries)
    (hexcludes : Excludes connection admission.key admission.fingerprint delivery)
    (hmoves : Moves connection system delivery delivery.stage stage) :
    Excludes connection admission.key admission.fingerprint { delivery with stage } := by
  intro hid hgeneration hdiffers
  have houtside := hexcludes hid hgeneration hdiffers
  cases hstage : delivery.stage with
  | accepted =>
      rw [hstage] at hmoves
      cases stage with
      | waiting entry => exact absurd (hmoves admission hadmission hid hgeneration) hdiffers
      | finished outcome => cases outcome <;> trivial
      | _ => exact hmoves.elim
  | arrived =>
      rw [hstage] at hmoves
      cases stage with
      | accepted => trivial
      | finished outcome => cases outcome <;> trivial
      | _ => exact hmoves.elim
  | finished outcome =>
      rw [hstage] at hmoves
      exact hmoves.elim
  | _ =>
      rw [hstage] at houtside
      exact houtside.elim

/-- How a delivery ends that replays what was decided. -/
theorem finished_moves {outcome : Outcome}
    (hmoves : Moves connection system delivery stage (.finished outcome))
    (hreplays : (∃ entry status, stage = .recovering entry status) ∨
      (∃ entry status, stage = .capturing entry status) ∨
        ∃ entry submission, stage = .replying entry submission ∧ submission.status ≠ .rejected) :
    (∃ submission, outcome = .answered submission ∧ submission.status ≠ .rejected) ∨
      ∃ point, outcome = .failed point ∧ point ≠ .publication := by
  rcases hreplays with ⟨entry, status, rfl⟩ | ⟨entry, status, rfl⟩ | ⟨entry, submission, rfl, hnot⟩
  · cases outcome with
    | failed point => cases point <;> first | exact hmoves.elim | exact .inr ⟨_, rfl, by simp⟩
    | _ => exact hmoves.elim
  · cases outcome with
    | failed point => cases point <;> first | exact hmoves.elim | exact .inr ⟨_, rfl, by simp⟩
    | _ => exact hmoves.elim
  · cases outcome with
    | answered same =>
        have hsame : same = submission := hmoves
        exact .inl ⟨same, rfl, hsame ▸ hnot⟩
    | failed point => cases point <;> first | exact hmoves.elim | exact .inr ⟨_, rfl, by simp⟩
    | _ => exact hmoves.elim

theorem accept_server [DecidableEq F] (index : ℕ) (delivery : Delivery) :
    (system.accept connection index delivery).server = system.server := by
  rw [System.accept]
  split
  · split
    · split
      · rfl
      · rw [System.lookUp]
        split
        · rfl
        · dsimp only
          split
          · rw [System.register]
            dsimp only
            split <;> rfl
          · split
            · rfl
            · split <;> rfl
    · rfl
  · rfl

theorem acquire_server (index entry : ℕ) (delivery : Delivery) (admission : Admission F) :
    (system.acquire index entry delivery admission).server = system.server := by
  rw [System.acquire]
  split
  · rfl
  split
  · rfl
  dsimp only
  split
  · split
    · rfl
    · split <;> rfl
  · split <;> rfl

theorem proceed_generation (index : ℕ) (delivery : Delivery) (turn : System.Turn) (entry : ℕ)
    (admission : Admission F) :
    (system.proceed connection index delivery turn entry admission).server.generation =
      system.server.generation := by
  rw [System.proceed]
  split
  · rw [acquire_server]
  · rw [System.submit]
    split
    · rfl
    · rename_i hsubmit
      exact Server.submit_generation hsubmit
  · split <;> rfl
  · split <;> rfl
  · split <;> rfl
  · split <;> rfl
  · split <;> rfl
  · rfl

/-- What one step of a delivery leaves of the session's generation. -/
theorem advance_generation [DecidableEq F] (index : ℕ) (turn : System.Turn) :
    (system.advance connection index turn).server.generation = system.server.generation := by
  rw [System.advance]
  split
  · rfl
  split
  · rw [System.arrive]
    split <;> rfl
  · rw [accept_server]
  · split
    · rfl
    · split
      · rfl
      · exact proceed_generation index _ turn _ _

theorem generation_le_step [DecidableEq F] (action : Action) :
    system.server.generation ≤ (system.step connection action).server.generation := by
  cases action with
  | server action => exact Server.generation_le_step action
  | deliver submissionId value generation => exact le_rfl
  | advance index turn => exact (advance_generation index turn).ge

theorem Retries.mono {current later : ℤ} (hretries : Retries connection key mark current delivery)
    (hgrows : current ≤ later) : Retries connection key mark later delivery := by
  intro hid hgeneration hsame
  have hretry := hretries hid hgeneration hsame
  cases hstage : delivery.stage with
  | finished outcome =>
      rw [hstage] at hretry
      rcases hretry with hanswered | ⟨hchanged, hlt⟩ | hfailed
      · exact .inl hanswered
      · exact .inr (.inl ⟨hchanged, hlt.trans_le hgrows⟩)
      · exact .inr (.inr hfailed)
  | _ =>
      rw [hstage] at hretry
      exact hretry

/-- The admission of a decision that let the input in. -/
theorem Invariant.admission_of_decision (hinvariant : Invariant connection system)
    (hdecision : decision ∈ system.admissions decision.key) :
    ∃ admission ∈ system.entries, admission.key = decision.key ∧
      admission.fingerprint = decision.fingerprint ∧
        system.admissions decision.key = [decision] := by
  obtain ⟨admission, hadmission, hkey⟩ :=
    hinvariant.known decision (mem_admissions.mp hdecision).1
  have hsettled := hinvariant.settled admission hadmission
  rw [hkey] at hsettled
  have hsome : system.admissions decision.key ≠ [] := ne_nil_of_mem hdecision
  cases hstatus : admission.status with
  | none => exact absurd (hsettled.undecided (.inl hstatus)) hsome
  | some status =>
      have haccepted : status ≠ .rejected := by
        rintro rfl
        exact hsome (hsettled.undecided (.inr hstatus))
      obtain ⟨other, hother, -, hmark⟩ := hsettled.decided status hstatus haccepted
      rw [hother] at hdecision
      cases mem_singleton.mp hdecision
      exact ⟨admission, hadmission, hkey, hmark.symm, hother⟩

theorem Retries.moves (hinvariant : Invariant connection system)
    (hdecision : decision ∈ system.admissions decision.key)
    (hretries : Retries connection decision.key decision.fingerprint system.server.generation
      delivery) (hmoves : Moves connection system delivery delivery.stage stage) :
    Retries connection decision.key decision.fingerprint system.server.generation
      { delivery with stage } := by
  intro hid hgeneration hsame
  obtain ⟨admission, hadmission, hkey, hmark, -⟩ := hinvariant.admission_of_decision hdecision
  have hname : delivery.submissionId = .str admission.submissionId := by
    rw [hid, ← hkey]
    rfl
  have hperiod : delivery.generation = admission.generation := by
    rw [hgeneration, ← hkey]
    rfl
  have hreached : delivery.generation ≤ system.server.generation :=
    hperiod.le.trans ((hinvariant.bounded admission hadmission).trans hinvariant.current)
  have hmatches : fingerprint connection.digest delivery.value = some admission.fingerprint := by
    rw [hsame, hmark]
  have hdecided : system.admissions
      ⟨admission.submissionId, delivery.generation⟩ ≠ [] := by
    rw [hperiod]
    change system.admissions admission.key ≠ []
    rw [hkey]
    exact ne_nil_of_mem hdecision
  have hwas := hretries hid hgeneration hsame
  cases hstage : delivery.stage with
  | arrived =>
      rw [hstage] at hmoves
      cases stage with
      | accepted => trivial
      | finished outcome =>
          cases outcome with
          | sessionChanged => exact .inr (.inl ⟨rfl, lt_of_le_of_ne hreached hmoves⟩)
          | _ => exact hmoves.elim
      | _ => exact hmoves.elim
  | accepted =>
      rw [hstage] at hmoves
      cases stage with
      | waiting entry => trivial
      | finished outcome =>
          cases outcome with
          | sessionChanged => exact .inr (.inl ⟨rfl, hmoves⟩)
          | refused failure =>
              exact absurd hmatches (hmoves admission hadmission hname hperiod)
          | _ => exact hmoves.elim
      | _ => exact hmoves.elim
  | waiting entry =>
      rw [hstage] at hmoves
      cases stage with
      | submitting other => exact absurd (hmoves _ hname) hdecided
      | finished outcome =>
          cases outcome with
          | sessionChanged => exact .inr (.inl ⟨rfl, lt_of_le_of_ne hreached hmoves⟩)
          | recorded failure => exact absurd (hmoves _ hname) hdecided
          | _ => exact hmoves.elim
      | recovering other status => exact fun hrejected => hdecided (hmoves hrejected _ hname)
      | replying other submission => exact hmoves
      | _ => exact hmoves.elim
  | recovering entry status =>
      rw [hstage] at hmoves hwas
      cases stage with
      | capturing other same =>
          have hstatus : same = status := hmoves
          exact hstatus ▸ hwas
      | finished outcome => exact (finished_moves hmoves (by simp)).imp_right .inr
      | _ => exact hmoves.elim
  | capturing entry status =>
      rw [hstage] at hmoves hwas
      cases stage with
      | replying other submission =>
          have hstatus : submission.status = status := hmoves
          exact fun hrejected => hwas (hstatus ▸ hrejected)
      | finished outcome => exact (finished_moves hmoves (by simp)).imp_right .inr
      | _ => exact hmoves.elim
  | replying entry submission =>
      rw [hstage] at hmoves hwas
      cases stage with
      | finished outcome =>
          exact (finished_moves hmoves (.inr (.inr ⟨entry, submission, rfl, hwas⟩))).imp_right .inr
      | _ => exact hmoves.elim
  | finished outcome =>
      rw [hstage] at hmoves
      exact hmoves.elim
  | _ =>
      rw [hstage] at hwas
      exact hwas.elim

/-! ## Whole runs -/

namespace Invariant

section

variable (hinvariant : Invariant connection system)
include hinvariant

theorem length_admissions_le (key : Key) :
    (system.admissions key).length ≤ 1 := by
  cases hadmitted : system.admissions key with
  | nil => simp
  | cons decision rest =>
      have hmem : decision ∈ system.admissions key := by simp [hadmitted]
      have hkey := (mem_admissions.mp hmem).2.1
      subst hkey
      obtain ⟨-, -, -, -, honly⟩ := hinvariant.admission_of_decision hmem
      rw [← hadmitted, honly]
      simp

/-- A delivery that comes after the admission with another value stays outside. -/
theorem run_excludes [DecidableEq F]
    (hadmission : ∃ admission ∈ system.entries, admission.key = key ∧
      admission.fingerprint = mark)
    (hlate : Late start (Excludes connection key mark) system.deliveries) (actions : List Action) :
    Late start (Excludes connection key mark) (system.run connection actions).deliveries := by
  induction actions generalizing system with
  | nil => exact hlate
  | cons action rest ih =>
      obtain ⟨admission, hmem, rfl, rfl⟩ := hadmission
      have hkeeps : Keeps system (system.step connection action) := Keeps.step action
      obtain ⟨later, hlater, hid, hgeneration, hmark⟩ := hkeeps.entries admission hmem
      refine ih (hinvariant.step action) ⟨later, hlater, ?_, hmark⟩ ?_
      · rw [Admission.key, Admission.key, hid, hgeneration]
      · exact late_step hinvariant hlate (fun _ hexcludes => hexcludes)
          (fun _ _ _ _ _ _ => trivial)
          (fun _ _ hexcludes hmoves => hexcludes.moves hmem hmoves) action

/-- A decision stays, and a later delivery of its value is not decided again. -/
theorem run_retries [DecidableEq F]
    (hdecision : decision ∈ system.admissions decision.key)
    (hlate : Late start (Retries connection decision.key decision.fingerprint
      system.server.generation) system.deliveries) (actions : List Action) :
    decision ∈ (system.run connection actions).admissions decision.key ∧
      Late start (Retries connection decision.key decision.fingerprint
        (system.run connection actions).server.generation)
          (system.run connection actions).deliveries := by
  induction actions generalizing system with
  | nil => exact ⟨hdecision, hlate⟩
  | cons action rest ih =>
      obtain ⟨hmem, hkept⟩ := mem_admissions.mp hdecision
      have hkeeps : Keeps system (system.step connection action) := Keeps.step action
      refine ih (hinvariant.step action)
        (mem_admissions.mpr ⟨hkeeps.decisions decision hmem, hkept⟩) ?_
      have hgrows : system.server.generation ≤ (system.step connection action).server.generation :=
        generation_le_step action
      refine late_step hinvariant hlate (fun _ hretries => hretries.mono hgrows)
        (fun _ _ _ _ _ _ => trivial) (fun _ _ hretries hmoves => ?_) action
      exact (hretries.moves hinvariant hdecision hmoves).mono hgrows

/-- A delivery that finds a rejection with a receipt takes it back and asks again. -/
theorem readmits [DecidableEq F] {receipt : Submission}
    (hdelivery : system.deliveries[index]? = some delivery)
    (hstage : delivery.stage = .waiting entry) (hentry : system.entries[entry]? = some admission)
    (howner : admission.owner = none) (hcurrent : delivery.generation = system.server.generation)
    (hreceipt : admission.receipt = some receipt) (hrejected : admission.status = some .rejected)
    (turn : System.Turn) :
    (system.advance connection index turn).deliveries[index]? =
      some { delivery with stage := .submitting entry } := by
  have hsettled := hinvariant.settled admission (mem_of_getElem? hentry)
  have herror : admission.error = none := by
    by_contra hrecorded
    rw [hsettled.recorded hrecorded] at hrejected
    cases hrejected
  simp [System.advance, System.proceed, System.acquire, System.setStage, System.modifyEntry,
    Stage.entry, hdelivery, hstage, hentry, howner, hcurrent, hreceipt, hrejected, herror]

end

end Invariant

/-- What holds of every state and of every state that comes later. -/
structure AdmitsOnce [DecidableEq F] (connection : Connection C F) (earlier later : System C F) :
    Prop where
  /-- The input of an id and a generation is let in at most once. -/
  once : ∀ key, (later.admissions key).length ≤ 1
  /-- An answer that is no rejection reports that decision, on the same value. -/
  answered : ∀ delivery ∈ later.deliveries, ∀ submission,
    delivery.stage = .finished (.answered submission) →
      Answers connection later delivery submission
  /-- A later delivery with the id of an admission and another value is turned away. -/
  excluded : ∀ admission ∈ earlier.entries, ∀ index delivery,
    earlier.deliveries.length ≤ index → later.deliveries[index]? = some delivery →
      delivery.submissionId = .str admission.submissionId →
        delivery.generation = admission.generation →
          fingerprint connection.digest delivery.value ≠ some admission.fingerprint →
            delivery.stage.IsOutside
  /-- A later delivery of an input that was let in is told of it, unless the session has moved
  on or the delivery itself cannot save, capture or encode the answer. -/
  acknowledged : ∀ decision ∈ earlier.decisions, decision.disposition ≠ .rejected →
    ∀ index delivery outcome, earlier.deliveries.length ≤ index →
      later.deliveries[index]? = some delivery → delivery.stage = .finished outcome →
        delivery.submissionId = .str decision.key.submissionId →
          delivery.generation = decision.key.generation →
            fingerprint connection.digest delivery.value = some decision.fingerprint →
              outcome = .answered ⟨decision.disposition.status, decision.key.submissionId⟩ ∨
                outcome = .sessionChanged ∧ delivery.generation < later.server.generation ∨
                  ∃ point, outcome = .failed point ∧ point ≠ .publication
  /-- A rejection whose publication left a receipt is submitted again by a delivery that finds
  it; one without a receipt is answered as it is. -/
  readmitted : ∀ index entry delivery admission receipt,
    later.deliveries[index]? = some delivery → delivery.stage = .waiting entry →
      later.entries[entry]? = some admission → admission.owner = none →
        delivery.generation = later.server.generation → admission.receipt = some receipt →
          admission.status = some .rejected → ∀ turn,
            (later.advance connection index turn).deliveries[index]? =
              some { delivery with stage := .submitting entry }

/-- The state of a connection to a session that has been reset some number of times. -/
def connected (agent : AgentState C) (resets : ℕ) : System C F :=
  { server := { agent := { agent with sessionGeneration := resets } } }

/-- Over every order of deliveries, failures, server steps and resets, a submission is let in
at most once, and deliveries that come later are told of it. -/
theorem run_admitsOnce [DecidableEq F] (connection : Connection C F) (agent : AgentState C)
    (resets : ℕ) (before after : List Action) :
    AdmitsOnce connection ((connected agent resets).run connection before)
      (((connected agent resets).run connection before).run connection after) := by
  have hfresh : Invariant connection (connected agent resets) := Invariant.connected agent resets
  have hearlier := hfresh.run before
  change Invariant connection ((connected agent resets).run connection before) at hearlier
  generalize (connected agent resets).run connection before = earlier at hearlier ⊢
  have hlater := hearlier.run after
  have hnobody : ∀ {property : Delivery → Prop},
      Late earlier.deliveries.length property earlier.deliveries := by
    intro property index delivery hindex hat
    have hlt := (List.getElem?_eq_some_iff.mp hat).1
    omega
  constructor
  case once => exact hlater.length_admissions_le
  case answered =>
    intro delivery hdelivery submission hstage
    obtain ⟨index, hat⟩ := getElem?_of_mem hdelivery
    exact (hlater.fits index delivery hat).answering submission hstage
  case excluded =>
    intro admission hadmission index delivery hindex hat hid hgeneration hdiffers
    exact hearlier.run_excludes ⟨admission, hadmission, rfl, rfl⟩ hnobody after index delivery
      hindex hat hid hgeneration hdiffers
  case acknowledged =>
    intro decision hdecision haccepted index delivery outcome hindex hat hstage hid hgeneration
      hsame
    have hmem : decision ∈ earlier.admissions decision.key :=
      mem_admissions.mpr ⟨hdecision, rfl, haccepted⟩
    obtain ⟨hkept, hretries⟩ := hearlier.run_retries hmem hnobody after
    have hretry := hretries index delivery hindex hat hid hgeneration hsame
    rw [hstage] at hretry
    rcases hretry with ⟨submission, rfl, hnot⟩ | hother
    · left
      obtain ⟨hname, hreports⟩ := (hlater.fits index delivery hat).answering submission hstage
      have hnamed : submission.submissionId = decision.key.submissionId := by
        rw [hid] at hname
        exact (Json.str.inj hname).symm
      rcases hreports with hrejected | ⟨reported, hreported, hstatus, -⟩
      · exact absurd hrejected hnot
      · rw [hnamed, hgeneration] at hreported
        obtain ⟨-, -, -, -, honly⟩ := hlater.admission_of_decision hkept
        rw [honly, mem_singleton] at hreported
        subst hreported
        rw [hstatus, ← hnamed]
    · exact .inr hother
  case readmitted =>
    intro index entry delivery admission receipt hdelivery hstage hentry howner hcurrent hreceipt
      hrejected turn
    exact hlater.readmits hdelivery hstage hentry howner hcurrent hreceipt hrejected turn

/-! ## A retry after the session has moved on -/

/-- A connection to a host without commands. -/
def chatConnection : Connection Unit Text where
  host :=
    { registry := ⟨[], nodup_nil⟩
      profile := ⟨lit "cli", []⟩
      decode := fun
        | .str line => some (.text line)
        | _ => none }
  digest text := text

/-- A chat is let in while its publication fails, and the session is reset. -/
def unpublished : List Action :=
  [.server .handshake, .deliver (.str (lit "s")) (.str (lit "hi")) 0, .advance 0 {},
    .advance 0 {}, .advance 0 {}, .advance 0 {}, .advance 0 { fails := true },
    .server (.agent .reset)]

/-- The chat is delivered again. -/
def redelivery : List Action :=
  [.deliver (.str (lit "s")) (.str (lit "hi")) 0, .advance 1 {}]

/-- A chat that was let in is not acknowledged to a retry that comes after a reset. -/
theorem unacknowledgedRetry :
    let system := (connected {} 0).run chatConnection unpublished
    system.decisions = [⟨⟨lit "s", 0⟩, canonicalText (.str (lit "hi")), .started⟩] ∧
      (system.run chatConnection redelivery).deliveries.map Delivery.stage =
        [.finished (.failed .publication), .finished .sessionChanged] := by
  decide +kernel

end ReuleauxCoder.Runtime.Submissions
