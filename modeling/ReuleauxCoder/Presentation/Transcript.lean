import ReuleauxCoder.Library.Retained
import ReuleauxCoder.Tools.Outcome

/-!
# The transcript

The cells that an interface shows, in order, with an index from their ids and the total of
their text.  Cells are dropped at the front when there are too many or their text is too long.
-/

namespace ReuleauxCoder.Presentation

open PyText PyJson Tools Retained List

/-! ## Cells -/

inductive ToolCellStatus where
  | running
  | succeeded
  | failed
  deriving DecidableEq

structure RuntimeDiagnostic where
  line : ℤ
  character : ℤ
  message : Text
  severity : Text := lit "error"
  code : Option Text := none
  deriving DecidableEq

/-- What the kinds of cells hold beside their id, revision and group. -/
inductive CellBody where
  | user (text : Text)
  | assistant (text : Text) (complete interrupted : Bool)
  | tool (toolCallId name : Text) (arguments : Option (List (Text × Json))) (output : Text)
      (status : ToolCellStatus) (outcome : Option ToolOutcome) (orphaned : Bool)
  | diff (path : Option Text) (diff : Text)
  | diagnostic (path batchId : Text) (documentVersion diagnosticGeneration : ℤ)
      (diagnostics : List RuntimeDiagnostic)
  | subagent (jobId mode task status : Text) (result error : Option Text)
  | notice (message level category : Text)
  | approval (requestId title status : Text) (preview : Option Text) (reason mode : Option Text)
      (grantLabel : Option Text) (releasedCount : ℤ) (resolutionSource : Option Text)

structure TranscriptCell where
  id : Text
  body : CellBody
  revision : ℕ := 0
  groupId : Option Text := none

/-- `next_revision`. -/
def nextRevision (cell : TranscriptCell) (body : CellBody) : TranscriptCell :=
  { cell with body, revision := cell.revision + 1 }

/-- `_cell_text_chars`. -/
def cellTextChars (cell : TranscriptCell) : ℕ :=
  match cell.body with
  | .user text => text.length
  | .assistant text _ _ => text.length
  | .tool _ _ _ _ _ outcome _ => (outcome.map fun shown => shown.detailedText.length).getD 0
  | .notice message _ _ => message.length
  | .subagent _ _ _ _ result error => (result.getD []).length + (error.getD []).length
  | .diff _ diff => diff.length
  | .diagnostic .. | .approval .. => 0

/-! ## The model -/

structure TranscriptModel where
  maxCells : ℕ := 500
  maxTextChars : ℕ := 1000000
  maxCells_pos : 1 ≤ maxCells := by decide
  maxTextChars_pos : 1 ≤ maxTextChars := by decide
  cells : List TranscriptCell := []
  indexes : Text → Option ℕ := fun _ => none
  textCharsTotal : ℤ := 0
  revision : ℕ := 0

namespace TranscriptModel

variable (transcript : TranscriptModel)

/-- `get`. -/
def get (cellId : Text) : Option TranscriptCell :=
  (transcript.indexes cellId).bind fun index => transcript.cells[index]?

/-- The loop of `_enforce_retention`: what it pops, what it leaves, and the total then;
`none` where there is nothing to pop. -/
def evict (maxCells maxTextChars : ℕ) :
    List TranscriptCell → ℤ → Option (List TranscriptCell × List TranscriptCell × ℤ)
  | [], total => if total > maxTextChars then none else some ([], [], total)
  | cell :: rest, total =>
      if (cell :: rest).length > maxCells ∨ total > maxTextChars then
        (evict maxCells maxTextChars rest (total - cellTextChars cell)).map
          fun (evicted, left, later) => (cell :: evicted, left, later)
      else some ([], cell :: rest, total)

/-- `{cell.id: index for index, cell in enumerate(cells)}`. -/
def indexFrom (cells : List TranscriptCell) : ℕ → Text → Option ℕ
  | start, cellId =>
      match cells with
      | [] => none
      | cell :: rest =>
          (indexFrom rest (start + 1) cellId).or (if cell.id = cellId then some start else none)

/-- `_enforce_retention`. -/
def enforceRetention : Option (TranscriptModel × List TranscriptCell) :=
  (evict transcript.maxCells transcript.maxTextChars transcript.cells
      transcript.textCharsTotal).map fun (evicted, left, total) =>
    ({ transcript with
        cells := left
        textCharsTotal := total
        indexes := if evicted = [] then transcript.indexes else indexFrom left 0 }, evicted)

/-- `append`; `none` where it raises. -/
def append (cell : TranscriptCell) : Option (TranscriptModel × List TranscriptCell) :=
  if (transcript.indexes cell.id).isSome then none
  else
    enforceRetention
      { transcript with
        indexes := Function.update transcript.indexes cell.id (some transcript.cells.length)
        cells := transcript.cells ++ [cell]
        textCharsTotal := transcript.textCharsTotal + cellTextChars cell
        revision := transcript.revision + 1 }

/-- `replace`; `none` where it raises. -/
def replace (cell : TranscriptCell) : Option (TranscriptModel × TranscriptCell) := do
  let index ← transcript.indexes cell.id
  let previous ← transcript.cells[index]?
  let (kept, _) ← enforceRetention
    { transcript with
      cells := transcript.cells.set index cell
      textCharsTotal :=
        transcript.textCharsTotal + (cellTextChars cell - cellTextChars previous)
      revision := transcript.revision + 1 }
  some (kept, previous)

end TranscriptModel

/-! ## What the model keeps -/

def cellIds (cells : List TranscriptCell) : List Text :=
  cells.map TranscriptCell.id

variable {cell previous : TranscriptCell}

/-- A cell that takes the place of one with its id leaves the ids. -/
theorem cellIds_set {cells : List TranscriptCell} {index : ℕ}
    (hprevious : cells[index]? = some previous) (hid : previous.id = cell.id) :
    cellIds (cells.set index cell) = cellIds cells := by
  rw [cellIds, map_set, ← hid]
  obtain ⟨hlt, rfl⟩ := List.getElem?_eq_some_iff.mp hprevious
  apply ext_getElem?
  intro place
  rw [getElem?_set]
  split
  · rename_i hsame
    rw [← hsame, if_pos (by rwa [length_map]), cellIds, getElem?_map,
      getElem?_eq_getElem hlt]
    rfl
  · rfl

namespace TranscriptModel

/-- A cell in the place of another one leaves the text within its limit. -/
def Fits (transcript : TranscriptModel) (previous cell : TranscriptCell) : Prop :=
  transcript.textCharsTotal + cellTextChars cell ≤
    transcript.maxTextChars + cellTextChars previous

/-- The index and the total are those of the cells, no two cells have one id, and the cells are
within the limits. -/
structure Sound (transcript : TranscriptModel) : Prop where
  ids : (cellIds transcript.cells).Nodup
  indexes : ∀ cellId index, transcript.indexes cellId = some index ↔
    (cellIds transcript.cells)[index]? = some cellId
  total : transcript.textCharsTotal = total cellTextChars transcript.cells
  within : Within cellTextChars transcript.maxCells transcript.maxTextChars transcript.cells

/-- `indexFrom` numbers the cells from its start on. -/
theorem indexFrom_eq_some {cells : List TranscriptCell} (hids : (cellIds cells).Nodup)
    (start : ℕ) (cellId : Text) (index : ℕ) :
    indexFrom cells start cellId = some index ↔
      ∃ place, (cellIds cells)[place]? = some cellId ∧ index = start + place := by
  induction cells generalizing start index with
  | nil => simp [indexFrom, cellIds]
  | cons first rest ih =>
      obtain ⟨hfirst, hrest⟩ := nodup_cons.mp hids
      rw [indexFrom, Option.or_eq_some_iff, ih hrest]
      constructor
      · intro hfound
        cases hfound with
        | inl hlater =>
            obtain ⟨place, hplace, rfl⟩ := hlater
            exact ⟨place + 1, hplace, by omega⟩
        | inr hhere =>
            obtain ⟨-, hsame⟩ := hhere
            split at hsame
            · rename_i hid
              cases hsame
              refine ⟨0, ?_, rfl⟩
              rw [← hid]
              rfl
            · cases hsame
      · rintro ⟨place, hplace, rfl⟩
        cases place with
        | zero =>
            have hid : first.id = cellId := Option.some.inj hplace
            refine .inr ⟨?_, if_pos hid⟩
            rw [Option.eq_none_iff_forall_ne_some]
            intro other hother
            obtain ⟨later, hlater, -⟩ := (ih hrest _ _).mp hother
            apply hfirst
            rw [← hid] at hlater
            exact mem_of_getElem? hlater
        | succ place => exact .inl ⟨place, hplace, by omega⟩

/-- With the total of the cells, the loop drops what the limits say. -/
theorem evict_eq (maxCells maxTextChars : ℕ) (cells : List TranscriptCell) :
    evict maxCells maxTextChars cells (total cellTextChars cells) =
      some ((trim cellTextChars maxCells maxTextChars cells).1,
        (trim cellTextChars maxCells maxTextChars cells).2,
        (total cellTextChars (trim cellTextChars maxCells maxTextChars cells).2 : ℤ)) := by
  induction cells with
  | nil =>
      rw [evict, if_neg]
      · rfl
      · simp [total]
  | cons cell rest ih =>
      rw [evict, trim]
      have hover : ((cell :: rest).length > maxCells ∨
          (total cellTextChars (cell :: rest) : ℤ) > maxTextChars) ↔
          (maxCells < (cell :: rest).length ∨
            maxTextChars < total cellTextChars (cell :: rest)) := by
        rw [gt_iff_lt, gt_iff_lt, Nat.cast_lt]
      have hrest : (total cellTextChars (cell :: rest) : ℤ) - cellTextChars cell =
          total cellTextChars rest := by
        rw [total_cons, Nat.cast_add, add_sub_cancel_left]
      rw [if_congr hover rfl rfl, hrest, ih]
      split <;> rfl

/-- What the limits leave of a model's cells is a sound model. -/
theorem enforceRetention_sound {transcript : TranscriptModel}
    (hids : (cellIds transcript.cells).Nodup)
    (hindexes : ∀ cellId index, transcript.indexes cellId = some index ↔
      (cellIds transcript.cells)[index]? = some cellId)
    (htotal : transcript.textCharsTotal = total cellTextChars transcript.cells) :
    ∃ kept, transcript.enforceRetention =
        some (kept, (trim cellTextChars transcript.maxCells transcript.maxTextChars
          transcript.cells).1) ∧
      kept.cells = (trim cellTextChars transcript.maxCells transcript.maxTextChars
        transcript.cells).2 ∧
      kept.maxCells = transcript.maxCells ∧ kept.maxTextChars = transcript.maxTextChars ∧
      kept.Sound := by
  have hsplit := trim_append cellTextChars transcript.maxCells transcript.maxTextChars
    transcript.cells
  have hwithin := trim_within cellTextChars transcript.maxCells transcript.maxTextChars
    transcript.cells
  rw [enforceRetention, htotal, evict_eq]
  generalize trim cellTextChars transcript.maxCells transcript.maxTextChars transcript.cells =
    trimmed at hsplit hwithin ⊢
  obtain ⟨dropped, kept⟩ := trimmed
  have hkept : (cellIds kept).Nodup := by
    rw [← hsplit, cellIds, map_append] at hids
    exact hids.of_append_right
  refine ⟨_, rfl, rfl, rfl, rfl, hkept, ?_, rfl, hwithin⟩
  intro cellId index
  dsimp only at hsplit ⊢
  split
  next hnone =>
    rw [hnone, nil_append] at hsplit
    rw [hsplit]
    exact hindexes cellId index
  next =>
    rw [indexFrom_eq_some hkept]
    constructor
    · rintro ⟨place, hplace, rfl⟩
      rwa [Nat.zero_add]
    · intro hplace
      exact ⟨index, hplace, (Nat.zero_add index).symm⟩

/-- A new model has no cells. -/
theorem sound_empty {transcript : TranscriptModel} (hcells : transcript.cells = [])
    (hindexes : transcript.indexes = fun _ => none) (htotal : transcript.textCharsTotal = 0) :
    transcript.Sound where
  ids := by
    rw [hcells]
    exact nodup_nil
  indexes := by
    intro cellId index
    rw [hcells, hindexes]
    simp [cellIds]
  total := by
    rw [hcells, htotal]
    rfl
  within := by
    rw [hcells]
    exact ⟨Nat.zero_le _, Nat.zero_le _⟩

/-! ## The operations -/

namespace Sound

variable {transcript : TranscriptModel} (hsound : transcript.Sound)

include hsound

theorem indexes_isSome (cellId : Text) :
    (transcript.indexes cellId).isSome = true ↔ cellId ∈ cellIds transcript.cells := by
  rw [Option.isSome_iff_exists, mem_iff_getElem?]
  exact exists_congr fun index => hsound.indexes cellId index

variable {cellId : Text} {replaced : TranscriptCell}

theorem get_eq_some :
    transcript.get cellId = some cell ↔ cell ∈ transcript.cells ∧ cell.id = cellId := by
  rw [get, Option.bind_eq_some_iff]
  simp only [hsound.indexes, cellIds, getElem?_map, Option.map_eq_some_iff]
  constructor
  · rintro ⟨index, ⟨other, hother, hid⟩, hcell⟩
    rw [hcell] at hother
    cases hother
    exact ⟨mem_of_getElem? hcell, hid⟩
  · rintro ⟨hmem, hid⟩
    obtain ⟨index, hcell⟩ := getElem?_of_mem hmem
    exact ⟨index, ⟨cell, hcell, hid⟩, hcell⟩

theorem append_eq_none (htaken : cell.id ∈ cellIds transcript.cells) :
    transcript.append cell = none := by
  rw [append, if_pos ((hsound.indexes_isSome cell.id).mpr htaken)]

/-- A cell with a new id is added at the end, and cells are dropped at the front. -/
theorem append_eq_some (hfresh : cell.id ∉ cellIds transcript.cells) :
    ∃ kept, transcript.append cell =
        some (kept, (trim cellTextChars transcript.maxCells transcript.maxTextChars
          (transcript.cells ++ [cell])).1) ∧
      kept.cells = (trim cellTextChars transcript.maxCells transcript.maxTextChars
        (transcript.cells ++ [cell])).2 ∧
      kept.maxCells = transcript.maxCells ∧ kept.maxTextChars = transcript.maxTextChars ∧
      kept.Sound := by
  have hids : cellIds (transcript.cells ++ [cell]) = cellIds transcript.cells ++ [cell.id] :=
    map_append
  have hlength : (cellIds transcript.cells).length = transcript.cells.length :=
    length_map _
  rw [append, if_neg fun htaken => hfresh ((hsound.indexes_isSome cell.id).mp htaken)]
  apply enforceRetention_sound
  · dsimp only
    rw [hids, nodup_append_comm]
    exact nodup_cons.mpr ⟨hfresh, hsound.ids⟩
  · intro cellId index
    dsimp only
    rw [hids, Function.update_apply]
    rw [getElem?_concat_eq_some, hlength]
    split
    next hsame =>
      rw [hsame, Option.some.injEq]
      have hnew (place : ℕ) : (cellIds transcript.cells)[place]? ≠ some cell.id :=
        fun hplace => hfresh (mem_of_getElem? hplace)
      constructor
      · intro hlast
        exact .inr ⟨hlast.symm, rfl⟩
      · intro hplace
        exact (hplace.resolve_left (hnew index)).1.symm
    next hne =>
      rw [hsound.indexes]
      constructor
      · exact .inl
      · intro hplace
        cases hplace with
        | inl hearlier => exact hearlier
        | inr hlast => exact absurd hlast.2.symm hne
  · dsimp only
    rw [hsound.total, total_append, Nat.cast_add]
    rfl

/-- A cell takes the place of the one with its id, and cells are dropped at the front. -/
theorem replace_eq_some (hprevious : transcript.get cell.id = some previous) :
    ∃ index kept, transcript.cells[index]? = some previous ∧ previous.id = cell.id ∧
      transcript.replace cell = some (kept, previous) ∧
      kept.cells = (trim cellTextChars transcript.maxCells transcript.maxTextChars
        (transcript.cells.set index cell)).2 ∧
      kept.maxCells = transcript.maxCells ∧ kept.maxTextChars = transcript.maxTextChars ∧
      kept.Sound := by
  obtain ⟨index, hindex, hcell⟩ := Option.bind_eq_some_iff.mp hprevious
  have hplace := (hsound.indexes _ _).mp hindex
  have hid : previous.id = cell.id := by
    rw [cellIds, getElem?_map, hcell] at hplace
    exact Option.some.inj hplace
  have hids : cellIds (transcript.cells.set index cell) = cellIds transcript.cells :=
    cellIds_set hcell hid
  let changed : TranscriptModel :=
    { transcript with
      cells := transcript.cells.set index cell
      textCharsTotal :=
        transcript.textCharsTotal + (cellTextChars cell - cellTextChars previous)
      revision := transcript.revision + 1 }
  have hnodup : (cellIds changed.cells).Nodup := by
    change (cellIds (transcript.cells.set index cell)).Nodup
    rw [hids]
    exact hsound.ids
  have hindexes : ∀ cellId place, changed.indexes cellId = some place ↔
      (cellIds changed.cells)[place]? = some cellId := by
    intro cellId place
    change transcript.indexes cellId = some place ↔
      (cellIds (transcript.cells.set index cell))[place]? = some cellId
    rw [hids]
    exact hsound.indexes cellId place
  have htotal : changed.textCharsTotal = Retained.total cellTextChars changed.cells := by
    have hset : Retained.total cellTextChars (transcript.cells.set index cell) +
        cellTextChars previous =
          Retained.total cellTextChars transcript.cells + cellTextChars cell :=
      total_set hcell cell
    change transcript.textCharsTotal + (cellTextChars cell - cellTextChars previous) =
      Retained.total cellTextChars (transcript.cells.set index cell)
    rw [hsound.total]
    omega
  obtain ⟨kept, hkept, hcells, hmost, hlong, hsame⟩ :=
    enforceRetention_sound hnodup hindexes htotal
  refine ⟨index, kept, hcell, hid, ?_, hcells, hmost, hlong, hsame⟩
  calc
    transcript.replace cell = changed.enforceRetention.bind fun kept =>
        some (kept.1, previous) := by
      rw [replace, hindex, Option.bind_eq_bind, Option.bind_some, hcell]
      rfl
    _ = some (kept, previous) := by
      rw [hkept]
      rfl

variable {kept : TranscriptModel}

/-- What `append` returns. -/
theorem append_spec {evicted : List TranscriptCell}
    (happend : transcript.append cell = some (kept, evicted)) :
    cell.id ∉ cellIds transcript.cells ∧
      trim cellTextChars transcript.maxCells transcript.maxTextChars
        (transcript.cells ++ [cell]) = (evicted, kept.cells) ∧
      kept.maxCells = transcript.maxCells ∧ kept.maxTextChars = transcript.maxTextChars ∧
      kept.Sound := by
  have hfresh : cell.id ∉ cellIds transcript.cells := by
    intro htaken
    rw [hsound.append_eq_none htaken] at happend
    cases happend
  obtain ⟨other, hother, hcells, hmost, hlong, hsame⟩ := hsound.append_eq_some hfresh
  cases happend.symm.trans hother
  exact ⟨hfresh, Prod.ext rfl hcells.symm, hmost, hlong, hsame⟩

/-- What `replace` returns for a cell that is there. -/
theorem replace_spec (hget : transcript.get cellId = some previous)
    (hreplace : transcript.replace cell = some (kept, replaced)) (hcellId : cell.id = cellId) :
    ∃ index, transcript.cells[index]? = some previous ∧ previous.id = cell.id ∧
      replaced = previous ∧
      kept.cells = (trim cellTextChars transcript.maxCells transcript.maxTextChars
        (transcript.cells.set index cell)).2 ∧
      kept.maxCells = transcript.maxCells ∧ kept.maxTextChars = transcript.maxTextChars ∧
      kept.Sound := by
  rw [← hcellId] at hget
  obtain ⟨index, other, hplace, hid, hother, hcells, hmost, hlong, hsame⟩ :=
    hsound.replace_eq_some hget
  cases hreplace.symm.trans hother
  exact ⟨index, hplace, hid, rfl, hcells, hmost, hlong, hsame⟩

/-- A cell with room in the place of another one drops nothing. -/
theorem replace_fits (hget : transcript.get cellId = some previous)
    (hreplace : transcript.replace cell = some (kept, replaced)) (hcellId : cell.id = cellId)
    (hfits : transcript.Fits previous cell) :
    ∃ index, transcript.cells[index]? = some previous ∧ previous.id = cell.id ∧
      kept.cells = transcript.cells.set index cell ∧
      cellIds kept.cells = cellIds transcript.cells ∧
      transcript.textCharsTotal + cellTextChars cell =
        kept.textCharsTotal + cellTextChars previous := by
  obtain ⟨index, hplace, hid, -, hcells, -, -, hkept⟩ :=
    hsound.replace_spec hget hreplace hcellId
  have hset : Retained.total cellTextChars (transcript.cells.set index cell) +
      cellTextChars previous =
        Retained.total cellTextChars transcript.cells + cellTextChars cell :=
    total_set hplace cell
  have hwithin : Within cellTextChars transcript.maxCells transcript.maxTextChars
      (transcript.cells.set index cell) := by
    constructor
    · rw [length_set]
      exact hsound.within.1
    · rw [Fits, hsound.total] at hfits
      omega
  rw [trim_of_within hwithin] at hcells
  refine ⟨index, hplace, hid, hcells, ?_, ?_⟩
  · rw [hcells]
    exact cellIds_set hplace hid
  · rw [hkept.total, hsound.total, hcells]
    exact_mod_cast hset.symm

theorem mem_of_append {evicted : List TranscriptCell} {other : TranscriptCell}
    (happend : transcript.append cell = some (kept, evicted)) (hother : other ∈ kept.cells) :
    other ∈ transcript.cells ∨ other = cell := by
  obtain ⟨-, htrim, -⟩ := hsound.append_spec happend
  have hrows := trim_append cellTextChars transcript.maxCells transcript.maxTextChars
    (transcript.cells ++ [cell])
  rw [htrim] at hrows
  have hmem : other ∈ transcript.cells ++ [cell] := by
    rw [← hrows]
    exact mem_append_right _ hother
  rwa [mem_append, mem_singleton] at hmem

theorem mem_of_replace {other : TranscriptCell} (hget : transcript.get cellId = some previous)
    (hreplace : transcript.replace cell = some (kept, replaced)) (hcellId : cell.id = cellId)
    (hother : other ∈ kept.cells) : other ∈ transcript.cells ∨ other = cell := by
  obtain ⟨index, -, -, -, hcells, -⟩ := hsound.replace_spec hget hreplace hcellId
  apply mem_or_eq_of_mem_set
  rw [hcells] at hother
  exact (trim_suffix _).subset hother

end Sound

end TranscriptModel

end ReuleauxCoder.Presentation
