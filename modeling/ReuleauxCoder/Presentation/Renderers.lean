import ReuleauxCoder.Presentation.EventStreams

/-!
# Renderers

A renderer keeps cells of its own and is told of the changes that the reducer returns.  It has
the cells of the transcript as long as the reducer changes none of them silently.
-/

namespace ReuleauxCoder.Presentation

open PyText PyJson Tools Retained

/-! ## What a renderer does -/

/-- What a renderer is told; the reducer never resets. -/
def PresentationChange.told : PresentationChange → Option (Change TranscriptCell)
  | .append cell => some (.append cell)
  | .update cell _ => some (.update cell)
  | .evict cell => some (.drop cell)
  | .reset => none

/-- The cells of a renderer behind the changes. -/
def render (cells : List TranscriptCell) (changes : List PresentationChange) :
    List TranscriptCell :=
  replay TranscriptCell.id cells (changes.filterMap PresentationChange.told)

theorem render_append (cells : List TranscriptCell) (first second : List PresentationChange) :
    render cells (first ++ second) = render (render cells first) second := by
  rw [render, List.filterMap_append, replay_append]
  rfl

theorem filterMap_evict (evicted : List TranscriptCell) :
    (evicted.map PresentationChange.evict).filterMap PresentationChange.told =
      evicted.map Change.drop := by
  induction evicted with
  | nil => rfl
  | cons cell rest ih => exact congrArg (Change.drop cell :: ·) ih

/-- Where everything is told, a renderer has the cells that the steps lead to. -/
theorem Steps.render_eq {event : RuntimeEvent} {before first second : TranscriptModel}
    {told : Prop} {changes : List PresentationChange}
    (hsteps : Steps event before told first changes second) (htold : told)
    (hsound : first.Sound) : render first.cells changes = second.cells := by
  induction hsteps with
  | done => rfl
  | @append transcript kept last cell evicted changes _ happend _ ih =>
      obtain ⟨hfresh, htrim, -, -, hkept⟩ := hsound.append_spec happend
      have hkeys : ((transcript.cells ++ [cell]).map TranscriptCell.id).Nodup := by
        rw [List.map_append, List.nodup_append_comm]
        exact List.nodup_cons.mpr ⟨hfresh, hsound.ids⟩
      have hreplay : replay TranscriptCell.id transcript.cells
          (.append cell :: (trim cellTextChars transcript.maxCells transcript.maxTextChars
            (transcript.cells ++ [cell])).1.map .drop) =
            (trim cellTextChars transcript.maxCells transcript.maxTextChars
              (transcript.cells ++ [cell])).2 :=
        replay_trim hkeys
      rw [htrim] at hreplay
      have hshown : render transcript.cells (.append cell :: evicted.map .evict) = kept.cells := by
        rw [render]
        change replay _ _ (Change.append cell ::
          (evicted.map PresentationChange.evict).filterMap PresentationChange.told) = _
        rw [filterMap_evict]
        exact hreplay
      rw [render_append, hshown]
      exact ih hkept
  | @update transcript kept last previous cell changes hget _ hfits hreplace _ ih =>
      obtain ⟨index, hplace, hid, hcells, -⟩ :=
        hsound.replace_fits hget hreplace rfl (hfits htold)
      obtain ⟨-, -, -, -, -, -, -, hkept⟩ := hsound.replace_spec hget hreplace rfl
      have hshown : Change.apply TranscriptCell.id transcript.cells (.update cell) =
          kept.cells := by
        rw [hcells]
        exact apply_update hsound.ids hplace hid.symm
      change render (Change.apply TranscriptCell.id transcript.cells (.update cell)) changes = _
      rw [hshown]
      exact ih hkept
  | complete hsilent => exact absurd htold hsilent

/-! ## Streams -/

/-- A view, and the cells of a renderer that was told of its changes. -/
structure Screen where
  state : RuntimeViewState
  cells : List TranscriptCell

namespace Screen

/-- An event, and what the renderer makes of its changes. -/
def next (maxChars : ℤ) (found : Option Screen) (event : RuntimeEvent) : Option Screen := do
  let screen ← found
  let (later, changes) ← screen.state.apply event maxChars
  some ⟨later, render screen.cells changes⟩

/-- A stream's event changes no cell silently, or it is passed over. -/
def TellsNext (screen : Screen) (event : RuntimeEvent) : Prop :=
  (screen.state.admitted event).isSome = true → screen.state.Tells event

/-- A renderer that has the cells of a consistent view. -/
structure InStep (screen : Screen) : Prop where
  consistent : screen.state.Consistent
  cells : screen.cells = screen.state.transcript.cells

/-- An event that is told leaves the renderer with the cells of the view. -/
theorem InStep.apply {maxChars : ℤ} {screen : Screen} {event : RuntimeEvent}
    {later : RuntimeViewState} {changes : List PresentationChange} (hstep : screen.InStep)
    (htells : screen.TellsNext event)
    (happly : screen.state.apply event maxChars = some (later, changes)) :
    InStep ⟨later, render screen.cells changes⟩ where
  consistent := (hstep.consistent.apply happly).1
  cells := by
    rw [hstep.cells]
    cases hadmitted : screen.state.admitted event with
    | none =>
        obtain ⟨seen, generations, -, hpassed⟩ :=
          RuntimeViewState.apply_passedOver maxChars hadmitted
        rw [hpassed] at happly
        cases happly
        rfl
    | some current =>
        have htold := htells (Option.isSome_of_eq_some hadmitted)
        have hsteps := RuntimeViewState.apply_steps hstep.consistent.sound hadmitted
          (fun _ : screen.state.Tells event => htold) happly
        exact hsteps.render_eq htold hstep.consistent.sound

/-- In a stream that changes no cell silently the renderer has, behind every event, the cells of
the transcript. -/
theorem streams_rendered (maxChars : ℤ) (start : RuntimeViewState) (hstart : start.IsNew)
    (events : List RuntimeEvent)
    (hmeets : Transition.Meets (next maxChars)
      (fun found event => ∀ screen, found = some screen → screen.TellsNext event)
      (some ⟨start, []⟩) events) :
    ∀ before, before <+: events → ∀ screen,
      before.foldl (next maxChars) (some ⟨start, []⟩) = some screen →
        screen.cells = screen.state.transcript.cells := by
  intro before hbefore screen hscreen
  have hinvariant : ∀ screen,
      before.foldl (next maxChars) (some ⟨start, []⟩) = some screen → screen.InStep := by
    apply Transition.invariant_foldl (fun found => ∀ screen, found = some screen → screen.InStep)
      ?_ ?_ (hmeets.of_isPrefix hbefore)
    · intro found event hfound htells screen hnext
      obtain ⟨earlier, hearlier, hrest⟩ := Option.bind_eq_some_iff.mp hnext
      obtain ⟨⟨later, changes⟩, happly, hsame⟩ := Option.bind_eq_some_iff.mp hrest
      cases hsame
      exact (hfound earlier hearlier).apply (htells earlier hearlier) happly
    · intro first hfirst
      cases hfirst
      exact ⟨hstart.consistent, hstart.cells.symm⟩
  exact (hinvariant screen hscreen).cells

/-- An answer that is streamed and then complete. -/
theorem streams_rendered_answer :
    let answer : List RuntimeEvent :=
      [⟨.assistantContentDelta (lit "a"), lit "1", none, none, none, none⟩,
        ⟨.turnFinished (lit "ab"), lit "2", none, none, none, none⟩]
    ∃ screen, answer.foldl (next 1200) (some ⟨{}, []⟩) = some screen ∧
      screen.cells = screen.state.transcript.cells := by
  intro answer
  have hmeets : Transition.Meets (next 1200)
      (fun found event => ∀ screen, found = some screen → screen.TellsNext event)
      (some ⟨{}, []⟩) answer := by
    refine ⟨?_, ?_, trivial⟩
    · intro screen hscreen _ opened hopened
      cases hscreen
      cases hopened
    · intro screen hscreen _ opened hopened
      cases hscreen
      cases hopened
      decide
  exact ⟨_, rfl, streams_rendered 1200 {} ⟨rfl, rfl, rfl⟩ answer hmeets answer
    (List.prefix_refl _) _ rfl⟩

def isComplete (cell : TranscriptCell) : Bool :=
  match cell.body with
  | .assistant _ complete _ => complete
  | _ => false

/-- A tool call that starts behind streamed text completes the text's cell silently. -/
theorem streams_rendered_toolStart :
    ¬∀ (events : List RuntimeEvent) (screen : Screen),
      events.foldl (next 1200) (some ⟨{}, []⟩) = some screen →
        screen.cells = screen.state.transcript.cells := by
  intro hall
  have hcells := hall
    [⟨.assistantContentDelta (lit "a"), lit "1", none, none, none, none⟩,
      ⟨.toolCallStarted (lit "a") (lit "shell") [], lit "2", none, none, none, none⟩] _ rfl
  have hcomplete := congrArg (List.map isComplete) hcells
  revert hcomplete
  decide

end Screen

end ReuleauxCoder.Presentation
