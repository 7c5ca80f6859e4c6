import ReuleauxCoder.Library.JsonSizes
import ReuleauxCoder.Tools.RetainedLines
import ReuleauxCoder.Tools.Truncation

/-!
# When a truncated outcome is accepted

The hook keeps every field that the check compares, so whether its outcome is taken over
depends on what it adds: the counts, the name of the archived output, and the room that
is left for the bounded texts.
-/

namespace ReuleauxCoder.Tools

open PyText PyJson
open List hiding lookup

/-! ## What the projection changes -/

def truncationIsValid (truncation : ToolTruncation) : Bool :=
  optionalInt (some truncation.originalChars) && optionalInt (some truncation.originalLines) &&
    optionalInt (some truncation.retainedChars) && optionalInt (some truncation.retainedLines) &&
    truncation.retainedChars ≤ truncation.originalChars &&
    truncation.retainedLines ≤ truncation.originalLines &&
    decide (truncation.strategy ∈ [lit "head", lit "tail", lit "head_tail"])

def archiveIsValid (archive : ToolArchiveReference) : Bool :=
  decide (archive.path ≠ []) && optionalInt archive.sizeBytes

/-- The bounded texts fit, each of them and all together. -/
def FactsFit (texts : List Text) : Prop :=
  texts.all isFactText = true ∧ (texts.map utf8Size).sum ≤ structuredFactMaxTotalStringBytes

/-- What is checked of the fields that a projection keeps. -/
def keptFactsAreValid (outcome : ToolOutcome) : Bool :=
  (decide (outcome.status = .succeeded) == decide (outcome.errorKind = none)) &&
    (outcome.status ≠ .denied || outcome.errorKind = some .denied) &&
    (outcome.status ≠ .cancelled || outcome.errorKind = some .interrupted) &&
    (outcome.exitCode.all hasIntBits) &&
    (outcome.durationSeconds.all fun seconds => 0 ≤ seconds) &&
    outcome.diagnostics.length ≤ toolDiagnosticLimit &&
    (outcome.diff.all fun diff =>
      optionalInt diff.additions && optionalInt diff.deletions &&
        optionalInt diff.originalChars) &&
    outcome.diagnostics.all diagnosticIsValid

def anchorIsValid (hint : ToolRetentionHint) : Bool :=
  hint.anchorLine.all fun anchor => 0 < anchor && hasIntBits anchor

section Check

variable {outcome : ToolOutcome}

theorem checkToolOutcomeProtocol_iff :
    checkToolOutcomeProtocol outcome = true ↔
      keptFactsAreValid outcome = true ∧
      outcome.truncation.all (fun truncation =>
        truncationIsValid truncation && outcome.modelContent.isSome) = true ∧
      outcome.archiveReference.all archiveIsValid = true ∧
      anchorIsValid outcome.retentionHint = true ∧
      (unboundedTexts outcome).all utf8Encodable = true ∧
      FactsFit (boundedTexts outcome) ∧
      isSnapshot (.obj outcome.metadata) = true := by
  have hsplit : checkToolOutcomeProtocol outcome =
      (keptFactsAreValid outcome &&
        outcome.truncation.all (fun truncation =>
          truncationIsValid truncation && outcome.modelContent.isSome) &&
        outcome.archiveReference.all archiveIsValid && anchorIsValid outcome.retentionHint &&
        (unboundedTexts outcome).all utf8Encodable &&
        (boundedTexts outcome).all isFactText &&
        decide (((boundedTexts outcome).map utf8Size).sum ≤ structuredFactMaxTotalStringBytes) &&
        isSnapshot (.obj outcome.metadata)) := rfl
  rw [hsplit, FactsFit]
  simp only [Bool.and_eq_true, decide_eq_true_iff, and_assoc]

/-- What a projection leaves as it is needs no new check. -/
theorem checkToolOutcomeProtocol_projected (hcheck : checkToolOutcomeProtocol outcome = true)
    (text : Text) (truncation : ToolTruncation) (archive : Option ToolArchiveReference) :
    checkToolOutcomeProtocol (outcome.withModelProjection text (some truncation) archive) =
        true ↔
      truncationIsValid truncation = true ∧ archive.all archiveIsValid = true ∧
        utf8Encodable text = true ∧
        FactsFit (boundedTexts (outcome.withModelProjection text (some truncation) archive)) := by
  obtain ⟨hfacts, -, harchive, hanchor, hunbounded, -, hmetadata⟩ :=
    checkToolOutcomeProtocol_iff.mp hcheck
  have hprojected : (unboundedTexts (outcome.withModelProjection text (some truncation)
      archive)).all utf8Encodable = true ↔ utf8Encodable text = true := by
    simp only [unboundedTexts, ToolOutcome.withModelProjection, all_append,
      Bool.and_eq_true, Option.toList_some, all_cons, all_nil] at hunbounded ⊢
    tauto
  have hreference : (archive.or outcome.archiveReference).all archiveIsValid = true ↔
      archive.all archiveIsValid = true := by
    cases archive with
    | none => exact iff_of_true harchive rfl
    | some reference => rfl
  rw [checkToolOutcomeProtocol_iff, hprojected]
  constructor
  · rintro ⟨-, htruncation, hnew, -, htext, hfits, -⟩
    refine ⟨?_, hreference.mp hnew, htext, hfits⟩
    exact (Bool.and_eq_true_iff.mp htruncation).1
  · rintro ⟨htruncation, hnew, htext, hfits⟩
    refine ⟨hfacts, ?_, hreference.mpr hnew, hanchor, htext, hfits, hmetadata⟩
    exact Bool.and_eq_true_iff.mpr ⟨htruncation, rfl⟩

/-- A normalized outcome passes the check again and keeps its text. -/
theorem checked_of_normalize {raw : ToolOutcome} (hnormal : normalizeToolOutcome raw = .ok outcome) :
    checkToolOutcomeProtocol outcome = true ∧ utf8Encodable outcome.modelText = true ∧
      outcome.modelContent = some outcome.modelText := by
  rw [normalizeToolOutcome] at hnormal
  split at hnormal
  next => cases hnormal
  next hcheck =>
    split at hnormal
    next => cases hnormal
    next htext =>
      simp only [Bool.not_eq_true', Bool.not_eq_false] at hcheck htext
      cases hnormal
      refine ⟨?_, htext, rfl⟩
      obtain ⟨hfacts, htruncation, harchive, hanchor, hunbounded, hfits, hmetadata⟩ :=
        checkToolOutcomeProtocol_iff.mp hcheck
      apply checkToolOutcomeProtocol_iff.mpr
      refine ⟨hfacts, ?_, harchive, hanchor, ?_, hfits, hmetadata⟩
      · rw [Option.all_eq_true] at htruncation ⊢
        intro truncation hsome
        have hvalid := Bool.and_eq_true_iff.mp (htruncation truncation hsome)
        exact Bool.and_eq_true_iff.mpr ⟨hvalid.1, rfl⟩
      · simp only [unboundedTexts, all_append, Bool.and_eq_true, Option.toList_some,
          all_cons, all_nil] at hunbounded ⊢
        tauto

end Check

section Encoding

theorem utf8Encodable_intercalate {lines : List Text}
    (hlines : ∀ line ∈ lines, utf8Encodable line = true) :
    utf8Encodable (List.intercalate (lit "\n") lines) = true := by
  rw [utf8Encodable_iff]
  intro c hc
  cases mem_joinLines hc with
  | inl hfeed =>
      rw [hfeed]
      decide
  | inr hline =>
      obtain ⟨line, hline, hmem⟩ := hline
      exact utf8Encodable_iff.mp (hlines line hline) c hmem

end Encoding

namespace ToolOutputTruncationHook

variable {hook : ToolOutputTruncationHook} {outcome : ToolOutcome}
  {archive : Option ToolArchiveReference} {session : Option Text}

theorem utf8Encodable_retentionSummary (strategy : ToolRetentionStrategy) (retainedLines : ℕ)
    (anchorLine : Option ℤ) :
    utf8Encodable (hook.retentionSummary strategy retainedLines anchorLine) = true := by
  simp only [retentionSummary, utf8Encodable_append, utf8Encodable_decimal, Bool.and_true]
  cases anchorLine with
  | none => cases strategy <;> decide
  | some line =>
      rw [utf8Encodable_append, utf8Encodable_intText]
      cases strategy <;> decide

theorem utf8Encodable_archiveLines
    (harchive : ∀ reference ∈ archive, utf8Encodable reference.path = true) :
    ∀ line ∈ archiveLines archive session, utf8Encodable line = true := by
  intro line hline
  cases archive with
  | none => cases hline
  | some reference =>
      have hpath := harchive reference rfl
      have hquoted := utf8Encodable_quoted hpath
      rw [archiveLines] at hline
      split at hline
      next =>
        simp only [mem_cons, not_mem_nil, or_false] at hline
        cases hline with
        | inl hfirst =>
            rw [hfirst, utf8Encodable_append, hpath]
            decide
        | inr hsecond =>
            rw [hsecond, utf8Encodable_append, utf8Encodable_append, hquoted]
            decide
      next =>
        rw [mem_singleton.mp hline, utf8Encodable_append, hpath]
        decide

theorem truncatedText_eq (hook : ToolOutputTruncationHook) (outcome : ToolOutcome) :
    hook.truncatedText outcome = retainLines (splitLines outcome.modelText) hook.maxLines
      hook.maxChars outcome.retentionHint.strategy :=
  retainText_eq _ _ _ _

theorem utf8Encodable_truncatedText (hmaxChars : 0 < hook.maxChars)
    (htext : utf8Encodable outcome.modelText = true) :
    utf8Encodable (hook.truncatedText outcome) = true := by
  rw [truncatedText_eq, utf8Encodable_iff]
  intro c hc
  cases mem_retainLines hmaxChars hc with
  | inl hfeed =>
      rw [hfeed]
      decide
  | inr hline =>
      obtain ⟨line, hline, hmem⟩ := hline
      exact utf8Encodable_iff.mp htext c (mem_of_mem_splitLines hline hmem)

theorem utf8Encodable_modelProjection (hmaxChars : 0 < hook.maxChars)
    (htext : utf8Encodable outcome.modelText = true)
    (harchive : ∀ reference ∈ archive, utf8Encodable reference.path = true) :
    utf8Encodable (hook.modelProjection outcome archive session) = true := by
  have hlines : ∀ line ∈ archiveLines archive session, utf8Encodable line = true :=
    utf8Encodable_archiveLines harchive
  have hkept := utf8Encodable_truncatedText hmaxChars htext
  rw [modelProjection]
  simp only [utf8Encodable_append, hkept, Bool.and_true]
  rw [utf8Encodable_intercalate]
  · decide
  · intro line hline
    simp only [cons_append, nil_append, mem_cons] at hline
    obtain rfl | rfl | hlater := hline
    · simp only [utf8Encodable_append, utf8Encodable_decimal, Bool.and_true]
      decide
    · exact utf8Encodable_retentionSummary _ _ _
    · exact hlines line hlater

theorem hasIntBits_mono {small large : ℕ} (hle : small ≤ large)
    (hlarge : hasIntBits (large : ℤ) = true) : hasIntBits (small : ℤ) = true := by
  rw [hasIntBits, decide_eq_true_iff, Int.natAbs_natCast] at hlarge ⊢
  exact Nat.lt_of_le_of_lt hle hlarge

theorem optionalInt_natCast (value : ℕ) :
    optionalInt (some (value : ℤ)) = hasIntBits (value : ℤ) := by
  rw [optionalInt, Option.all_some, decide_eq_true (Int.natCast_nonneg value), Bool.true_and]

theorem isOversized_iff :
    hook.isOversized outcome = true ↔
      hook.maxLines < (splitLines outcome.modelText).length ∨
        hook.maxChars < outcome.modelText.length := by
  rw [isOversized, lineSummary_eq, Bool.not_eq_true', decide_eq_false_iff_not, not_and_or,
    not_le, not_le]

/-- The retained counts of an oversized outcome are right if the lines fit. -/
theorem truncationIsValid_truncation (hmaxChars : 0 < hook.maxChars)
    (hover : hook.isOversized outcome = true) :
    truncationIsValid (hook.truncation outcome) = true ↔
      hasIntBits (outcome.modelText.length : ℤ) = true ∧
        (outcome.retentionHint.strategy = .headTail →
          LinesFit (splitLines outcome.modelText) hook.maxLines hook.maxChars) := by
  have hunbroken : ∀ line ∈ splitLines outcome.modelText, Unbroken line :=
    fun line => unbroken_of_mem_splitLines
  have hchars : (hook.truncatedText outcome).length ≤ outcome.modelText.length := by
    rw [truncatedText_eq]
    exact length_retainLines_le _ _ hmaxChars (isOversized_iff.mp hover)
  have hkeptLines := length_splitLines_le (hook.truncatedText outcome)
  have hlines := length_splitLines_le outcome.modelText
  have hfit : (splitLines (hook.truncatedText outcome)).length ≤
      (splitLines outcome.modelText).length ↔
        (outcome.retentionHint.strategy = .headTail →
          LinesFit (splitLines outcome.modelText) hook.maxLines hook.maxChars) := by
    rw [truncatedText_eq]
    by_cases hstrategy : outcome.retentionHint.strategy = .headTail
    · rw [hstrategy, length_splitLines_headTail_le_iff hunbroken hmaxChars]
      exact ⟨fun hfits _ => hfits, fun hfits => hfits rfl⟩
    · exact iff_of_true (length_splitLines_retainLines_le hunbroken hstrategy)
        fun hboth => absurd hboth hstrategy
  have hstrategy : (hook.truncation outcome).strategy ∈
      [lit "head", lit "tail", lit "head_tail"] := by
    change outcome.retentionHint.strategy.value ∈ _
    cases outcome.retentionHint.strategy <;> simp [ToolRetentionStrategy.value]
  have horiginal : (hook.truncation outcome).originalLines =
      (splitLines outcome.modelText).length := congrArg Nat.cast (lineSummary_eq _)
  rw [truncationIsValid, horiginal, decide_eq_true hstrategy]
  simp only [truncation, optionalInt_natCast, Bool.and_eq_true, decide_eq_true_iff, Nat.cast_le,
    and_true]
  rw [hfit]
  constructor
  · rintro ⟨⟨⟨⟨⟨hbits, -⟩, -⟩, -⟩, -⟩, hfits⟩
    exact ⟨hbits, hfits⟩
  · rintro ⟨hbits, hfits⟩
    exact ⟨⟨⟨⟨⟨hbits, hasIntBits_mono hlines hbits⟩, hasIntBits_mono hchars hbits⟩,
      hasIntBits_mono (hkeptLines.trans hchars) hbits⟩, hchars⟩, hfits⟩

/-! ## What is archived -/

/-- What an outcome's archive is recorded as, where the hook stores one. -/
def archived (hook : ToolOutputTruncationHook) (toolName : Text) (outcome : ToolOutcome)
    (roundIndex : Option ℤ) (session : Option Text) : Option ToolArchiveReference :=
  if hook.storeFullOutput then
    some (hook.reference toolName outcome.modelText roundIndex session)
  else none

/-- The bounded texts of the outcome with its strategy and the archive. -/
def boundedTextsWith (outcome : ToolOutcome) (archive : Option ToolArchiveReference) :
    List Text :=
  boundedTexts
    { outcome with
      truncation := some
        { originalChars := 0
          originalLines := 0
          retainedChars := 0
          retainedLines := 0
          strategy := outcome.retentionHint.strategy.value }
      archiveReference := archive.or outcome.archiveReference }

/-- When the truncated outcome passes the check: the picked lines are not too many, the counts
are numbers that the check takes, and there is room for the archive's texts. -/
structure FitsCheck (hook : ToolOutputTruncationHook) (toolName : Text) (outcome : ToolOutcome)
    (roundIndex : Option ℤ) (session : Option Text) : Prop where
  lines : outcome.retentionHint.strategy = .headTail →
    LinesFit (splitLines outcome.modelText) hook.maxLines hook.maxChars
  chars : hasIntBits (outcome.modelText.length : ℤ) = true
  size : hook.storeFullOutput = true → hasIntBits (utf8Size outcome.modelText : ℤ) = true
  facts : FactsFit
    (boundedTextsWith outcome (hook.archived toolName outcome roundIndex session))

theorem artifactRef_ne_nil (toolName : Text) (roundIndex : Option ℤ) (session : Option Text) :
    hook.artifactRef toolName roundIndex session ≠ [] := by
  have hending : lit ".txt" ≠ [] := by decide
  cases session with
  | none => exact append_ne_nil_of_right_ne_nil _ hending
  | some sessionId => exact append_ne_nil_of_right_ne_nil _ hending

theorem archiveIsValid_archived (toolName : Text) (roundIndex : Option ℤ) :
    (hook.archived toolName outcome roundIndex session).all archiveIsValid = true ↔
      (hook.storeFullOutput = true → hasIntBits (utf8Size outcome.modelText : ℤ) = true) := by
  rw [archived]
  cases hook.storeFullOutput with
  | false => exact iff_of_true rfl fun hstore => absurd hstore Bool.false_ne_true
  | true =>
      rw [if_pos rfl, Option.all_some, archiveIsValid, reference, optionalInt_natCast,
        decide_eq_true (artifactRef_ne_nil _ _ _), Bool.true_and]
      exact ⟨fun hbits _ => hbits, fun hbits => hbits rfl⟩

theorem utf8Encodable_of_factsFit {reference : ToolArchiveReference}
    (hfits : FactsFit (boundedTextsWith outcome archive)) (hsome : reference ∈ archive) :
    utf8Encodable reference.path = true := by
  have hmem : reference.path ∈ boundedTextsWith outcome archive := by
    rw [Option.mem_def.mp hsome]
    simp [boundedTextsWith, boundedTexts]
  have hfact := all_eq_true.mp hfits.1 _ hmem
  rw [isFactText, Bool.and_eq_true] at hfact
  exact hfact.1

/-- The truncated outcome passes the check exactly if it fits. -/
theorem checkToolOutcomeProtocol_truncated (hmaxChars : 0 < hook.maxChars)
    (hcheck : checkToolOutcomeProtocol outcome = true)
    (htext : utf8Encodable outcome.modelText = true) (hover : hook.isOversized outcome = true)
    (toolName : Text) (roundIndex : Option ℤ) (session : Option Text) :
    checkToolOutcomeProtocol (hook.truncated outcome
        (hook.archived toolName outcome roundIndex session) session) = true ↔
      FitsCheck hook toolName outcome roundIndex session := by
  rw [truncated, checkToolOutcomeProtocol_projected hcheck,
    truncationIsValid_truncation hmaxChars hover, archiveIsValid_archived]
  constructor
  · rintro ⟨⟨hchars, hlines⟩, hsize, -, hfacts⟩
    exact ⟨hlines, hchars, hsize, hfacts⟩
  · rintro ⟨hlines, hchars, hsize, hfacts⟩
    refine ⟨⟨hchars, hlines⟩, hsize, ?_, hfacts⟩
    exact utf8Encodable_modelProjection hmaxChars htext fun _ => utf8Encodable_of_factsFit hfacts

end ToolOutputTruncationHook

/-! ## Acceptance -/

theorem lookup_ne_none_of_mem {metadata : List (Text × Json)} {entry : Text × Json}
    (hentry : entry ∈ metadata) : lookup entry.1 metadata ≠ none := by
  induction metadata with
  | nil => cases hentry
  | cons first rest ih =>
      obtain ⟨name, value⟩ := first
      rw [lookup_cons]
      split
      next => exact Option.some_ne_none value
      next hname =>
        apply ih
        apply (mem_cons.mp hentry).resolve_left
        rintro rfl
        exact hname rfl

theorem keepsMetadata_self (metadata : List (Text × Json)) :
    keepsMetadata metadata metadata = true := by
  rw [keepsMetadata, Bool.and_eq_true, all_eq_true, all_eq_true]
  exact ⟨fun entry _ => decide_eq_true rfl,
    fun entry hentry => decide_eq_true (.inl (lookup_ne_none_of_mem hentry))⟩

/-- An outcome with its text is as the check leaves it. -/
theorem normalizeToolOutcome_projected {outcome : ToolOutcome} {content : Text}
    (hcontent : outcome.modelContent = some content) :
    normalizeToolOutcome outcome =
      if checkToolOutcomeProtocol outcome then .ok outcome
      else .error invalidToolOutcomeProtocol := by
  rw [normalizeToolOutcome]
  cases hcheck : checkToolOutcomeProtocol outcome with
  | false => rfl
  | true =>
      obtain ⟨-, -, -, -, hunbounded, -, -⟩ := checkToolOutcomeProtocol_iff.mp hcheck
      have htext : outcome.modelText = content := by
        rw [ToolOutcome.modelText, hcontent]
        rfl
      have hencodable : utf8Encodable outcome.modelText = true := by
        apply all_eq_true.mp hunbounded
        rw [htext, unboundedTexts, hcontent]
        simp
      have hsame : { outcome with modelContent := some outcome.modelText } = outcome := by
        rw [htext, ← hcontent]
      rw [hencodable, hsame]
      rfl

/-- An outcome that keeps the facts is taken over exactly if it passes the check. -/
theorem acceptedAfterTransform_same {original candidate : ToolOutcome}
    {originalContext transformedContext : AfterToolExecuteContext}
    {signature : Text × Text × List (Text × Json)}
    (hcontext : sameFixedContext transformedContext originalContext = true)
    (htransformed : toolCallSignature transformedContext.toolCall = .ok signature)
    (horiginal : toolCallSignature originalContext.toolCall = .ok signature)
    (hcandidate : transformedContext.outcome = some candidate)
    (houtcome : originalContext.outcome = some original)
    (hresult : transformedContext.result = candidate.modelText)
    (hfixed : sameFixedOutcome candidate original = true)
    (hdiagnostics : candidate.diagnostics = original.diagnostics)
    (hmetadata : candidate.metadata = original.metadata)
    (hencodable : checkToolOutcomeProtocol candidate = true →
      utf8Encodable candidate.modelText = true)
    (hnormal : normalizedTransform original candidate =
      if checkToolOutcomeProtocol candidate then .ok candidate
      else .error invalidToolOutcomeProtocol) :
    acceptedAfterTransform originalContext transformedContext =
      if checkToolOutcomeProtocol candidate then .ok candidate
      else .error invalidToolOutcomeProtocol := by
  simp only [acceptedAfterTransform, hcontext, htransformed, horiginal, hcandidate, houtcome,
    hresult, hnormal]
  cases hcheck : checkToolOutcomeProtocol candidate with
  | false => simp
  | true =>
      have haccepted : acceptedCandidate original candidate = .ok candidate := by
        rw [acceptedCandidate, hfixed, hdiagnostics, hmetadata, keepsMetadata_self,
          take_length, decide_eq_true rfl]
        rfl
      simp [hencodable hcheck, haccepted]

theorem sameFixedContext_self (context : AfterToolExecuteContext) :
    sameFixedContext context context = true := by
  simp [sameFixedContext]

theorem sameFixedOutcome_self (outcome : ToolOutcome) : sameFixedOutcome outcome outcome = true := by
  simp [sameFixedOutcome]

namespace ToolOutputTruncationHook

variable {hook : ToolOutputTruncationHook} {original : ToolOutcome}
  {context transformed : AfterToolExecuteContext}

theorem eq_of_map_ok {α β : Type} {value : Except PyError α} {f : α → β} {result : β}
    (hmap : value.map f = .ok result) : ∃ inner, value = .ok inner ∧ result = f inner := by
  cases value with
  | error error => cases hmap
  | ok inner =>
      cases hmap
      exact ⟨inner, rfl, rfl⟩

theorem archiveOutput_eq {toolName content : Text} {roundIndex : Option ℤ}
    {session : Option Text} {reference : ToolArchiveReference}
    (harchive : hook.archiveOutput toolName content roundIndex session = .ok reference) :
    reference = hook.reference toolName content roundIndex session := by
  simp only [archiveOutput] at harchive
  split at harchive
  next => cases harchive
  next =>
    obtain ⟨-, -, hreference⟩ := eq_of_map_ok harchive
    exact hreference

/-- The hook has nothing to do. -/
def leavesAlone (hook : ToolOutputTruncationHook) (toolCall : ToolCall) (outcome : ToolOutcome) :
    Bool :=
  hook.shouldBypassTruncation toolCall || !hook.isOversized outcome

/-- What `run` does with the outcome of a tool call. -/
theorem run_cases {toolCall : ToolCall} (hcall : context.toolCall = some toolCall)
    (houtcome : context.outcome = some original)
    (hrun : hook.run context = .ok transformed) :
    transformed =
      if leavesAlone hook toolCall original then context
      else
        let session := context.sessionId.filter (· ≠ [])
        let projected := hook.truncated original
          (hook.archived toolCall.name original context.roundIndex session) session
        { context with outcome := some projected, result := projected.modelText } := by
  simp only [run, hcall, houtcome, Option.getD_some] at hrun
  rw [leavesAlone]
  cases hbypass : hook.shouldBypassTruncation toolCall with
  | true =>
      rw [hbypass] at hrun
      cases hrun
      rfl
  | false =>
      cases hover : hook.isOversized original with
      | false =>
          rw [hbypass, hover] at hrun
          cases hrun
          rfl
      | true =>
          rw [hbypass, hover] at hrun
          obtain ⟨archive, harchive, htransformed⟩ := eq_of_map_ok hrun
          have harchived : archive = hook.archived toolCall.name original context.roundIndex
              (context.sessionId.filter (· ≠ [])) := by
            rw [archived]
            split at harchive
            next hstore =>
              obtain ⟨reference, hreference, hsome⟩ := eq_of_map_ok harchive
              rw [hsome, archiveOutput_eq hreference, if_pos hstore]
            next hstore =>
              cases harchive
              rw [if_neg hstore]
          rw [htransformed, harchived, ← hcall]
          rfl

/-- When what the hook returns is taken over: the tool call can be recorded, and the outcome
is left alone or its truncation passes the check. -/
def AcceptedWhen (hook : ToolOutputTruncationHook) (context : AfterToolExecuteContext)
    (original : ToolOutcome) : Prop :=
  ∃ toolCall, context.toolCall = some toolCall ∧
    (toolCallSignature context.toolCall).isOk = true ∧
    (leavesAlone hook toolCall original = true ∨
      FitsCheck hook toolCall.name original context.roundIndex
        (context.sessionId.filter (· ≠ [])))

end ToolOutputTruncationHook

theorem acceptedAfterTransform_of_unrecorded {context transformed : AfterToolExecuteContext}
    (hsignature : (toolCallSignature transformed.toolCall).isOk = false) :
    ¬ ∃ accepted, acceptedAfterTransform context transformed = .ok accepted := by
  rintro ⟨accepted, haccepted⟩
  rw [acceptedAfterTransform] at haccepted
  split at haccepted
  next => cases haccepted
  next =>
    cases hbegun : toolCallSignature transformed.toolCall with
    | error error =>
        rw [hbegun] at haccepted
        cases haccepted
    | ok signature =>
        rw [hbegun] at hsignature
        cases hsignature

section Run

open ToolOutputTruncationHook

variable {hook : ToolOutputTruncationHook} {raw original : ToolOutcome}
  {context transformed : AfterToolExecuteContext} {toolCall : ToolCall}
  {signature : Text × Text × List (Text × Json)}

/-- What the check makes of an outcome that the hook leaves alone. -/
theorem accepted_leavesAlone (hnormal : normalizeToolOutcome raw = .ok original)
    (houtcome : context.outcome = some original) (hresult : context.result = original.modelText)
    (hsignature : toolCallSignature context.toolCall = .ok signature) :
    acceptedAfterTransform context context = .ok original := by
  obtain ⟨hcheck, htext, -⟩ := checked_of_normalize hnormal
  rw [acceptedAfterTransform_same (sameFixedContext_self context) hsignature hsignature houtcome
    houtcome hresult (sameFixedOutcome_self original) rfl rfl (fun _ => htext)
    (by rw [normalizedTransform, if_pos rfl, if_pos hcheck]), if_pos hcheck]

/-- What the check makes of an outcome that the hook truncates. -/
theorem accepted_truncated (hnormal : normalizeToolOutcome raw = .ok original)
    (houtcome : context.outcome = some original)
    (hsignature : toolCallSignature context.toolCall = .ok signature)
    (archive : Option ToolArchiveReference) (session : Option Text) :
    acceptedAfterTransform context
        { context with
          outcome := some (hook.truncated original archive session)
          result := (hook.truncated original archive session).modelText } =
      if checkToolOutcomeProtocol (hook.truncated original archive session) then
        .ok (hook.truncated original archive session)
      else .error invalidToolOutcomeProtocol := by
  obtain ⟨hcheck, htext, -⟩ := checked_of_normalize hnormal
  have hcontext : sameFixedContext
      { context with
        outcome := some (hook.truncated original archive session)
        result := (hook.truncated original archive session).modelText } context = true :=
    sameFixedContext_self context
  have hfixed : sameFixedOutcome (hook.truncated original archive session) original = true :=
    sameFixedOutcome_self original
  apply acceptedAfterTransform_same hcontext hsignature hsignature rfl houtcome rfl hfixed rfl rfl
  · intro hvalid
    obtain ⟨-, -, -, -, hunbounded, -, -⟩ := checkToolOutcomeProtocol_iff.mp hvalid
    apply all_eq_true.mp hunbounded
    simp [unboundedTexts, truncated, ToolOutcome.withModelProjection, ToolOutcome.modelText]
  · rw [normalizedTransform]
    split
    next hsame => rw [hsame, if_pos hcheck]
    next => exact normalizeToolOutcome_projected rfl

theorem run_toolCall (houtcome : context.outcome = some original)
    (hrun : hook.run context = .ok transformed) : transformed.toolCall = context.toolCall := by
  cases hcall : context.toolCall with
  | none =>
      rw [run, hcall] at hrun
      cases hrun
      exact hcall
  | some toolCall =>
      rw [run_cases hcall houtcome hrun]
      split
      · exact hcall
      · exact hcall

theorem exists_toolCall_of_signature
    (hsignature : toolCallSignature context.toolCall = .ok signature) :
    ∃ toolCall, context.toolCall = some toolCall := by
  cases hcall : context.toolCall with
  | none =>
      rw [hcall] at hsignature
      cases hsignature
  | some toolCall => exact ⟨toolCall, rfl⟩

theorem acceptedWhen_iff (hcall : context.toolCall = some toolCall)
    (hsignature : toolCallSignature context.toolCall = .ok signature) :
    AcceptedWhen hook context original ↔
      leavesAlone hook toolCall original = true ∨
        FitsCheck hook toolCall.name original context.roundIndex
          (context.sessionId.filter (· ≠ [])) := by
  constructor
  · rintro ⟨other, hother, -, hwhen⟩
    rw [hcall] at hother
    cases hother
    exact hwhen
  · intro hwhen
    refine ⟨toolCall, hcall, ?_, hwhen⟩
    rw [hsignature]
    rfl

theorem isOversized_of_not_leavesAlone (halone : ¬ leavesAlone hook toolCall original = true) :
    hook.isOversized original = true := by
  rw [leavesAlone, Bool.or_eq_true, not_or, Bool.not_eq_true', Bool.not_eq_false] at halone
  exact halone.2

/-- What the hook returns for a normalized outcome is taken over as it is, or refused.  It is
refused exactly if the tool call cannot be recorded, or if the truncated outcome does not fit
the check. -/
theorem run_accepted (hook : ToolOutputTruncationHook) (hmaxChars : 0 < hook.maxChars)
    {raw original : ToolOutcome} (hnormal : normalizeToolOutcome raw = .ok original)
    {context transformed : AfterToolExecuteContext} (houtcome : context.outcome = some original)
    (hresult : context.result = original.modelText)
    (hrun : hook.run context = .ok transformed) :
    ((∃ accepted, acceptedAfterTransform context transformed = .ok accepted) ↔
        AcceptedWhen hook context original) ∧
      ∀ accepted, acceptedAfterTransform context transformed = .ok accepted →
        transformed.outcome = some accepted := by
  obtain ⟨hcheck, htext, -⟩ := checked_of_normalize hnormal
  cases hsignature : toolCallSignature context.toolCall with
  | error error =>
      have hrefused : ¬ ∃ accepted, acceptedAfterTransform context transformed = .ok accepted := by
        apply acceptedAfterTransform_of_unrecorded
        rw [run_toolCall houtcome hrun, hsignature]
        rfl
      refine ⟨iff_of_false hrefused ?_, fun accepted hok => absurd ⟨accepted, hok⟩ hrefused⟩
      rintro ⟨toolCall, -, hrecorded, -⟩
      rw [hsignature] at hrecorded
      cases hrecorded
  | ok signature =>
      obtain ⟨toolCall, hcall⟩ := exists_toolCall_of_signature hsignature
      have htransformed := run_cases hcall houtcome hrun
      rw [acceptedWhen_iff hcall hsignature]
      by_cases halone : leavesAlone hook toolCall original = true
      · rw [if_pos halone] at htransformed
        rw [htransformed, accepted_leavesAlone hnormal houtcome hresult hsignature]
        refine ⟨iff_of_true ⟨original, rfl⟩ (.inl halone), fun accepted hok => ?_⟩
        cases hok
        exact houtcome
      · have hover := isOversized_of_not_leavesAlone halone
        have hfits := checkToolOutcomeProtocol_truncated hmaxChars hcheck htext hover toolCall.name
          context.roundIndex (context.sessionId.filter (· ≠ []))
        rw [if_neg halone] at htransformed
        rw [htransformed, accepted_truncated hnormal houtcome hsignature, ← hfits]
        rw [or_iff_right halone]
        split
        next hvalid =>
          refine ⟨iff_of_true ⟨_, rfl⟩ hvalid, fun accepted hok => ?_⟩
          cases hok
          rfl
        next hvalid =>
          refine ⟨iff_of_false ?_ hvalid, fun accepted hok => nomatch hok⟩
          rintro ⟨accepted, hok⟩
          cases hok

end Run

/-! ## A line that is too long -/

/-- A place without files. -/
def emptyWorld : ArchiveWorld where
  outputDirectory := lit "/outputs"
  sessionDirectory := fun _ => .error invalidSessionId
  day := lit "2024-01-01"
  uuid := List.replicate 32 (ofChar '0')
  sha256 := fun _ => List.replicate 64 (ofChar '0')
  write := fun _ _ => .ok ()
  isSkillsMarkdown := fun _ => false
  uuid_hex := by decide
  sha256_hex := fun _ => by decide

def smallHook : ToolOutputTruncationHook where
  maxChars := 3
  maxLines := 1
  storeFullOutput := false
  world := emptyWorld

def lineOutcome (strategy : ToolRetentionStrategy) : ToolOutcome where
  content := some (lit "abcd")
  modelContent := some (lit "abcd")
  retentionHint := { strategy }

def lineContext (strategy : ToolRetentionStrategy) : AfterToolExecuteContext where
  toolCall := some { id := lit "call", name := lit "shell", arguments := [] }
  result := lit "abcd"
  outcome := some (lineOutcome strategy)

theorem normalize_lineOutcome (strategy : ToolRetentionStrategy) :
    normalizeToolOutcome (lineOutcome strategy) = .ok (lineOutcome strategy) := by
  cases strategy <;> rfl

def lineTransformed (strategy : ToolRetentionStrategy) : AfterToolExecuteContext :=
  { lineContext strategy with
    outcome := some (smallHook.truncated (lineOutcome strategy) none none)
    result := (smallHook.truncated (lineOutcome strategy) none none).modelText }

theorem run_lineContext (strategy : ToolRetentionStrategy) :
    smallHook.run (lineContext strategy) = .ok (lineTransformed strategy) := by
  cases strategy <;> rfl

theorem run_accepted_line :
    0 < smallHook.maxChars ∧
      normalizeToolOutcome (lineOutcome .head) = .ok (lineOutcome .head) ∧
      smallHook.run (lineContext .head) = .ok (lineTransformed .head) ∧
      ∃ accepted, acceptedAfterTransform (lineContext .head) (lineTransformed .head) =
        .ok accepted := by
  refine ⟨by decide, normalize_lineOutcome .head, run_lineContext .head, ?_⟩
  apply (run_accepted smallHook (by decide) (normalize_lineOutcome .head) rfl rfl
    (run_lineContext .head)).1.mpr
  refine ⟨_, rfl, rfl, .inr ⟨fun hboth => ?_, by decide, fun hstore => ?_, ?_⟩⟩
  · cases hboth
  · cases hstore
  · unfold FactsFit
    decide

/-- A single line that is cut in the middle is kept as two lines, and refused for that. -/
theorem truncated_line_refused :
    normalizeToolOutcome (lineOutcome .headTail) = .ok (lineOutcome .headTail) ∧
      smallHook.run (lineContext .headTail) = .ok (lineTransformed .headTail) ∧
      ¬ ∃ accepted, acceptedAfterTransform (lineContext .headTail) (lineTransformed .headTail) =
        .ok accepted := by
  refine ⟨normalize_lineOutcome .headTail, run_lineContext .headTail, ?_⟩
  have hlines : ¬ LinesFit (splitLines (lit "abcd")) 1 3 := by
    unfold LinesFit
    decide
  have hrefused : checkToolOutcomeProtocol
      (smallHook.truncated (lineOutcome .headTail) none none) ≠ true := by
    intro hcheck
    have hfits : ToolOutputTruncationHook.FitsCheck smallHook (lit "shell")
        (lineOutcome .headTail) none none :=
      (ToolOutputTruncationHook.checkToolOutcomeProtocol_truncated (by decide) (by decide)
        (by decide) (by decide) (lit "shell") none none).mp hcheck
    exact hlines (hfits.lines rfl)
  have haccepted : acceptedAfterTransform (lineContext .headTail) (lineTransformed .headTail) =
      if checkToolOutcomeProtocol (smallHook.truncated (lineOutcome .headTail) none none) then
        .ok (smallHook.truncated (lineOutcome .headTail) none none)
      else .error invalidToolOutcomeProtocol :=
    accepted_truncated (normalize_lineOutcome .headTail) rfl rfl none none
  rw [haccepted, if_neg hrefused]
  rintro ⟨accepted, hok⟩
  cases hok

end ReuleauxCoder.Tools
