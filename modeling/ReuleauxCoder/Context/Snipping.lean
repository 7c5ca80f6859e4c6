import ReuleauxCoder.Context.SummarizedTail

/-!
# Snipping twice

A long result of a tool keeps its first and last three lines, with a note between them.  Nothing
compares the sizes: the note may be longer than what it stands for, and the seven lines that are
left may be snipped again.  Whether that happens is read off the lines of the result.
-/

namespace ReuleauxCoder.Context

open PyText PyJson ToolHistory
open List hiding lookup

/-! ## One result -/

/-- A result that is long enough to be snipped. -/
structure Eligible (manager : ContextManager) (message : Dict) (content : Text) : Prop where
  found : lookup (lit "content") message = some (.str content)
  long : manager.snipThresholdChars < content.length
  lines : manager.snipMinLines < (splitLines content).length

/-- The note between the lines. -/
def snipNote (builtins : Builtins) (message : Dict) (lineCount : ℕ) : Text :=
  lit "... (" ++ intText lineCount ++ lit " lines, context-snipped; tool_call_id=" ++
    builtins.strOr (field message "tool_call_id") (lit "unknown") ++
    lit "; full committed output remains searchable in HistoryLedger) ..."

def snippedText (lines : List Text) (note : Text) : Text :=
  joinLines (lines.take 3) ++ lineFeed :: (note ++ lineFeed ::
    joinLines (lines.drop (lines.length - 3)))

def snippedMessage (builtins : Builtins) (message : Dict) (content : Text) : Dict :=
  withoutCount (store (lit "content") (.str (snippedText (splitLines content)
    (snipNote builtins message (splitLines content).length))) message)

section Messages

variable {builtins : Builtins} {manager : ContextManager} {message : Dict} {content : Text}

theorem Eligible.snipMessage (heligible : Eligible manager message content) :
    snipMessage builtins manager message = some (snippedMessage builtins message content) := by
  have hopening : lit "\n... (" = lineFeed :: lit "... (" := by decide
  have hclosing : lit "; full committed output remains searchable in HistoryLedger) ...\n" =
      lit "; full committed output remains searchable in HistoryLedger) ..." ++ [lineFeed] := by
    decide
  rw [Context.snipMessage, heligible.found]
  dsimp only
  rw [if_neg (not_le.mpr heligible.long), if_neg (not_le.mpr heligible.lines), hopening, hclosing,
    snippedMessage, snippedText, snipNote]
  simp only [append_assoc, cons_append, nil_append]

theorem snipMessage_eq_none_iff : snipMessage builtins manager message = none ↔
    ∀ content, ¬ Eligible manager message content := by
  constructor
  · intro hnone content heligible
    rw [heligible.snipMessage] at hnone
    cases hnone
  · intro hnone
    rw [snipMessage]
    split
    · rename_i content hcontent
      split
      · rfl
      rename_i hlong
      dsimp only
      split
      · rfl
      rename_i hlines
      exact absurd ⟨hcontent, not_le.mp hlong, not_le.mp hlines⟩ (hnone content)
    · rfl

theorem lookup_snippedMessage : lookup (lit "content") (snippedMessage builtins message content) =
    some (.str (snippedText (splitLines content)
      (snipNote builtins message (splitLines content).length))) := by
  rw [snippedMessage, withoutCount, lookup_drop_of_ne (by decide), lookup_store_self]

theorem field_snippedMessage {key : String} (hcontent : lit key ≠ lit "content")
    (hcount : lit key ≠ tokenCountKey) :
    field (snippedMessage builtins message content) key = field message key := by
  rw [field, field, snippedMessage, withoutCount, lookup_drop_of_ne hcount,
    lookup_store_of_ne hcontent]

end Messages

/-! ## Sizes -/

/-- The length of joined lines. -/
def joinedLength (lines : List Text) : ℕ :=
  (lines.map List.length).sum + (lines.length - 1)

def snippedLength (lines : List Text) (note : Text) : ℕ :=
  joinedLength (lines.take 3) + note.length + joinedLength (lines.drop (lines.length - 3)) + 2

/-- Three lines, those of the note, and three more, but that an empty last line is not seen. -/
def snippedLineCount (lines : List Text) (note : Text) : ℕ :=
  max 1 (min 3 lines.length) + (splitLines note).length +
    (min 3 lines.length - if lines.getLast? = some [] then 1 else 0)

theorem length_snippedText (lines : List Text) (note : Text) :
    (snippedText lines note).length = snippedLength lines note := by
  simp only [snippedText, length_append, length_cons, length_joinLines, snippedLength,
    joinedLength]
  omega

theorem splitLines_note (builtins : Builtins) (message : Dict) (lineCount : ℕ) (rest : Text) :
    splitLines (snipNote builtins message lineCount ++ lineFeed :: rest) =
      splitLines (snipNote builtins message lineCount) ++ splitLines rest := by
  have hstop : lit "; full committed output remains searchable in HistoryLedger) ..." =
      lit "; full committed output remains searchable in HistoryLedger) .." ++ [ofChar '.'] := by
    decide
  rw [snipNote, hstop, ← append_assoc, append_assoc _ [ofChar '.'],
    singleton_append]
  exact splitLinesFrom_closed (by decide) [] false _ rest

theorem splitLines_joinLines_lineFeed {lines : List Text} (hlines : ∀ line ∈ lines, Unbroken line)
    (rest : Text) :
    splitLines (joinLines lines ++ lineFeed :: rest) =
      (if lines = [] then [[]] else lines) ++ splitLines rest := by
  by_cases hne : lines = []
  · rw [hne, if_pos rfl]
    exact splitLinesFrom_lineFeed [] rest
  · rw [if_neg hne]
    exact splitLines_intercalate_lineFeed hne hlines rest

theorem length_splitLines_joinLines {lines : List Text}
    (hlines : ∀ line ∈ lines, Unbroken line) :
    (splitLines (joinLines lines)).length =
      lines.length - if lines.getLast? = some [] then 1 else 0 := by
  cases lines using List.reverseRecOn with
  | nil => rfl
  | append_singleton front line =>
      have hread := splitLines_intercalate_concat
        (fun other hother => hlines other (mem_append_left [line] hother))
        (hlines line (mem_append_right front mem_cons_self))
      have hjoined : joinLines (front ++ [line]) = [lineFeed].intercalate (front ++ [line]) := rfl
      rw [hjoined, hread, getLast?_concat, length_append, length_append]
      by_cases hline : line = []
      · simp [hline]
      · simp [hline]

theorem length_splitLines_snippedText (builtins : Builtins) (message : Dict) {lines : List Text}
    (hlines : ∀ line ∈ lines, Unbroken line) (lineCount : ℕ) :
    (splitLines (snippedText lines (snipNote builtins message lineCount))).length =
      snippedLineCount lines (snipNote builtins message lineCount) := by
  have hfirst : ∀ line ∈ lines.take 3, Unbroken line :=
    fun line hline => hlines line (mem_of_mem_take hline)
  have hlast : ∀ line ∈ lines.drop (lines.length - 3), Unbroken line :=
    fun line hline => hlines line (mem_of_mem_drop hline)
  rw [snippedText, splitLines_joinLines_lineFeed hfirst, splitLines_note, length_append,
    length_append, length_splitLines_joinLines hlast, snippedLineCount, length_drop]
  by_cases hne : lines = []
  · subst hne
    rfl
  · have hpositive := length_pos_of_ne_nil hne
    have htake : lines.take 3 ≠ [] := by
      rw [← length_pos_iff, length_take]
      omega
    have hfront : ¬ lines.length ≤ lines.length - 3 := by omega
    rw [if_neg htake, getLast?_drop, if_neg hfront, length_take]
    omega

/-! ## The whole list -/

/-- A message before and after: only the content of a result may differ, with the count that is
cached for it, and it is no longer than it was. -/
inductive Snipped : Dict → Dict → Prop
  | same (message : Dict) : Snipped message message
  | shorter {message : Dict} {content : Text} (short : Text) (htool : isTool message = true)
      (hcontent : lookup (lit "content") message = some (.str content))
      (hshort : short.length ≤ content.length) :
      Snipped message (withoutCount (store (lit "content") (.str short) message))

/-- The lines that are kept and the note are no more than there was, and not enough to be snipped
again. -/
structure SnipsForGood (builtins : Builtins) (manager : ContextManager) (message : Dict)
    (content : Text) : Prop where
  shorter : snippedLength (splitLines content)
    (snipNote builtins message (splitLines content).length) ≤ content.length
  settled : (snippedLength (splitLines content)
      (snipNote builtins message (splitLines content).length) : ℤ) ≤ manager.snipThresholdChars ∨
    (snippedLineCount (splitLines content)
      (snipNote builtins message (splitLines content).length) : ℤ) ≤ manager.snipMinLines

/-- The messages in front of the rounds that are left alone. -/
def oldMessages (manager : ContextManager) (messages : List Dict) : List Dict :=
  messages.take (snipCut manager.snipKeepRecentTools 0 messages.reverse)

section Lists

variable {builtins : Builtins} {manager : ContextManager} {messages : List Dict}

/-- What becomes of an old message. -/
def snipOld (builtins : Builtins) (manager : ContextManager) (message : Dict) : Dict :=
  if isTool message then (snipMessage builtins manager message).getD message else message

theorem snipCut_congr {left right : List Dict}
    (hsame : left.map callsTools = right.map callsTools) (keepRecent rounds : ℤ) :
    snipCut keepRecent rounds left = snipCut keepRecent rounds right := by
  induction left generalizing rounds right with
  | nil =>
      rw [map_nil, eq_comm, map_eq_nil_iff] at hsame
      rw [hsame]
  | cons message before ih =>
      cases right with
      | nil => cases hsame
      | cons other others =>
          rw [map_cons, map_cons, List.cons.injEq] at hsame
          have hlength : before.length = others.length := by
            simpa using congrArg List.length hsame.2
          rw [snipCut, snipCut, hsame.1, hlength, ih hsame.2, ih hsame.2]

theorem snipCut_le (keepRecent rounds : ℤ) (messages : List Dict) :
    snipCut keepRecent rounds messages ≤ messages.length := by
  induction messages generalizing rounds with
  | nil => exact le_refl 0
  | cons message before ih =>
      rw [snipCut, length_cons]
      split
      · split
        · exact Nat.le_succ _
        · exact (ih _).trans (Nat.le_succ _)
      · exact (ih _).trans (Nat.le_succ _)

theorem length_oldMessages (manager : ContextManager) (messages : List Dict) :
    (oldMessages manager messages).length =
      snipCut manager.snipKeepRecentTools 0 messages.reverse := by
  have hcut := snipCut_le manager.snipKeepRecentTools 0 messages.reverse
  rw [length_reverse] at hcut
  rw [oldMessages, length_take, min_eq_left hcut]

/-- What `snipToolOutputs` does with numbered messages. -/
def snippedAt (builtins : Builtins) (manager : ContextManager) (cut : ℕ) (message : Dict × ℕ) :
    Option (Dict × Bool) :=
  if message.2 < cut ∧ isTool message.1 then
    (snipMessage builtins manager message.1).map fun changed => (changed, true)
  else none

theorem zip_snippedAt_old (builtins : Builtins) (manager : ContextManager) {messages : List Dict}
    {cut start : ℕ} (hold : start + messages.length ≤ cut) :
    (messages.zip ((messages.zipIdx start).map (snippedAt builtins manager cut))).map
        (fun pair => (pair.2.map Prod.fst).getD pair.1) =
      messages.map (snipOld builtins manager) ∧
    ((messages.zipIdx start).map (snippedAt builtins manager cut)).any Option.isSome =
      messages.any fun message => isTool message && (snipMessage builtins manager message).isSome := by
  induction messages generalizing start with
  | nil => exact ⟨rfl, rfl⟩
  | cons message rest ih =>
      rw [length_cons] at hold
      have hbehind : start + 1 + rest.length ≤ cut := by omega
      obtain ⟨hrest, hany⟩ := ih hbehind
      have hplace : start < cut := by omega
      rw [zipIdx_cons, map_cons, zip_cons_cons, map_cons, map_cons, hrest,
        any_cons, any_cons, hany, snippedAt, snipOld]
      cases htool : isTool message with
      | false => simp
      | true => cases snipMessage builtins manager message <;> simp [hplace]

theorem zip_snippedAt_recent (builtins : Builtins) (manager : ContextManager)
    {messages : List Dict} {cut start : ℕ} (hrecent : messages = [] ∨ cut ≤ start) :
    (messages.zip ((messages.zipIdx start).map (snippedAt builtins manager cut))).map
        (fun pair => (pair.2.map Prod.fst).getD pair.1) = messages ∧
    ((messages.zipIdx start).map (snippedAt builtins manager cut)).any Option.isSome = false := by
  induction messages generalizing start with
  | nil => exact ⟨rfl, rfl⟩
  | cons message rest ih =>
      have hplace : cut ≤ start := hrecent.resolve_left (cons_ne_nil _ _)
      have hbehind : rest = [] ∨ cut ≤ start + 1 := .inr (by omega)
      obtain ⟨hrest, hany⟩ := ih hbehind
      rw [zipIdx_cons, map_cons, zip_cons_cons, map_cons, hrest,
        any_cons, hany, snippedAt, if_neg (fun hboth => absurd hboth.1 (not_lt.mpr hplace))]
      exact ⟨rfl, rfl⟩

/-- The old messages are snipped one by one. -/
theorem snipToolOutputs_eq (builtins : Builtins) (manager : ContextManager)
    (messages : List Dict) :
    snipToolOutputs builtins manager messages =
      ((oldMessages manager messages).map (snipOld builtins manager) ++
          messages.drop (snipCut manager.snipKeepRecentTools 0 messages.reverse),
        (oldMessages manager messages).any fun message =>
          isTool message && (snipMessage builtins manager message).isSome) := by
  have hplaces : snipToolOutputs builtins manager messages =
      ((messages.zip (messages.zipIdx.map (snippedAt builtins manager
          (snipCut manager.snipKeepRecentTools 0 messages.reverse)))).map
            (fun pair => (pair.2.map Prod.fst).getD pair.1),
        (messages.zipIdx.map (snippedAt builtins manager
          (snipCut manager.snipKeepRecentTools 0 messages.reverse))).any Option.isSome) := rfl
  rw [hplaces, oldMessages]
  generalize snipCut manager.snipKeepRecentTools 0 messages.reverse = cut
  have htake : 0 + (messages.take cut).length ≤ cut := by
    rw [length_take]
    omega
  have hdrop : messages.drop cut = [] ∨ cut ≤ 0 + (messages.take cut).length := by
    rw [drop_eq_nil_iff, length_take]
    omega
  obtain ⟨hold, holds⟩ := zip_snippedAt_old builtins manager htake
  obtain ⟨hrecent, hrecents⟩ := zip_snippedAt_recent builtins manager hdrop
  conv_lhs => rw [← take_append_drop cut messages]
  rw [zipIdx_append, map_append, zip_append (by simp), map_append, hold,
    hrecent, any_append, holds, hrecents, Bool.or_false]

section Old

variable {message : Dict} {content : Text}

theorem isTool_snippedMessage :
    isTool (snippedMessage builtins message content) = isTool message := by
  rw [isTool, isTool, field_snippedMessage (by decide) (by decide)]

theorem snipOld_eligible (htool : isTool message = true)
    (heligible : Eligible manager message content) :
    snipOld builtins manager message = snippedMessage builtins message content := by
  rw [snipOld, if_pos htool, heligible.snipMessage, Option.getD_some]

theorem snipOld_of_none (hnone : ∀ content, ¬ Eligible manager message content) :
    snipOld builtins manager message = message := by
  rw [snipOld, snipMessage_eq_none_iff.mpr hnone, Option.getD_none, ite_self]

theorem isTool_snipOld : isTool (snipOld builtins manager message) = isTool message := by
  by_cases hsome : ∃ content, Eligible manager message content
  · obtain ⟨content, heligible⟩ := hsome
    cases htool : isTool message with
    | true => rw [snipOld_eligible htool heligible, isTool_snippedMessage, htool]
    | false => rw [snipOld, htool, if_neg Bool.false_ne_true, htool]
  · rw [snipOld_of_none (not_exists.mp hsome)]

/-- Results call no tools, so the rounds are the same as before. -/
theorem callsTools_snipOld :
    callsTools (snipOld builtins manager message) = callsTools message := by
  cases htool : isTool message with
  | false => rw [snipOld, htool, if_neg Bool.false_ne_true]
  | true =>
      have hcalls : ∀ other, isTool other = true → callsTools other = false := by
        intro other hother
        rw [callsTools, Bool.and_eq_false_iff]
        refine .inl (Bool.eq_false_of_not_eq_true fun hassistant => ?_)
        rw [isTool_of_isAssistant hassistant] at hother
        cases hother
      rw [hcalls message htool, hcalls _ (isTool_snipOld.trans htool)]

theorem Snipped.length_le {before after : Dict} (hsnipped : Snipped before after) {long short : Text}
    (hlong : lookup (lit "content") before = some (.str long))
    (hshort : lookup (lit "content") after = some (.str short)) : short.length ≤ long.length := by
  cases hsnipped with
  | same =>
      have hsame := hlong.symm.trans hshort
      cases hsame
      exact le_refl _
  | shorter kept htool hcontent hkept =>
      have hsame := hlong.symm.trans hcontent
      cases hsame
      rw [withoutCount, lookup_drop_of_ne (by decide), lookup_store_self] at hshort
      cases hshort
      exact hkept

theorem snipped_iff (htool : isTool message = true)
    (heligible : Eligible manager message content) :
    Snipped message (snippedMessage builtins message content) ↔
      snippedLength (splitLines content)
        (snipNote builtins message (splitLines content).length) ≤ content.length := by
  rw [← length_snippedText]
  constructor
  · intro hsnipped
    exact hsnipped.length_le heligible.found lookup_snippedMessage
  · intro hshort
    exact .shorter _ htool heligible.found hshort

theorem settled_iff :
    snipMessage builtins manager (snippedMessage builtins message content) = none ↔
      (snippedLength (splitLines content)
          (snipNote builtins message (splitLines content).length) : ℤ) ≤
            manager.snipThresholdChars ∨
        (snippedLineCount (splitLines content)
          (snipNote builtins message (splitLines content).length) : ℤ) ≤ manager.snipMinLines := by
  have hlines : ∀ line ∈ splitLines content, Unbroken line :=
    fun line hline => unbroken_of_mem_splitLines hline
  rw [snipMessage_eq_none_iff, ← length_snippedText,
    ← length_splitLines_snippedText builtins message hlines]
  constructor
  · intro hnone
    by_contra hmore
    rw [not_or, not_le, not_le] at hmore
    exact hnone _ ⟨lookup_snippedMessage, hmore.1, hmore.2⟩
  · intro hshort other heligible
    have hsame := heligible.found.symm.trans lookup_snippedMessage
    cases hsame
    cases hshort with
    | inl hlength => exact absurd heligible.long (not_lt.mpr hlength)
    | inr hcount => exact absurd heligible.lines (not_lt.mpr hcount)

/-- One old message is snipped for good, or not at all. -/
theorem snipOld_iff :
    (Snipped message (snipOld builtins manager message) ∧
      (isTool message = true →
        snipMessage builtins manager (snipOld builtins manager message) = none)) ↔
    (isTool message = true → ∀ content, Eligible manager message content →
      SnipsForGood builtins manager message content) := by
  constructor
  · rintro ⟨hsnipped, hsettled⟩ htool content heligible
    have hlast := hsettled htool
    rw [snipOld_eligible htool heligible] at hsnipped hlast
    exact ⟨(snipped_iff htool heligible).mp hsnipped, settled_iff.mp hlast⟩
  · intro hgood
    by_cases hsome : isTool message = true ∧ ∃ content, Eligible manager message content
    · obtain ⟨htool, content, heligible⟩ := hsome
      have hcontent := hgood htool content heligible
      rw [snipOld_eligible htool heligible]
      exact ⟨(snipped_iff htool heligible).mpr hcontent.shorter,
        fun _ => settled_iff.mpr hcontent.settled⟩
    · cases htool : isTool message with
      | false =>
          rw [snipOld, htool, if_neg Bool.false_ne_true]
          exact ⟨.same message, fun hcontra => by cases hcontra⟩
      | true =>
          have hnone : ∀ content, ¬ Eligible manager message content :=
            fun content heligible => hsome ⟨htool, content, heligible⟩
          rw [snipOld_of_none hnone]
          exact ⟨.same message, fun _ => snipMessage_eq_none_iff.mpr hnone⟩

end Old

/-! ## Twice -/

theorem snipCut_snipped :
    snipCut manager.snipKeepRecentTools 0 (snipToolOutputs builtins manager messages).1.reverse =
      snipCut manager.snipKeepRecentTools 0 messages.reverse := by
  apply snipCut_congr
  rw [map_reverse, map_reverse, snipToolOutputs_eq, map_append, map_map]
  have hsame : callsTools ∘ snipOld builtins manager = callsTools := by
    funext message
    exact callsTools_snipOld
  rw [hsame, ← map_append, oldMessages, take_append_drop]

theorem oldMessages_snipped :
    oldMessages manager (snipToolOutputs builtins manager messages).1 =
      (oldMessages manager messages).map (snipOld builtins manager) := by
  rw [oldMessages, snipCut_snipped, snipToolOutputs_eq]
  apply take_left'
  rw [length_map, length_oldMessages]

theorem again_iff :
    snipToolOutputs builtins manager (snipToolOutputs builtins manager messages).1 =
        ((snipToolOutputs builtins manager messages).1, false) ↔
      ∀ message ∈ oldMessages manager messages, isTool message = true →
        snipMessage builtins manager (snipOld builtins manager message) = none := by
  have hquiet : (snipToolOutputs builtins manager
      (snipToolOutputs builtins manager messages).1).2 = false ↔
      ∀ message ∈ oldMessages manager messages, isTool message = true →
        snipMessage builtins manager (snipOld builtins manager message) = none := by
    rw [snipToolOutputs_eq, oldMessages_snipped, any_map, any_eq_false]
    apply forall₂_congr
    intro message hmessage
    rw [Function.comp_apply, isTool_snipOld, Bool.and_eq_true, not_and, Bool.not_eq_true,
      Option.isSome_eq_false_iff, Option.isNone_iff_eq_none]
  constructor
  · intro hsame
    exact hquiet.mp (congrArg Prod.snd hsame)
  · intro hnone
    apply Prod.ext
    · rw [snipToolOutputs_eq builtins manager (snipToolOutputs builtins manager messages).1,
        oldMessages_snipped, snipCut_snipped]
      conv_lhs => rw [snipToolOutputs_eq]
      conv_rhs => rw [snipToolOutputs_eq]
      dsimp only
      rw [drop_left' (by rw [length_map, length_oldMessages]), map_map]
      congr 1
      apply map_congr_left
      intro message hmessage
      rw [Function.comp_apply]
      cases htool : isTool message with
      | false => rw [snipOld, isTool_snipOld, htool, if_neg Bool.false_ne_true]
      | true =>
          rw [snipOld, hnone message hmessage htool, Option.getD_none, ite_self]
    · exact hquiet.mpr hnone

theorem forall₂_snipped_iff :
    List.Forall₂ Snipped messages (snipToolOutputs builtins manager messages).1 ↔
      ∀ message ∈ oldMessages manager messages,
        Snipped message (snipOld builtins manager message) := by
  have heach : List.Forall₂ Snipped (oldMessages manager messages)
      ((oldMessages manager messages).map (snipOld builtins manager)) ↔
        ∀ message ∈ oldMessages manager messages,
          Snipped message (snipOld builtins manager message) := by
    rw [forall₂_map_right_iff, forall₂_same]
  rw [snipToolOutputs_eq, ← heach]
  constructor
  · intro hsnipped
    have hfront := forall₂_take_append _ _ _ hsnipped
    rw [length_map, length_oldMessages] at hfront
    exact hfront
  · intro hold
    have hrecent : List.Forall₂ Snipped
        (messages.drop (snipCut manager.snipKeepRecentTools 0 messages.reverse))
        (messages.drop (snipCut manager.snipKeepRecentTools 0 messages.reverse)) :=
      forall₂_same.mpr fun message _ => .same message
    have hwhole := rel_append hold hrecent
    dsimp only at hwhole
    rwa [oldMessages, take_append_drop] at hwhole

end Lists

/-- Snipping shortens only contents of results and does so once, exactly when every long old
result is snipped for good. -/
theorem snip_settles_iff (builtins : Builtins) (manager : ContextManager) (messages : List Dict) :
    (List.Forall₂ Snipped messages (snipToolOutputs builtins manager messages).1 ∧
      snipToolOutputs builtins manager (snipToolOutputs builtins manager messages).1 =
        ((snipToolOutputs builtins manager messages).1, false)) ↔
      ∀ message ∈ oldMessages manager messages, isTool message = true →
        ∀ content, Eligible manager message content →
          SnipsForGood builtins manager message content := by
  rw [again_iff, forall₂_snipped_iff, ← forall₂_and]
  apply forall₂_congr
  intro message _
  exact snipOld_iff

/-! ## One short line between long ones -/

/-- Six lines of 250 characters around a line of one. -/
def sevenLines : Text :=
  joinLines (List.replicate 3 (List.replicate 250 (ofChar 'x')) ++ [lit "y"] ++
    List.replicate 3 (List.replicate 250 (ofChar 'z')))

def sevenLinesRead : List Dict :=
  [spoken "user" "read it", callMessage "call_1",
    [(lit "role", .str (lit "tool")), (lit "tool_call_id", .str (lit "call_1")),
      (lit "content", .str sevenLines)],
    callMessage "call_2", resultMessage "call_2" "done", callMessage "call_3",
    resultMessage "call_3" "done"]

def sevenLinesSnipped : Text :=
  snippedText (splitLines sevenLines)
    (snipNote ReplayEnvelope.noBuiltins (resultMessage "call_1" "") 7)

/-- The note is longer than the line it stands for, and the result is snipped again. -/
theorem snip_lengthens_sevenLines :
    let once := snipToolOutputs ReplayEnvelope.noBuiltins unbounded sevenLinesRead
    (¬ List.Forall₂ Snipped sevenLinesRead once.1) ∧
      (snipToolOutputs ReplayEnvelope.noBuiltins unbounded once.1).2 = true := by
  have hagain : (snipToolOutputs ReplayEnvelope.noBuiltins unbounded
      (snipToolOutputs ReplayEnvelope.noBuiltins unbounded sevenLinesRead).1).2 = true := by
    decide +kernel
  refine ⟨fun hsnipped => ?_, hagain⟩
  have hplace : 2 < (snipToolOutputs ReplayEnvelope.noBuiltins unbounded
      sevenLinesRead).1.length := by
    decide +kernel
  have hresult := hsnipped.get (i := 2) (by decide) hplace
  have hafter : ((snipToolOutputs ReplayEnvelope.noBuiltins unbounded
      sevenLinesRead).1[2]?.bind (lookup (lit "content"))) = some (.str sevenLinesSnipped) := by
    decide +kernel
  have hbefore : (sevenLinesRead[2]?.bind (lookup (lit "content"))) = some (.str sevenLines) := by
    decide +kernel
  rw [getElem?_eq_getElem hplace, Option.bind_some] at hafter
  rw [getElem?_eq_getElem (by decide), Option.bind_some] at hbefore
  rw [get_eq_getElem, get_eq_getElem] at hresult
  have hlength : sevenLinesSnipped.length ≤ sevenLines.length :=
    hresult.length_le hbefore hafter
  have hlonger : sevenLines.length < sevenLinesSnipped.length := by
    decide +kernel
  exact absurd hlength (not_le.mpr hlonger)

end ReuleauxCoder.Context
