import ReuleauxCoder.Providers.AnthropicHistory

/-!
# Merged messages

Blocks are merged into the last message or begin a new one, so that roles alternate.  A message
that uses tools is closed by the results behind it, since they come from the user.
-/

namespace ReuleauxCoder.Providers

open Check PyText PyJson Context Exchanges
open List hiding lookup

/-! ## Merging -/

theorem mergeMessage_nil (role : Text) (blocks : List Json) :
    mergeMessage [] role blocks = [⟨role, blocks⟩] := rfl

theorem mergeMessage_concat (initial : List NativeMessage) (last : NativeMessage) (role : Text)
    (blocks : List Json) :
    mergeMessage (initial ++ [last]) role blocks =
      initial ++ if last.role = role then [⟨role, last.content ++ blocks⟩]
        else [last, ⟨role, blocks⟩] := by
  rw [mergeMessage, getLast?_concat, dropLast_concat]
  by_cases hrole : last.role = role
  · subst hrole
    simp
  · simp [hrole]

theorem mergeMessage_singleton (last : NativeMessage) (role : Text) (blocks : List Json) :
    mergeMessage [last] role blocks =
      if last.role = role then [⟨role, last.content ++ blocks⟩] else [last, ⟨role, blocks⟩] :=
  mergeMessage_concat [] last role blocks

theorem mergeMessage_cons_cons (first second : NativeMessage) (rest : List NativeMessage)
    (role : Text) (blocks : List Json) :
    mergeMessage (first :: second :: rest) role blocks =
      first :: mergeMessage (second :: rest) role blocks := by
  obtain ⟨initial, last, hlast⟩ := eq_nil_or_concat (second :: rest) |>.resolve_left
    (cons_ne_nil second rest)
  rw [concat_eq_append] at hlast
  rw [hlast, ← cons_append, mergeMessage_concat, mergeMessage_concat, cons_append]

def rolePieces (message : NativeMessage) : List (Text × Piece) :=
  message.content.map fun block => (message.role, readBlock block)

theorem flatMap_rolePieces_merge (messages : List NativeMessage) (role : Text)
    (blocks : List Json) :
    (mergeMessage messages role blocks).flatMap rolePieces =
      messages.flatMap rolePieces ++ blocks.map fun block => (role, readBlock block) := by
  cases eq_nil_or_concat messages with
  | inl hnil =>
      subst hnil
      simp [mergeMessage_nil, rolePieces]
  | inr hconcat =>
      obtain ⟨initial, last, rfl⟩ := hconcat
      rw [concat_eq_append, mergeMessage_concat]
      split
      next hrole => simp [rolePieces, hrole]
      next => simp [rolePieces]

theorem forall_role_merge {speaks : Text → Prop} {messages : List NativeMessage}
    (hmessages : ∀ message ∈ messages, speaks message.role) {role : Text} (hrole : speaks role)
    (blocks : List Json) :
    ∀ message ∈ mergeMessage messages role blocks, speaks message.role := by
  cases eq_nil_or_concat messages with
  | inl hnil =>
      subst hnil
      exact forall_mem_singleton.mpr hrole
  | inr hconcat =>
      obtain ⟨initial, last, rfl⟩ := hconcat
      rw [concat_eq_append] at hmessages ⊢
      rw [forall_mem_append, forall_mem_singleton] at hmessages
      rw [mergeMessage_concat, forall_mem_append]
      refine ⟨hmessages.1, ?_⟩
      split
      next => exact forall_mem_singleton.mpr hrole
      next => exact forall_mem_cons.mpr ⟨hmessages.2, forall_mem_singleton.mpr hrole⟩

/-- No two messages of one role meet. -/
def Alternates (messages : List NativeMessage) : Prop :=
  messages.IsChain fun first second => first.role ≠ second.role

theorem Alternates.merge {messages : List NativeMessage} (halternates : Alternates messages)
    (role : Text) (blocks : List Json) : Alternates (mergeMessage messages role blocks) := by
  cases eq_nil_or_concat messages with
  | inl hnil =>
      subst hnil
      exact isChain_singleton _
  | inr hconcat =>
      obtain ⟨initial, last, rfl⟩ := hconcat
      rw [concat_eq_append] at halternates ⊢
      obtain ⟨hinitial, -, hmeet⟩ := isChain_append.mp halternates
      rw [mergeMessage_concat]
      split
      next hrole =>
        refine isChain_append.mpr ⟨hinitial, isChain_singleton _, ?_⟩
        intro before hbefore merged hmerged
        cases hmerged
        exact hrole ▸ hmeet before hbefore last rfl
      next hrole =>
        refine isChain_append.mpr ⟨hinitial, ?_, ?_⟩
        · exact .cons_cons hrole (isChain_singleton _)
        · intro before hbefore first hfirst
          cases hfirst
          exact hmeet before hbefore last rfl

/-! ## Tools and their results -/

def UsesTool (message : NativeMessage) : Prop :=
  ∃ block ∈ message.content, isOfType "tool_use" block = true

/-- The message ends with its uses of tools, and the next one begins with just their results;
without strays it has no other results. -/
def ResultsFollow (strays : Prop) (message : NativeMessage) (later : List NativeMessage) : Prop :=
  ∃ opening uses results others rest,
    message = ⟨lit "assistant", opening ++ uses⟩ ∧ later = ⟨lit "user", results ++ others⟩ :: rest ∧
      (∀ block ∈ opening, isOfType "tool_use" block = false) ∧
      (∀ block ∈ uses, isOfType "tool_use" block = true) ∧
      (∀ block ∈ results, isOfType "tool_result" block = true) ∧
      (results.map resultId).Perm (uses.map useId) ∧
      (strays ∨ ∀ block ∈ others, isOfType "tool_result" block = false)

/-- Every message that uses tools is followed by the results. -/
def ToolsAnswered (strays : Prop) : List NativeMessage → Prop
  | [] => True
  | message :: later =>
      (UsesTool message → ResultsFollow strays message later) ∧ ToolsAnswered strays later

variable {uses : List Json}

section Turns

variable {strays : Prop} {message last : NativeMessage} {messages later : List NativeMessage}
  {role : Text} {blocks : List Json}

theorem not_usesTool_of_last (hanswered : ToolsAnswered strays [last]) : ¬ UsesTool last := by
  intro huses
  obtain ⟨opening, uses, results, others, rest, -, hnil, -⟩ := hanswered.1 huses
  cases hnil

theorem ResultsFollow.append (hfollow : ResultsFollow strays message later)
    (more : List NativeMessage) : ResultsFollow strays message (later ++ more) := by
  obtain ⟨opening, uses, results, others, rest, hmessage, rfl, hothers⟩ := hfollow
  exact ⟨opening, uses, results, others, rest ++ more, hmessage, rfl, hothers⟩

/-- What is merged behind the results does not come between a message and them. -/
theorem ResultsFollow.merge (hfollow : ResultsFollow strays message later)
    (hblocks : role = lit "user" →
      strays ∨ ∀ block ∈ blocks, isOfType "tool_result" block = false) :
    ResultsFollow strays message (mergeMessage later role blocks) := by
  obtain ⟨opening, uses, results, others, rest, hmessage, rfl, hopening, huses, hresults, hperm,
    hothers⟩ := hfollow
  cases rest with
  | nil =>
      rw [mergeMessage_singleton]
      split
      next hrole =>
        refine ⟨opening, uses, results, others ++ blocks, [], hmessage, ?_, hopening, huses,
          hresults, hperm, ?_⟩
        · rw [← hrole, append_assoc]
        · cases hothers with
          | inl hstrays => exact .inl hstrays
          | inr hothers =>
              refine (hblocks hrole.symm).imp_right fun hblocks block hblock => ?_
              cases mem_append.mp hblock with
              | inl hmem => exact hothers block hmem
              | inr hmem => exact hblocks block hmem
      next =>
        exact ⟨opening, uses, results, others, [⟨role, blocks⟩], hmessage, rfl, hopening, huses,
          hresults, hperm, hothers⟩
  | cons second rest =>
      rw [mergeMessage_cons_cons]
      exact ⟨opening, uses, results, others, _, hmessage, rfl, hopening, huses, hresults, hperm,
        hothers⟩

theorem not_usesTool_mk (hblocks : ∀ block ∈ blocks, isOfType "tool_use" block = false) :
    ¬ UsesTool ⟨role, blocks⟩ := by
  rintro ⟨block, hblock, huse⟩
  rw [hblocks block hblock] at huse
  cases huse

theorem not_use_of_not_usesTool (hlast : ¬ UsesTool last) :
    ∀ block ∈ last.content, isOfType "tool_use" block = false := by
  intro block hblock
  rw [← Bool.not_eq_true]
  exact fun huse => hlast ⟨block, hblock, huse⟩

/-- Blocks without uses of tools leave the results in their places. -/
theorem ToolsAnswered.merge (hanswered : ToolsAnswered strays messages)
    (huses : ∀ block ∈ blocks, isOfType "tool_use" block = false)
    (hresults : role = lit "user" →
      strays ∨ ∀ block ∈ blocks, isOfType "tool_result" block = false) :
    ToolsAnswered strays (mergeMessage messages role blocks) := by
  induction messages with
  | nil => exact ⟨fun huse => absurd huse (not_usesTool_mk huses), trivial⟩
  | cons first later ih =>
      cases later with
      | nil =>
          have hfirst := not_usesTool_of_last hanswered
          rw [mergeMessage_singleton]
          split
          next =>
            refine ⟨fun huse => absurd huse (not_usesTool_mk ?_), trivial⟩
            rw [forall_mem_append]
            exact ⟨not_use_of_not_usesTool hfirst, huses⟩
          next =>
            exact ⟨fun huse => absurd huse hfirst,
              fun huse => absurd huse (not_usesTool_mk huses), trivial⟩
      | cons second rest =>
          rw [mergeMessage_cons_cons]
          exact ⟨fun huse => (hanswered.1 huse).merge hresults, ih hanswered.2⟩

variable {results : List Json}

theorem toolsAnswered_pair {opening : List Json}
    (hopening : ∀ block ∈ opening, isOfType "tool_use" block = false)
    (huses : ∀ block ∈ uses, isOfType "tool_use" block = true)
    (hresults : ∀ block ∈ results, isOfType "tool_result" block = true)
    (hnone : ∀ block ∈ results, isOfType "tool_use" block = false)
    (hperm : (results.map resultId).Perm (uses.map useId)) :
    ToolsAnswered strays [⟨lit "assistant", opening ++ uses⟩, ⟨lit "user", results⟩] := by
  refine ⟨fun _ => ?_, fun huse => absurd huse (not_usesTool_mk hnone), trivial⟩
  exact ⟨opening, uses, results, [], [], rfl, by rw [append_nil], hopening, huses, hresults,
    hperm, .inr fun block hblock => absurd hblock not_mem_nil⟩

/-- Uses of tools together with their results keep everything answered. -/
theorem ToolsAnswered.exchange {opening : List Json} (hanswered : ToolsAnswered strays messages)
    (hopening : ∀ block ∈ opening, isOfType "tool_use" block = false)
    (huses : ∀ block ∈ uses, isOfType "tool_use" block = true)
    (hresults : ∀ block ∈ results, isOfType "tool_result" block = true)
    (hnone : ∀ block ∈ results, isOfType "tool_use" block = false)
    (hperm : (results.map resultId).Perm (uses.map useId)) :
    ToolsAnswered strays (mergeMessage messages (lit "assistant") (opening ++ uses) ++
      [⟨lit "user", results⟩]) := by
  induction messages with
  | nil => exact toolsAnswered_pair hopening huses hresults hnone hperm
  | cons first later ih =>
      cases later with
      | nil =>
          have hfirst := not_usesTool_of_last hanswered
          rw [mergeMessage_singleton]
          split
          next =>
            rw [← append_assoc]
            refine toolsAnswered_pair ?_ huses hresults hnone hperm
            rw [forall_mem_append]
            exact ⟨not_use_of_not_usesTool hfirst, hopening⟩
          next =>
            exact ⟨fun huse => absurd huse hfirst,
              toolsAnswered_pair hopening huses hresults hnone hperm⟩
      | cons second rest =>
          rw [mergeMessage_cons_cons, cons_append]
          refine ⟨fun huse => ResultsFollow.append (ResultsFollow.merge (hanswered.1 huse) ?_) _,
            ih hanswered.2⟩
          intro hrole
          rw [lit_inj] at hrole
          exact absurd hrole (by decide)

/-- A user message begins behind an assistant message. -/
theorem merge_user_of_assistant (messages : List NativeMessage) (blocks results : List Json) :
    mergeMessage (mergeMessage messages (lit "assistant") blocks) (lit "user") results =
      mergeMessage messages (lit "assistant") blocks ++ [⟨lit "user", results⟩] := by
  have hne : lit "assistant" ≠ lit "user" := by
    rw [Ne, lit_inj]
    decide
  obtain ⟨initial, last, hlast, hrole⟩ : ∃ initial last,
      mergeMessage messages (lit "assistant") blocks = initial ++ [last] ∧
        last.role = lit "assistant" := by
    cases eq_nil_or_concat messages with
    | inl hnil =>
        subst hnil
        exact ⟨[], ⟨lit "assistant", blocks⟩, rfl, rfl⟩
    | inr hconcat =>
        obtain ⟨initial, last, rfl⟩ := hconcat
        rw [concat_eq_append, mergeMessage_concat]
        split
        next => exact ⟨initial, ⟨lit "assistant", last.content ++ blocks⟩, rfl, rfl⟩
        next =>
          refine ⟨initial ++ [last], ⟨lit "assistant", blocks⟩, ?_, rfl⟩
          rw [append_assoc]
          rfl
  rw [hlast, mergeMessage_concat, if_neg (hrole ▸ hne), append_assoc]
  rfl

theorem foldl_results (initial : List NativeMessage) (content results : List Json) :
    (results.map fun result => some (lit "user", [result])).foldl addEntry
        (initial ++ [⟨lit "user", content⟩]) =
      initial ++ [⟨lit "user", content ++ results⟩] := by
  induction results generalizing content with
  | nil => rw [map_nil, foldl_nil, append_nil]
  | cons result results ih =>
      rw [map_cons, foldl_cons, addEntry, mergeMessage_concat, if_pos rfl, ih,
        append_assoc, singleton_append]

/-- The results behind an assistant message become one message of the user. -/
theorem foldl_results_of_assistant (hne : results ≠ []) (messages : List NativeMessage)
    (blocks : List Json) :
    (results.map fun result => some (lit "user", [result])).foldl addEntry
        (mergeMessage messages (lit "assistant") blocks) =
      mergeMessage messages (lit "assistant") blocks ++ [⟨lit "user", results⟩] := by
  cases results with
  | nil => exact absurd rfl hne
  | cons result results =>
      rw [map_cons, foldl_cons, addEntry, merge_user_of_assistant, foldl_results,
        singleton_append]

end Turns

section Histories

variable {builtins : Builtins} {strays : Prop} {source : List Json}
  {entries : List (Option (Text × List Json))}

theorem isOfType_toolResult (type : String) (id : Text) (content : Json) :
    isOfType type (toolResult id content) = true ↔ "tool_result" = type := by
  simp [isOfType, toolResult, field, lit_inj]

theorem not_use_toolResult (id : Text) (content : Json) :
    isOfType "tool_use" (toolResult id content) = false := by
  rw [Bool.eq_false_iff, Ne, isOfType_toolResult]
  decide

theorem resultId_toolResult (id : Text) (content : Json) :
    resultId (toolResult id content) = id := by
  simp [resultId, toolResult, Json.getD, lookup, lit_inj, textOf]

/-- The entries of tool messages are their results. -/
theorem results_of_entries (hentries : List.Forall₂ (NativeEntry builtins) source entries)
    (htools : ∀ message ∈ source, isTool message = true) :
    ∃ results : List Json, entries = results.map (fun result => some (lit "user", [result])) ∧
      (∀ block ∈ results, isOfType "tool_result" block = true) ∧
      (∀ block ∈ results, isOfType "tool_use" block = false) ∧
      (results.map resultId).map some = source.map (messageProtocol builtins).answer := by
  induction hentries with
  | nil => exact ⟨[], rfl, by simp, by simp, rfl⟩
  | cons hentry _ ih =>
      rw [forall_mem_cons] at htools
      obtain ⟨results, rfl, hresults, hnone, hids⟩ := ih htools.2
      have hrole : roleOf _ = .str (lit "tool") := of_decide_eq_true htools.1
      cases hentry with
      | result htool hcontent =>
          refine ⟨_ :: results, rfl, ?_, ?_, ?_⟩
          · exact forall_mem_cons.mpr ⟨(isOfType_toolResult _ _ _).mpr rfl, hresults⟩
          · exact forall_mem_cons.mpr ⟨not_use_toolResult _ _, hnone⟩
          · rw [map_cons, map_cons, map_cons, hids, resultId_toolResult,
              answer_of_isTool htool]
      | system hsystem =>
          rw [hrole, Json.str.injEq, lit_inj] at hsystem
          exact absurd hsystem (by decide)
      | spoken hspoken hspeaker =>
          rw [hrole, Json.str.injEq] at hspoken
          subst hspoken
          rw [lit_inj, lit_inj] at hspeaker
          exact absurd hspeaker (by decide)

theorem uses_of_calls {calls : List Json} (huses : List.Forall₂ (UseOf builtins) calls uses) :
    (∀ block ∈ uses, isOfType "tool_use" block = true) ∧
      uses.map useId = calls.map (callId builtins) := by
  induction huses with
  | nil => exact ⟨fun block hblock => absurd hblock not_mem_nil, rfl⟩
  | cons huse _ ih =>
      rw [forall_mem_cons, map_cons, map_cons, huse.id, ih.2]
      exact ⟨⟨huse.used, ih.1⟩, rfl⟩

variable {entry : Option (Text × List Json)}

theorem addEntry_spoken_answered {messages : List NativeMessage}
    (hanswered : ToolsAnswered strays messages) {message : Json}
    (hentry : NativeEntry builtins message entry) (hcalls : callsOf message = [])
    (hstray : isTool message = true → strays) :
    ToolsAnswered strays (addEntry messages entry) := by
  cases hentry with
  | system => exact hanswered
  | result htool =>
      refine hanswered.merge ?_ fun _ => .inl (hstray htool)
      rw [forall_mem_singleton]
      exact not_use_toolResult _ _
  | @spoken role parts uses hrole hspeaker hplain hparts huses =>
      rw [hcalls, forall₂_nil_left_iff] at huses
      subst huses
      have hall : ∀ block ∈ (if parts ++ [] = [] then [emptyText] else parts ++ []),
          Plain block := by
        split
        · rw [forall_mem_singleton]
          exact plain_textBlock []
        · rwa [append_nil]
      exact hanswered.merge (fun block hblock => (hall block hblock).1)
        fun _ => .inr fun block hblock => (hall block hblock).2

/-- After a valid history every use of a tool is answered. -/
theorem toolsAnswered_foldl {messages : List NativeMessage}
    (hvalid : Answered (messageProtocol builtins) False strays source)
    (hcallers : ∀ message ∈ source, callsOf message ≠ [] →
      roleOf message = .str (lit "assistant"))
    (hentries : List.Forall₂ (NativeEntry builtins) source entries)
    (hanswered : ToolsAnswered strays messages) :
    ToolsAnswered strays (entries.foldl addEntry messages) := by
  induction hvalid generalizing entries messages with
  | nil =>
      cases hentries
      exact hanswered
  | quiet hquiet _ ih =>
      cases hentries with
      | cons hentry hrest =>
          rw [forall_mem_cons] at hcallers
          rw [foldl_cons]
          refine ih hcallers.2 hrest (addEntry_spoken_answered hanswered hentry
            (calls_eq_nil_iff.mp hquiet.1) fun htool => ?_)
          have hanswer := hquiet.2
          rw [answer_of_isTool htool] at hanswer
          cases hanswer
  | stray hstrays hcalls _ _ ih =>
      cases hentries with
      | cons hentry hrest =>
          rw [forall_mem_cons] at hcallers
          rw [foldl_cons]
          exact ih hcallers.2 hrest (addEntry_spoken_answered hanswered hentry
            (calls_eq_nil_iff.mp hcalls) fun _ => hstrays)
  | @exchange callers answers rest hnonempty htogether hcalls hanswers hperm _ ih =>
      obtain ⟨caller, rfl⟩ := length_eq_one_iff.mp (htogether.resolve_right id)
      rw [append_assoc, singleton_append] at hentries hcallers
      cases hentries with
      | cons hentry hlater =>
          obtain ⟨outputs, later, rfl, houtputs, hrest⟩ := forall₂_append_left hlater
          have htools : ∀ message ∈ answers, isTool message = true := fun message hmessage =>
            isTool_of_answer (answer_ne_none_of_perm hperm message hmessage)
          obtain ⟨results, rfl, hresults, hnone, hids⟩ := results_of_entries houtputs htools
          have hcaller := forall_mem_singleton.mp hcalls
          rw [forall_mem_cons, forall_mem_append] at hcallers
          have hrole := hcallers.1 (mt calls_eq_nil_iff.mpr hcaller.1)
          rw [foldl_cons, foldl_append]
          apply ih hcallers.2.2 hrest
          cases hentry with
          | system hsystem =>
              rw [hrole, Json.str.injEq, lit_inj] at hsystem
              exact absurd hsystem (by decide)
          | result htool =>
              have hanswer := hcaller.2
              rw [answer_of_isTool htool] at hanswer
              cases hanswer
          | @spoken role parts uses hspoken hspeaker hplain hparts huses =>
              rw [hrole, Json.str.injEq] at hspoken
              subst hspoken
              obtain ⟨hused, huseIds⟩ := uses_of_calls huses
              rw [flatMap_singleton, ← hids] at hperm
              have hperm' : (results.map resultId).Perm (uses.map useId) := by
                rw [huseIds]
                exact (map_perm_map_iff (Option.some_injective Text)).mp hperm
              have hne : parts ++ uses ≠ [] := by
                intro hnil
                rw [append_eq_nil_iff] at hnil
                rw [hnil.2, map_nil] at huseIds
                exact hcaller.1 huseIds.symm
              have hresultsNe : results ≠ [] := by
                rintro rfl
                have hnil := hperm'.nil_eq
                rw [huseIds] at hnil
                exact hcaller.1 hnil.symm
              rw [if_neg hne, addEntry, foldl_results_of_assistant hresultsNe]
              exact hanswered.exchange (fun block hblock => (hplain block hblock).1) hused hresults
                hnone hperm'

theorem readBlock_toolResult (id : Text) (content : Json) :
    readBlock (toolResult id content) = .result id (resultParts content) := by
  simp [readBlock, isOfType, toolResult, resultId, field, Json.getD, lookup, lit_inj, textOf]

theorem map_readBlock_plain {blocks : List Json} (hplain : ∀ block ∈ blocks, Plain block) :
    blocks.map readBlock = (blocks.map anthropicPart).map .part := by
  rw [map_map]
  exact map_congr_left fun block hblock => readBlock_plain (hplain block hblock)

theorem map_readBlock_uses {calls : List Json} (huses : List.Forall₂ (UseOf builtins) calls uses) :
    uses.map readBlock = calls.map (inputPiece builtins) := by
  induction huses with
  | nil => rfl
  | cons huse _ ih => rw [map_cons, map_cons, huse.read, ih]

/-- The blocks of an entry say what its message says. -/
theorem rolePieces_entry {message : Json} (hentry : NativeEntry builtins message entry)
    (messages : List NativeMessage) :
    (addEntry messages entry).flatMap rolePieces =
      messages.flatMap rolePieces ++ nativePieces builtins message := by
  cases hentry with
  | system hsystem => rw [nativePieces, if_pos hsystem, append_nil, addEntry]
  | result htool hcontent =>
      have hother : roleOf message ≠ .str (lit "system") := by
        rw [show roleOf message = .str (lit "tool") from of_decide_eq_true htool, Ne,
          Json.str.injEq, lit_inj]
        decide
      rw [addEntry, flatMap_rolePieces_merge, map_singleton, readBlock_toolResult, hcontent,
        nativePieces, if_neg hother, if_pos htool]
  | @spoken role parts uses hrole hspeaker hplain hparts huses =>
      have hother : roleOf message ≠ .str (lit "system") ∧ ¬ isTool message = true := by
        rw [isTool, decide_eq_true_eq, hrole, Ne, Json.str.injEq, Json.str.injEq]
        cases hspeaker with
        | inl hrole => simp [hrole, lit_inj]
        | inr hrole => simp [hrole, lit_inj]
      have hread : (parts ++ uses).map readBlock =
          (spokenParts (message.getD (lit "content"))).map .part ++
            (callsOf message).map (inputPiece builtins) := by
        rw [map_append, map_readBlock_plain hplain, hparts, map_readBlock_uses huses]
      have hempty : readBlock emptyText = .part (some (.text [])) := by
        rw [emptyText, readBlock_plain (plain_textBlock []), anthropicPart_textBlock]
      rw [addEntry, flatMap_rolePieces_merge, nativePieces, if_neg hother.1, if_neg hother.2, hrole,
        ← hread, orEmptyText]
      by_cases hnil : parts ++ uses = []
      · simp [hnil, hempty, textOf]
      · rw [if_neg hnil, if_neg (mt map_eq_nil_iff.mp hnil), map_map]
        rfl

def Speaks (role : Text) : Prop :=
  role = lit "user" ∨ role = lit "assistant"

theorem addEntry_keeps {message : Json} (hentry : NativeEntry builtins message entry)
    {messages : List NativeMessage} (hroles : ∀ message ∈ messages, Speaks message.role)
    (halternates : Alternates messages) :
    (∀ message ∈ addEntry messages entry, Speaks message.role) ∧
      Alternates (addEntry messages entry) := by
  cases hentry with
  | system => exact ⟨hroles, halternates⟩
  | result => exact ⟨forall_role_merge hroles (.inl rfl) _, halternates.merge _ _⟩
  | spoken _ hspeaker => exact ⟨forall_role_merge hroles hspeaker _, halternates.merge _ _⟩

theorem foldl_addEntry (hentries : List.Forall₂ (NativeEntry builtins) source entries)
    {messages : List NativeMessage} (hroles : ∀ message ∈ messages, Speaks message.role)
    (halternates : Alternates messages) :
    (∀ message ∈ entries.foldl addEntry messages, Speaks message.role) ∧
      Alternates (entries.foldl addEntry messages) ∧
        (entries.foldl addEntry messages).flatMap rolePieces =
          messages.flatMap rolePieces ++ source.flatMap (nativePieces builtins) := by
  induction hentries generalizing messages with
  | nil => exact ⟨hroles, halternates, (append_nil _).symm⟩
  | cons hentry _ ih =>
      obtain ⟨hadded, hmeet⟩ := addEntry_keeps hentry hroles halternates
      obtain ⟨hspeak, hrest, hpieces⟩ := ih hadded hmeet
      refine ⟨hspeak, hrest, ?_⟩
      rw [foldl_cons, hpieces, rolePieces_entry hentry, flatMap_cons, append_assoc]

/-- What an Anthropic request keeps of a history. -/
structure AnthropicKeeps (builtins : Builtins) (strays : Prop) (source : List Json)
    (system : Option Text) (messages : List NativeMessage) : Prop where
  roles : ∀ message ∈ messages, Speaks message.role
  alternates : Alternates messages
  pieces : messages.flatMap rolePieces = source.flatMap (nativePieces builtins)
  apart : system = systemText (source.flatMap systemTexts)
  answered : ToolsAnswered strays messages

/-- An Anthropic request keeps a valid history. -/
theorem anthropicMessages_keeps {system : Option Text} {messages : List NativeMessage}
    (hvalid : ValidHistory builtins strays source)
    (hmessages : anthropicMessages builtins source = .ok (system, messages)) :
    AnthropicKeeps builtins strays source system messages := by
  simp only [anthropicMessages, bind_eq_ok, pure_eq_ok, Prod.mk.injEq] at hmessages
  obtain ⟨state, hstate, rfl, rfl⟩ := hmessages
  obtain ⟨entries, hentries, hadded, hparts⟩ := foldlM_convertNative hvalid.callers hstate
  have hnone : ∀ message ∈ ([] : List NativeMessage), Speaks message.role :=
    fun message hmessage => absurd hmessage not_mem_nil
  obtain ⟨hroles, halternates, hpieces⟩ := foldl_addEntry hentries hnone isChain_nil
  rw [hadded, hparts]
  exact ⟨hroles, halternates, hpieces, rfl,
    toolsAnswered_foldl hvalid.answered hvalid.callers hentries trivial⟩

end Histories

end ReuleauxCoder.Providers
