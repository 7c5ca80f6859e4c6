import ReuleauxCoder.Context.ForcedCompaction

/-!
# What a collapse gains

A collapse summarizes everything before the last two rounds.  Its guard counts messages, but the
split counts rounds, and reconciling the rest adds a result for every call that lacks one; so it
is the rounds and the open calls that decide whether a collapse makes the history any shorter.
-/

namespace ReuleauxCoder.Context

open PyText PyJson Adjacency ToolHistory
open List hiding take

/-! ## Rounds -/

theorem groupRounds_ne_nil {groups : List (List Dict)} {current : List Dict}
    (hgroups : ∀ group ∈ groups, group ≠ []) (currentHasAssistant : Bool) (messages : List Dict) :
    ∀ group ∈ groupRounds groups current currentHasAssistant messages, group ≠ [] := by
  induction messages generalizing groups current currentHasAssistant with
  | nil =>
      rw [groupRounds]
      split
      · exact hgroups
      · rename_i hcurrent
        intro group hgroup
        cases mem_append.mp hgroup with
        | inl hmem => exact hgroups group hmem
        | inr hmem => exact mem_singleton.mp hmem ▸ hcurrent
  | cons message rest ih =>
      rw [groupRounds]
      split
      · rename_i hstarts
        simp only [Bool.and_eq_true, decide_eq_true_eq] at hstarts
        apply ih
        intro group hgroup
        cases mem_append.mp hgroup with
        | inl hmem => exact hgroups group hmem
        | inr hmem => exact mem_singleton.mp hmem ▸ hstarts.1.2
      · exact ih hgroups _

theorem mem_groupApiRounds {messages group : List Dict}
    (hgroup : group ∈ groupApiRounds messages) : group ≠ [] :=
  groupRounds_ne_nil (fun _ hmem => by cases hmem) false messages group hgroup

theorem recentRoundStart_pos {messages : List Dict} :
    0 < recentRoundStart messages 2 ↔ 2 < (groupApiRounds messages).length := by
  rw [recentRoundStart, if_neg (by decide)]
  dsimp only
  split
  · omega
  · rename_i hrounds
    have hmore : 2 < (groupApiRounds messages).length := by omega
    refine iff_of_true ?_ hmore
    have hfront : 0 < (groupApiRounds messages).length - (2 : ℤ).toNat := by
      have htwo : (2 : ℤ).toNat = 2 := rfl
      omega
    obtain ⟨first, rest, hgroups⟩ := exists_cons_of_length_pos (by omega :
      0 < (groupApiRounds messages).length)
    have hfirst : first ≠ [] := mem_groupApiRounds (hgroups ▸ mem_cons_self)
    obtain ⟨count, hcount⟩ := Nat.exists_eq_succ_of_ne_zero hfront.ne'
    rw [hcount, hgroups, Nat.succ_eq_add_one, take_succ_cons, map_cons, sum_cons]
    have hpositive := length_pos_iff.mpr hfirst
    omega

theorem recentRoundStart_le (messages : List Dict) (keep : ℤ) :
    recentRoundStart messages keep ≤ messages.length := by
  rw [recentRoundStart]
  split
  · exact le_refl _
  dsimp only
  split
  · exact Nat.zero_le _
  · calc
      (((groupApiRounds messages).take _).map List.length).sum
          ≤ ((groupApiRounds messages).map List.length).sum :=
        ((take_sublist _ _).map _).sum_le_sum (fun _ _ => Nat.zero_le _)
      _ = messages.length := by
        rw [← length_flatten, flatten_groupApiRounds]

/-! ## The collapsed list -/

/-- The messages that a collapse keeps. -/
def lastRounds (messages : List Dict) : List Dict :=
  messages.drop (recentRoundStart messages 2)

/-- How many messages are left of a list when every call has one result and every result a
call. -/
def reconciledLength (builtins : Builtins) (messages : List Dict) : ℕ :=
  messages.countP (fun message => !isTool message) +
    (messages.map fun message => ((toolCalls builtins message).getD []).length).sum

section Lengths

variable {environment : Environment} {manager : ContextManager} {messages : List Dict}

theorem length_callsOf (builtins : Builtins) (missing : MissingToolContent)
    (messages : List Dict) :
    ((protocol builtins missing).callsOf messages).length =
      (messages.map fun message => ((toolCalls builtins message).getD []).length).sum := by
  induction messages with
  | nil => rfl
  | cons message rest ih =>
      have hcalls : (protocol builtins missing).callsOf (message :: rest) =
          (protocol builtins missing).calls message ++
            (protocol builtins missing).callsOf rest := by
        rw [Protocol.callsOf, Protocol.others, filter_cons]
        cases htool : isTool message with
        | true =>
            have hnone : (protocol builtins missing).calls message = [] :=
              calls_eq_nil_of_isTool builtins htool
            rw [if_neg (by simp [protocol, htool]), hnone, nil_append]
            rfl
        | false =>
            rw [if_pos (by simp [protocol, htool]), flatMap_cons]
            rfl
      rw [hcalls, length_append, ih, map_cons, sum_cons]
      rfl

theorem length_normalizeHistory {builtins : Builtins} {reason : String}
    {normalized : List Dict} (hnormalized : normalizeHistory builtins messages reason =
      some normalized) : normalized.length = reconciledLength builtins messages := by
  obtain ⟨result, hresult, rfl⟩ := Option.map_eq_some_iff.mp hnormalized
  rw [repaired_of_reconcile hresult, Protocol.length_repaired, length_callsOf, reconciledLength,
    countP_eq_length_filter]
  rfl

theorem reconciledLength_summary (builtins : Builtins) (kind : CheckpointKind) (summary : Text)
    (messages : List Dict) :
    reconciledLength builtins (summaryMessage kind summary :: messages) =
      reconciledLength builtins messages + 1 := by
  rw [reconciledLength, countP_cons, isTool_summaryMessage, map_cons,
    toolCalls_summaryMessage, sum_cons, reconciledLength]
  simp
  omega

theorem length_hardCollapse {replacement : List Dict}
    (hcollapsed : (environment.hardCollapse manager messages).1 = some replacement) :
    replacement.length = reconciledLength environment.builtins (lastRounds messages) + 1 := by
  obtain ⟨summary, -, hnormalized⟩ := Option.bind_eq_some_iff.mp hcollapsed
  rw [length_normalizeHistory hnormalized, reconciledLength_summary]
  rfl

theorem length_predict (environment : Environment) (manager : ContextManager)
    (messages : List Dict) : (environment.predict manager messages).2.length = messages.length := by
  simpa using congrArg List.length (predict_kept environment manager messages)

end Lengths

/-! ## Calls that collapse -/

/-- The two ways in name the layer differently. -/
def OfCollapse (checkpoint : CompactionCheckpoint) : Prop :=
  CheckpointKind.fullRecovery.name ∈ checkpoint.strategy ∨ lit "collapse" ∈ checkpoint.strategy

variable {call : Call}

section Progress

variable (environment : Environment) (manager : ContextManager) (messages : List Dict)

/-- The call commits a hard collapse. -/
def Collapses (call : Call) : Prop :=
  ∃ checkpoint, (environment.compress manager messages call).manager.checkpoints =
    manager.checkpoints ++ [checkpoint] ∧ OfCollapse checkpoint

/-- A call has collapsed a part of the history, and left no more messages than there were before
the call and before its collapse. -/
structure Progress (call : Call) (collapsed : List Dict) : Prop where
  front : collapsed.take (recentRoundStart collapsed 2) ≠ []
  fewer : (environment.compress manager messages call).messages.length ≤ messages.length
  within : (environment.compress manager messages call).messages.length ≤ collapsed.length

/-- There are rounds in front of the last two, and these leave a place for the summary when every
call has got its result. -/
structure HasRoom (builtins : Builtins) (messages collapsed : List Dict) : Prop where
  rounds : 2 < (groupApiRounds collapsed).length
  fewer : reconciledLength builtins (lastRounds collapsed) < messages.length
  within : reconciledLength builtins (lastRounds collapsed) < collapsed.length

variable {environment manager messages}

variable {layers : List Text}

theorem snipLayers_layers {replaced : List Dict}
    (hlayers : environment.snipLayers manager messages = some (replaced, layers)) :
    ∀ layer ∈ layers, layer = lit "provider_tool_cache_compaction" ∨
      layer = lit "snip_tool_outputs" := by
  have hsnipped : ∀ candidate (before : List Text),
      (∀ layer ∈ before, layer = lit "provider_tool_cache_compaction") →
      layers = (if (snipToolOutputs environment.builtins manager candidate).2 then
        before ++ [lit "snip_tool_outputs"] else before) →
      ∀ layer ∈ layers, layer = lit "provider_tool_cache_compaction" ∨
        layer = lit "snip_tool_outputs" := by
    intro candidate before hbefore hsame layer hlayer
    rw [hsame] at hlayer
    split at hlayer
    · cases mem_append.mp hlayer with
      | inl hmem => exact .inl (hbefore layer hmem)
      | inr hmem => exact .inr (mem_singleton.mp hmem)
    · exact .inl (hbefore layer hlayer)
  rw [Environment.snipLayers] at hlayers
  cases hcompactor : environment.compactor with
  | none =>
      rw [hcompactor] at hlayers
      exact hsnipped messages [] (fun _ hmem => by cases hmem)
        (congrArg Prod.snd (Option.some.inj hlayers)).symm
  | some compact =>
      rw [hcompactor] at hlayers
      obtain ⟨answer, -, hanswer⟩ := Option.bind_eq_some_iff.mp hlayers
      cases answer with
      | none =>
          exact hsnipped messages [] (fun _ hmem => by cases hmem)
            (congrArg Prod.snd (Option.some.inj hanswer)).symm
      | some compacted =>
          exact hsnipped compacted [_] (fun _ hmem => mem_singleton.mp hmem)
            (congrArg Prod.snd (Option.some.inj hanswer)).symm

theorem prepared_layers {candidate : List Dict} {semanticDue emergencyDue : Bool} {snipGain : ℤ}
    (hprepared : environment.prepared manager messages =
      some (candidate, layers, semanticDue, emergencyDue, snipGain)) :
    ∀ layer ∈ layers, layer = lit "provider_tool_cache_compaction" ∨
      layer = lit "snip_tool_outputs" := by
  rw [Environment.prepared] at hprepared
  split at hprepared
  · cases hprepared
  dsimp only at hprepared
  split at hprepared
  · cases hprepared
  rename_i hlayered
  split at hprepared
  · cases hprepared
  cases hprepared
  split at hlayered
  · exact snipLayers_layers hlayered
  · cases hlayered
    intro layer hlayer
    cases hlayer

/-- A rewriting with the layer of a collapse has collapsed its candidate. -/
theorem rewriteHistory_collapses {candidate : List Dict} {semanticDue emergencyDue : Bool}
    {snipGain : ℤ} {later : ContextManager} {rewritten : Rewrite}
    (hrewritten : environment.rewriteHistory manager candidate layers semanticDue emergencyDue
      snipGain = (later, some (some rewritten)))
    (hlayers : ∀ layer ∈ layers, layer = lit "provider_tool_cache_compaction" ∨
      layer = lit "snip_tool_outputs")
    (hcollapse : CheckpointKind.fullRecovery.name ∈ rewritten.layers ∨
      lit "collapse" ∈ rewritten.layers) :
    ∃ collapsed current replacement,
      environment.collapseCandidate manager candidate semanticDue emergencyDue = some collapsed ∧
      (environment.hardCollapse current collapsed).1 = some replacement ∧
      rewritten.messages.length = replacement.length := by
  rw [Environment.rewriteHistory] at hrewritten
  rw [Environment.collapseCandidate]
  generalize environment.summarizeLayer manager candidate semanticDue = layer at hrewritten ⊢
  rcases layer with ⟨middle, _ | ⟨summarizedCandidate, summarized⟩⟩
  · cases hrewritten
  dsimp only at hrewritten ⊢
  generalize environment.predict middle summarizedCandidate = predicted
    at hrewritten ⊢
  rcases predicted with ⟨_ | afterTokens, counted⟩
  · cases hrewritten
  dsimp only at hrewritten ⊢
  split at hrewritten
  · cases hrewritten
  split at hrewritten
  · rename_i hdue
    rw [if_pos hdue]
    rw [Environment.collapseLayer] at hrewritten
    have hsome := congrArg Prod.snd hrewritten
    dsimp only at hsome
    obtain ⟨committed, hcommitted, hsame⟩ := Option.map_eq_some_iff.mp hsome
    obtain ⟨replacement, hreplacement, hrest⟩ := Option.bind_eq_some_iff.mp hcommitted
    obtain ⟨tokens, -, hrewrite⟩ := Option.bind_eq_some_iff.mp hrest
    refine ⟨counted, middle, replacement, rfl, hreplacement, ?_⟩
    rw [← Option.some.inj hsame, ← Option.some.inj hrewrite]
    exact length_predict environment { middle with
      consecutiveSummaryFailures := (environment.hardCollapse middle counted).2 } replacement
  · cases hrewritten
    have hnamed : ∀ layer ∈ layers, layer ≠ CheckpointKind.fullRecovery.name ∧
        layer ≠ lit "collapse" := by
      intro layer hlayer
      cases hlayers layer hlayer with
      | inl hname => exact hname ▸ (by decide)
      | inr hname => exact hname ▸ (by decide)
    have hother : ∀ layer ∈ (if summarized then layers ++ [CheckpointKind.partialPrefix.name]
        else layers), layer ≠ CheckpointKind.fullRecovery.name ∧ layer ≠ lit "collapse" := by
      intro layer hlayer
      split at hlayer
      · cases mem_append.mp hlayer with
        | inl hmem => exact hnamed layer hmem
        | inr hmem => exact mem_singleton.mp hmem ▸ (by decide)
      · exact hnamed layer hlayer
    cases hcollapse with
    | inl hmem => exact absurd rfl (hother _ hmem).1
    | inr hmem => exact absurd rfl (hother _ hmem).2

/-- A committed collapse leaves the summary and the reconciled last two rounds of the list it has
been given. -/
theorem Collapses.length_eq (hcollapses : Collapses environment manager messages call) :
    ∃ collapsed, environment.collapseInput manager messages call = some collapsed ∧
      (environment.compress manager messages call).messages.length =
        reconciledLength environment.builtins (lastRounds collapsed) + 1 := by
  obtain ⟨checkpoint, hcommits, hkind⟩ := hcollapses
  cases call with
  | maybe =>
      obtain ⟨candidate, layers, semanticDue, emergencyDue, snipGain, later, rewritten, hprepared,
        hrewritten, hstrategy, hmessages⟩ := maybeCompress_commits hcommits
      rw [OfCollapse, hstrategy] at hkind
      obtain ⟨collapsed, current, replacement, hcandidate, hreplacement, hlength⟩ :=
        rewriteHistory_collapses hrewritten (prepared_layers hprepared) hkind
      refine ⟨collapsed, ?_, ?_⟩
      · rw [Environment.collapseInput, hprepared]
        exact hcandidate
      · rw [Environment.compress, hmessages, hlength]
        exact length_hardCollapse hreplacement
  | force strategy =>
      obtain ⟨later, replaced, afterTokens, hlayer, hcounted, hstrategy⟩ :=
        forceCompress_commits hcommits
      rw [OfCollapse, hstrategy, mem_singleton, mem_singleton] at hkind
      have hreplaced : (environment.predict later replaced).2.length = replaced.length :=
        length_predict environment later replaced
      rw [hcounted] at hreplaced
      rw [Environment.collapseInput, Environment.compress, hreplaced]
      generalize (environment.predict manager messages).2 = counted at hlayer ⊢
      rw [Environment.forceLayer] at hlayer
      cases hkind with
      | inl hname =>
          rw [← hname, if_neg (by decide), if_neg (by decide), if_neg (by decide)] at hlayer
          cases hlayer
      | inr hname =>
          rw [← hname, if_neg (by decide), if_neg (by decide), if_pos rfl] at hlayer
          split at hlayer
          · cases hlayer
          rename_i hlong
          dsimp only at hlayer
          split at hlayer
          · cases hlayer
          rename_i hreplacement
          cases hlayer
          refine ⟨counted, if_pos ⟨hname.symm, not_le.mp hlong⟩, ?_⟩
          exact length_hardCollapse hreplacement

theorem progress_iff {collapsed : List Dict}
    (hlength : (environment.compress manager messages call).messages.length =
      reconciledLength environment.builtins (lastRounds collapsed) + 1) :
    Progress environment manager messages call collapsed ↔
      HasRoom environment.builtins messages collapsed := by
  have hfront : collapsed.take (recentRoundStart collapsed 2) ≠ [] ↔
      2 < (groupApiRounds collapsed).length := by
    rw [← recentRoundStart_pos, ← length_pos_iff, length_take,
      min_eq_left (recentRoundStart_le collapsed 2)]
  constructor
  · intro hprogress
    have hfewer := hprogress.fewer
    have hwithin := hprogress.within
    rw [hlength] at hfewer hwithin
    exact ⟨hfront.mp hprogress.front, hfewer, hwithin⟩
  · intro hroom
    refine ⟨hfront.mpr hroom.rounds, ?_, ?_⟩
    · rw [hlength]
      exact hroom.fewer
    · rw [hlength]
      exact hroom.within

theorem length_snipToolOutputs (builtins : Builtins) :
    (snipToolOutputs builtins manager messages).1.length = messages.length := by
  simp [snipToolOutputs]

theorem length_forceLayer {strategy : Text} {later : ContextManager} {left : List Dict}
    (hlayer : environment.forceLayer manager messages strategy = (later, left, some false)) :
    left.length = messages.length := by
  rw [Environment.forceLayer] at hlayer
  split at hlayer
  · have hleft : (snipToolOutputs environment.builtins manager messages).1 = left :=
      congrArg (fun layered => layered.2.1) hlayer
    rw [← hleft]
    exact length_snipToolOutputs environment.builtins
  split at hlayer
  · dsimp only at hlayer
    split at hlayer
    · cases hlayer
    · cases hlayer
      rfl
    · cases hlayer
  split at hlayer
  · split at hlayer
    · cases hlayer
      rfl
    · dsimp only at hlayer
      split at hlayer <;> cases hlayer
  · cases hlayer
    rfl

/-- A call that returns false changes no more than cached counts. -/
theorem length_of_returned_false
    (hidle : (environment.compress manager messages call).outcome = .returned false) :
    (environment.compress manager messages call).messages.length = messages.length := by
  cases call with
  | maybe =>
      have hatomic := maybeCompress_atomic environment manager messages
      rw [Environment.compress] at hidle ⊢
      rw [Atomic, hidle] at hatomic
      simpa using congrArg List.length hatomic.messages
  | force strategy =>
      rw [Environment.compress] at hidle ⊢
      have hcounted := length_predict environment manager messages
      rw [Environment.forceCompress] at hidle ⊢
      generalize environment.predict manager messages = predicted at hcounted hidle ⊢
      obtain ⟨tokens, counted⟩ := predicted
      cases tokens with
      | none => cases hidle
      | some beforeTokens =>
          dsimp only at hcounted hidle ⊢
          rw [← hcounted]
          split at hidle
          · cases hidle
          rename_i hshown
          rw [if_neg hshown]
          split at hidle
          · cases hidle
          · rename_i hlayer
            exact length_forceLayer hlayer
          · split at hidle
            · cases hidle
            · rw [Environment.commitForced, Environment.commit] at hidle
              dsimp only at hidle
              split at hidle <;> cases hidle

end Progress

/-! ## Calls in a row -/

/-- Compactions one after the other, each in an environment of its own: they change nothing, or
commit a hard collapse that had room. -/
inductive CollapseRun (start : ContextManager × List Dict) : ContextManager → List Dict → Prop
  | start : CollapseRun start start.1 start.2
  | idle {manager : ContextManager} {messages : List Dict} (environment : Environment)
      (call : Call) (hrun : CollapseRun start manager messages)
      (hidle : (environment.compress manager messages call).outcome = .returned false) :
      CollapseRun start (environment.compress manager messages call).manager
        (environment.compress manager messages call).messages
  | collapse {manager : ContextManager} {messages : List Dict} (environment : Environment)
      (call : Call) (hrun : CollapseRun start manager messages)
      (hcollapses : Collapses environment manager messages call)
      (hroom : ∀ collapsed, environment.collapseInput manager messages call = some collapsed →
        HasRoom environment.builtins messages collapsed) :
      CollapseRun start (environment.compress manager messages call).manager
        (environment.compress manager messages call).messages

theorem CollapseRun.length_le {start : ContextManager × List Dict} {manager : ContextManager}
    {messages : List Dict} (hrun : CollapseRun start manager messages) :
    messages.length ≤ start.2.length := by
  induction hrun with
  | start => exact le_refl _
  | idle environment call _ hidle ih => exact (length_of_returned_false hidle).trans_le ih
  | collapse environment call _ hcollapses hroom ih =>
      obtain ⟨collapsed, hinput, hlength⟩ := hcollapses.length_eq
      exact ((progress_iff hlength).mpr (hroom collapsed hinput)).fewer.trans ih

/-- A committed collapse makes progress exactly when it has room, and so collapses with room never
make a history longer. -/
theorem collapse_progress (environment : Environment) (manager : ContextManager)
    (messages : List Dict) (call : Call) :
    (Collapses environment manager messages call →
      ∃ collapsed, environment.collapseInput manager messages call = some collapsed ∧
        (Progress environment manager messages call collapsed ↔
          HasRoom environment.builtins messages collapsed)) ∧
      ∀ start later history, CollapseRun start later history →
        history.length ≤ start.2.length := by
  constructor
  · intro hcollapses
    obtain ⟨collapsed, hinput, hlength⟩ := hcollapses.length_eq
    exact ⟨collapsed, hinput, progress_iff hlength⟩
  · intro start later history hrun
    exact hrun.length_le

/-! ## Two rounds of five messages -/

def shortExchange : List Dict :=
  [spoken "user" "first", callMessage "call_1", resultMessage "call_1" "output",
    spoken "assistant" "done", spoken "user" "second"]

theorem Collapses.of_strategy {environment : Environment} {manager : ContextManager}
    {messages : List Dict} (strategy : List Text) (hfresh : manager.checkpoints = [])
    (hstrategy : (environment.compress manager messages call).manager.checkpoints.map
      CompactionCheckpoint.strategy = [strategy])
    (hkind : CheckpointKind.fullRecovery.name ∈ strategy ∨ lit "collapse" ∈ strategy) :
    Collapses environment manager messages call := by
  obtain ⟨checkpoint, hcheckpoint, rfl⟩ := map_eq_singleton_iff.mp hstrategy
  refine ⟨checkpoint, ?_, hkind⟩
  rw [hcheckpoint, hfresh]
  rfl

theorem collapses_shortExchange :
    Collapses (replying "earlier") unbounded shortExchange (.force (lit "collapse")) :=
  .of_strategy [lit "collapse"] rfl (by decide +kernel) (by decide +kernel)

theorem collapses_exchange :
    Collapses (replying "earlier") unbounded (exchange ++ exchange) (.force (lit "collapse")) :=
  .of_strategy [lit "collapse"] rfl (by decide +kernel) (by decide +kernel)

theorem collapse_progress_exchange :
    ∃ collapsed, Progress (replying "earlier") unbounded (exchange ++ exchange)
      (.force (lit "collapse")) collapsed := by
  obtain ⟨collapsed, hinput, hprogress⟩ := (collapse_progress _ _ _ _).1 collapses_exchange
  have hcollapsed : collapsed = ((replying "earlier").predict unbounded (exchange ++ exchange)).2 :=
    (Option.some.inj hinput).symm
  refine ⟨collapsed, hprogress.mpr ?_⟩
  rw [hcollapsed]
  exact ⟨by decide +kernel, by decide +kernel, by decide +kernel⟩

/-- Nothing stands before the last two rounds, so the summary is one message more. -/
theorem collapse_grows_shortExchange :
    Collapses (replying "earlier") unbounded shortExchange (.force (lit "collapse")) ∧
      ((replying "earlier").compress unbounded shortExchange
        (.force (lit "collapse"))).messages.length = 6 ∧
      ¬ ∃ collapsed, Progress (replying "earlier") unbounded shortExchange
        (.force (lit "collapse")) collapsed := by
  have hlength : ((replying "earlier").compress unbounded shortExchange
      (.force (lit "collapse"))).messages.length = 6 := by decide +kernel
  refine ⟨collapses_shortExchange, hlength, ?_⟩
  rintro ⟨collapsed, hprogress⟩
  have hfewer := hprogress.fewer
  rw [hlength] at hfewer
  exact absurd hfewer (by decide)

end ReuleauxCoder.Context
