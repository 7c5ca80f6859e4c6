import ReuleauxCoder.Providers.Responses

/-!
# The breakpoint of an explicit cache

An explicit cache sends what the other mode sends, with one breakpoint at the last stable text.
The search for that text refuses the output of a tool that is given as blocks, so it is told
from the messages where the search ends.
-/

namespace ReuleauxCoder.Providers

open Check PyText PyJson Context LastMatch Failing

/-! ## Where a breakpoint belongs -/

/-- The item holds input text, as a block or as the text of a tool output. -/
def HoldsText : Json → Prop
  | .obj item =>
      (∃ blocks, field item "content" = .arr blocks ∧ ∃ block ∈ blocks, isOfType "input_text" block)
        ∨ field item "type" = .str (lit "function_call_output") ∧
          ((∃ text, field item "output" = .str text) ∨
            ∃ blocks, field item "output" = .arr blocks ∧
              ∃ block ∈ blocks, isOfType "input_text" block)
  | _ => False

/-- One list of blocks is another with a breakpoint at its last input text. -/
def MarksBlocks (blocks marked : List Json) : Prop :=
  ∃ front block back, blocks = front ++ .obj block :: back ∧
    marked = front ++ .obj (store breakpointKey explicitBreakpoint block) :: back ∧
    isOfType "input_text" (.obj block) ∧ ∀ later ∈ back, ¬ isOfType "input_text" later

/-- One item is another with a breakpoint at its last input text. -/
inductive MarksItem : Json → Json → Prop
  | content {item : Dict} {blocks marked : List Json}
      (hcontent : field item "content" = .arr blocks) (hmarks : MarksBlocks blocks marked) :
      MarksItem (.obj item) (.obj (store (lit "content") (.arr marked) item))
  | outputBlocks {item : Dict} {blocks marked : List Json}
      (htype : field item "type" = .str (lit "function_call_output"))
      (houtput : field item "output" = .arr blocks) (hmarks : MarksBlocks blocks marked) :
      MarksItem (.obj item) (.obj (store (lit "output") (.arr marked) item))
  | outputText {item : Dict} {text : Text}
      (htype : field item "type" = .str (lit "function_call_output"))
      (houtput : field item "output" = .str text) :
      MarksItem (.obj item) (.obj (store (lit "output") (markedOutput text) item))

/-- The last item that holds input text is marked, and no other item is changed. -/
def Breakpointed (stable marked : List Json) : Prop :=
  ∃ front item changed back, stable = front ++ item :: back ∧ marked = front ++ changed :: back ∧
    MarksItem item changed ∧ ∀ later ∈ back, ¬ HoldsText later

/-- The explicit cache sends `items` with one breakpoint, in the stable part. -/
def SentWithBreakpoint (builtins : Builtins) (messages : List Json) (volatileTailCount : ℤ)
    (items : List Json) : Prop :=
  ∃ stable marked rest, items = stable ++ rest ∧
    responsesInput builtins (.arr (stableMessages messages volatileTailCount)) 0
      (lit "implicit") = .ok stable ∧
    Breakpointed stable marked ∧
    responsesInput builtins (.arr messages) volatileTailCount (lit "explicit") =
      .ok (marked ++ rest)

/-! ## Where the search ends -/

/-- A block of a replayed item that the search passes. -/
def BlockPasses : Json → Prop
  | .obj block => field block "type" ≠ .str (lit "input_text")
  | _ => False

def ContentPasses : Json → Prop
  | .arr blocks => ∀ block ∈ blocks, BlockPasses block
  | _ => True

def ContentOffers : Json → Prop
  | .arr blocks => Reaches (fun block => isOfType "input_text" block) BlockPasses blocks
  | _ => False

def ItemPasses : Json → Prop
  | .obj item =>
      ContentPasses (field item "content") ∧
        field item "type" ≠ .str (lit "function_call_output")
  | _ => False

def ItemOffers : Json → Prop
  | .obj item =>
      ContentOffers (field item "content") ∨
        ContentPasses (field item "content") ∧
          field item "type" = .str (lit "function_call_output") ∧
            ∃ text, field item "output" = .str text
  | _ => False

/-- A content with some text. -/
def hasText (content : Json) : Bool :=
  (contentParts content).any (isOfType "text")

/-- The message has no place for a breakpoint, and no tool output. -/
def MessagePasses : Json → Prop
  | .obj message =>
      match field message "role" with
      | .str role =>
          if role = lit "tool" then False
          else if role = lit "assistant" then
            ∀ items, replayItems role message = some (.arr items) → ∀ item ∈ items, ItemPasses item
          else hasText (field message "content") = false
      | _ => False
  | _ => False

/-- The message has a place for a breakpoint: a tool output that is a text, input text, or what
an assistant message replays. -/
def MessageOffers : Json → Prop
  | .obj message =>
      match field message "role" with
      | .str role =>
          if role = lit "tool" then ∃ text, field message "content" = .str text
          else if role = lit "assistant" then
            ∃ items, replayItems role message = some (.arr items) ∧
              Reaches ItemOffers ItemPasses items
          else hasText (field message "content") = true
      | _ => False
  | _ => False

/-! ## Blocks and items -/

variable {block content : Json} {role : Text} {blocks items : List Json} {builtins : Builtins}

theorem markBlock_eq_none_iff : markBlock block = .ok none ↔ BlockPasses block := by
  cases block with
  | obj fields =>
      by_cases htype : field fields "type" = .str (lit "input_text")
      · simp [markBlock, BlockPasses, htype]
      · simp [markBlock, BlockPasses, htype]
  | _ => exact iff_of_false (fun hok => by cases hok) fun hpasses => hpasses

variable {changed item output : Json} {id : Text}

theorem markBlock_eq_some_iff :
    markBlock block = .ok (some changed) ↔
      ∃ fields, block = .obj fields ∧ isOfType "input_text" block = true ∧
        changed = .obj (store breakpointKey explicitBreakpoint fields) := by
  cases block with
  | obj fields =>
      by_cases htype : field fields "type" = .str (lit "input_text")
      · simp [markBlock, isOfType, htype, eq_comm]
      · simp [markBlock, isOfType, htype]
  | _ =>
      refine iff_of_false (fun hok => by cases hok) ?_
      rintro ⟨fields, hblock, -⟩
      cases hblock

theorem exists_markBlock_iff :
    (∃ changed, markBlock block = .ok (some changed)) ↔ isOfType "input_text" block = true := by
  constructor
  · rintro ⟨changed, hchanged⟩
    obtain ⟨fields, -, htext, -⟩ := markBlock_eq_some_iff.mp hchanged
    exact htext
  · intro htext
    cases block with
    | obj fields => exact ⟨_, markBlock_eq_some_iff.mpr ⟨fields, rfl, htext, rfl⟩⟩
    | _ => cases htext

theorem BlockPasses.not_text (hpasses : BlockPasses block) : ¬ isOfType "input_text" block := by
  cases block with
  | obj fields => exact fun htext => hpasses (of_decide_eq_true htext)
  | _ => exact fun htext => nomatch htext

theorem markContent_eq_none_iff : markContent content = .ok none ↔ ContentPasses content := by
  cases content with
  | arr blocks =>
      rw [markContent, markLast_eq_none_iff]
      simp only [markBlock_eq_none_iff, ContentPasses]
  | _ => exact iff_of_true rfl trivial

theorem exists_markContent_iff :
    (∃ blocks, markContent content = .ok (some blocks)) ↔ ContentOffers content := by
  cases content with
  | arr blocks =>
      rw [markContent, exists_markLast_iff]
      simp only [markBlock_eq_none_iff, exists_markBlock_iff, ContentOffers]
  | _ =>
      refine iff_of_false ?_ fun hoffers => hoffers
      rintro ⟨blocks, hok⟩
      cases hok

theorem marksBlocks_of_markContent {marked : List Json}
    (hmark : markContent content = .ok (some marked)) :
    ∃ blocks, content = .arr blocks ∧ MarksBlocks blocks marked := by
  cases content with
  | arr blocks =>
      rw [markContent, markLast_eq_some_iff] at hmark
      obtain ⟨front, item, changed, back, hblocks, hmarked, hitem, hback⟩ := hmark
      obtain ⟨fields, rfl, htext, rfl⟩ := markBlock_eq_some_iff.mp hitem
      refine ⟨blocks, rfl, front, fields, back, hblocks, hmarked, htext, ?_⟩
      intro later hlater
      exact (markBlock_eq_none_iff.mp (hback later hlater)).not_text
  | _ => cases hmark

theorem markOutput_eq_none_iff {item : Dict} :
    markOutput item = .ok none ↔ field item "type" ≠ .str (lit "function_call_output") := by
  rw [markOutput]
  split
  next htype =>
    refine iff_of_false ?_ (not_not_intro htype)
    cases field item "output" <;> simp
  next htype => exact iff_of_true rfl htype

theorem markOutput_eq_some_iff {item : Dict} :
    markOutput item = .ok (some changed) ↔
      field item "type" = .str (lit "function_call_output") ∧
        ∃ text, field item "output" = .str text ∧
          changed = .obj (store (lit "output") (markedOutput text) item) := by
  rw [markOutput]
  split
  next htype => cases field item "output" <;> simp [htype, eq_comm]
  next htype => exact iff_of_false (fun hok => by cases hok) fun hand => htype hand.1

theorem markItem_eq_none_iff : markItem item = .ok none ↔ ItemPasses item := by
  cases item with
  | obj fields =>
      rw [ItemPasses, ← markContent_eq_none_iff, ← markOutput_eq_none_iff, markItem]
      cases markContent (field fields "content") with
      | error error => simp
      | ok blocks => cases blocks <;> simp
  | _ => exact iff_of_false (fun hok => by cases hok) fun hpasses => hpasses

theorem markItem_eq_some_iff {fields : Dict} :
    markItem (.obj fields) = .ok (some changed) ↔
      (∃ blocks, markContent (field fields "content") = .ok (some blocks) ∧
          changed = .obj (store (lit "content") (.arr blocks) fields)) ∨
        markContent (field fields "content") = .ok none ∧
          markOutput fields = .ok (some changed) := by
  rw [markItem]
  cases markContent (field fields "content") with
  | error error => simp
  | ok blocks => cases blocks <;> simp [eq_comm]

theorem exists_markItem_iff :
    (∃ changed, markItem item = .ok (some changed)) ↔ ItemOffers item := by
  cases item with
  | obj fields =>
      simp only [markItem_eq_some_iff, exists_or, ItemOffers, ← exists_markContent_iff,
        ← markContent_eq_none_iff, markOutput_eq_some_iff]
      apply or_congr
      · constructor
        · rintro ⟨changed, blocks, hblocks, -⟩
          exact ⟨blocks, hblocks⟩
        · rintro ⟨blocks, hblocks⟩
          exact ⟨_, blocks, hblocks, rfl⟩
      · constructor
        · rintro ⟨changed, hnone, htype, text, htext, -⟩
          exact ⟨hnone, htype, text, htext⟩
        · rintro ⟨hnone, htype, text, htext⟩
          exact ⟨_, hnone, htype, text, htext, rfl⟩
  | _ =>
      refine iff_of_false ?_ fun hoffers => hoffers
      rintro ⟨changed, hok⟩
      cases hok

theorem marksItem_of_markItem (hmark : markItem item = .ok (some changed)) :
    MarksItem item changed := by
  cases item with
  | obj fields =>
      cases markItem_eq_some_iff.mp hmark with
      | inl hcontent =>
          obtain ⟨marked, hmarked, rfl⟩ := hcontent
          obtain ⟨blocks, hblocks, hmarks⟩ := marksBlocks_of_markContent hmarked
          exact .content hblocks hmarks
      | inr houtput =>
          obtain ⟨htype, text, htext, rfl⟩ := markOutput_eq_some_iff.mp houtput.2
          exact .outputText htype htext
  | _ => cases hmark

theorem ItemPasses.not_holdsText (hpasses : ItemPasses item) : ¬ HoldsText item := by
  cases item with
  | obj fields =>
      rintro (⟨blocks, hblocks, block, hblock, htext⟩ | ⟨htype, -⟩)
      · have hcontent := hpasses.1
        rw [hblocks] at hcontent
        exact (hcontent block hblock).not_text htext
      · exact hpasses.2 htype
  | _ => exact fun hholds => hholds

/-- The search marks the last input text, where it does not refuse an item behind it. -/
theorem mark_eq_ok_iff {stable : List Json} :
    (∃ marked, markResponsesCacheBreakpoint stable = .ok marked) ↔
      Reaches ItemOffers ItemPasses stable := by
  have hreaches : (∃ marked, markLast markItem stable = .ok (some marked)) ↔
      Reaches (fun item => ∃ changed, markItem item = .ok (some changed))
        (fun item => markItem item = .ok none) stable := exists_markLast_iff
  simp only [markItem_eq_none_iff, exists_markItem_iff] at hreaches
  rw [← hreaches, markResponsesCacheBreakpoint]
  cases markLast markItem stable with
  | error error => simp
  | ok walked => cases walked <;> simp

theorem breakpointed_of_mark {stable marked : List Json}
    (hmark : markResponsesCacheBreakpoint stable = .ok marked) : Breakpointed stable marked := by
  have hwalk : markLast markItem stable = .ok (some marked) := by
    rw [markResponsesCacheBreakpoint] at hmark
    cases hwalk : markLast markItem stable with
    | error error =>
        rw [hwalk] at hmark
        cases hmark
    | ok walked =>
        rw [hwalk] at hmark
        cases walked with
        | none => cases hmark
        | some items =>
            cases hmark
            rfl
  obtain ⟨front, item, changed, back, hstable, hmarked, hitem, hback⟩ :=
    markLast_eq_some_iff.mp hwalk
  refine ⟨front, item, changed, back, hstable, hmarked, marksItem_of_markItem hitem, ?_⟩
  intro later hlater
  exact (markItem_eq_none_iff.mp (hback later hlater)).not_holdsText

/-! ## The items of a message -/

theorem blockPasses_iff {part : Json} (hblock : ResponsesBlock role part block) :
    BlockPasses block ↔ ¬ isOfType "input_text" block = true := by
  cases hblock with
  | text => simp [BlockPasses, isOfType, textBlock]
  | image => simp [BlockPasses, isOfType, inputImage]

theorem isText_iff (hrole : role ≠ lit "assistant") {part : Json}
    (hblock : ResponsesBlock role part block) :
    isOfType "input_text" block = true ↔ isOfType "text" part = true := by
  cases hblock with
  | text htype _ =>
      refine iff_of_true ?_ (by simp [isOfType, htype])
      rw [isOfType_textBlock, responsesBlockType, if_neg hrole]
  | image _ htype =>
      refine iff_of_false ?_ (by simp [isOfType, htype, lit_inj])
      rw [isOfType_inputImage]
      decide

theorem itemPasses_messageItem :
    ItemPasses (messageItem role blocks) ↔ ∀ block ∈ blocks, BlockPasses block := by
  simp [ItemPasses, messageItem, field, lookup, lit_inj, ContentPasses]

theorem itemOffers_messageItem :
    ItemOffers (messageItem role blocks) ↔
      Reaches (fun block => isOfType "input_text" block) BlockPasses blocks := by
  simp [ItemOffers, messageItem, field, lookup, lit_inj, ContentOffers]

theorem itemPasses_functionCallItem {name arguments : Text} :
    ItemPasses (functionCallItem id name arguments) := by
  simp [ItemPasses, functionCallItem, field, lookup, lit_inj, ContentPasses]

theorem not_itemOffers_functionCallItem {name arguments : Text} :
    ¬ ItemOffers (functionCallItem id name arguments) := by
  simp [ItemOffers, functionCallItem, field, lookup, lit_inj, ContentOffers]

theorem not_itemPasses_functionCallOutput : ¬ ItemPasses (functionCallOutput id output) := by
  simp [ItemPasses, functionCallOutput, field, lookup, lit_inj]

theorem itemOffers_functionCallOutput :
    ItemOffers (functionCallOutput id output) ↔ ∃ text, output = .str text := by
  simp [ItemOffers, functionCallOutput, field, lookup, lit_inj, ContentOffers, ContentPasses]

/-- Blocks converted from a content hold input text where the content has text. -/
theorem reaches_blocks_iff (hrole : role ≠ lit "assistant")
    (hblocks : responsesTextBlocks role content = .ok blocks) :
    Reaches (fun block => isOfType "input_text" block) BlockPasses blocks ↔
      hasText content = true := by
  have hall := responsesTextBlocks_eq_ok hblocks
  have hreaches : Reaches (fun part => isOfType "text" part)
      (fun part => ¬ isOfType "text" part = true) (contentParts content) ↔
        Reaches (fun block => isOfType "input_text" block) BlockPasses blocks := by
    apply reaches_iff_of_forall₂
    · exact hall.imp fun part block hblock => (isText_iff hrole hblock).symm
    · exact hall.imp fun part block hblock =>
        (not_congr (isText_iff hrole hblock).symm).trans (blockPasses_iff hblock).symm
  rw [← hreaches, reaches_iff_exists fun _ _ => Iff.rfl, hasText, List.any_eq_true]

theorem blocks_pass_iff (hrole : role ≠ lit "assistant")
    (hblocks : responsesTextBlocks role content = .ok blocks) :
    (∀ block ∈ blocks, BlockPasses block) ↔ hasText content = false := by
  have hall := responsesTextBlocks_eq_ok hblocks
  have hpasses : (∀ part ∈ contentParts content, ¬ isOfType "text" part = true) ↔
      ∀ block ∈ blocks, BlockPasses block := by
    apply forall_iff_of_forall₂
    exact hall.imp fun part block hblock =>
      (not_congr (isText_iff hrole hblock).symm).trans (blockPasses_iff hblock).symm
  rw [← hpasses, hasText, List.any_eq_false]

theorem assistant_blocks_pass
    (hblocks : responsesTextBlocks (lit "assistant") content = .ok blocks) :
    ∀ block ∈ blocks, BlockPasses block := by
  have hall : List.Forall₂ (fun _ block => True ↔ BlockPasses block) (contentParts content)
      blocks := by
    refine (responsesTextBlocks_eq_ok hblocks).imp fun part block hblock => ?_
    refine iff_of_true trivial ((blockPasses_iff hblock).mpr ?_)
    cases hblock with
    | text =>
        rw [isOfType_textBlock]
        decide
    | image hrole => exact absurd rfl hrole
  exact (forall_iff_of_forall₂ hall).mp fun part _ => trivial

theorem calls_pass {calls : List Json} (hcalls : calls.mapM (responsesCall builtins) = .ok items) :
    ∀ item ∈ items, ItemPasses item ∧ ¬ ItemOffers item := by
  apply forall_of_mapM_ok (fun item => ItemPasses item ∧ ¬ ItemOffers item) hcalls
  intro call item hcall
  cases responsesCall_eq_ok_iff.mp hcall with
  | call => exact ⟨itemPasses_functionCallItem, not_itemOffers_functionCallItem⟩

/-- The search sees a converted message as its content, without the calls. -/
theorem spoken_iff (role : Text) (blocks : List Json) {calls : List Json}
    (hcalls : ∀ item ∈ calls, ItemPasses item ∧ ¬ ItemOffers item) :
    (Reaches ItemOffers ItemPasses
        ((if blocks = [] then [] else [messageItem role blocks]) ++ calls) ↔
      Reaches (fun block => isOfType "input_text" block) BlockPasses blocks) ∧
    ((∀ item ∈ (if blocks = [] then [] else [messageItem role blocks]) ++ calls,
        ItemPasses item) ↔ ∀ block ∈ blocks, BlockPasses block) := by
  rw [reaches_append_left (fun item hitem => (hcalls item hitem).1)
    (fun item hitem => (hcalls item hitem).2), List.forall_mem_append,
    and_iff_left fun item hitem => (hcalls item hitem).1]
  split
  next hnil =>
    subst hnil
    exact ⟨iff_of_false not_reaches_nil not_reaches_nil, by simp⟩
  next =>
    rw [reaches_singleton, List.forall_mem_singleton]
    exact ⟨itemOffers_messageItem, itemPasses_messageItem⟩

theorem toolOutput_eq_str_iff (houtput : toolOutput content = .ok output) :
    (∃ text, output = .str text) ↔ ∃ text, content = .str text := by
  cases content with
  | str text =>
      cases houtput
      exact Iff.rfl
  | _ =>
      refine iff_of_false ?_ fun ⟨text, hsame⟩ => nomatch hsame
      rw [toolOutput, bind_eq_ok] at houtput
      · obtain ⟨blocks, -, hpure⟩ := houtput
        cases hpure
        exact fun ⟨text, hsame⟩ => nomatch hsame
      · exact fun text hsame => nomatch hsame

theorem replayItems_eq_none (hrole : role ≠ lit "assistant") {message : Dict} :
    replayItems role message = none := by
  rw [replayItems]
  split
  · rw [if_neg fun hand => hrole hand.1]
  · rfl

/-- The search sees of the items of a stable message what `MessageOffers` and `MessagePasses`
see of the message. -/
theorem stable_message {message : Json}
    (hitems : responsesItems builtins true message = .ok items) :
    (Reaches ItemOffers ItemPasses items ↔ MessageOffers message) ∧
      ((∀ item ∈ items, ItemPasses item) ↔ MessagePasses message) := by
  cases message with
  | obj fields =>
      rw [responsesItems] at hitems
      cases hfield : field fields "role" with
      | str role =>
          simp only [hfield, if_true] at hitems
          simp only [MessageOffers, MessagePasses, hfield]
          by_cases htool : role = lit "tool"
          · simp only [htool, if_true, bind_eq_ok] at hitems ⊢
            obtain ⟨output, houtput, hpure⟩ := hitems
            cases hpure
            rw [reaches_singleton, List.forall_mem_singleton, itemOffers_functionCallOutput,
              toolOutput_eq_str_iff houtput]
            exact ⟨Iff.rfl, iff_false_intro not_itemPasses_functionCallOutput⟩
          · simp only [htool, if_false] at hitems ⊢
            split at hitems
            next =>
              rw [spokenItems] at hitems
              cases hreplay : replayItems role fields with
              | some value =>
                  have hassistant : role = lit "assistant" := by
                    by_contra hother
                    rw [replayItems_eq_none hother] at hreplay
                    cases hreplay
                  rw [hreplay] at hitems
                  cases value with
                  | arr replayed =>
                      cases hitems
                      simp [hassistant]
                  | _ => cases hitems
              | none =>
                  rw [hreplay] at hitems
                  simp only [bind_eq_ok, pure_eq_ok] at hitems
                  obtain ⟨blocks, hblocks, calls, -, converted, hconverted, rfl⟩ := hitems
                  have hspoken := spoken_iff role blocks (calls_pass hconverted)
                  rw [hspoken.1, hspoken.2]
                  by_cases hassistant : role = lit "assistant"
                  · subst hassistant
                    have hpass := assistant_blocks_pass hblocks
                    refine ⟨iff_of_false ?_ ?_, iff_of_true hpass ?_⟩
                    · intro hreaches
                      obtain ⟨block, hblock, htext⟩ := hreaches.exists_offers
                      exact (hpass block hblock).not_text htext
                    · simp
                    · simp
                  · rw [if_neg hassistant, if_neg hassistant]
                    exact ⟨reaches_blocks_iff hassistant hblocks,
                      blocks_pass_iff hassistant hblocks⟩
            next => cases hitems
      | _ =>
          rw [hfield] at hitems
          cases hitems
  | _ => cases hitems

/-! ## The whole history -/

theorem converts_forall₂ {messages : List Json} (hitems : Converts builtins true messages items) :
    Reaches ItemOffers ItemPasses items ↔ Reaches MessageOffers MessagePasses messages := by
  obtain ⟨lists, hlists, rfl⟩ := hitems
  rw [reaches_flatten]
  symm
  apply reaches_iff_of_forall₂
  · exact hlists.imp fun message list hlist => (stable_message hlist).1.symm
  · exact hlists.imp fun message list hlist => (stable_message hlist).2.symm

theorem stableMessages_zero (messages : List Json) : stableMessages messages 0 = messages := by
  rw [stableMessages, Int.toNat_zero, Nat.sub_zero, List.take_length]

theorem implicit_eq_ok_iff {messages : List Json} :
    responsesInput builtins (.arr messages) 0 (lit "implicit") = .ok items ↔
      Converts builtins true messages items := by
  have hmode : lit "implicit" ≠ lit "explicit" := by
    rw [Ne, lit_inj]
    decide
  rw [responsesInput_eq_ok_iff, and_iff_right ⟨le_rfl, Int.natCast_nonneg _⟩,
    stableMessages_zero]
  have hnone : volatileMessages messages 0 = [] := by
    rw [volatileMessages, Int.toNat_zero, Nat.sub_zero, List.drop_length]
  simp only [hnone, converts_nil_iff, cached, if_neg hmode, Except.ok.injEq]
  constructor
  · rintro ⟨front, back, hfront, rfl, rfl⟩
    rwa [List.append_nil]
  · exact fun hitems => ⟨items, [], hitems, rfl, List.append_nil items⟩

/-- The explicit cache sends what another mode sends, with its breakpoint, exactly where a walk
back from the volatile tail meets a place for it before a tool output given as blocks. -/
theorem explicit_cache_iff {builtins : Builtins} {messages items : List Json}
    {volatileTailCount : ℤ} {cacheMode : Text} (hmode : cacheMode ≠ lit "explicit")
    (hitems : responsesInput builtins (.arr messages) volatileTailCount cacheMode = .ok items) :
    SentWithBreakpoint builtins messages volatileTailCount items ↔
      Reaches MessageOffers MessagePasses (stableMessages messages volatileTailCount) := by
  obtain ⟨hbounds, front, back, hfront, hback, hcached⟩ := responsesInput_eq_ok_iff.mp hitems
  rw [cached, if_neg hmode] at hcached
  cases hcached
  rw [← converts_forall₂ hfront, ← mark_eq_ok_iff]
  constructor
  · rintro ⟨stable, marked, rest, -, -, -, hexplicit⟩
    obtain ⟨-, others, later, hothers, -, hcached⟩ := responsesInput_eq_ok_iff.mp hexplicit
    rw [hothers.unique hfront, cached, if_pos rfl, bind_eq_ok] at hcached
    obtain ⟨found, hfound, -⟩ := hcached
    exact ⟨found, by simpa using hfound⟩
  · rintro ⟨marked, hmarked⟩
    refine ⟨front, marked, back, rfl, implicit_eq_ok_iff.mpr hfront,
      breakpointed_of_mark hmarked, ?_⟩
    rw [responsesInput_eq_ok_iff]
    refine ⟨hbounds, front, back, hfront, hback, ?_⟩
    simp [cached, hmarked]

/-! ## Concrete histories -/

def plainBuiltins : Builtins where
  str := fun _ => []
  int := fun _ => none

def userMessage (text : String) : Json :=
  .obj [(lit "role", .str (lit "user")), (lit "content", .str (lit text))]

/-- The breakpoint goes to the last message in front of the volatile tail. -/
theorem explicit_cache_user_message :
    SentWithBreakpoint plainBuiltins
      [userMessage "first", userMessage "second", userMessage "third"] 1
      [messageItem (lit "user") [textBlock "input_text" (lit "first")],
        messageItem (lit "user") [textBlock "input_text" (lit "second")],
        messageItem (lit "developer") [textBlock "input_text" (lit "third")]] := by
  have hmode : lit "implicit" ≠ lit "explicit" := by
    rw [Ne, lit_inj]
    decide
  apply (explicit_cache_iff hmode rfl).mpr
  exact ⟨[userMessage "first"], userMessage "second", [], rfl, rfl,
    fun later hlater => nomatch hlater⟩

/-- A question, a call of `view_image` and the image it returns. -/
def imageHistory : List Json :=
  [userMessage "look",
    .obj [(lit "role", .str (lit "assistant")), (lit "content", .null),
      (lit "tool_calls", .arr [.obj [(lit "id", .str (lit "0")),
        (lit "function", .obj [(lit "name", .str (lit "view_image")),
          (lit "arguments", .str (lit "\x7b\x7d"))])]])],
    .obj [(lit "role", .str (lit "tool")), (lit "tool_call_id", .str (lit "0")),
      (lit "content", .arr [.obj [(lit "type", .str (lit "image_url")),
        (lit "image_url", .obj [(lit "url", .str (lit "data:image/png;base64,AA=="))])]])]]

def imageItems : List Json :=
  [messageItem (lit "user") [textBlock "input_text" (lit "look")],
    functionCallItem (lit "0") (lit "view_image") (lit "\x7b\x7d"),
    functionCallOutput (lit "0") (.arr [inputImage
      [(lit "url", .str (lit "data:image/png;base64,AA=="))]
      (.str (lit "data:image/png;base64,AA=="))])]

/-- The history ends with an image: it is converted, but not for an explicit cache. -/
theorem explicit_cache_refuses_image :
    responsesInput plainBuiltins (.arr imageHistory) 0 (lit "implicit") = .ok imageItems ∧
      (∃ item ∈ imageItems, HoldsText item) ∧
        ¬ SentWithBreakpoint plainBuiltins imageHistory 0 imageItems := by
  refine ⟨rfl, ⟨messageItem (lit "user") [textBlock "input_text" (lit "look")],
    List.mem_cons_self, .inl ⟨_, rfl, _, List.mem_cons_self, rfl⟩⟩, ?_⟩
  rintro ⟨stable, marked, rest, -, -, -, hexplicit⟩
  have hrefused : responsesInput plainBuiltins (.arr imageHistory) 0 (lit "explicit") =
      .error (.typeError "responses tool output must be text") := rfl
  rw [hrefused] at hexplicit
  cases hexplicit

end ReuleauxCoder.Providers
