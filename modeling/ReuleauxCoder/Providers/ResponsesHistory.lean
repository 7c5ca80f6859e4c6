import ReuleauxCoder.Providers.CacheBreakpoint
import ReuleauxCoder.Providers.History

/-!
# A history as Responses items

The items of a history say what its messages say, and keep each call with its output.  The
breakpoint of an explicit cache changes none of that.
-/

namespace ReuleauxCoder.Providers

open Check PyText PyJson Context Exchanges Failing
open List hiding lookup

/-! ## What items say -/

def blockPart : Json → Option Part
  | .obj block =>
      if field block "type" = .str (lit "input_text") ∨
          field block "type" = .str (lit "output_text") then
        match field block "text" with
        | .str text => some (.text text)
        | _ => none
      else if field block "type" = .str (lit "input_image") then
        some (.image (field block "image_url"))
      else none
  | _ => none

def outputParts : Json → List (Option Part)
  | .str text => [some (.text text)]
  | .arr blocks => blocks.map blockPart
  | _ => []

def arrayItems : Json → List Json
  | .arr blocks => blocks
  | _ => []

def itemPieces : Json → List Piece
  | .obj item =>
      if field item "type" = .str (lit "function_call") then
        [.call (textOf (field item "call_id")) (textOf (field item "name"))
          (field item "arguments")]
      else if field item "type" = .str (lit "function_call_output") then
        [.result (textOf (field item "call_id")) (outputParts (field item "output"))]
      else (arrayItems (field item "content")).map fun block => .part (blockPart block)
  | _ => []

/-- An item is one call or the output of one. -/
def itemProtocol : Protocol Json Text where
  calls item :=
    if isOfType "function_call" item then [textOf (item.getD (lit "call_id"))] else []
  answer item :=
    if isOfType "function_call_output" item then some (textOf (item.getD (lit "call_id")))
    else none

/-! ## The items of a message -/

theorem blockPart_eq {role : Text} {part block : Json} (hblock : ResponsesBlock role part block) :
    blockPart block = partOf part := by
  cases hblock with
  | text htype htext =>
      rw [partOf, if_pos htype, htext, responsesBlockType]
      split <;> simp [textBlock, blockPart, field, lookup, lit_inj]
  | image hrole htype himage hurl =>
      rw [partOf, htype]
      simp [inputImage, blockPart, field, lookup, lit_inj, himage, Json.getD, hurl]

variable {content call item : Json} {items : List Json}

theorem map_blockPart {role : Text} {blocks : List Json}
    (hblocks : responsesTextBlocks role content = .ok blocks) :
    blocks.map blockPart = partsOf content := by
  have hall : List.Forall₂ (fun part block => partOf part = blockPart block)
      (contentParts content) blocks :=
    (responsesTextBlocks_eq_ok hblocks).imp fun _ _ hblock => (blockPart_eq hblock).symm
  rw [partsOf, eq_comm, ← forall₂_eq_eq_eq, forall₂_map_left_iff,
    forall₂_map_right_iff]
  exact hall

theorem itemPieces_messageItem (role : Text) (blocks : List Json) :
    itemPieces (messageItem role blocks) = (blocks.map blockPart).map .part := by
  simp [itemPieces, messageItem, field, lookup, lit_inj, arrayItems]

theorem quiet_messageItem (role : Text) (blocks : List Json) :
    itemProtocol.Quiet (messageItem role blocks) := by
  simp [Protocol.Quiet, itemProtocol, messageItem, isOfType, field, lookup, lit_inj]

theorem itemPieces_functionCallOutput (id : Text) (output : Json) :
    itemPieces (functionCallOutput id output) = [.result id (outputParts output)] := by
  simp [itemPieces, functionCallOutput, field, lookup, lit_inj, textOf]

theorem calls_functionCallOutput (id : Text) (output : Json) :
    itemProtocol.calls (functionCallOutput id output) = [] := by
  simp [itemProtocol, functionCallOutput, isOfType, field, lookup, lit_inj]

theorem answer_functionCallOutput (id : Text) (output : Json) :
    itemProtocol.answer (functionCallOutput id output) = some id := by
  simp [itemProtocol, functionCallOutput, isOfType, field, lookup, lit_inj, textOf, Json.getD]

theorem itemPieces_functionCallItem (id name arguments : Text) :
    itemPieces (functionCallItem id name arguments) = [.call id name (.str arguments)] := by
  simp [itemPieces, functionCallItem, field, lookup, lit_inj, textOf]

theorem itemPieces_call {builtins : Builtins} (hcall : ResponsesCall builtins call item) :
    itemPieces item = [callPiece builtins call] := by
  cases hcall with
  | call hfunction harguments =>
      rw [itemPieces_functionCallItem, callPiece, callId, getD_obj, getD_obj, hfunction, getD_obj,
        getD_obj, harguments]

theorem calls_call {builtins : Builtins} (hcall : ResponsesCall builtins call item) :
    itemProtocol.calls item = [callId builtins call] := by
  cases hcall with
  | call hfunction harguments =>
      simp [itemProtocol, functionCallItem, callId, isOfType, field, lookup, lit_inj, textOf,
        Json.getD]

theorem answer_call {builtins : Builtins} (hcall : ResponsesCall builtins call item) :
    itemProtocol.answer item = none := by
  cases hcall with
  | call hfunction harguments =>
      simp [itemProtocol, functionCallItem, isOfType, field, lookup, lit_inj]

theorem flatMap_calls {builtins : Builtins} {calls : List Json}
    (hitems : calls.mapM (responsesCall builtins) = .ok items) :
    items.flatMap itemPieces = calls.map (callPiece builtins) ∧
      items.flatMap itemProtocol.calls = calls.map (callId builtins) := by
  have hall := (mapM_eq_ok_iff.mp hitems).imp fun _ _ => responsesCall_eq_ok_iff.mp
  clear hitems
  induction hall with
  | nil => exact ⟨rfl, rfl⟩
  | cons hcall _ ih =>
      rw [flatMap_cons, flatMap_cons, itemPieces_call hcall, calls_call hcall, ih.1, ih.2]
      exact ⟨rfl, rfl⟩

theorem calls_items {builtins : Builtins} {calls : List Json}
    (hitems : calls.mapM (responsesCall builtins) = .ok items) :
    ∀ item ∈ items, itemProtocol.calls item ≠ [] ∧ itemProtocol.answer item = none := by
  apply forall_of_mapM_ok (fun item => itemProtocol.calls item ≠ [] ∧
    itemProtocol.answer item = none) hitems
  intro call item hcall
  rw [responsesCall_eq_ok_iff] at hcall
  rw [calls_call hcall]
  exact ⟨cons_ne_nil _ _, answer_call hcall⟩

/-- The message is replayed as the provider sent it. -/
def isReplayed : Json → Bool
  | .obj message => (replayItems (textOf (field message "role")) message).isSome
  | _ => false

/-- The items of a message that is not replayed. -/
inductive MessageItems (builtins : Builtins) (message : Json) : List Json → Prop
  | output {output : Json} (htool : isTool message = true)
      (houtput : outputParts output = partsOf (message.getD (lit "content"))) :
      MessageItems builtins message [functionCallOutput (toolCallId builtins message) output]
  | spoken {opening calls : List Json} (htool : ¬ isTool message = true)
      (hquiet : ∀ item ∈ opening, itemProtocol.Quiet item)
      (hopening : opening.flatMap itemPieces =
        (partsOf (message.getD (lit "content"))).map .part)
      (hcalls : (callsOf message).mapM (responsesCall builtins) = .ok calls) :
      MessageItems builtins message (opening ++ calls)

theorem outputParts_toolOutput {output : Json} (houtput : toolOutput content = .ok output) :
    outputParts output = partsOf content := by
  by_cases htext : ∃ text, content = .str text
  · obtain ⟨text, rfl⟩ := htext
    cases houtput
    simp [outputParts, partsOf, contentParts, partOf, textBlock, field, lookup, lit_inj]
  · have hblocks : ∃ blocks, responsesTextBlocks (lit "user") content = .ok blocks ∧
        .arr blocks = output := by
      cases content with
      | str text => exact absurd ⟨text, rfl⟩ htext
      | _ => simpa only [toolOutput, bind_eq_ok, pure_eq_ok] using houtput
    obtain ⟨blocks, hblocks, rfl⟩ := hblocks
    exact map_blockPart hblocks

theorem messageItems_of_ok {builtins : Builtins} {stable : Bool} {message : Json}
    (hreplay : isReplayed message = false)
    (hitems : responsesItems builtins stable message = .ok items) :
    MessageItems builtins message items := by
  cases message with
  | obj fields =>
      rw [responsesItems] at hitems
      cases hrole : field fields "role" with
      | str role =>
          simp only [hrole] at hitems
          by_cases htool : role = lit "tool"
          · simp only [htool, if_true, bind_eq_ok] at hitems
            obtain ⟨output, houtput, hpure⟩ := hitems
            cases hpure
            refine .output ?_ (outputParts_toolOutput houtput)
            simp [isTool, roleOf, hrole, htool]
          · have hnone : replayItems role fields = none := by
              rw [isReplayed, hrole, Option.isSome_eq_false_iff, Option.isNone_iff_eq_none]
                at hreplay
              exact hreplay
            simp only [htool, if_false] at hitems
            split at hitems
            next =>
              rw [spokenItems, hnone] at hitems
              simp only [bind_eq_ok, pure_eq_ok] at hitems
              obtain ⟨blocks, hblocks, calls, hcalls, converted, hconverted, rfl⟩ := hitems
              have hother : field fields "role" ≠ .str (lit "tool") := by
                rw [hrole]
                exact fun hsame => htool (Json.str.inj hsame)
              rw [← callsOf_of_ok hother hcalls] at hconverted
              refine .spoken (fun hsame => hother (of_decide_eq_true hsame)) ?_ ?_ hconverted
              · split
                · simp
                · rw [forall_mem_singleton]
                  exact quiet_messageItem _ _
              · rw [getD_obj, ← map_blockPart hblocks]
                split
                next hnil => rw [hnil]; rfl
                next => rw [flatMap_singleton, itemPieces_messageItem]
            next => cases hitems
      | _ =>
          rw [hrole] at hitems
          cases hitems
  | _ => cases hitems

theorem MessageItems.pieces {builtins : Builtins} {message : Json}
    (hitems : MessageItems builtins message items) :
    items.flatMap itemPieces = messagePieces builtins message := by
  cases hitems with
  | output htool houtput =>
      rw [flatMap_singleton, itemPieces_functionCallOutput, houtput, messagePieces,
        if_pos htool]
  | spoken htool _ hopening hcalls =>
      rw [flatMap_append, hopening, (flatMap_calls hcalls).1, messagePieces, if_neg htool]

section History

variable {builtins : Builtins} {strays : Prop} {messages : List Json} {lists : List (List Json)}

/-- The lists of items, one for each message. -/
abbrev Itemized (builtins : Builtins) : List Json → List (List Json) → Prop :=
  List.Forall₂ (MessageItems builtins)

theorem Itemized.pieces (hlists : Itemized builtins messages lists) :
    lists.flatten.flatMap itemPieces = messages.flatMap (messagePieces builtins) := by
  induction hlists with
  | nil => rfl
  | cons hitems _ ih =>
      rw [flatten_cons, flatMap_append, flatMap_cons, hitems.pieces, ih]

/-- Tool messages become their outputs, which answer what the messages answer. -/
theorem Itemized.answers (hlists : Itemized builtins messages lists)
    (htools : ∀ message ∈ messages, isTool message = true) :
    (∀ item ∈ lists.flatten, itemProtocol.calls item = []) ∧
      lists.flatten.map itemProtocol.answer = messages.map (messageProtocol builtins).answer := by
  induction hlists with
  | nil => exact ⟨fun item hitem => absurd hitem not_mem_nil, rfl⟩
  | cons hitems _ ih =>
      rw [forall_mem_cons] at htools
      obtain ⟨hcalls, hanswers⟩ := ih htools.2
      cases hitems with
      | output htool houtput =>
          rw [flatten_cons, singleton_append, map_cons, map_cons, hanswers,
            answer_functionCallOutput, answer_of_isTool htool]
          refine ⟨?_, rfl⟩
          rw [forall_mem_cons]
          exact ⟨calls_functionCallOutput _ _, hcalls⟩
      | spoken htool => exact absurd htools.1 htool

/-- The items keep every call with its outputs. -/
theorem Itemized.answered (hanswered : Answered (messageProtocol builtins) False strays messages)
    (hlists : Itemized builtins messages lists) :
    Answered itemProtocol True strays lists.flatten := by
  induction hanswered generalizing lists with
  | nil =>
      cases hlists
      exact .nil
  | quiet hquiet _ ih =>
      cases hlists with
      | cons hitems hrest =>
          rw [flatten_cons]
          cases hitems with
          | output htool => exact absurd (answer_of_isTool htool) (by rw [hquiet.2]; exact nofun)
          | spoken htool hopening _ hcalls =>
              rw [calls_eq_nil_iff.mp hquiet.1, mapM_nil, pure_eq_ok] at hcalls
              rw [← hcalls, append_nil]
              exact .quiet_append hopening (ih hrest)
  | stray hstrays hcalls hanswer _ ih =>
      cases hlists with
      | cons hitems hrest =>
          rw [flatten_cons]
          cases hitems with
          | output htool =>
              refine .stray hstrays (calls_functionCallOutput _ _) ?_ (ih hrest)
              rw [answer_functionCallOutput]
              exact nofun
          | spoken htool => exact absurd (isTool_of_answer hanswer) htool
  | @exchange callers answers rest hcallers htogether hcalls hanswers hperm _ ih =>
      obtain ⟨caller, rfl⟩ := length_eq_one_iff.mp (htogether.resolve_right id)
      rw [append_assoc, singleton_append] at hlists
      cases hlists with
      | cons hitems hlater =>
          obtain ⟨outputs, later, rfl, houtputs, hlater⟩ := forall₂_append_left hlater
          have htools : ∀ message ∈ answers, isTool message = true := fun message hmessage =>
            isTool_of_answer (answer_ne_none_of_perm hperm message hmessage)
          obtain ⟨hsilent, hmap⟩ := Itemized.answers houtputs htools
          have hcaller := forall_mem_singleton.mp hcalls
          cases hitems with
          | output htool => exact absurd (answer_of_isTool htool) (by rw [hcaller.2]; exact nofun)
          | @spoken opening calls htool hopening _ hconverted =>
              rw [flatten_cons, flatten_append, append_assoc, ← append_assoc calls]
              refine .quiet_append hopening (.exchange ?_ (.inr trivial) (calls_items hconverted)
                hsilent ?_ (ih hlater))
              · rintro rfl
                have hids := (flatMap_calls hconverted).2
                exact hcaller.1 hids.symm
              · rw [hmap, (flatMap_calls hconverted).2]
                rwa [flatMap_singleton] at hperm

end History

/-! ## The breakpoint -/

theorem field_store_of_ne {key other : String} (hne : key ≠ other) (value : Json) (fields : Dict) :
    field (store (lit other) value fields) key = field fields key := by
  rw [field, lookup_store_of_ne (mt lit_inj.mp hne), field]

theorem field_store_self (key : String) (value : Json) (fields : Dict) :
    field (store (lit key) value fields) key = value := by
  rw [field, lookup_store_self, Option.getD_some]

theorem MarksBlocks.map_blockPart {blocks marked : List Json} (hmarks : MarksBlocks blocks marked) :
    marked.map blockPart = blocks.map blockPart := by
  obtain ⟨front, block, back, rfl, rfl, -⟩ := hmarks
  have hblock : blockPart (.obj (store breakpointKey explicitBreakpoint block)) =
      blockPart (.obj block) := by
    rw [blockPart, blockPart, breakpointKey, field_store_of_ne (by decide),
      field_store_of_ne (by decide), field_store_of_ne (by decide)]
  rw [map_append, map_append, map_cons, map_cons, hblock]

theorem alike_store {key : String} (htype : "type" ≠ key) (hid : "call_id" ≠ key) (value : Json)
    (item : Dict) :
    Alike itemProtocol itemProtocol (.obj item) (.obj (store (lit key) value item)) := by
  have hof (type : String) :
      isOfType type (.obj (store (lit key) value item)) = isOfType type (.obj item) := by
    rw [isOfType, isOfType, field_store_of_ne htype]
  rw [Alike, itemProtocol]
  simp only [hof, getD_obj, field_store_of_ne hid, and_self]

theorem itemPieces_output {item : Dict}
    (htype : field item "type" = .str (lit "function_call_output")) :
    itemPieces (.obj item) =
      [.result (textOf (field item "call_id")) (outputParts (field item "output"))] := by
  rw [itemPieces, if_neg (by rw [htype, Json.str.injEq, lit_inj]; decide), if_pos htype]

theorem itemPieces_store_output {item : Dict} {output : Json}
    (htype : field item "type" = .str (lit "function_call_output"))
    (hparts : outputParts output = outputParts (field item "output")) :
    itemPieces (.obj (store (lit "output") output item)) = itemPieces (.obj item) := by
  rw [itemPieces_output htype, itemPieces_output, field_store_self, hparts,
    field_store_of_ne (by decide)]
  rw [field_store_of_ne (by decide), htype]

theorem itemPieces_store_content {item : Dict} (hblocks : (arrayItems content).map blockPart =
      (arrayItems (field item "content")).map blockPart) :
    itemPieces (.obj (store (lit "content") content item)) = itemPieces (.obj item) := by
  have hpieces := congrArg (List.map Piece.part) hblocks
  rw [map_map, map_map] at hpieces
  have hne : ∀ key ∈ ["type", "call_id", "name", "arguments", "output"], key ≠ "content" := by
    decide
  simp only [forall_mem_cons] at hne
  rw [itemPieces, itemPieces, field_store_self, field_store_of_ne hne.1,
    field_store_of_ne hne.2.1, field_store_of_ne hne.2.2.1, field_store_of_ne hne.2.2.2.1,
    field_store_of_ne hne.2.2.2.2.1]
  split
  · rfl
  · split
    · rfl
    · exact hpieces

/-- A marked item says what it said before. -/
theorem MarksItem.same {changed : Json} (hmarks : MarksItem item changed) :
    itemPieces changed = itemPieces item ∧ Alike itemProtocol itemProtocol item changed := by
  cases hmarks with
  | content hcontent hmarks =>
      refine ⟨itemPieces_store_content ?_, alike_store (by decide) (by decide) _ _⟩
      rw [hcontent]
      exact hmarks.map_blockPart
  | outputBlocks htype houtput hmarks =>
      refine ⟨itemPieces_store_output htype ?_, alike_store (by decide) (by decide) _ _⟩
      rw [houtput]
      exact hmarks.map_blockPart
  | outputText htype houtput =>
      refine ⟨itemPieces_store_output htype ?_, alike_store (by decide) (by decide) _ _⟩
      rw [houtput]
      simp [markedOutput, outputParts, blockPart, field, lookup, lit_inj]

theorem alike_refl (items : List Json) :
    List.Forall₂ (Alike itemProtocol itemProtocol) items items :=
  forall₂_same.mpr fun _ _ => ⟨rfl, rfl⟩

theorem Breakpointed.same {stable marked : List Json} (hmarked : Breakpointed stable marked) :
    marked.flatMap itemPieces = stable.flatMap itemPieces ∧
      List.Forall₂ (Alike itemProtocol itemProtocol) stable marked := by
  obtain ⟨front, item, changed, back, rfl, rfl, hitem, -⟩ := hmarked
  obtain ⟨hpieces, halike⟩ := hitem.same
  constructor
  · rw [flatMap_append, flatMap_append, flatMap_cons, flatMap_cons, hpieces]
  · exact rel_append (alike_refl front) (.cons halike (alike_refl back))

/-- What a Responses request keeps of a history. -/
structure ResponsesKeeps (builtins : Builtins) (strays : Prop) (messages items : List Json) :
    Prop where
  pieces : items.flatMap itemPieces = messages.flatMap (messagePieces builtins)
  answered : Answered itemProtocol True strays items

theorem Converts.itemized {builtins : Builtins} {stable : Bool} {messages : List Json}
    (hreplay : ∀ message ∈ messages, isReplayed message = false)
    (hitems : Converts builtins stable messages items) :
    ∃ lists, Itemized builtins messages lists ∧ items = lists.flatten := by
  obtain ⟨lists, hlists, rfl⟩ := hitems
  refine ⟨lists, ?_, rfl⟩
  induction hlists with
  | nil => exact .nil
  | cons hitems _ ih =>
      rw [forall_mem_cons] at hreplay
      exact .cons (messageItems_of_ok hreplay.1 hitems) (ih hreplay.2)

theorem cached_keeps {builtins : Builtins} {strays : Prop} {cacheMode : Text}
    {messages front back : List Json}
    (hkeeps : ResponsesKeeps builtins strays messages (front ++ back))
    (hcached : cached cacheMode ⟨front ++ back, front.length⟩ = .ok items) :
    ResponsesKeeps builtins strays messages items := by
  rw [cached] at hcached
  split at hcached
  next =>
    rw [bind_eq_ok] at hcached
    obtain ⟨marked, hmarked, hpure⟩ := hcached
    rw [take_left] at hmarked
    rw [drop_left, pure_eq_ok] at hpure
    subst hpure
    obtain ⟨hpieces, halike⟩ := (breakpointed_of_mark hmarked).same
    constructor
    · rw [← hkeeps.pieces, flatMap_append, flatMap_append, hpieces]
    · exact hkeeps.answered.alike (rel_append halike (alike_refl back))
  next =>
    cases hcached
    exact hkeeps

/-- A Responses request keeps a valid history that is not replayed. -/
theorem responsesInput_keeps {builtins : Builtins} {strays : Prop} {messages : List Json}
    {volatileTailCount : ℤ} {cacheMode : Text} (hvalid : ValidHistory builtins strays messages)
    (hreplay : ∀ message ∈ messages, isReplayed message = false)
    (hitems : responsesInput builtins (.arr messages) volatileTailCount cacheMode = .ok items) :
    ResponsesKeeps builtins strays messages items := by
  obtain ⟨-, front, back, hfront, hback, hcached⟩ := responsesInput_eq_ok_iff.mp hitems
  have hsplit : stableMessages messages volatileTailCount ++
      volatileMessages messages volatileTailCount = messages := take_append_drop _ _
  rw [← hsplit, forall_mem_append] at hreplay
  obtain ⟨stable, hstable, rfl⟩ := hfront.itemized hreplay.1
  obtain ⟨rest, hrest, rfl⟩ := hback.itemized hreplay.2
  have hlists : Itemized builtins messages (stable ++ rest) := by
    rw [← hsplit]
    exact rel_append hstable hrest
  apply cached_keeps ?_ hcached
  rw [← flatten_append]
  exact ⟨hlists.pieces, hlists.answered hvalid.answered⟩

end ReuleauxCoder.Providers
