import ReuleauxCoder.Library.Failing
import ReuleauxCoder.Providers.Anthropic
import ReuleauxCoder.Providers.History

/-!
# A history as Anthropic messages

The messages alternate between user and assistant, their blocks say what the history says, and a
message that uses tools ends with these uses and is followed by their results.
-/

namespace ReuleauxCoder.Providers

open Check PyText PyJson Context Exchanges Failing
open List hiding lookup

/-! ## What blocks say -/

def anthropicPart : Json → Option Part
  | .obj block =>
      if field block "type" = .str (lit "text") then
        match field block "text" with
        | .str text => some (.text text)
        | _ => none
      else if field block "type" = .str (lit "image") then
        match (field block "source").getD (lit "media_type"),
            (field block "source").getD (lit "data") with
        | .str mediaType, .str data =>
            some (.image (.str (dataHead ++ mediaType ++ base64Mark ++ data)))
        | _, _ => none
      else none
  | _ => none

def resultParts : Json → List (Option Part)
  | .str text => [some (.text text)]
  | .arr blocks => blocks.map anthropicPart
  | _ => []

def useId (block : Json) : Text :=
  textOf (block.getD (lit "id"))

def resultId (block : Json) : Text :=
  textOf (block.getD (lit "tool_use_id"))

def readBlock (block : Json) : Piece :=
  if isOfType "tool_use" block then
    .call (useId block) (textOf (block.getD (lit "name"))) (block.getD (lit "input"))
  else if isOfType "tool_result" block then
    .result (resultId block) (resultParts (block.getD (lit "content")))
  else .part (anthropicPart block)

/-- The arguments of a call as an object. -/
def callInput (function : Json) : Json :=
  match (function.get? (lit "arguments")).getD (.obj []) with
  | .str text => (loads text).getD .null
  | input => input

def inputPiece (builtins : Builtins) (call : Json) : Piece :=
  .call (callId builtins call) (builtins.strOr ((call.getD (lit "function")).getD (lit "name")) [])
    (callInput (call.getD (lit "function")))

/-- The texts and images of a content; an empty text says nothing. -/
def spokenParts (content : Json) : List (Option Part) :=
  if content = .str [] then [] else partsOf content

/-- A message without any block still has to say something. -/
def orEmptyText (pieces : List Piece) : List Piece :=
  if pieces = [] then [.part (some (.text []))] else pieces

/-- What a message says, and in which role; system messages are sent apart. -/
def nativePieces (builtins : Builtins) (message : Json) : List (Text × Piece) :=
  if roleOf message = .str (lit "system") then []
  else if isTool message then
    [(lit "user", .result (toolCallId builtins message) (partsOf (message.getD (lit "content"))))]
  else
    (orEmptyText ((spokenParts (message.getD (lit "content"))).map .part ++
      (callsOf message).map (inputPiece builtins))).map fun piece => (textOf (roleOf message), piece)

/-- The text of a system message. -/
def systemTexts (message : Json) : List Text :=
  if roleOf message = .str (lit "system") then [textOf (message.getD (lit "content"))] else []

/-- A block that is no part of an exchange. -/
def Plain (block : Json) : Prop :=
  isOfType "tool_use" block = false ∧ isOfType "tool_result" block = false

theorem readBlock_plain {block : Json} (hplain : Plain block) :
    readBlock block = .part (anthropicPart block) := by
  rw [readBlock, hplain.1, hplain.2]
  rfl

/-! ## Blocks of a content -/

theorem splitOnce_eq_some {separator text front back : Text}
    (hsplit : splitOnce separator text = some (front, back)) : text = front ++ separator ++ back := by
  rw [splitOnce, Option.map_eq_some_iff] at hsplit
  obtain ⟨place, hplace, hsides⟩ := hsplit
  cases hsides
  have hbegins := Occurrences.append_drop_of_begins (Occurrences.find?_eq_some hplace)
  rw [drop_drop] at hbegins
  rw [append_assoc, ← hbegins, take_append_drop]

theorem base64Block_eq_ok {url block : Json} (hblock : base64Block url = .ok block) :
    ∃ mediaType data, url = .str (dataHead ++ mediaType ++ base64Mark ++ data) ∧
      block = imageBlock mediaType data := by
  cases url with
  | str text =>
      rw [base64Block] at hblock
      split at hblock
      next hurl =>
        obtain ⟨⟨rest, rfl⟩, -⟩ := hurl
        rw [show (dataHead ++ rest).drop 5 = rest from rfl] at hblock
        cases hsplit : splitOnce base64Mark rest with
        | none =>
            rw [hsplit] at hblock
            cases hblock
        | some sides =>
            rw [hsplit] at hblock
            cases hblock
            refine ⟨sides.1, sides.2, ?_, rfl⟩
            rw [splitOnce_eq_some hsplit, append_assoc, append_assoc, append_assoc]
      next => cases hblock
  | _ => cases hblock

theorem subscript_eq_ok {value content : Json} {key : String}
    (hsubscript : subscript value key = .ok content) : value.getD (lit key) = content := by
  cases value with
  | obj fields =>
      rw [subscript] at hsubscript
      rw [getD_obj, field]
      cases hlookup : lookup (lit key) fields with
      | none =>
          rw [hlookup] at hsubscript
          cases hsubscript
      | some found =>
          rw [hlookup] at hsubscript
          cases hsubscript
          rfl
  | _ => cases hsubscript

theorem plain_textBlock (text : Text) : Plain (textBlock "text" text) := by
  rw [Plain, Bool.eq_false_iff, Bool.eq_false_iff, Ne, isOfType_textBlock, Ne, isOfType_textBlock]
  decide

theorem anthropicPart_textBlock (text : Text) :
    anthropicPart (textBlock "text" text) = some (.text text) := by
  simp [anthropicPart, textBlock, field, lookup, lit_inj]

theorem plain_imageBlock (mediaType data : Text) : Plain (imageBlock mediaType data) := by
  simp [Plain, isOfType, imageBlock, field, lit_inj]

theorem anthropicPart_imageBlock (mediaType data : Text) :
    anthropicPart (imageBlock mediaType data) =
      some (.image (.str (dataHead ++ mediaType ++ base64Mark ++ data))) := by
  simp [anthropicPart, imageBlock, field, lookup, lit_inj, Json.getD]

theorem anthropicBlock_eq_ok {part block : Json} (hblock : anthropicBlock part = .ok block) :
    anthropicPart block = partOf part ∧ Plain block := by
  cases part with
  | obj fields =>
      rw [anthropicBlock] at hblock
      split at hblock
      next htype =>
        simp only [bind_eq_ok] at hblock
        obtain ⟨image, himage, url, hurl, hblock⟩ := hblock
        obtain ⟨mediaType, data, rfl, rfl⟩ := base64Block_eq_ok hblock
        refine ⟨?_, plain_imageBlock _ _⟩
        have hfield : field fields "image_url" = image := subscript_eq_ok himage
        rw [anthropicPart_imageBlock, partOf, htype, hfield, subscript_eq_ok hurl]
        simp [lit_inj]
      next hother =>
        split at hblock
        next htype =>
          cases htext : field fields "text" with
          | str text =>
              simp only [htext] at hblock
              cases hblock
              exact ⟨by rw [anthropicPart_textBlock, partOf, if_pos htype, htext],
                plain_textBlock text⟩
          | _ =>
              rw [htext] at hblock
              cases hblock
        next => cases hblock
  | _ => cases hblock

theorem anthropicParts_eq_ok {content : Json} {blocks : List Json}
    (hblocks : anthropicParts content = .ok blocks) :
    blocks.map anthropicPart = spokenParts content ∧ ∀ block ∈ blocks, Plain block := by
  cases content with
  | str text =>
      cases hblocks
      by_cases hempty : text = []
      · simp [hempty, spokenParts]
      · rw [if_neg hempty, forall_mem_singleton, spokenParts,
          if_neg fun hsame => hempty (Json.str.inj hsame)]
        refine ⟨?_, plain_textBlock text⟩
        rw [map_singleton, anthropicPart_textBlock]
        simp [partsOf, contentParts, partOf, textBlock, field, lookup, lit_inj]
  | null =>
      cases hblocks
      exact ⟨rfl, fun block hblock => absurd hblock not_mem_nil⟩
  | arr parts =>
      refine ⟨?_, forall_of_mapM_ok Plain hblocks fun part block hblock =>
        (anthropicBlock_eq_ok hblock).2⟩
      have hall : List.Forall₂ (fun part block => anthropicPart block = partOf part) parts blocks :=
        (mapM_eq_ok_iff.mp hblocks).imp fun _ _ hblock => (anthropicBlock_eq_ok hblock).1
      have hmap : blocks.map anthropicPart = parts.map partOf := by
        rw [eq_comm, ← forall₂_eq_eq_eq, forall₂_map_left_iff,
          forall₂_map_right_iff]
        exact hall.imp fun _ _ hsame => hsame.symm
      rw [hmap]
      rfl
  | _ => cases hblocks

/-! ## Calls -/

/-- The block of a call. -/
structure UseOf (builtins : Builtins) (call block : Json) : Prop where
  used : isOfType "tool_use" block = true
  id : useId block = callId builtins call
  read : readBlock block = inputPiece builtins call

theorem rawInput_eq_ok {function : Dict} {input : Json} (hinput : rawInput function = .ok input) :
    callInput (.obj function) = input := by
  rw [rawInput] at hinput
  rw [callInput, Json.get?_obj]
  cases harguments : (lookup (lit "arguments") function).getD (.obj []) with
  | str text =>
      simp only [harguments] at hinput
      cases hloads : loads text with
      | none =>
          rw [hloads] at hinput
          cases hinput
      | some value =>
          rw [hloads] at hinput
          cases hinput
          simp only [hloads, Option.getD_some]
  | _ =>
      simp only [harguments] at hinput
      cases hinput
      rfl

variable {builtins : Builtins}

theorem useOf_toolUse {call function : Dict} {input : Json}
    (hfunction : field call "function" = .obj function)
    (hinput : callInput (.obj function) = input) :
    UseOf builtins (.obj call) (toolUse (builtins.strOr (field call "id") [])
      (builtins.strOr (field function "name") []) input) := by
  constructor
  · simp [isOfType, toolUse, field]
  · simp [useId, toolUse, Json.getD, lookup, lit_inj, textOf, callId, field]
  · rw [inputPiece, callId, getD_obj, getD_obj, hfunction, hinput, getD_obj]
    simp [readBlock, isOfType, toolUse, useId, field, Json.getD, lookup, lit_inj, textOf]

theorem anthropicCall_eq_ok {call block : Json} (hblock : anthropicCall builtins call = .ok block) :
    UseOf builtins call block := by
  cases call with
  | obj fields =>
      rw [anthropicCall] at hblock
      cases hfunction : field fields "function" with
      | obj function =>
          simp only [hfunction] at hblock
          cases hraw : rawInput function with
          | error error =>
              rw [hraw] at hblock
              cases hblock
          | ok input =>
              rw [hraw] at hblock
              cases input with
              | obj content =>
                  cases hblock
                  exact useOf_toolUse hfunction (rawInput_eq_ok hraw)
              | _ => cases hblock
      | _ =>
          rw [hfunction] at hblock
          cases hblock
  | _ => cases hblock

/-! ## Messages -/

/-- What a message adds: nothing, or blocks in a role. -/
inductive NativeEntry (builtins : Builtins) (message : Json) : Option (Text × List Json) → Prop
  | system (hsystem : roleOf message = .str (lit "system")) : NativeEntry builtins message none
  | result {content : Json} (htool : isTool message = true)
      (hcontent : resultParts content = partsOf (message.getD (lit "content"))) :
      NativeEntry builtins message
        (some (lit "user", [toolResult (toolCallId builtins message) content]))
  | spoken {role : Text} {parts uses : List Json} (hrole : roleOf message = .str role)
      (hspeaker : role = lit "user" ∨ role = lit "assistant")
      (hplain : ∀ block ∈ parts, Plain block)
      (hparts : parts.map anthropicPart = spokenParts (message.getD (lit "content")))
      (huses : List.Forall₂ (UseOf builtins) (callsOf message) uses) :
      NativeEntry builtins message
        (some (role, if parts ++ uses = [] then [emptyText] else parts ++ uses))

/-- The blocks of an entry, merged into the messages. -/
def addEntry (messages : List NativeMessage) : Option (Text × List Json) → List NativeMessage
  | none => messages
  | some (role, blocks) => mergeMessage messages role blocks

theorem contentBlocks_eq_ok {message : Dict} {blocks : List Json}
    (hcaller : callsOf (.obj message) ≠ [] → roleOf (.obj message) = .str (lit "assistant"))
    (htool : isTool (.obj message) = false)
    (hblocks : contentBlocks builtins message = .ok blocks) :
    ∃ parts uses, blocks = parts ++ uses ∧ (∀ block ∈ parts, Plain block) ∧
      parts.map anthropicPart = spokenParts (field message "content") ∧
        List.Forall₂ (UseOf builtins) (callsOf (.obj message)) uses := by
  simp only [contentBlocks, bind_eq_ok, pure_eq_ok] at hblocks
  obtain ⟨parts, hparts, uses, huses, rfl⟩ := hblocks
  obtain ⟨hmap, hplain⟩ := anthropicParts_eq_ok hparts
  refine ⟨parts, uses, rfl, hplain, hmap, ?_⟩
  rw [callBlocks] at huses
  split at huses
  next =>
    rw [bind_eq_ok] at huses
    obtain ⟨calls, hcalls, huses⟩ := huses
    rw [callsOf_of_ok (of_decide_eq_false htool) hcalls]
    exact (mapM_eq_ok_iff.mp huses).imp fun _ _ => anthropicCall_eq_ok
  next hother =>
    cases huses
    have hnone : callsOf (.obj message) = [] := by
      by_contra hcalls
      exact hother (hcaller hcalls)
    rw [hnone]
    exact .nil

theorem resultContent_eq_ok {message : Dict} {content : Json}
    (htool : field message "role" = .str (lit "tool"))
    (hcontent : resultContent builtins message = .ok content) :
    resultParts content = partsOf (field message "content") := by
  rw [resultContent] at hcontent
  split at hcontent
  next text htext =>
    cases hcontent
    rw [htext]
    simp [resultParts, partsOf, contentParts, partOf, textBlock, field, lookup, lit_inj]
  next hother =>
    have hrole : field message "role" ≠ .str (lit "assistant") := by
      rw [htool, Ne, Json.str.injEq, lit_inj]
      decide
    simp only [contentBlocks, callBlocks, if_neg hrole, bind_eq_ok, pure_eq_ok] at hcontent
    obtain ⟨blocks, ⟨parts, hparts, uses, huses, rfl⟩, rfl⟩ := hcontent
    cases huses
    rw [append_nil, resultParts, (anthropicParts_eq_ok hparts).1, spokenParts,
      if_neg (hother [])]

theorem convertNative_eq_ok {state result : AnthropicState} {message : Json}
    (hcaller : callsOf message ≠ [] → roleOf message = .str (lit "assistant"))
    (hresult : convertNative builtins state message = .ok result) :
    ∃ entry, NativeEntry builtins message entry ∧
      result.messages = addEntry state.messages entry ∧
        result.systemParts = state.systemParts ++ systemTexts message := by
  cases message with
  | obj fields =>
      rw [convertNative] at hresult
      cases hrole : field fields "role" with
      | str role =>
          simp only [hrole] at hresult
          by_cases hsystem : role = lit "system"
          · rw [if_pos hsystem] at hresult
            have hof : roleOf (.obj fields) = .str (lit "system") := by rw [roleOf, hrole, hsystem]
            refine ⟨none, .system hof, ?_⟩
            rw [systemTexts, if_pos hof, getD_obj]
            cases hcontent : field fields "content" with
            | str content =>
                rw [hcontent] at hresult
                cases hresult
                exact ⟨rfl, rfl⟩
            | _ =>
                rw [hcontent] at hresult
                cases hresult
          · rw [if_neg hsystem] at hresult
            have hother : systemTexts (.obj fields) = [] := by
              rw [systemTexts, roleOf, hrole]
              exact if_neg fun hsame => hsystem (Json.str.inj hsame)
            rw [hother, append_nil]
            by_cases htool : role = lit "tool"
            · simp only [htool, if_true, bind_eq_ok, pure_eq_ok] at hresult
              obtain ⟨content, hcontent, rfl⟩ := hresult
              rw [htool] at hrole
              exact ⟨_, .result (decide_eq_true hrole) (resultContent_eq_ok hrole hcontent), rfl,
                rfl⟩
            · rw [if_neg htool] at hresult
              split at hresult
              next hspeaker =>
                simp only [bind_eq_ok, pure_eq_ok] at hresult
                obtain ⟨blocks, hblocks, rfl⟩ := hresult
                have hnot : isTool (.obj fields) = false := by
                  rw [isTool, roleOf, hrole]
                  exact decide_eq_false fun hsame => htool (Json.str.inj hsame)
                obtain ⟨parts, uses, rfl, hplain, hparts, huses⟩ :=
                  contentBlocks_eq_ok hcaller hnot hblocks
                exact ⟨_, .spoken hrole hspeaker hplain hparts huses, rfl, rfl⟩
              next => cases hresult
      | _ =>
          rw [hrole] at hresult
          cases hresult
  | _ => cases hresult

/-- The loop merges one entry for each message. -/
theorem foldlM_convertNative {source : List Json} {state result : AnthropicState}
    (hcallers : ∀ message ∈ source, callsOf message ≠ [] →
      roleOf message = .str (lit "assistant"))
    (hresult : source.foldlM (convertNative builtins) state = .ok result) :
    ∃ entries, List.Forall₂ (NativeEntry builtins) source entries ∧
      result.messages = entries.foldl addEntry state.messages ∧
        result.systemParts = state.systemParts ++ source.flatMap systemTexts := by
  induction source generalizing state with
  | nil =>
      cases hresult
      exact ⟨[], .nil, rfl, (append_nil _).symm⟩
  | cons message source ih =>
      rw [forall_mem_cons] at hcallers
      rw [foldlM_cons, bind_eq_ok] at hresult
      obtain ⟨middle, hmiddle, hrest⟩ := hresult
      obtain ⟨entry, hentry, hadded, hsystem⟩ := convertNative_eq_ok hcallers.1 hmiddle
      obtain ⟨entries, hentries, hresult, hparts⟩ := ih hcallers.2 hrest
      refine ⟨entry :: entries, .cons hentry hentries, ?_, ?_⟩
      · rw [hresult, hadded, foldl_cons]
      · rw [hparts, hsystem, flatMap_cons, append_assoc]

end ReuleauxCoder.Providers
