import ReuleauxCoder.Library.Failing
import ReuleauxCoder.Library.LastMatch
import ReuleauxCoder.Providers.Content

/-!
# The input of a Responses request

`_responses_input` turns a history into items: a message, the calls of a message, and the
outputs of the calls.  An assistant message that came from this provider is replayed as it was.
With an explicit cache the last stable text gets a breakpoint.
-/

namespace ReuleauxCoder.Providers

open Check PyText PyJson Context LastMatch Failing
open List hiding lookup

/-! ## `_responses_text_blocks` -/

def responsesBlockType (role : Text) : String :=
  if role = lit "assistant" then "output_text" else "input_text"

def inputImage (image : Dict) (url : Json) : Json :=
  .obj [(lit "type", .str (lit "input_image")), (lit "image_url", url),
    (lit "detail", (lookup (lit "detail") image).getD (.str (lit "auto")))]

/-- An `image_url` block. -/
def responsesImage (block : Dict) : Except ProviderError Json :=
  match lookup (lit "image_url") block with
  | none => .error (.keyError "image_url")
  | some (.obj image) =>
      match lookup (lit "url") image with
      | none => .error (.keyError "url")
      | some url => .ok (inputImage image url)
  | some _ => .error .notSubscriptable

def responsesBlock (role : Text) : Json → Except ProviderError Json
  | .obj block =>
      if field block "type" = .str (lit "image_url") then
        if role = lit "assistant" then .error (.typeError "Assistant image input is unsupported")
        else responsesImage block
      else if field block "type" = .str (lit "text") then
        match field block "text" with
        | .str text => .ok (textBlock (responsesBlockType role) text)
        | _ => .error (.typeError "responses text content must be a string")
      else .error (.typeError "Unsupported responses content block")
  | _ => .error (.typeError "Unsupported responses content block")

def responsesTextBlocks (role : Text) : Json → Except ProviderError (List Json)
  | .str text => .ok [textBlock (responsesBlockType role) text]
  | .null => .ok []
  | .arr content => content.mapM (responsesBlock role)
  | _ => .error (.typeError "responses message content must be text")

/-! ## `_responses_input` -/

def functionCallItem (id name arguments : Text) : Json :=
  .obj [(lit "type", .str (lit "function_call")), (lit "call_id", .str id),
    (lit "name", .str name), (lit "arguments", .str arguments)]

def functionCallOutput (id : Text) (output : Json) : Json :=
  .obj [(lit "type", .str (lit "function_call_output")), (lit "call_id", .str id),
    (lit "output", output)]

def messageItem (role : Text) (blocks : List Json) : Json :=
  .obj [(lit "role", .str role), (lit "content", .arr blocks)]

section Input

variable (builtins : Builtins)

def responsesCall : Json → Except ProviderError Json
  | .obj call =>
      match field call "function" with
      | .obj function =>
          match field function "arguments" with
          | .str arguments =>
              .ok (functionCallItem (builtins.strOr (field call "id") [])
                (builtins.strOr (field function "name") []) arguments)
          | _ => .error (.typeError "responses tool arguments must be JSON text")
      | _ => .error (.typeError "responses tool call must be a function object")
  | _ => .error (.typeError "responses tool call must be a function object")

/-- The items of the provider that an assistant message replays, if it does. -/
def replayItems (role : Text) (message : Dict) : Option Json :=
  match lookup providerDataKey message with
  | some (.obj data) =>
      if role = lit "assistant" ∧ field data "request_mode" = .str (lit "responses") then
        some (field data "items")
      else none
  | _ => none

/-- The output of a tool message: its text, or its blocks. -/
def toolOutput : Json → Except ProviderError Json
  | .str text => .ok (.str text)
  | content => do return .arr (← responsesTextBlocks (lit "user") content)

/-- The items of a message with one of the four roles. -/
def spokenItems (role nativeRole : Text) (message : Dict) : Except ProviderError (List Json) :=
  match replayItems role message with
  | some (.arr items) => .ok items
  | some _ => .error (.typeError "responses provider data items must be a list")
  | none => do
      let blocks ← responsesTextBlocks nativeRole (field message "content")
      let calls ← toolCallsOf message
      let items ← calls.mapM (responsesCall builtins)
      return (if blocks = [] then [] else [messageItem nativeRole blocks]) ++ items

def spokenRoles : List Text :=
  [lit "system", lit "developer", lit "user", lit "assistant"]

/-- The items of one message; behind the stable messages every message speaks as developer. -/
def responsesItems (stable : Bool) : Json → Except ProviderError (List Json)
  | .obj message =>
      match field message "role" with
      | .str role =>
          if role = lit "tool" then do
            let output ← toolOutput (field message "content")
            return [functionCallOutput (builtins.strOr (field message "tool_call_id") []) output]
          else if role ∈ spokenRoles then
            spokenItems builtins role (if stable then role else lit "developer") message
          else .error (.typeError "responses message role is unsupported")
      | .arr _ | .obj _ => .error .unhashable
      | _ => .error (.typeError "responses message role is unsupported")
  | _ => .error (.typeError "responses message must be an object")

/-- The variables of the loop. -/
structure Conversion where
  items : List Json := []
  stableItemCount : ℕ := 0

def convertMessage (stableMessageCount : ℕ) (state : Conversion) (message : Json × ℕ) :
    Except ProviderError Conversion := do
  let added ← responsesItems builtins (decide (message.2 < stableMessageCount)) message.1
  let items := state.items ++ added
  return {
    items
    stableItemCount :=
      if message.2 < stableMessageCount then items.length else state.stableItemCount }

/-! ## `_mark_responses_cache_breakpoint` -/

def breakpointKey : Text := lit "prompt_cache_breakpoint"

def explicitBreakpoint : Json :=
  .obj [(lit "mode", .str (lit "explicit"))]

/-- The block as it is marked; `none` for a block that is no input text. -/
def markBlock : Json → Except ProviderError (Option Json)
  | .obj block =>
      if field block "type" = .str (lit "input_text") then
        .ok (some (.obj (store breakpointKey explicitBreakpoint block)))
      else .ok none
  | _ => .error .attributeError

def markedOutput (output : Text) : Json :=
  .arr [.obj [(lit "type", .str (lit "input_text")), (lit "text", .str output),
    (breakpointKey, explicitBreakpoint)]]

def markOutput (item : Dict) : Except ProviderError (Option Json) :=
  if field item "type" = .str (lit "function_call_output") then
    match field item "output" with
    | .str output => .ok (some (.obj (store (lit "output") (markedOutput output) item)))
    | _ => .error (.typeError "responses tool output must be text")
  else .ok none

/-- The blocks of a content, the last input text of them marked. -/
def markContent : Json → Except ProviderError (Option (List Json))
  | .arr blocks => markLast markBlock blocks
  | _ => .ok none

def markItem : Json → Except ProviderError (Option Json)
  | .obj item =>
      match markContent (field item "content") with
      | .error error => .error error
      | .ok (some blocks) => .ok (some (.obj (store (lit "content") (.arr blocks) item)))
      | .ok none => markOutput item
  | _ => .error .attributeError

def markResponsesCacheBreakpoint (items : List Json) : Except ProviderError (List Json) :=
  match markLast markItem items with
  | .error error => .error error
  | .ok (some marked) => .ok marked
  | .ok none => .error (.valueError "responses explicit cache mode requires stable text")

/-- The items that a cache mode sends. -/
def cached (cacheMode : Text) (state : Conversion) : Except ProviderError (List Json) :=
  if cacheMode = lit "explicit" then do
    let marked ← markResponsesCacheBreakpoint (state.items.take state.stableItemCount)
    return marked ++ state.items.drop state.stableItemCount
  else .ok state.items

def responsesInput (source : Json) (volatileTailCount : ℤ) (cacheMode : Text) :
    Except ProviderError (List Json) :=
  match source with
  | .arr messages =>
      if 0 ≤ volatileTailCount ∧ volatileTailCount ≤ messages.length then do
        let state ← messages.zipIdx.foldlM
          (convertMessage builtins (messages.length - volatileTailCount.toNat)) {}
        cached cacheMode state
      else .error (.valueError "responses volatile tail is invalid")
  | _ => .error (.typeError "responses messages must be a list")

end Input

/-! ## What the blocks hold -/

/-- The block of a part: its text, or its image. -/
inductive ResponsesBlock (role : Text) : Json → Json → Prop
  | text {part : Dict} {text : Text} (htype : field part "type" = .str (lit "text"))
      (htext : field part "text" = .str text) :
      ResponsesBlock role (.obj part) (textBlock (responsesBlockType role) text)
  | image {part image : Dict} {url : Json} (hrole : role ≠ lit "assistant")
      (htype : field part "type" = .str (lit "image_url"))
      (himage : lookup (lit "image_url") part = some (.obj image))
      (hurl : lookup (lit "url") image = some url) :
      ResponsesBlock role (.obj part) (inputImage image url)

theorem responsesImage_eq_ok_iff {part : Dict} {block : Json} :
    responsesImage part = .ok block ↔
      ∃ image url, lookup (lit "image_url") part = some (.obj image) ∧
        lookup (lit "url") image = some url ∧ block = inputImage image url := by
  rw [responsesImage]
  cases lookup (lit "image_url") part with
  | none => simp
  | some content =>
      cases content with
      | obj image => cases hurl : lookup (lit "url") image <;> simp [hurl, eq_comm]
      | _ => simp

theorem responsesBlock_eq_ok_iff {role : Text} {part block : Json} :
    responsesBlock role part = .ok block ↔ ResponsesBlock role part block := by
  constructor
  · intro hok
    cases part with
    | obj fields =>
        rw [responsesBlock] at hok
        split at hok
        next htype =>
          split at hok
          next => cases hok
          next hrole =>
            obtain ⟨image, url, himage, hurl, rfl⟩ := responsesImage_eq_ok_iff.mp hok
            exact .image hrole htype himage hurl
        next =>
          split at hok
          next htype =>
            cases htext : field fields "text" with
            | str text =>
                rw [htext] at hok
                cases hok
                exact .text htype htext
            | _ =>
                rw [htext] at hok
                cases hok
          next => cases hok
    | _ => cases hok
  · intro hblock
    cases hblock with
    | text htype htext => simp [responsesBlock, htype, htext, lit_inj]
    | image hrole htype himage hurl =>
        rw [responsesBlock, if_pos htype, if_neg hrole, responsesImage_eq_ok_iff]
        exact ⟨_, _, himage, hurl, rfl⟩

theorem isOfType_inputImage {type : String} {image : Dict} {url : Json} :
    isOfType type (inputImage image url) = true ↔ "input_image" = type := by
  simp [isOfType, inputImage, field, lit_inj]

theorem responsesTextBlocks_eq_ok {role : Text} {content : Json} {blocks : List Json}
    (hok : responsesTextBlocks role content = .ok blocks) :
    List.Forall₂ (ResponsesBlock role) (contentParts content) blocks := by
  cases content with
  | str text =>
      cases hok
      exact .cons (.text rfl rfl) .nil
  | null =>
      cases hok
      exact .nil
  | arr parts => exact (mapM_eq_ok_iff.mp hok).imp fun _ _ => responsesBlock_eq_ok_iff.mp
  | _ => cases hok

/-- The item of a call. -/
inductive ResponsesCall (builtins : Builtins) : Json → Json → Prop
  | call {call function : Dict} {arguments : Text}
      (hfunction : field call "function" = .obj function)
      (harguments : field function "arguments" = .str arguments) :
      ResponsesCall builtins (.obj call)
        (functionCallItem (builtins.strOr (field call "id") [])
          (builtins.strOr (field function "name") []) arguments)

theorem responsesCall_eq_ok_iff {builtins : Builtins} {call item : Json} :
    responsesCall builtins call = .ok item ↔ ResponsesCall builtins call item := by
  constructor
  · intro hok
    cases call with
    | obj fields =>
        rw [responsesCall] at hok
        cases hfunction : field fields "function" with
        | obj function =>
            rw [hfunction] at hok
            cases harguments : field function "arguments" with
            | str arguments =>
                simp only [harguments] at hok
                cases hok
                exact .call hfunction harguments
            | _ => simp [harguments] at hok
        | _ => simp [hfunction] at hok
    | _ => cases hok
  · rintro ⟨hfunction, harguments⟩
    simp only [responsesCall, hfunction, harguments]

/-! ## The loop -/

/-- The messages in front of the volatile tail. -/
def stableMessages (messages : List Json) (volatileTailCount : ℤ) : List Json :=
  messages.take (messages.length - volatileTailCount.toNat)

def volatileMessages (messages : List Json) (volatileTailCount : ℤ) : List Json :=
  messages.drop (messages.length - volatileTailCount.toNat)

/-- The messages become these items, each on its own. -/
def Converts (builtins : Builtins) (stable : Bool) (messages items : List Json) : Prop :=
  ∃ lists, List.Forall₂ (fun message list => responsesItems builtins stable message = .ok list)
    messages lists ∧ items = lists.flatten

section Loop

variable {builtins : Builtins} {stable : Bool} {messages items others : List Json}

theorem converts_nil_iff : Converts builtins stable [] items ↔ items = [] := by
  constructor
  · rintro ⟨lists, hlists, rfl⟩
    rw [forall₂_nil_left_iff.mp hlists, flatten_nil]
  · rintro rfl
    exact ⟨[], .nil, rfl⟩

theorem converts_cons_iff {message : Json} :
    Converts builtins stable (message :: messages) items ↔
      ∃ list rest, responsesItems builtins stable message = .ok list ∧
        Converts builtins stable messages rest ∧ items = list ++ rest := by
  constructor
  · rintro ⟨lists, hlists, rfl⟩
    obtain ⟨list, rest, hlist, hrest, rfl⟩ := forall₂_cons_left_iff.mp hlists
    exact ⟨list, rest.flatten, hlist, ⟨rest, hrest, rfl⟩, flatten_cons⟩
  · rintro ⟨list, rest, hlist, ⟨lists, hlists, rfl⟩, rfl⟩
    exact ⟨list :: lists, .cons hlist hlists, flatten_cons⟩

theorem Converts.unique (hitems : Converts builtins stable messages items)
    (hothers : Converts builtins stable messages others) : items = others := by
  induction messages generalizing items others with
  | nil => rw [converts_nil_iff.mp hitems, converts_nil_iff.mp hothers]
  | cons message messages ih =>
      obtain ⟨list, rest, hlist, hrest, rfl⟩ := converts_cons_iff.mp hitems
      obtain ⟨other, later, hother, hlater, rfl⟩ := converts_cons_iff.mp hothers
      rw [hlist] at hother
      cases hother
      rw [ih hrest hlater]

/-- Before the volatile tail, everything counts as stable. -/
theorem foldlM_stable {count start : ℕ} (hcount : start + messages.length ≤ count)
    {result : Conversion} :
    (messages.zipIdx start).foldlM (convertMessage builtins count) ⟨items, items.length⟩ =
        .ok result ↔
      ∃ added, Converts builtins true messages added ∧
        result = ⟨items ++ added, (items ++ added).length⟩ := by
  induction messages generalizing start items with
  | nil =>
      simp only [zipIdx_nil, foldlM_nil, pure_eq_ok, converts_nil_iff, exists_eq_left,
        append_nil]
      exact eq_comm
  | cons message messages ih =>
      rw [length_cons] at hcount
      have hstable : start < count := by omega
      rw [zipIdx_cons, foldlM_cons]
      simp only [convertMessage, hstable, decide_true, if_true, bind_eq_ok, pure_eq_ok,
        converts_cons_iff]
      constructor
      · rintro ⟨state, ⟨list, hlist, rfl⟩, hrest⟩
        obtain ⟨added, hadded, rfl⟩ := (ih (by omega)).mp hrest
        exact ⟨list ++ added, ⟨list, added, hlist, hadded, rfl⟩, by rw [append_assoc]⟩
      · rintro ⟨added, ⟨list, rest, hlist, hrest, rfl⟩, rfl⟩
        refine ⟨_, ⟨list, hlist, rfl⟩, (ih (by omega)).mpr ⟨rest, hrest, ?_⟩⟩
        rw [append_assoc]

theorem foldlM_volatile {count start stableCount : ℕ} (hcount : count ≤ start)
    {result : Conversion} :
    (messages.zipIdx start).foldlM (convertMessage builtins count) ⟨items, stableCount⟩ =
        .ok result ↔
      ∃ added, Converts builtins false messages added ∧ result = ⟨items ++ added, stableCount⟩ := by
  induction messages generalizing start items with
  | nil =>
      simp only [zipIdx_nil, foldlM_nil, pure_eq_ok, converts_nil_iff, exists_eq_left,
        append_nil]
      exact eq_comm
  | cons message messages ih =>
      have hvolatile : ¬ start < count := by omega
      rw [zipIdx_cons, foldlM_cons]
      simp only [convertMessage, hvolatile, decide_false, if_false, bind_eq_ok, pure_eq_ok,
        converts_cons_iff]
      constructor
      · rintro ⟨state, ⟨list, hlist, rfl⟩, hrest⟩
        obtain ⟨added, hadded, rfl⟩ := (ih (by omega)).mp hrest
        exact ⟨list ++ added, ⟨list, added, hlist, hadded, rfl⟩, by rw [append_assoc]⟩
      · rintro ⟨added, ⟨list, rest, hlist, hrest, rfl⟩, rfl⟩
        refine ⟨_, ⟨list, hlist, rfl⟩, (ih (by omega)).mpr ⟨rest, hrest, ?_⟩⟩
        rw [append_assoc]

/-- The input is that of the stable messages, then that of the volatile ones. -/
theorem responsesInput_eq_ok_iff {volatileTailCount : ℤ} {cacheMode : Text} :
    responsesInput builtins (.arr messages) volatileTailCount cacheMode = .ok items ↔
      (0 ≤ volatileTailCount ∧ volatileTailCount ≤ messages.length) ∧
        ∃ front back, Converts builtins true (stableMessages messages volatileTailCount) front ∧
          Converts builtins false (volatileMessages messages volatileTailCount) back ∧
            cached cacheMode ⟨front ++ back, front.length⟩ = .ok items := by
  rw [responsesInput]
  split
  next hbounds =>
    rw [and_iff_right hbounds, bind_eq_ok]
    have hlength : (stableMessages messages volatileTailCount).length =
        messages.length - volatileTailCount.toNat := by
      rw [stableMessages, length_take]
      omega
    have hsplit : messages.zipIdx = (stableMessages messages volatileTailCount).zipIdx ++
        (volatileMessages messages volatileTailCount).zipIdx
          (messages.length - volatileTailCount.toNat) := by
      calc
        messages.zipIdx = (stableMessages messages volatileTailCount ++
            volatileMessages messages volatileTailCount).zipIdx := by
          rw [stableMessages, volatileMessages, take_append_drop]
        _ = _ := by rw [zipIdx_append, hlength, Nat.zero_add]
    rw [hsplit]
    simp only [foldlM_append, bind_eq_ok]
    constructor
    · rintro ⟨result, ⟨state, hstable, hvolatile⟩, hcached⟩
      obtain ⟨front, hfront, rfl⟩ := (foldlM_stable (by omega)).mp hstable
      obtain ⟨back, hback, rfl⟩ := (foldlM_volatile le_rfl).mp hvolatile
      exact ⟨front, back, hfront, hback, hcached⟩
    · rintro ⟨front, back, hfront, hback, hcached⟩
      refine ⟨_, ⟨_, (foldlM_stable (by omega)).mpr ⟨front, hfront, rfl⟩,
        (foldlM_volatile le_rfl).mpr ⟨back, hback, rfl⟩⟩, hcached⟩
  next hbounds => exact iff_of_false (fun hok => by cases hok) fun hand => hbounds hand.1

end Loop

end ReuleauxCoder.Providers
