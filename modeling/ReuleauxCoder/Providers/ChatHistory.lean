import ReuleauxCoder.Library.Failing
import ReuleauxCoder.Providers.Chat

/-!
# A history as Chat Completions messages

The messages stay as they are and in their order; a tool result given as parts becomes a text,
and its images come behind the group.  So a valid history stays valid.
-/

namespace ReuleauxCoder.Providers

open Check PyText PyJson Context Exchanges Failing
open List hiding lookup drop

/-! ## What is kept -/

/-- The images of a message, as whole parts. -/
def imagesOf (message : Json) : List Json :=
  match message.getD (lit "content") with
  | .arr parts => parts.filter (isOfType "image_url")
  | _ => []

/-- The text of a text part. -/
def partTexts : Json → List Text
  | .obj part =>
      if field part "type" = .str (lit "text") then
        match field part "text" with
        | .str text => [text]
        | _ => []
      else []
  | _ => []

/-- A message as it is sent: without the data of the provider, and with one text in place of the
parts of a tool result. -/
inductive ChatKept : Json → Json → Prop
  | same {message : Dict}
      (hcontent : field message "role" = .str (lit "tool") →
        ∀ parts, field message "content" ≠ .arr parts) :
      ChatKept (.obj message) (.obj (drop providerDataKey message))
  | text {message : Dict} {parts : List Json} {lines : List Text}
      (htool : field message "role" = .str (lit "tool"))
      (hcontent : field message "content" = .arr parts)
      (hlines : (parts.flatMap partTexts).Sublist lines) :
      ChatKept (.obj message) (.obj (store (lit "content")
        (.str (List.intercalate (lit "\n") lines)) (drop providerDataKey message)))

/-- The kept messages, with messages of the user between them that carry images. -/
inductive Woven : List Json → List Json → Prop
  | nil : Woven [] []
  | keep {message : Json} {kept messages : List Json} (hrest : Woven kept messages) :
      Woven (message :: kept) (message :: messages)
  | insert {media kept messages : List Json} (hrest : Woven kept messages) :
      Woven kept (mediaMessage media :: messages)

/-! ## The loop as a relation -/

/-- The messages that come of a history, while some media wait. -/
inductive Chats : List Json → List Json → List Json → Prop
  | nil {media : List Json} : Chats media [] (flush media)
  | other {media : List Json} {message item : Json} {rest messages : List Json}
      (htool : isTool message = false) (hkept : ChatKept message item)
      (himages : imagesOf item = imagesOf message) (hrest : Chats [] rest messages) :
      Chats media (message :: rest) (flush media ++ item :: messages)
  | result {media more : List Json} {message item : Json} {rest messages : List Json}
      (htool : isTool message = true) (hkept : ChatKept message item) (hitem : imagesOf item = [])
      (himages : more.filter (isOfType "image_url") = imagesOf message)
      (hrest : Chats (media ++ more) rest messages) :
      Chats media (message :: rest) (item :: messages)

theorem field_drop (message : Dict) {key : String} (hkey : key ≠ "provider_data") :
    field (drop providerDataKey message) key = field message key := by
  rw [field, providerDataKey, lookup_drop_of_ne (mt lit_inj.mp hkey), field]

theorem imagesOf_of_text {message : Dict} {text : Text}
    (hcontent : field message "content" = .str text) : imagesOf (.obj message) = [] := by
  rw [imagesOf, getD_obj, hcontent]

theorem imagesOf_congr {message other : Dict}
    (hcontent : field message "content" = field other "content") :
    imagesOf (.obj message) = imagesOf (.obj other) := by
  rw [imagesOf, imagesOf, getD_obj, getD_obj, hcontent]

theorem field_store_content (message : Dict) (content : Json) :
    field (store (lit "content") content message) "content" = content := by
  rw [field, lookup_store_self, Option.getD_some]

theorem lines_of_mapM {builtins : Builtins} {parts : List Json} {texts : List (Option Text)}
    (htexts : parts.mapM (partText builtins) = .ok texts) :
    (parts.flatMap partTexts).Sublist texts.reduceOption := by
  have hall := mapM_eq_ok_iff.mp htexts
  clear htexts
  induction hall with
  | nil => exact List.Sublist.slnil
  | @cons part text parts texts htext _ ih =>
      rw [flatMap_cons]
      by_cases hpart : partTexts part = []
      · rw [hpart, nil_append]
        cases text with
        | none => exact ih
        | some text => exact ih.cons text
      · cases part with
        | obj fields =>
            rw [partTexts] at hpart ⊢
            split at hpart
            next htype =>
              rw [if_pos htype]
              simp only [partText, htype, if_true] at htext
              cases hfield : field fields "text" with
              | str content =>
                  have hlookup : lookup (lit "text") fields = some (.str content) := by
                    rw [field] at hfield
                    cases hlookup : lookup (lit "text") fields with
                    | none =>
                        rw [hlookup] at hfield
                        cases hfield
                    | some value =>
                        rw [hlookup] at hfield
                        exact congrArg some hfield
                  rw [shownField, hlookup] at htext
                  cases htext
                  exact ih.cons_cons content
              | _ => simp [hfield] at hpart
            next => exact absurd rfl hpart
        | _ => exact absurd rfl hpart

section Chat

variable {builtins : Builtins} {strays : Prop} {source messages media : List Json}

variable {message item : Json} {state : ChatState}

/-- A tool message adds its kept form, and media that wait. -/
theorem chatMessage_tool {next : ChatState} (htool : isTool message = true)
    (hnext : chatMessage builtins state message = .ok next) :
    ∃ item more, ChatKept message item ∧ imagesOf item = [] ∧
      more.filter (isOfType "image_url") = imagesOf message ∧
        next = ⟨state.messages ++ [item], state.media ++ more⟩ := by
  cases message with
  | obj fields =>
      have hrole : field fields "role" = .str (lit "tool") := of_decide_eq_true htool
      simp only [chatMessage, if_pos hrole] at hnext
      have hdrop := field_drop fields (show "content" ≠ "provider_data" by decide)
      by_cases hparts : ∃ parts, field fields "content" = .arr parts
      · obtain ⟨parts, hparts⟩ := hparts
        rw [hdrop, hparts] at hnext
        simp only [chatResult, contentText, bind_eq_ok, pure_eq_ok] at hnext
        obtain ⟨images, himages, text, ⟨texts, htexts, rfl⟩, rfl⟩ := hnext
        refine ⟨_, if images = [] then [] else
          imageLabel builtins (drop providerDataKey fields) :: images,
          .text hrole hparts (lines_of_mapM htexts),
          imagesOf_of_text (field_store_content _ _), ?_, ?_⟩
        · have hfilter : images = parts.filter (isOfType "image_url") := by
            rw [chatImages] at himages
            split at himages
            next => exact (Except.ok.inj himages).symm
            next => cases himages
          have hlabel : isOfType "image_url"
              (imageLabel builtins (drop providerDataKey fields)) = false := by
            rw [Bool.eq_false_iff, Ne, imageLabel, isOfType_textBlock]
            decide
          have hagain : images.filter (isOfType "image_url") = images := by
            rw [hfilter, filter_filter]
            simp only [Bool.and_self]
          have hof : imagesOf (.obj fields) = images := by
            rw [imagesOf, getD_obj, hparts, hfilter]
          rw [hof]
          split
          next hnil => rw [hnil, filter_nil]
          next => rw [filter_cons_of_neg (by rw [hlabel]; exact Bool.false_ne_true), hagain]
        · split <;> simp
      · have hsame : next = { state with
            messages := state.messages ++ [.obj (drop providerDataKey fields)] } := by
          cases hcontent : field fields "content" with
          | arr parts => exact absurd ⟨parts, hcontent⟩ hparts
          | _ =>
              rw [hdrop, hcontent] at hnext
              cases hnext
              rfl
        have hnone (other : Dict) (hother : field other "content" = field fields "content") :
            imagesOf (.obj other) = [] := by
          rw [imagesOf, getD_obj, hother]
          split
          next parts hcontent => exact absurd ⟨parts, hcontent⟩ hparts
          next => rfl
        subst hsame
        refine ⟨_, [], .same fun _ parts hcontent => hparts ⟨parts, hcontent⟩, hnone _ hdrop, ?_, ?_⟩
        · rw [filter_nil, hnone fields rfl]
        · rw [append_nil]
  | _ => cases hnext

theorem chatMessage_other {next : ChatState} (htool : isTool message = false)
    (hnext : chatMessage builtins state message = .ok next) :
    ∃ item, ChatKept message item ∧ imagesOf item = imagesOf message ∧
      next = ⟨state.messages ++ flush state.media ++ [item], []⟩ := by
  cases message with
  | obj fields =>
      have hrole : field fields "role" ≠ .str (lit "tool") := of_decide_eq_false htool
      simp only [chatMessage, if_neg hrole] at hnext
      cases hnext
      exact ⟨_, .same fun hsame => absurd hsame hrole,
        imagesOf_congr (field_drop fields (by decide)), rfl⟩
  | _ => cases hnext

/-- The loop adds the messages that come of a history. -/
theorem foldlM_chatMessage {result : ChatState}
    (hresult : source.foldlM (chatMessage builtins) state = .ok result) :
    ∃ added, Chats state.media source added ∧
      result.messages ++ flush result.media = state.messages ++ added := by
  induction source generalizing state with
  | nil =>
      cases hresult
      exact ⟨_, .nil, rfl⟩
  | cons message source ih =>
      rw [foldlM_cons, bind_eq_ok] at hresult
      obtain ⟨next, hnext, hrest⟩ := hresult
      obtain ⟨added, hadded, hmessages⟩ := ih hrest
      cases htool : isTool message with
      | true =>
          obtain ⟨item, more, hkept, hitem, himages, rfl⟩ := chatMessage_tool htool hnext
          refine ⟨item :: added, .result htool hkept hitem himages hadded, ?_⟩
          rw [hmessages, append_assoc, singleton_append]
      | false =>
          obtain ⟨item, hkept, himages, rfl⟩ := chatMessage_other htool hnext
          refine ⟨flush state.media ++ item :: added, .other htool hkept himages hadded, ?_⟩
          rw [hmessages, append_assoc, append_assoc, singleton_append]

/-! ## Images and texts -/

theorem flatMap_imagesOf_flush (media : List Json) :
    (flush media).flatMap imagesOf = media.filter (isOfType "image_url") := by
  rw [flush]
  split
  next hnil =>
    subst hnil
    rfl
  next =>
    rw [flatMap_singleton]
    simp [imagesOf, mediaMessage, Json.getD, lookup, lit_inj]

theorem Chats.images (hchats : Chats media source messages) :
    messages.flatMap imagesOf =
      media.filter (isOfType "image_url") ++ source.flatMap imagesOf := by
  induction hchats with
  | nil => rw [flatMap_imagesOf_flush, flatMap_nil, append_nil]
  | other _ _ himages _ ih =>
      rw [flatMap_append, flatMap_imagesOf_flush, flatMap_cons, himages, ih,
        filter_nil, nil_append, flatMap_cons]
  | result _ _ hitem himages _ ih =>
      rw [flatMap_cons, hitem, nil_append, ih, filter_append, himages,
        flatMap_cons, append_assoc]

theorem woven_flush {kept : List Json} (hwoven : Woven kept messages) :
    Woven kept (flush media ++ messages) := by
  rw [flush]
  split
  next => exact hwoven
  next => exact .insert hwoven

theorem Chats.woven (hchats : Chats media source messages) :
    ∃ kept, List.Forall₂ ChatKept source kept ∧ Woven kept messages := by
  induction hchats with
  | @nil media =>
      refine ⟨[], .nil, ?_⟩
      rw [← append_nil (flush media)]
      exact woven_flush .nil
  | other _ hkept _ _ ih =>
      obtain ⟨kept, hall, hwoven⟩ := ih
      exact ⟨_ :: kept, .cons hkept hall, woven_flush (.keep hwoven)⟩
  | result _ hkept _ _ _ ih =>
      obtain ⟨kept, hall, hwoven⟩ := ih
      exact ⟨_ :: kept, .cons hkept hall, .keep hwoven⟩

/-! ## Calls and results -/

theorem roleOf_kept (hkept : ChatKept message item) : roleOf item = roleOf message := by
  cases hkept with
  | same => exact field_drop _ (by decide)
  | text =>
      rw [roleOf, roleOf, field, lookup_store_of_ne (mt lit_inj.mp (by decide)), ← field]
      exact field_drop _ (by decide)

theorem toolCallsOf_congr {message other : Dict}
    (hcalls : field message "tool_calls" = field other "tool_calls") :
    toolCallsOf message = toolCallsOf other := by
  rw [toolCallsOf, toolCallsOf, hcalls]

theorem callsOf_kept (hkept : ChatKept message item) : callsOf item = callsOf message := by
  have hrole := roleOf_kept hkept
  cases hkept with
  | same =>
      simp only [roleOf] at hrole
      simp only [callsOf, hrole, toolCallsOf_congr (field_drop _ (by decide))]
  | @text message _ _ htool =>
      have hof : roleOf (.obj message) = .str (lit "tool") := htool
      rw [callsOf_tool (decide_eq_true hof), callsOf_tool]
      exact decide_eq_true (hrole.trans hof)

theorem toolCallId_kept (hkept : ChatKept message item) :
    toolCallId builtins item = toolCallId builtins message := by
  cases hkept with
  | same => rw [toolCallId, toolCallId, getD_obj, getD_obj, field_drop _ (by decide)]
  | text =>
      rw [toolCallId, toolCallId, getD_obj, getD_obj, field,
        lookup_store_of_ne (mt lit_inj.mp (by decide)), ← field, field_drop _ (by decide)]

/-- A kept message has the part in exchanges that the message had. -/
theorem alike_kept (builtins : Builtins) (hkept : ChatKept message item) :
    Alike (messageProtocol builtins) (messageProtocol builtins) message item := by
  have htool : isTool item = isTool message := by rw [isTool, isTool, roleOf_kept hkept]
  rw [Alike, messageProtocol]
  simp only [callsOf_kept hkept, htool, toolCallId_kept hkept, and_self]

theorem callsOf_flush (media : List Json) : ∀ message ∈ flush media, callsOf message = [] := by
  rw [flush]
  split
  next => exact fun message hmessage => absurd hmessage not_mem_nil
  next =>
    rw [forall_mem_singleton]
    simp [callsOf, mediaMessage, toolCallsOf, field, lookup, lit_inj, Json.truthy]

theorem isTool_flush (media : List Json) : ∀ message ∈ flush media, ¬ isTool message = true := by
  rw [flush]
  split
  next => exact fun message hmessage => absurd hmessage not_mem_nil
  next =>
    rw [forall_mem_singleton]
    simp [isTool, roleOf, mediaMessage, field, lit_inj]

theorem quiet_flush (media : List Json) :
    ∀ message ∈ flush media, (messageProtocol builtins).Quiet message := fun message hmessage =>
  ⟨calls_eq_nil_iff.mpr (callsOf_flush media message hmessage),
    answer_of_not_isTool (isTool_flush media message hmessage)⟩

/-- Tool messages stay together. -/
theorem Chats.tools {answers rest : List Json}
    (hchats : Chats media (answers ++ rest) messages)
    (htools : ∀ message ∈ answers, isTool message = true) :
    ∃ items later waiting, messages = items ++ later ∧ List.Forall₂ ChatKept answers items ∧
      Chats waiting rest later := by
  induction answers generalizing media messages with
  | nil => exact ⟨[], messages, media, rfl, .nil, hchats⟩
  | cons answer answers ih =>
      rw [forall_mem_cons] at htools
      cases hchats with
      | other htool =>
          rw [htools.1] at htool
          cases htool
      | result _ hkept _ _ hrest =>
          obtain ⟨items, later, waiting, rfl, hall, hlater⟩ := ih hrest htools.2
          exact ⟨_ :: items, later, waiting, rfl, .cons hkept hall, hlater⟩

theorem Chats.answered (hanswered : Answered (messageProtocol builtins) False strays source)
    (hchats : Chats media source messages) :
    Answered (messageProtocol builtins) False strays messages := by
  induction hanswered generalizing media messages with
  | nil =>
      cases hchats
      rw [← append_nil (flush media)]
      exact .quiet_append (quiet_flush media) .nil
  | quiet hquiet _ ih =>
      cases hchats with
      | other _ hkept _ hrest =>
          have halike := alike_kept builtins hkept
          exact .quiet_append (quiet_flush media)
            (.quiet ⟨halike.1 ▸ hquiet.1, halike.2 ▸ hquiet.2⟩ (ih hrest))
      | result htool =>
          have hanswer := hquiet.2
          rw [answer_of_isTool htool] at hanswer
          cases hanswer
  | stray hstrays hcalls hanswer _ ih =>
      have htool := isTool_of_answer hanswer
      cases hchats with
      | other hother =>
          rw [htool] at hother
          cases hother
      | result _ hkept _ _ hrest =>
          have halike := alike_kept builtins hkept
          exact .stray hstrays (halike.1 ▸ hcalls) (halike.2 ▸ hanswer) (ih hrest)
  | @exchange callers answers rest hcallers htogether hcalls hanswers hperm _ ih =>
      obtain ⟨caller, rfl⟩ := length_eq_one_iff.mp (htogether.resolve_right id)
      have hcaller := forall_mem_singleton.mp hcalls
      rw [append_assoc, singleton_append] at hchats
      cases hchats with
      | result htool =>
          have hanswer := hcaller.2
          rw [answer_of_isTool htool] at hanswer
          cases hanswer
      | @other _ _ item _ _ _ hkept _ hrest =>
          have htools : ∀ message ∈ answers, isTool message = true := fun message hmessage =>
            isTool_of_answer (answer_ne_none_of_perm hperm message hmessage)
          obtain ⟨items, later, waiting, rfl, hall, hlater⟩ := hrest.tools htools
          have hsame := hall.imp fun _ _ => alike_kept builtins
          have halike : Alike (messageProtocol builtins) (messageProtocol builtins) caller item :=
            alike_kept builtins hkept
          refine .quiet_append (quiet_flush media) ?_
          rw [← singleton_append, ← append_assoc]
          refine .exchange (cons_ne_nil _ _) (.inl rfl) ?_
            (forall_alike (fun calls _ => calls = []) hsame hanswers) ?_ (ih hlater)
          · rw [forall_mem_singleton, ← halike.1, ← halike.2]
            exact hcaller
          · rwa [← map_answer_alike hsame, flatMap_singleton, ← halike.1,
              ← flatMap_singleton (messageProtocol builtins).calls]

theorem Chats.callers
    (hcallers : ∀ message ∈ source, callsOf message ≠ [] →
      roleOf message = .str (lit "assistant"))
    (hchats : Chats media source messages) :
    ∀ message ∈ messages, callsOf message ≠ [] → roleOf message = .str (lit "assistant") := by
  have hflush (waiting : List Json) : ∀ message ∈ flush waiting, callsOf message ≠ [] →
      roleOf message = .str (lit "assistant") := by
    intro message hmessage hcalls
    exact absurd (callsOf_flush waiting message hmessage) hcalls
  induction hchats with
  | nil => exact hflush _
  | other _ hkept _ _ ih =>
      rw [forall_mem_cons] at hcallers
      rw [forall_mem_append, forall_mem_cons, callsOf_kept hkept, roleOf_kept hkept]
      exact ⟨hflush _, hcallers.1, ih hcallers.2⟩
  | result _ hkept _ _ _ ih =>
      rw [forall_mem_cons] at hcallers
      rw [forall_mem_cons, callsOf_kept hkept, roleOf_kept hkept]
      exact ⟨hcallers.1, ih hcallers.2⟩

/-- What a Chat Completions request keeps of a history. -/
structure ChatKeeps (builtins : Builtins) (strays : Prop) (source messages : List Json) :
    Prop where
  valid : ValidHistory builtins strays messages
  images : messages.flatMap imagesOf = source.flatMap imagesOf
  woven : ∃ kept, List.Forall₂ ChatKept source kept ∧ Woven kept messages

/-- A Chat Completions request keeps a valid history. -/
theorem chatMessages_keeps (hvalid : ValidHistory builtins strays source)
    (hmessages : chatMessages builtins source = .ok messages) :
    ChatKeeps builtins strays source messages := by
  simp only [chatMessages, bind_eq_ok, pure_eq_ok] at hmessages
  obtain ⟨state, hstate, rfl⟩ := hmessages
  obtain ⟨added, hchats, hadded⟩ := foldlM_chatMessage hstate
  rw [nil_append] at hadded
  rw [hadded]
  exact ⟨⟨hchats.callers hvalid.callers, hchats.answered hvalid.answered⟩, hchats.images,
    hchats.woven⟩

end Chat

end ReuleauxCoder.Providers
