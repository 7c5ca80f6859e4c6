import ReuleauxCoder.Library.JsonSizes
import ReuleauxCoder.Library.Weighted

/-!
# The recent conversation

What a user interface shows of a restored session: the newest entries, as many as fit a
number of bytes of JSON, the long ones cut.  An entry is measured as it will be encoded,
and its content is cut by characters, at the longest prefix that still fits; a lone
surrogate in what is measured cannot be encoded, and the measurement raises.
-/

namespace ReuleauxCoder.Persistence

open PyText PyJson

def maxRecentConversationBytes : ℤ := 256 * 1024

def maxRecentEntryBytes : ℤ := 64 * 1024

def maxRecentConversationEntries : ℕ := 128

/-- An entry of the conversation: a dictionary with a text as its content. -/
structure ConversationEntry where
  fields : List (Text × Json)
  content : Text
  stored : lookup (lit "content") fields = some (.str content)

namespace ConversationEntry

/-- `{**entry, "content": text}`. -/
def withContent (entry : ConversationEntry) (text : Text) : ConversationEntry where
  fields := store (lit "content") (.str text) entry.fields
  content := text
  stored := lookup_store_self _ _ _

def toJson (entry : ConversationEntry) : Json :=
  .obj entry.fields

end ConversationEntry

def previewTruncated : Text :=
  lit "\n[Preview truncated; open session history for full content.]"

def previewOmitted : ConversationEntry where
  fields := [
    (lit "role", .str (lit "assistant")),
    (lit "content",
      .str (lit "[Earlier preview entries omitted; open session history for full content.]"))]
  content := lit "[Earlier preview entries omitted; open session history for full content.]"
  stored := rfl

/-- `_preview_size`; `none` where encoding raises. -/
def previewSize (entry : ConversationEntry) : Option ℕ :=
  encodedSize entry.toJson

/-- The preview of an entry that keeps so many characters of its content. -/
def ConversationEntry.cut (entry : ConversationEntry) (count : ℕ) : ConversationEntry :=
  entry.withContent (entry.content.take count ++ previewTruncated)

/-- `len(text) <= budget and _preview_size(entry) <= budget`. -/
def fitsWhole (entry : ConversationEntry) (budget : ℤ) : Option Bool :=
  if (entry.content.length : ℤ) ≤ budget then
    (previewSize entry).map fun (size : ℕ) => decide ((size : ℤ) ≤ budget)
  else some false

/-- The binary search for the number of characters to keep. -/
def searchLength (entry : ConversationEntry) (budget : ℤ) : ℕ → ℕ → ℕ → Option ℕ
  | 0, low, _ => some low
  | fuel + 1, low, high =>
      if low < high then
        let middle := (low + high + 1) / 2
        match previewSize (entry.cut middle) with
        | none => none
        | some size =>
            if (size : ℤ) ≤ budget then searchLength entry budget fuel middle high
            else searchLength entry budget fuel low (middle - 1)
      else some low

/-- What an iteration of the loop appends for an entry, or `none` inside: it breaks. -/
def previewWithin (entry : ConversationEntry) (budget : ℤ) : Option (Option ConversationEntry) := do
  let whole ← fitsWhole entry budget
  if whole then return some entry
  else
    let size ← previewSize (entry.withContent previewTruncated)
    if budget < size then return none
    else
      let high := (min (entry.content.length : ℤ) budget).toNat
      let low ← searchLength entry budget high 0 high
      return some (entry.cut low)

/-- The loop over the entries, from the newest one; the result is in the same order. -/
def selectPreviews : List ConversationEntry → ℕ → ℤ → Option (List ConversationEntry)
  | [], _, _ => some []
  | entry :: older, selected, remaining =>
      if maxRecentConversationEntries ≤ selected then some []
      else do
        let preview ← previewWithin entry (min maxRecentEntryBytes (remaining - 1))
        match preview with
        | none => return []
        | some preview => do
            let size ← previewSize preview
            let later ← selectPreviews older (selected + 1) (remaining - (size + 1))
            return preview :: later

/-- `_bounded_recent_conversation`. -/
def boundedRecentConversation (entries : List ConversationEntry) :
    Option (List ConversationEntry) := do
  let notice ← previewSize previewOmitted
  let selected ← selectPreviews entries.reverse 0 (maxRecentConversationBytes - 2 - notice - 1)
  if selected.length < entries.length then return (selected ++ [previewOmitted]).reverse
  else return selected.reverse

end ReuleauxCoder.Persistence
