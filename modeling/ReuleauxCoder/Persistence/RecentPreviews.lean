import ReuleauxCoder.Persistence.RecentConversation

/-!
# What the recent conversation shows

Cutting an entry later never makes its JSON smaller, so the binary search finds the
longest prefix that fits.  The loop keeps, for the previews it has chosen, that their
bytes, each with a separator, fit what is left after the brackets and the notice.
-/

namespace ReuleauxCoder.Persistence

open PyText PyJson List

namespace ConversationEntry

/-- The bytes of the JSON of an entry. -/
def bytes (entry : ConversationEntry) : ℕ :=
  jsonBytes entry.toJson

variable (entry : ConversationEntry)

theorem fields_eq_store : entry.fields = store (lit "content") (.str entry.content) entry.fields :=
  (store_of_lookup_eq_some entry.stored).symm

theorem length_le_bytes : entry.content.length ≤ entry.bytes := by
  rw [bytes, toJson, fields_eq_store]
  exact length_le_jsonBytes_store _ _ _

theorem length_le_bytes_withContent (text : Text) :
    text.length ≤ (entry.withContent text).bytes :=
  length_le_bytes (entry.withContent text)

theorem bytes_withContent_mono {left right : Text}
    (hle : utf8Size (escapeAll left) ≤ utf8Size (escapeAll right)) :
    (entry.withContent left).bytes ≤ (entry.withContent right).bytes :=
  jsonBytes_store_mono _ _ hle

theorem bytes_withContent_self : (entry.withContent entry.content).bytes = entry.bytes := by
  have hfields : (entry.withContent entry.content).fields = entry.fields :=
    entry.fields_eq_store.symm
  rw [bytes, bytes, toJson, toJson, hfields]

theorem bytes_cut_mono {left right : ℕ} (hle : left ≤ right) :
    (entry.cut left).bytes ≤ (entry.cut right).bytes := by
  obtain ⟨more, hmore⟩ := take_prefix_take_left (l := entry.content) hle
  apply bytes_withContent_mono
  rw [← hmore]
  simp only [escapeAll, flatMap_append, utf8Size_append]
  omega

theorem bytes_le_bytes_cut {count : ℕ} (hcount : entry.content.length ≤ count) :
    entry.bytes ≤ (entry.cut count).bytes := by
  rw [← bytes_withContent_self, cut, take_of_length_le hcount]
  apply bytes_withContent_mono
  simp only [escapeAll, flatMap_append, utf8Size_append]
  omega

theorem min_length_le_bytes_cut (count : ℕ) :
    min count entry.content.length ≤ (entry.cut count).bytes := by
  have hlength := entry.length_le_bytes_withContent
    (entry.content.take count ++ previewTruncated)
  rw [length_append, length_take] at hlength
  exact (Nat.le_add_right _ _).trans hlength

/-- The JSON of an entry can be encoded. -/
def Encodable : Prop :=
  utf8Encodable (dumps compact entry.toJson) = true

theorem previewSize_eq_some {size : ℕ} :
    previewSize entry = some size ↔ entry.Encodable ∧ entry.bytes = size :=
  encodedSize_eq_some

theorem Encodable.previewSize {entry : ConversationEntry} (hentry : entry.Encodable) :
    previewSize entry = some entry.bytes :=
  entry.previewSize_eq_some.mpr ⟨hentry, rfl⟩

theorem Encodable.cut {entry : ConversationEntry} (hentry : entry.Encodable) (count : ℕ) :
    (entry.cut count).Encodable := by
  rw [Encodable, toJson, fields_eq_store] at hentry
  apply utf8Encodable_store _ _ hentry
  have hcontent := utf8Encodable_iff.mp (utf8Encodable_of_store hentry)
  have hnotice : utf8Encodable previewTruncated = true := by decide
  rw [utf8Encodable_append, hnotice, Bool.and_true, utf8Encodable_iff]
  exact fun c hc => hcontent c (mem_of_mem_take hc)

end ConversationEntry

open ConversationEntry

/-- What is shown of an entry: the entry where it fits the budget, else the longest prefix
of its content that fits together with the notice. -/
inductive IsPreview (budget : ℤ) (entry : ConversationEntry) : ConversationEntry → Prop
  | whole (hfits : (entry.bytes : ℤ) ≤ budget) : IsPreview budget entry entry
  | shortened (count : ℕ) (hlong : budget < entry.bytes) (hcount : count < entry.content.length)
      (hfits : ((entry.cut count).bytes : ℤ) ≤ budget)
      (hlongest : ∀ longer, count < longer → budget < (entry.cut longer).bytes) :
      IsPreview budget entry (entry.cut count)

variable {budget : ℤ}

theorem IsPreview.fits {entry preview : ConversationEntry}
    (hpreview : IsPreview budget entry preview) : (preview.bytes : ℤ) ≤ budget := by
  cases hpreview with
  | whole hfits => exact hfits
  | shortened count _ _ hfits => exact hfits

/-! ## The measurements -/

theorem fitsWhole_true {entry : ConversationEntry} (hwhole : fitsWhole entry budget = some true) :
    (entry.bytes : ℤ) ≤ budget := by
  rw [fitsWhole] at hwhole
  split at hwhole
  · obtain ⟨size, hsize, hfits⟩ := Option.map_eq_some_iff.mp hwhole
    rw [((previewSize_eq_some entry).mp hsize).2]
    exact of_decide_eq_true hfits
  · cases hwhole

theorem fitsWhole_false {entry : ConversationEntry} (hlong : fitsWhole entry budget = some false) :
    budget < entry.bytes := by
  rw [fitsWhole] at hlong
  split at hlong
  · obtain ⟨size, hsize, hfits⟩ := Option.map_eq_some_iff.mp hlong
    rw [((previewSize_eq_some entry).mp hsize).2]
    exact not_le.mp (of_decide_eq_false hfits)
  · rename_i hlength
    have hbytes := entry.length_le_bytes
    omega

/-- The cuts that fit a budget. -/
def fitsCut (entry : ConversationEntry) (budget : ℤ) (count : ℕ) : Bool :=
  decide (((entry.cut count).bytes : ℤ) ≤ budget)

theorem searchLength_eq {entry : ConversationEntry} {fuel low high count : ℕ}
    (hsearch : searchLength entry budget fuel low high = some count) :
    Bisection.rightmost (fitsCut entry budget) fuel low high = count := by
  induction fuel generalizing low high with
  | zero => exact Option.some.inj hsearch
  | succ fuel ih =>
      rw [searchLength] at hsearch
      rw [Bisection.rightmost]
      split
      · rename_i hlt
        rw [if_pos hlt] at hsearch
        dsimp only at hsearch ⊢
        cases hsize : previewSize (entry.cut ((low + high + 1) / 2)) with
        | none => simp [hsize] at hsearch
        | some size =>
            rw [hsize] at hsearch
            have hbytes := ((previewSize_eq_some _).mp hsize).2
            by_cases hfits : (size : ℤ) ≤ budget
            · simp only [if_pos hfits] at hsearch
              rw [if_pos (by rw [fitsCut, hbytes]; exact decide_eq_true hfits)]
              exact ih hsearch
            · simp only [if_neg hfits] at hsearch
              rw [if_neg (by rw [fitsCut, hbytes]; simpa using hfits)]
              exact ih hsearch
      · rename_i hge
        rw [if_neg hge] at hsearch
        exact Option.some.inj hsearch

theorem searchLength_isSome {entry : ConversationEntry} (hentry : entry.Encodable)
    (budget : ℤ) (fuel low high : ℕ) :
    ∃ count, searchLength entry budget fuel low high = some count := by
  induction fuel generalizing low high with
  | zero => exact ⟨low, rfl⟩
  | succ fuel ih =>
      rw [searchLength]
      split
      · simp only [(hentry.cut _).previewSize]
        split
        · exact ih _ _
        · exact ih _ _
      · exact ⟨low, rfl⟩

/-- What the search finds for an entry that does not fit. -/
theorem searchLength_spec {entry : ConversationEntry} {count : ℕ} (hlong : budget < entry.bytes)
    (hnotice : ((entry.cut 0).bytes : ℤ) ≤ budget)
    (hsearch : searchLength entry budget (min (entry.content.length : ℤ) budget).toNat 0
      (min (entry.content.length : ℤ) budget).toNat = some count) :
    IsPreview budget entry (entry.cut count) := by
  have hanti : ∀ {left right}, left ≤ right → fitsCut entry budget right = true →
      fitsCut entry budget left = true := by
    intro left right hle hfits
    have hmono := entry.bytes_cut_mono hle
    rw [fitsCut, decide_eq_true_eq] at hfits ⊢
    omega
  have habove : ∀ place, (min (entry.content.length : ℤ) budget).toNat < place →
      ¬ fitsCut entry budget place = true := by
    intro place hplace hfits
    rw [fitsCut, decide_eq_true_eq] at hfits
    have hlength := entry.min_length_le_bytes_cut place
    rcases Nat.lt_or_ge place entry.content.length with hshort | hall
    · rw [min_eq_left hshort.le] at hlength
      omega
    · have hbytes := entry.bytes_le_bytes_cut hall
      omega
  have hspec := Bisection.rightmost_spec hanti (Nat.sub_le _ 0) (Nat.zero_le _)
    (decide_eq_true hnotice) habove
  rw [searchLength_eq hsearch] at hspec
  have hfits : ((entry.cut count).bytes : ℤ) ≤ budget := of_decide_eq_true hspec.1
  refine .shortened count hlong ?_ hfits ?_
  · by_contra hall
    have hbytes := entry.bytes_le_bytes_cut (not_lt.mp hall)
    omega
  · intro longer hlonger
    have hlonger := hspec.2 longer hlonger
    rw [fitsCut, decide_eq_true_eq] at hlonger
    exact not_le.mp hlonger

/-- An iteration appends a preview, or the notice alone is too much. -/
theorem previewWithin_spec {entry : ConversationEntry} {result : Option ConversationEntry}
    (hresult : previewWithin entry budget = some result) :
    (∃ preview, result = some preview ∧ IsPreview budget entry preview) ∨
      result = none ∧ budget < (entry.cut 0).bytes := by
  unfold previewWithin at hresult
  simp only [Option.bind_eq_bind, Option.bind_eq_some_iff] at hresult
  obtain ⟨whole, hwhole, hresult⟩ := hresult
  cases whole with
  | true =>
      rw [if_pos rfl] at hresult
      exact .inl ⟨entry, (Option.some.inj hresult).symm, .whole (fitsWhole_true hwhole)⟩
  | false =>
      rw [if_neg Bool.false_ne_true] at hresult
      simp only [Option.bind_eq_some_iff] at hresult
      obtain ⟨size, hsize, hresult⟩ := hresult
      have hbytes : (entry.cut 0).bytes = size := ((previewSize_eq_some _).mp hsize).2
      by_cases hnotice : budget < size
      · rw [if_pos hnotice] at hresult
        exact .inr ⟨(Option.some.inj hresult).symm, by rw [hbytes]; exact hnotice⟩
      · rw [if_neg hnotice] at hresult
        simp only [Option.bind_eq_some_iff] at hresult
        obtain ⟨count, hsearch, hresult⟩ := hresult
        refine .inl ⟨entry.cut count, (Option.some.inj hresult).symm, ?_⟩
        exact searchLength_spec (fitsWhole_false hwhole)
          (by rw [hbytes]; exact not_lt.mp hnotice) hsearch

theorem previewWithin_isSome {entry : ConversationEntry} (hentry : entry.Encodable)
    (budget : ℤ) : ∃ result, previewWithin entry budget = some result := by
  have hwhole : ∃ whole, fitsWhole entry budget = some whole := by
    rw [fitsWhole]
    split
    · rw [hentry.previewSize]
      exact ⟨_, rfl⟩
    · exact ⟨false, rfl⟩
  obtain ⟨whole, hwhole⟩ := hwhole
  obtain ⟨count, hsearch⟩ := searchLength_isSome hentry budget
    (min (entry.content.length : ℤ) budget).toNat 0
    (min (entry.content.length : ℤ) budget).toNat
  have hnotice : previewSize (entry.withContent previewTruncated) =
      some (entry.cut 0).bytes := (hentry.cut 0).previewSize
  unfold previewWithin
  rw [hwhole]
  simp only [Option.bind_eq_bind, Option.bind_some, hnotice, hsearch]
  split
  · exact ⟨_, rfl⟩
  · split
    · exact ⟨_, rfl⟩
    · exact ⟨_, rfl⟩

theorem IsPreview.encodable {entry preview : ConversationEntry}
    (hpreview : IsPreview budget entry preview) (hentry : entry.Encodable) :
    preview.Encodable := by
  cases hpreview with
  | whole => exact hentry
  | shortened count => exact hentry.cut count

/-! ## The loop -/

/-- The bytes of previews, each with a separator. -/
def spent (previews : List ConversationEntry) : ℤ :=
  (previews.map fun preview => (preview.bytes : ℤ) + 1).sum

/-- What the brackets and the notice leave for previews. -/
def previewLimit : ℤ :=
  maxRecentConversationBytes - 2 - previewOmitted.bytes - 1

/-- The budget of an entry when the newer ones have their previews. -/
def budgetAfter (newer : List ConversationEntry) : ℤ :=
  min maxRecentEntryBytes (previewLimit - spent newer - 1)

/-- One preview for each entry, in order, each within the budget that newer ones leave. -/
inductive Previews : List ConversationEntry → List ConversationEntry → Prop
  | nil : Previews [] []
  | cons {entry preview : ConversationEntry} {entries previews : List ConversationEntry} :
      IsPreview (budgetAfter previews) entry preview → Previews entries previews →
      Previews (entry :: entries) (preview :: previews)

/-- The loop has chosen the previews of the newest entries. -/
structure Chosen (entries previews : List ConversationEntry) : Prop where
  shown : Previews entries previews
  fits : spent previews ≤ previewLimit
  bounded : previews.length ≤ maxRecentConversationEntries
  encodable : ∀ preview ∈ previews, preview.Encodable

theorem encodable_previewOmitted : previewOmitted.Encodable := by
  rw [ConversationEntry.Encodable]
  decide +kernel

theorem previewLimit_pos : 0 ≤ previewLimit := by
  have hbytes : previewOmitted.bytes = 106 := by decide +kernel
  rw [previewLimit, maxRecentConversationBytes, hbytes]
  decide

theorem Chosen.nil : Chosen [] [] where
  shown := .nil
  fits := previewLimit_pos
  bounded := Nat.zero_le _
  encodable := fun _ hpreview => absurd hpreview not_mem_nil

variable {entries previews : List ConversationEntry}

theorem Chosen.cons {entry preview : ConversationEntry} (hchosen : Chosen entries previews)
    (hroom : previews.length < maxRecentConversationEntries)
    (hpreview : IsPreview (budgetAfter previews) entry preview) (hencodable : preview.Encodable) :
    Chosen (entry :: entries) (preview :: previews) where
  shown := .cons hpreview hchosen.shown
  fits := by
    have hfits := hpreview.fits.trans (min_le_right _ _)
    rw [spent, map_cons, sum_cons, ← spent]
    omega
  bounded := hroom
  encodable := by
    intro other hother
    rcases mem_cons.mp hother with rfl | hother
    · exact hencodable
    · exact hchosen.encodable other hother

/-- The newest entry that has no preview came too late, or not even the notice fits. -/
def Stopped (left previews : List ConversationEntry) : Prop :=
  ∀ entry ∈ left.getLast?, maxRecentConversationEntries ≤ previews.length ∨
    budgetAfter previews < (entry.cut 0).bytes

theorem selectPreviews_spec {older later : List ConversationEntry}
    (hchosen : Chosen entries previews)
    (hselect : selectPreviews older previews.length (previewLimit - spent previews) = some later) :
    ∃ left kept, older.reverse = left ++ kept ∧
      Chosen (kept ++ entries) (later.reverse ++ previews) ∧
      Stopped left (later.reverse ++ previews) := by
  induction older generalizing entries previews later with
  | nil =>
      cases hselect
      exact ⟨[], [], rfl, hchosen, fun entry hentry => absurd hentry (by simp)⟩
  | cons entry older ih =>
      rw [selectPreviews] at hselect
      have hlast : ∀ newest ∈ (entry :: older).reverse.getLast?, newest = entry := by
        intro newest hnewest
        rw [reverse_cons, getLast?_concat] at hnewest
        exact (Option.some.inj hnewest).symm
      split at hselect
      · rename_i hfull
        cases hselect
        exact ⟨_, [], (append_nil _).symm, hchosen, fun _ _ => .inl hfull⟩
      · rename_i hroom
        simp only [Option.bind_eq_bind, Option.bind_eq_some_iff] at hselect
        obtain ⟨result, hresult, hselect⟩ := hselect
        rcases previewWithin_spec hresult with ⟨preview, rfl, hpreview⟩ | ⟨rfl, hnotice⟩
        · simp only [Option.bind_eq_some_iff] at hselect
          obtain ⟨size, hsize, rest, hrest, hlater⟩ := hselect
          obtain ⟨hencodable, hbytes⟩ := (previewSize_eq_some _).mp hsize
          have hspent : previewLimit - spent previews - ((size : ℤ) + 1) =
              previewLimit - spent (preview :: previews) := by
            rw [spent, spent, map_cons, sum_cons, hbytes]
            omega
          rw [hspent] at hrest
          obtain ⟨left, kept, hsplit, hmore, hstopped⟩ :=
            ih (hchosen.cons (not_le.mp hroom) hpreview hencodable) hrest
          cases hlater
          refine ⟨left, kept ++ [entry], ?_, ?_, ?_⟩
          · rw [reverse_cons, hsplit, append_assoc]
          · rw [append_assoc, reverse_cons, append_assoc]
            exact hmore
          · rw [reverse_cons, append_assoc]
            exact hstopped
        · cases hselect
          refine ⟨_, [], (append_nil _).symm, hchosen, fun newest hnewest => .inr ?_⟩
          rw [hlast newest hnewest]
          exact hnotice

theorem selectPreviews_isSome {older : List ConversationEntry}
    (holder : ∀ entry ∈ older, entry.Encodable) (selected : ℕ) (remaining : ℤ) :
    ∃ later, selectPreviews older selected remaining = some later := by
  induction older generalizing selected remaining with
  | nil => exact ⟨[], rfl⟩
  | cons entry older ih =>
      have hentry := holder entry (mem_cons_self ..)
      rw [selectPreviews]
      split
      · exact ⟨[], rfl⟩
      · obtain ⟨result, hresult⟩ := previewWithin_isSome hentry
          (min maxRecentEntryBytes (remaining - 1))
        rw [hresult]
        rcases previewWithin_spec hresult with ⟨preview, rfl, hpreview⟩ | ⟨rfl, -⟩
        · obtain ⟨later, hlater⟩ := ih
            (fun other hother => holder other (mem_cons_of_mem _ hother)) (selected + 1)
            (remaining - ((preview.bytes : ℤ) + 1))
          simp only [Option.bind_eq_bind, Option.bind_some,
            (hpreview.encodable hentry).previewSize, hlater]
          exact ⟨_, rfl⟩
        · exact ⟨[], rfl⟩

/-! ## The whole preview -/

/-- The result for a list of entries: a notice exactly when entries are left out, then one
preview for each of the newest entries, within the number of bytes. -/
def IsBounded (entries result : List ConversationEntry) : Prop :=
  ∃ left kept previews, entries = left ++ kept ∧ Previews kept previews ∧
    result = (if left.isEmpty then [] else [previewOmitted]) ++ previews ∧
    previews.length ≤ maxRecentConversationEntries ∧ Stopped left previews ∧
    ∃ size : ℕ, encodedSize (.arr (result.map ConversationEntry.toJson)) = some size ∧
      (size : ℤ) ≤ maxRecentConversationBytes

theorem Previews.length_eq (hpreviews : Previews entries previews) :
    previews.length = entries.length := by
  induction hpreviews with
  | nil => rfl
  | cons _ _ ih => rw [length_cons, length_cons, ih]

/-- The previews fit with the notice, the brackets and the separators. -/
theorem Chosen.size (hchosen : Chosen entries previews) (notice : List ConversationEntry)
    (hnotice : notice = [] ∨ notice = [previewOmitted]) :
    ∃ size : ℕ,
      encodedSize (.arr ((notice ++ previews).map ConversationEntry.toJson)) = some size ∧
        (size : ℤ) ≤ maxRecentConversationBytes := by
  have hencodable : ∀ item ∈ (notice ++ previews).map ConversationEntry.toJson,
      utf8Encodable (dumps compact item) = true := by
    intro item hitem
    obtain ⟨preview, hpreview, rfl⟩ := mem_map.mp hitem
    rcases mem_append.mp hpreview with hmem | hmem
    · rcases hnotice with rfl | rfl
      · exact absurd hmem not_mem_nil
      · rw [mem_singleton.mp hmem]
        exact encodable_previewOmitted
    · exact hchosen.encodable preview hmem
  refine ⟨_, encodedSize_eq_some.mpr ⟨utf8Encodable_arr hencodable, rfl⟩, ?_⟩
  have hbytes := jsonBytes_arr_le ((notice ++ previews).map ConversationEntry.toJson)
  rw [map_map] at hbytes
  have hspent : (((previews.map fun preview => preview.bytes + 1).sum : ℕ) : ℤ) =
      spent previews := by
    rw [spent, Nat.cast_list_sum, map_map]
    rfl
  have hfits := hchosen.fits
  rw [previewLimit] at hfits
  have hreserved : (notice.map fun preview => preview.bytes + 1).sum ≤
      previewOmitted.bytes + 1 := by
    rcases hnotice with rfl | rfl
    · exact Nat.zero_le _
    · exact le_rfl
  have hsplit : ((notice ++ previews).map fun preview => preview.bytes + 1).sum =
      (notice.map fun preview => preview.bytes + 1).sum +
        (previews.map fun preview => preview.bytes + 1).sum := by
    rw [map_append, sum_append]
  have hall : jsonBytes (.arr ((notice ++ previews).map ConversationEntry.toJson)) ≤
      2 + ((notice ++ previews).map fun preview => preview.bytes + 1).sum := hbytes
  omega

/-- The result is a bounded preview; the function raises only where an entry cannot be
encoded. -/
theorem boundedRecentConversation_spec (entries : List ConversationEntry) :
    (∀ result, boundedRecentConversation entries = some result → IsBounded entries result) ∧
      ((∀ entry ∈ entries, ∃ size, previewSize entry = some size) →
        ∃ result, boundedRecentConversation entries = some result) := by
  have hreserved := encodable_previewOmitted.previewSize
  constructor
  · intro result hresult
    unfold boundedRecentConversation at hresult
    rw [hreserved] at hresult
    simp only [Option.bind_eq_bind, Option.bind_some, Option.bind_eq_some_iff] at hresult
    obtain ⟨selected, hselected, hresult⟩ := hresult
    have hstart : selectPreviews entries.reverse ([] : List ConversationEntry).length
        (previewLimit - spent []) = some selected := by
      rw [spent, map_nil, sum_nil, Int.sub_zero]
      exact hselected
    obtain ⟨left, kept, hsplit, hchosen, hstopped⟩ := selectPreviews_spec .nil hstart
    rw [reverse_reverse] at hsplit
    rw [append_nil] at hchosen hstopped
    rw [append_nil] at hchosen
    have hlength := hchosen.shown.length_eq
    rw [length_reverse] at hlength
    have hnotice : result = (if left.isEmpty then [] else [previewOmitted]) ++
        selected.reverse := by
      rw [hsplit, length_append, hlength] at hresult
      cases left with
      | nil =>
          rw [if_neg (by simp)] at hresult
          exact (Option.some.inj hresult).symm
      | cons entry left =>
          rw [if_pos (by simp), reverse_append] at hresult
          exact (Option.some.inj hresult).symm
    refine ⟨left, kept, selected.reverse, hsplit, hchosen.shown, hnotice, hchosen.bounded,
      hstopped, ?_⟩
    rw [hnotice]
    apply hchosen.size
    cases left with
    | nil => exact .inl rfl
    | cons entry left => exact .inr rfl
  · intro hentries
    have hencodable : ∀ entry ∈ entries.reverse, entry.Encodable := by
      intro entry hentry
      obtain ⟨size, hsize⟩ := hentries entry (mem_reverse.mp hentry)
      exact ((previewSize_eq_some entry).mp hsize).1
    obtain ⟨selected, hselected⟩ := selectPreviews_isSome hencodable 0 previewLimit
    unfold boundedRecentConversation
    rw [hreserved]
    simp only [Option.bind_eq_bind, Option.bind_some]
    rw [show maxRecentConversationBytes - 2 - (previewOmitted.bytes : ℤ) - 1 = previewLimit
      from rfl, hselected, Option.bind_some]
    split
    · exact ⟨_, rfl⟩
    · exact ⟨_, rfl⟩

/-- A content that is a lone surrogate. -/
def surrogateEntry : ConversationEntry where
  fields := [
    (lit "role", .str (lit "user")),
    (lit "content", .str [Fin.ofNat 0x110000 0xD800])]
  content := [Fin.ofNat 0x110000 0xD800]
  stored := rfl

theorem boundedRecentConversation_raises :
    ¬ ∀ entries : List ConversationEntry, ∃ result,
      boundedRecentConversation entries = some result ∧ IsBounded entries result := by
  intro hreturns
  obtain ⟨result, hresult, -⟩ := hreturns [surrogateEntry]
  have hnone : (boundedRecentConversation [surrogateEntry]).isNone = true := by decide +kernel
  rw [hresult] at hnone
  exact Bool.false_ne_true hnone

end ReuleauxCoder.Persistence
