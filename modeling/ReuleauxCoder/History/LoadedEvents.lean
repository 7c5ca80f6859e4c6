import ReuleauxCoder.Library.Converting
import ReuleauxCoder.History.Loading
import ReuleauxCoder.History.TableReading
import ReuleauxCoder.Context.Canonical

/-!
# What a load returns

Each event that a load decodes agrees with its line in sequence number and identifier,
also where the file was rewritten, and the events that it returns are those that come
after smaller sequence numbers only.
-/

namespace ReuleauxCoder.History

open PyText PyJson Check Context Persistence
open List hiding lookup

/-! ## Lines and their events -/

/-- What a line says of an event that the loader made of it. -/
structure SaysOf (line : LedgerLine) (event : HistoryEvent) : Prop where
  fields : ∃ fields, line.decoded = .event (.obj fields) ∧
    lookup (lit "seq") fields = some (.int event.seq) ∧
    lookup (lit "event_id") fields = some (.str event.eventId)
  seq_pos : 1 ≤ event.seq
  seq_lt : event.seq < 2 ^ 63
  eventId : utf8Encodable event.eventId = true

theorem isSurrogate_of_isNameChar {c : CodePoint} (hname : isNameChar c = true) :
    isSurrogate c = false := by
  have hdot : (ofChar '.').val = 46 := by decide
  have hline : (ofChar '_').val = 95 := by decide
  have hdash : (ofChar '-').val = 45 := by decide
  simp only [isNameChar, Bool.or_eq_true, Bool.and_eq_true, decide_eq_true_eq] at hname
  simp only [isSurrogate, Bool.and_eq_false_iff, decide_eq_false_iff_not]
  rcases hname with ((((hname | hname) | hname) | rfl) | rfl) | rfl <;> omega

theorem utf8Encodable_of_isName {text : Text} (hname : isName (.str text) = true) :
    utf8Encodable text = true := by
  simp only [isName, Bool.and_eq_true, all_eq_true] at hname
  rw [utf8Encodable, all_eq_true]
  intro c hc
  rw [isSurrogate_of_isNameChar (hname.2 c hc)]
  rfl

theorem validated_identity {builtins : Builtins} {session : Option Text} {data : Dict}
    {result : Unit} (hvalid : validateHistoryEventPayload builtins session (.obj data) = .ok result) :
    isName (field data "event_id") = true ∧
      isIntBetween 1 maxPersistedCounter (field data "seq") = true := by
  simp only [validateHistoryEventPayload, bind_eq_ok, require_eq_ok] at hvalid
  obtain ⟨_, ⟨hid, -, hseq, -⟩, -⟩ := hvalid
  exact ⟨hid, hseq⟩

variable {event : HistoryEvent}

theorem compact_identity {compacted : HistoryEvent}
    (hcompact : compactLegacyRequestEvent event = some compacted) :
    compacted.seq = event.seq ∧ compacted.eventId = event.eventId := by
  unfold compactLegacyRequestEvent at hcompact
  split at hcompact
  · cases hcompact
    exact ⟨rfl, rfl⟩
  · split at hcompact
    · split at hcompact
      · cases hcompact
        exact ⟨rfl, rfl⟩
      · simp only [Option.bind_eq_bind, Option.bind_eq_some_iff] at hcompact
        obtain ⟨_, -, _, -, _, -, hresult⟩ := hcompact
        cases hresult
        exact ⟨rfl, rfl⟩
    · cases hcompact
      exact ⟨rfl, rfl⟩

theorem lookup_of_field {data : Dict} {key : String} {value : Json} (hfield : field data key = value)
    (hvalue : value ≠ .null) : lookup (lit key) data = some value := by
  unfold field at hfield
  cases hlookup : lookup (lit key) data with
  | none =>
      rw [hlookup, Option.getD_none] at hfield
      exact absurd hfield.symm hvalue
  | some found =>
      rw [hlookup, Option.getD_some] at hfield
      rw [hfield]

variable {line : LedgerLine}

theorem saysOf_load {conversions : Conversions} {sessionId : Text}
    (hload : line.load? conversions sessionId = some event) : SaysOf line event := by
  unfold LedgerLine.load? at hload
  split at hload
  · rename_i data hdecoded
    split at hload
    · cases hload
    · split at hload
      · cases hload
      · rename_i result hvalid
        obtain ⟨hname, hbetween⟩ := validated_identity hvalid
        obtain ⟨hseq, hid⟩ := compact_identity hload
        cases hidentifier : field data "event_id" with
        | str text =>
            cases hnumber : field data "seq" with
            | int value =>
                have hlookupId := lookup_of_field hidentifier (by simp)
                have hlookupSeq := lookup_of_field hnumber (by simp)
                have hsameSeq : event.seq = value := by
                  rw [hseq, HistoryEvent.fromDict]
                  simp only [fieldOr, hlookupSeq, Option.getD_some, intOf]
                have hsameId : event.eventId = text := by
                  rw [hid, HistoryEvent.fromDict]
                  simp only [hidentifier, textOf]
                rw [hidentifier] at hname
                rw [hnumber] at hbetween
                simp only [isIntBetween, Bool.and_eq_true, decide_eq_true_eq] at hbetween
                have hbound : value < 2 ^ 63 := by
                  have hmost := hbetween.2
                  rw [maxPersistedCounter] at hmost
                  omega
                refine ⟨⟨data, hdecoded, ?_, ?_⟩, hsameSeq ▸ hbetween.1, hsameSeq ▸ hbound, ?_⟩
                · rw [hlookupSeq, hsameSeq]
                · rw [hlookupId, hsameId]
                · rw [hsameId]
                  exact utf8Encodable_of_isName hname
            | null | bool _ | float _ | str _ | arr _ | obj _ =>
                rw [hnumber] at hbetween
                cases hbetween
        | null | bool _ | int _ | float _ | arr _ | obj _ =>
            rw [hidentifier] at hname
            cases hname
  · cases hload

theorem lookup_sorted {fields : Dict} {key : Text} {value : Json}
    (hnodup : (fields.map Prod.fst).Nodup) (hmem : (key, value) ∈ fields) :
    ∃ sorted, (Json.obj fields).sortKeys = .obj sorted ∧ lookup key sorted = some value.sortKeys := by
  refine ⟨_, by rw [Json.sortKeys], ?_⟩
  rw [sortKeysFields_eq_map]
  have hperm := perm_insertionSort (fun left right : Text × Json => left.1 ≤ right.1)
    (fields.map sortField)
  apply lookup_eq_some_of_mem
  · rw [(hperm.map Prod.fst).nodup_iff, map_map]
    exact hnodup
  · rw [hperm.mem_iff]
    exact mem_map_of_mem hmem

theorem saysOf_encode (hencode : encodeHistoryEvent? event = some line) (hpos : 1 ≤ event.seq)
    (hlt : event.seq < 2 ^ 63) (hid : utf8Encodable event.eventId = true) : SaysOf line event := by
  simp only [encodeHistoryEvent?, Option.bind_eq_bind, Option.bind_eq_some_iff] at hencode
  obtain ⟨compacted, hcompact, hline⟩ := hencode
  obtain ⟨hseq, heventId⟩ := compact_identity hcompact
  split at hline
  · cases hline
    have hnodup : (compacted.toDict.map Prod.fst).Nodup := by
      simp only [HistoryEvent.toDict, map_cons, map_nil]
      decide
    obtain ⟨sorted, hsorted, hlookupSeq⟩ := lookup_sorted hnodup
      (by simp [HistoryEvent.toDict] : (lit "seq", Json.int compacted.seq) ∈ compacted.toDict)
    obtain ⟨same, hsame, hlookupId⟩ := lookup_sorted hnodup
      (by simp [HistoryEvent.toDict] : (lit "event_id", Json.str compacted.eventId) ∈
        compacted.toDict)
    rw [hsorted] at hsame
    cases hsame
    refine ⟨⟨sorted, congrArg Decoded.event hsorted, ?_, ?_⟩, hpos, hlt, hid⟩
    · simp [hlookupSeq, Json.sortKeys, hseq]
    · simp [hlookupId, Json.sortKeys, heventId]
  · cases hline

/-! ## Repaired events -/

/-- A repair moves an event no further than to the one behind it. -/
def Bounded (events : List HistoryEvent) (event : HistoryEvent) : Prop :=
  (∃ other ∈ events, event.seq ≤ other.seq) ∧ ∃ other ∈ events, event.eventId = other.eventId

variable {events : List HistoryEvent}

theorem bounded_of_mem (hevent : event ∈ events) : Bounded events event :=
  ⟨⟨event, hevent, le_rfl⟩, event, hevent, rfl⟩

theorem Bounded.mono {others : List HistoryEvent} (hbounded : Bounded events event)
    (hsubset : events ⊆ others) : Bounded others event := by
  obtain ⟨⟨later, hlater, hseq⟩, same, hsame, hid⟩ := hbounded
  exact ⟨⟨later, hsubset hlater, hseq⟩, same, hsubset hsame, hid⟩

theorem repair_bounded (events : List HistoryEvent) :
    ∀ event ∈ (repairSequenceReuse events).1, Bounded events event := by
  fun_induction repairSequenceReuse events with
  | case1 diagnostic exitMessage exitLifecycle following rest hmatch ih =>
      simp only [matchesLegacyBug, Bool.and_eq_true, decide_eq_true_eq] at hmatch
      have hfollowing := hmatch.2
      intro event hevent
      rcases mem_cons.mp hevent with rfl | hevent
      · exact bounded_of_mem mem_cons_self
      · have hlater : ∀ other ∈ [diagnostic, exitMessage, exitLifecycle, following],
            other ∈ diagnostic :: exitMessage :: exitLifecycle :: following :: rest := by
          simp
        rcases mem_cons.mp hevent with rfl | hevent
        · exact ⟨⟨following, by simp, by simp only; omega⟩, exitMessage, by simp, rfl⟩
        · rcases mem_cons.mp hevent with rfl | hevent
          · exact ⟨⟨following, by simp, by simp only; omega⟩, exitLifecycle, by simp, rfl⟩
          · refine (ih event hevent).mono fun other hother => ?_
            exact mem_cons_of_mem _ (mem_cons_of_mem _ (mem_cons_of_mem _ hother))
  | case2 diagnostic exitMessage exitLifecycle following rest hmatch later changed hlater ih =>
      intro event hevent
      rcases mem_cons.mp hevent with rfl | hevent
      · exact bounded_of_mem mem_cons_self
      · rw [hlater] at ih
        exact (ih event hevent).mono (subset_cons_self _ _)
  | case3 events hshort =>
      exact fun event hevent => bounded_of_mem hevent

theorem isOrdered_pos {seen : List Text} {previous : ℤ}
    (hordered : isOrdered seen previous events = true) :
    ∀ event ∈ events, previous < event.seq := by
  induction events generalizing seen previous with
  | nil => exact fun event hevent => absurd hevent not_mem_nil
  | cons head rest ih =>
      simp only [isOrdered, Bool.and_eq_true, Bool.not_eq_true', Bool.or_eq_false_iff,
        decide_eq_false_iff_not, not_le] at hordered
      intro event hevent
      rcases mem_cons.mp hevent with rfl | hmem
      · exact hordered.1.2
      · exact hordered.1.2.trans (ih hordered.2 event hmem)

/-! ## What `load` decodes -/

/-- The events of a load come from its lines, in order. -/
structure FromLines (loaded : Loaded) : Prop where
  lines : List.Sublist (loaded.told.map Told.line) loaded.file.lines
  told : ∀ told ∈ loaded.told, SaysOf told.line told.event
  unended : ∀ told, loaded.unended = some told → SaysOf told.line told.event

variable {conversions : Conversions} {sessionId : Text}

variable {told : Told}

theorem saysOf_told (htold : line.told? conversions sessionId = some told) :
    told.line = line ∧ SaysOf told.line told.event := by
  rw [LedgerLine.told?, Option.map_eq_some_iff] at htold
  obtain ⟨event, hload, rfl⟩ := htold
  exact ⟨rfl, saysOf_load hload⟩

theorem told_lines (lines : List LedgerLine) :
    List.Sublist ((lines.filterMap (LedgerLine.told? conversions sessionId)).map Told.line) lines := by
  induction lines with
  | nil => exact .slnil
  | cons line rest ih =>
      rw [filterMap_cons]
      split
      · exact ih.cons _
      · rename_i told htold
        rw [map_cons, (saysOf_told htold).1]
        exact ih.cons_cons _

theorem told_saysOf {lines : List LedgerLine}
    (htold : told ∈ lines.filterMap (LedgerLine.told? conversions sessionId)) :
    SaysOf told.line told.event := by
  obtain ⟨line, -, hline⟩ := mem_filterMap.mp htold
  exact (saysOf_told hline).2

/-- The file and its events, where nothing is rewritten. -/
theorem fromLines_decoded (file : LedgerFile) :
    FromLines ⟨file, file.lines.filterMap (LedgerLine.told? conversions sessionId),
      file.tail.bind (LedgerLine.told? conversions sessionId)⟩ where
  lines := told_lines file.lines
  told _ htold := told_saysOf htold
  unended told hunended := by
    obtain ⟨line, -, hline⟩ := Option.bind_eq_some_iff.mp hunended
    exact (saysOf_told hline).2

/-- Events that may be written to a ledger. -/
structure Writable (event : HistoryEvent) : Prop where
  seq_pos : 1 ≤ event.seq
  seq_lt : event.seq < 2 ^ 63
  eventId : utf8Encodable event.eventId = true

theorem fromLines_replaced {replacement : Replacement} {file : LedgerFile} {loaded : Loaded}
    (hreplace : replaceHistory? replacement file events = some loaded)
    (hwritable : ∀ event ∈ events, Writable event) : FromLines loaded := by
  unfold replaceHistory? at hreplace
  split at hreplace
  · cases hreplace
  · simp only [Option.bind_eq_bind, Option.bind_eq_some_iff] at hreplace
    obtain ⟨told, hmap, hloaded⟩ := hreplace
    cases hloaded
    refine ⟨List.Sublist.refl _, ?_, fun _ hunended => by cases hunended⟩
    intro item hitem
    obtain ⟨event, hevent, hencoded⟩ := Converting.exists_of_mem_mapM hmap hitem
    rw [Option.map_eq_some_iff] at hencoded
    obtain ⟨line, hline, rfl⟩ := hencoded
    obtain ⟨hpos, hlt, hid⟩ := hwritable event hevent
    exact saysOf_encode hline hpos hlt hid

theorem writable_of_bounded
    (hevents : ∀ other ∈ events, other.seq < 2 ^ 63 ∧ utf8Encodable other.eventId = true)
    (hbounded : Bounded events event) (hpos : 0 < event.seq) : Writable event := by
  obtain ⟨⟨later, hlater, hseq⟩, same, hsame, hid⟩ := hbounded
  exact ⟨hpos, hseq.trans_lt (hevents later hlater).1, hid ▸ (hevents same hsame).2⟩

theorem fromLines_load (conversions : Conversions) (sessionId : Text) (replacement : Replacement)
    (file : LedgerFile) : FromLines (load conversions sessionId replacement file) := by
  have hdecoded : FromLines ⟨file, file.lines.filterMap (LedgerLine.told? conversions sessionId),
      file.tail.bind (LedgerLine.told? conversions sessionId)⟩ := fromLines_decoded file
  unfold load
  dsimp only
  split
  · rename_i hcomplete
    simp only [Bool.and_eq_true] at hcomplete
    cases hreplace : replaceHistory? replacement file _ with
    | none => exact hdecoded
    | some loaded =>
        refine fromLines_replaced hreplace fun event hevent => ?_
        refine writable_of_bounded ?_ (repair_bounded _ event hevent)
          (isOrdered_pos hcomplete.2 event hevent)
        intro other hother
        obtain ⟨told, htold, rfl⟩ := mem_map.mp hother
        have hspoken : SaysOf told.line told.event := by
          rcases mem_append.mp htold with hmem | hunended
          · exact hdecoded.told told hmem
          · exact hdecoded.unended told (Option.mem_toList.mp hunended)
        exact ⟨hspoken.seq_lt, hspoken.eventId⟩
  · exact hdecoded

/-! ## What is kept -/

/-- Only smaller sequence numbers come before the event. -/
def InOrder (told : Told) (decoded : List Told) : Prop :=
  ∃ before after, decoded = before ++ told :: after ∧
    ∀ earlier ∈ before, earlier.event.seq < told.event.seq

theorem inOrder_cons {head : Told} {rest : List Told} :
    InOrder told (head :: rest) ↔
      told = head ∨ head.event.seq < told.event.seq ∧ InOrder told rest := by
  constructor
  · rintro ⟨before, after, hsplit, hsmaller⟩
    cases before with
    | nil =>
        rw [nil_append, List.cons.injEq] at hsplit
        exact .inl hsplit.1.symm
    | cons first others =>
        rw [cons_append, List.cons.injEq] at hsplit
        obtain ⟨rfl, hrest⟩ := hsplit
        exact .inr ⟨hsmaller _ mem_cons_self, others, after, hrest,
          fun earlier hearlier => hsmaller earlier (mem_cons_of_mem _ hearlier)⟩
  · rintro (rfl | ⟨hless, before, after, rfl, hsmaller⟩)
    · exact ⟨[], rest, rfl, fun earlier hnone => absurd hnone not_mem_nil⟩
    · refine ⟨head :: before, after, rfl, fun earlier hearlier => ?_⟩
      rcases mem_cons.mp hearlier with rfl | hmem
      · exact hless
      · exact hsmaller earlier hmem

theorem InOrder.mem {decoded : List Told} (horder : InOrder told decoded) : told ∈ decoded := by
  obtain ⟨before, after, rfl, -⟩ := horder
  exact mem_append_right _ mem_cons_self

theorem keepOrdered_increasing (decoded : List Told) (seen : List Text) (previous : ℤ) :
    (∀ told ∈ keepOrdered seen previous decoded, previous < told.event.seq) ∧
      (keepOrdered seen previous decoded).Pairwise fun left right =>
        left.event.seq < right.event.seq := by
  fun_induction keepOrdered seen previous decoded with
  | case1 seen previous => exact ⟨fun told hnone => absurd hnone not_mem_nil, .nil⟩
  | case2 seen previous head rest hdropped ih => exact ih
  | case3 seen previous head rest hkept ih =>
      rw [not_or, not_le] at hkept
      refine ⟨fun told htold => ?_, pairwise_cons.mpr ⟨ih.1, ih.2⟩⟩
      rcases mem_cons.mp htold with rfl | hmem
      · exact hkept.2
      · exact hkept.2.trans (ih.1 told hmem)

/-- With distinct identifiers, an event is kept where smaller sequence numbers come before it. -/
theorem mem_keepOrdered {decoded : List Told} {seen : List Text} {previous : ℤ}
    (hdistinct : (decoded.map fun told => told.event.eventId).Nodup)
    (hfresh : ∀ told ∈ decoded, told.event.eventId ∉ seen) (told : Told) :
    told ∈ keepOrdered seen previous decoded ↔
      previous < told.event.seq ∧ InOrder told decoded := by
  induction decoded generalizing seen previous with
  | nil =>
      refine ⟨fun hnone => absurd hnone not_mem_nil, ?_⟩
      rintro ⟨-, horder⟩
      exact absurd horder.mem not_mem_nil
  | cons head rest ih =>
      rw [map_cons, nodup_cons] at hdistinct
      have hhead := hfresh head mem_cons_self
      have hrest : ∀ other ∈ rest, other.event.eventId ∉ seen :=
        fun other hother => hfresh other (mem_cons_of_mem _ hother)
      rw [inOrder_cons]
      by_cases hless : previous < head.event.seq
      · have hkept : ¬ (head.event.eventId ∈ seen ∨ head.event.seq ≤ previous) := by
          rw [not_or, not_le]
          exact ⟨hhead, hless⟩
        have hlater : ∀ other ∈ rest, other.event.eventId ∉ head.event.eventId :: seen := by
          intro other hother hmem
          rcases mem_cons.mp hmem with hsame | hknown
          · exact hdistinct.1 (hsame ▸ mem_map_of_mem hother)
          · exact hrest other hother hknown
        rw [keepOrdered, if_neg hkept, mem_cons, ih hdistinct.2 hlater]
        constructor
        · rintro (rfl | ⟨hmore, horder⟩)
          · exact ⟨hless, .inl rfl⟩
          · exact ⟨hless.trans hmore, .inr ⟨hmore, horder⟩⟩
        · rintro ⟨-, rfl | ⟨hmore, horder⟩⟩
          · exact .inl rfl
          · exact .inr ⟨hmore, horder⟩
      · have hdropped : head.event.eventId ∈ seen ∨ head.event.seq ≤ previous :=
          .inr (not_lt.mp hless)
        rw [keepOrdered, if_pos hdropped, ih hdistinct.2 hrest]
        constructor
        · rintro ⟨hmore, horder⟩
          exact ⟨hmore, .inr ⟨(not_lt.mp hless).trans_lt hmore, horder⟩⟩
        · rintro ⟨hmore, rfl | ⟨-, horder⟩⟩
          · exact absurd hmore hless
          · exact ⟨hmore, horder⟩

/-- An event that comes last is kept if it is new to those that are kept before it. -/
theorem mem_keepOrdered_concat (decoded : List Told) (seen : List Text) (previous : ℤ)
    (last told : Told) :
    told ∈ keepOrdered seen previous (decoded ++ [last]) ↔
      told ∈ keepOrdered seen previous decoded ∨
        told = last ∧ last.event.eventId ∉ seen ∧ previous < last.event.seq ∧
          ∀ kept ∈ keepOrdered seen previous decoded,
            kept.event.seq < last.event.seq ∧ kept.event.eventId ≠ last.event.eventId := by
  fun_induction keepOrdered seen previous decoded with
  | case1 seen previous =>
      by_cases hdropped : last.event.eventId ∈ seen ∨ last.event.seq ≤ previous
      · rw [nil_append, keepOrdered, if_pos hdropped, keepOrdered]
        constructor
        · exact fun hnone => absurd hnone not_mem_nil
        · rintro (hnone | ⟨-, hunseen, hless, -⟩)
          · exact absurd hnone not_mem_nil
          · exact absurd hdropped (not_or.mpr ⟨hunseen, not_le.mpr hless⟩)
      · rw [nil_append, keepOrdered, if_neg hdropped, keepOrdered, mem_singleton]
        rw [not_or, not_le] at hdropped
        constructor
        · rintro rfl
          exact .inr ⟨rfl, hdropped.1, hdropped.2, fun kept hnone => absurd hnone not_mem_nil⟩
        · rintro (hnone | ⟨rfl, -⟩)
          · exact absurd hnone not_mem_nil
          · rfl
  | case2 seen previous head rest hdropped ih =>
      rw [cons_append, keepOrdered, if_pos hdropped, ih]
  | case3 seen previous head rest hkept ih =>
      rw [not_or, not_le] at hkept
      rw [cons_append, keepOrdered, if_neg (not_or.mpr ⟨hkept.1, not_le.mpr hkept.2⟩),
        mem_cons, mem_cons, ih]
      constructor
      · rintro (rfl | hkeeps | ⟨rfl, hunseen, hless, hlater⟩)
        · exact .inl (.inl rfl)
        · exact .inl (.inr hkeeps)
        · rw [mem_cons, not_or] at hunseen
          refine .inr ⟨rfl, hunseen.2, hkept.2.trans hless, fun kept hmem => ?_⟩
          rcases mem_cons.mp hmem with rfl | hmem
          · exact ⟨hless, Ne.symm hunseen.1⟩
          · exact hlater kept hmem
      · rintro ((rfl | hkeeps) | ⟨rfl, hunseen, -, hlater⟩)
        · exact .inl rfl
        · exact .inr (.inl hkeeps)
        · obtain ⟨hless, hdiffers⟩ := hlater head mem_cons_self
          refine .inr (.inr ⟨rfl, ?_, hless, fun kept hmem =>
            hlater kept (mem_cons_of_mem _ hmem)⟩)
          rw [mem_cons, not_or]
          exact ⟨Ne.symm hdiffers, hunseen⟩

end ReuleauxCoder.History
