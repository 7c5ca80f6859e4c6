import ReuleauxCoder.Context.ToolAdjacency
import ReuleauxCoder.History.Index

/-!
# Conversation rounds

A round is one response of the model with the inputs and results around it.  Summaries replace
whole rounds at the front of a history, so that no result loses its call.
-/

namespace ReuleauxCoder.Context

open PyText PyJson Adjacency ToolHistory
open List hiding take
open History (isSynthetic?)

/-! ## Grouping -/

/-- The loop of `group_api_rounds`, with its variables. -/
def groupRounds (groups : List (List Dict)) (current : List Dict) (currentHasAssistant : Bool) :
    List Dict → List (List Dict)
  | [] => if current = [] then groups else groups ++ [current]
  | message :: rest =>
      if isAssistant message && current ≠ [] && currentHasAssistant then
        groupRounds (groups ++ [current]) [message] true rest
      else
        groupRounds groups (current ++ [message]) (currentHasAssistant || isAssistant message) rest

def groupApiRounds (messages : List Dict) : List (List Dict) :=
  groupRounds [] [] false messages

/-- `recent_round_start`. -/
def recentRoundStart (messages : List Dict) (keep : ℤ) : ℕ :=
  if keep ≤ 0 then messages.length
  else
    let rounds := groupApiRounds messages
    if (rounds.length : ℤ) ≤ keep then 0
    else ((rounds.take (rounds.length - keep.toNat)).map List.length).sum

theorem flatten_groupRounds (groups : List (List Dict)) (current : List Dict)
    (currentHasAssistant : Bool) (messages : List Dict) :
    (groupRounds groups current currentHasAssistant messages).flatten =
      groups.flatten ++ current ++ messages := by
  induction messages generalizing groups current currentHasAssistant with
  | nil =>
      rw [groupRounds]
      split
      · rename_i hempty
        simp [hempty]
      · simp
  | cons message rest ih =>
      rw [groupRounds]
      split
      · rw [ih]
        simp
      · rw [ih]
        simp

theorem flatten_groupApiRounds (messages : List Dict) :
    (groupApiRounds messages).flatten = messages :=
  flatten_groupRounds [] [] false messages

/-- A round that starts with a response of the model. -/
def StartsRound (group : List Dict) : Prop :=
  ∃ message rest, group = message :: rest ∧ isAssistant message = true

/-- Every round but the first starts with a response of the model. -/
def RoundsBehind (groups : List (List Dict)) : Prop :=
  ∀ group ∈ groups.tail, StartsRound group

theorem RoundsBehind.append {groups : List (List Dict)} {current : List Dict}
    (hgroups : RoundsBehind groups) (hcurrent : groups ≠ [] → StartsRound current) :
    RoundsBehind (groups ++ [current]) := by
  intro group hgroup
  cases groups with
  | nil => simp at hgroup
  | cons first others =>
      rw [cons_append, tail_cons] at hgroup
      rcases mem_append.mp hgroup with hmem | hlast
      · exact hgroups group hmem
      · cases mem_singleton.mp hlast
        exact hcurrent (cons_ne_nil _ _)

theorem groupRounds_roundsBehind {groups : List (List Dict)} {current : List Dict}
    (hgroups : RoundsBehind groups) (hcurrent : groups ≠ [] → StartsRound current)
    (currentHasAssistant : Bool) (messages : List Dict) :
    RoundsBehind (groupRounds groups current currentHasAssistant messages) := by
  induction messages generalizing groups current currentHasAssistant with
  | nil =>
      rw [groupRounds]
      split
      · exact hgroups
      · exact hgroups.append hcurrent
  | cons message rest ih =>
      rw [groupRounds]
      split
      · rename_i hstarts
        simp only [Bool.and_eq_true] at hstarts
        exact ih (hgroups.append hcurrent) (fun _ => ⟨message, [], rfl, hstarts.1.1⟩) true
      · refine ih hgroups (fun hne => ?_) _
        obtain ⟨first, others, rfl, hassistant⟩ := hcurrent hne
        exact ⟨first, others ++ [message], rfl, hassistant⟩

theorem groupApiRounds_roundsBehind (messages : List Dict) :
    RoundsBehind (groupApiRounds messages) :=
  groupRounds_roundsBehind (fun _ hgroup => by cases hgroup) (fun hne => absurd rfl hne) false
    messages

/-! ## Where a tail starts -/

/-- `message.get("role") == "user" and not is_synthetic_context_message(message)`. -/
def isUserTurn? (message : Dict) : Option Bool :=
  if field message "role" = .str (lit "user") then (isSynthetic? message).map not else some false

/-- The indices of the marked messages, where the first message has a number. -/
def turnStarts : ℕ → List Bool → List ℕ
  | _, [] => []
  | start, marked :: rest =>
      if marked then start :: turnStarts (start + 1) rest else turnStarts (start + 1) rest

/-- `_find_recent_user_turn_boundary`; `none` where it raises. -/
def findRecentUserTurnBoundary (messages : List Dict) (keepRecentUserTurns : ℤ) : Option ℕ :=
  if keepRecentUserTurns ≤ 0 then some messages.length
  else do
    let marks ← messages.mapM isUserTurn?
    let userTurnStarts := turnStarts 0 marks
    if (userTurnStarts.length : ℤ) ≤ keepRecentUserTurns then some 0
    else userTurnStarts[userTurnStarts.length - keepRecentUserTurns.toNat]?

/-- The loop of `_safe_round_boundary_at_or_before`. -/
def roundBoundary (length splitIndex offset : ℕ) : List (List Dict) → ℕ
  | [] => min splitIndex length
  | round :: rest =>
      if splitIndex < offset + round.length then offset
      else roundBoundary length splitIndex (offset + round.length) rest

def safeRoundBoundaryAtOrBefore (messages : List Dict) (splitIndex : ℕ) : ℕ :=
  roundBoundary messages.length splitIndex 0 (groupApiRounds messages)

theorem length_turnStarts (start : ℕ) (marks : List Bool) :
    (turnStarts start marks).length = marks.count true := by
  induction marks generalizing start with
  | nil => rfl
  | cons marked rest ih => cases marked <;> simp [turnStarts, ih]

/-- Before the start of a turn there are as many turns as its number says. -/
theorem count_take_turnStarts {start turn place : ℕ} {marks : List Bool}
    (hplace : (turnStarts start marks)[turn]? = some place) :
    start ≤ place ∧ place < start + marks.length ∧
      (marks.take (place - start)).count true = turn := by
  induction marks generalizing start turn with
  | nil => simp [turnStarts] at hplace
  | cons marked rest ih =>
      cases marked with
      | false =>
          have hbehind : (turnStarts (start + 1) rest)[turn]? = some place := by
            simpa [turnStarts] using hplace
          obtain ⟨hstart, hstop, hcount⟩ := ih hbehind
          have hnext : place - start = (place - (start + 1)) + 1 := by omega
          refine ⟨by omega, by simp only [length_cons]; omega, ?_⟩
          rw [hnext, take_succ_cons]
          simpa using hcount
      | true =>
          cases turn with
          | zero =>
              simp only [turnStarts, if_true, getElem?_cons_zero, Option.some.injEq] at hplace
              subst hplace
              simp
          | succ turn =>
              have hbehind : (turnStarts (start + 1) rest)[turn]? = some place := by
                simpa [turnStarts] using hplace
              obtain ⟨hstart, hstop, hcount⟩ := ih hbehind
              have hnext : place - start = (place - (start + 1)) + 1 := by omega
              refine ⟨by omega, by simp only [length_cons]; omega, ?_⟩
              rw [hnext, take_succ_cons]
              simpa using hcount

/-- A boundary that leaves something in front of it has the wanted turns behind it. -/
theorem count_of_boundary {messages : List Dict} {keep : ℤ} {boundary : ℕ}
    (hboundary : findRecentUserTurnBoundary messages keep = some boundary)
    (hinside : 0 < boundary ∧ boundary < messages.length) :
    ∃ marks, messages.mapM isUserTurn? = some marks ∧
      ((marks.drop boundary).count true : ℤ) = keep := by
  rw [findRecentUserTurnBoundary] at hboundary
  split at hboundary
  · cases hboundary
    omega
  rename_i hkeep
  obtain ⟨marks, hmarks, hstart⟩ := Option.bind_eq_some_iff.mp hboundary
  refine ⟨marks, hmarks, ?_⟩
  dsimp only at hstart
  split at hstart
  · cases hstart
    omega
  rename_i hmore
  rw [length_turnStarts] at hstart hmore
  obtain ⟨-, -, hcount⟩ := count_take_turnStarts hstart
  have hsplit := congrArg (List.count true) (take_append_drop boundary marks)
  rw [count_append] at hsplit
  rw [Nat.sub_zero] at hcount
  omega

theorem roundBoundary_eq {length splitIndex offset : ℕ} {rounds : List (List Dict)}
    (hlength : length = offset + rounds.flatten.length) (hinside : splitIndex < length)
    (hoffset : offset ≤ splitIndex) :
    ∃ count < rounds.length, roundBoundary length splitIndex offset rounds =
      offset + (rounds.take count).flatten.length ∧
        roundBoundary length splitIndex offset rounds ≤ splitIndex := by
  induction rounds generalizing offset with
  | nil =>
      simp only [flatten_nil, length_nil, Nat.add_zero] at hlength
      omega
  | cons round rest ih =>
      rw [roundBoundary]
      split
      · exact ⟨0, by simp, by simp, hoffset⟩
      · rename_i hbehind
        rw [flatten_cons, length_append, ← Nat.add_assoc] at hlength
        obtain ⟨count, hcount, hplace, hle⟩ := ih hlength (not_lt.mp hbehind)
        refine ⟨count + 1, by simpa using hcount, ?_, hle⟩
        rw [hplace, take_succ_cons, flatten_cons, length_append, Nat.add_assoc]

/-- The boundary is the start of the round that holds the index. -/
theorem safeRoundBoundary_eq {messages : List Dict} {splitIndex : ℕ}
    (hinside : splitIndex < messages.length) :
    ∃ count < (groupApiRounds messages).length,
      safeRoundBoundaryAtOrBefore messages splitIndex =
        ((groupApiRounds messages).take count).flatten.length ∧
          safeRoundBoundaryAtOrBefore messages splitIndex ≤ splitIndex := by
  have hlength : messages.length = 0 + (groupApiRounds messages).flatten.length := by
    rw [flatten_groupApiRounds, Nat.zero_add]
  obtain ⟨count, hcount, hplace, hle⟩ := roundBoundary_eq hlength hinside (Nat.zero_le _)
  exact ⟨count, hcount, by rwa [Nat.zero_add] at hplace, hle⟩

end ReuleauxCoder.Context
