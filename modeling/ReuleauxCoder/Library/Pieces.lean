import Mathlib

/-!
# Lists in pieces

A long list is stored in chunks of one size and read back through a window, and a
sequence of lists is handed out piece by piece.  A window over the chunks is a window
over the list; pieces that follow a reading position, each beginning where the last
one ended, assemble to the lists themselves.
-/

namespace Pieces

open List

section Ends

variable {α : Type*} {front back whole list rest : List α} {item : α} {count : ℕ}

theorem take_succ_of_drop (hrest : list.drop count = item :: rest) :
    list.take (count + 1) = list.take count ++ [item] := by
  have hitem : list[count]? = some item := by
    rw [← head?_drop, hrest, head?_cons]
  rw [take_add_one, hitem, Option.toList_some]

theorem drop_succ_of_drop (hrest : list.drop count = item :: rest) :
    list.drop (count + 1) = rest := by
  rw [← drop_drop, hrest, drop_one, tail_cons]

/-- A beginning and an end that together are no longer than the whole are apart in it. -/
theorem exists_middle (hfront : front <+: whole) (hback : back <:+ whole)
    (hlength : front.length + back.length ≤ whole.length) :
    ∃ middle, whole = front ++ middle ++ back := by
  obtain ⟨rest, rfl⟩ := hfront
  have hrest : rest <:+ front ++ rest := suffix_append front rest
  rw [length_append] at hlength
  obtain ⟨middle, rfl⟩ : back <:+ rest :=
    suffix_of_suffix_length_le hback hrest (by omega)
  exact ⟨middle, (append_assoc _ _ _).symm⟩

/-- A beginning and an end that together are longer than the whole have a part in common. -/
theorem exists_common (hfront : front <+: whole) (hback : back <:+ whole)
    (hlength : whole.length < front.length + back.length) :
    ∃ before common behind, common ≠ [] ∧ whole = before ++ common ++ behind ∧
      front = before ++ common ∧ back = common ++ behind := by
  obtain ⟨behind, rfl⟩ := hfront
  have hbehind : behind <:+ front ++ behind := suffix_append front behind
  rw [length_append] at hlength
  obtain ⟨common, rfl⟩ : behind <:+ back :=
    suffix_of_suffix_length_le hbehind hback (by omega)
  obtain ⟨before, hbefore⟩ := hback
  rw [← append_assoc] at hbefore
  have hsplit : before ++ common = front := append_cancel_right hbefore
  refine ⟨before, common, behind, ?_, by rw [hsplit], hsplit.symm, rfl⟩
  rintro rfl
  rw [nil_append] at hlength
  omega

end Ends

section Chunks

variable {α : Type*}

/-- The chunks of a list with their offsets. -/
def chunks (size : ℕ) (items : List α) : List (ℕ × List α) :=
  (List.range ((items.length + size - 1) / size)).map fun index =>
    (index * size, (items.drop (index * size)).take size)

theorem flatMap_range' (size : ℕ) (items : List α) (first count : ℕ) :
    ((List.range' first count).flatMap fun index => (items.drop (index * size)).take size) =
      (items.drop (first * size)).take (count * size) := by
  induction count generalizing first with
  | zero => simp
  | succ count ih =>
      calc ((List.range' first (count + 1)).flatMap fun index =>
            (items.drop (index * size)).take size)
          = (items.drop (first * size)).take size ++
              (items.drop ((first + 1) * size)).take (count * size) := by
            rw [range'_succ, flatMap_cons, ih]
        _ = (items.drop (first * size)).take (size + count * size) := by
            rw [take_add, drop_drop, Nat.succ_mul]
        _ = (items.drop (first * size)).take ((count + 1) * size) := by
            rw [Nat.succ_mul, Nat.add_comm]

theorem filter_range (low high count : ℕ) :
    (List.range count).filter (fun index => low ≤ index && decide (index < high)) =
      List.range' low (min count high - low) := by
  induction count with
  | zero => simp
  | succ count ih =>
      rw [range_succ, filter_append, ih, filter_singleton]
      by_cases hinside : low ≤ count ∧ count < high
      · have hcount : min (count + 1) high - low = min count high - low + 1 := by omega
        have hlast : low + (min count high - low) = count := by omega
        rw [hcount, range'_1_concat, hlast]
        simp [hinside]
      · have hcount : min (count + 1) high - low = min count high - low := by omega
        have houtside : (decide (low ≤ count) && decide (count < high)) = false := by
          simpa using hinside
        rw [hcount, houtside]
        exact append_nil _

theorem le_ceil_mul {size : ℕ} (hsize : 0 < size) (length : ℕ) :
    length ≤ (length + size - 1) / size * size := by
  have hdivide := Nat.div_add_mod (length + size - 1) size
  have hrest := Nat.mod_lt (length + size - 1) hsize
  rw [Nat.mul_comm] at hdivide
  omega

/-- A window over the chunks that overlap it is a window over the list. -/
theorem window_chunks {size : ℕ} (hsize : 0 < size) (items : List α) (offset limit : ℕ) :
    (((((chunks size items).filter fun chunk =>
        offset / size * size ≤ chunk.1 && decide (chunk.1 < offset + limit)).flatMap
      Prod.snd).drop (offset - offset / size * size)).take limit) =
      (items.drop offset).take limit := by
  let first := offset / size
  let past := (offset + limit + size - 1) / size
  let count := (items.length + size - 1) / size
  have hselect : ∀ index,
      (offset / size * size ≤ index * size && decide (index * size < offset + limit)) =
        (decide (first ≤ index) && decide (index < past)) := by
    intro index
    have hfrom : offset / size * size ≤ index * size ↔ first ≤ index :=
      Nat.mul_le_mul_right_iff hsize
    have hpast : index * size < offset + limit ↔ index < past := by
      show _ ↔ index + 1 ≤ past
      rw [Nat.le_div_iff_mul_le hsize, Nat.succ_mul]
      omega
    rw [decide_eq_decide.mpr hfrom, decide_eq_decide.mpr hpast]
  have hwindow : ((chunks size items).filter fun chunk =>
      offset / size * size ≤ chunk.1 && decide (chunk.1 < offset + limit)).flatMap Prod.snd =
        (items.drop (first * size)).take ((min count past - first) * size) := by
    rw [chunks, filter_map, flatMap_map, ← flatMap_range', ← filter_range]
    simp only [Function.comp_def, hselect]
    rfl
  have hfirst : first * size ≤ offset := Nat.div_mul_le_self offset size
  rw [hwindow, show offset / size * size = first * size from rfl, drop_take, drop_drop,
    Nat.add_sub_cancel' hfirst, take_take]
  by_cases hall : limit ≤ (min count past - first) * size - (offset - first * size)
  · rw [Nat.min_eq_left hall]
  · have hend : items.length ≤ offset + ((min count past - first) * size -
        (offset - first * size)) := by
      have hlength : items.length ≤ count * size := le_ceil_mul hsize _
      have hlimit : offset + limit ≤ past * size := le_ceil_mul hsize _
      rw [Nat.sub_mul] at hall ⊢
      rcases Nat.le_total count past with hless | hmore
      · rw [Nat.min_eq_left hless]
        omega
      · rw [Nat.min_eq_right hmore] at hall ⊢
        omega
    rw [take_of_length_le (by simp; omega), take_of_length_le (by simp; omega)]

end Chunks

section Assembly

variable {Key α : Type*} [DecidableEq Key]

structure Piece (Key α : Type*) where
  key : Key
  offset : ℕ
  content : List α

/-- A piece starts a new list, or goes on where the last one stopped. -/
def place (lists : List (Key × List α)) (piece : Piece Key α) : Option (List (Key × List α)) :=
  if piece.offset = 0 then some (lists ++ [(piece.key, piece.content)])
  else
    match lists.getLast? with
    | some (key, content) =>
        if key = piece.key ∧ content.length = piece.offset then
          some (lists.dropLast ++ [(key, content ++ piece.content)])
        else none
    | none => none

/-- The lists that pieces make up, if each piece begins where it should. -/
def assemble (pieces : List (Piece Key α)) : Option (List (Key × List α)) :=
  pieces.foldlM place []

/-- What is left to hand out: lists, and how much of the first is gone. -/
structure Rest (Key α : Type*) where
  lists : List (Key × List α)
  offset : ℕ

/-- Pieces that lead from one position to another. -/
inductive Delivers : Rest Key α → List (Piece Key α) → Rest Key α → Prop where
  | done (rest : Rest Key α) : Delivers rest [] rest
  | whole {key : Key} {content : List α} {lists : List (Key × List α)} {offset : ℕ}
      {pieces : List (Piece Key α)} {after : Rest Key α} (hoffset : offset ≤ content.length)
      (hlater : Delivers ⟨lists, 0⟩ pieces after) :
      Delivers ⟨(key, content) :: lists, offset⟩ (⟨key, offset, content.drop offset⟩ :: pieces)
        after
  | part {key : Key} {content : List α} {lists : List (Key × List α)} {offset count : ℕ}
      {pieces : List (Piece Key α)} {after : Rest Key α} (hcount : 0 < count)
      (hlength : offset + count ≤ content.length)
      (hlater : Delivers ⟨(key, content) :: lists, offset + count⟩ pieces after) :
      Delivers ⟨(key, content) :: lists, offset⟩
        (⟨key, offset, (content.drop offset).take count⟩ :: pieces) after

omit [DecidableEq Key] in
theorem Delivers.trans {first second third : Rest Key α} {left right : List (Piece Key α)}
    (hleft : Delivers first left second) (hright : Delivers second right third) :
    Delivers first (left ++ right) third := by
  induction hleft with
  | done rest => exact hright
  | whole hoffset hlater ih => exact .whole hoffset (ih hright)
  | part hcount hlength hlater ih => exact .part hcount hlength (ih hright)

omit [DecidableEq Key] in
/-- Where nothing is left, nothing is handed out. -/
theorem Delivers.eq_of_nil {offset : ℕ} {after : Rest Key α} {pieces : List (Piece Key α)}
    (hdelivers : Delivers ⟨[], offset⟩ pieces after) : pieces = [] ∧ after = ⟨[], offset⟩ := by
  cases hdelivers
  exact ⟨rfl, rfl⟩

/-- The room that what is left takes, counting one for each list. -/
def Rest.room (rest : Rest Key α) : ℕ :=
  (rest.lists.map fun list => list.2.length + 1).sum - rest.offset

omit [DecidableEq Key] in
theorem room_cons {key : Key} {content : List α} {lists : List (Key × List α)} {offset : ℕ}
    (hoffset : offset ≤ content.length) :
    Rest.room ⟨(key, content) :: lists, offset⟩ =
      content.length - offset + 1 + Rest.room ⟨lists, 0⟩ := by
  simp only [Rest.room, map_cons, sum_cons]
  omega

omit [DecidableEq Key] in
/-- Each piece takes some of the room. -/
theorem Delivers.room_le {before after : Rest Key α} {pieces : List (Piece Key α)}
    (hdelivers : Delivers before pieces after) : after.room + pieces.length ≤ before.room := by
  induction hdelivers with
  | done rest => exact le_rfl
  | whole hoffset hlater ih =>
      rw [room_cons hoffset, length_cons]
      omega
  | part hcount hlength hlater ih =>
      rw [room_cons hlength] at ih
      rw [room_cons (by omega), length_cons]
      omega

/-- What was handed out of the first list, if that was begun. -/
def Rest.begun (rest : Rest Key α) : List (Key × List α) :=
  match rest.lists with
  | (key, content) :: _ => if rest.offset = 0 then [] else [(key, content.take rest.offset)]
  | [] => []

theorem place_begun (lists : List (Key × List α)) (key : Key) {content : List α} {offset : ℕ}
    (hoffset : offset ≤ content.length) (others : List (Key × List α)) (count : ℕ) :
    place (lists ++ Rest.begun ⟨(key, content) :: others, offset⟩)
        ⟨key, offset, (content.drop offset).take count⟩ =
      some (lists ++ [(key, content.take (offset + count))]) := by
  by_cases hzero : offset = 0
  · subst hzero
    simp [place, Rest.begun]
  · have hlength : (content.take offset).length = offset := length_take_of_le hoffset
    simp [place, Rest.begun, hzero, hlength, take_add]

theorem foldlM_of_delivers {before : Rest Key α} {pieces : List (Piece Key α)}
    (hdelivers : Delivers before pieces ⟨[], 0⟩) (lists : List (Key × List α)) :
    pieces.foldlM place (lists ++ before.begun) = some (lists ++ before.lists) := by
  generalize hafter : (⟨[], 0⟩ : Rest Key α) = after at hdelivers
  induction hdelivers generalizing lists with
  | done rest =>
      subst hafter
      simp [Rest.begun]
  | @whole key content others offset pieces after hoffset hlater ih =>
      have hplace := place_begun lists key hoffset others (content.length - offset)
      rw [take_of_length_le (by simp)] at hplace
      rw [foldlM_cons, hplace, Nat.add_sub_cancel' hoffset, take_length]
      have hrest := ih (lists ++ [(key, content)]) hafter
      have hbegun : Rest.begun (⟨others, 0⟩ : Rest Key α) = [] := by
        cases others <;> rfl
      rw [hbegun, append_nil] at hrest
      simpa using hrest
  | @part key content others offset count pieces after hcount hlength hlater ih =>
      rw [foldlM_cons, place_begun lists key (by omega) others count]
      have hrest := ih lists hafter
      have hbegun : Rest.begun (⟨(key, content) :: others, offset + count⟩ : Rest Key α) =
          [(key, content.take (offset + count))] := by
        have hnonzero : ¬ offset + count = 0 := by omega
        simp only [Rest.begun, if_neg hnonzero]
      rw [hbegun] at hrest
      exact hrest

/-- Pieces that hand out everything assemble to everything. -/
theorem assemble_of_delivers {lists : List (Key × List α)} {pieces : List (Piece Key α)}
    (hdelivers : Delivers ⟨lists, 0⟩ pieces ⟨[], 0⟩) : assemble pieces = some lists := by
  have hbegun : Rest.begun (⟨lists, 0⟩ : Rest Key α) = [] := by
    cases lists <;> rfl
  have hfold := foldlM_of_delivers hdelivers []
  rw [hbegun] at hfold
  exact hfold

end Assembly

end Pieces
