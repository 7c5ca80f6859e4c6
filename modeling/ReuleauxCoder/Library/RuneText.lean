import ReuleauxCoder.Library.Runes

/-!
# The text of any bytes

A decoder that goes from rune to rune writes one replacement character for each byte that
begins no whole rune.  Bytes that are cut between two runes have the text of their parts; bytes
that are cut inside one almost never have the text of the whole.
-/

namespace Runes

open PyText List

/-! ## Decoding -/

/-- The bits of a rune, from those of its first byte on. -/
def runeBits (value : ℕ) (tail : List Byte) : ℕ :=
  tail.foldl (fun bits b => bits * 64 + (b.val - 0x80)) value

/-- The rune that `utf8.DecodeRune` returns. -/
def runeChar : List Byte → CodePoint
  | [] => replacement
  | b :: rest =>
      match pendingOf b.val with
      | none => if b.val < 0x80 then Fin.ofNat _ b.val else replacement
      | some pending =>
          if pending.missing ≤ rest.length &&
              agrees pending.missing pending.low pending.high rest then
            Fin.ofNat _ (runeBits pending.value (rest.take pending.missing))
          else replacement

/-- The text of bytes, as a program that ranges over them writes it. -/
def runeText (data : List Byte) : Text :=
  if data = [] then []
  else runeChar data :: runeText (data.drop (runeWidth data))
termination_by data.length
decreasing_by
  have hsome := length_pos_of_ne_nil ‹data ≠ []›
  have hwidth := runeWidth_pos ‹data ≠ []›
  rw [length_drop]
  omega

example : runeText [0xEF, 0xBF] = [replacement, replacement] := by
  simp [runeText, runeChar, runeWidth, pendingOf, agrees]

/-- Bytes whose text does not depend on what follows them. -/
def Whole (front : List Byte) : Prop :=
  ∀ more, runeText (front ++ more) = runeText front ++ runeText more

@[simp]
theorem runeText_nil : runeText [] = [] := by
  rw [runeText, if_pos rfl]

theorem runeText_of_ne_nil {data : List Byte} (hdata : data ≠ []) :
    runeText data = runeChar data :: runeText (data.drop (runeWidth data)) := by
  rw [runeText, if_neg hdata]

theorem runeText_ne_nil {data : List Byte} (hdata : data ≠ []) : runeText data ≠ [] := by
  rw [runeText_of_ne_nil hdata]
  exact cons_ne_nil _ _

/-! ## The first rune of longer bytes -/

variable {b : Byte} {more rest : List Byte}

section FirstRune

variable {data : List Byte}

theorem fullRune_append_first (hfull : fullRune data = true) (more : List Byte) :
    runeWidth (data ++ more) = runeWidth data ∧ runeChar (data ++ more) = runeChar data := by
  cases data with
  | nil => cases hfull
  | cons b rest =>
      rw [cons_append, runeWidth, runeWidth, runeChar, runeChar]
      rw [fullRune] at hfull
      cases hpending : pendingOf b.val with
      | none => exact ⟨rfl, rfl⟩
      | some pending =>
          rw [hpending] at hfull
          dsimp only at hfull ⊢
          rw [Bool.or_eq_true, decide_eq_true_iff, Bool.not_eq_true'] at hfull
          by_cases hlength : pending.missing ≤ rest.length
          · have hlonger : pending.missing ≤ (rest ++ more).length := by
              rw [length_append]
              omega
            rw [agrees_append more hlength, take_append_of_le_length hlength]
            simp only [decide_eq_true hlength, decide_eq_true hlonger, and_self]
          · have hagrees := hfull.resolve_left hlength
            have hlonger : agrees pending.missing pending.low pending.high (rest ++ more) =
                false := by
              rw [Bool.eq_false_iff]
              intro hmore
              rw [agrees_of_append hmore] at hagrees
              cases hagrees
            simp only [hagrees, hlonger, Bool.and_false, Bool.false_eq_true, if_false, and_self]

/-- The byte behind the beginning of a rune that goes on is a tail. -/
theorem isTail_of_agrees_append {missing low high : ℕ} (hlow : 0x80 ≤ low) (hhigh : high ≤ 0xBF)
    (hshort : rest.length < missing)
    (hagrees : agrees missing low high (rest ++ b :: more) = true) : isTail b = true := by
  induction rest generalizing missing low high with
  | nil =>
      obtain ⟨missing, rfl⟩ := Nat.exists_eq_succ_of_ne_zero (by omega : missing ≠ 0)
      rw [nil_append, agrees, Bool.and_eq_true, Bool.and_eq_true, decide_eq_true_iff,
        decide_eq_true_iff] at hagrees
      rw [isTail, Bool.and_eq_true, decide_eq_true_iff, decide_eq_true_iff]
      exact ⟨hlow.trans hagrees.1.1, hagrees.1.2.trans hhigh⟩
  | cons first rest ih =>
      obtain ⟨missing, rfl⟩ := Nat.exists_eq_succ_of_ne_zero (by omega : missing ≠ 0)
      rw [cons_append, agrees, Bool.and_eq_true] at hagrees
      rw [length_cons] at hshort
      exact ih le_rfl le_rfl (by omega) hagrees.2

/-- The parts of bytes that are not a full rune. -/
theorem exists_of_not_fullRune (hdata : data ≠ []) (hfull : fullRune data = false) :
    ∃ b rest pending, data = b :: rest ∧ pendingOf b.val = some pending ∧
      rest.length < pending.missing ∧
      agrees pending.missing pending.low pending.high rest = true := by
  cases data with
  | nil => exact absurd rfl hdata
  | cons b rest =>
      rw [fullRune] at hfull
      cases hpending : pendingOf b.val with
      | none =>
          rw [hpending] at hfull
          cases hfull
      | some pending =>
          rw [hpending] at hfull
          dsimp only at hfull
          rw [Bool.or_eq_false_iff, decide_eq_false_iff_not, Bool.not_eq_false'] at hfull
          exact ⟨b, rest, pending, rfl, hpending, Nat.lt_of_not_le hfull.1, hfull.2⟩

/-- A rune that was begun and does not go on is not read. -/
theorem stopped_first (hdata : data ≠ []) (hfull : fullRune data = false)
    (hmore : ∀ b ∈ more.head?, runeStart b = true) :
    runeWidth (data ++ more) = 1 ∧ runeChar (data ++ more) = replacement := by
  obtain ⟨b, rest, pending, rfl, hpending, hshort, -⟩ := exists_of_not_fullRune hdata hfull
  have hstops : (decide (pending.missing ≤ (rest ++ more).length) &&
      agrees pending.missing pending.low pending.high (rest ++ more)) = false := by
    cases more with
    | nil =>
        rw [append_nil, decide_eq_false (by omega), Bool.false_and]
    | cons first more =>
        rw [Bool.and_eq_false_iff]
        apply Or.inr
        rw [Bool.eq_false_iff]
        intro hagrees
        obtain ⟨hlow, hhigh⟩ := proper_pendingOf hpending
        have hstart := hmore first rfl
        rw [runeStart, isTail_of_agrees_append hlow hhigh hshort hagrees] at hstart
        cases hstart
  rw [cons_append, runeWidth, runeChar, hpending]
  simp only [hstops, Bool.false_eq_true, if_false, and_self]

end FirstRune

section CutText

variable {data : List Byte}

theorem drop_runeWidth_append (data more : List Byte) :
    (data ++ more).drop (runeWidth data) = data.drop (runeWidth data) ++ more :=
  drop_append_of_le_length (runeWidth_le data)

/-- Where a byte stands that begins a rune, the text is cut like the bytes. -/
theorem runeText_append_start (data : List Byte) (hmore : ∀ b ∈ more.head?, runeStart b = true) :
    runeText (data ++ more) = runeText data ++ runeText more := by
  fun_induction runeText data with
  | case1 => rfl
  | case2 data hdata ih =>
      have hfirst : runeWidth (data ++ more) = runeWidth data ∧
          runeChar (data ++ more) = runeChar data := by
        cases hfull : fullRune data with
        | true => exact fullRune_append_first hfull more
        | false =>
            have halone : runeWidth (data ++ []) = 1 ∧ runeChar (data ++ []) = replacement :=
              stopped_first hdata hfull (fun b hb => by cases hb)
            rw [append_nil] at halone
            obtain ⟨hwidth, hchar⟩ := stopped_first hdata hfull hmore
            exact ⟨hwidth.trans halone.1.symm, hchar.trans halone.2.symm⟩
      have hsome : data ++ more ≠ [] := fun hnone => hdata (append_eq_nil_iff.mp hnone).1
      rw [runeText_of_ne_nil hsome, hfirst.1, hfirst.2, drop_runeWidth_append, ih]
      rfl

namespace Whole

theorem nil : Whole [] := fun _ => by rw [nil_append, runeText_nil, nil_append]

theorem of_first (hfull : fullRune data = true)
    (hrest : Whole (data.drop (runeWidth data))) : Whole data := by
  have hdata : data ≠ [] := by
    intro hnone
    rw [hnone] at hfull
    cases hfull
  intro more
  have hsome : data ++ more ≠ [] := fun hnone => hdata (append_eq_nil_iff.mp hnone).1
  obtain ⟨hwidth, hchar⟩ := fullRune_append_first hfull more
  rw [runeText_of_ne_nil hsome, hwidth, hchar, drop_runeWidth_append, hrest more,
    runeText_of_ne_nil hdata]
  rfl

end Whole

theorem runeStart_of_not_fullRune (hdata : data ≠ []) (hfull : fullRune data = false)
    (more : List Byte) : ∀ b ∈ (data ++ more).head?, runeStart b = true := by
  obtain ⟨first, rest, pending, rfl, hpending, -, -⟩ := exists_of_not_fullRune hdata hfull
  obtain ⟨hlead, -, -⟩ := pendingOf_bounds hpending
  intro b hb
  cases hb
  rw [runeStart, isTail, decide_eq_false (show ¬ first.val ≤ 0xBF by omega), Bool.and_false]
  rfl

/-- Bytes are whole, or they end in the beginning of a rune. -/
theorem exists_unread (data : List Byte) :
    ∃ front part, data = front ++ part ∧
      (part = [] ∧ Whole front ∨ part ≠ [] ∧ fullRune part = false) := by
  fun_induction runeText data with
  | case1 => exact ⟨[], [], rfl, .inl ⟨rfl, .nil⟩⟩
  | case2 data hdata ih =>
      cases hfull : fullRune data with
      | false => exact ⟨[], data, rfl, .inr ⟨hdata, hfull⟩⟩
      | true =>
          obtain ⟨front, part, hsplit, hpart⟩ := ih
          refine ⟨data.take (runeWidth data) ++ front, part, ?_, ?_⟩
          · rw [append_assoc, ← hsplit, take_append_drop]
          · cases hpart with
            | inl hnone =>
                obtain ⟨rfl, hfront⟩ := hnone
                rw [append_nil] at hsplit
                rw [← hsplit] at hfront ⊢
                rw [take_append_drop]
                exact .inl ⟨rfl, .of_first hfull hfront⟩
            | inr hsome => exact .inr hsome

/-! ## The text of a cut rune -/

theorem pendingOf_tail (hb : isTail b = true) : pendingOf b.val = none := by
  rw [isTail, Bool.and_eq_true, decide_eq_true_iff, decide_eq_true_iff] at hb
  cases hpending : pendingOf b.val with
  | none => rfl
  | some pending =>
      have hlead := (pendingOf_bounds hpending).1
      omega

theorem runeText_tails {tails : List Byte} (htails : ∀ b ∈ tails, isTail b = true)
    (more : List Byte) :
    runeText (tails ++ more) = List.replicate tails.length replacement ++ runeText more := by
  induction tails with
  | nil => rfl
  | cons b tails ih =>
      have hb := htails b mem_cons_self
      have hnone := pendingOf_tail hb
      rw [isTail, Bool.and_eq_true, decide_eq_true_iff] at hb
      have hsome : b :: tails ++ more ≠ [] := cons_ne_nil _ _
      rw [runeText_of_ne_nil hsome, cons_append, runeChar, runeWidth, hnone]
      dsimp only
      rw [if_neg (by omega), drop_one, tail_cons,
        ih fun c hc => htails c (mem_cons_of_mem _ hc)]
      rfl

/-- The tails of a rune that was begun are tails. -/
theorem isTail_of_agrees_short {missing low high : ℕ} (hlow : 0x80 ≤ low) (hhigh : high ≤ 0xBF)
    (hshort : rest.length ≤ missing) (hagrees : agrees missing low high rest = true) :
    ∀ b ∈ rest, isTail b = true := by
  induction rest generalizing missing low high with
  | nil => exact fun b hb => absurd hb not_mem_nil
  | cons first rest ih =>
      rw [length_cons] at hshort
      obtain ⟨missing, rfl⟩ := Nat.exists_eq_succ_of_ne_zero (by omega : missing ≠ 0)
      rw [agrees, Bool.and_eq_true, Bool.and_eq_true, decide_eq_true_iff,
        decide_eq_true_iff] at hagrees
      intro b hb
      cases mem_cons.mp hb with
      | inl hhead =>
          rw [hhead, isTail, Bool.and_eq_true, decide_eq_true_iff, decide_eq_true_iff]
          exact ⟨hlow.trans hagrees.1.1, hagrees.1.2.trans hhigh⟩
      | inr htail => exact ih le_rfl le_rfl (by omega) hagrees.2 b htail

/-- A rune that was only begun is read byte by byte. -/
theorem runeText_begun {part : List Byte} (hpart : part ≠ []) (hfull : fullRune part = false) :
    runeText part = List.replicate part.length replacement := by
  have hfirst : runeWidth (part ++ []) = 1 ∧ runeChar (part ++ []) = replacement :=
    stopped_first hpart hfull (fun b hb => by cases hb)
  rw [append_nil] at hfirst
  obtain ⟨hwidth, hchar⟩ := hfirst
  obtain ⟨b, rest, pending, rfl, hpending, hshort, hagrees⟩ :=
    exists_of_not_fullRune hpart hfull
  obtain ⟨hlow, hhigh⟩ := proper_pendingOf hpending
  have hrest := runeText_tails (isTail_of_agrees_short hlow hhigh hshort.le hagrees) []
  rw [append_nil, runeText_nil, append_nil] at hrest
  rw [runeText_of_ne_nil hpart, hwidth, hchar, drop_one, tail_cons, hrest]
  rfl

/-- A character of several bytes is the replacement character only where its bytes say so. -/
theorem replacement_bytes {pending : Pending} (hpending : pendingOf b.val = some pending)
    (hlength : rest.length = pending.missing)
    (hagrees : agrees pending.missing pending.low pending.high rest = true)
    (hbits : (Fin.ofNat _ (runeBits pending.value rest) : CodePoint) = replacement) :
    b = 0xEF ∧ rest = [0xBF, 0xBD] := by
  have hvalue : runeBits pending.value rest % 0x110000 = 0xFFFD := congrArg Fin.val hbits
  unfold pendingOf at hpending
  split_ifs at hpending <;> cases hpending <;> dsimp only at hlength hagrees hvalue
  case pos.refl =>
    obtain ⟨c, rfl⟩ := length_eq_one_iff.mp hlength
    simp only [agrees, runeBits, foldl_cons, foldl_nil, Bool.and_eq_true,
      decide_eq_true_iff] at hagrees hvalue
    rw [Nat.mod_eq_of_lt (by omega)] at hvalue
    omega
  case pos.refl =>
    obtain ⟨c, d, rfl⟩ := length_eq_two.mp hlength
    simp only [agrees, runeBits, foldl_cons, foldl_nil, Bool.and_eq_true,
      decide_eq_true_iff] at hagrees hvalue
    rw [Nat.mod_eq_of_lt (by omega)] at hvalue
    omega
  case pos.refl =>
    obtain ⟨c, d, rfl⟩ := length_eq_two.mp hlength
    simp only [agrees, runeBits, foldl_cons, foldl_nil, Bool.and_eq_true,
      decide_eq_true_iff] at hagrees hvalue
    rw [Nat.mod_eq_of_lt (by omega)] at hvalue
    omega
  case pos.refl =>
    obtain ⟨c, d, rfl⟩ := length_eq_two.mp hlength
    simp only [agrees, runeBits, foldl_cons, foldl_nil, Bool.and_eq_true,
      decide_eq_true_iff] at hagrees hvalue
    have hb : b = 0xEF := Fin.ext (by change b.val = 239; omega)
    have hc : c = 0xBF := Fin.ext (by change c.val = 191; omega)
    have hd : d = 0xBD := Fin.ext (by change d.val = 189; omega)
    exact ⟨hb, by rw [hc, hd]⟩
  all_goals
    obtain ⟨c, d, e, rfl⟩ := length_eq_three.mp hlength
    simp only [agrees, runeBits, foldl_cons, foldl_nil, Bool.and_eq_true,
      decide_eq_true_iff] at hagrees hvalue
    rw [Nat.mod_eq_of_lt (by omega)] at hvalue
    omega

/-- Bytes that are cut at a limit inside a replacement character, behind which only as many
more follow as the limit has left of its bytes. -/
def CutsReplacement (limit : ℕ) (data : List Byte) : Prop :=
  ∃ front behind, data = front ++ 0xEF :: 0xBF :: 0xBD :: behind ∧
    front.length < limit ∧ limit < front.length + 3 ∧
    runeText behind = List.replicate (limit - front.length - 1) replacement

theorem runeText_replacement (behind : List Byte) :
    runeText (0xEF :: 0xBF :: 0xBD :: behind) = replacement :: runeText behind := by
  have hfull : fullRune [0xEF, 0xBF, 0xBD] = true := by decide
  obtain ⟨hwidth, hchar⟩ := fullRune_append_first hfull behind
  have hsome : ([0xEF, 0xBF, 0xBD] : List Byte) ++ behind ≠ [] := cons_ne_nil _ _
  have htext := runeText_of_ne_nil hsome
  rw [hwidth, hchar] at htext
  exact htext

theorem CutsReplacement.runeText_take {limit : ℕ} (hcuts : CutsReplacement limit data) :
    runeText (data.take limit) = runeText data := by
  obtain ⟨front, behind, rfl, hlow, hhigh, hbehind⟩ := hcuts
  have hstart (more : List Byte) : ∀ b ∈ (0xEF :: more : List Byte).head?, runeStart b = true := by
    intro b hb
    cases hb
    decide
  rw [runeText_append_start front (hstart _), runeText_replacement, hbehind]
  have hlimit : limit = front.length + 1 ∨ limit = front.length + 2 := by omega
  cases hlimit with
  | inl hone =>
      have htake : (front ++ 0xEF :: 0xBF :: 0xBD :: behind).take limit = front ++ [0xEF] := by
        rw [hone, take_length_add_append]
        rfl
      rw [htake, runeText_append_start front (hstart _), hone, Nat.add_sub_cancel_left,
        runeText_begun (cons_ne_nil 0xEF []) (by decide)]
      rfl
  | inr htwo =>
      have htake : (front ++ 0xEF :: 0xBF :: 0xBD :: behind).take limit =
          front ++ [0xEF, 0xBF] := by
        rw [htwo, take_length_add_append]
        rfl
      rw [htake, runeText_append_start front (hstart _), htwo, Nat.add_sub_cancel_left,
        runeText_begun (cons_ne_nil 0xEF [0xBF]) (by decide)]
      rfl

/-- Where the beginning of a rune has the text of what goes on, the rune is the replacement
character. -/
theorem begun_text {part : List Byte} (hpart : part ≠ []) (hfull : fullRune part = false)
    (hmore : more ≠ []) (htext : runeText part = runeText (part ++ more)) :
    ∃ behind, part ++ more = 0xEF :: 0xBF :: 0xBD :: behind ∧ part.length < 3 ∧
      runeText behind = List.replicate (part.length - 1) replacement := by
  obtain ⟨b, rest, pending, rfl, hpending, hshort, hagrees⟩ :=
    exists_of_not_fullRune hpart hfull
  obtain ⟨hlow, hhigh⟩ := proper_pendingOf hpending
  have htails := isTail_of_agrees_short hlow hhigh hshort.le hagrees
  have halone := runeText_begun hpart hfull
  rw [length_cons, replicate_succ] at halone
  have hsome : b :: rest ++ more ≠ [] := cons_ne_nil _ _
  rw [halone, runeText_of_ne_nil hsome, cons_append, runeChar, runeWidth, hpending] at htext
  dsimp only at htext
  split at htext
  next hwhole =>
    rw [Bool.and_eq_true, decide_eq_true_iff] at hwhole
    obtain ⟨hchar, hbehind⟩ := cons_eq_cons.mp htext
    have hlength : ((rest ++ more).take pending.missing).length = pending.missing :=
      length_take_of_le hwhole.1
    have htake : agrees pending.missing pending.low pending.high
        ((rest ++ more).take pending.missing) = true := by
      have hparts := hwhole.2
      rw [← take_append_drop pending.missing (rest ++ more)] at hparts
      exact agrees_of_append hparts
    obtain ⟨hb, hbytes⟩ := replacement_bytes hpending hlength htake hchar.symm
    have hmissing : pending.missing = 2 := by
      rw [← hlength, hbytes]
      rfl
    refine ⟨(rest ++ more).drop 2, ?_, ?_, ?_⟩
    · rw [hb, cons_append]
      refine congrArg _ ?_
      calc rest ++ more = (rest ++ more).take 2 ++ (rest ++ more).drop 2 :=
            (take_append_drop 2 _).symm
        _ = [0xBF, 0xBD] ++ (rest ++ more).drop 2 := by rw [← hmissing, hbytes]
    · rw [length_cons]
      omega
    · rw [hmissing, drop_succ_cons] at hbehind
      exact hbehind.symm
  next hstopped =>
    rw [drop_one, tail_cons, runeText_tails htails more] at htext
    obtain ⟨-, hbehind⟩ := cons_eq_cons.mp htext
    exact absurd (self_eq_append_right.mp hbehind) (runeText_ne_nil hmore)

/-- Bytes that are cut at a limit have the text of the whole where the limit does not cut them,
or where nothing but replacement characters are cut. -/
theorem runeText_take_eq_iff (limit : ℕ) (data : List Byte) :
    runeText (data.take limit) = runeText data ↔
      data.length ≤ limit ∨ CutsReplacement limit data := by
  constructor
  · intro htext
    by_cases hlong : data.length ≤ limit
    · exact .inl hlong
    apply Or.inr
    have hmore : data.drop limit ≠ [] := by
      intro hnone
      exact hlong (drop_eq_nil_iff.mp hnone)
    have hlength : (data.take limit).length = limit := length_take_of_le (by omega)
    obtain ⟨front, part, hsplit, hpart⟩ := exists_unread (data.take limit)
    have hdata : data = front ++ (part ++ data.drop limit) := by
      rw [← append_assoc, ← hsplit, take_append_drop]
    cases hpart with
    | inl hwhole =>
        obtain ⟨rfl, hfront⟩ := hwhole
        rw [append_nil] at hsplit
        rw [hsplit] at htext
        conv at htext => rhs; rw [hdata]
        rw [nil_append, hfront] at htext
        exact absurd (self_eq_append_right.mp htext) (runeText_ne_nil hmore)
    | inr hbegun =>
        obtain ⟨hpart, hfull⟩ := hbegun
        have hstart := runeStart_of_not_fullRune hpart hfull
        have halone := hstart []
        rw [append_nil] at halone
        rw [hsplit, runeText_append_start front halone] at htext
        conv at htext => rhs; rw [hdata]
        rw [runeText_append_start front (hstart _)] at htext
        obtain ⟨behind, hbytes, hshort, hbehind⟩ :=
          begun_text hpart hfull hmore (append_cancel_left htext)
        have hpositive := length_pos_of_ne_nil hpart
        rw [hsplit, length_append] at hlength
        refine ⟨front, behind, ?_, by omega, by omega, ?_⟩
        · rw [hdata, hbytes]
        · rw [hbehind]
          congr 1
          omega
  · intro hcut
    cases hcut with
    | inl hshort => rw [take_of_length_le hshort]
    | inr hcuts => exact hcuts.runeText_take

end CutText

end Runes
