import ReuleauxCoder.Library.Utf8

/-!
# Runes

Bytes as a decoder that goes from rune to rune takes them: how wide a rune is, whether the
bytes at hand hold the whole of it, and which bytes can begin one.  In bytes that are made of
runes, the places between two runes are those where a byte stands that begins one.
-/

namespace Runes

open PyText List

/-! ## Decoding one rune -/

def isTail (b : Byte) : Bool :=
  0x80 ≤ b.val && b.val ≤ 0xBF

/-- `utf8.RuneStart`. -/
def runeStart (b : Byte) : Bool :=
  !isTail b

/-- The bytes that are there of the missing ones have the right values. -/
def agrees : ℕ → ℕ → ℕ → List Byte → Bool
  | 0, _, _, _ => true
  | _ + 1, _, _, [] => true
  | missing + 1, low, high, b :: rest =>
      low ≤ b.val && b.val ≤ high && agrees missing 0x80 0xBF rest

/-- The width that `utf8.DecodeRune` returns. -/
def runeWidth : List Byte → ℕ
  | [] => 0
  | b :: rest =>
      match pendingOf b.val with
      | none => 1
      | some pending =>
          if pending.missing ≤ rest.length &&
              agrees pending.missing pending.low pending.high rest then
            pending.missing + 1
          else 1

example : runeWidth [0x41] = 1 := by simp [runeWidth, pendingOf]

theorem runeWidth_pos {data : List Byte} (hdata : data ≠ []) : 1 ≤ runeWidth data := by
  cases data with
  | nil => exact absurd rfl hdata
  | cons b rest =>
      rw [runeWidth]
      split
      · exact le_rfl
      · split <;> omega

theorem runeWidth_le (data : List Byte) : runeWidth data ≤ data.length := by
  cases data with
  | nil => exact le_rfl
  | cons b rest =>
      rw [runeWidth, length_cons]
      split
      · exact Nat.succ_pos _
      · split
        next hwhole =>
          have hlength := of_decide_eq_true (Bool.and_eq_true_iff.mp hwhole).1
          omega
        next => exact Nat.succ_pos _

/-- `utf8.FullRune`: what cannot become a rune is a full one, too. -/
def fullRune : List Byte → Bool
  | [] => false
  | b :: rest =>
      match pendingOf b.val with
      | none => true
      | some pending =>
          pending.missing ≤ rest.length ||
            !agrees pending.missing pending.low pending.high rest

def validFrom : Option Pending → List Byte → Bool
  | pending, [] => pending.isNone
  | none, b :: rest =>
      if b.val < 0x80 then validFrom none rest
      else
        match pendingOf b.val with
        | none => false
        | some pending => validFrom (some pending) rest
  | some pending, b :: rest =>
      if pending.low ≤ b.val ∧ b.val ≤ pending.high then
        validFrom
          (if pending.missing = 1 then none
            else some ⟨pending.missing - 1, 0x80, 0xBF, pending.value⟩) rest
      else false

/-- `utf8.Valid`. -/
def valid (data : List Byte) : Bool :=
  validFrom none data

/-! ## Bytes made of runes -/

/-- The bytes of one character. -/
inductive IsRune : List Byte → Prop
  | ascii {b : Byte} (hb : b.val < 0x80) : IsRune [b]
  | wide {b : Byte} {pending : Pending} {rest : List Byte} (hpending : pendingOf b.val = some pending)
      (hlength : rest.length = pending.missing)
      (hagrees : agrees pending.missing pending.low pending.high rest = true) :
      IsRune (b :: rest)

inductive AllRunes : List Byte → Prop
  | nil : AllRunes []
  | cons {rune rest : List Byte} (hrune : IsRune rune) (hrest : AllRunes rest) :
      AllRunes (rune ++ rest)

/-- The beginning of a rune that is not yet there as a whole. -/
def Begun (part : List Byte) : Prop :=
  part = [] ∨ ∃ behind, behind ≠ [] ∧ IsRune (part ++ behind)

section Tails

variable {low high : ℕ} {rest : List Byte}

theorem pendingOf_bounds {b : ℕ} {pending : Pending} (hpending : pendingOf b = some pending) :
    0xC2 ≤ b ∧ 1 ≤ pending.missing ∧ pending.missing ≤ 3 := by
  unfold pendingOf at hpending
  split_ifs at hpending <;> cases hpending <;> simp only <;> omega

variable {missing : ℕ}

theorem isTail_of_agrees (hlow : 0x80 ≤ low) (hhigh : high ≤ 0xBF) (hlength : rest.length = missing)
    (hagrees : agrees missing low high rest = true) : ∀ b ∈ rest, isTail b = true := by
  induction missing generalizing low high rest with
  | zero =>
      rw [length_eq_zero_iff.mp hlength]
      exact fun b hb => absurd hb not_mem_nil
  | succ missing ih =>
      cases rest with
      | nil => cases hlength
      | cons first rest =>
          rw [agrees, Bool.and_eq_true, Bool.and_eq_true, decide_eq_true_iff,
            decide_eq_true_iff] at hagrees
          obtain ⟨⟨hfirst, hlast⟩, hagrees⟩ := hagrees
          intro b hb
          cases mem_cons.mp hb with
          | inl hhead =>
              rw [hhead, isTail, Bool.and_eq_true, decide_eq_true_iff, decide_eq_true_iff]
              exact ⟨hlow.trans hfirst, hlast.trans hhigh⟩
          | inr htail =>
              exact ih le_rfl le_rfl (Nat.succ_injective hlength) hagrees b htail

theorem agrees_append (more : List Byte) (hlength : missing ≤ rest.length) :
    agrees missing low high (rest ++ more) = agrees missing low high rest := by
  induction missing generalizing low high rest with
  | zero =>
      cases rest <;> rfl
  | succ missing ih =>
      cases rest with
      | nil => cases hlength
      | cons b rest =>
          rw [cons_append, agrees, agrees, ih (Nat.le_of_succ_le_succ hlength)]

theorem agrees_of_append {more : List Byte}
    (hagrees : agrees missing low high (rest ++ more) = true) :
    agrees missing low high rest = true := by
  induction missing generalizing low high rest with
  | zero => cases rest <;> rfl
  | succ missing ih =>
      cases rest with
      | nil => rfl
      | cons b rest =>
          rw [cons_append, agrees, Bool.and_eq_true] at hagrees
          rw [agrees, Bool.and_eq_true]
          exact ⟨hagrees.1, ih hagrees.2⟩

end Tails

namespace IsRune

variable {rune : List Byte}

theorem shape (hrune : IsRune rune) :
    ∃ b tail, rune = b :: tail ∧ runeStart b = true ∧ tail.length ≤ 3 ∧
      ∀ c ∈ tail, isTail c = true := by
  cases hrune with
  | ascii hb =>
      rename_i b
      have hstart : isTail b = false := by
        rw [isTail, decide_eq_false (by omega), Bool.false_and]
      exact ⟨b, [], rfl, by rw [runeStart, hstart, Bool.not_false], Nat.zero_le 3,
        fun c hc => absurd hc not_mem_nil⟩
  | wide hpending hlength hagrees =>
      rename_i b pending tail
      obtain ⟨hlead, hmissing, hmost⟩ := pendingOf_bounds hpending
      obtain ⟨hlow, hhigh⟩ := proper_pendingOf hpending
      have hstart : isTail b = false := by
        rw [isTail, decide_eq_false (show ¬ b.val ≤ 0xBF by omega), Bool.and_false]
      exact ⟨b, tail, rfl, by rw [runeStart, hstart, Bool.not_false], hlength.trans_le hmost,
        isTail_of_agrees hlow hhigh hlength hagrees⟩

theorem ne_nil (hrune : IsRune rune) : rune ≠ [] := by
  obtain ⟨b, tail, rfl, -⟩ := hrune.shape
  exact cons_ne_nil b tail

theorem pendingOf_ascii {b : Byte} (hb : b.val < 0x80) : pendingOf b.val = none := by
  cases hpending : pendingOf b.val with
  | none => rfl
  | some pending =>
      have hlead := (pendingOf_bounds hpending).1
      omega

theorem fullRune_append (hrune : IsRune rune) (more : List Byte) :
    fullRune (rune ++ more) = true := by
  cases hrune with
  | ascii hb => rw [singleton_append, fullRune, pendingOf_ascii hb]
  | wide hpending hlength hagrees =>
      rw [cons_append, fullRune, hpending]
      simp only [length_append]
      rw [decide_eq_true (by omega), Bool.true_or]

theorem runeWidth_append (hrune : IsRune rune) (more : List Byte) :
    runeWidth (rune ++ more) = rune.length := by
  cases hrune with
  | ascii hb =>
      rw [singleton_append, runeWidth, pendingOf_ascii hb]
      rfl
  | wide hpending hlength hagrees =>
      rw [cons_append, runeWidth, hpending]
      simp only [length_append, agrees_append more hlength.ge, hagrees]
      rw [decide_eq_true (by omega), length_cons, hlength]
      rfl

end IsRune

theorem Begun.fullRune {part : List Byte} (hbegun : Begun part) : fullRune part = false := by
  cases hbegun with
  | inl hnone =>
      rw [hnone]
      rfl
  | inr hrune =>
      obtain ⟨behind, hbehind, hrune⟩ := hrune
      have hmore := length_pos_of_ne_nil hbehind
      cases part with
      | nil => rfl
      | cons b rest =>
          generalize hwhole : b :: rest ++ behind = whole at hrune
          cases hrune with
          | ascii hb =>
              have hlength := congrArg List.length hwhole
              simp only [length_append, length_cons, length_nil] at hlength
              omega
          | wide hpending hlength hagrees =>
              rw [cons_append] at hwhole
              cases hwhole
              rw [Runes.fullRune, hpending]
              rw [length_append] at hlength
              simp only [agrees_of_append hagrees, Bool.not_true, Bool.or_false]
              exact decide_eq_false (by omega)

section Valid

variable {data rest : List Byte}

theorem validFrom_some_append {pending : Pending} {tail : List Byte} (rest : List Byte)
    (hmissing : 1 ≤ pending.missing) (hlength : tail.length = pending.missing)
    (hagrees : agrees pending.missing pending.low pending.high tail = true) :
    validFrom (some pending) (tail ++ rest) = validFrom none rest := by
  induction tail generalizing pending with
  | nil =>
      rw [← hlength] at hmissing
      cases hmissing
  | cons b tail ih =>
      obtain ⟨missing, hpred⟩ := Nat.exists_eq_succ_of_ne_zero (by omega : pending.missing ≠ 0)
      rw [hpred, agrees, Bool.and_eq_true, Bool.and_eq_true, decide_eq_true_iff,
        decide_eq_true_iff] at hagrees
      rw [hpred, length_cons, Nat.succ_inj] at hlength
      rw [cons_append, validFrom, if_pos hagrees.1]
      split
      next hone =>
        have hnone : tail = [] := length_eq_zero_iff.mp (by omega)
        rw [hnone, nil_append]
      next hmore =>
        have hnext : pending.missing - 1 = missing := by omega
        rw [hnext]
        exact ih (by dsimp only; omega) hlength hagrees.2

theorem validFrom_rune {rune : List Byte} (hrune : IsRune rune) (rest : List Byte) :
    validFrom none (rune ++ rest) = validFrom none rest := by
  cases hrune with
  | ascii hb => rw [singleton_append, validFrom, if_pos hb]
  | wide hpending hlength hagrees =>
      obtain ⟨hlead, hmissing, -⟩ := pendingOf_bounds hpending
      rw [cons_append, validFrom, if_neg (by omega), hpending]
      exact validFrom_some_append rest hmissing hlength hagrees

/-- What a decoder still takes from a place inside or between runes. -/
def Remaining : Option Pending → List Byte → Prop
  | none, data => AllRunes data
  | some pending, data =>
      ∃ tail rest, data = tail ++ rest ∧ tail.length = pending.missing ∧
        agrees pending.missing pending.low pending.high tail = true ∧ AllRunes rest

theorem remaining_of_validFrom {state : Option Pending}
    (hstate : ∀ pending ∈ state, 1 ≤ pending.missing) (hvalid : validFrom state data = true) :
    Remaining state data := by
  induction data generalizing state with
  | nil =>
      cases state with
      | none => exact .nil
      | some pending => cases hvalid
  | cons b rest ih =>
      cases state with
      | none =>
          rw [validFrom] at hvalid
          split at hvalid
          next hb => exact .cons (.ascii hb) (ih (fun _ hnone => by cases hnone) hvalid)
          next hb =>
            split at hvalid
            next => cases hvalid
            next pending hpending =>
              obtain ⟨-, hmissing, -⟩ := pendingOf_bounds hpending
              have hnext : ∀ other ∈ some pending, 1 ≤ other.missing := by
                intro other hother
                cases hother
                exact hmissing
              obtain ⟨tail, more, rfl, hlength, hagrees, hmore⟩ := ih hnext hvalid
              exact .cons (.wide hpending hlength hagrees) hmore
      | some pending =>
          have hmissing := hstate pending rfl
          obtain ⟨missing, hpred⟩ :=
            Nat.exists_eq_succ_of_ne_zero (by omega : pending.missing ≠ 0)
          rw [validFrom] at hvalid
          split at hvalid
          next hbounds =>
            split at hvalid
            next hone =>
              have hzero : missing = 0 := by omega
              have hmore := ih (fun _ hnone => by cases hnone) hvalid
              refine ⟨[b], rest, rfl, hone.symm, ?_, hmore⟩
              rw [hpred, hzero, agrees, Bool.and_eq_true, Bool.and_eq_true, decide_eq_true_iff,
                decide_eq_true_iff]
              exact ⟨hbounds, rfl⟩
            next hmany =>
              have hnext : ∀ other ∈ some (⟨pending.missing - 1, 0x80, 0xBF, pending.value⟩ :
                  Pending), 1 ≤ other.missing := by
                intro other hother
                cases hother
                dsimp only
                omega
              obtain ⟨tail, more, rfl, hlength, hagrees, hmore⟩ := ih hnext hvalid
              dsimp only at hlength hagrees
              rw [show pending.missing - 1 = missing by omega] at hlength hagrees
              refine ⟨b :: tail, more, rfl, ?_, ?_, hmore⟩
              · rw [length_cons, hlength, hpred]
              · rw [hpred, agrees, Bool.and_eq_true, Bool.and_eq_true, decide_eq_true_iff,
                  decide_eq_true_iff]
                exact ⟨hbounds, hagrees⟩
          next => cases hvalid

/-- Valid bytes are those made of runes. -/
theorem valid_iff : valid data = true ↔ AllRunes data := by
  constructor
  · intro hvalid
    have hremaining : Remaining none data :=
      remaining_of_validFrom (fun _ hnone => by cases hnone) hvalid
    exact hremaining
  · intro hrunes
    induction hrunes with
    | nil => rfl
    | cons hrune hrest ih =>
        rw [valid, validFrom_rune hrune]
        exact ih

end Valid

/-! ## Cuts -/

/-- Bytes made of runes, cut in two: between two runes, or inside one. -/
def Cut (data behind : List Byte) : Prop :=
  ∃ front part tail rest, data = front ++ part ∧ behind = tail ++ rest ∧ AllRunes front ∧
    AllRunes rest ∧
      (part = [] ∧ tail = [] ∨ part ≠ [] ∧ tail ≠ [] ∧ IsRune (part ++ tail))

theorem AllRunes.cut {whole data behind : List Byte} (hwhole : AllRunes whole)
    (hsplit : whole = data ++ behind) : Cut data behind := by
  induction hwhole generalizing data with
  | nil =>
      obtain ⟨hdata, hbehind⟩ := append_eq_nil_iff.mp hsplit.symm
      exact ⟨[], [], [], [], hdata, hbehind, .nil, .nil, .inl ⟨rfl, rfl⟩⟩
  | cons hrune hrest ih =>
      rename_i rune rest
      cases append_eq_append_iff.mp hsplit with
      | inl hlater =>
          obtain ⟨more, hdata, hmore⟩ := hlater
          obtain ⟨front, part, tail, last, hfront, hbehind, hbefore, hafter, hpart⟩ := ih hmore
          refine ⟨rune ++ front, part, tail, last, ?_, hbehind, .cons hrune hbefore, hafter,
            hpart⟩
          rw [hdata, hfront, append_assoc]
      | inr hinside =>
          obtain ⟨tail, hdata, hbehind⟩ := hinside
          by_cases htail : tail = []
          · rw [htail, append_nil] at hdata
            refine ⟨rune, [], [], rest, ?_, ?_, ?_, hrest, .inl ⟨rfl, rfl⟩⟩
            · rw [append_nil, hdata]
            · rw [hbehind, htail]
            · have hone := AllRunes.cons hrune .nil
              rwa [append_nil] at hone
          · by_cases hnone : data = []
            · refine ⟨[], [], [], behind, ?_, rfl, .nil, ?_, .inl ⟨rfl, rfl⟩⟩
              · rw [hnone]
                rfl
              · rw [hnone, nil_append] at hdata
                rw [hbehind, ← hdata]
                exact .cons hrune hrest
            · exact ⟨[], data, tail, rest, rfl, hbehind, .nil, hrest,
                .inr ⟨hnone, htail, hdata ▸ hrune⟩⟩

variable {left right : List Byte}

theorem AllRunes.append (hleft : AllRunes left) (hright : AllRunes right) :
    AllRunes (left ++ right) := by
  induction hleft with
  | nil => exact hright
  | cons hrune hrest ih =>
      rw [append_assoc]
      exact .cons hrune ih

theorem AllRunes.of_append (hleft : AllRunes left) (hwhole : AllRunes (left ++ right)) :
    AllRunes right := by
  have hsame : valid (left ++ right) = valid right := by
    clear hwhole
    induction hleft with
    | nil => rfl
    | cons hrune hrest ih =>
        rw [append_assoc, valid, validFrom_rune hrune]
        exact ih
  rw [← valid_iff, ← hsame, valid_iff]
  exact hwhole

theorem AllRunes.runeStart_head {data : List Byte} (hdata : AllRunes data) :
    ∀ b ∈ data.head?, runeStart b = true := by
  cases hdata with
  | nil => exact fun b hb => nomatch hb
  | cons hrune hrest =>
      obtain ⟨first, tail, rfl, hstart, -⟩ := hrune.shape
      intro b hb
      cases hb
      exact hstart

/-- Tails that end before the data does are the same in more data. -/
theorem takeWhile_isTail_append (hends : ((left ++ right).takeWhile isTail).length < left.length ∨
      (left ++ right).takeWhile isTail = []) :
    left.takeWhile isTail = (left ++ right).takeWhile isTail := by
  rw [takeWhile_append] at hends ⊢
  split
  next hall =>
    rw [if_pos hall] at hends
    cases hends with
    | inl hshort =>
        rw [length_append] at hshort
        omega
    | inr hnone =>
        have hleft := (append_eq_nil_iff.mp hnone).1
        rw [hnone, hleft]
        rfl
  next => rfl

/-- Behind runes, nothing is left to skip. -/
theorem AllRunes.takeWhile_isTail {data : List Byte} (hdata : AllRunes data) :
    data.takeWhile isTail = [] := by
  have hstart := hdata.runeStart_head
  cases data with
  | nil => rfl
  | cons b rest =>
      have hb := hstart b rfl
      rw [runeStart, Bool.not_eq_true'] at hb
      rw [takeWhile_cons_of_neg (by rw [hb]; exact Bool.false_ne_true)]

namespace Cut

variable {data behind : List Byte}

/-- What a cut leaves of a rune is short, and nothing but tails. -/
theorem tail_isTail {part tail : List Byte}
    (hpart : part = [] ∧ tail = [] ∨ part ≠ [] ∧ tail ≠ [] ∧ IsRune (part ++ tail)) :
    part.length ≤ 3 ∧ tail.length ≤ 3 ∧ ∀ b ∈ tail, isTail b = true := by
  cases hpart with
  | inl hnone =>
      rw [hnone.1, hnone.2]
      exact ⟨Nat.zero_le 3, Nat.zero_le 3, fun b hb => absurd hb not_mem_nil⟩
  | inr hinside =>
      obtain ⟨hpart, htail, hrune⟩ := hinside
      obtain ⟨b, rest, hshape, -, hlength, hrest⟩ := hrune.shape
      have hmore := length_pos_of_ne_nil htail
      cases part with
      | nil => exact absurd rfl hpart
      | cons first part =>
          rw [cons_append] at hshape
          cases hshape
          rw [length_append] at hlength
          refine ⟨?_, by omega, fun c hc => hrest c (mem_append_right _ hc)⟩
          rw [length_cons]
          omega

theorem skip (hcut : Cut data behind) :
    (behind.takeWhile isTail).length ≤ 3 ∧ AllRunes (behind.dropWhile isTail) ∧
      AllRunes (data ++ behind.takeWhile isTail) := by
  obtain ⟨front, part, tail, rest, rfl, rfl, hfront, hrest, hpart⟩ := hcut
  obtain ⟨-, hlength, htail⟩ := tail_isTail hpart
  have hnone := hrest.takeWhile_isTail
  have hsame : rest.dropWhile isTail = rest := by
    have hsplit := takeWhile_append_dropWhile (p := isTail) (l := rest)
    rwa [hnone, nil_append] at hsplit
  rw [takeWhile_append_of_pos htail, dropWhile_append_of_pos htail, hnone, hsame,
    append_nil]
  refine ⟨hlength, hrest, ?_⟩
  rw [append_assoc]
  apply hfront.append
  cases hpart with
  | inl hnone =>
      rw [hnone.1, hnone.2]
      exact .nil
  | inr hinside =>
      have hone := AllRunes.cons hinside.2.2 .nil
      rwa [append_nil] at hone

/-- Where a byte stands that begins a rune, or the end, the cut is between two runes. -/
theorem between (hcut : Cut data behind) (hstart : ∀ b ∈ behind.head?, runeStart b = true) :
    AllRunes data ∧ AllRunes behind := by
  obtain ⟨-, hrest, hdata⟩ := hcut.skip
  have hnone : behind.takeWhile isTail = [] := by
    cases behind with
    | nil => rfl
    | cons b rest =>
        have hb := hstart b rfl
        rw [runeStart, Bool.not_eq_true'] at hb
        rw [takeWhile_cons_of_neg (by rw [hb]; exact Bool.false_ne_true)]
  have hsame : behind.dropWhile isTail = behind := by
    have hsplit := takeWhile_append_dropWhile (p := isTail) (l := behind)
    rwa [hnone, nil_append] at hsplit
  rw [hnone, append_nil] at hdata
  rw [hsame] at hrest
  exact ⟨hdata, hrest⟩

/-- The data up to the cut is made of runes and of the beginning of one. -/
theorem begun (hcut : Cut data behind) :
    ∃ front part, data = front ++ part ∧ AllRunes front ∧ Begun part ∧ part.length ≤ 3 ∧
      AllRunes (part ++ behind) := by
  obtain ⟨front, part, tail, rest, hdata, hbehind, hfront, hrest, hpart⟩ := hcut
  obtain ⟨hlength, -, -⟩ := tail_isTail hpart
  refine ⟨front, part, hdata, hfront, ?_, hlength, ?_⟩
  · cases hpart with
    | inl hnone => exact .inl hnone.1
    | inr hinside => exact .inr ⟨tail, hinside.2.1, hinside.2.2⟩
  · rw [hbehind, ← append_assoc]
    cases hpart with
    | inl hnone =>
        rw [hnone.1, hnone.2]
        exact hrest
    | inr hinside => exact .cons hinside.2.2 hrest

end Cut

end Runes
