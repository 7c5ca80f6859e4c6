import ReuleauxCoder.Library.LineBreaks

/-!
# UTF-8

`bytes.decode("utf-8", errors="replace")` goes from byte to byte and writes one replacement
character for each longest beginning of a character that does not go on.  A byte of ASCII
is never part of another character, so a text can be decoded in parts that end in one.
-/

namespace PyText

abbrev Byte := Fin 256

/-- `"\ufffd"`. -/
def replacement : CodePoint := 0xFFFD

/-! ## Decoding -/

/-- A character of which some bytes were read: how many are missing, between which bounds
the next one lies, and the bits so far. -/
structure Pending where
  missing : ℕ
  low : ℕ
  high : ℕ
  value : ℕ
  deriving DecidableEq

/-- What a first byte begins. -/
def pendingOf (b : ℕ) : Option Pending :=
  if 0xC2 ≤ b ∧ b ≤ 0xDF then some ⟨1, 0x80, 0xBF, b - 0xC0⟩
  else if b = 0xE0 then some ⟨2, 0xA0, 0xBF, 0⟩
  else if b = 0xED then some ⟨2, 0x80, 0x9F, 0xD⟩
  else if 0xE1 ≤ b ∧ b ≤ 0xEF then some ⟨2, 0x80, 0xBF, b - 0xE0⟩
  else if b = 0xF0 then some ⟨3, 0x90, 0xBF, 0⟩
  else if 0xF1 ≤ b ∧ b ≤ 0xF3 then some ⟨3, 0x80, 0xBF, b - 0xF0⟩
  else if b = 0xF4 then some ⟨3, 0x80, 0x8F, 4⟩
  else none

/-- A byte between two characters. -/
def decodeFirst (b : Byte) : Text × Option Pending :=
  if b.val < 0x80 then ([Fin.ofNat _ b.val], none)
  else
    match pendingOf b.val with
    | some pending => ([], some pending)
    | none => ([replacement], none)

/-- A byte in or between characters: the characters that it ends, and what is pending. -/
def decodeByte (state : Option Pending) (b : Byte) : Text × Option Pending :=
  match state with
  | none => decodeFirst b
  | some pending =>
      if pending.low ≤ b.val ∧ b.val ≤ pending.high then
        let value := pending.value * 64 + (b.val - 0x80)
        if pending.missing = 1 then ([Fin.ofNat _ value], none)
        else ([], some ⟨pending.missing - 1, 0x80, 0xBF, value⟩)
      else (replacement :: (decodeFirst b).1, (decodeFirst b).2)

def decodeFrom (state : Option Pending) : List Byte → Text
  | [] => if state.isSome then [replacement] else []
  | b :: rest => (decodeByte state b).1 ++ decodeFrom (decodeByte state b).2 rest

theorem decodeFrom_cons (state : Option Pending) (b : Byte) (rest : List Byte) :
    decodeFrom state (b :: rest) =
      (decodeByte state b).1 ++ decodeFrom (decodeByte state b).2 rest := by
  rw [decodeFrom]

/-- `data.decode("utf-8", errors="replace")`. -/
def decode (data : List Byte) : Text :=
  decodeFrom none data

/-- What is pending only goes on with a byte that ASCII does not have. -/
def Pending.Proper (pending : Pending) : Prop :=
  0x80 ≤ pending.low ∧ pending.high ≤ 0xBF

variable {pending : Pending} {b : Byte} {state : Option Pending}

theorem proper_pendingOf {b : ℕ} (hpending : pendingOf b = some pending) : pending.Proper := by
  unfold pendingOf at hpending
  unfold Pending.Proper
  split_ifs at hpending <;> cases hpending <;> simp

theorem proper_decodeFirst (hpending : (decodeFirst b).2 = some pending) : pending.Proper := by
  rw [decodeFirst] at hpending
  split at hpending
  · cases hpending
  · split at hpending
    · rename_i found hfound
      cases hpending
      exact proper_pendingOf hfound
    · cases hpending

theorem proper_decodeByte (hpending : (decodeByte state b).2 = some pending) : pending.Proper := by
  cases state with
  | none => exact proper_decodeFirst hpending
  | some before =>
      simp only [decodeByte] at hpending
      split at hpending
      · split at hpending
        · cases hpending
        · cases hpending
          exact ⟨le_rfl, le_rfl⟩
      · exact proper_decodeFirst hpending

/-- A byte of ASCII ends what is pending and is read as if nothing were. -/
theorem decodeFrom_ascii (hstate : ∀ pending, state = some pending → pending.Proper)
    (hb : b.val < 0x80) (rest : List Byte) :
    decodeFrom state (b :: rest) =
      decodeFrom state [] ++ Fin.ofNat _ b.val :: decodeFrom none rest := by
  have hfirst : decodeFirst b = ([Fin.ofNat _ b.val], none) := if_pos hb
  cases state with
  | none =>
      have hbyte : decodeByte none b = ([Fin.ofNat _ b.val], none) := hfirst
      rw [decodeFrom_cons, hbyte]
      rfl
  | some pending =>
      have hbelow : ¬ (pending.low ≤ b.val ∧ b.val ≤ pending.high) := by
        intro hwithin
        exact absurd ((hstate pending rfl).1.trans hwithin.1) (Nat.not_le.mpr hb)
      have hbyte : decodeByte (some pending) b = ([replacement, Fin.ofNat _ b.val], none) := by
        simp only [decodeByte, if_neg hbelow, hfirst]
      rw [decodeFrom_cons, hbyte]
      rfl

theorem decodeFrom_append_ascii (hstate : ∀ pending, state = some pending → pending.Proper)
    (data : List Byte) (hb : b.val < 0x80) (rest : List Byte) :
    decodeFrom state (data ++ b :: rest) =
      decodeFrom state data ++ Fin.ofNat _ b.val :: decodeFrom none rest := by
  induction data generalizing state with
  | nil => exact decodeFrom_ascii hstate hb rest
  | cons other data ih =>
      rw [List.cons_append, decodeFrom_cons, decodeFrom_cons,
        ih fun pending hpending => proper_decodeByte hpending, List.append_assoc]

/-- A text is decoded up to a byte of ASCII and on from there. -/
theorem decode_append_ascii (data : List Byte) (hb : b.val < 0x80) (rest : List Byte) :
    decode (data ++ b :: rest) = decode data ++ Fin.ofNat _ b.val :: decode rest :=
  decodeFrom_append_ascii (fun _ hnone => by cases hnone) data hb rest

end PyText
