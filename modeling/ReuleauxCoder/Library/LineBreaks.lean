import ReuleauxCoder.Library.Text

/-!
# Line breaks under rewriting

`text.replace("\r\n", "\n")` drops one carriage return before each line feed
that has one.  What the rewriting does is read off the carriage returns directly
before each line feed: every count falls by one, and the text is unchanged
exactly when every count is zero.  A Unicode normalization that keeps line
breaks apart leaves the counts alone, so rewriting and normalizing together
behave in the same way.
-/

namespace PyText

open List

def carriageReturn : CodePoint := ofChar '\r'

def lineFeed : CodePoint := ofChar '\n'

/-! ## `str.splitlines` -/

def isLineBreak (c : CodePoint) : Bool :=
  (0x0A ≤ c.val && c.val ≤ 0x0D) || (0x1C ≤ c.val && c.val ≤ 0x1E) || c.val == 0x85 ||
    c.val == 0x2028 || c.val == 0x2029

/-- The lines of a text whose first line starts with `line`; after a carriage return
a line feed belongs to the same break. -/
def splitLinesFrom (line : Text) (returned : Bool) : Text → List Text
  | [] => if line = [] then [] else [line]
  | c :: rest =>
      if returned && c = lineFeed then splitLinesFrom [] false rest
      else if isLineBreak c then line :: splitLinesFrom [] (c = carriageReturn) rest
      else splitLinesFrom (line ++ [c]) false rest

def splitLines (text : Text) : List Text :=
  splitLinesFrom [] false text

example : splitLinesFrom [] true [lineFeed] = [] := by simp [splitLinesFrom]

/-! ## `replace("\r\n", "\n")` -/

/-- `text.replace("\r\n", "\n")`. -/
def replaceCrlf : Text → Text
  | [] => []
  | [c] => [c]
  | c :: d :: rest =>
      if c = carriageReturn ∧ d = lineFeed then d :: replaceCrlf rest
      else c :: replaceCrlf (d :: rest)

/-- The carriage returns directly before each line feed, when `count` of them
precede the text. -/
def returnsBefore (count : ℕ) : Text → List ℕ
  | [] => []
  | c :: rest =>
      if c = carriageReturn then returnsBefore (count + 1) rest
      else if c = lineFeed then count :: returnsBefore 0 rest
      else returnsBefore 0 rest

theorem lineFeed_ne_carriageReturn : lineFeed ≠ carriageReturn := by
  decide

variable {c : CodePoint} {text : Text}

theorem replaceCrlf_cons_of_ne (hc : c ≠ carriageReturn) (rest : Text) :
    replaceCrlf (c :: rest) = c :: replaceCrlf rest := by
  cases rest with
  | nil => rfl
  | cons d rest =>
      rw [replaceCrlf, if_neg]
      intro hboth
      exact hc hboth.1

theorem returnsBefore_cons_other (hreturn : c ≠ carriageReturn) (hfeed : c ≠ lineFeed) (count : ℕ)
    (rest : Text) : returnsBefore count (c :: rest) = returnsBefore 0 rest := by
  rw [returnsBefore, if_neg hreturn, if_neg hfeed]

theorem returnsBefore_cons_lineFeed (count : ℕ) (rest : Text) :
    returnsBefore count (lineFeed :: rest) = count :: returnsBefore 0 rest := by
  rw [returnsBefore, if_neg lineFeed_ne_carriageReturn, if_pos rfl]

theorem returnsBefore_cons_carriageReturn (count : ℕ) (rest : Text) :
    returnsBefore count (carriageReturn :: rest) = returnsBefore (count + 1) rest := by
  rw [returnsBefore, if_pos rfl]

/-- Every count falls by one. -/
theorem returnsBefore_replaceCrlf_both (text : Text) :
    returnsBefore 0 (replaceCrlf text) = (returnsBefore 0 text).map (· - 1) ∧
      ∀ count, returnsBefore count (replaceCrlf (carriageReturn :: text)) =
        (returnsBefore (count + 1) text).map (· - 1) := by
  induction text with
  | nil => exact ⟨rfl, fun _ => rfl⟩
  | cons c rest ih =>
      obtain ⟨hplain, hreturn⟩ := ih
      by_cases hc : c = carriageReturn
      · subst hc
        constructor
        · rw [hreturn 0, returnsBefore_cons_carriageReturn]
        · intro count
          rw [replaceCrlf, if_neg (fun hboth => lineFeed_ne_carriageReturn hboth.2.symm),
            returnsBefore_cons_carriageReturn, hreturn, returnsBefore_cons_carriageReturn]
      · have hhead := replaceCrlf_cons_of_ne hc rest
        by_cases hfeed : c = lineFeed
        · subst hfeed
          constructor
          · rw [hhead, returnsBefore_cons_lineFeed, returnsBefore_cons_lineFeed, hplain]
            rfl
          · intro count
            rw [replaceCrlf, if_pos ⟨rfl, rfl⟩, returnsBefore_cons_lineFeed,
              returnsBefore_cons_lineFeed, hplain]
            rfl
        · constructor
          · rw [hhead, returnsBefore_cons_other hc hfeed, returnsBefore_cons_other hc hfeed, hplain]
          · intro count
            rw [replaceCrlf, if_neg (fun hboth => hfeed hboth.2), hhead,
              returnsBefore_cons_carriageReturn, returnsBefore_cons_other hc hfeed,
              returnsBefore_cons_other hc hfeed, hplain]

theorem returnsBefore_replaceCrlf (text : Text) :
    returnsBefore 0 (replaceCrlf text) = (returnsBefore 0 text).map (· - 1) :=
  (returnsBefore_replaceCrlf_both text).1

theorem returnsBefore_mono {low high : ℕ} (hle : low ≤ high) (text : Text) :
    ∀ count ∈ returnsBefore low text, ∃ more ∈ returnsBefore high text, count ≤ more := by
  induction text generalizing low high with
  | nil =>
      intro count hcount
      cases hcount
  | cons c rest ih =>
      intro count hcount
      rw [returnsBefore] at hcount ⊢
      split at hcount
      · rename_i hc
        rw [if_pos hc]
        exact ih (Nat.succ_le_succ hle) count hcount
      · rename_i hc
        rw [if_neg hc]
        split at hcount
        · rename_i hfeed
          rw [if_pos hfeed]
          rcases mem_cons.mp hcount with rfl | hrest
          · exact ⟨high, mem_cons_self, hle⟩
          · exact ⟨count, mem_cons_of_mem _ hrest, le_refl count⟩
        · rename_i hfeed
          rw [if_neg hfeed]
          exact ⟨count, hcount, le_refl count⟩

/-- Without a carriage return before a line feed there is nothing to replace. -/
theorem replaceCrlf_eq_self (hzero : ∀ count ∈ returnsBefore 0 text, count = 0) :
    replaceCrlf text = text := by
  induction text with
  | nil => rfl
  | cons c rest ih =>
      by_cases hc : c = carriageReturn
      · subst hc
        rw [returnsBefore_cons_carriageReturn] at hzero
        have hrest : replaceCrlf rest = rest := by
          apply ih
          intro count hcount
          obtain ⟨more, hmore, hle⟩ := returnsBefore_mono (Nat.zero_le 1) rest count hcount
          exact Nat.le_zero.mp (hzero more hmore ▸ hle)
        cases rest with
        | nil => rfl
        | cons d others =>
            have hfeed : d ≠ lineFeed := by
              rintro rfl
              rw [returnsBefore_cons_lineFeed] at hzero
              exact absurd (hzero 1 mem_cons_self) (by decide)
            rw [replaceCrlf, if_neg (fun hboth => hfeed hboth.2), hrest]
      · rw [replaceCrlf_cons_of_ne hc, ih]
        intro count hcount
        apply hzero
        rw [returnsBefore, if_neg hc]
        split
        · exact mem_cons_of_mem _ hcount
        · exact hcount

/-! ## Runs of carriage returns -/

/-- So many carriage returns and a line feed. -/
def returnsThenFeed (count : ℕ) : Text :=
  List.replicate count carriageReturn ++ [lineFeed]

theorem returnsThenFeed_isPrefix (hc : c ≠ carriageReturn) (rest : Text) (wanted count : ℕ) :
    returnsThenFeed wanted <+: List.replicate count carriageReturn ++ c :: rest ↔
      c = lineFeed ∧ wanted = count := by
  induction wanted generalizing count with
  | zero =>
      cases count with
      | zero => simp [returnsThenFeed, eq_comm]
      | succ count => simp [returnsThenFeed, replicate_succ, lineFeed_ne_carriageReturn]
  | succ wanted ih =>
      cases count with
      | zero => simp [returnsThenFeed, replicate_succ, hc.symm]
      | succ count =>
          rw [returnsThenFeed, replicate_succ, replicate_succ, cons_append,
            cons_append, cons_prefix_cons, ← returnsThenFeed, ih]
          simp

theorem returnsThenFeed_isInfix (hc : c ≠ carriageReturn) (rest : Text) (wanted count : ℕ) :
    returnsThenFeed wanted <:+: List.replicate count carriageReturn ++ c :: rest ↔
      (c = lineFeed ∧ wanted ≤ count) ∨ returnsThenFeed wanted <:+: rest := by
  induction count with
  | zero =>
      have hhead := returnsThenFeed_isPrefix hc rest wanted 0
      rw [replicate_zero, nil_append] at hhead ⊢
      rw [infix_cons_iff, hhead, Nat.le_zero]
  | succ count ih =>
      have hhead := returnsThenFeed_isPrefix hc rest wanted (count + 1)
      rw [replicate_succ, cons_append] at hhead ⊢
      rw [infix_cons_iff, hhead, ih, ← or_assoc, ← and_or_left,
        Nat.le_succ_iff, or_comm (a := wanted = count + 1)]

/-- A count is reached exactly when the text contains so many carriage returns
before a line feed. -/
theorem exists_returnsBefore_iff (wanted : ℕ) (text : Text) :
    (∃ count ∈ returnsBefore 0 text, wanted ≤ count) ↔ returnsThenFeed wanted <:+: text := by
  have hgeneral : ∀ (text : Text) (seen : ℕ),
      (∃ count ∈ returnsBefore seen text, wanted ≤ count) ↔
        returnsThenFeed wanted <:+: List.replicate seen carriageReturn ++ text := by
    intro text
    induction text with
    | nil =>
        intro seen
        rw [append_nil, returnsBefore]
        constructor
        · rintro ⟨count, hcount, -⟩
          cases hcount
        · intro hwithin
          have hmem : lineFeed ∈ returnsThenFeed wanted := by simp [returnsThenFeed]
          exact absurd (eq_of_mem_replicate (hwithin.subset hmem)) lineFeed_ne_carriageReturn
    | cons c rest ih =>
        intro seen
        by_cases hc : c = carriageReturn
        · subst hc
          rw [returnsBefore_cons_carriageReturn, ih, replicate_succ', append_assoc,
            singleton_append]
        · have hrest := ih 0
          rw [replicate_zero, nil_append] at hrest
          rw [returnsThenFeed_isInfix hc, ← hrest]
          by_cases hfeed : c = lineFeed
          · subst hfeed
            rw [returnsBefore_cons_lineFeed]
            simp
          · rw [returnsBefore_cons_other hc hfeed]
            simp [hfeed]
  have hzero := hgeneral text 0
  rwa [replicate_zero, nil_append] at hzero

/-! ## Normalization -/

/-- A normalization form as `unicodedata.normalize` documents it: idempotent, the
identity on ASCII, never empty on other text, and with line breaks as
normalization boundaries that no other text produces. -/
structure Normalizer where
  normalize : Text → Text
  idempotent : ∀ text, normalize (normalize text) = normalize text
  ascii : ∀ text, (∀ c ∈ text, c.val < 0x80) → normalize text = text
  ne_nil : ∀ text, text ≠ [] → normalize text ≠ []
  boundary : ∀ left c right, c = carriageReturn ∨ c = lineFeed →
    normalize (left ++ c :: right) = normalize left ++ c :: normalize right
  unbroken : ∀ text, (∀ c ∈ text, c ≠ carriageReturn ∧ c ≠ lineFeed) →
    ∀ c ∈ normalize text, c ≠ carriageReturn ∧ c ≠ lineFeed

/-- Normalization of text that is normal already, ASCII text for one. -/
def Normalizer.identity : Normalizer where
  normalize text := text
  idempotent _ := rfl
  ascii _ _ := rfl
  ne_nil _ hne := hne
  boundary _ _ _ _ := rfl
  unbroken _ hunbroken := hunbroken

theorem returnsBefore_unbroken (hunbroken : ∀ c ∈ text, c ≠ carriageReturn ∧ c ≠ lineFeed)
    (hne : text ≠ []) (count : ℕ) (rest : Text) :
    returnsBefore count (text ++ rest) = returnsBefore 0 rest := by
  induction text generalizing count with
  | nil => exact absurd rfl hne
  | cons c text ih =>
      obtain ⟨hreturn, hfeed⟩ := hunbroken c mem_cons_self
      rw [cons_append, returnsBefore_cons_other hreturn hfeed]
      by_cases hmore : text = []
      · rw [hmore, nil_append]
      · exact ih (fun other hother => hunbroken other (mem_cons_of_mem c hother)) hmore 0

namespace Normalizer

variable (normalizer : Normalizer)

theorem normalize_nil : normalizer.normalize [] = [] := by
  apply normalizer.ascii
  intro c hc
  cases hc

variable {left : Text}

theorem returnsBefore_normalize_unbroken (hunbroken : ∀ c ∈ left, c ≠ carriageReturn ∧ c ≠ lineFeed)
    (count : ℕ) (rest : Text) :
    returnsBefore count (normalizer.normalize left ++ rest) = returnsBefore count (left ++ rest) := by
  by_cases hne : left = []
  · rw [hne, normalize_nil]
  · rw [returnsBefore_unbroken (normalizer.unbroken left hunbroken) (normalizer.ne_nil left hne),
      returnsBefore_unbroken hunbroken hne]

theorem returnsBefore_cons_congr {right : Text}
    (hequal : ∀ count, returnsBefore count left = returnsBefore count right) (c : CodePoint)
    (count : ℕ) : returnsBefore count (c :: left) = returnsBefore count (c :: right) := by
  rw [returnsBefore, returnsBefore, hequal, hequal]

theorem returnsBefore_append_congr (front : Text) {right : Text}
    (hequal : ∀ count, returnsBefore count left = returnsBefore count right) (count : ℕ) :
    returnsBefore count (front ++ left) = returnsBefore count (front ++ right) := by
  induction front generalizing count with
  | nil => exact hequal count
  | cons c front ih => exact returnsBefore_cons_congr ih c count

/-- Normalization keeps the counts. -/
theorem returnsBefore_normalize (text : Text) (count : ℕ) :
    returnsBefore count (normalizer.normalize text) = returnsBefore count text := by
  have hgeneral : ∀ (text left : Text), (∀ c ∈ left, c ≠ carriageReturn ∧ c ≠ lineFeed) →
      ∀ count, returnsBefore count (normalizer.normalize (left ++ text)) =
        returnsBefore count (left ++ text) := by
    intro text
    induction text with
    | nil =>
        intro left hleft count
        have hkept := normalizer.returnsBefore_normalize_unbroken hleft count []
        simpa only [append_nil] using hkept
    | cons c text ih =>
        intro left hleft count
        by_cases hbreak : c = carriageReturn ∨ c = lineFeed
        · rw [normalizer.boundary left c text hbreak,
            normalizer.returnsBefore_normalize_unbroken hleft]
          apply returnsBefore_append_congr
          apply returnsBefore_cons_congr
          exact ih [] (by simp)
        · have hsnoc : left ++ c :: text = (left ++ [c]) ++ text := by simp
          rw [hsnoc]
          apply ih
          intro other hother
          rcases mem_append.mp hother with hold | hnew
          · exact hleft other hold
          · rw [mem_singleton.mp hnew]
            exact not_or.mp hbreak
  exact hgeneral text [] (by simp) count

/-! ## Rewriting and normalizing -/

/-- `unicodedata.normalize(form, text.replace("\r\n", "\n"))`. -/
def canonicalText (text : Text) : Text :=
  normalizer.normalize (replaceCrlf text)

theorem returnsBefore_canonicalText (text : Text) :
    returnsBefore 0 (normalizer.canonicalText text) = (returnsBefore 0 text).map (· - 1) := by
  rw [canonicalText, returnsBefore_normalize, returnsBefore_replaceCrlf]

theorem returnsBefore_iterate (rounds : ℕ) (text : Text) :
    returnsBefore 0 (normalizer.canonicalText^[rounds] text) =
      (returnsBefore 0 text).map (· - rounds) := by
  induction rounds with
  | zero => simp
  | succ rounds ih =>
      rw [Function.iterate_succ_apply', returnsBefore_canonicalText, ih, map_map]
      apply map_congr_left
      intro count _
      change count - rounds - 1 = count - (rounds + 1)
      omega

/-- One more round changes canonical text exactly when a carriage return is
still there to drop. -/
theorem canonicalText_eq_self
    (hzero : ∀ count ∈ returnsBefore 0 (normalizer.canonicalText text), count = 0) :
    normalizer.canonicalText (normalizer.canonicalText text) = normalizer.canonicalText text := by
  calc
    normalizer.canonicalText (normalizer.canonicalText text)
        = normalizer.normalize (normalizer.canonicalText text) := by
      rw [canonicalText, replaceCrlf_eq_self hzero]
    _ = normalizer.canonicalText text := normalizer.idempotent (replaceCrlf text)

/-- Rewriting further, after at least one round, changes nothing exactly when the
text has no line feed after more carriage returns than there were rounds. -/
theorem iterate_canonicalText_eq_iff {rounds more : ℕ} (hrounds : 0 < rounds) (hmore : 0 < more)
    (text : Text) :
    normalizer.canonicalText^[rounds + more] text = normalizer.canonicalText^[rounds] text ↔
      ¬ returnsThenFeed (rounds + 1) <:+: text := by
  rw [← exists_returnsBefore_iff]
  constructor
  · rintro hequal ⟨count, hcount, hlarge⟩
    have hcounts := congrArg (returnsBefore 0) hequal
    rw [returnsBefore_iterate, returnsBefore_iterate] at hcounts
    have hcount' := map_inj_left.mp hcounts count hcount
    omega
  · intro hnone
    obtain ⟨before, rfl⟩ : ∃ before, rounds = before + 1 := ⟨rounds - 1, by omega⟩
    have hfixed : normalizer.canonicalText (normalizer.canonicalText^[before + 1] text) =
        normalizer.canonicalText^[before + 1] text := by
      rw [Function.iterate_succ_apply']
      apply canonicalText_eq_self
      rw [← Function.iterate_succ_apply' normalizer.canonicalText, returnsBefore_iterate]
      intro count hcount
      obtain ⟨original, horiginal, rfl⟩ := mem_map.mp hcount
      by_contra hpositive
      exact hnone ⟨original, horiginal, by omega⟩
    rw [Nat.add_comm, Function.iterate_add_apply]
    exact Function.iterate_fixed hfixed more

end Normalizer

end PyText
