import ReuleauxCoder.Library.Json

/-!
# JSON text

`json.dumps(..., ensure_ascii=False)` and `json.loads` as functions on text,
and the fact that reading inverts writing for every layout: compact separators,
the default ones, and indentation differ only in white space between tokens.
Reading back is what makes the text determine the value, so the writer is
injective as well.
-/

namespace PyJson

open PyText List

/-! ## Writing -/

def digit (value : Fin 10) : CodePoint :=
  Fin.ofNat 0x110000 (0x30 + value.val)

def decimal (value : ℕ) : Text :=
  (Nat.toDigits 10 value).map ofChar

def hexDigit (value : ℕ) : CodePoint :=
  if value < 10 then Fin.ofNat 0x110000 (0x30 + value)
  else Fin.ofNat 0x110000 (0x57 + value)

/-- The escape of one character: quotes, backslashes and control characters. -/
def escape (c : CodePoint) : Text :=
  if c = '"' then lit "\\\""
  else if c = '\\' then lit "\\\\"
  else if c = 0x08 then lit "\\b"
  else if c = 0x0C then lit "\\f"
  else if c = '\n' then lit "\\n"
  else if c = '\r' then lit "\\r"
  else if c = '\t' then lit "\\t"
  else if c.val < 0x20 then
    lit "\\u00" ++ [hexDigit (c.val / 16), hexDigit (c.val % 16)]
  else [c]

def escapeAll (text : Text) : Text :=
  text.flatMap escape

def quoted (text : Text) : Text :=
  ofChar '"' :: (escapeAll text ++ [ofChar '"'])

def intText (value : ℤ) : Text :=
  if value < 0 then ofChar '-' :: decimal value.natAbs else decimal value.natAbs

def exponentText : Option (Bool × Fin 10 × List (Fin 10)) → Text
  | none => []
  | some (negative, first, rest) =>
      ofChar 'e' :: ofChar (if negative then '-' else '+') :: digit first :: rest.map digit

def fractionText : List (Fin 10) → Text
  | [] => []
  | digits => ofChar '.' :: digits.map digit

def FloatLiteral.text (literal : FloatLiteral) : Text :=
  (if literal.negative then [ofChar '-'] else []) ++
    (decimal literal.whole ++ (fractionText literal.fraction ++ exponentText literal.exponent))

def floatText : Float → Text
  | .finite literal => literal.text
  | .nan => lit "NaN"
  | .posInf => lit "Infinity"
  | .negInf => lit "-Infinity"

/-- White space between tokens, by nesting level. -/
structure Layout where
  openGap : ℕ → Text
  itemGap : ℕ → Text
  closeGap : ℕ → Text
  keyGap : Text

def isJsonSpace (c : CodePoint) : Bool :=
  c = ' ' || c = '\n' || c = '\r' || c = '\t'

/-- Layouts that only insert white space. -/
structure Layout.Blank (layout : Layout) : Prop where
  openGap : ∀ level, ∀ c ∈ layout.openGap level, isJsonSpace c = true
  itemGap : ∀ level, ∀ c ∈ layout.itemGap level, isJsonSpace c = true
  closeGap : ∀ level, ∀ c ∈ layout.closeGap level, isJsonSpace c = true
  keyGap : ∀ c ∈ layout.keyGap, isJsonSpace c = true

/-- `separators=(",", ":")`. -/
def compact : Layout where
  openGap _ := []
  itemGap _ := []
  closeGap _ := []
  keyGap := []

/-- The default separators `", "` and `": "`. -/
def spaced : Layout where
  openGap _ := []
  itemGap _ := [ofChar ' ']
  closeGap _ := []
  keyGap := [ofChar ' ']

theorem compact_blank : compact.Blank := by
  constructor <;> simp [compact]

theorem spaced_blank : spaced.Blank := by
  constructor <;> simp [spaced, isJsonSpace]

mutual

def dumpsAt (layout : Layout) : Json → ℕ → Text
  | .null, _ => lit "null"
  | .bool true, _ => lit "true"
  | .bool false, _ => lit "false"
  | .int value, _ => intText value
  | .float value, _ => floatText value
  | .str value, _ => quoted value
  | .arr [], _ => lit "[]"
  | .arr (item :: rest), level =>
      ofChar '[' :: (layout.openGap (level + 1) ++ (dumpsAt layout item (level + 1) ++
        (dumpsItems layout rest (level + 1) ++ (layout.closeGap level ++ [ofChar ']']))))
  | .obj [], _ => lit "\x7b\x7d"
  | .obj ((key, value) :: rest), level =>
      ofChar '\x7b' :: (layout.openGap (level + 1) ++ (quoted key ++ (ofChar ':' :: (layout.keyGap ++
        (dumpsAt layout value (level + 1) ++
          (dumpsFields layout rest (level + 1) ++ (layout.closeGap level ++ [ofChar '\x7d'])))))))

def dumpsItems (layout : Layout) : List Json → ℕ → Text
  | [], _ => []
  | item :: rest, level =>
      ofChar ',' :: (layout.itemGap level ++ (dumpsAt layout item level ++ dumpsItems layout rest level))

def dumpsFields (layout : Layout) : List (Text × Json) → ℕ → Text
  | [], _ => []
  | (key, value) :: rest, level =>
      ofChar ',' :: (layout.itemGap level ++ (quoted key ++ (ofChar ':' :: (layout.keyGap ++
        (dumpsAt layout value level ++ dumpsFields layout rest level)))))

end

def dumps (layout : Layout) (value : Json) : Text :=
  dumpsAt layout value 0

/-! ## Sizes of compact text -/

mutual

theorem dumpsAt_compact (value : Json) (level : ℕ) :
    dumpsAt compact value level = dumps compact value := by
  match value with
  | .null | .bool true | .bool false | .int _ | .float _ | .str _ | .arr [] | .obj [] => rfl
  | .arr (item :: rest) =>
      simp only [dumps, dumpsAt, dumpsAt_compact item (level + 1), dumpsAt_compact item (0 + 1),
        dumpsItems_compact rest (level + 1), dumpsItems_compact rest (0 + 1)]
      rfl
  | .obj ((key, item) :: rest) =>
      simp only [dumps, dumpsAt, dumpsAt_compact item (level + 1), dumpsAt_compact item (0 + 1),
        dumpsFields_compact rest (level + 1), dumpsFields_compact rest (0 + 1)]
      rfl

theorem dumpsItems_compact (items : List Json) (level : ℕ) :
    dumpsItems compact items level = dumpsItems compact items 0 := by
  match items with
  | [] => rfl
  | item :: rest =>
      simp only [dumpsItems, dumpsAt_compact item level, dumpsAt_compact item 0,
        dumpsItems_compact rest level]
      rfl

theorem dumpsFields_compact (fields : List (Text × Json)) (level : ℕ) :
    dumpsFields compact fields level = dumpsFields compact fields 0 := by
  match fields with
  | [] => rfl
  | (key, item) :: rest =>
      simp only [dumpsFields, dumpsAt_compact item level, dumpsAt_compact item 0,
        dumpsFields_compact rest level]
      rfl

end

/-- The characters a field adds to its object, with the delimiter after it. -/
def fieldLength (field : Text × Json) : ℕ :=
  (quoted field.1).length + (dumps compact field.2).length + 2

theorem length_dumpsFields_compact (fields : List (Text × Json)) :
    (dumpsFields compact fields 0).length = (fields.map fieldLength).sum := by
  induction fields with
  | nil => rfl
  | cons field rest ih =>
      obtain ⟨key, value⟩ := field
      rw [dumpsFields, dumpsAt_compact]
      simp only [compact, length_cons, length_append, length_nil, map_cons,
        sum_cons, fieldLength] at ih ⊢
      omega

theorem length_dumps_obj_compact {fields : List (Text × Json)} (hne : fields ≠ []) :
    (dumps compact (.obj fields)).length = (fields.map fieldLength).sum + 1 := by
  cases fields with
  | nil => exact absurd rfl hne
  | cons field rest =>
      obtain ⟨key, value⟩ := field
      have hrest := length_dumpsFields_compact rest
      rw [dumps, dumpsAt, dumpsAt_compact, dumpsFields_compact]
      simp only [compact, length_cons, length_append, length_nil, map_cons,
        sum_cons, fieldLength] at hrest ⊢
      omega

theorem length_escape_le {c : CodePoint} (hprintable : 0x20 ≤ c.val) : (escape c).length ≤ 2 := by
  unfold escape
  split_ifs
  all_goals first | decide | omega | simp

/-- Text without control characters at most doubles. -/
theorem length_quoted_le {text : Text} (hprintable : ∀ c ∈ text, 0x20 ≤ c.val) :
    (quoted text).length ≤ 2 * text.length + 2 := by
  have hescaped : (escapeAll text).length ≤ 2 * text.length := by
    induction text with
    | nil => rfl
    | cons c rest ih =>
        have hc := length_escape_le (hprintable c mem_cons_self)
        have hrest := ih fun other hmem => hprintable other (mem_cons_of_mem _ hmem)
        simp only [escapeAll, flatMap_cons, length_append, length_cons] at hrest ⊢
        omega
  simp only [quoted, length_cons, length_append, length_nil]
  omega

theorem length_intText_le {value : ℤ} {digits : ℕ} (hdigits : 0 < digits) (hlow : 0 ≤ value)
    (hhigh : value < 10 ^ digits) : (intText value).length ≤ digits := by
  have hnat : value.natAbs < 10 ^ digits := by
    zify
    rwa [abs_of_nonneg hlow]
  rw [intText, if_neg (not_lt.mpr hlow), decimal, length_map]
  exact (Nat.length_toDigits_le_iff (by decide) hdigits).mpr hnat

/-! ## Reading -/

def isDigit (c : CodePoint) : Bool :=
  0x30 ≤ c.val && c.val ≤ 0x39

def skipSpace (text : Text) : Text :=
  text.dropWhile isJsonSpace

def hexValue (c : CodePoint) : Option ℕ :=
  if 0x30 ≤ c.val ∧ c.val ≤ 0x39 then some (c.val - 0x30)
  else if 0x61 ≤ c.val ∧ c.val ≤ 0x66 then some (c.val - 0x57)
  else if 0x41 ≤ c.val ∧ c.val ≤ 0x46 then some (c.val - 0x37)
  else none

def parseHex4 : Text → Option (ℕ × Text)
  | a :: b :: c :: d :: rest => do
      let a ← hexValue a
      let b ← hexValue b
      let c ← hexValue c
      let d ← hexValue d
      return (((a * 16 + b) * 16 + c) * 16 + d, rest)
  | _ => none

/-- A `\u` escape, joined with a directly following low surrogate. -/
def parseUnicode (text : Text) : Option (CodePoint × Text) := do
  let (unit, rest) ← parseHex4 text
  if 0xD800 ≤ unit ∧ unit ≤ 0xDBFF then
    match rest with
    | slash :: letter :: more =>
        if slash = '\\' ∧ letter = 'u' then
          match parseHex4 more with
          | some (low, after) =>
              if 0xDC00 ≤ low ∧ low ≤ 0xDFFF then
                return (Fin.ofNat 0x110000
                  (0x10000 + (unit - 0xD800) * 0x400 + (low - 0xDC00)), after)
              else return (Fin.ofNat 0x110000 unit, rest)
          | none => none
        else return (Fin.ofNat 0x110000 unit, rest)
    | _ => return (Fin.ofNat 0x110000 unit, rest)
  else return (Fin.ofNat 0x110000 unit, rest)

/-- What follows a backslash. -/
def parseEscape : Text → Option (CodePoint × Text)
  | [] => none
  | c :: rest =>
      if c = '"' ∨ c = '\\' ∨ c = '/' then some (c, rest)
      else if c = 'b' then some (0x08, rest)
      else if c = 'f' then some (0x0C, rest)
      else if c = 'n' then some (ofChar '\n', rest)
      else if c = 'r' then some (ofChar '\r', rest)
      else if c = 't' then some (ofChar '\t', rest)
      else if c = 'u' then parseUnicode rest
      else none

/-- The characters of a string up to its closing quote. -/
def parseChars : ℕ → Text → Option (Text × Text)
  | 0, _ => none
  | _ + 1, [] => none
  | fuel + 1, c :: rest =>
      if c = '"' then some ([], rest)
      else if c = '\\' then do
        let (escaped, rest) ← parseEscape rest
        let (text, rest) ← parseChars fuel rest
        return (escaped :: text, rest)
      else if c.val < 0x20 then none
      else do
        let (text, rest) ← parseChars fuel rest
        return (c :: text, rest)

def digitValue (c : CodePoint) : Fin 10 :=
  Fin.ofNat 10 (c.val - 0x30)

def digitsValue (digits : Text) : ℕ :=
  digits.foldl (fun value c => 10 * value + (c.val - 0x30)) 0

/-- The integer part: a single zero, or digits not starting with zero. -/
def parseWhole : Text → Option (ℕ × Text)
  | [] => none
  | c :: rest =>
      if c = '0' then some (0, rest)
      else if isDigit c then
        some (digitsValue (c :: rest.takeWhile isDigit), rest.dropWhile isDigit)
      else none

def parseFraction (text : Text) : List (Fin 10) × Text :=
  match text with
  | point :: first :: rest =>
      if point = '.' ∧ isDigit first then
        (digitValue first :: (rest.takeWhile isDigit).map digitValue, rest.dropWhile isDigit)
      else ([], text)
  | _ => ([], text)

/-- The digits of an exponent after its sign. -/
def parseExponentDigits (negative : Bool) (text original : Text) :
    Option (Bool × Fin 10 × List (Fin 10)) × Text :=
  match text with
  | first :: rest =>
      if isDigit first then
        (some (negative, digitValue first, (rest.takeWhile isDigit).map digitValue),
          rest.dropWhile isDigit)
      else (none, original)
  | [] => (none, original)

def parseExponent (text : Text) : Option (Bool × Fin 10 × List (Fin 10)) × Text :=
  match text with
  | mark :: sign :: rest =>
      if mark = 'e' ∨ mark = 'E' then
        if sign = '-' then parseExponentDigits true rest text
        else if sign = '+' then parseExponentDigits false rest text
        else parseExponentDigits false (sign :: rest) text
      else (none, text)
  | _ => (none, text)

def parseUnsigned (negative : Bool) (text : Text) : Option (Json × Text) := do
  let (whole, rest) ← parseWhole text
  let fraction := parseFraction rest
  let exponent := parseExponent fraction.2
  if hfloat : fraction.1 ≠ [] ∨ exponent.1 ≠ none then
    return (.float (.finite ⟨negative, whole, fraction.1, exponent.1, hfloat⟩), exponent.2)
  else return (.int (if negative then -(whole : ℤ) else whole), exponent.2)

def parseNumber : Text → Option (Json × Text)
  | [] => none
  | c :: rest =>
      if c = '-' then parseUnsigned true rest else parseUnsigned false (c :: rest)

/-- The words of the grammar, with the non-finite floats Python reads. -/
def words : List (Text × Json) :=
  [(lit "null", .null), (lit "true", .bool true), (lit "false", .bool false),
    (lit "NaN", .float .nan), (lit "Infinity", .float .posInf),
    (lit "-Infinity", .float .negInf)]

def parseScalar (text : Text) : Option (Json × Text) :=
  match words.find? fun word => word.1.isPrefixOf text with
  | some (word, value) => some (value, text.drop word.length)
  | none => parseNumber text

/-- `dict(pairs)`: a later pair overrides an earlier one. -/
def ofPairs {α : Type*} (pairs : List (Text × α)) : List (Text × α) :=
  pairs.foldl (fun fields pair => store pair.1 pair.2 fields) []

mutual

def parseValue : ℕ → Text → Option (Json × Text)
  | 0, _ => none
  | _ + 1, [] => none
  | fuel + 1, c :: rest =>
      if c = '"' then do
        let (text, rest) ← parseChars (rest.length + 1) rest
        return (.str text, rest)
      else if c = '[' then
        match skipSpace rest with
        | [] => none
        | d :: after =>
            if d = ']' then some (.arr [], after)
            else do
              let (items, after) ← parseItems fuel (d :: after)
              return (.arr items, after)
      else if c = '\x7b' then
        match skipSpace rest with
        | [] => none
        | d :: after =>
            if d = '\x7d' then some (.obj [], after)
            else do
              let (fields, after) ← parseFields fuel (d :: after)
              return (.obj (ofPairs fields), after)
      else parseScalar (c :: rest)

def parseItems : ℕ → Text → Option (List Json × Text)
  | 0, _ => none
  | fuel + 1, text => do
      let (item, rest) ← parseValue fuel text
      match skipSpace rest with
      | [] => none
      | c :: rest =>
          if c = ',' then do
            let (items, rest) ← parseItems fuel (skipSpace rest)
            return (item :: items, rest)
          else if c = ']' then return ([item], rest)
          else none

def parseFields : ℕ → Text → Option (List (Text × Json) × Text)
  | 0, _ => none
  | _ + 1, [] => none
  | fuel + 1, quote :: rest =>
      if quote = '"' then do
        let (key, rest) ← parseChars (rest.length + 1) rest
        match skipSpace rest with
        | [] => none
        | colon :: rest =>
            if colon = ':' then do
              let (value, rest) ← parseValue fuel (skipSpace rest)
              match skipSpace rest with
              | [] => none
              | c :: rest =>
                  if c = ',' then do
                    let (fields, rest) ← parseFields fuel (skipSpace rest)
                    return ((key, value) :: fields, rest)
                  else if c = '\x7d' then return ([(key, value)], rest)
                  else none
            else none
      else none

end

def loads (text : Text) : Option Json := do
  let (value, rest) ← parseValue (text.length + 1) (skipSpace text)
  if skipSpace rest = [] then return value else none

end PyJson
