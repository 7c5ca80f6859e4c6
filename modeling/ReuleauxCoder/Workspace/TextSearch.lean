import Mathlib
import ReuleauxCoder.Library.ByteLiterals
import ReuleauxCoder.Library.JsonText
import ReuleauxCoder.Library.Lines
import ReuleauxCoder.Library.Utf8
import ReuleauxCoder.Workspace.PortableGlob

/-!
# Searching text

`search_text` of the local workspace goes through the candidate files, reads each in lines
that end in a line feed, and stops or skips where one of its limits is reached.  What the
clock, the cancellation and the regular expression answer is given from outside, for each
question in turn.
-/

namespace ReuleauxCoder.Workspace.Local

open PyText PyJson
open scoped ByteLiterals

/-! ## Requests and candidates -/

/-- Why a search is partial, in the order of the names. -/
inductive PartialReason where
  | cancelled
  | entryLimit
  | fileLimit
  | fileSize
  | lineChars
  | matchLimit
  | outputChars
  | regexTimeout
  | scanBytes
  | timeout
  deriving DecidableEq

namespace PartialReason

def all : List PartialReason :=
  [cancelled, entryLimit, fileLimit, fileSize, lineChars, matchLimit, outputChars,
    regexTimeout, scanBytes, timeout]

end PartialReason

/-- What `stopped` notices. -/
inductive Stop where
  | cancelled
  | timeout

def Stop.reason : Stop → PartialReason
  | cancelled => .cancelled
  | timeout => .timeout

/-- The arguments of a search; `glob` is the compiled `include`. -/
structure SearchRequest where
  isDirectory : Bool
  excluded : List Text
  glob : Option PortableGlobMatcher
  maxFiles : ℕ
  maxMatches : ℕ
  maxFileBytes : ℕ
  maxScanBytes : ℕ
  maxLineChars : ℕ
  maxOutputChars : ℕ

/-- `max_files` and `max_matches` are checked by the search, the others by
`WorkspaceSearchLimits`. -/
structure SearchRequest.Valid (request : SearchRequest) : Prop where
  files : 1 ≤ request.maxFiles
  matches_pos : 1 ≤ request.maxMatches
  fileBytes : 1 ≤ request.maxFileBytes
  scanBytes : 1 ≤ request.maxScanBytes
  lineChars : 1 ≤ request.maxLineChars
  outputChars : 1 ≤ request.maxOutputChars

/-- The answers from outside: whether a line has the pattern, what the n-th call of
`stopped` finds, and whether the n-th match takes too long. -/
structure Outside where
  pattern : Text → Bool
  stopped : ℕ → Option Stop
  slow : ℕ → Bool

/-- What `lstat` and `open` find; a file may be gone before it is opened. -/
inductive SearchNode where
  | missing
  | irregular
  | failing
  | file (size : ℕ) (content : Option (List Byte))

def SearchNode.isFile : SearchNode → Bool
  | .file _ _ => true
  | _ => false

/-- A path that the discovery of files hands out, with its parts below the base. -/
structure Candidate where
  path : Text
  parts : List Text
  direct : Bool
  node : SearchNode

/-- How the discovery of files ends. -/
inductive Discovery where
  | complete
  | halted (stop : Stop)
  | failed

/-- The path is one that the search looks at. -/
def SearchRequest.admits (request : SearchRequest) (candidate : Candidate) : Bool :=
  !request.isDirectory ||
    (!(candidate.parts.dropLast.any fun part => request.excluded.contains part) &&
      (request.glob.all fun glob =>
        glob.matchesPath ([slash].intercalate candidate.parts)) &&
      candidate.direct)

/-! ## Matches -/

/-- `WorkspaceSearchMatch`. -/
structure SearchMatch where
  path : Text
  lineNumber : ℕ
  line : Text
  truncated : Bool
  deriving DecidableEq

/-- `line.rstrip()`. -/
def stripRight (line : Text) : Text :=
  line.rdropWhile isSpace

def matchOf (request : SearchRequest) (path : Text) (lineNumber : ℕ) (line : Text) :
    SearchMatch where
  path
  lineNumber
  line := (stripRight line).take request.maxLineChars
  truncated := request.maxLineChars < (stripRight line).length

/-- What a match takes up in the output. -/
def SearchMatch.cost (found : SearchMatch) : ℕ :=
  found.path.length + (decimal found.lineNumber).length + found.line.length + 4 +
    if found.truncated then (lit " … [line truncated]").length else 0

/-! ## The loops -/

/-- The variables of the search; `asked` and `compared` count the questions from outside. -/
structure Tally where
  reasons : List PartialReason := []
  found : List SearchMatch := []
  scannedFiles : ℕ := 0
  scannedBytes : ℕ := 0
  outputChars : ℕ := 0
  visited : ℕ := 0
  asked : ℕ := 0
  compared : ℕ := 0

def Tally.add (reason : PartialReason) (tally : Tally) : Tally :=
  { tally with reasons := tally.reasons ++ [reason] }

/-- A match is listed, and noted where its line is shortened. -/
def Tally.list (found : SearchMatch) (tally : Tally) : Tally :=
  { tally with
    outputChars := tally.outputChars + found.cost
    found := tally.found ++ [found]
    reasons := if found.truncated then tally.reasons ++ [.lineChars] else tally.reasons }

/-- A loop that is left: with what there is, or by an exception. -/
inductive Exit where
  | returned (tally : Tally)
  | raised

/-- `stopped()`, where `true` ends the search. -/
def Tally.goOn (outside : Outside) (tally : Tally) : Except Exit Tally :=
  let asked := { tally with asked := tally.asked + 1 }
  match outside.stopped tally.asked with
  | some stop => .error (.returned (asked.add stop.reason))
  | none => .ok asked

def searchLine (request : SearchRequest) (outside : Outside) (path : Text) (lineNumber : ℕ)
    (line : Text) (tally : Tally) : Except Exit Tally :=
  let compared := { tally with compared := tally.compared + 1 }
  if outside.slow tally.compared then .error (.returned (compared.add .regexTimeout))
  else if !outside.pattern line then .ok compared
  else
    let found := matchOf request path lineNumber line
    if request.maxOutputChars < compared.outputChars + found.cost then
      .error (.returned (compared.add .outputChars))
    else
      let listed := compared.list found
      if request.maxMatches ≤ listed.found.length then
        .error (.returned (listed.add .matchLimit))
      else .ok listed

/-- The lines of one read, behind `lineNumber` others. -/
def searchLines (request : SearchRequest) (outside : Outside) (path : Text) :
    ℕ → List Text → Tally → Except Exit Tally
  | _, [], tally => .ok tally
  | lineNumber, line :: rest, tally => do
      let tally ← searchLine request outside path (lineNumber + 1) line tally
      searchLines request outside path (lineNumber + 1) rest tally

/-- What `readline` hands out without a limit, where `raw` is read already. -/
def rawLinesFrom (raw : List Byte) : List Byte → List (List Byte)
  | [] => if raw = [] then [] else [raw]
  | b :: rest =>
      if b = 10 then (raw ++ [b]) :: rawLinesFrom [] rest else rawLinesFrom (raw ++ [b]) rest

def rawLines (content : List Byte) : List (List Byte) :=
  rawLinesFrom [] content

def linesOf (raw : List Byte) : List Text :=
  splitLines (decode raw)

/-- `stream.readline(remaining + 1)`. -/
def readLine (request : SearchRequest) (fileBytes scannedBytes : ℕ) (line : List Byte) :
    List Byte :=
  line.take (min (request.maxFileBytes - fileBytes) (request.maxScanBytes - scannedBytes) + 1)

def Tally.count (raw : List Byte) (tally : Tally) : Tally :=
  { tally with scannedBytes := tally.scannedBytes + raw.length }

/-- The reads of one file; a line that `readline` cuts off is longer than one of the two
limits, so that nothing is read behind it. -/
def searchReads (request : SearchRequest) (outside : Outside) (path : Text) :
    List (List Byte) → ℕ → ℕ → Tally → Except Exit Tally
  | [], _, _, tally => tally.goOn outside
  | line :: rest, lineNumber, fileBytes, tally => do
      let asked ← tally.goOn outside
      let raw := readLine request fileBytes asked.scannedBytes line
      let counted := asked.count raw
      if request.maxScanBytes < counted.scannedBytes then
        .error (.returned (counted.add .scanBytes))
      else if request.maxFileBytes < fileBytes + raw.length then .ok (counted.add .fileSize)
      else if 0 ∈ raw then .ok counted
      else do
        let searched ← searchLines request outside path lineNumber (linesOf raw) counted
        searchReads request outside path rest (lineNumber + (linesOf raw).length)
          (fileBytes + raw.length) searched

/-- One candidate that the search looks at. -/
def searchFile (request : SearchRequest) (outside : Outside) (candidate : Candidate)
    (tally : Tally) : Except Exit Tally :=
  match candidate.node with
  | .missing | .irregular => .ok tally
  | .failing => .error .raised
  | .file size content =>
      if request.maxFiles ≤ tally.scannedFiles then
        .error (.returned (tally.add .fileLimit))
      else
        let tally := { tally with scannedFiles := tally.scannedFiles + 1 }
        if request.maxFileBytes < size then .ok (tally.add .fileSize)
        else
          match content with
          | none => .ok tally
          | some content =>
              searchReads request outside candidate.path (rawLines content) 0 0 tally

def searchFiles (request : SearchRequest) (outside : Outside) :
    List Candidate → Tally → Except Exit Tally
  | [], tally => .ok tally
  | candidate :: rest, tally => do
      let tally ← tally.goOn outside
      let tally := { tally with visited := tally.visited + 1 }
      if request.maxFiles * 4 < tally.visited then
        .error (.returned (tally.add .entryLimit))
      else if !request.admits candidate then searchFiles request outside rest tally
      else
        let tally ← searchFile request outside candidate tally
        searchFiles request outside rest tally

/-! ## The result -/

/-- `WorkspaceSearchResult`. -/
structure WorkspaceSearchResult where
  found : List SearchMatch
  truncated : Bool
  reasons : List PartialReason
  scannedFiles : ℕ
  scannedBytes : ℕ

/-- `result()`. -/
def Tally.result (tally : Tally) : WorkspaceSearchResult where
  found := tally.found
  truncated := !tally.reasons.isEmpty
  reasons := PartialReason.all.filter fun reason => tally.reasons.contains reason
  scannedFiles := tally.scannedFiles
  scannedBytes := tally.scannedBytes

/-- `search_text` on the candidates that are discovered; `none` is an exception. -/
def searchText (request : SearchRequest) (outside : Outside) (candidates : List Candidate)
    (discovery : Discovery) : Option WorkspaceSearchResult :=
  match searchFiles request outside candidates {} with
  | .error (.returned tally) => some tally.result
  | .error .raised => none
  | .ok tally =>
      match discovery with
      | .complete => some tally.result
      | .halted stop => some (tally.add stop.reason).result
      | .failed => none

/-! ## What there is to find -/

/-- The matching lines among these, the first of which has the number behind
`lineNumber`. -/
def matchesFrom (request : SearchRequest) (outside : Outside) (path : Text) :
    ℕ → List Text → List SearchMatch
  | _, [] => []
  | lineNumber, line :: rest =>
      let others := matchesFrom request outside path (lineNumber + 1) rest
      if outside.pattern line then matchOf request path (lineNumber + 1) line :: others
      else others

/-- The bytes of a file in front of the first line that shows it to be binary. -/
def textIn (content : List Byte) : List Byte :=
  ((rawLines content).takeWhile fun raw => decide (0 ∉ raw)).flatten

/-- The bytes that the search is to go through. -/
def textOf (request : SearchRequest) (candidate : Candidate) : List Byte :=
  if request.admits candidate then
    match candidate.node with
    | .file _ (some content) => textIn content
    | _ => []
  else []

/-- The matches in these bytes of a file. -/
def matchesIn (request : SearchRequest) (outside : Outside) (candidate : Candidate)
    (data : List Byte) : List SearchMatch :=
  matchesFrom request outside candidate.path 0 (splitLines (decode data))

/-- The matches of a file in front of the first line that shows it to be binary. -/
def listing (request : SearchRequest) (outside : Outside) (candidate : Candidate) :
    List SearchMatch :=
  matchesIn request outside candidate (textOf request candidate)

/-- The matches of a file, of which a binary one has none. -/
def plainListing (request : SearchRequest) (outside : Outside) (candidate : Candidate) :
    List SearchMatch :=
  if request.admits candidate then
    match candidate.node with
    | .file _ (some content) =>
        if 0 ∈ content then [] else matchesIn request outside candidate content
    | _ => []
  else []

end ReuleauxCoder.Workspace.Local
