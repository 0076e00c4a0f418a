import Mathlib.Data.List.Sort
import Mathlib.Data.List.SplitBy
import Mathlib.Data.String.Basic
import Beads.Tracker

/-! Partial ids (`internal/utils/id_parser.go` and `issue_id.go`): an input is looked up as it
stands, then with the configured prefix, and then as the hash, or as the beginning of the hash, of
an id under any prefix. The searches of the store return their ids in any order, so what they
return is a parameter of the resolution. -/
namespace Beads
open Lib

/-! ## Prefixes and hashes -/

/-- `strings.HasPrefix`. -/
def startsWith (text start : String) : Prop := start.toList <+: text.toList

instance (text start : String) : Decidable (startsWith text start) :=
  inferInstanceAs (Decidable (_ <+: _))

/-- `strings.TrimPrefix`. -/
def trimStart (text start : String) : String :=
  if startsWith text start then String.ofList (text.toList.drop start.length) else text

/-- `strings.TrimSuffix(text, "-")`. -/
def trimHyphen (text : String) : String :=
  if text.toList.getLast? = some '-' then String.ofList text.toList.dropLast else text

def isDigit (c : Char) : Bool := '0' ≤ c && c ≤ '9'
def isLower (c : Char) : Bool := 'a' ≤ c && c ≤ 'z'
def isUpper (c : Char) : Bool := 'A' ≤ c && c ≤ 'Z'

/-- `isNumeric`. -/
def isNumeric (text : List Char) : Bool := text ≠ [] && text.all isDigit

/-- `isLikelyHash`. -/
def isLikelyHash (text : List Char) : Bool :=
  3 ≤ text.length && text.length ≤ 8 && (text.all fun c => isDigit c || isLower c || isUpper c) &&
    (text.length = 3 || text.any isDigit)

/-- What comes before the last hyphen and what comes after it. -/
def cutLastHyphen (text : List Char) : Option (List Char × List Char) :=
  if '-' ∈ text then
    some ((text.reverse.dropWhile (· ≠ '-')).tail.reverse, (text.reverse.takeWhile (· ≠ '-')).reverse)
  else none

/-- What comes before the first hyphen and what comes after it. -/
def cutFirstHyphen (text : List Char) : Option (List Char × List Char) :=
  if '-' ∈ text then some (text.takeWhile (· ≠ '-'), (text.dropWhile (· ≠ '-')).tail) else none

/-- `ExtractIssuePrefix`. -/
def extractIssuePrefix (issueID : String) : String :=
  match cutLastHyphen issueID.toList with
  | none | some ([], _) => ""
  | some (before, suffix) =>
    let basePart := if 0 < suffix.idxOf '.' then suffix.takeWhile (· ≠ '.') else suffix
    if suffix = [] ∨ isNumeric basePart = true ∨ isLikelyHash basePart = true then String.ofList before
    else match cutFirstHyphen issueID.toList with
      | none => ""
      | some (first, _) => String.ofList first

/-- `ExtractIssuePrefixKnown`. -/
def extractIssuePrefixKnown (issueID : String) (knownPrefixes : List String) : String :=
  let cleaned := (knownPrefixes.map fun p => trimHyphen (trimSpace p)).filter (· ≠ "")
  let longestFirst := cleaned.insertionSort fun p q => q.utf8ByteSize ≤ p.utf8ByteSize
  match longestFirst.find? fun p => startsWith issueID (p ++ "-") with
  | some p => p
  | none => extractIssuePrefix issueID

/-- The hash of an id: what follows its prefix. -/
def issueHash (knownPrefixes : List String) (id : String) : String :=
  let p := extractIssuePrefixKnown id knownPrefixes
  if p ≠ "" ∧ startsWith id (p ++ "-") then trimStart id (p ++ "-") else id

/-- `looksLikePrefixedID`. -/
def LooksLikePrefixedID (input : String) : Prop :=
  ∃ parts ∈ cutFirstHyphen input.toList, parts.1 ≠ [] ∧ parts.1.length ≤ 8 ∧
    (parts.1.all fun c => isLower c || isDigit c) = true ∧ (parts.2.head?.any fun c => isLower c || isDigit c) = true

instance (input : String) : Decidable (LooksLikePrefixedID input) :=
  inferInstanceAs (Decidable (∃ _ ∈ _, _))

/-- `hasKnownPrefix`. -/
def HasKnownPrefix (input : String) (knownPrefixes : List String) : Prop :=
  ∃ p ∈ knownPrefixes, p ≠ "" ∧ startsWith input (p ++ "-")

instance (input : String) (knownPrefixes : List String) :
    Decidable (HasKnownPrefix input knownPrefixes) :=
  inferInstanceAs (Decidable (∃ _ ∈ _, _))

/-- `looksLikePartialIDHash`. -/
def looksLikePartialIDHash (input : List Char) : Bool :=
  input ≠ [] && input.all fun c => isDigit c || isLower c || isUpper c || c = '-' || c = '.'

/-- `partialIDSearchPart`. -/
def partialIDSearchPart (hashPart : String) : Option String :=
  if looksLikePartialIDHash hashPart.toList = true then
    match cutLastHyphen hashPart.toList with
    | some (_, suffix) =>
      if looksLikePartialIDHash suffix = true then some (String.ofList suffix) else some hashPart
    | none => some hashPart
  else none

/-! ## The store -/

/-- A row as the searches read it, with its title and its external reference in lower case. -/
structure IdRow where
  id : String
  title : String := ""
  externalRef : String := ""
  ephemeral : Bool := false

/-- The two tables, and the values of `issue_prefix` and `allowed_prefixes`; an absent value is
empty. -/
structure IdStore where
  issues : Table IdRow.id
  wisps : Table IdRow.id
  issuePrefix : String := ""
  allowedPrefixes : String := ""

/-- `LooksLikeIssueID`. -/
def LooksLikeIssueID (query : List Char) : Prop :=
  ∃ parts ∈ cutFirstHyphen query, parts.1 ≠ [] ∧ parts.2 ≠ [] ∧ looksLikePartialIDHash query = true

instance (query : List Char) : Decidable (LooksLikeIssueID query) :=
  inferInstanceAs (Decidable (∃ _ ∈ _, _))

/-- The text clause of `BuildIssueFilterClauses`; the patterns of a search part have no wildcard
but those at their ends. -/
def IdRow.Matches (query : String) (row : IdRow) : Prop :=
  let lower := query.toLower.toList
  if LooksLikeIssueID query.toList then
    lower <+: row.id.toList ∨ lower <:+: row.title.toList ∨ lower <:+: row.externalRef.toList
  else lower <:+: row.title.toList ∨ lower <:+: row.id.toList

instance (query : String) : DecidablePred (IdRow.Matches query) := fun _ => by
  unfold IdRow.Matches
  infer_instance

namespace IdStore
variable (s : IdStore)

/-- The id is that of a row. -/
def Stored (id : String) : Prop := (∃ row ∈ s.issues, row.id = id) ∨ ∃ row ∈ s.wisps, row.id = id

instance : DecidablePred s.Stored := fun _ => inferInstanceAs (Decidable (_ ∨ _))

/-- `SearchIssueIDs` with an empty filter: both tables, and of an id in both the wisp. -/
def searchIssueIDs (query : String) : List String :=
  let wispIDs := (s.wisps.rows.filter (IdRow.Matches query ·)).map IdRow.id
  let issueIDs := (s.issues.rows.filter (IdRow.Matches query ·)).map IdRow.id
  issueIDs.filter (· ∉ wispIDs) ++ wispIDs

/-- The ephemeral rows of a table that match. -/
def ephemeralIDs (query : String) (t : Table IdRow.id) : List String :=
  (t.rows.filter fun row => IdRow.Matches query row ∧ row.ephemeral = true).map IdRow.id

/-- `SearchIssueIDs` with the ephemeral filter: the wisps, or if there are none the issues. -/
def searchEphemeralIDs (query : String) : List String :=
  let wispIDs := ephemeralIDs query s.wisps
  if wispIDs ≠ [] then wispIDs else ephemeralIDs query s.issues

/-- The configured prefix, with a default. -/
def configuredPrefix : String := if s.issuePrefix = "" then "bd" else s.issuePrefix

def prefixWithHyphen : String :=
  if s.configuredPrefix.toList.getLast? = some '-' then s.configuredPrefix else s.configuredPrefix ++ "-"

def knownPrefixes : List String :=
  let allowed := s.allowedPrefixes.toList.splitOn ','
  trimHyphen s.configuredPrefix ::
    if s.allowedPrefixes = "" then []
    else (allowed.map fun p => trimHyphen (trimSpace (String.ofList p))).filter (· ≠ "")

/-- `normalizedID`. -/
def normalizedID (input : String) : String :=
  if startsWith input s.prefixWithHyphen ∨ HasKnownPrefix input s.knownPrefixes ∨ LooksLikePrefixedID input then input
  else s.prefixWithHyphen ++ input

/-- `hashPart`. -/
def hashPart (input : String) : String := trimStart (s.normalizedID input) s.prefixWithHyphen

end IdStore

/-! ## The resolution -/

/-- What a resolution comes to. -/
inductive Resolution where
  | found (id : String)
  | notFound
  | ambiguous (ids : List String)
  deriving DecidableEq

/-- The loop over the ids of a search: the last id that matches exactly, where the empty text is
none, and the ids that the input abbreviates. An id that is the input ends the loop. -/
def scanMatches (input : String) (exact abbreviated : String → Prop) [DecidablePred exact]
    [DecidablePred abbreviated] :
    String → List String → List String → String × List String
  | exactMatch, found, [] => (exactMatch, found)
  | exactMatch, found, id :: rest =>
    if id = input then (id, found)
    else if exact id then scanMatches input exact abbreviated id found rest
    else if abbreviated id then scanMatches input exact abbreviated exactMatch (found ++ [id]) rest
    else scanMatches input exact abbreviated exactMatch found rest

namespace IdStore
variable (s : IdStore) (input : String)

/-- The id has the hash of the input. -/
def Exact (id : String) : Prop := issueHash s.knownPrefixes id = s.hashPart input

/-- The hash of the id begins with that of the input. -/
def Abbreviated (id : String) : Prop := startsWith (issueHash s.knownPrefixes id) (s.hashPart input)

/-- The hash of a wisp, without the part that all wisps have. -/
def wispHash (id : String) : String := trimStart (issueHash s.knownPrefixes id) "wisp-"

/-- The same for the second pass. -/
def WispExact (id : String) : Prop := s.Exact input id ∨ s.wispHash id = s.hashPart input

def WispAbbreviated (id : String) : Prop := startsWith (s.wispHash id) (s.hashPart input)

instance : DecidablePred (s.Exact input) := fun _ => inferInstanceAs (Decidable (_ = _))
instance : DecidablePred (s.Abbreviated input) :=
  fun _ => inferInstanceAs (Decidable (startsWith _ _))
instance : DecidablePred (s.WispExact input) := fun _ => inferInstanceAs (Decidable (_ ∨ _))
instance : DecidablePred (s.WispAbbreviated input) :=
  fun _ => inferInstanceAs (Decidable (startsWith _ _))

/-- What the matches come to when none is exact. -/
def settle (found : List String) : Resolution :=
  match found.insertionSort (· ≤ ·) with
  | [] => .notFound
  | [id] => .found id
  | ids => .ambiguous ids

/-- The second pass, over the ephemeral rows. -/
def resolveWisps (wispIDs : List String) : Resolution :=
  let wisps := scanMatches input (s.WispExact input) (s.WispAbbreviated input) "" [] wispIDs
  if wisps.1 ≠ "" then .found wisps.1 else settle wisps.2

/-- `ResolvePartialID`, for what its searches return. -/
def resolvePartialID (ids wispIDs : List String) : Resolution :=
  if s.Stored input then .found input
  else if s.Stored (s.normalizedID input) then .found (s.normalizedID input)
  else match partialIDSearchPart (s.hashPart input) with
    | none => .notFound
    | some _ =>
      let all := scanMatches input (s.Exact input) (s.Abbreviated input) "" [] ids
      if all.1 ≠ "" then .found all.1
      else if all.2 = [] then s.resolveWisps input wispIDs
      else settle all.2

end IdStore
end Beads
