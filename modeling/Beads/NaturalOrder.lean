import Beads.Lib.NaturalOrder
import Beads.SiblingOrder

/-! The comparison of ids with numeric-aware segments in Haxe (`QueryPage.hx`), and what both
versions of it are compared with. A segment is a number in Go when `Atoi` reads it, in Haxe when
it has digits only. -/
namespace Beads.QueryPage
open Lib

/-- `splitId`, which is the loop of `splitIDSegments`. -/
def splitId (value : String) : List String := ListTree.splitSegments [] value.toList

/-- `isDigits`. -/
def isDigits (value : String) : Bool :=
  value ≠ "" ∧ value.toList.all fun c => 48 ≤ c.toNat ∧ c.toNat ≤ 57

/-- The loop of `trimLeadingZeros`, which leaves the last character. -/
def trimZeros : List Char → List Char
  | '0' :: c :: rest => trimZeros (c :: rest)
  | value => value

/-- `trimLeadingZeros`. -/
def trimLeadingZeros (value : String) : String := String.ofList (trimZeros value.toList)

/-- `compareStrings`. -/
def compareStrings (left right : String) : Int :=
  if left < right then -1 else if right < left then 1 else 0

/-- `compareInts`. -/
def compareInts (left right : Nat) : Int :=
  if left < right then -1 else if right < left then 1 else 0

/-- `compareUnsignedDecimal`. -/
def compareUnsignedDecimal (left right : String) : Int :=
  let leftDigits := trimLeadingZeros left
  let rightDigits := trimLeadingZeros right
  if leftDigits.length < rightDigits.length then -1
  else if rightDigits.length < leftDigits.length then 1
  else compareStrings leftDigits rightDigits

/-- The loop of `naturalCompareIds`. -/
def compareParts : List String → List String → Int
  | leftPart :: left, rightPart :: right =>
    if leftPart = rightPart then compareParts left right
    else if isDigits leftPart ∧ isDigits rightPart then
      let order := compareUnsignedDecimal leftPart rightPart
      if order ≠ 0 then order else compareParts left right
    else compareStrings leftPart rightPart
  | left, right => compareInts left.length right.length

/-- `naturalCompareIds`. -/
def naturalCompareIds (left right : String) : Int := compareParts (splitId left) (splitId right)

/-- The number that a segment of digits is. -/
def unsignedDecimal (value : String) : Option Nat :=
  if isDigits value then some (Nat.ofDigitChars 10 value.toList 0) else none

/-! ## What the comparison is for -/

/-- A set of segments: texts that are one segment as ids. -/
structure Segments where
  texts : Set String
  single : ∀ text ∈ texts, ListTree.splitIDSegments text = [text]

/-- The ids that are made of the segments. -/
def Segments.ids (segments : Segments) : Set String :=
  {id | ∀ text ∈ ListTree.splitIDSegments id, text ∈ segments.texts}

end Beads.QueryPage
