/-
`sanitizePdfText`: the texts of a document without technical references.

A text is first searched for image aliases, then for each hidden asset id in
turn, and every match gives way to a word of the language of the report. The
aliases are what `/\bIMAGE_\d+\b/gi` matches: letters and digits of the
pattern and its word boundaries are ASCII. A set of ids is the list of them
in the order of insertion, and no id is empty.

The replacements come one after the other, each on what the one before has
written. So the word that is put in for one reference is searched for the
next, together with the letters beside it.
-/
import FastRep.Replace

namespace FastRep.Reports

open Replace

/-- `labels(language).photograph`. -/
def photographLabel : String → String
  | "uk" => "фотографія"
  | "de" => "Foto"
  | "fr" => "photographie"
  | "es" => "fotografía"
  | _ => "photograph"

-- =============================================================== aliases

/-- `\w`. -/
def isWordChar (c : Char) : Bool := c.isAlphanum || c = '_'

/-- The match of `/\bIMAGE_\d+\b/i` at the front of a text. The digits end
where they can, and no shorter match ends at a boundary. -/
def aliasLength (before : Option Char) (text : List Char) : Option Nat :=
  let digits := (text.drop 6).takeWhile Char.isDigit
  let after := (text.drop 6).dropWhile Char.isDigit
  if !before.any isWordChar && (text.take 6).map Char.toUpper = "IMAGE_".toList &&
      digits ≠ [] && !after.head?.any isWordChar then
    some (6 + digits.length)
  else none

def aliasFinder : Finder Char where
  find := aliasLength
  bounds before text n h := by
    have hdigits := (List.takeWhile_prefix (l := text.drop 6) Char.isDigit).length_le
    rw [aliasLength] at h
    split_ifs at h with hmatch
    cases h
    simp only [Bool.and_eq_true, decide_eq_true_eq] at hmatch
    have hname := congrArg List.length hmatch.1.1.2
    have hsix : "IMAGE_".toList.length = 6 := rfl
    rw [List.length_map, List.length_take, hsix] at hname
    rw [List.length_drop] at hdigits
    omega

-- ============================================================== sanitizing

/-- `value.replace(/\bIMAGE_\d+\b/gi, photographLabel)`. -/
def replaceAliases (value photographLabel : String) : String :=
  String.ofList (replaceFrom aliasFinder photographLabel.toList id 0 none value.toList)

/-- `value.replaceAll(assetId, photographLabel)`. -/
def replaceAssetId (value assetId photographLabel : String) : String :=
  String.ofList (replaceAll assetId.toList photographLabel.toList value.toList)

def sanitizePdfText (value : String) (hiddenAssetIds : List String) (photographLabel : String) :
    String :=
  hiddenAssetIds.foldl (fun sanitized assetId => replaceAssetId sanitized assetId photographLabel)
    (replaceAliases value photographLabel)

/-- `visibleText`, for the images of a document. -/
def visibleText (language : String) (hiddenAssetIds : List String) (value : String) : String :=
  sanitizePdfText value hiddenAssetIds (photographLabel language)

example : visibleText "en" ["asset-id"] "IMAGE_12 shows asset-id" = "photograph shows photograph" := by
  decide +kernel

end FastRep.Reports
