import Mathlib.Data.Rat.Defs
import Mathlib.Algebra.Field.Rat
import MeridianMcp.Effects.FinMap
import MeridianMcp.Text

namespace Search

open MeridianMcp Effects

inductive SymbolKind where
  | type
  | proc
  | var
  deriving DecidableEq, Repr

structure SearchDocument where
  kind : SymbolKind
  symbol : Text
  name : Text
  typePath : Text
  implementationOwner : Option Text
  declarationOwner : Option Text
  parent : Option Text
  file : Text
  line : Nat
  column : Nat
  docs : Text
  source : Option Text
  parameters : List Text
  overrideIndex : Option Nat
  overrideCount : Option Nat
  deriving DecidableEq, Repr

-- The character tables of the standard library.
structure Unicode where
  isAlphanumeric : Char → Bool
  isWhitespace : Char → Bool
  toLowercase : Text → Text

def Unicode.trim (unicode : Unicode) (text : Text) : Text :=
  ((text.dropWhile unicode.isWhitespace).reverse.dropWhile unicode.isWhitespace).reverse

structure Posting where
  documentId : Nat
  termFrequency : Nat
  deriving DecidableEq, Repr

structure SearchIndex where
  documents : List SearchDocument
  postings : FinMap Text (List Posting)
  exactSymbols : FinMap Text (List Nat)
  exactNames : FinMap Text (List Nat)
  documentLengths : List Nat
  averageDocumentLength : ℚ

def isAscii (text : Text) : Bool := text.all fun c => c.val < 128

def equalsCaseInsensitive (unicode : Unicode) (text normalizedQuery : Text) : Bool :=
  if isAscii text && isAscii normalizedQuery then
    text.map Char.toLower = normalizedQuery.map Char.toLower
  else unicode.toLowercase text = normalizedQuery

def startsWithCaseInsensitive (unicode : Unicode) (text normalizedPrefix : Text) : Bool :=
  if isAscii text && isAscii normalizedPrefix then
    normalizedPrefix.length ≤ text.length &&
      (text.take normalizedPrefix.length).map Char.toLower = normalizedPrefix.map Char.toLower
  else normalizedPrefix.isPrefixOf (unicode.toLowercase text)

def containsCaseInsensitive (unicode : Unicode) (text normalizedNeedle : Text) : Bool :=
  if isAscii text && isAscii normalizedNeedle then
    if text.all fun c => !c.isUpper then normalizedNeedle <:+: text
    else normalizedNeedle <:+: text.map Char.toLower
  else normalizedNeedle <:+: unicode.toLowercase text

def tokenize (unicode : Unicode) (text : Text) : List Text :=
  ((text.splitOnP fun c => !unicode.isAlphanumeric c).filter (· ≠ [])).map unicode.toLowercase

-- The counters of the terms are 32 bits wide.
def addTerm (weight : Nat) (terms : FinMap Text Nat) (term : Text) : FinMap Text Nat :=
  terms.insert term (((terms.get term).getD 0 + weight) % 2 ^ 32)

def addWeightedTerms (unicode : Unicode) (terms : FinMap Text Nat) (text : Text) (weight : Nat) :
    FinMap Text Nat :=
  (tokenize unicode text).foldl (addTerm weight) terms

def weightedFields (document : SearchDocument) : List (Text × Nat) :=
  [(document.name, 10), (document.symbol, 8), (document.typePath, 5), (document.docs, 4),
    (List.intercalate [' '] document.parameters, 4), (document.parent.getD [], 2),
    (document.file, 2), (document.source.getD [], 1)]

def weightedTerms (unicode : Unicode) (document : SearchDocument) : FinMap Text Nat :=
  (weightedFields document).foldl
    (fun terms field => addWeightedTerms unicode terms field.1 field.2) FinMap.empty

def pushId (table : FinMap Text (List Nat)) (key : Text) (documentId : Nat) :
    FinMap Text (List Nat) :=
  table.insert key ((table.get key).getD [] ++ [documentId])

def pushPosting (documentId : Nat) (postings : FinMap Text (List Posting)) (term : Text × Nat) :
    FinMap Text (List Posting) :=
  postings.insert term.1 ((postings.get term.1).getD [] ++ [⟨documentId, term.2⟩])

def addDocument (unicode : Unicode) (index : SearchIndex) (document : SearchDocument) :
    SearchIndex :=
  let documentId := index.documents.length
  let terms := (weightedTerms unicode document).entries
  { index with
    documents := index.documents ++ [document]
    exactSymbols := pushId index.exactSymbols (unicode.toLowercase document.symbol) documentId
    exactNames := pushId index.exactNames (unicode.toLowercase document.name) documentId
    documentLengths := index.documentLengths ++ [(terms.map Prod.snd).sum]
    postings := terms.foldl (pushPosting documentId) index.postings }

def SearchIndex.new (unicode : Unicode) (documents : List SearchDocument) : SearchIndex :=
  let index := documents.foldl (addDocument unicode)
    ⟨[], FinMap.empty, FinMap.empty, FinMap.empty, [], 0⟩
  { index with
    averageDocumentLength :=
      if index.documentLengths = [] then 0
      else (index.documentLengths.sum : ℚ) / index.documentLengths.length }

end Search
