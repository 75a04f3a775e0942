import Kinewright.Lib.Text

/-!
# The language of captions

`captions.rs`: what a word says about the sentence it stands in, and how badly a caption may end between two words.
-/

namespace Kinewright.Captions

/-- `char::is_alphabetic` and `char::is_uppercase`, tables of Unicode. -/
structure CharTable where
  isAlphabetic : Char → Bool
  isUppercase : Char → Bool

/-- The last character in front of the closing quotes and brackets. -/
def lastUnclosed (closers : List Char) (text : String) : Option Char :=
  (text.toList.reverse.dropWhile fun c => closers.contains c).head?

/-- `' " ) ] }` -/
def straightClosers : List Char := ['\x27', '\x22', ')', ']', '\x7d']

/-- `ends_sentence`. -/
def endsSentence (text : String) : Bool :=
  (lastUnclosed (straightClosers ++ ['\u2019', '\u201d']) text).any fun c => ['.', '!', '?'].contains c

/-- `ends_clause`. -/
def endsClause (text : String) : Bool := (lastUnclosed straightClosers text).any fun c => [',', ';', ':'].contains c

/-- `normalized_token`. Of the characters that stay, all ASCII, the lowercase is one character. -/
def normalizedToken (text : String) : String :=
  String.ofList ((text.toList.filter fun c => c.isAlphanum).map Char.toLower)

def isDanglingEnd (text : String) : Bool :=
  ["a", "an", "the", "and", "or", "but", "of", "to", "in", "on", "at", "for", "from", "with", "my", "your", "their", "our",
    "its", "that", "these", "those", "this", "where"].contains (normalizedToken text)

def isDanglingStart (text : String) : Bool :=
  ["of", "to", "in", "on", "at", "for", "from", "with"].contains (normalizedToken text)

def isConnective (text : String) : Bool :=
  ["and", "but", "so", "because", "while", "when", "where", "then"].contains (normalizedToken text)

def likelySentenceStarter (text : String) : Bool :=
  ["and", "but", "so", "then", "they", "meanwhile", "however"].contains (normalizedToken text)

section

variable (table : CharTable)

def startsWithUppercase (text : String) : Bool := (text.toList.find? table.isAlphabetic).any table.isUppercase

def isBoundPhrase (previous next : String) : Bool :=
  if endsSentence previous || endsClause previous then false
  else
    let previousNormalized := normalizedToken previous
    let nextNormalized := normalizedToken next
    (startsWithUppercase table previous && startsWithUppercase table next && !endsSentence previous &&
        !endsClause previous) ||
      ["i", "ive", "im", "you", "youre", "he", "hes", "she", "shes", "it", "its", "we", "were", "they", "theyre", "very",
        "recently", "especially", "maybe", "just", "even"].contains previousNormalized ||
      [("super", "8"), ("home", "movies")].contains (previousNormalized, nextNormalized)

/-- `boundary_penalty`: what a caption costs that ends between the two words. -/
def boundaryPenalty (previous next : String) : ℕ :=
  if endsSentence previous || endsClause previous then 0
  else if isBoundPhrase table previous next then 4000
  else if isDanglingEnd previous then 4000
  else if isDanglingStart next then 4000
  else if isConnective next then 1000
  else 256

end

/-- `phrase_characters`: the characters of the words, and of the spaces between them. -/
def phraseCharacters (words : List String) : ℕ := (words.map String.length).sum + (words.length - 1)

/-- `MAX_CAPTION_CHARACTERS` -/
def maxCaptionCharacters : ℕ := 48

/-- The words with a space between them. -/
def joined (words : List String) : String := " ".intercalate words

theorem length_joined (words : List String) : (joined words).length = phraseCharacters words := by
  induction words with
  | nil => rfl
  | cons word words ih =>
    cases words with
    | nil => rw [joined]; simp [phraseCharacters]
    | cons next words =>
      have hspace : (" " : String).length = 1 := rfl
      rw [joined] at ih ⊢
      rw [String.intercalate_cons_cons, String.length_append, String.length_append, ih]
      simp only [phraseCharacters, List.map_cons, List.sum_cons, List.length_cons]
      omega

end Kinewright.Captions
