/-!
Texts as bytes in UTF-8, white space as Unicode defines it, and cutting a text at
a separator character.  There is always one piece more than there are separators,
so an empty text is one empty piece.
-/

namespace SceneQuiz.Text

/-- The UTF-8 bytes of a text. -/
def bytes (s : String) : List UInt8 := s.toList.flatMap String.utf8EncodeChar

/-- The number of UTF-8 bytes of a text. -/
def byteLength (s : String) : Nat := s.utf8ByteSize

theorem bytes_append (s t : String) : bytes (s ++ t) = bytes s ++ bytes t := by
  simp [bytes]

/-- The code points with the property `White_Space`. -/
def isBlank (c : Char) : Bool :=
  let n := c.toNat
  (9 ≤ n && n ≤ 13) || n == 0x20 || n == 0x85 || n == 0xa0 || n == 0x1680 ||
    (0x2000 ≤ n && n ≤ 0x200a) || n == 0x2028 || n == 0x2029 || n == 0x202f ||
    n == 0x205f || n == 0x3000

/-- Drop white space at both ends. -/
def trimChars (cs : List Char) : List Char :=
  ((cs.dropWhile isBlank).reverse.dropWhile isBlank).reverse

/-- Drop white space at both ends of a text. -/
def trimBlank (s : String) : String :=
  String.ofList (trimChars s.toList)

/-- A text of white space only. -/
def isBlankText (s : String) : Bool :=
  s.toList.all isBlank

/-- The pieces of a character list between separators. -/
def splitChars (sep : Char) : List Char → List (List Char)
  | [] => [[]]
  | c :: rest =>
      if c = sep then [] :: splitChars sep rest
      else
        match splitChars sep rest with
        | [] => [[c]]
        | piece :: pieces => (c :: piece) :: pieces

/-- The pieces of a text between separators. -/
def splitAt (sep : Char) (s : String) : List String :=
  (splitChars sep s.toList).map String.ofList

/-- What stands before and after the first separator, if there is one. -/
def cutChars (sep : Char) : List Char → Option (List Char × List Char)
  | [] => none
  | c :: rest =>
      if c = sep then some ([], rest)
      else (cutChars sep rest).map fun parts => (c :: parts.1, parts.2)

/-- What stands before and after the first separator of a text. -/
def cutAt (sep : Char) (s : String) : Option (String × String) :=
  (cutChars sep s.toList).map fun parts =>
    (String.ofList parts.1, String.ofList parts.2)

theorem splitChars_ne_nil (sep : Char) (cs : List Char) :
    splitChars sep cs ≠ [] := by
  cases cs with
  | nil => simp [splitChars]
  | cons c rest =>
      unfold splitChars
      split
      · simp
      · split <;> simp

theorem length_splitChars (sep : Char) (cs : List Char) :
    (splitChars sep cs).length = cs.count sep + 1 := by
  induction cs with
  | nil => rfl
  | cons c rest ih =>
      unfold splitChars
      split
      · next h => simp [h, ih]
      · next h =>
          split
          · next hnil => exact absurd hnil (splitChars_ne_nil sep rest)
          · next piece pieces heq =>
              rw [heq] at ih
              simp only [List.length_cons] at ih ⊢
              rw [List.count_cons_of_ne h]
              exact ih

end SceneQuiz.Text
