namespace PathSelection.Text

/-- Whether a character has the Unicode property White_Space. -/
def isBlank (c : Char) : Bool :=
  let n := c.toNat
  (0x9 ≤ n && n ≤ 0xd) || n == 0x20 || n == 0x85 || n == 0xa0 || n == 0x1680 ||
    (0x2000 ≤ n && n ≤ 0x200a) || n == 0x2028 || n == 0x2029 || n == 0x202f || n == 0x205f ||
    n == 0x3000

/-- The text without the blanks at both ends. -/
def trim (cs : List Char) : List Char :=
  ((cs.dropWhile isBlank).reverse.dropWhile isBlank).reverse

/-- The tokens of a text after the characters `token` of an unfinished one: the maximal runs of
characters that are not blank. -/
def wordsFrom (token : List Char) : List Char → List (List Char)
  | [] => if token = [] then [] else [token]
  | c :: cs =>
    if isBlank c then
      if token = [] then wordsFrom [] cs else token :: wordsFrom [] cs
    else wordsFrom (token ++ [c]) cs

def words (cs : List Char) : List (List Char) := wordsFrom [] cs

/-- The text without one carriage return at its end. -/
def dropReturn (cs : List Char) : List Char :=
  if cs.getLast? = some '\r' then cs.dropLast else cs

/-- The lines of a text after the characters `line` of an unfinished one. What follows the last line
feed is a line only if it is not empty, and it keeps its carriage return. -/
def linesFrom (line : List Char) : List Char → List (List Char)
  | [] => if line = [] then [] else [line]
  | c :: cs =>
    if c = '\n' then dropReturn line :: linesFrom [] cs else linesFrom (line ++ [c]) cs

/-- A line ends at a line feed, and one carriage return before it belongs to the end. -/
def lines (cs : List Char) : List (List Char) := linesFrom [] cs

end PathSelection.Text
