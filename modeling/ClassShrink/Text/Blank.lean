/-! # Blank characters

The characters of Unicode's `White_Space` property, and trimming of text by
that property. -/

namespace ClassShrink.Text

/-- A character with the `White_Space` property. Zero-width characters and the
information separators below `U+0020` do not have it. -/
def isBlank (character : Char) : Bool :=
  let code := character.toNat
  (0x9 ≤ code && code ≤ 0xD) || code == 0x20 || code == 0x85 || code == 0xA0 ||
    code == 0x1680 || (0x2000 ≤ code && code ≤ 0x200A) || code == 0x2028 ||
    code == 0x2029 || code == 0x202F || code == 0x205F || code == 0x3000

example : isBlank ' ' = true := by decide

example : isBlank '\u200b' = false := by decide

def trimBlanks (characters : List Char) : List Char :=
  ((characters.dropWhile isBlank).reverse.dropWhile isBlank).reverse

def trim (text : String) : String :=
  String.ofList (trimBlanks text.toList)

example : trimBlanks [' ', 'a', ' ', 'b', '\t'] = ['a', ' ', 'b'] := by decide

end ClassShrink.Text
