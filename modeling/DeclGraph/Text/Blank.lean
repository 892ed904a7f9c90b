/-!
# Blank characters and collapsed text

Names and type expressions are compared and shown with their layout normalized:
every run of blank characters counts as one space, and blanks at either end do
not count at all.

* `isBlank` is the class of characters that separate words;
* `words` cuts a text into its maximal runs of non-blank characters;
* `collapse` joins the words with single spaces.
-/

namespace DeclGraph
namespace Text

section Blank

/-- The characters that separate words: ASCII layout characters, the
information separators, and the spaces and line separators of Unicode. -/
def isBlank (c : Char) : Bool :=
  let n := c.toNat
  (0x09 ≤ n && n ≤ 0x0D) || (0x1C ≤ n && n ≤ 0x20) || n == 0x85 || n == 0xA0 ||
    n == 0x1680 || (0x2000 ≤ n && n ≤ 0x200A) || n == 0x2028 || n == 0x2029 ||
    n == 0x202F || n == 0x205F || n == 0x3000

/-- The maximal runs of non-blank characters, from left to right. -/
def words : List Char → List (List Char)
  | [] => []
  | c :: cs =>
    if isBlank c then words cs
    else
      match cs.head?.all isBlank, words cs with
      | false, w :: ws => (c :: w) :: ws
      | _, ws => [c] :: ws

/-- The words of a text, one space between neighbours. -/
def unwords (ws : List (List Char)) : List Char :=
  [' '].intercalate ws

/-- A text with every run of blanks reduced to one space and none at the ends. -/
def collapse (s : String) : String :=
  String.ofList (unwords (words s.toList))

end Blank

section Words

theorem words_cons_blank {c : Char} (h : isBlank c = true) (cs : List Char) :
    words (c :: cs) = words cs := by
  simp [words, h]

end Words

end Text
end DeclGraph
