/-!
# Line ends

A text file may end its lines with a line feed, a carriage return, or both.
`unifyNewlines` writes every one of these as a single line feed.
-/

namespace DeclGraph
namespace Text

section Newline

/-- Every line end written as one line feed. -/
def unifyNewlines : List Char → List Char
  | [] => []
  | '\r' :: '\n' :: cs => '\n' :: unifyNewlines cs
  | '\r' :: cs => '\n' :: unifyNewlines cs
  | c :: cs => c :: unifyNewlines cs

end Newline

end Text
end DeclGraph
