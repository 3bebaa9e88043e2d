/-!
# Line ends

Files may end their lines with a line feed, a carriage return, or both. In text all of them are line
feeds.

## Main definitions

* `unifyNewlines` — a text with line feeds only.
-/

namespace Npl.Text

/-- A text with every carriage return, and the line feed right behind it if there is one, replaced
by one line feed. -/
def unifyNewlines : List Char → List Char
  | '\r' :: '\n' :: cs => '\n' :: unifyNewlines cs
  | '\r' :: cs => '\n' :: unifyNewlines cs
  | c :: cs => c :: unifyNewlines cs
  | [] => []

end Npl.Text
