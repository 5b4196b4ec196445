/-! The rows of a text. A row ends at a line feed, or at a carriage return that a
line feed follows. A carriage return anywhere else is a character of its row. The
break that ends the text starts no further row. -/

namespace Befunge.Text

def splitRows : List Char → List (List Char)
  | [] => []
  | '\n' :: rest => [] :: splitRows rest
  | '\r' :: '\n' :: rest => [] :: splitRows rest
  | c :: rest =>
    match splitRows rest with
    | [] => [[c]]
    | row :: rows => (c :: row) :: rows

def lines (text : String) : List String :=
  (splitRows text.toList).map String.ofList

end Befunge.Text
