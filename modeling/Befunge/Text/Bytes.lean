/-! Program text as bytes. A row is used as the bytes of its UTF-8 form, one cell for
each. Where a cell is shown again, a byte stands for the character of that number,
so a row outside ASCII does not read back as it was typed. -/

namespace Befunge.Text

def bytes (row : String) : List UInt8 :=
  row.toUTF8.data.toList

/-- The text whose characters have the numbers of the given bytes. -/
def ofBytes (bytes : List UInt8) : String :=
  String.ofList (bytes.map Char.ofUInt8)

end Befunge.Text
