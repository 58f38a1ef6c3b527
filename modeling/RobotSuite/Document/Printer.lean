/-
# Writing documents

Documents are written as JSON, on one line or with two spaces for each level.  In texts
the quote, the backslash and the control characters below U+0020 are escaped.
-/

import RobotSuite.Document

namespace RobotSuite
namespace Document

/-- Four hexadecimal digits. -/
def hex4 (n : Nat) : List Char :=
  let digits := Nat.toDigits 16 n
  List.replicate (4 - digits.length) '0' ++ digits

/-- A character inside quotes. -/
def quoteChar (c : Char) : List Char :=
  if c = '"' then ['\\', '"']
  else if c = '\\' then ['\\', '\\']
  else if c = '\n' then ['\\', 'n']
  else if c = '\r' then ['\\', 'r']
  else if c = '\t' then ['\\', 't']
  else if c.toNat = 8 then ['\\', 'b']
  else if c.toNat = 12 then ['\\', 'f']
  else if c.toNat < 0x20 then '\\' :: 'u' :: hex4 c.toNat
  else [c]

/-- A text in quotes. -/
def quote (s : String) : String :=
  String.ofList ('"' :: (s.toList.flatMap quoteChar ++ ['"']))

mutual

/-- A document on one line, without spaces. -/
def compact : Document → String
  | null => "null"
  | flag b => if b then "true" else "false"
  | number q => Number.text q
  | infinite _ | notNumber => "null"
  | text s => quote s
  | list items => "[" ++ ",".intercalate (compactItems items) ++ "]"
  | mapping fields => "\x7b" ++ ",".intercalate (compactFields fields) ++ "\x7d"

/-- The items of a list on one line. -/
def compactItems : List Document → List String
  | [] => []
  | d :: rest => compact d :: compactItems rest

/-- The fields of a mapping on one line. -/
def compactFields : List (String × Document) → List String
  | [] => []
  | (key, d) :: rest => (quote key ++ ":" ++ compact d) :: compactFields rest

end

/-- Items between brackets, each on a line of its own. -/
def enclose (opening closing margin : String) (items : List String) : String :=
  if items.isEmpty then opening ++ closing
  else
    opening ++ "\n" ++ ",\n".intercalate (items.map fun s => margin ++ "  " ++ s) ++ "\n" ++
      margin ++ closing

mutual

/-- A document with two spaces for each level; `margin` stands in front of its lines. -/
def indented (margin : String) : Document → String
  | list items => enclose "[" "]" margin (indentedItems (margin ++ "  ") items)
  | mapping fields => enclose "\x7b" "\x7d" margin (indentedFields (margin ++ "  ") fields)
  | d => compact d

/-- The items of a list, without the margin of their first lines. -/
def indentedItems (margin : String) : List Document → List String
  | [] => []
  | d :: rest => indented margin d :: indentedItems margin rest

/-- The fields of a mapping, without the margin of their first lines. -/
def indentedFields (margin : String) : List (String × Document) → List String
  | [] => []
  | (key, d) :: rest => (quote key ++ ": " ++ indented margin d) :: indentedFields margin rest

end

end Document
end RobotSuite
