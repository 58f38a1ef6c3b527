/-
# Nodes of configuration files

A node is what a tree of lexemes says, still with the way in which its scalars are
written.  It becomes a document when the keys of its mappings become texts: a key that is
a collection is written out in brackets.
-/

import RobotSuite.Document.Printer
import RobotSuite.Yaml.Scalar

namespace RobotSuite
namespace Yaml

/-- What a tree of lexemes says. -/
inductive Node where
  /-- The place of a value behind a key without a mark. -/
  | absent
  | scalar (style : Style) (source : String) (value : Document)
  | sequence (items : List Node)
  | mapping (pairs : List (Node × Node))

namespace Node

/-- A scalar of which nothing is written. -/
def empty : Node := scalar .plain "" .null

/-- Whether two keys are the same scalar. -/
def sameKey : Node → Node → Bool
  | scalar _ _ .null, scalar _ _ .null => true
  | scalar _ _ (.flag a), scalar _ _ (.flag b) => a == b
  | scalar _ _ (.number p), scalar _ _ (.number q) => p == q
  | scalar _ _ (.infinite a), scalar _ _ (.infinite b) => a == b
  | scalar _ _ (.text s), scalar _ _ (.text t) => s == t
  | _, _ => false

/-- Whether a key occurs twice. -/
def hasRepeatedKey : List (Node × Node) → Bool
  | [] => false
  | (key, _) :: rest => rest.any (fun p => sameKey key p.1) || hasRepeatedKey rest

/-- Whether a node is a collection. -/
def isCollection : Node → Bool
  | sequence _ | mapping _ => true
  | _ => false

/-- A scalar inside a key: null and flags as they are written, texts in their quotes. -/
def scalarInKey (style : Style) (source : String) : Document → String
  | .null | .flag _ => source
  | .text s =>
    if style = .double || s.toList.any (fun c => c.toNat < 0x20) then Document.quote s
    else if style = .single then "'" ++ s.replace "'" "''" ++ "'"
    else s
  | d => d.shown

/-- A line with a comma behind it unless it is the last. -/
def withCommas : List String → List String
  | [] => []
  | [line] => [line]
  | line :: rest => (line ++ ",") :: withCommas rest

/-- The widest collection that is written on one line. -/
def keyWidth : Nat := 80

/-- A collection inside a key, on one line if it is short enough; `margin` stands in front
of its other lines. -/
def bracketed (opening closing margin : String) (parts : List String) : String :=
  let lines := withCommas parts
  let width := lines.foldl (fun n line => n + Text.length line + 2) 2
  if parts.isEmpty then opening ++ closing
  else if keyWidth < width || parts.any fun s => s.toList.contains '\n' then
    opening ++ String.join (lines.map fun s => "\n  " ++ margin ++ s) ++ "\n" ++ margin ++ closing
  else opening ++ " " ++ " ".intercalate lines ++ " " ++ closing

/-- The part of a pair behind its key; a collection of several lines starts on the next. -/
def behindKey (margin : String) (value : Node) (text : String) : String :=
  if value.isCollection && text.toList.contains '\n' then ":\n" ++ margin ++ text
  else if text.isEmpty then ":"
  else ": " ++ text

/-- A key without value. -/
def loneKey (key : Node) (text : String) : String :=
  if text.isEmpty then "?" else if key.isCollection then "? " ++ text else text

mutual

/-- A node inside a key, with `margin` in front of all its lines but the first. -/
def inKey (margin : String) : Node → String
  | absent => ""
  | scalar style source value => scalarInKey style source value
  | sequence items => bracketed "[" "]" margin (itemsInKey (margin ++ "    ") items)
  | mapping pairs => bracketed "\x7b" "\x7d" margin (pairsInKey (margin ++ "    ") pairs)

/-- The items of a sequence inside a key. -/
def itemsInKey (margin : String) : List Node → List String
  | [] => []
  | item :: rest => inKey margin item :: itemsInKey margin rest

/-- The pairs of a mapping inside a key. -/
def pairsInKey (margin : String) : List (Node × Node) → List String
  | [] => []
  | (key, absent) :: rest => loneKey key (inKey margin key) :: pairsInKey margin rest
  | (key, value) :: rest =>
    (inKey margin key ++ behindKey margin value (inKey margin value)) :: pairsInKey margin rest

end

/-- The text that a key becomes. -/
def keyText : Node → String
  | scalar _ _ .null => ""
  | scalar _ _ value => value.shown
  | node => node.inKey ""

/-- Fields with one more behind them; the value of a key that is already there is
replaced. -/
def addField (fields : List (String × Document)) (key : String) (d : Document) :
    List (String × Document) :=
  if fields.any fun f => f.1 == key then
    fields.map fun f => if f.1 == key then (key, d) else f
  else fields ++ [(key, d)]

mutual

/-- The document that a node becomes. -/
def toDocument : Node → Document
  | absent => .null
  | scalar _ _ value => value
  | sequence items => .list (itemDocuments items)
  | mapping pairs =>
    Document.ofFields ((pairDocuments pairs).foldl (fun fs f => addField fs f.1 f.2) [])

/-- The documents that the items of a sequence become. -/
def itemDocuments : List Node → List Document
  | [] => []
  | item :: rest => toDocument item :: itemDocuments rest

/-- The fields that the pairs of a mapping become. -/
def pairDocuments : List (Node × Node) → List (String × Document)
  | [] => []
  | (key, value) :: rest => (keyText key, toDocument value) :: pairDocuments rest

end

end Node

end Yaml
end RobotSuite
