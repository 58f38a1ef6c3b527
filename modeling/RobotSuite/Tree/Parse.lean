/-
# From lines to a file

The lines of a source are grouped into statements, the statements into sections at each
header, and the statements of a test case or keyword section into blocks at each name.
What does not fit is kept as an error in its place, and the defects are listed in
`File.errors` in the order in which they are found: section by section, each with its
header first, then its statements, then its blocks.

Nothing but a statement without a type keeps a file from being read.  It is found when the
sections are complete and the owners of comments are looked for: `parse` is the model up to
there, and `parse?` is what reading gives.
-/

import RobotSuite.Token.Lines
import RobotSuite.Statement.Group
import RobotSuite.Failure
import RobotSuite.Tree.Nesting
import RobotSuite.Tree.Ownership

namespace RobotSuite

/-- Cut a list in front of each element that opens a part.  Each part is the element
that opens it, if there is one, and the elements behind it. -/
def splitParts {α : Type} (opens : α → Bool) : List α → List (Option α × List α)
  | [] => []
  | x :: xs =>
    match splitParts opens xs with
    | (none, ys) :: parts => (if opens x then (some x, ys) else (none, x :: ys)) :: parts
    | parts => (if opens x then (some x, []) else (none, [x])) :: parts

/-- Cutting into parts loses nothing. -/
theorem flatMap_splitParts {α : Type} (opens : α → Bool) (xs : List α) :
    (splitParts opens xs).flatMap (fun p => p.1.toList ++ p.2) = xs := by
  induction xs with
  | nil => rfl
  | cons x xs ih =>
    unfold splitParts
    split
    · rename_i ys parts h
      rw [h] at ih
      simp at ih
      split <;> simp [← ih]
    · split <;> simp [ih]

/-! ## Blocks -/

/-- A block made of its name and the statements behind it. -/
def buildBlock (type : BlockType) (header : Statement) (ss : List Statement) :
    Block × List ParseError :=
  let (body, errors) := nest ss
  let span : Span := ⟨header.span.start, (endOfItems body).getD header.span.stop⟩
  ({ type, span, header, body }, errors)

/-- A statement in front of the first block of its section. -/
def leadingItem (owner : BlockType) (s : Statement) : SectionItem × List ParseError :=
  if s.type = .emptyLine || s.type = .comment || s.type = .error then (.statement s, [])
  else
    let (s, errors) := misplaced (.outsideBlock owner) s.tokens
    (.statement s, errors)

/-- Whether a statement is the name of a block. -/
def isBlockName (s : Statement) : Bool := s.type = .testCaseName || s.type = .keywordName

/-- The items of one part of a test case or keyword section: the statements in front of
the first name, or a name and the statements behind it. -/
def blockPart (owner : BlockType) :
    Option Statement × List Statement → List SectionItem × List ParseError
  | (none, leading) =>
    let items := leading.map (leadingItem owner)
    (items.map (·.1), items.flatMap (·.2))
  | (some header, rest) =>
    let type : BlockType := if header.type = .testCaseName then .testCase else .keyword
    let (block, errors) := buildBlock type header rest
    ([.block block], errors)

/-- The items that the statements of a test case or keyword section make. -/
def buildBlocks (owner : BlockType) (ss : List Statement) : List SectionItem × List ParseError :=
  let parts := (splitParts isBlockName ss).map (blockPart owner)
  (parts.flatMap (·.1), parts.flatMap (·.2))

/-! ## Sections -/

/-- The blocks that a kind of section holds. -/
def SectionKind.blockType? : SectionKind → Option BlockType
  | .testCases => some .testCase
  | .keywords => some .keyword
  | _ => none

/-- The items of a section, made of the tokens of its statements. -/
def buildItems (kind : SectionKind) (groups : List (List Token)) :
    List SectionItem × List ParseError :=
  let read := groups.map (classify kind)
  let ss := read.map (·.1)
  let errors := read.flatMap (·.2)
  match kind.blockType? with
  | none => (ss.map .statement, errors)
  | some owner =>
    let (items, more) := buildBlocks owner ss
    (items, errors ++ more)

/-- The kind of section that a header opens, and the defects of the header. -/
def readHeader (header : Statement) : SectionKind × List ParseError :=
  let unknown := header.tokens.filter fun t => t.kind == .unknown
  let errors : List ParseError :=
    unknown.map fun t => ⟨.headerControlCharacters, t.span.start⟩
  match SectionKind.ofHeader? header.nameText with
  | some kind => (kind, errors)
  | none => (.invalid, errors ++ [⟨.unknownSection header.nameText, header.span.start⟩])

/-- The span of a section. -/
def sectionSpan (header : Option Statement) (items : List SectionItem) : Span :=
  let spans := (header.map fun h => h.span).toList ++ items.map fun i => i.span
  ⟨(spans.head?.map fun s => s.start).getD .origin, (spans.getLast?.map fun s => s.stop).getD .origin⟩

/-- A section made of the tokens of its header and of its statements. -/
def buildSection (header : Option (List Token)) (groups : List (List Token)) :
    Section × List ParseError :=
  let header := header.map (Statement.create .sectionHeader)
  let (kind, headerErrors) := (header.map readHeader).getD (.comments, [])
  let (items, errors) := buildItems kind groups
  ({ kind, header, body := items, span := sectionSpan header items }, headerErrors ++ errors)

/-! ## Files -/

/-- The line ending that most lines have; LF when both are equally frequent. -/
def dominantNewline (lines : List (List Token)) : Newline :=
  let endings := lines.filterMap fun line => line.getLast?.filter (·.isEol)
  let crlf := endings.countP fun t => t.value = "\r\n"
  let lf := endings.countP fun t => t.value = "\n"
  if lf < crlf then .crlf else .lf

/-- The model of some lines of tokens. -/
def parseTokens (lines : List (List Token)) : File :=
  let groups := (groupLines lines).map List.flatten
  let parts := (splitParts isHeaderLine groups).map fun (header, rest) => buildSection header rest
  let sections := parts.map fun p => { p.1 with body := markOwnedItems p.1.body }
  { sections
    newline := dominantNewline lines
    errors := parts.flatMap (·.2)
    span :=
      ⟨(sections.head?.map fun s => s.span.start).getD .origin,
        (sections.getLast?.map fun s => s.span.stop).getD .origin⟩ }

/-- The model of a source. -/
def parse (source : String) : File := parseTokens (tokenize source)

/-- Whether a statement of a file has no type. -/
def File.isUnreadable (f : File) : Bool := f.errors.any fun e => e.defect = .untyped

/-- What reading some lines of tokens gives. -/
def parseTokens? (lines : List (List Token)) : Except Failure File :=
  let f := parseTokens lines
  if f.isUnreadable then .error (.internal Defect.untyped.message) else .ok f

/-- What reading a source gives. -/
def parse? (source : String) : Except Failure File := parseTokens? (tokenize source)

/-- A source without defects can be read. -/
theorem parse?_of_errors {source : String} (h : (parse source).errors = []) :
    parse? source = .ok (parse source) := by
  rw [parse?, parseTokens?, ← parse, File.isUnreadable, h]
  rfl

/-- The model of a source whose characters are given. -/
theorem parse_of_toList {source : String} {cs : List Char} (h : source.toList = cs) :
    parse source = parseTokens (Cursor.lines ⟨.origin, cs⟩) := by
  rw [parse, tokenize, Cursor.ofSource, h]

end RobotSuite
