/-
# Reading a tree of lexemes

A file is read by one step for each lexeme, `Reading.take?`, with the trees that are still
open on a stack, the innermost first.  A lexeme that has no place in the innermost tree
closes it and is offered to the tree around it.  A file holds one document, in front of
which dashes may stand, and behind it a line with dots.
-/

import RobotSuite.Yaml.Tree

namespace RobotSuite
namespace Yaml

/-- How far a file is read. -/
inductive Phase where
  /-- In front of its document. -/
  | before
  /-- Inside its document. -/
  | inside
  /-- Behind its document. -/
  | after
  /-- Behind the line that ends its document. -/
  | ended
deriving DecidableEq

/-- A file of which a part is read. -/
structure Reading where
  phase : Phase := .before
  /-- What leads to the document, the latest first. -/
  lead : List Lexeme := []
  /-- The open trees, the innermost first. -/
  opened : List Growth := []
  /-- The tree of the document. -/
  tree : Option Tree := none
  /-- Whether a key stands in front in the line. -/
  onKeyLine : Bool := false

namespace Reading

/-- What becomes of a lexeme. -/
inductive Outcome where
  /-- It has its place. -/
  | taken (r : Reading)
  /-- It is offered to the tree around the one that it closed. -/
  | offered (r : Reading)

/-- Close the innermost tree.  In a mapping set off by indentation, a tree without a
mark in front of it is a key; layout behind the last entry of a value goes out of it. -/
def close? (r : Reading) : Option Reading :=
  match r.opened with
  | [] => none
  | [g] => g.inside.close?.map fun t => { r with opened := [], tree := some t, phase := .after }
  | g :: parent :: around => do
    if parent.takesKey then
      let parent ← parent.receive? (← g.close?)
      pure { r with opened := parent :: around, onKeyLine := !parent.isExplicit }
    else
      let parent ← parent.receive? (← g.inside.close?)
      pure { r with opened := parent.addLayout g.outside :: around }

/-- Close all open trees, which are `trees`. -/
def closeAll? : List Growth → Reading → Option Reading
  | [], r => some r
  | _ :: trees, r => r.close?.bind (closeAll? trees)

/-- The innermost tree changed. -/
def put (r : Reading) (g : Growth) : Reading := { r with opened := g :: r.opened.tail }

/-- One more tree, opened by a lexeme. -/
def open? (r : Reading) (l : Lexeme) : Option Reading :=
  (Growth.ofLexeme? l).map fun g =>
    { r with
      opened := g :: r.opened
      onKeyLine := r.onKeyLine || l.kind = .keyMark || l.kind = .valueMark }

/-- Close the innermost tree and offer the lexeme to the next. -/
def leave? (r : Reading) : Option Outcome := r.close?.map .offered

/-- A lexeme behind a scalar or a closed bracket; `keep` adds it to the trail. -/
def takeTrail? (r : Reading) (l : Lexeme) (keep : Growth) : Option Outcome :=
  match l.kind with
  | .comma | .documentStart | .closing _ | .valueMark => r.leave?
  | .space | .comment => some (.taken (r.put keep))
  | .lineBreak => ({ r.put keep with onKeyLine := false }.close?).map .taken
  | _ => none

/-- The innermost tree becomes the key of a new mapping, with what stands behind it. -/
def makeKey (r : Reading) (indent : Nat) (key : Tree) (marks : List Lexeme) : Outcome :=
  .taken { r.put (.mapping indent [⟨[], some key, some marks, none⟩]) with onKeyLine := true }

/-- Whether the tree around the innermost one is a flow. -/
def isInFlow (r : Reading) : Bool :=
  match r.opened with
  | _ :: .flow .. :: _ => true
  | _ => false

/-- A lexeme behind a scalar. -/
def takeScalar? (r : Reading) (l source : Lexeme) (trail : List Lexeme) : Option Outcome :=
  if l.kind = .valueMark then
    if r.isInFlow then none else some (r.makeKey source.indent (.scalar source []) (l :: trail))
  else r.takeTrail? l (.scalar source (l :: trail))

/-- Whether a lexeme behind a closed bracket closes the flow: a colon in a mapping of the
same indentation, or a line break where the mapping has no place for a value. -/
def endsFlow (r : Reading) (l : Lexeme) (indent : Nat) : Bool :=
  match r.opened with
  | _ :: .mapping margin (e :: _) :: _ =>
    (l.kind = .valueMark && margin = indent) || (l.kind = .lineBreak && e.marks.isNone)
  | _ => false

/-- A lexeme behind a closed bracket. -/
def takeBehindFlow? (r : Reading) (l opening : Lexeme) (entries : List Entry)
    (trail : List Lexeme) : Option Outcome :=
  if r.endsFlow l opening.indent then r.leave?
  else if l.kind = .valueMark && !r.isInFlow then
    let key := Tree.flow opening (entries.map Entry.settle).reverse (trail.drop (trail.length - 1))
    some (r.makeKey opening.indent key (l :: trail.dropLast))
  else r.takeTrail? l (.flow opening entries (some (l :: trail)))

/-- The entries of a flow behind a lexeme; none if it has no place among them. -/
def flowEntries? (l : Lexeme) (entries : List Entry) : Option (List Entry) :=
  match l.kind with
  | .comma | .keyMark =>
    match entries with
    | e :: before =>
      if e.marks.isSome then some (.ofLead [l] :: entries) else some (e.addLead l :: before)
    | [] => some [.ofLead [l]]
  | .valueMark =>
    match entries with
    | e :: before =>
      if e.value.isSome then some (.ofMark [] l :: entries) else some (e.addMark l :: before)
    | [] => some [.ofMark [] l]
  | .space | .comment | .lineBreak =>
    match entries with
    | e :: before =>
      if e.value.isSome then some (.ofLead [l] :: entries)
      else if e.marks.isSome then some (e.addMark l :: before)
      else some (e.addLead l :: before)
    | [] => some [.ofLead [l]]
  | .scalar _ => some (Growth.receiveEntry (.scalar l []) entries)
  | _ => none

/-- A lexeme inside brackets.  A scalar that is a value stays open, because its trail
comes behind it. -/
def takeInFlow? (r : Reading) (l opening : Lexeme) (entries : List Entry) : Option Outcome :=
  let isValue := entries.head?.any fun e => e.value.isNone && e.marks.isSome
  match l.kind with
  | .closing _ => some (.taken (r.put (.flow opening entries (some [l]))))
  | .opening _ => (r.open? l).map .taken
  | .scalar _ =>
    if isValue then (r.open? l).map .taken
    else (flowEntries? l entries).map fun es => .taken (r.put (.flow opening es none))
  | _ => (flowEntries? l entries).map fun es => .taken (r.put (.flow opening es none))

/-- Whether a tree is a scalar or a flow. -/
def isInline : Option Tree → Bool
  | some (.scalar ..) | some (.flow ..) => true
  | _ => false

/-- A colon in a mapping whose latest entry has a marked key. -/
def takeExplicitMark? (r : Reading) (l : Lexeme) (indent : Nat) (e : Entry) (before : List Entry)
    (lead : List Lexeme) : Option Outcome :=
  let keep (es : List Entry) : Option Outcome :=
    some (.taken { r.put (.mapping indent es) with onKeyLine := true })
  let nest (es : List Entry) (inner : Entry) : Option Outcome :=
    let r := r.put (.mapping indent es)
    some (.taken { r with opened := .mapping l.indent [inner] :: r.opened, onKeyLine := true })
  match e.marks with
  | none =>
    if Lexeme.holds .lineBreak e.lead then
      keep ({ e with key := none, marks := some [l] } :: before)
    else nest (e :: before) (.ofMark [] l)
  | some marks =>
    if e.value.isSome then keep (.ofMark [] l :: e :: before)
    else if Lexeme.holds .valueMark marks then nest (e :: before) (.ofMark lead l)
    else if isInline e.key && !Lexeme.holds .lineBreak marks then
      let inner : Entry := ⟨[], e.key, some (l :: marks), none⟩
      nest ({ e with key := none, marks := none } :: before) inner
    else keep ({ e with marks := some (l :: lead ++ marks) } :: before)

/-- A colon in a mapping whose latest entry has a key without a mark, or none. -/
def takeImplicitMark? (r : Reading) (l : Lexeme) (indent : Nat) (e : Entry)
    (before : List Entry) (atNext : Bool) (lead : List Lexeme) : Option Outcome :=
  let keep (es : List Entry) : Option Outcome :=
    some (.taken { r.put (.mapping indent es) with onKeyLine := true })
  match e.marks with
  | none => keep ({ e with key := none, marks := some [l] } :: before)
  | some marks =>
    if e.value.isSome || atNext then keep (.ofMark lead l :: e :: before)
    else if Lexeme.holds .valueMark marks then (r.open? l).map .taken
    else keep (e.addMark l :: before)

/-- A lexeme of a mapping that is set off by indentation: layout. -/
def takeLayout (r : Reading) (l : Lexeme) (indent : Nat) (e : Entry) (before : List Entry) :
    Outcome :=
  let es :=
    if e.value.isSome then .ofLead [l] :: e :: before
    else if e.marks.isSome then e.addMark l :: before
    else e.addLead l :: before
  .taken { r.put (.mapping indent es) with onKeyLine := r.onKeyLine && l.kind ≠ .lineBreak }

/-- A lexeme in a mapping that is set off by indentation and whose latest entry is `e`.
It stands at the margin if no key stands in front of it in its line; there a new entry
begins once the latest one has a key. -/
def takeInMapping? (r : Reading) (l : Lexeme) (indent : Nat) (e : Entry) (before : List Entry) :
    Option Outcome :=
  if l.kind.isLayout then some (r.takeLayout l indent e before)
  else if l.indent < indent then r.leave?
  else
    let atMargin := !r.onKeyLine && l.indent = indent
    let atNext := atMargin && (e.marks.isSome || e.isExplicit) && l.kind ≠ .itemMark
    let (e, lead) := if atNext then e.cutEmptyLines indent else (e, [])
    let keep (es : List Entry) : Reading := r.put (.mapping indent es)
    let keepKey (es : List Entry) : Option Outcome :=
      some (.taken { keep es with onKeyLine := true })
    match l.kind with
    | .keyMark =>
      if e.marks.isNone && !e.isExplicit then keepKey (e.addLead l :: before)
      else if atNext || e.value.isSome then keepKey (.ofLead (l :: lead) :: e :: before)
      else (r.open? l).map .taken
    | .valueMark =>
      if e.isExplicit then r.takeExplicitMark? l indent e before lead
      else r.takeImplicitMark? l indent e before atNext lead
    | .scalar _ =>
      let key := Tree.scalar l []
      if atNext then keepKey (.ofKey lead key :: e :: before)
      else if e.value.isNone && e.marks.isSome then (r.open? l).map .taken
      else keepKey (Growth.receiveEntry key (e :: before))
    | .itemMark =>
      if !e.isExplicit && e.marks.any fun marks => !Lexeme.holds .lineBreak marks then none
      else (r.open? l).map .taken
    | .opening _ =>
      ((if atMargin then keep (.ofLead lead :: e :: before) else r).open? l).map .taken
    | _ => r.leave?

/-- A lexeme in a sequence that is set off by indentation and whose latest item is `e`. -/
def takeInSequence? (r : Reading) (l : Lexeme) (indent : Nat) (e : Entry) (before : List Entry) :
    Option Outcome :=
  let keep (es : List Entry) : Option Outcome := some (.taken (r.put (.sequence indent es)))
  if l.kind.isLayout then
    if e.value.isSome then keep (.ofLead [l] :: e :: before) else keep (e.addLead l :: before)
  else if l.kind = .itemMark && l.indent = indent then
    if e.value.isSome || Lexeme.holds .itemMark e.lead then keep (.ofLead [l] :: e :: before)
    else keep (e.addLead l :: before)
  else if indent < l.indent && (Growth.ofLexeme? l).isSome then (r.open? l).map .taken
  else r.leave?

/-- A lexeme outside all trees. -/
def takeOutside? (r : Reading) (l : Lexeme) : Option Reading :=
  match r.phase with
  | .before =>
    if l.kind = .document then some { r with phase := .inside }
    else if l.kind.isLayout || l.kind = .byteOrderMark then some r
    else none
  | .inside =>
    if l.kind.isLayout || (l.kind = .documentStart && r.lead.all fun x => x.kind.isLayout) then
      some { r with lead := l :: r.lead }
    else r.open? l
  | .after => if l.kind.isLayout then some r else none
  | .ended => if l.kind.isLayout || l.kind = .byteOrderMark then some r else none

/-- Offer a lexeme to the innermost tree. -/
def offer? (r : Reading) (l : Lexeme) : Option Outcome :=
  match r.opened with
  | [] => (r.takeOutside? l).map .taken
  | .scalar source trail :: _ => r.takeScalar? l source trail
  | .flow opening entries (some trail) :: _ => r.takeBehindFlow? l opening entries trail
  | .flow opening entries none :: _ => r.takeInFlow? l opening entries
  | .mapping indent (e :: before) :: _ => r.takeInMapping? l indent e before
  | .sequence indent (e :: before) :: _ => r.takeInSequence? l indent e before
  | .mapping _ [] :: _ | .sequence _ [] :: _ => r.leave?

/-- Offer a lexeme until a tree takes it, or else the place outside the trees, which are
`trees`. -/
def settle? (l : Lexeme) : List Growth → Reading → Option Reading
  | [], r =>
    match r.offer? l with
    | some (.taken r) => some r
    | _ => none
  | _ :: trees, r =>
    match r.offer? l with
    | some (.taken r) => some r
    | some (.offered r) => settle? l trees r
    | none => none

/-- Close what is still open at the end of a document. -/
def finish? (r : Reading) : Option Reading := closeAll? r.opened r

/-- Take a lexeme. -/
def take? (r : Reading) (l : Lexeme) : Option Reading :=
  if l.kind = .documentEnd then
    if r.phase = .inside || r.phase = .after then r.finish?.map fun r => { r with phase := .ended }
    else none
  else settle? l r.opened r

end Reading

/-- The document of a file: what leads to it, and its tree if there is one. -/
structure Root where
  lead : List Lexeme
  tree : Option Tree

/-- The document that lexemes make up. -/
def Root.ofLexemes? (lexemes : List Lexeme) : Option Root :=
  ((lexemes.foldlM Reading.take? {}).bind Reading.finish?).map fun r => ⟨r.lead.reverse, r.tree⟩

end Yaml
end RobotSuite
