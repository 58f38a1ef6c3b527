/-
# Ordering of the Settings section

Settings are put into groups with an empty line between groups.  Comments right above a
setting move with it, all other comments go to the top.
-/

import RobotSuite.Format.Pass
import RobotSuite.Format.Ending

namespace RobotSuite
namespace OrderSettings

/-- The groups and the settings in each of them. -/
def groups : List (String × List String) :=
  [("documentation", ["Name", "Documentation", "Metadata"]),
   ("imports", ["Library", "Resource", "Variables"]),
   ("settings",
    ["Suite Setup", "Suite Teardown", "Test Setup", "Test Teardown", "Test Timeout",
     "Test Template", "Task Setup", "Task Teardown", "Task Timeout", "Task Template"]),
   ("tags", ["Force Tags", "Test Tags", "Task Tags", "Default Tags", "Keyword Tags"])]

/-- The order of groups unless a configuration says otherwise. -/
def defaultOrder : List String := ["documentation", "imports", "settings", "tags"]

/-- The group of everything else. -/
def otherGroup : String := "other"

/-- A setting and the comments right above it. -/
structure SettingUnit where
  /-- Comments above the setting. -/
  comments : List Statement
  /-- The setting. -/
  setting : Statement
deriving Repr, DecidableEq, Inhabited

namespace SettingUnit

/-- The group of a unit. -/
def group (u : SettingUnit) : String :=
  match u.setting.suiteSetting? with
  | none => otherGroup
  | some name => ((groups.find? fun g => g.2.contains name).map (·.1)).getD otherGroup

/-- The place of a unit in its group.  Imports have no order of their own. -/
def rank (u : SettingUnit) : Nat :=
  match u.setting.suiteSetting? with
  | none => 0
  | some name =>
    match groups.find? fun g => g.2.contains name with
    | none => 0
    | some (group, names) => if group = "imports" then 0 else names.idxOf name

/-- The statements of a unit. -/
def statements (u : SettingUnit) : List Statement := u.comments ++ [u.setting]

end SettingUnit

/-- The units among some statements, and the comments that belong to none; `pending`
holds the comments right above. -/
def collect (pending : List Statement) : List Statement → List Statement × List SettingUnit
  | [] => (pending, [])
  | s :: ss =>
    if s.type = .emptyLine then collect pending ss
    else if s.type = .comment then
      if s.ownedByNext then collect (pending ++ [s]) ss
      else
        let (free, units) := collect pending ss
        (s :: free, units)
    else
      let (free, units) := collect [] ss
      (free, ⟨pending, s⟩ :: units)

/-- The units of one group in order. -/
def members (names : List String) (units : List SettingUnit) (group : String) :
    List SettingUnit :=
  let placed (u : SettingUnit) : String :=
    if names.contains u.group then u.group else otherGroup
  (units.filter fun u => placed u = group).mergeSort fun a b => a.rank ≤ b.rank

/-- Statements followed by the groups, with an empty line in front of each group but
where nothing stands before it. -/
def joinGroups (newline : String) (front : List Statement) : List (List SettingUnit) →
    List Statement
  | [] => front
  | units :: rest =>
    if units.isEmpty then joinGroups newline front rest
    else
      let gapLines := if front.isEmpty then [] else [Statement.emptyLine newline]
      joinGroups newline (front ++ gapLines ++ units.flatMap (·.statements)) rest

/-- Statements with a line break at the end of each but the last. -/
def terminateFront (newline : String) (ss : List Statement) : List Statement :=
  ss.dropLast.map (·.terminate newline) ++ ss.getLast?.toList

/-- All groups in a given order, and the group of everything else behind them. -/
def allGroups (order : List String) : List String :=
  (order.filter fun g => g != otherGroup) ++ [otherGroup]

/-- The first label that no statement of a file has. -/
def freeLabel (f : File) : Nat :=
  f.statements.foldl (fun n s => max n ((s.label.map (· + 1)).getD 0)) 0

/-- Statements with labels, counted from a number on, if an order names a group more than
once: the settings of that group will then stand at several places. -/
def labelRepeated (order : List String) (first : Nat) (ss : List Statement) : List Statement :=
  if (allGroups order).eraseDups.length = (allGroups order).length then ss
  else ss.zipIdx.map fun (s, n) =>
    if s.label.isSome then s else { s with label := some (first + n) }

/-- The statements of a Settings section in order.  Empty lines at its end stay there. -/
def arrange (order : List String) (newline : String) (ss : List Statement) : List Statement :=
  let isEmpty (s : Statement) : Bool := s.type = .emptyLine
  let (free, units) := collect [] (Text.dropEndWhile isEmpty ss)
  let names := allGroups order
  terminateFront newline
    (joinGroups newline free (names.map (members names units)) ++ Text.takeEndWhile isEmpty ss)

/-- What the pass declares. -/
def info : PassInfo :=
  { name := "ORDER_SETTINGS_SECTION"
    description := "Group and order settings in the Settings section"
    params := [⟨"groupOrder", .texts defaultOrder, "Setting groups in output order"⟩] }

/-- The new items of a Settings section.  One in which a directive switches the pass off
anywhere is left alone, and so is one that holds blocks; labels from `first` on are free. -/
def leave (setup : PassSetup) (first : Nat) (place : Place) (header : Option Statement)
    (items : List SectionItem) : Option (List SectionItem) :=
  let ss := items.filterMap SectionItem.statement?
  let applies := place.scope.section?.any fun sect =>
    sect.kind = .settings && !place.scope.frames.disables info.name &&
      !{ sect with header, body := items }.disables info.name &&
      !ss.any (place.scope.disables info.name) && !items.any (·.isBlock)
  if applies then
    let order := setup.params.texts "groupOrder" defaultOrder
    let ss := labelRepeated order (first + (place.index - ss.length)) ss
    some ((arrange order setup.newline ss).map .statement)
  else none

/-- **Ordering of the Settings section.** -/
def pass : Pass :=
  .ofTransform info fun setup f =>
    let first := freeLabel f
    { name := info.name
      leaveSection := fun place header items =>
        .ofOption ((leave setup first place (header.map (·.1)) (unmark items)).map fun new =>
          new.map fun item => (item, false)) }

end OrderSettings
end RobotSuite
