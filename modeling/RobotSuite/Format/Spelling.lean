/-
# Canonical spelling of headers and settings

Section headers and setting names are written in one way: `***setting***` becomes
`*** Settings ***`, `suite setup` becomes `Suite Setup`, and `[tags]` becomes `[Tags]`.
-/

import RobotSuite.Format.Pass

namespace RobotSuite
namespace Spelling

/-- Tokens in which the first data token has another text. -/
def rename (value : String) : List Token → List Token
  | [] => []
  | t :: ts => if t.isData then t.withValue value :: ts else t :: rename value ts

/-- A statement whose name is written in a canonical way; nothing if it is already, or if
there is no canonical way. -/
def respell (canonical : Option String) (s : Statement) : Option Statement :=
  match canonical, s.name with
  | some value, some name =>
    if value = name.value then none else some (s.withTokens (rename value s.tokens))
  | _, _ => none

/-- The canonical spelling of a section header. -/
def header? (sc : Scope) (s : Statement) : Option String :=
  if s.type = .sectionHeader then
    sc.section?.bind fun sect => canonicalHeader? sect.kind s.nameText
  else none

/-- The canonical spelling of a setting that is known. -/
def setting? (s : Statement) : Option String :=
  (s.suiteSetting?.filter SettingName.suite.contains) <|>
    ((s.blockSetting?.filter SettingName.block.contains).map fun name => s!"[{name}]")

/-- What the header pass declares. -/
def headerInfo : PassInfo :=
  { name := "NORMALIZE_SECTION_HEADER"
    description := "Use the canonical spelling of section headers" }

/-- **Canonical section headers.** -/
def headerPass : Pass :=
  .ofStatements headerInfo fun _ sc s => .ofOption (respell (header? sc s) s)

/-- What the setting pass declares. -/
def settingInfo : PassInfo :=
  { name := "NORMALIZE_SETTING_NAME"
    description := "Use the canonical spelling of setting names" }

/-- **Canonical setting names.** -/
def settingPass : Pass :=
  .ofStatements settingInfo fun _ _ s => .ofOption (respell (setting? s) s)

end Spelling
end RobotSuite
