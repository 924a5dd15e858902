import PubSweep.Edit
import PubSweep.Json.Decode

/-!
Findings and edits as JSON.
-/

namespace PubSweep

open Json

namespace Span

/-- A span as JSON. -/
def toJson (s : Span) : Json := object [("start", nat s.start), ("end", nat s.stop)]

/-- Reads a span. -/
def ofJson? (j : Json) : Option Span := do
  let [start, stop] ← fields? ["start", "end"] j | none
  return ⟨← required asWord? start, ← required asWord? stop⟩

end Span

namespace Position

/-- A position as JSON. -/
def toJson (p : Position) : Json := object [("line", nat p.line), ("column", nat p.column)]

/-- Reads a position. -/
def ofJson? (j : Json) : Option Position := do
  let [line, column] ← fields? ["line", "column"] j | none
  return ⟨← required asWord? line, ← required asWord? column⟩

end Position

namespace Uuid

/-- An identity as JSON. -/
def toJson (u : Uuid) : Json := string u.render

/-- Reads an identity. -/
def ofJson? (j : Json) : Option Uuid := (asString? j).bind parse?

end Uuid

namespace RuleId

/-- A rule as JSON. -/
def toJson (r : RuleId) : Json := string r.name

/-- Reads a rule. -/
def ofJson? : Json → Option RuleId := asNamed? all name

end RuleId

namespace FixId

/-- A fix as JSON. -/
def toJson (f : FixId) : Json := string f.name

/-- Reads a fix. -/
def ofJson? : Json → Option FixId := asNamed? all name

end FixId

namespace ItemKind

/-- A kind of item as JSON. -/
def toJson (k : ItemKind) : Json := string k.keyword

/-- Reads a kind of item. -/
def ofJson? : Json → Option ItemKind := asNamed? all keyword

end ItemKind

namespace Path

/-- A path as JSON. -/
def toJson (p : Path) : Json := string p.text

/-- Reads a path. -/
def ofJson? (j : Json) : Option Path := (asString? j).map Path.mk

end Path

namespace Finding

/-- A finding as JSON. -/
def toJson (f : Finding) : Json :=
  object <|
    [("rule", f.rule.toJson), ("document", f.document.toJson), ("path", f.path.toJson),
      ("span", f.span.toJson), ("position", f.position.toJson), ("item", f.item.toJson)] ++
    optionalMember "name" string f.name

/-- Reads a finding. -/
def ofJson? (j : Json) : Option Finding := do
  let [rule, document, path, span, position, item, name] ←
    fields? ["rule", "document", "path", "span", "position", "item", "name"] j | none
  return {
    rule := ← required RuleId.ofJson? rule
    document := ← required Uuid.ofJson? document
    path := ← required Path.ofJson? path
    span := ← required Span.ofJson? span
    position := ← required Position.ofJson? position
    item := ← required ItemKind.ofJson? item
    name := ← optional asString? name }

end Finding

namespace Edit

/-- An edit as JSON. -/
def toJson (e : Edit) : Json :=
  object
    [("id", e.id.toJson), ("document", e.document.toJson), ("span", e.span.toJson),
      ("replacement", string e.replacement), ("fix", e.fix.toJson),
      ("finding", e.finding.toJson)]

/-- Reads an edit. -/
def ofJson? (j : Json) : Option Edit := do
  let [id, document, span, replacement, fix, finding] ←
    fields? ["id", "document", "span", "replacement", "fix", "finding"] j | none
  return {
    id := ← required Uuid.ofJson? id
    document := ← required Uuid.ofJson? document
    span := ← required Span.ofJson? span
    replacement := ← required asString? replacement
    fix := ← required FixId.ofJson? fix
    finding := ← required Finding.ofJson? finding }

end Edit

/-- Which kinds of items a rule checks. -/
structure RuleConfig where
  kinds : List ItemKind
deriving Repr, DecidableEq, Inhabited

namespace RuleConfig

/-- A configuration as JSON. -/
def toJson (c : RuleConfig) : Json := object [("kinds", array (c.kinds.map ItemKind.toJson))]

/-- Reads a configuration. -/
def ofJson? (j : Json) : Option RuleConfig := do
  let [kinds] ← fields? ["kinds"] j | none
  return ⟨← required (asList? ItemKind.ofJson?) kinds⟩

end RuleConfig

end PubSweep
