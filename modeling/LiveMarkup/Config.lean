import LiveMarkup.Fault
import LiveMarkup.Json.Source

/-!
# Configuration

A tracker is configured by the text that marks attributes as directives and by the number of effects
that may be nested.  A configuration can be given as JSON: an object whose missing members take
their defaults and whose other members do not matter, or an array of the values in order.
-/

namespace LiveMarkup

/-- The configuration of a tracker. -/
structure Config where
  /-- The text with which the names of directive attributes begin. -/
  attributePrefix : String
  /-- How many effects may be nested. -/
  maxEffectDepth : Nat
  deriving DecidableEq, Repr

namespace Config

/-- Directives are marked with `a-`, and a hundred effects may be nested. -/
def default : Config := ⟨"a-", 100⟩

instance : Inhabited Config := ⟨default⟩

/-- The full name of a directive's attribute. -/
def attributeName (config : Config) (name : String) : String := config.attributePrefix ++ name

/-- The text that a member holds. -/
def textOf? : Json.Source → Option String
  | .string text => text
  | _ => none

/-- The word of 64 bits that a member holds, written as an integer without a sign. -/
def wordOf? : Json.Source → Option Nat
  | .number literal =>
      match literal.negative, literal.natural? with
      | false, some n => if n < Nat.pow 2 64 then some n else none
      | _, _ => none
  | _ => none

/-- What the members read so far have set. -/
structure Draft where
  /-- The prefix, if a member gave it. -/
  attributePrefix : Option String
  /-- The depth, if a member gave it. -/
  maxEffectDepth : Option Nat

/-- Fills in the defaults. -/
def Draft.finish (draft : Draft) : Config :=
  ⟨draft.attributePrefix.getD default.attributePrefix,
    draft.maxEffectDepth.getD default.maxEffectDepth⟩

/-- Takes one member in.  A known member must hold a value of its type and must not be repeated. -/
def Draft.take? (draft : Draft) : Option String × Json.Source → Option Draft
  | (none, _) => none
  | (some name, value) =>
      if name = "prefix" then
        if draft.attributePrefix.isSome then none
        else (textOf? value).map fun text => { draft with attributePrefix := some text }
      else if name = "max_effect_depth" then
        if draft.maxEffectDepth.isSome then none
        else (wordOf? value).map fun depth => { draft with maxEffectDepth := some depth }
      else some draft

/-- The configuration that a JSON text describes. -/
def ofSource? : Json.Source → Option Config
  | .object members => (members.foldlM Draft.take? ⟨none, none⟩).map Draft.finish
  | .array [] => some default
  | .array [text] => (textOf? text).map fun text => ⟨text, default.maxEffectDepth⟩
  | .array [text, depth] =>
      match textOf? text, wordOf? depth with
      | some text, some depth => some ⟨text, depth⟩
      | _, _ => none
  | _ => none

/-- Reads a configuration without asking whether it makes sense. -/
def read? (text : String) : Option Config := (Json.Source.read? text.toList).bind ofSource?

/-- A configuration needs a prefix and room for one effect. -/
def validate (config : Config) : Except ConfigFault Config :=
  if config.attributePrefix.isEmpty then .error .emptyPrefix
  else if config.maxEffectDepth = 0 then .error .zeroDepth
  else .ok config

/-- Reads a configuration that makes sense. -/
def ofJson (text : String) : Except ConfigFault Config :=
  match read? text with
  | some config => config.validate
  | none => .error .unreadable

/-- A configuration as JSON. -/
def toJson (config : Config) : Json :=
  .object [("prefix", .string config.attributePrefix),
    ("max_effect_depth", .integer config.maxEffectDepth)]

end Config

end LiveMarkup
