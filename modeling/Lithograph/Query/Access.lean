/-
  File:      Lithograph/Query/Access.lean
  Subject:   The write restrictions of one execution (`query/access.rs`).

  A property pattern is read as the decision its regular expression makes on a name.
-/
import Lithograph.Query.Error

namespace Lithograph.Query

/-- `PropertyRules`: the property names an execution may not touch. -/
structure PropertyRules where
  names : List Text := []
  prefixes : List Text := []
  patterns : List (Text → Bool) := []

def PropertyRules.denies (rules : PropertyRules) (name : Text) : Bool :=
  rules.names.contains name || rules.prefixes.any (fun p => p.isPrefixOf name) ||
    rules.patterns.any (fun isMatch => isMatch name)

def PropertyRules.isEmpty (rules : PropertyRules) : Bool :=
  rules.names.isEmpty && rules.prefixes.isEmpty && rules.patterns.isEmpty

/-- `WriteAccess`, the switches a graph mutation reads. -/
structure WriteAccess where
  properties : PropertyRules := {}
  allowCreate : Bool := true
  allowDelete : Bool := true
  allowLabelChanges : Bool := true

def WriteAccess.checkWriteProperty (access : WriteAccess) (name : Text) : QueryResult Unit :=
  if access.properties.denies name then
    .error (.accessDenied "writeAccess forbids writing a protected graph property")
  else .ok ()

end Lithograph.Query
