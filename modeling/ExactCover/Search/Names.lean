import ExactCover.Search.Solve
/-!
The names by which drivers and selectors are asked for.
-/

namespace ExactCover

/-- Whether a text is a name; letters of both cases may count as one, those of ASCII only. -/
def isNamed (ignoreCase : Bool) (name text : String) : Bool :=
  if ignoreCase then name.toLower == text.toLower else name == text

namespace Driver

def ofName? (text : String) (ignoreCase : Bool) : Option Driver :=
  all.find? fun driver => isNamed ignoreCase driver.name text

theorem ofName?_name (driver : Driver) : ofName? driver.name false = some driver := by
  cases driver <;> decide +kernel

end Driver

namespace Selector

def ofName? (text : String) (ignoreCase : Bool) : Option Selector :=
  all.find? fun selector => isNamed ignoreCase selector.name text

theorem ofName?_name (selector : Selector) : ofName? selector.name false = some selector := by
  cases selector <;> decide +kernel

end Selector

end ExactCover
