/-! The languages that code is generated in. -/
namespace Feedforward

inductive Target where
  | cpp
  | python
  | javascript
deriving DecidableEq, Repr

namespace Target

/-- All targets, in the order in which a name is checked against them. -/
def all : List Target := [cpp, python, javascript]

theorem mem_all (t : Target) : t ∈ all := by
  cases t <;> decide

def name : Target → String
  | cpp => "cpp"
  | python => "python"
  | javascript => "javascript"

def shortName : Target → String
  | cpp => "c++"
  | python => "py"
  | javascript => "js"

def extension : Target → String
  | cpp => "cpp"
  | python => "py"
  | javascript => "js"

def ofName? (s : String) : Option Target := all.find? fun t => t.name == s

def ofString? (s : String) : Option Target := all.find? fun t => t.name == s || t.shortName == s

theorem ofName?_name (t : Target) : ofName? t.name = some t := by
  cases t <;> decide

theorem extension_injective {s t : Target} (h : s.extension = t.extension) : s = t := by
  revert h
  cases s <;> cases t <;> decide

end Target
end Feedforward
