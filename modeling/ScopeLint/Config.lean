/-!
# Settings of the scope check
-/

namespace ScopeLint

/-- Names that engines usually provide to every template. -/
def templateGlobals : List String :=
  ["range", "len", "str", "int", "float", "bool", "list", "dict", "min", "max",
    "sum", "abs", "round", "sorted", "reversed", "enumerate", "zip",
    "true", "false", "none", "True", "False", "None"]

/-- Names are sets: neither order nor repetition matters. -/
structure Config where
  /-- Names that every macro has without declaring them. -/
  special : List String := ["varargs"]
  /-- Names that the engine provides. -/
  builtin : List String := []
  /-- What every loop calls its state. -/
  loopName : String := "loop"
  /-- What a loop over single values calls their keys. -/
  loopKey : String := "_key"
  /-- Whether findings make a check fail. -/
  strict : Bool := false
  deriving DecidableEq, Repr

namespace Config

/-- The names that are never reported. -/
def alwaysDeclared (config : Config) : List String :=
  config.special ++ config.builtin

/-- Settings under which some more names are never reported. -/
def withNames (config : Config) (names : List String) : Config :=
  { config with builtin := config.builtin ++ names }

theorem mem_alwaysDeclared_withNames {config : Config} {names : List String}
    {name : String} :
    name ∈ (config.withNames names).alwaysDeclared ↔
      name ∈ config.alwaysDeclared ∨ name ∈ names := by
  simp [alwaysDeclared, withNames, or_assoc]

end Config

/-- A set of names as it is shown: each name once, by code points. -/
def sortedNames (names : List String) : List String :=
  names.eraseDups.mergeSort fun a b => !decide (b < a)

end ScopeLint
