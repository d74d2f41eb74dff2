/-!
# Styled text

Styles wrap a text in escape sequences for a terminal.  Whether styles are
shown at all is one decision, made from the environment and passed to
everything that prints.
-/

namespace ScopeLint.Text

inductive Style where
  | reset | bold | dim | red | yellow | cyan | brightRed | brightYellow
  deriving DecidableEq, Repr

namespace Style

def all : List Style :=
  [reset, bold, dim, red, yellow, cyan, brightRed, brightYellow]

/-- What a style is called in settings. -/
def name : Style → String
  | reset => "reset"
  | bold => "bold"
  | dim => "dim"
  | red => "red"
  | yellow => "yellow"
  | cyan => "cyan"
  | brightRed => "bright_red"
  | brightYellow => "bright_yellow"

def ofName? (name : String) : Option Style := all.find? (·.name == name)

/-- The escape sequence that turns a style on. -/
def sequence : Style → String
  | reset => "\x1b[0m"
  | bold => "\x1b[1m"
  | dim => "\x1b[2m"
  | red => "\x1b[31m"
  | yellow => "\x1b[33m"
  | cyan => "\x1b[36m"
  | brightRed => "\x1b[91m"
  | brightYellow => "\x1b[93m"

end Style

/-- A text in some styles, which end with it.  Without colors, or without a
style, it is left as it is. -/
def paint (colors : Bool) (styles : List Style) (text : String) : String :=
  if colors && !styles.isEmpty then
    String.join (styles.map Style.sequence) ++ text ++ Style.reset.sequence
  else text

/-- Styles given by name; a name that no style has counts for nothing. -/
def paintNamed (colors : Bool) (names : List String) (text : String) : String :=
  paint colors (names.filterMap Style.ofName?) text

def paintErrorCode (colors : Bool) : String → String :=
  paint colors [.brightRed, .bold]

def paintWarningCode (colors : Bool) : String → String :=
  paint colors [.brightYellow, .bold]

def paintLocation (colors : Bool) : String → String := paint colors [.cyan]

def paintDim (colors : Bool) : String → String := paint colors [.dim]

/-- A message after its code, if it has one. -/
def header (colors : Bool) (warning : Bool) (code : Option String)
    (message : String) : String :=
  match code with
  | none => message
  | some code =>
    if code.isEmpty then message
    else
      let painted :=
        if warning then paintWarningCode colors code
        else paintErrorCode colors code
      painted ++ ": " ++ message

/-- What decides whether a terminal shows colors. -/
structure Surroundings where
  forced : Option String
  refused : Option String
  terminal : Bool

/-- A variable counts as set only with a text in it; forcing colors outweighs
refusing them, and without either a terminal has them. -/
def Surroundings.wantsColors (around : Surroundings) : Bool :=
  if (around.forced.getD "") ≠ "" then true
  else if (around.refused.getD "") ≠ "" then false
  else around.terminal

end ScopeLint.Text
