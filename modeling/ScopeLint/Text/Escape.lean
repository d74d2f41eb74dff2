/-!
# Escape sequences of terminals

A sequence is an escape character followed by one letter of `@..Z` or `\.._`,
or by `[`, any number of parameters `0..?`, any number of intermediates
`space../`, and one final character of `@..~`.  Stripping a text removes its
sequences from left to right and keeps every other character.
-/

namespace ScopeLint.Text

/-- The character that starts every sequence. -/
def escape : Char := '\x1b'

/-- A letter that makes a whole sequence with the escape before it.  The
opening bracket is not one: it starts a longer sequence. -/
def isShortFinal (c : Char) : Bool :=
  ('@' ≤ c && c ≤ 'Z') || ('\x5c' ≤ c && c ≤ '_')

def isParameter (c : Char) : Bool := '0' ≤ c && c ≤ '?'

def isIntermediate (c : Char) : Bool := ' ' ≤ c && c ≤ '/'

def isFinal (c : Char) : Bool := '@' ≤ c && c ≤ '~'

/-- How many characters follow the opening bracket of a sequence, up to its
final character. -/
def controlLength? (body : List Char) : Option Nat :=
  let parameters := body.takeWhile isParameter
  let later := body.dropWhile isParameter
  let intermediates := later.takeWhile isIntermediate
  match later.dropWhile isIntermediate with
  | c :: _ =>
    if isFinal c then some (parameters.length + intermediates.length + 1)
    else none
  | [] => none

/-- The length of the sequence that starts a text, if one does. -/
def sequenceLength? : List Char → Option Nat
  | c :: next :: rest =>
    if c ≠ escape then none
    else if next = '[' then (controlLength? rest).map (· + 2)
    else if isShortFinal next then some 2
    else none
  | _ => none

/-- Drop the next `skip` characters, then strip what follows. -/
def stripAfter : Nat → List Char → List Char
  | _, [] => []
  | skip + 1, _ :: rest => stripAfter skip rest
  | 0, c :: rest =>
    match sequenceLength? (c :: rest) with
    | some length => stripAfter (length - 1) rest
    | none => c :: stripAfter 0 rest

/-- A text without its escape sequences. -/
def stripped (text : String) : String :=
  String.ofList (stripAfter 0 text.toList)

end ScopeLint.Text
