import ScopeLint.Diagnostic

/-!
# Reading a location back

A location is a template, a line and a column with colons between them.  The
name of a template is any text, also one with colons and numbers in it, so a
location has to be read from its end: numbers have no colons, and therefore the
last colon stands before the column and the last one before that stands before
the line.
-/

namespace ScopeLint

/-- What stands before the last separator of a text, and what stands after
it. -/
def splitLast? (separator : Char) : List Char → Option (List Char × List Char)
  | [] => none
  | c :: rest =>
    match splitLast? separator rest with
    | some (before, after) => some (c :: before, after)
    | none => if c = separator then some ([], rest) else none

theorem splitLast?_of_not_mem {separator : Char} {text : List Char}
    (free : separator ∉ text) :
    splitLast? separator text = none := by
  induction text with
  | nil => rfl
  | cons c rest induction =>
      have different : c ≠ separator :=
        fun same => free (same ▸ List.mem_cons_self)
      have later := induction fun member => free (List.mem_cons_of_mem _ member)
      simp [splitLast?, later, different]

theorem splitLast?_append {separator : Char} (before : List Char)
    {after : List Char} (free : separator ∉ after) :
    splitLast? separator (before ++ separator :: after) =
      some (before, after) := by
  induction before with
  | nil => simp [splitLast?, splitLast?_of_not_mem free]
  | cons c rest induction => simp [splitLast?, induction]

/-! ## Numbers -/

/-- Read a number that is written with at least one digit and nothing else. -/
def readNatural? (text : List Char) : Option Nat :=
  if !text.isEmpty && text.all Char.isDigit then
    some (Nat.ofDigitChars 10 text 0)
  else none

/-- Read a number that may have a minus sign before its digits. -/
def readInteger? : List Char → Option Int
  | '-' :: digits => (readNatural? digits).map fun n => -(n : Int)
  | digits => (readNatural? digits).map Int.ofNat

theorem isDigit_of_mem_repr {n : Nat} {c : Char} (member : c ∈ n.repr.toList) :
    c.isDigit = true := by
  rw [Nat.toList_repr] at member
  exact Nat.isDigit_of_mem_toDigits (by omega) (by omega) member

theorem readNatural?_repr (n : Nat) : readNatural? n.repr.toList = some n := by
  have someDigit : n.repr.toList.isEmpty = false := by
    rw [Nat.toList_repr, List.isEmpty_eq_false_iff]
    exact Nat.toDigits_ne_nil
  have allDigits : n.repr.toList.all Char.isDigit = true :=
    List.all_eq_true.mpr fun c => isDigit_of_mem_repr
  rw [readNatural?, someDigit, allDigits, Nat.toList_repr,
    Nat.ofDigitChars_ten_toDigits]
  rfl

/-- A number is written with its digits, after a minus sign if it is
negative. -/
theorem toList_repr_int (n : Int) :
    n.repr.toList =
      if 0 ≤ n then n.toNat.repr.toList else '-' :: (-n).toNat.repr.toList := by
  rw [Int.repr_eq_if]
  split
  · rfl
  · simp

theorem readInteger?_of_digits {text : List Char}
    (digits : ∀ c ∈ text, c.isDigit = true) :
    readInteger? text = (readNatural? text).map Int.ofNat := by
  cases text with
  | nil => rfl
  | cons c rest =>
      have noSign : c ≠ '-' := by
        rintro rfl
        exact absurd (digits '-' List.mem_cons_self) (by decide)
      simp [readInteger?, noSign]

theorem readInteger?_repr (n : Int) : readInteger? n.repr.toList = some n := by
  rw [toList_repr_int]
  split
  · rename_i positive
    rw [readInteger?_of_digits fun c => isDigit_of_mem_repr, readNatural?_repr]
    exact congrArg some (Int.toNat_of_nonneg positive)
  · rename_i negative
    have restored : -((-n).toNat : Int) = n := by omega
    rw [readInteger?, readNatural?_repr]
    exact congrArg some restored

theorem colon_not_mem_repr (n : Int) : ':' ∉ n.repr.toList := by
  have digits : ∀ m : Nat, ':' ∉ m.repr.toList := by
    intro m member
    exact absurd (isDigit_of_mem_repr member) (by decide)
  rw [toList_repr_int]
  split
  · exact digits n.toNat
  · simpa using digits (-n).toNat

/-! ## Locations -/

/-- Where a finding stands. -/
structure Place where
  template : String
  line : Int
  column : Int
  deriving DecidableEq, Repr

/-- Read a location from its end. -/
def Place.read? (text : String) : Option Place := do
  let (front, column) ← splitLast? ':' text.toList
  let (template, line) ← splitLast? ':' front
  return ⟨String.ofList template, ← readInteger? line, ← readInteger? column⟩

namespace Diagnostic

def place (d : Diagnostic) : Place := ⟨d.template, d.line, d.column⟩

theorem toList_location (d : Diagnostic) :
    d.location.toList =
      (d.template.toList ++ ':' :: d.line.repr.toList) ++
        ':' :: d.column.repr.toList := by
  simp [location]

theorem read?_location (d : Diagnostic) :
    Place.read? d.location = some d.place := by
  have column := splitLast?_append
    (d.template.toList ++ ':' :: d.line.repr.toList)
    (colon_not_mem_repr d.column)
  have line := splitLast?_append d.template.toList (colon_not_mem_repr d.line)
  rw [Place.read?, toList_location, column]
  simp [line, readInteger?_repr, place]

/-- A location tells the template, the line and the column apart, whatever the
template is called and whatever the numbers are. -/
theorem location_unambiguous (d other : Diagnostic) :
    (d.location = other.location ↔
      d.template = other.template ∧ d.line = other.line ∧
      d.column = other.column) ∧
    Place.read? d.location = some ⟨d.template, d.line, d.column⟩ := by
  refine ⟨⟨?_, ?_⟩, d.read?_location⟩
  · intro same
    have read := d.read?_location
    rw [same, other.read?_location] at read
    have samePlace : other.place = d.place := Option.some.inj read
    obtain ⟨template, line, column⟩ := Place.mk.inj samePlace
    exact ⟨template.symm, line.symm, column.symm⟩
  · rintro ⟨template, line, column⟩
    rw [location, location, template, line, column]

example : Place.read? "cards:3:7:-12:0" = some ⟨"cards:3:7", -12, 0⟩ := by
  decide

end Diagnostic

end ScopeLint
