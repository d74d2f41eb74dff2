/-!
# Constants of a template

Numbers and truth values are compared by value: true is one, false is zero,
and a floating-point number equals an integer when it is exactly that integer.
The value that is not a number equals itself.
-/

namespace ScopeLint

inductive Literal where
  | text (value : String)
  | integer (value : Int)
  | float (value : Float)
  | truth (value : Bool)
  | null

namespace Literal

/-- The integer that a finite floating-point number is, if it is one.  The
bits are read as `sign · mantissa · 2 ^ (exponent - 1075)`. -/
def wholeFloat? (x : Float) : Option Int :=
  let bits := x.toBits.toNat
  let exponent := (bits >>> 52) % 2048
  let fraction := bits % (1 <<< 52)
  let mantissa := if exponent = 0 then fraction else fraction + (1 <<< 52)
  let signed (magnitude : Nat) : Int :=
    if bits >>> 63 = 1 then -magnitude else magnitude
  if exponent = 2047 then none
  else if 1075 ≤ exponent then some (signed (mantissa <<< (exponent - 1075)))
  else
    let scale := 1 <<< (1075 - max exponent 1)
    if mantissa % scale = 0 then some (signed (mantissa / scale)) else none

/-- The integer value of a constant, if it has one. -/
def whole? : Literal → Option Int
  | integer value => some value
  | truth value => some (if value then 1 else 0)
  | float value => wholeFloat? value
  | text _ | null => none

/-- Equality of constants that are not integers.  Two numbers of this sort are
equal when they are written with the same bits. -/
def sameOther : Literal → Literal → Bool
  | text left, text right => left == right
  | float left, float right => left.toBits == right.toBits
  | null, null => true
  | _, _ => false

/-- Equality by value. -/
def same (left right : Literal) : Bool :=
  match left.whole?, right.whole? with
  | some i, some j => i == j
  | none, none => sameOther left right
  | _, _ => false

theorem same_self (literal : Literal) : literal.same literal = true := by
  unfold same
  cases whole : literal.whole? with
  | some i => simp
  | none =>
    cases literal with
    | text value => simp [sameOther]
    | float value => simp [sameOther]
    | null => rfl
    | integer value => cases whole
    | truth value => cases whole

end Literal

end ScopeLint
