import NativeKiln.Codec.Base64

/-!
# Numbers read from strings

`Number(s)`, as far as strings go: white space around the literal is skipped, an empty string is
zero, and whatever is no literal is NaN. A number is a double, `Float`; the value of a literal is
rounded once. `String.prototype.trim` takes the same characters to be white space.
-/

namespace JsString

/-! ## White space -/

/-- White space and line terminators. -/
def isWhiteSpace (u : UInt16) : Bool :=
  let n := u.toNat
  9 ≤ n && n ≤ 13 || 0x2000 ≤ n && n ≤ 0x200A ||
    [0x20, 0xA0, 0x1680, 0x2028, 0x2029, 0x202F, 0x205F, 0x3000, 0xFEFF].contains n

/-- `s.trim()`. -/
def trim (s : JsString) : JsString :=
  ((s.dropWhile isWhiteSpace).reverse.dropWhile isWhiteSpace).reverse

example : trim (lit " admin@example.com\n") = lit "admin@example.com" := by decide

/-! ## Literals -/

/-- The number a non-empty row of digits denotes. -/
def digitsIn (base : ℕ) (s : JsString) : Option ℕ :=
  if s = [] then none
  else s.foldlM (fun n u ↦ match Hex.digitOf u with
    | some d => if d < base then some (base * n + d) else none
    | none => none) 0

/-- An optional sign, and what follows it. -/
def signed (s : JsString) : Bool × JsString :=
  match s with
  | u :: t => if u = 45 then (true, t) else if u = 43 then (false, t) else (false, s)
  | [] => (false, [])

/-- The exponent of a decimal literal; it may be missing. -/
def exponent (s : JsString) : Option ℤ :=
  match s with
  | [] => some 0
  | _ :: t => (digitsIn 10 (signed t).2).map fun n ↦ if (signed t).1 then -(n : ℤ) else n

/-- `m * 10 ^ e`, rounded to a double. -/
def scientific (m : ℕ) (e : ℤ) : Float := Float.ofScientific m (decide (e < 0)) e.natAbs

/-- A decimal literal without a sign. -/
def unsignedDecimal (s : JsString) : Option Float :=
  if s = lit "Infinity" then some (1 / 0)
  else
    let isExponent := fun u : UInt16 ↦ u == 69 || u == 101
    let mantissa := s.takeWhile fun u ↦ !isExponent u
    let whole := mantissa.takeWhile (· != 46)
    let fraction := (mantissa.dropWhile (· != 46)).drop 1
    match digitsIn 10 (whole ++ fraction), exponent (s.dropWhile fun u ↦ !isExponent u) with
    | some m, some e => some (scientific m (e - fraction.length))
    | _, _ => none

/-- A literal in base 2, 8 or 16. Such a literal has no sign. -/
def nonDecimal (s : JsString) : Option Float :=
  let base? : Option ℕ :=
    if s.take 2 ∈ [lit "0x", lit "0X"] then some 16
    else if s.take 2 ∈ [lit "0o", lit "0O"] then some 8
    else if s.take 2 ∈ [lit "0b", lit "0B"] then some 2
    else none
  base?.bind fun base ↦ (digitsIn base (s.drop 2)).map fun n ↦ scientific n 0

/-- A literal with white space around it; `none` is no literal. -/
def numericLiteral (s : JsString) : Option Float :=
  let s := trim s
  if s = [] then some 0
  else match nonDecimal s with
    | some x => some x
    | none => (unsignedDecimal (signed s).2).map fun x ↦ if (signed s).1 then -x else x

end JsString

/-! ## Numbers -/

/-- A number is a double. -/
abbrev JsNumber := Float

namespace JsNumber

/-- `Number(s)`. -/
def ofString (s : JsString) : JsNumber := (JsString.numericLiteral s).getD (0 / 0)

/-- The integer part. -/
def truncate (x : JsNumber) : ℤ := x.toModel.unpack.toInt 0 0

/-- `Number.isInteger(x)`. -/
def isInteger (x : JsNumber) : Bool := x.isFinite && Float.ofInt (truncate x) == x

end JsNumber
