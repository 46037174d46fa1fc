import OpenVibes.Rust.Float

/-!
# JSON values

`serde_json::Value` as far as the code looks into values: indexing an object by a key,
which gives `null` when there is none, and reading a string, a number or an array. A number is
read as the nearest `f64`.
-/

namespace OpenVibes.Rust

inductive Json where
  | null
  | bool (b : Bool)
  | num (text : String)
  | str (s : String)
  | arr (items : List Json)
  | obj (fields : List (String × Json))

namespace Json

def get? (v : Json) (key : String) : Option Json :=
  match v with
  | .obj fields => fields.lookup key
  | _ => none

/-- `value[key]`. -/
def get (v : Json) (key : String) : Json := (v.get? key).getD .null

def asStr : Json → Option String
  | .str s => some s
  | _ => none

def asArray : Json → Option (List Json)
  | .arr items => some items
  | _ => none

def items (v : Json) : List Json := v.asArray.getD []

/-- `value == true`. -/
def isTrue : Json → Bool
  | .bool b => b
  | _ => false

def digitsValue (digits : List Char) : ℕ := digits.foldl (fun n c => 10 * n + (c.toNat - 48)) 0

def exponentValue : List Char → Option ℤ
  | [] => some 0
  | e :: cs =>
    if e = 'e' ∨ e = 'E' then
      match cs with
      | '-' :: digits => some (-(digitsValue digits : ℤ))
      | '+' :: digits => some (digitsValue digits)
      | digits => some (digitsValue digits)
    else none

def numberValue (text : String) : Option ℚ :=
  let negative := text.toList.head? = some '-'
  let cs := if negative then text.toList.tail else text.toList
  let whole := cs.takeWhile Char.isDigit
  let rest := cs.dropWhile Char.isDigit
  let isFraction := rest.head? = some '.'
  let fraction := if isFraction then rest.tail.takeWhile Char.isDigit else []
  let rest := if isFraction then rest.tail.dropWhile Char.isDigit else rest
  if whole = [] then none
  else
    (exponentValue rest).map fun exponent : ℤ =>
      let scale := exponent - fraction.length
      let digits : ℚ := digitsValue (whole ++ fraction)
      let value := if 0 ≤ scale then digits * 10 ^ scale.toNat else digits / 10 ^ (-scale).toNat
      if negative then -value else value

def asF64 : Json → Option F64
  | .num text => (numberValue text).map f64
  | _ => none

example : (Json.num "9.8").asF64 = some (f64 (98 / 10)) := by decide +kernel

end Json

end OpenVibes.Rust
