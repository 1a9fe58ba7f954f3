import Mathlib.Data.List.Infix
import Finality.Interop.NodeCanonical

/-!
# What Node makes of operands of any type

`+`, `-` and `<` first turn an operand into a primitive value. An array becomes the text of its
elements, an object `[object Object]`: a parsed object has no method of its own, and one with a
property `toString` hides the method it inherits and is refused. `+` then joins texts if one of the
two is a text and adds otherwise, `-` subtracts, and `<` compares two texts by their code units and
anything else as numbers; a text is read as a number by `stringToNumber`.

`Buffer.from` takes a text, an array of bytes, an object with a `length`, or what `toJSON` makes of
a buffer. How much memory there is for it is not modelled.
-/

namespace Finality

open JsonText Checks Utf16 Doubles

namespace Node

/-- A value or `undefined`. -/
abbrev Ref := Option Val

/-- What the script throws. -/
inductive Throw where
  | canonical (err : Err)
  | unsupportedType
  | typeError
  | rangeError
  | mismatch (msg : String)
  | message (msg : String)

/-- `x === y`, for values from different places of a document: two objects are never the same. -/
def strictEq : Ref → Ref → Bool
  | none, none => true
  | some .null, some .null => true
  | some (.bool x), some (.bool y) => x = y
  | some (.number x), some (.number y) => x.eq y
  | some (.string x), some (.string y) => x = y
  | _, _ => false

/-! ## Texts that are read as numbers -/

/-- A space or a line end of JavaScript. -/
def isSpace (c : Char) : Bool :=
  (0x2000 ≤ c.toNat && c.toNat ≤ 0x200A) ||
    [0x09, 0x0A, 0x0B, 0x0C, 0x0D, 0x20, 0xA0, 0x1680, 0x2028, 0x2029, 0x202F, 0x205F, 0x3000,
      0xFEFF].contains c.toNat

/-- A text without the spaces around it. -/
def trim (s : List Char) : List Char :=
  ((s.dropWhile isSpace).reverse.dropWhile isSpace).reverse

/-- The number that one or more digits spell. -/
def readDigits (base : Nat) (s : List Char) : Option Nat :=
  if s.isEmpty then none
  else s.foldlM (fun n c => (Hex.digit? c.toNat).bind fun d =>
    if d < base then some (base * n + d) else none) 0

/-- Digits after a sign, or without one. -/
def readSigned : List Char → Option Int
  | '+' :: s => (readDigits 10 s).map fun n => (n : Int)
  | '-' :: s => (readDigits 10 s).map fun n => -(n : Int)
  | s => (readDigits 10 s).map fun n => (n : Int)

/-- The exponent at the end of a decimal number, zero for none. -/
def readExponent : List Char → Option Int
  | [] => some 0
  | c :: s => if c = 'e' ∨ c = 'E' then readSigned s else none

/-- A decimal number: digits with or without a point among or around them, and an exponent. -/
def readDecimal (s : List Char) : Option Rat :=
  let whole := s.takeWhile Char.isDigit
  let rest := s.dropWhile Char.isDigit
  let point := rest.head? = some '.'
  let fraction := if point then rest.tail.takeWhile Char.isDigit else []
  let rest := if point then rest.tail.dropWhile Char.isDigit else rest
  (readDigits 10 (whole ++ fraction)).bind fun digits =>
    (readExponent rest).map fun exponent =>
      (digits : Rat) * 10 ^ (exponent - (fraction.length : Int))

/-- The number that digits behind a prefix spell. -/
def prefixedNumber (base : Nat) (s : List Char) : Double :=
  (readDigits base s).elim .nan fun n => ofInt n

/-- The number that a text without a sign or a prefix spells. -/
def unsignedNumber (s : List Char) : Double :=
  if s = "Infinity".toList then .inf else (readDecimal s).elim .nan ofRat

/-- `Number(s)` for a string -/
def stringToNumber (s : JsStr) : Double :=
  match trim (decode s) with
  | [] => .finite 0
  | '0' :: 'x' :: s | '0' :: 'X' :: s => prefixedNumber 16 s
  | '0' :: 'o' :: s | '0' :: 'O' :: s => prefixedNumber 8 s
  | '0' :: 'b' :: s | '0' :: 'B' :: s => prefixedNumber 2 s
  | '+' :: s => unsignedNumber s
  | '-' :: s => (unsignedNumber s).neg
  | s => unsignedNumber s

/-! ## Primitive values -/

/-- A primitive value. -/
inductive Prim where
  | undefined
  | null
  | bool (b : Bool)
  | number (x : Double)
  | string (s : JsStr)

/-- `String(x)` for an integer below `10 ^ 21`, or a number that is not finite. A larger integer is
written with an exponent; here it is only written to be read as a number again. -/
def numberToString : Double → JsStr
  | .finite q => utf16 (intText q.num)
  | .nan => js "NaN"
  | .inf => js "Infinity"
  | .negInf => js "-Infinity"

/-- `String(v)` for an object: the method it inherits is called unless a property hides it. -/
def objectToString (properties : List (JsStr × Val)) : Except Throw JsStr :=
  if (properties.lookup (js "toString")).isSome then .error .typeError
  else .ok (js "[object Object]")

/-- The text of an element in the text of its array. -/
def elementText (v : Val) (s : JsStr) : JsStr :=
  match v with
  | .null => []
  | _ => s

mutual

/-- `String(v)` -/
def toString : Val → Except Throw JsStr
  | .null => .ok (js "null")
  | .bool b => .ok (js (if b then "true" else "false"))
  | .number x => .ok (numberToString x)
  | .string s => .ok s
  | .array xs => (elementTexts xs).map join
  | .object ps => objectToString ps

/-- The texts of the elements of an array. -/
def elementTexts : List Val → Except Throw (List JsStr)
  | [] => .ok []
  | v :: vs => do
      let s ← toString v
      let rest ← elementTexts vs
      .ok (elementText v s :: rest)

end

/-- The primitive value of an operand. -/
def toPrimitive : Ref → Except Throw Prim
  | none => .ok .undefined
  | some .null => .ok .null
  | some (.bool b) => .ok (.bool b)
  | some (.number x) => .ok (.number x)
  | some (.string s) => .ok (.string s)
  | some (.array xs) => (toString (.array xs)).map .string
  | some (.object ps) => (toString (.object ps)).map .string

/-- `String(x)` for a primitive value -/
def Prim.toString : Prim → JsStr
  | .undefined => js "undefined"
  | .null => js "null"
  | .bool b => js (if b then "true" else "false")
  | .number x => numberToString x
  | .string s => s

/-- `Number(x)` for a primitive value -/
def Prim.toNumber : Prim → Double
  | .undefined => .nan
  | .null => .finite 0
  | .bool b => .finite (if b then 1 else 0)
  | .number x => x
  | .string s => stringToNumber s

/-! ## Operators -/

/-- `x + y` -/
def plus (x y : Ref) : Except Throw Ref := do
  let p ← toPrimitive x
  let q ← toPrimitive y
  match p, q with
  | .string s, q => .ok (some (.string (s ++ q.toString)))
  | p, .string t => .ok (some (.string (p.toString ++ t)))
  | p, q => .ok (some (.number (p.toNumber.add q.toNumber)))

/-- `x - y` -/
def minus (x y : Ref) : Except Throw Ref := do
  let p ← toPrimitive x
  let q ← toPrimitive y
  .ok (some (.number (p.toNumber.sub q.toNumber)))

/-- `x < y` -/
def less (x y : Ref) : Except Throw Bool := do
  let p ← toPrimitive x
  let q ← toPrimitive y
  match p, q with
  | .string s, .string t => .ok (decide (s < t))
  | p, q => .ok (p.toNumber.lt q.toNumber)

/-- `v.includes(x)` -/
def includes (v : Ref) (x : Val) : Except Throw Bool :=
  match v with
  | some (.array xs) => .ok (xs.any fun y => strictEq (some y) (some x))
  | some (.string s) => do
      let t ← toString x
      .ok (decide (t <:+: s))
  | _ => .error .typeError

/-! ## Buffers -/

/-- The byte that a number is stored as: its integer part modulo 256. -/
def toUint8 : Double → UInt8
  | .finite q => UInt8.ofNat (q.num.tdiv q.den % 256).toNat
  | .nan | .inf | .negInf => 0

/-- The byte that a value is stored as. -/
def byteOf (v : Ref) : Except Throw UInt8 := do
  let p ← toPrimitive v
  .ok (toUint8 p.toNumber)

/-- `buffer.constants.MAX_LENGTH` -/
def maxLength : Nat := 2 ^ 53 - 1

/-- The bytes of an object with the given length. -/
def bytesOfArrayLike (properties : List (JsStr × Val)) : Double → Except Throw (List UInt8)
  | .finite q =>
      if q ≤ 0 then .ok []
      else if q ≤ maxLength then
        (List.range ⌊q⌋.toNat).mapM fun i =>
          byteOf (properties.lookup (utf16 (Nat.toDigits 10 i)))
      else .error .rangeError
  | .negInf => .ok []
  | .inf | .nan => .error .rangeError

/-- The bytes of an object: of its elements when it has a length, of its data when it is what
`toJSON` makes of a buffer. -/
def bytesOfObject (properties : List (JsStr × Val)) : Except Throw (List UInt8) :=
  match properties.lookup (js "length") with
  | some (.number x) => bytesOfArrayLike properties x
  | some _ => .ok []
  | none =>
      match properties.lookup (js "type"), properties.lookup (js "data") with
      | some (.string t), some (.array xs) =>
          if t = js "Buffer" then xs.mapM fun v => byteOf (some v) else .error .typeError
      | _, _ => .error .typeError

/-- The condition `v` in JavaScript. -/
def truthy : Val → Bool
  | .null => false
  | .bool b => b
  | .number x => !x.eq (.finite 0) && x ≠ .nan
  | .string s => !s.isEmpty
  | .array _ | .object _ => true

/-- `Buffer.from(x, 'hex')`. Of each code unit of a string the low byte is read. An object is first
asked for its `valueOf()`: a property of that name hides the method, cannot be called, and stands
for the result where it is false. -/
def bufferFromHex : Ref → Except Throw (List UInt8)
  | some (.string s) => .ok (Hex.readPrefix (s.map fun u => u.val % 256))
  | some (.array xs) => xs.mapM fun v => byteOf (some v)
  | some (.object ps) =>
      match ps.lookup (js "valueOf") with
      | none => bytesOfObject ps
      | some (.string []) => .ok []
      | some v => if truthy v then .error .typeError else bytesOfObject ps
  | none | some .null | some (.bool _) | some (.number _) => .error .typeError

end Node

end Finality
