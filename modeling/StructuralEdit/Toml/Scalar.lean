/-
  StructuralEdit.Toml.Scalar
  ──────────────────────────
  **NUMBERS, TRUTH VALUES AND POINTS IN TIME.**

  A scalar without quotes is one word.  `scalar?` tells what the word stands for:

    • `true` and `false`;
    • integers of 64 bits, decimal or after `0x`, `0o`, `0b`, with single
      underscores between digits and no leading zeros;
    • fractions with a decimal part, an exponent or both, and `inf` and `nan`;
      one that is too large for 64 bits is refused;
    • dates, times, and a date with a time, with or without an offset; the
      seconds of a time may be left out.
-/
import StructuralEdit.Toml.Value

namespace StructuralEdit.Toml

/-! ## §1. Digits. -/

/-- An octal digit. -/
def isOctal (c : Char) : Bool :=
  '0' ≤ c && c ≤ '7'

/-- A binary digit. -/
def isBinary (c : Char) : Bool :=
  c == '0' || c == '1'

/-- A hexadecimal digit. -/
def isHex (c : Char) : Bool :=
  c.isDigit || ('a' ≤ c && c ≤ 'f') || ('A' ≤ c && c ≤ 'F')

/-- What a digit counts. -/
def digitValue (c : Char) : Nat :=
  if c.isDigit then c.toNat - '0'.toNat
  else if 'a' ≤ c then c.toNat - 'a'.toNat + 10
  else c.toNat - 'A'.toNat + 10

/-- The number that digits spell in a base. -/
def numeral (base : Nat) (cs : List Char) : Nat :=
  cs.foldl (fun n c => n * base + digitValue c) 0

/-- The digits of a word of digits with single underscores between them. -/
def digits? (isDigit : Char → Bool) : List Char → Option (List Char)
  | [] => none
  | [c] => if isDigit c then some [c] else none
  | c :: '_' :: rest => if isDigit c then (digits? isDigit rest).map (c :: ·) else none
  | c :: rest => if isDigit c then (digits? isDigit rest).map (c :: ·) else none

/-- The digits of a decimal number without leading zeros. -/
def decimal? (cs : List Char) : Option (List Char) :=
  match digits? Char.isDigit cs with
  | some ('0' :: _ :: _) => none
  | ds => ds

/-- The sign in front, and the rest. -/
def sign : List Char → Bool × List Char
  | '+' :: rest => (false, rest)
  | '-' :: rest => (true, rest)
  | rest => (false, rest)

/-! ## §2. Integers. -/

/-- The bound of integers: they have 64 bits, one of them for the sign. -/
def integerBound : Nat := Nat.pow 2 63

/-- The integer that a word spells. -/
def integer? (cs : List Char) : Option Int :=
  match cs with
  | '0' :: 'x' :: rest => based 16 isHex rest
  | '0' :: 'o' :: rest => based 8 isOctal rest
  | '0' :: 'b' :: rest => based 2 isBinary rest
  | _ => do
      let (negative, rest) := sign cs
      let n := numeral 10 (← decimal? rest)
      if negative then
        if n ≤ integerBound then some (-(n : Int)) else none
      else if n < integerBound then some (n : Int) else none
where
  based (base : Nat) (isDigit : Char → Bool) (cs : List Char) : Option Int := do
    let n := numeral base (← digits? isDigit cs)
    if n < integerBound then some (n : Int) else none

/-! ## §3. Fractions. -/

/-- The least number that is too large for a fraction of 64 bits: numbers below
round down. -/
def fractionBound : Nat := Nat.pow 2 1024 - Nat.pow 2 970

/-- `m · 10 ^ e` is too large for a fraction of 64 bits. -/
def isTooLarge (m : Nat) (e : Int) : Bool :=
  let size := ((toString m).length : Int) + e
  m != 0 && (size > 400 || (size > 300 &&
    (if 0 ≤ e then fractionBound ≤ m * Nat.pow 10 e.toNat
     else fractionBound * Nat.pow 10 (-e).toNat ≤ m)))

/-- The digits after a decimal point, if there is one. -/
def decimals? : List Char → Option (List Char)
  | [] => some []
  | '.' :: rest => digits? Char.isDigit rest
  | _ => none

/-- The exponent, if there is one. -/
def exponent? : List Char → Option Int
  | [] => some 0
  | _ :: rest => do
      let (negative, rest) := sign rest
      let n := numeral 10 (← digits? Char.isDigit rest)
      some (if negative then -(n : Int) else (n : Int))

/-- A character that introduces an exponent. -/
def isExponentMark (c : Char) : Bool :=
  c == 'e' || c == 'E'

/-- The word spells a fraction. -/
def isFloat (cs : List Char) : Bool :=
  let unsigned := (sign cs).2
  let mantissa := unsigned.takeWhile (!isExponentMark ·)
  let whole := mantissa.takeWhile (· != '.')
  unsigned == "inf".toList || unsigned == "nan".toList ||
    match decimal? whole, decimals? (mantissa.dropWhile (· != '.')),
        exponent? (unsigned.dropWhile (!isExponentMark ·)) with
    | some ds, some fs, some e =>
        whole.length < unsigned.length && !isTooLarge (numeral 10 (ds ++ fs)) (e - fs.length)
    | _, _, _ => false

/-! ## §4. Points in time. -/

/-- A number of exactly `count` digits in front, and the rest. -/
def fixed? (count : Nat) (cs : List Char) : Option (Nat × List Char) :=
  let ds := cs.take count
  if ds.length = count && ds.all Char.isDigit then some (numeral 10 ds, cs.drop count) else none

/-- The rest behind one of the characters. -/
def after? (chars : List Char) : List Char → Option (List Char)
  | c :: rest => if chars.contains c then some rest else none
  | [] => none

/-- The length of a month. -/
def monthLength (year month : Nat) : Nat :=
  if month = 2 then
    if year % 4 = 0 && (year % 100 ≠ 0 || year % 400 = 0) then 29 else 28
  else if [4, 6, 9, 11].contains month then 30
  else 31

/-- The rest behind a date. -/
def date? (cs : List Char) : Option (List Char) := do
  let (year, cs) ← fixed? 4 cs
  let (month, cs) ← fixed? 2 (← after? ['-'] cs)
  let (day, cs) ← fixed? 2 (← after? ['-'] cs)
  if 1 ≤ month && month ≤ 12 && 1 ≤ day && day ≤ monthLength year month then some cs else none

/-- The rest behind a fraction of a second, if there is one. -/
def fraction? : List Char → Option (List Char)
  | '.' :: c :: rest => if c.isDigit then some (rest.dropWhile Char.isDigit) else none
  | '.' :: [] => none
  | cs => some cs

/-- The rest behind the seconds, if there are any. -/
def seconds? : List Char → Option (List Char)
  | ':' :: rest => do
      let (second, rest) ← fixed? 2 rest
      if second ≤ 60 then fraction? rest else none
  | cs => some cs

/-- The rest behind a time. -/
def time? (cs : List Char) : Option (List Char) := do
  let (hour, cs) ← fixed? 2 cs
  let (minute, cs) ← fixed? 2 (← after? [':'] cs)
  if hour ≤ 23 && minute ≤ 59 then seconds? cs else none

/-- The word is an offset, or nothing. -/
def isOffset : List Char → Bool
  | [] | ['Z'] | ['z'] => true
  | c :: rest =>
      (c == '+' || c == '-') &&
        match fixed? 2 rest with
        | some (hours, ':' :: rest) =>
            match fixed? 2 rest with
            | some (minutes, []) => hours * 60 + minutes ≤ 24 * 60
            | _ => false
        | _ => false

/-- The word spells a date, a time, or both. -/
def isMoment (cs : List Char) : Bool :=
  match date? cs with
  | some [] => true
  | some (c :: rest) =>
      ['T', 't', ' '].contains c &&
        match time? rest with
        | some rest => isOffset rest
        | none => false
  | none => time? cs == some []

/-! ## §5. Words. -/

/-- What a word stands for. -/
def scalar? (cs : List Char) : Option Value :=
  if cs == "true".toList then some (.boolean true)
  else if cs == "false".toList then some (.boolean false)
  else match integer? cs with
    | some i => some (.integer i)
    | none =>
        if isFloat cs then some (.float (String.ofList cs))
        else if isMoment cs then some (.moment (String.ofList cs))
        else none

end StructuralEdit.Toml
