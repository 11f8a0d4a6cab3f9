import EditorHost.Json.Value

/-!
# Writing JSON text

Two forms are written: a compact one without blanks, for messages and error texts, and an indented
one for files that people may edit.  Fields come in the order of the object's table.

A binary64 number is written with the fewest digits that read back as the same value.  It has a
point and at least one digit after it from `1e-5` up to but not including `1e16`, and an exponent
beyond that range.
-/

namespace EditorHost.Json

/-! ## Numbers and strings -/

/-- The characters of a natural number. -/
def decimal (n : Nat) : List Char := Nat.toDigits 10 n

/-- A number with exponent: `d.ddde+XX`. -/
def scientific (digits : List Char) (exponent : Int) : List Char :=
  let mantissa := match digits with
    | [] => []
    | [d] => [d]
    | d :: rest => d :: '.' :: rest
  mantissa ++ 'e' :: (if 0 ≤ exponent then '+' else '-') :: decimal exponent.natAbs

/-- A number with a point and no exponent, `point` digits before the point. -/
def positional (digits : List Char) (point : Int) : List Char :=
  if point ≤ 0 then '0' :: '.' :: List.replicate (-point).toNat '0' ++ digits
  else
    let n := point.toNat
    if digits.length ≤ n then digits ++ List.replicate (n - digits.length) '0' ++ ['.', '0']
    else digits.take n ++ '.' :: digits.drop n

def doubleChars (x : Double) : List Char :=
  let sign := if x.negative then ['-'] else []
  if x.isZero then sign ++ ['0', '.', '0']
  else
    let shortest := x.shortest
    let digits := decimal shortest.digits
    let point := (digits.length : Int) + shortest.exponent
    sign ++ if -5 < point ∧ point ≤ 16 then positional digits point
      else scientific digits (point - 1)

def numberChars : Number → List Char
  | .whole (.ofNat n) => decimal n
  | .whole (.negSucc n) => '-' :: decimal (n + 1)
  | .double x => doubleChars x

/-- The hexadecimal digit of a number below 16. -/
def hexChar (n : Nat) : Char := Nat.digitChar n

/-- A character as it stands in a string. -/
def escapeChar (c : Char) : List Char :=
  if c = '"' then ['\\', '"']
  else if c = '\\' then ['\\', '\\']
  else if c = '\n' then ['\\', 'n']
  else if c = '\r' then ['\\', 'r']
  else if c = '\t' then ['\\', 't']
  else if c = '\x08' then ['\\', 'b']
  else if c = '\x0c' then ['\\', 'f']
  else if c.toNat < 0x20 then ['\\', 'u', '0', '0', hexChar (c.toNat / 16), hexChar (c.toNat % 16)]
  else [c]

/-- A string in quotes. -/
def quoted (s : String) : List Char := '"' :: s.toList.flatMap escapeChar ++ ['"']

/-! ## Values -/

mutual
/-- The compact form. -/
def compactChars : Json → List Char
  | .null => "null".toList
  | .bool true => "true".toList
  | .bool false => "false".toList
  | .number n => numberChars n
  | .text s => quoted s
  | .array items => '[' :: compactItems items ++ [']']
  | .object fields => '{' :: compactFields fields ++ ['}']

def compactItems : List Json → List Char
  | [] => []
  | [v] => compactChars v
  | v :: rest => compactChars v ++ ',' :: compactItems rest

def compactFields : List (String × Json) → List Char
  | [] => []
  | [(k, v)] => quoted k ++ ':' :: compactChars v
  | (k, v) :: rest => quoted k ++ ':' :: compactChars v ++ ',' :: compactFields rest
end

/-- A new line at a depth of two blanks for each open array and object. -/
def newline (depth : Nat) : List Char := '\n' :: List.replicate (2 * depth) ' '

mutual
/-- The indented form of a value that stands at a depth. -/
def indentedChars (depth : Nat) : Json → List Char
  | .array [] => ['[', ']']
  | .object [] => ['{', '}']
  | .array items => '[' :: indentedItems (depth + 1) items ++ newline depth ++ [']']
  | .object fields => '{' :: indentedFields (depth + 1) fields ++ newline depth ++ ['}']
  | .null => "null".toList
  | .bool true => "true".toList
  | .bool false => "false".toList
  | .number n => numberChars n
  | .text s => quoted s

def indentedItems (depth : Nat) : List Json → List Char
  | [] => []
  | [v] => newline depth ++ indentedChars depth v
  | v :: rest => newline depth ++ indentedChars depth v ++ ',' :: indentedItems depth rest

def indentedFields (depth : Nat) : List (String × Json) → List Char
  | [] => []
  | [(k, v)] => newline depth ++ quoted k ++ ':' :: ' ' :: indentedChars depth v
  | (k, v) :: rest =>
    newline depth ++ quoted k ++ ':' :: ' ' :: indentedChars depth v ++ ',' ::
      indentedFields depth rest
end

/-- The compact text of a value. -/
def compact (v : Json) : String := String.ofList (compactChars v)

/-- The indented text of a value. -/
def indented (v : Json) : String := String.ofList (indentedChars 0 v)

end EditorHost.Json
