import LazyCollections.Text.Hex

/-!
# Settings as JSON text

A settings text is read into a tree in which strings keep their escapes. Whether the escapes of a
string name characters is asked only where the string is used, so an unused field may hold a
surrogate that stands alone.
-/

namespace LazyCollections

set_option autoImplicit false

inductive Json where
  | null
  | bool (b : Bool)
  | number
  | string (raw : List Char)
  | array (items : List Json)
  | object (fields : List (List Char × Json))

namespace Json

abbrev Reader (α : Type) := List Char → Option (α × List Char)

def isSpace (c : Char) : Bool :=
  c = ' ' || c = '\n' || c = '\t' || c = '\r'

def skipSpace (text : List Char) : List Char :=
  text.dropWhile isSpace

def isDigit (c : Char) : Bool :=
  '0' ≤ c && c ≤ '9'

def isHexDigit (c : Char) : Bool :=
  (Text.hexValue? c).isSome

/-- The rest of a string up to its closing quote, its escapes checked for their form only. -/
def readRaw : List Char → Option (List Char × List Char)
  | '"' :: rest => some ([], rest)
  | '\\' :: 'u' :: a :: b :: c :: d :: rest =>
    if [a, b, c, d].all isHexDigit then
      (readRaw rest).map fun r => ('\\' :: 'u' :: a :: b :: c :: d :: r.1, r.2)
    else none
  | '\\' :: c :: rest =>
    if ['"', '\\', '/', 'b', 'f', 'n', 'r', 't'].contains c then
      (readRaw rest).map fun r => ('\\' :: c :: r.1, r.2)
    else none
  | c :: rest =>
    if c.toNat < 0x20 then none else (readRaw rest).map fun r => (c :: r.1, r.2)
  | [] => none

def hexNumber (digits : List Char) : Nat :=
  digits.foldl (fun n c => 16 * n + (Text.hexValue? c).getD 0) 0

def isHighSurrogate (n : Nat) : Bool :=
  0xd800 ≤ n && n < 0xdc00

def isLowSurrogate (n : Nat) : Bool :=
  0xdc00 ≤ n && n < 0xe000

def simpleEscape (c : Char) : Char :=
  match c with
  | 'b' => '\x08'
  | 'f' => '\x0c'
  | 'n' => '\n'
  | 'r' => '\r'
  | 't' => '\t'
  | c => c

/-- The characters of a string whose escapes have the right form. A surrogate must be the first
half of a pair whose second half follows. -/
def unescape? : List Char → Option (List Char)
  | [] => some []
  | '\\' :: 'u' :: a :: b :: c :: d :: rest =>
    let n := hexNumber [a, b, c, d]
    if isLowSurrogate n then none
    else if isHighSurrogate n then
      match rest with
      | '\\' :: 'u' :: e :: f :: g :: h :: rest =>
        let m := hexNumber [e, f, g, h]
        if isLowSurrogate m then
          (unescape? rest).map (Char.ofNat (0x10000 + 0x400 * (n - 0xd800) + (m - 0xdc00)) :: ·)
        else none
      | _ => none
    else (unescape? rest).map (Char.ofNat n :: ·)
  | '\\' :: c :: rest => (unescape? rest).map (simpleEscape c :: ·)
  | c :: rest => (unescape? rest).map (c :: ·)

def text? (raw : List Char) : Option String :=
  (unescape? raw).map String.ofList

def skipDigits (text : List Char) : Option (List Char) :=
  match text with
  | c :: rest => if isDigit c then some (rest.dropWhile isDigit) else none
  | [] => none

def skipWhole : List Char → Option (List Char)
  | '0' :: c :: rest => if isDigit c then none else some (c :: rest)
  | text => skipDigits text

def skipFraction : List Char → Option (List Char)
  | '.' :: rest => skipDigits rest
  | text => some text

def skipExponent : List Char → Option (List Char)
  | c :: sign :: rest =>
    if c = 'e' || c = 'E' then
      if sign = '+' || sign = '-' then skipDigits rest else skipDigits (sign :: rest)
    else some (c :: sign :: rest)
  | [c] => if c = 'e' || c = 'E' then none else some [c]
  | [] => some []

def skipNumber (text : List Char) : Option (List Char) := do
  let whole ← skipWhole (match text with
    | '-' :: rest => rest
    | text => text)
  skipExponent (← skipFraction whole)

def readWord (word : List Char) (value : Json) : Reader Json := fun text =>
  if word.isPrefixOf text then some (value, text.drop word.length) else none

/-- Items with commas between them, up to the closing character. The fuel is the number of
characters, and every item takes at least one. -/
def readSeparated {α : Type} (close : Char) (item : Reader α) :
    (fuel : Nat) → Reader (List α)
  | 0, _ => none
  | fuel + 1, text => do
    let (a, rest) ← item (skipSpace text)
    match skipSpace rest with
    | ',' :: rest => do
      let (more, rest) ← readSeparated close item fuel rest
      return (a :: more, rest)
    | c :: rest => if c = close then return ([a], rest) else none
    | [] => none

def readList {α : Type} (close : Char) (item : Reader α) : Reader (List α) := fun text =>
  match skipSpace text with
  | [] => none
  | c :: rest =>
    if c = close then some ([], rest) else readSeparated close item text.length (c :: rest)

def readField (value : Reader Json) : Reader (List Char × Json) := fun text =>
  match text with
  | '"' :: rest => do
    let (name, rest) ← readRaw rest
    match skipSpace rest with
    | ':' :: rest => do
      let (v, rest) ← value (skipSpace rest)
      return ((name, v), rest)
    | _ => none
  | _ => none

def readValueWith (inner : Reader Json) : Reader Json := fun text =>
  match text with
  | 'n' :: _ => readWord "null".toList .null text
  | 't' :: _ => readWord "true".toList (.bool true) text
  | 'f' :: _ => readWord "false".toList (.bool false) text
  | '"' :: rest => do
    let (raw, rest) ← readRaw rest
    return (.string raw, rest)
  | '[' :: rest => do
    let (items, rest) ← readList ']' inner rest
    return (.array items, rest)
  | '\x7b' :: rest => do
    let (fields, rest) ← readList '\x7d' (readField inner) rest
    return (.object fields, rest)
  | text => return (.number, ← skipNumber text)

def readValue : (fuel : Nat) → Reader Json
  | 0 => fun _ => none
  | fuel + 1 => readValueWith (readValue fuel)

def parse (text : String) : Option Json := do
  let chars := text.toList
  let (value, rest) ← readValue (chars.length + 1) (skipSpace chars)
  if (skipSpace rest).isEmpty then return value else none

end Json

end LazyCollections
