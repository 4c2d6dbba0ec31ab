/-
The tokens of a JSON text.

The reader goes over the characters once, with the unfinished token as its state. Of a number only
the value of a plain natural number is kept, of a text its characters; a text in which half of a
surrogate pair stands alone has the right form but no characters.
-/
namespace RenderFold.Json

inductive Token where
  | openArray
  | closeArray
  | openObject
  | closeObject
  | colon
  | comma
  | null
  | bool (value : Bool)
  /-- A number, with its value if it is written without sign, fraction and exponent. -/
  | number (natural : Option Nat)
  /-- A text, with its characters if it has any. -/
  | text (content : Option String)
deriving DecidableEq, Repr

/-- How far a number has been read. -/
inductive NumberPart where
  | sign
  | zero
  | digits
  | point
  | fraction
  | mark
  | markSign
  | exponent
deriving DecidableEq, Repr

namespace NumberPart

/-- The parts at which a number may end. -/
def isComplete : NumberPart → Bool
  | .zero | .digits | .fraction | .exponent => true
  | .sign | .point | .mark | .markSign => false

/-- The part that a first character begins. -/
def begin? (c : Char) : Option NumberPart :=
  if c = '-' then some .sign
  else if c = '0' then some .zero
  else if c.isDigit then some .digits
  else none

/-- The part that a character after a sign or among digits leads to. -/
def next? (part : NumberPart) (c : Char) : Option NumberPart :=
  let isMark := c = 'e' || c = 'E'
  match part with
  | .sign => if c = '0' then some .zero else if c.isDigit then some .digits else none
  | .zero => if c = '.' then some .point else if isMark then some .mark else none
  | .digits =>
      if c.isDigit then some .digits
      else if c = '.' then some .point
      else if isMark then some .mark
      else none
  | .point => if c.isDigit then some .fraction else none
  | .fraction =>
      if c.isDigit then some .fraction else if isMark then some .mark else none
  | .mark =>
      if c = '+' || c = '-' then some .markSign
      else if c.isDigit then some .exponent
      else none
  | .markSign => if c.isDigit then some .exponent else none
  | .exponent => if c.isDigit then some .exponent else none

/-- The value of the digits before a character together with it, while they are a plain natural
number. -/
def extend (part : NumberPart) (natural : Option Nat) (c : Char) : Option Nat :=
  match part with
  | .zero | .digits => natural.map fun n => 10 * n + (c.toNat - '0'.toNat)
  | _ => none

end NumberPart

/-- The unfinished token. -/
inductive Mode where
  | between
  /-- The letters of a word, the last one first. -/
  | word (letters : List Char)
  | number (part : NumberPart) (natural : Option Nat)
  /-- The code points of a text, the last one first. -/
  | text (points : List Nat)
  /-- After a backslash in a text. -/
  | escape (points : List Nat)
  /-- Among the hexadecimal digits of an escape, with the number of digits to come. -/
  | hex (points : List Nat) (value missing : Nat)
deriving DecidableEq, Repr

/-- The tokens read, the last one first, and the unfinished one. -/
structure Scan where
  tokens : List Token
  mode : Mode
deriving DecidableEq, Repr

/-- The four characters that separate tokens. -/
def isBlank (c : Char) : Bool := c = ' ' || c = '\n' || c = '\t' || c = '\r'

def hexDigit? (c : Char) : Option Nat :=
  if '0' ≤ c ∧ c ≤ '9' then some (c.toNat - '0'.toNat)
  else if 'a' ≤ c ∧ c ≤ 'f' then some (c.toNat - 'a'.toNat + 10)
  else if 'A' ≤ c ∧ c ≤ 'F' then some (c.toNat - 'A'.toNat + 10)
  else none

def isHighSurrogate (n : Nat) : Bool := 0xd800 ≤ n && n ≤ 0xdbff

def isLowSurrogate (n : Nat) : Bool := 0xdc00 ≤ n && n ≤ 0xdfff

def pairedChar (high low : Nat) : Char :=
  Char.ofNat (0x10000 + (high - 0xd800) * 0x400 + (low - 0xdc00))

/-- The characters of code points; nothing if half of a surrogate pair stands alone. -/
def charsOfPoints : List Nat → Option (List Char)
  | [] => some []
  | [n] => if isHighSurrogate n || isLowSurrogate n then none else some [Char.ofNat n]
  | n :: m :: rest =>
      if isHighSurrogate n then
        if isLowSurrogate m then (charsOfPoints rest).map (pairedChar n m :: ·) else none
      else if isLowSurrogate n then none
      else (charsOfPoints (m :: rest)).map (Char.ofNat n :: ·)

def wordToken? (letters : List Char) : Option Token :=
  if letters = ['n', 'u', 'l', 'l'] then some .null
  else if letters = ['t', 'r', 'u', 'e'] then some (.bool true)
  else if letters = ['f', 'a', 'l', 's', 'e'] then some (.bool false)
  else none

/-- The token of a single character. -/
def signToken? (c : Char) : Option Token :=
  if c = '[' then some .openArray
  else if c = ']' then some .closeArray
  else if c = '\x7b' then some .openObject
  else if c = '\x7d' then some .closeObject
  else if c = ':' then some .colon
  else if c = ',' then some .comma
  else none

/-- The code point that a short escape stands for. -/
def shortEscape? (c : Char) : Option Nat :=
  if c = '"' then some 0x22
  else if c = '\\' then some 0x5c
  else if c = '/' then some 0x2f
  else if c = 'b' then some 0x08
  else if c = 'f' then some 0x0c
  else if c = 'n' then some 0x0a
  else if c = 'r' then some 0x0d
  else if c = 't' then some 0x09
  else none

namespace Scan

def start : Scan := ⟨[], .between⟩

def push (s : Scan) (t : Token) : Scan := ⟨t :: s.tokens, .between⟩

/-- Finish the token that ends where the next one or a blank begins. -/
def close? (s : Scan) : Option Scan :=
  match s.mode with
  | .between => some s
  | .word letters => (wordToken? letters.reverse).map s.push
  | .number part natural => if part.isComplete then some (s.push (.number natural)) else none
  | .text _ | .escape _ | .hex _ _ _ => none

def begin? (tokens : List Token) (c : Char) : Option Scan :=
  if isBlank c then some ⟨tokens, .between⟩
  else if c = '"' then some ⟨tokens, .text []⟩
  else if c.isLower then some ⟨tokens, .word [c]⟩
  else
    match signToken? c with
    | some t => some ⟨t :: tokens, .between⟩
    | none => (NumberPart.begin? c).map fun part => ⟨tokens, .number part (part.extend (some 0) c)⟩

/-- Finish the token that ends before a character, and begin the next one with it. -/
def turn? (s : Scan) (c : Char) : Option Scan := do
  begin? (← s.close?).tokens c

def step (s : Scan) (c : Char) : Option Scan :=
  match s.mode with
  | .between => begin? s.tokens c
  | .word letters => if c.isLower then some ⟨s.tokens, .word (c :: letters)⟩ else s.turn? c
  | .number part natural =>
      match part.next? c with
      | some next => some ⟨s.tokens, .number next (next.extend natural c)⟩
      | none => s.turn? c
  | .text points =>
      if c = '"' then some (s.push (.text ((charsOfPoints points.reverse).map String.ofList)))
      else if c = '\\' then some ⟨s.tokens, .escape points⟩
      else if c.toNat < 0x20 then none
      else some ⟨s.tokens, .text (c.toNat :: points)⟩
  | .escape points =>
      if c = 'u' then some ⟨s.tokens, .hex points 0 4⟩
      else (shortEscape? c).map fun n => ⟨s.tokens, .text (n :: points)⟩
  | .hex points value missing =>
      (hexDigit? c).map fun d =>
        let value := 16 * value + d
        if missing ≤ 1 then ⟨s.tokens, .text (value :: points)⟩
        else ⟨s.tokens, .hex points value (missing - 1)⟩

end Scan

/-- The tokens of a text; nothing if it is not made of tokens. -/
def tokens? (text : List Char) : Option (List Token) := do
  let scan ← text.foldlM Scan.step Scan.start
  return (← scan.close?).tokens.reverse

end RenderFold.Json
