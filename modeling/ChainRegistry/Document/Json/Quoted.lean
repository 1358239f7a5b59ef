import ChainRegistry.Text.Hex

/-!
# Strings in JSON

A string is written between quotes.  The quote, the backslash and the control characters are
escaped, five of the controls by a letter and the others by their code; all other characters stand
for themselves.  Reading goes in two steps.  The first splits the text up to the closing quote into
characters and code units, and fails where the syntax does.  The second joins the units of surrogate
pairs; it fails where half of a pair is missing, in which case the text is a string that denotes
nothing.
-/

namespace ChainRegistry.Json

/-! ## Writing -/

def escape (c : Char) : List Char :=
  if c = '"' then ['\\', '"']
  else if c = '\\' then ['\\', '\\']
  else if c = '\n' then ['\\', 'n']
  else if c = '\r' then ['\\', 'r']
  else if c = '\t' then ['\\', 't']
  else if c = '\x08' then ['\\', 'b']
  else if c = '\x0c' then ['\\', 'f']
  else if c.toNat < 0x20 then '\\' :: 'u' :: Hex.fourDigits c.toNat
  else [c]

def quote (text : String) : List Char :=
  '"' :: (text.toList.flatMap escape ++ ['"'])

/-! ## Reading -/

inductive Piece where
  | char (c : Char)
  | unit (code : Nat)
  deriving DecidableEq, Repr

def unescape? : Char → Option Char
  | '"' => some '"'
  | '\\' => some '\\'
  | '/' => some '/'
  | 'b' => some '\x08'
  | 'f' => some '\x0c'
  | 'n' => some '\n'
  | 'r' => some '\r'
  | 't' => some '\t'
  | _ => none

/-- The pieces in front of the closing quote, and what stands behind it. -/
def pieces? : List Char → Option (List Piece × List Char)
  | [] => none
  | '"' :: rest => some ([], rest)
  | '\\' :: 'u' :: a :: b :: c :: d :: rest =>
    match Hex.number? [a, b, c, d], pieces? rest with
    | some code, some (pieces, rest) => some (.unit code :: pieces, rest)
    | _, _ => none
  | '\\' :: c :: rest =>
    match unescape? c, pieces? rest with
    | some c, some (pieces, rest) => some (.char c :: pieces, rest)
    | _, _ => none
  | c :: rest =>
    if c.toNat < 0x20 then none
    else (pieces? rest).map fun (pieces, rest) => (.char c :: pieces, rest)

def pairCode (high low : Nat) : Nat :=
  0x10000 + (high - 0xD800) * 0x400 + (low - 0xDC00)

def isHighSurrogate (code : Nat) : Bool := decide (0xD800 ≤ code) && decide (code ≤ 0xDBFF)

def isLowSurrogate (code : Nat) : Bool := decide (0xDC00 ≤ code) && decide (code ≤ 0xDFFF)

/-- The text of the pieces, where `high?` is the first half of a pair that waits for its second. -/
def joinAfter? (high? : Option Nat) : List Piece → Option (List Char)
  | [] => if high?.isNone then some [] else none
  | .char c :: rest => if high?.isNone then (joinAfter? none rest).map (c :: ·) else none
  | .unit code :: rest =>
    match high? with
    | some high =>
      if isLowSurrogate code then
        (joinAfter? none rest).map (Char.ofNat (pairCode high code) :: ·)
      else none
    | none =>
      if isHighSurrogate code then joinAfter? (some code) rest
      else if isLowSurrogate code then none
      else (joinAfter? none rest).map (Char.ofNat code :: ·)

def join? (pieces : List Piece) : Option String :=
  (joinAfter? none pieces).map String.ofList

end ChainRegistry.Json
