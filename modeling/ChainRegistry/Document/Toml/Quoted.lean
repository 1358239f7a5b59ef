import ChainRegistry.Text.Hex

/-!
# Strings in TOML

A string is basic or literal, and either kind may span lines between tripled quotes.  Basic strings
know escapes, and in their long form a backslash at the end of a line joins it to the next text.
Literal strings know none.  Line ends are read as single line feeds, the one after an opening triple
is dropped, and a triple may be preceded by at most two quotes that belong to the text.

A text is written in the first form, of basic, literal, long basic and long literal, in which none
of its characters has to be escaped.  Where there is none, escapes are used, in the long form if the
text has more than one line.

A long basic string is read in two steps: the first finds its end and resolves the escapes, the
second joins the lines.
-/

namespace ChainRegistry.Toml

/-- The characters that stand for themselves in a string or comment, line ends and quotes apart. -/
def isPlain (c : Char) : Bool :=
  c == '\t' || (decide (0x20 ≤ c.toNat) && c != '\x7f')

/-! ## Writing -/

def escape (c : Char) : List Char :=
  if c = '"' then ['\\', '"']
  else if c = '\\' then ['\\', '\\']
  else if c = '\x08' then ['\\', 'b']
  else if c = '\t' then ['\\', 't']
  else if c = '\n' then ['\\', 'n']
  else if c = '\x0c' then ['\\', 'f']
  else if c = '\r' then ['\\', 'r']
  else if isPlain c then [c]
  else '\\' :: 'u' :: (Hex.fourDigits c.toNat).map Char.toUpper

/-- The length of the longest run of a character that follows so many of it. -/
def longestRun (c : Char) : Nat → List Char → Nat
  | run, [] => run
  | run, d :: rest => if d = c then longestRun c (run + 1) rest else max run (longestRun c 0 rest)

inductive QuoteStyle where
  | basic
  | literal
  | longBasic
  | longLiteral
  deriving DecidableEq, Repr

namespace QuoteStyle

/-- Whether no character of a text has to be escaped. -/
def isVerbatim (style : QuoteStyle) (text : List Char) : Bool :=
  (text.all fun c => isPlain c || c == '\n') &&
  match style with
  | basic => !text.contains '\\' && !text.contains '"' && !text.contains '\n'
  | literal => !text.contains '\x27' && !text.contains '\n'
  | longBasic => !text.contains '\\' && decide (longestRun '"' 0 text ≤ 2)
  | longLiteral => decide (longestRun '\x27' 0 text ≤ 2)

def ofText (text : List Char) : QuoteStyle :=
  ([basic, literal, longBasic, longLiteral].find? fun style => style.isVerbatim text).getD
    (if text.contains '\n' then longBasic else basic)

end QuoteStyle

/-- The inside of a long basic string, where so many quotes have just been written.  No more than
two stand together. -/
def longBasicBody : Nat → List Char → List Char
  | _, [] => []
  | run, c :: rest =>
    if c = '"' then
      if run < 2 then c :: longBasicBody (run + 1) rest else escape c ++ longBasicBody 0 rest
    else if c = '\n' then c :: longBasicBody 0 rest
    else escape c ++ longBasicBody 0 rest

/-- A text of several lines begins on a line of its own. -/
def leadIn (text : List Char) : List Char :=
  if text.contains '\n' then ['\n'] else []

def quote (text : String) : List Char :=
  let text := text.toList
  match QuoteStyle.ofText text with
  | .basic => '"' :: (text.flatMap escape ++ ['"'])
  | .literal => '\x27' :: (text ++ ['\x27'])
  | .longBasic => "\"\"\"".toList ++ leadIn text ++ longBasicBody 0 text ++ "\"\"\"".toList
  | .longLiteral => "'''".toList ++ leadIn text ++ text ++ "'''".toList

/-! ## Reading -/

def unescape? : Char → Option Char
  | '"' => some '"'
  | '\\' => some '\\'
  | 'b' => some '\x08'
  | 'f' => some '\x0c'
  | 'n' => some '\n'
  | 'r' => some '\r'
  | 't' => some '\t'
  | _ => none

/-- The character with a code, unless the code is half of a surrogate pair or too large. -/
def scalar? (digits : List Char) : Option Char :=
  (Hex.number? digits).bind fun code => if code.isValidChar then some (Char.ofNat code) else none

def consIfSome (c? : Option Char) (read? : Option (List Char × List Char)) :
    Option (List Char × List Char) :=
  match c?, read? with
  | some c, some (text, rest) => some (c :: text, rest)
  | _, _ => none

def basic? : List Char → Option (List Char × List Char)
  | [] => none
  | '"' :: rest => some ([], rest)
  | '\\' :: 'u' :: a :: b :: c :: d :: rest => consIfSome (scalar? [a, b, c, d]) (basic? rest)
  | '\\' :: 'U' :: a :: b :: c :: d :: e :: f :: g :: h :: rest =>
    consIfSome (scalar? [a, b, c, d, e, f, g, h]) (basic? rest)
  | '\\' :: c :: rest => consIfSome (unescape? c) (basic? rest)
  | c :: rest => if isPlain c then consIfSome (some c) (basic? rest) else none

def literal? : List Char → Option (List Char × List Char)
  | [] => none
  | '\x27' :: rest => some ([], rest)
  | c :: rest => if isPlain c then consIfSome (some c) (literal? rest) else none

def dropLineEnd : List Char → List Char
  | '\n' :: rest => rest
  | '\r' :: '\n' :: rest => rest
  | rest => rest

/-- A piece of a long basic string: a character as it stands, one that was escaped, or the backslash
that joins lines. -/
inductive Piece where
  | raw (c : Char)
  | escaped (c : Char)
  | joint
  deriving DecidableEq, Repr

def consPiece (p? : Option Piece) (read? : Option (List Piece × List Char)) :
    Option (List Piece × List Char) :=
  match p?, read? with
  | some p, some (pieces, rest) => some (p :: pieces, rest)
  | _, _ => none

def longBasicPieces? : List Char → Option (List Piece × List Char)
  | [] => none
  | '"' :: '"' :: '"' :: '"' :: '"' :: rest => some ([.raw '"', .raw '"'], rest)
  | '"' :: '"' :: '"' :: '"' :: rest => some ([.raw '"'], rest)
  | '"' :: '"' :: '"' :: rest => some ([], rest)
  | '\\' :: 'u' :: a :: b :: c :: d :: rest =>
    consPiece ((scalar? [a, b, c, d]).map .escaped) (longBasicPieces? rest)
  | '\\' :: 'U' :: a :: b :: c :: d :: e :: f :: g :: h :: rest =>
    consPiece ((scalar? [a, b, c, d, e, f, g, h]).map .escaped) (longBasicPieces? rest)
  | '\\' :: '\r' :: '\n' :: rest =>
    consPiece (some .joint) (consPiece (some (.raw '\n')) (longBasicPieces? rest))
  | '\\' :: c :: rest =>
    if c = ' ' ∨ c = '\t' ∨ c = '\n' then
      consPiece (some .joint) (consPiece (some (.raw c)) (longBasicPieces? rest))
    else consPiece ((unescape? c).map .escaped) (longBasicPieces? rest)
  | '\r' :: '\n' :: rest => consPiece (some (.raw '\n')) (longBasicPieces? rest)
  | c :: rest =>
    if isPlain c || c == '\n' then consPiece (some (.raw c)) (longBasicPieces? rest) else none

/-- Drops the blanks and line ends behind each joint, among which there must be a line end.  The
first argument tells whether a joint is open and whether its line end has been met. -/
def joinLines? : Option Bool → List Piece → Option (List Char)
  | joint?, [] => if joint? = some false then none else some []
  | none, .joint :: rest => joinLines? (some false) rest
  | none, .raw c :: rest => (joinLines? none rest).map (c :: ·)
  | none, .escaped c :: rest => (joinLines? none rest).map (c :: ·)
  | some met, .joint :: rest => if met then joinLines? (some false) rest else none
  | some met, .escaped c :: rest =>
    if met then (joinLines? none rest).map (c :: ·) else none
  | some met, .raw c :: rest =>
    if c = ' ' ∨ c = '\t' then joinLines? (some met) rest
    else if c = '\n' then joinLines? (some true) rest
    else if met then (joinLines? none rest).map (c :: ·)
    else none

def longBasic? (text : List Char) : Option (List Char × List Char) := do
  let (pieces, rest) ← longBasicPieces? (dropLineEnd text)
  let joined ← joinLines? none pieces
  some (joined, rest)

def longLiteralBody? : List Char → Option (List Char × List Char)
  | [] => none
  | '\x27' :: '\x27' :: '\x27' :: '\x27' :: '\x27' :: rest => some (['\x27', '\x27'], rest)
  | '\x27' :: '\x27' :: '\x27' :: '\x27' :: rest => some (['\x27'], rest)
  | '\x27' :: '\x27' :: '\x27' :: rest => some ([], rest)
  | '\r' :: '\n' :: rest => consIfSome (some '\n') (longLiteralBody? rest)
  | c :: rest =>
    if isPlain c || c == '\n' then consIfSome (some c) (longLiteralBody? rest) else none

def longLiteral? (text : List Char) : Option (List Char × List Char) :=
  longLiteralBody? (dropLineEnd text)

def string? : List Char → Option (List Char × List Char)
  | '"' :: '"' :: '"' :: rest => longBasic? rest
  | '"' :: rest => basic? rest
  | '\x27' :: '\x27' :: '\x27' :: rest => longLiteral? rest
  | '\x27' :: rest => literal? rest
  | _ => none

end ChainRegistry.Toml
