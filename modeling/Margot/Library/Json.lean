/-
Property trees as texts in JSON: how they are written and how they are read.
The writer and the reader stand for those of the property tree library, which is
no part of the sources of the program; a tree that is just a value is always
written as a string.
-/
import Margot.Library.Checked
import Margot.Library.PropertyTree

namespace Margot

namespace Json

section Writer

def hexadecimal (digit : Nat) : Char :=
  "0123456789ABCDEF".toList.getD digit '0'

/-- The character is written as it is. -/
def isPlain (c : Char) : Bool :=
  ' ' ≤ c && c ≠ '"' && c ≠ '/' && c ≠ '\\'

/-- How a character is written between quotes. -/
def escape (c : Char) : Text :=
  if isPlain c then [c]
  else if c = '\x08' then ['\\', 'b']
  else if c = '\x0c' then ['\\', 'f']
  else if c = '\n' then ['\\', 'n']
  else if c = '\r' then ['\\', 'r']
  else if c = '\t' then ['\\', 't']
  else if c = '/' then ['\\', '/']
  else if c = '"' then ['\\', '"']
  else if c = '\\' then ['\\', '\\']
  else ['\\', 'u', '0', '0', hexadecimal (c.toNat / 16),
    hexadecimal (c.toNat % 16)]

def createEscapes (text : Text) : Text := text.flatMap escape

def quoted (text : Text) : Text := '"' :: createEscapes text ++ ['"']

/-- The indentation of a line, if there are lines. -/
def padding (pretty : Bool) (indent : Nat) : Text :=
  if pretty then List.replicate (4 * indent) ' ' else []

def lineEnd (pretty : Bool) : Text := if pretty then ['\n'] else []

/-- The key of a child, unless it is an element of an array. -/
def label (pretty isObject : Bool) (key : Text) : Text :=
  if isObject then quoted key ++ ':' :: (if pretty then [' '] else []) else []

/-- A node is written as an array if no child has a key; the root never is. -/
def isArray (indent : Nat) (children : List (Text × Ptree)) : Bool :=
  0 < indent && children.all fun child => child.1 = []

/-- What encloses the children of a node. -/
def enclose (pretty : Bool) (indent : Nat) (asArray : Bool) (content : Text) :
    Text :=
  (if asArray then '[' else '\x7b') :: lineEnd pretty ++ content ++
    padding pretty indent ++ [if asArray then ']' else '\x7d']

mutual

/-- A node at some depth, with its values as `value` writes them. -/
def write (value : Text → Text) (pretty : Bool) (indent : Nat) : Ptree → Text
  | .node data children =>
      if 0 < indent && children.isEmpty then value data
      else enclose pretty indent (isArray indent children)
        (writeChildren value pretty (indent + 1)
          (!isArray indent children) children)

def writeChildren (value : Text → Text) (pretty : Bool) (indent : Nat)
    (isObject : Bool) : List (Text × Ptree) → Text
  | [] => []
  | (key, child) :: rest =>
      padding pretty indent ++ label pretty isObject key ++
        write value pretty indent child ++
        (if rest.isEmpty then [] else [',']) ++ lineEnd pretty ++
        writeChildren value pretty indent isObject rest

end

mutual

/-- No node below the root has both a value and children. -/
def plainNodes : Ptree → Bool
  | .node data children =>
      (data.isEmpty || children.isEmpty) && plainChildren children

def plainChildren : List (Text × Ptree) → Bool
  | [] => true
  | (_, child) :: rest => plainNodes child && plainChildren rest

end

/-- The tree has a form in JSON. -/
def verifyJson (tree : Ptree) : Bool := tree.data.isEmpty && plainNodes tree

/-- `write_json` -/
def writeJson (pretty : Bool) (tree : Ptree) : Checked Text := do
  require (verifyJson tree)
    ("ptree contains data that cannot be represented in JSON " ++
      "format").toList
  return write quoted pretty 0 tree ++ lineEnd pretty

end Writer

section Reader

def isJsonSpace (c : Char) : Bool :=
  c == ' ' || c == '\t' || c == '\n' || c == '\r'

def skipSpace (text : Text) : Text := text.dropWhile isJsonSpace

def hexadecimalValue (c : Char) : Option Nat :=
  if '0' ≤ c ∧ c ≤ '9' then some (c.toNat - '0'.toNat)
  else if 'a' ≤ c ∧ c ≤ 'f' then some (c.toNat - 'a'.toNat + 10)
  else if 'A' ≤ c ∧ c ≤ 'F' then some (c.toNat - 'A'.toNat + 10)
  else none

/-- The value of four hexadecimal digits. -/
def codeUnit (a b c d : Char) : Option Nat := do
  let a ← hexadecimalValue a
  let b ← hexadecimalValue b
  let c ← hexadecimalValue c
  let d ← hexadecimalValue d
  return ((a * 16 + b) * 16 + c) * 16 + d

def simpleEscape (c : Char) : Option Char :=
  match c with
  | '"' => some '"'
  | '\\' => some '\\'
  | '/' => some '/'
  | 'b' => some '\x08'
  | 'f' => some '\x0c'
  | 'n' => some '\n'
  | 'r' => some '\r'
  | 't' => some '\t'
  | _ => none

/-- One character goes in front of the string that is read after it. -/
def prepend (c : Char) (read : Option (Text × Text)) : Option (Text × Text) :=
  read.map fun result => (c :: result.1, result.2)

/-- The rest of a string and what follows its closing quote. -/
def readString : Text → Option (Text × Text)
  | [] => none
  | '"' :: rest => some ([], rest)
  | '\\' :: 'u' :: a :: b :: c :: d :: rest =>
      match codeUnit a b c d with
      | none => none
      | some high =>
          if 0xDC00 ≤ high ∧ high ≤ 0xDFFF then none
          else if 0xD800 ≤ high ∧ high ≤ 0xDBFF then
            match rest with
            | '\\' :: 'u' :: a :: b :: c :: d :: rest =>
                match codeUnit a b c d with
                | none => none
                | some low =>
                    if 0xDC00 ≤ low ∧ low ≤ 0xDFFF then
                      prepend (Char.ofNat
                        (0x10000 + (high - 0xD800) * 0x400 + (low - 0xDC00)))
                        (readString rest)
                    else none
            | _ => none
          else prepend (Char.ofNat high) (readString rest)
  | '\\' :: c :: rest =>
      match simpleEscape c with
      | some meant => prepend meant (readString rest)
      | none => none
  | c :: rest => if ' ' ≤ c then prepend c (readString rest) else none

/-- The digits at the beginning of a text. -/
def digits (text : Text) : Text × Text :=
  (text.takeWhile Char.isDigit, text.dropWhile Char.isDigit)

def readSign : Text → Text × Text
  | '-' :: rest => (['-'], rest)
  | text => ([], text)

/-- A zero, or digits that do not begin with one. -/
def readInteger : Text → Option (Text × Text)
  | '0' :: rest => some (['0'], rest)
  | text =>
      if (digits text).1 = [] then none else some (digits text)

def readFraction : Text → Option (Text × Text)
  | '.' :: rest =>
      if (digits rest).1 = [] then none
      else some ('.' :: (digits rest).1, (digits rest).2)
  | text => some ([], text)

def readExponentSign : Text → Text × Text
  | '+' :: rest => (['+'], rest)
  | '-' :: rest => (['-'], rest)
  | text => ([], text)

def readExponent : Text → Option (Text × Text)
  | c :: rest =>
      if c = 'e' ∨ c = 'E' then
        let sign := readExponentSign rest
        if (digits sign.2).1 = [] then none
        else some (c :: sign.1 ++ (digits sign.2).1, (digits sign.2).2)
      else some ([], c :: rest)
  | [] => some ([], [])

/-- A number, which is kept as its text. -/
def readNumber (text : Text) : Option (Text × Text) := do
  let sign := readSign text
  let integer ← readInteger sign.2
  let fraction ← readFraction integer.2
  let exponent ← readExponent fraction.2
  return (sign.1 ++ integer.1 ++ fraction.1 ++ exponent.1, exponent.2)

/-- The whole text is a number. -/
def isNumber (text : Text) : Bool := readNumber text = some (text, [])

/-- A word that stands for a value. -/
def readWord (word : String) (text : Text) : Option (Text × Text) :=
  if word.toList.isPrefixOf text then
    some (word.toList, text.drop word.toList.length)
  else none

/-- A value without children. -/
def readScalar : Text → Option (Text × Text)
  | '"' :: rest => readString rest
  | 't' :: rest => readWord "true" ('t' :: rest)
  | 'f' :: rest => readWord "false" ('f' :: rest)
  | 'n' :: rest => readWord "null" ('n' :: rest)
  | text => readNumber text

def readColon (key rest : Text) : Option (Text × Text) :=
  match skipSpace rest with
  | ':' :: rest => some (key, rest)
  | _ => none

/-- The key of a member of an object, with its colon. -/
def readLabel (isObject : Bool) (text : Text) : Option (Text × Text) :=
  if isObject then
    match skipSpace text with
    | '"' :: rest => (readString rest).bind fun read => readColon read.1 read.2
    | _ => none
  else some ([], text)

/-- The bracket after the last child. -/
def closing (isObject : Bool) : Char := if isObject then '\x7d' else ']'

mutual

def readValue : Nat → Text → Option (Ptree × Text)
  | 0, _ => none
  | fuel + 1, text =>
      match skipSpace text with
      | '\x7b' :: rest => readChildren fuel true rest
      | '[' :: rest => readChildren fuel false rest
      | text => (readScalar text).map fun read => (Ptree.leaf read.1, read.2)

/-- What follows an opening bracket. -/
def readChildren : Nat → Bool → Text → Option (Ptree × Text)
  | 0, _, _ => none
  | fuel + 1, isObject, text =>
      match skipSpace text with
      | [] => none
      | c :: rest =>
          if c = closing isObject then some (Ptree.empty, rest)
          else (readItems fuel isObject (c :: rest)).map fun read =>
            (.node [] read.1, read.2)

/-- One child or more, and the closing bracket. -/
def readItems : Nat → Bool → Text → Option (List (Text × Ptree) × Text)
  | 0, _, _ => none
  | fuel + 1, isObject, text =>
      match readLabel isObject text with
      | none => none
      | some (key, rest) =>
          match readValue fuel rest with
          | none => none
          | some (child, rest) =>
              match skipSpace rest with
              | [] => none
              | c :: rest =>
                  if c = ',' then
                    (readItems fuel isObject rest).map fun read =>
                      ((key, child) :: read.1, read.2)
                  else if c = closing isObject then
                    some ([(key, child)], rest)
                  else none

end

/-- `read_json`, `none` where it throws: the text is not in JSON. -/
def readJson (text : Text) : Option Ptree :=
  match readValue (4 * text.length) text with
  | some (tree, rest) => if skipSpace rest = [] then some tree else none
  | none => none

end Reader

end Json

end Margot
