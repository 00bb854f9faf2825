import SharedCells.Descending
import SharedCells.Json.Integer

/-!
# JSON documents

A document is one list, object or item, with blanks around it and between its parts. It is
written without blanks.

* `Item α` says how a value stands in a list or under a key; `Key α` says how it stands as a key
  of an object, which is always a text: an integer stands there between quotes, in its written
  form and nothing else.
* `writeList`, `writeObject` and `readList`, `readObject` are the two directions; `readDocument`
  lets nothing but blanks follow the value.
-/

namespace SharedCells.Json

/-- Values that stand in a list or under a key. -/
class Item (α : Type) where
  write : α → List Char
  read : Reader α

/-- Values that stand as a key of an object. -/
class Key (α : Type) where
  /-- Writes the key with its quotes. -/
  write : α → List Char
  /-- Reads a key with its quotes. -/
  read : Reader α

/-- A reader whose value is taken as another one. -/
def Reader.as {α β : Type} (read : Reader α) (f : α → β) : Reader β := fun cs =>
  (read cs).map fun (a, rest) => (f a, rest)

def readQuotedInteger : Reader Int64
  | '"' :: rest =>
    match readInteger rest with
    | some (n, '"' :: rest) => some (n, rest)
    | _ => none
  | _ => none

instance : Item String := ⟨writeText, readText⟩

instance : Item Int64 := ⟨writeInteger, readInteger⟩

instance {α : Type} [Item α] : Item (Descending α) :=
  ⟨fun a => Item.write a.value, (Item.read : Reader α).as Descending.mk⟩

instance : Key String := ⟨writeText, readText⟩

instance : Key Int64 := ⟨fun n => '"' :: (writeInteger n ++ ['"']), readQuotedInteger⟩

instance {α : Type} [Key α] : Key (Descending α) :=
  ⟨fun a => Key.write a.value, (Key.read : Reader α).as Descending.mk⟩

/-! ## Writing -/

/-- Parts with a comma between them. -/
def joined (parts : List (List Char)) : List Char := [','].intercalate parts

def writeList {α : Type} [Item α] (as : List α) : List Char :=
  '[' :: (joined (as.map Item.write) ++ [']'])

/-- Writes a key with its value. -/
def writeMember {K V : Type} [Key K] [Item V] (e : K × V) : List Char :=
  Key.write e.1 ++ ':' :: Item.write e.2

def writeObject {K V : Type} [Key K] [Item V] (es : List (K × V)) : List Char :=
  '\x7b' :: (joined (es.map writeMember) ++ ['\x7d'])

/-! ## Reading -/

/-- Whether a character may stand between the parts of a document. -/
def isBlank (c : Char) : Bool := c = ' ' || c = '\n' || c = '\t' || c = '\r'

/-- The text without the blanks in front. -/
def skipBlanks (cs : List Char) : List Char := cs.dropWhile isBlank

/-- Reads parts up to the closing mark, with a comma between them and at least one of them. The
first argument bounds the number of parts. -/
def readParts {α : Type} (part : Reader α) (closing : Char) : Nat → Reader (List α)
  | 0, _ => none
  | bound + 1, cs =>
    match part cs with
    | none => none
    | some (a, rest) =>
      match skipBlanks rest with
      | [] => none
      | c :: rest =>
        if c = closing then some ([a], rest)
        else if c = ',' then
          (readParts part closing bound (skipBlanks rest)).map fun (as, rest) => (a :: as, rest)
        else none

def readEnclosed {α : Type} (part : Reader α) (opening closing : Char) : Reader (List α)
  | [] => none
  | c :: rest =>
    if c = opening then
      match skipBlanks rest with
      | [] => none
      | d :: rest' =>
        if d = closing then some ([], rest')
        else readParts part closing (d :: rest').length (d :: rest')
    else none

def readList {α : Type} [Item α] : Reader (List α) := readEnclosed Item.read '[' ']'

/-- Reads a key with its value. -/
def readMember {K V : Type} [Key K] [Item V] : Reader (K × V) := fun cs =>
  match (Key.read cs : Option (K × List Char)) with
  | none => none
  | some (k, rest) =>
    match skipBlanks rest with
    | ':' :: rest => (Item.read (skipBlanks rest)).map fun (v, rest) => ((k, v), rest)
    | _ => none

/-- Reads an object; keys may come twice. -/
def readObject {K V : Type} [Key K] [Item V] : Reader (List (K × V)) :=
  readEnclosed readMember '\x7b' '\x7d'

/-- Reads a text that holds one value and nothing else but blanks. -/
def readDocument {α : Type} (read : Reader α) (text : String) : Option α :=
  match read (skipBlanks text.toList) with
  | some (a, rest) => if (skipBlanks rest).isEmpty then some a else none
  | none => none

end SharedCells.Json
