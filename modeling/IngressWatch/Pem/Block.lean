import IngressWatch.Base64
import IngressWatch.Error
import IngressWatch.Text.Blank

/-!
# The first PEM block of a text

Certificates are read from the first block, whatever its label. Text before it is skipped and text
after it is not looked at.

* `firstBlock`: the block, or nothing when there is no header, the block is not closed, a line of
  it is not UTF-8, or its body is not base64.
* `block`: the block, or the error that it is missing.
* `headerLabel?`: the label of a line that opens a block.
-/

namespace IngressWatch.Pem

/-- A label and the bytes that the body encodes. -/
structure Block where
  label : String
  contents : Bytes

def beginMark : List Char := "-----BEGIN ".toList

def endMark : List Char := "-----END ".toList

def dashes : List Char := "-----".toList

/-- Whether `part` occurs in a text. -/
def occursIn (part : List Char) : List Char → Bool
  | [] => part.isEmpty
  | c :: rest => part.isPrefixOf (c :: rest) || occursIn part rest

/-- The label on a line that starts with `beginMark`. It reaches to the first dash and five dashes
in a row must follow somewhere. -/
def headerLabel? (line : List Char) : Option (List Char) :=
  let rest := line.drop beginMark.length
  if occursIn dashes rest then some (rest.takeWhile (· != '-')) else none

/-- Reads body lines up to the end mark. The characters read so far are `done`, last first; a line
loses the blanks at its end. -/
def readBody (done : List Char) : List Bytes → Option Bytes
  | [] => none
  | line :: rest =>
    match Bytes.toString? line with
    | none => none
    | some text =>
      if endMark.isPrefixOf text.toList then
        Base64.decodeText (String.ofList done.reverse)
      else readBody (text.toList.reverse.dropWhile Text.isBlank ++ done) rest

/-- Skips lines up to the first header and reads its block. A line that is not UTF-8 is no
header. -/
def readLines : List Bytes → Option Block
  | [] => none
  | line :: rest =>
    match Bytes.toString? line with
    | none => readLines rest
    | some text =>
      if beginMark.isPrefixOf text.toList then do
        let label ← headerLabel? text.toList
        return ⟨String.ofList label, ← readBody [] rest⟩
      else readLines rest

def firstBlock (text : Bytes) : Option Block := readLines (Bytes.pieces (· == 10) text)

/-- The first block of a text that should hold `what`. -/
def block (text : Bytes) (what : String) : Except Malformed Block :=
  match firstBlock text with
  | none => .error (.pem what)
  | some b => .ok b

end IngressWatch.Pem
