import IngressWatch.Base64

/-!
# Private-key sections

A private key is the first section of a PEM text whose label names a key format. Lines end at a
line feed or a carriage return, and what stands between sections is skipped.

* `firstKey`: the format and the DER bytes of that section. Nothing when a section before it, or
  the section itself, is malformed or left open.
* `openingLabel`: the label of a line that opens a section.
-/

namespace IngressWatch.Pem

/-- The encodings of a private key that a label can announce. -/
inductive KeyFormat where
  | pkcs1
  | sec1
  | pkcs8
deriving DecidableEq, Repr

/-- What a section is read as. Sections of other formats must still hold base64; sections with an
unknown label are dropped unread. -/
inductive SectionKind where
  | key (format : KeyFormat)
  | other
deriving DecidableEq, Repr

def sectionKind? (label : Bytes) : Option SectionKind :=
  if label = Bytes.ofAscii "RSA PRIVATE KEY" then some (.key .pkcs1)
  else if label = Bytes.ofAscii "EC PRIVATE KEY" then some (.key .sec1)
  else if label = Bytes.ofAscii "PRIVATE KEY" then some (.key .pkcs8)
  else if label ∈ ["CERTIFICATE", "PUBLIC KEY", "X509 CRL", "CERTIFICATE REQUEST",
      "ECHCONFIG"].map Bytes.ofAscii then some .other
  else none

def openingMark : Bytes := Bytes.ofAscii "-----BEGIN "

def closingLine (label : Bytes) : Bytes :=
  Bytes.ofAscii "-----END " ++ label ++ Bytes.ofAscii "-----"

/-- The label of a line that starts with `openingMark`. The run of dashes and spaces that ends the
line must hold five dashes, and the label reaches up to the first of them. -/
def openingLabel (line : Bytes) : Option Bytes :=
  let run := (line.reverse.takeWhile fun c => c == 45 || c == 32).reverse
  if run.count 45 = 5 then
    let fromDash := run.dropWhile (· == 32)
    some ((line.take (line.length - fromDash.length)).drop openingMark.length)
  else none

/-- The label of the section that is open, if one is, and the characters of its body, last
first. -/
structure Reading where
  label : Option Bytes
  body : Bytes

/-- Reads line by line. A header inside a section changes its label and keeps its body. -/
def readSections (state : Reading) : List Bytes → Option (KeyFormat × Bytes)
  | [] => none
  | line :: rest =>
    if openingMark.isPrefixOf line then
      match openingLabel line with
      | none => none
      | some label => readSections ⟨some label, state.body⟩ rest
    else
      match state.label with
      | none => readSections state rest
      | some label =>
        if (closingLine label).isPrefixOf line then
          match sectionKind? label with
          | none => readSections ⟨none, []⟩ rest
          | some kind =>
            match Base64.decodeLoose state.body.reverse, kind with
            | none, _ => none
            | some contents, .key format => some (format, contents)
            | some _, .other => readSections ⟨none, []⟩ rest
        else readSections ⟨some label, line.reverse ++ state.body⟩ rest

def firstKey (text : Bytes) : Option (KeyFormat × Bytes) :=
  readSections ⟨none, []⟩ (Bytes.pieces (fun c => c == 10 || c == 13) text)

end IngressWatch.Pem
