import IngressWatch.Certificate.Time
import IngressWatch.Pem.Block

/-!
# X.509 certificates

The fields of a certificate are walked in order. Of them the common name of the subject and the
end of the validity are kept; the others are only checked for their form.

* `parse`: the certificate in the first PEM block of a text, or the step that failed.
* `ofDer`: the identity written in DER.
* `commonName`: the text of the first common name in a subject.
-/

namespace IngressWatch

open Der

/-- Whom a certificate names and when it ends. -/
structure Identity where
  commonName : String
  notAfter : Moment
deriving DecidableEq, Repr

structure Certificate where
  der : Bytes
  identity : Identity
deriving DecidableEq

namespace Certificate

/-- Checks an algorithm identifier and returns what follows: an object identifier and, if a header
follows, one well-formed element. -/
def algorithm (b : Bytes) : Option Bytes := do
  let (fields, rest) ← sequencePart b
  let (_, parameters) ← objectIdentifier fields
  if (Header.read parameters).isSome then let _ ← Element.read parameters
  return rest

/-- One attribute of a name. -/
structure Attribute where
  kind : Bytes
  value : Element

def nameAttribute (b : Bytes) : Option (Attribute × Bytes) := do
  let (fields, rest) ← sequencePart b
  let (kind, fields) ← objectIdentifier fields
  let (value, _) ← Element.read fields
  return (⟨kind, value⟩, rest)

/-- Reads items up to the first malformed one. Every item takes bytes, so `fuel` is the number of
bytes. -/
def readMany {α : Type} (item : Bytes → Option (α × Bytes)) : (fuel : Nat) → Bytes → List α
  | 0, _ => []
  | fuel + 1, b =>
    match item b with
    | none => []
    | some (a, rest) => a :: readMany item fuel rest

/-- A set of at least one attribute. -/
def relativeName (b : Bytes) : Option (List Attribute × Bytes) := do
  let (fields, rest) ← setPart b
  let attributes := readMany nameAttribute fields.length fields
  guard (attributes ≠ [])
  return (attributes, rest)

/-- The attributes of a name in order, and what follows the name. -/
def name (b : Bytes) : Option (List Attribute × Bytes) := do
  let (fields, rest) ← sequencePart b
  return ((readMany relativeName fields.length fields).flatten, rest)

/-- The object identifier 2.5.4.3. -/
def commonNameKind : Bytes := [0x55, 4, 3]

/-- The tags of the string types that are read as text: UTF-8, numeric, printable and IA5. -/
def textTags : List Nat := [12, 18, 19, 22]

/-- The text of the first common name; empty when there is none or it can not be read. -/
def commonName (attributes : List Attribute) : String :=
  match attributes.find? (·.kind = commonNameKind) with
  | some ⟨_, value⟩ =>
    if value.number ∈ textTags then (Bytes.toString? value.contents).getD "" else ""
  | none => ""

/-- The end of the validity period, and what follows it. -/
def validity (b : Bytes) : Option (Moment × Bytes) := do
  let (fields, rest) ← sequencePart b
  let (_, fields) ← readTime fields
  let (notAfter, _) ← readTime fields
  return (notAfter, rest)

def subjectKey (b : Bytes) : Option Bytes := do
  let (fields, rest) ← sequencePart b
  let _ ← bitString (← algorithm fields)
  return rest

/-- Skips the version, if it is there. -/
def version (b : Bytes) : Option Bytes := do
  let (e?, rest) ← Element.context? 0 b
  if let some e := e? then let _ ← smallUnsigned e.contents
  return rest

/-- Skips the unique identifier with context tag `number`, if it is there. -/
def uniqueIdentifier (number : Nat) (b : Bytes) : Option Bytes := do
  let (e?, rest) ← Element.context? number b
  if let some e := e? then guard (!e.constructed && isBitString e.contents)
  return rest

/-- An extension: an identifier, an optional truth value of one byte, and an octet string. -/
def extension (b : Bytes) : Option (Unit × Bytes) := do
  let (fields, rest) ← sequencePart b
  let (_, fields) ← objectIdentifier fields
  let (e, after) ← Element.read fields
  let fields ←
    if e.number = 1 then do
      guard (!e.constructed && e.contents.length == 1)
      some after
    else some fields
  let (e, _) ← Element.numbered 4 fields
  guard !e.constructed
  return ((), rest)

/-- Whether `b` is a sequence of extensions and nothing else. -/
def extensionsFill : (fuel : Nat) → Bytes → Bool
  | _, [] => true
  | 0, _ => false
  | fuel + 1, b =>
    match extension b with
    | none => false
    | some (_, rest) => extensionsFill fuel rest

/-- Checks the extensions, which end the fields if there are any. -/
def extensions (b : Bytes) : Option Unit :=
  if b = [] then some ()
  else do
    let (header, contents) ← Header.read b
    guard (header.number = 3)
    let (fields, rest) ← sequencePart contents
    guard (rest = [] ∧ extensionsFill fields.length fields)

/-- The signed part of a certificate, and what follows it. -/
def signedPart (b : Bytes) : Option (Identity × Bytes) := do
  let (fields, rest) ← sequencePart b
  let fields ← version fields
  let (_, fields) ← Element.numbered 2 fields
  let fields ← algorithm fields
  let (_, fields) ← name fields
  let (notAfter, fields) ← validity fields
  let (subject, fields) ← name fields
  let fields ← subjectKey fields
  let fields ← uniqueIdentifier 1 fields
  let fields ← uniqueIdentifier 2 fields
  extensions fields
  return (⟨commonName subject, notAfter⟩, rest)

def ofDer (b : Bytes) : Option Identity := do
  let (fields, _) ← sequencePart b
  let (identity, fields) ← signedPart fields
  let _ ← bitString (← algorithm fields)
  return identity

def parse (text : Bytes) : Except Malformed Certificate := do
  let block ← Pem.block text "certificate"
  match ofDer block.contents with
  | none => .error .certificate
  | some identity => .ok ⟨block.contents, identity⟩

end Certificate

end IngressWatch
