import IngressWatch.Base64

/-!
# Strict PEM text

The textual encoding of RFC 7468 in its strict form, read for account keys and written for
generated ones.

* `readArmor`: the label and contents of a text that is one block: lines of 64 characters, a last
  line of at most 64, canonical base64, and nothing after the closing line but one line ending.
  Text before the block is allowed.
* `writeArmor`: the form with line feeds.
-/

namespace IngressWatch.Pem

def armorBegin : Bytes := Bytes.ofAscii "-----BEGIN "

def armorEnd : Bytes := Bytes.ofAscii "-----END "

def armorDashes : Bytes := Bytes.ofAscii "-----"

/-- The number of base64 characters in a full line. -/
def armorWidth : Nat := 64

/-- Drops what comes before the opening boundary, which starts the text or follows a line feed. No
NUL may come before it. -/
def afterPreamble (text : Bytes) : Option Bytes :=
  if armorBegin.isPrefixOf text then some (text.drop armorBegin.length) else go text
where
  go : Bytes → Option Bytes
    | [] => none
    | c :: rest =>
      if c = 0 then none
      else if c = 10 ∧ armorBegin.isPrefixOf rest then some (rest.drop armorBegin.length)
      else go rest

/-- The rest after a line ending, if there is one: line feed, carriage return, or both. -/
def dropEol? : Bytes → Option Bytes
  | 13 :: 10 :: rest => some rest
  | 13 :: rest => some rest
  | 10 :: rest => some rest
  | _ => none

/-- The text before a line ending at its end. -/
def dropLastEol? (text : Bytes) : Option Bytes :=
  match text.reverse with
  | 10 :: 13 :: rest => some rest.reverse
  | 10 :: rest => some rest.reverse
  | 13 :: rest => some rest.reverse
  | _ => none

/-- Label characters are visible and no dash; single spaces and tabs may stand between them. -/
def isLabel (label : Bytes) : Bool :=
  let isGap (c : UInt8) : Bool := c == 32 || c == 9
  label.all (fun c => (33 ≤ c && c ≤ 126) || isGap c)
    && !(label.head?.any isGap)
    && (label.zip label.tail).all fun p => !(isGap p.1 && isGap p.2)

theorem length_le_of_dropEol? {text rest : Bytes} (h : dropEol? text = some rest) :
    rest.length ≤ text.length := by
  unfold dropEol? at h
  split at h <;> cases h
  all_goals simp only [List.length_cons]; omega

/-- Joins the lines of a body after the characters `done`, last first. -/
def unwrap (done : Bytes) (body : Bytes) : Option Bytes :=
  match hd : body.drop armorWidth with
  | [] => some (done.reverse ++ body)
  | c :: tail =>
    match he : dropEol? (c :: tail) with
    | none => none
    | some rest =>
      have : rest.length < body.length := by
        have h := congrArg List.length hd
        have h' := length_le_of_dropEol? he
        simp only [List.length_drop, List.length_cons, armorWidth] at h h'
        omega
      unwrap ((body.take armorWidth).reverse ++ done) rest
  termination_by body.length

/-- Canonical base64 in which only the last block is padded. -/
def decodeBody (body : Bytes) : Option Bytes :=
  if Base64.pad ∈ body.dropLast.dropLast then none else Base64.decode body

def readArmor (text : Bytes) : Option (Bytes × Bytes) := do
  let rest ← afterPreamble text
  let label := rest.takeWhile (· != 45)
  guard (isLabel label)
  let afterLabel := rest.drop label.length
  guard (armorDashes.isPrefixOf afterLabel)
  let body ← dropEol? (afterLabel.drop armorDashes.length)
  let body := (dropLastEol? body).getD body
  let closing := armorEnd ++ label ++ armorDashes
  guard (closing.isSuffixOf body)
  let body ← dropLastEol? (body.take (body.length - closing.length))
  return (label, ← decodeBody (← unwrap [] body))

/-- Cuts `body` into lines of `armorWidth` characters, each ended by a line feed. -/
def wrap (body : Bytes) : Bytes :=
  if body.length ≤ armorWidth then if body = [] then [] else body ++ [10]
  else body.take armorWidth ++ 10 :: wrap (body.drop armorWidth)
  termination_by body.length
  decreasing_by simp only [List.length_drop, armorWidth] at *; omega

def writeArmor (label contents : Bytes) : Bytes :=
  armorBegin ++ label ++ armorDashes ++ 10 :: wrap (Base64.encode contents)
    ++ armorEnd ++ label ++ armorDashes ++ [10]

end IngressWatch.Pem
