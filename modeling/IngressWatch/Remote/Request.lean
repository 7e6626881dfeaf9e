import IngressWatch.Remote.Write
import IngressWatch.Resource.Manifest

/-!
# Requests to the API server

* `Request.of`: the request of a write, or nothing when none can be made.
* `Response.isAccepted`: whether an answer says that the object was stored.
* `Write.send`: a whole write through the API.
-/

namespace IngressWatch

structure Request where
  method : String
  path : String
  body : Document

namespace Request

/-- Paths with the question mark that ends them are limited to this many bytes. -/
def maxLength : Nat := 65534

/-- Characters that a path may hold as they are. -/
def isPathChar (c : Char) : Bool :=
  let n := c.toNat
  n = 0x21 || n = 0x22 || (0x24 ≤ n && n ≤ 0x3b) || n = 0x3d || (0x40 ≤ n && n ≤ 0x5f)
    || 0x61 ≤ n

/-- Characters that may follow a question mark. -/
def isQueryChar (c : Char) : Bool :=
  let n := c.toNat
  n = 0x21 || (0x24 ≤ n && n ≤ 0x3b) || n = 0x3d || 0x3f ≤ n

/-- The path that is requested by a text: it ends at a question mark or a number sign. -/
def path? (text : String) : Option String :=
  let upToFragment := text.toList.takeWhile (· ≠ '#')
  let path := upToFragment.takeWhile (· ≠ '?')
  let query := upToFragment.drop (path.length + 1)
  if text.utf8ByteSize < maxLength ∧ path.all isPathChar ∧ query.all isQueryChar then
    some (String.ofList path)
  else none

/-- The path of all objects of a kind in a namespace. -/
def collectionPath (kind : Kind) (ns : String) : String :=
  let root := match kind with
    | .ingress => "/apis/"
    | _ => "/api/"
  root ++ kind.apiVersion ++ "/namespaces/" ++ ns ++ "/" ++ kind.plural

/-- A creation is posted to the collection and an update is put to the object, which must have a
name. -/
def of {α : Type} [Manifest α] (w : Write α) : Option Request := do
  let collection := collectionPath (Resource.kind α) (Resource.space w.object)
  let body := Manifest.document w.object
  match w.verb with
  | .create => return ⟨"POST", ← path? collection, body⟩
  | .update =>
    let name := Resource.title w.object
    guard (name ≠ "")
    return ⟨"PUT", ← path? (collection ++ "/" ++ name), body⟩

end Request

/-- What the server answers: nothing, or a status with a body. The body is missing when it is no
document. -/
inductive Response where
  | disconnected
  | answer (status : Nat) (body : Option Document)

namespace Response

/-- Whether a body can be an object of the kind: it may leave its kind out but not name another. -/
def fits (kind : Kind) (body : Document) : Bool :=
  match body with
  | .object fields =>
    let agrees (name expected : String) : Bool :=
      fields.all fun f => f.1 ≠ name || f.2.text? = some expected
    agrees "kind" kind.title && agrees "apiVersion" kind.apiVersion
  | _ => false

/-- Whether the answer says that an object of the kind was stored. -/
def isAccepted (kind : Kind) : Response → Bool
  | disconnected => false
  | answer status body => !(400 ≤ status && status < 600) && body.any (fits kind)

end Response

/-- Sends a write. `respond` is the server's answer to a request. -/
def Write.send {α : Type} [Manifest α] (w : Write α) (respond : Request → Response) :
    Except Error Unit × List Request :=
  match Request.of w with
  | none => (w.settle false, [])
  | some request => (w.settle ((respond request).isAccepted (Resource.kind α)), [request])

end IngressWatch
