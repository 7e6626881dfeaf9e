import IngressWatch.Digest.Fingerprint
import IngressWatch.Files.Disk
import IngressWatch.Key

/-!
# The store of credential files

Credentials of secrets are written to files that the proxy reads. A file is named after its
secret, is replaced as a whole and only when its content changes, and goes when the secret goes.

* `CredentialStore.storeTls`, `storeCa`, `storeDh`: write the files of a secret.
* `CredentialStore.invalidate`: removes all files written for a key.
* `CredentialStore.written`: the index of paths by key.
-/

namespace IngressWatch

structure CredentialStore where
  directory : String
  /-- The paths written for each key since it was last invalidated. -/
  written : Table Key (List String) := {}
  disk : Disk
  /-- Tells contents apart. -/
  hash : Bytes → Bytes := sha256

namespace CredentialStore

/-- An operation that fails or answers, and changes the store either way. -/
abbrev Result (α : Type) := Except Error α × CredentialStore

def tlsPath (directory : String) (key : Key) : String :=
  Path.join directory (key.fileStem ++ ".pem")

def caPath (directory : String) (key : Key) : String :=
  Path.join (Path.join directory "ca") (key.fileStem ++ ".pem")

def crlPath (directory : String) (key : Key) : String :=
  Path.join (Path.join directory "ca") (key.fileStem ++ "-crl.pem")

def dhPath (directory : String) (key : Key) : String :=
  Path.join (Path.join directory "dhparam") (key.fileStem ++ ".pem")

/-- A certificate and its key in one text: the key starts on a line of its own. -/
def tlsContent (certificate key : Bytes) : Bytes :=
  certificate ++ (if certificate.getLast? = some 10 then [] else [10]) ++ key

/-- Notes that `path` was written for `key`. -/
def track (s : CredentialStore) (key : Key) (path : String) : CredentialStore :=
  let paths := (s.written.get? key).getD []
  { s with written := s.written.insert key (if path ∈ paths then paths else paths ++ [path]) }

/-- Whether two contents are the same, by their fingerprints. -/
def sameContent (s : CredentialStore) (a b : Bytes) : Bool :=
  fingerprint s.hash [a] == fingerprint s.hash [b]

/-- Writes a file unless it holds the content already, and tells whether it did. The file is
replaced as a whole, and it is noted for the key only when it is there. -/
def write (s : CredentialStore) (key : Key) (path : String) (content : Bytes) : Result Bool :=
  let (existing, disk) := s.disk.read path
  let s := { s with disk }
  if existing.any fun old => s.sameContent old content then (.ok false, s.track key path)
  else
    match s.disk.makeParents path with
    | (false, disk) => (.error .fileSystem, { s with disk })
    | (true, disk) =>
      match disk.replace path content with
      | (false, disk) => (.error .fileSystem, { s with disk })
      | (true, disk) => (.ok true, { s with disk }.track key path)

/-- Writes a file and answers its path. -/
def store (s : CredentialStore) (key : Key) (path : String) (content : Bytes) : Result String :=
  match s.write key path content with
  | (.ok _, s) => (.ok path, s)
  | (.error e, s) => (.error e, s)

def storeTls (s : CredentialStore) (key : Key) (certificate keyText : Bytes) : Result String :=
  s.store key (tlsPath s.directory key) (tlsContent certificate keyText)

/-- Writes a CA bundle and then its revocation list, if there is one. -/
def storeCa (s : CredentialStore) (key : Key) (ca : Bytes) (crl : Option Bytes) :
    Result (String × Option String) :=
  match s.store key (caPath s.directory key) ca, crl with
  | (.error e, s), _ => (.error e, s)
  | (.ok caPath, s), none => (.ok (caPath, none), s)
  | (.ok caPath, s), some crl =>
    match s.store key (crlPath s.directory key) crl with
    | (.error e, s) => (.error e, s)
    | (.ok path, s) => (.ok (caPath, some path), s)

def storeDh (s : CredentialStore) (key : Key) (parameters : Bytes) : Result String :=
  s.store key (dhPath s.directory key) parameters

/-- Removes all files written for a key and forgets them. -/
def invalidate (s : CredentialStore) (key : Key) : CredentialStore :=
  { s with
    written := s.written.erase key
    disk := ((s.written.get? key).getD []).foldl Disk.remove s.disk }

end CredentialStore

end IngressWatch
