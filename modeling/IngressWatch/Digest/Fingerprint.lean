import IngressWatch.Digest.Sha2

/-!
# Fingerprints

A fingerprint identifies a list of byte strings. Each part is hashed behind its length, so that no
two lists give the hash the same bytes.

* `framed`: the parts, each behind its length in eight bytes.
* `fingerprint`: the hexadecimal digest of the framed parts, for any hash function.
-/

namespace IngressWatch

/-- Each part behind its length. -/
def framed (parts : List Bytes) : Bytes := parts.flatMap fun p => Bytes.ofNat 8 p.length ++ p

def fingerprint (hash : Bytes → Bytes) (parts : List Bytes) : String := Bytes.toHex (hash (framed parts))

end IngressWatch
