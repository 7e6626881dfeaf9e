import IngressWatch.Remote.Write
import IngressWatch.Settings

/-!
# Challenge tokens

The tokens that answer ACME challenges are published in a config map with one entry per domain,
written `uri=token`.

* `Challenge.encode`, `Challenge.decode`: the entry of a domain.
* `Challenge.token`: the token of a domain at a uri.
* `Challenge.set`: the write that publishes a token, or removes the domain's entry.
-/

namespace IngressWatch

/-- A config map that holds nothing yet. -/
def ConfigMap.ofKey (key : Key) : ConfigMap := { metadata := .ofKey key }

namespace Challenge

def encode (uri token : String) : String := uri ++ "=" ++ token

/-- The rest of `s` after `start`. -/
def dropStart? : (start s : List Char) → Option (List Char)
  | [], s => some s
  | c :: start, d :: s => if c = d then dropStart? start s else none
  | _ :: _, [] => none

/-- The token of an entry for exactly this uri. -/
def decode (value uri : String) : Option String :=
  (dropStart? (uri.toList ++ ['=']) value.toList).map String.ofList

def token (tokens : Key) (configMaps : Mirror ConfigMap) (domain uri : String) : Option String := do
  let map ← configMaps.lookup tokens
  let value ← (← map.data).get? domain
  let token ← decode value uri
  if token = "" then none else some token

/-- The config map after a token was set; an empty one removes the entry. -/
def update (map : ConfigMap) (domain uri token : String) : ConfigMap :=
  let data := map.data.getD Dict.empty
  let changed := if token = "" then data.erase domain else data.insert domain (encode uri token)
  { map with data := some changed }

def set (tokens : Key) (configMaps : Mirror ConfigMap) (domain uri token : String) :
    Write ConfigMap :=
  let map := (configMaps.lookup tokens).getD (ConfigMap.ofKey tokens)
  Write.of configMaps (update map domain uri token)

end Challenge

end IngressWatch
