import IngressWatch.Proofs.Tokens

/-!
# One entry for each domain

The tokens of all domains stand in one config map, which is read and written as a whole. To its
readers it is a map from domains to entries, and an entry is a uri, a sign and a token without any
quoting.

* `Challenge.token_eq_some_iff`: a token is read at every uri that its entry begins with.
* `Challenge.serial`: calls one after the other, with what the server stores reaching the mirror.
* `Challenge.serial_entries`: **the last call for a domain decides what is read for it**, and a
  domain without calls is left alone. Every call makes one write.
* `Challenge.token_elsewhere_iff`: the uris besides its own at which a token is read. An entry does
  not tell where its uri ends.
-/

namespace IngressWatch

open Resource

/-! ## What a key shows after a write -/

namespace Mirror

variable {α : Type} [Resource α] {m : Mirror α} {k : Key} {o base : α}

/-- What is put in place of the object that a key shows is shown by the key. -/
theorem get?_put_of_get? {id : Identifier} (hbase : m.get? id = some base)
    (hsame : identifier o = identifier base) : (m.put o).get? id = some o := by
  unfold get? at hbase ⊢
  rw [find?_put, find?_put]
  cases hexact : m.find? id with
  | some p =>
    rw [hexact, Option.some_or] at hbase
    obtain rfl := Option.some.inj hbase
    have hid : id = identifier o := by rw [hsame, identifier_of_find? hexact]
    rw [if_pos hid, Option.some_or]
  | none =>
    -- the object has no namespace, and still nothing is more exact
    rw [hexact, Option.none_or] at hbase
    have hid : { id with ns := none } = identifier o := by
      rw [hsame, identifier_of_find? hbase]
    rw [if_pos hid]
    split
    · rfl
    · rfl

/-- A new object that goes by the key is shown by it. -/
theorem lookup_put_of_identifier (hns : k.ns ≠ "") (ho : identifier o = k.identifier) :
    (m.put o).lookup k = some o := by
  have hid : (⟨some k.ns, k.name⟩ : Identifier) = identifier o := ho.symm
  unfold lookup get?
  rw [if_neg hns, find?_put, if_pos hid, Option.some_or]

/-- An object of its key's name that the key shows is shown by its own key too. -/
theorem isSome_lookup_key (hbase : m.lookup k = some base)
    (hname : (metadata base).name = some k.name) : (m.lookup (key base)).isSome := by
  have hkey : key base = ⟨(metadata base).ns.getD "", k.name⟩ := by
    simp [key, Metadata.key, Metadata.space, Metadata.title, hname]
  have hcases : identifier base = ⟨if k.ns = "" then none else some k.ns, k.name⟩ ∨
      identifier base = ⟨none, k.name⟩ := by
    unfold lookup get? at hbase
    rcases Option.or_eq_some_iff.1 hbase with h | ⟨-, h⟩
    · exact .inl (identifier_of_find? h)
    · exact .inr (identifier_of_find? h)
  have hfound : m.find? (identifier base) = some base := by
    unfold lookup get? at hbase
    rcases Option.or_eq_some_iff.1 hbase with h | ⟨-, h⟩
    · rwa [identifier_of_find? h]
    · rwa [identifier_of_find? h]
  -- its key leads to its identifier again, as no key shows an empty namespace
  have hid : (⟨if (key base).ns = "" then none else some (key base).ns, (key base).name⟩ :
      Identifier) = identifier base := by
    have hns : (metadata base).ns = (identifier base).ns := rfl
    rw [hkey, hns]
    rcases hcases with h | h
    · rw [h]
      by_cases hempty : k.ns = ""
      · simp [hempty]
      · simp [hempty]
    · rw [h]
      rfl
  unfold lookup get?
  rw [hid, hfound]
  rfl

end Mirror

namespace Challenge

/-! ## Reading an entry -/

theorem toList_encode (uri token : String) :
    (encode uri token).toList = uri.toList ++ '=' :: token.toList := by
  simp [encode, String.toList_append]

theorem dropStart?_eq_some_iff {start s rest : List Char} :
    dropStart? start s = some rest ↔ s = start ++ rest := by
  induction start generalizing s with
  | nil =>
    show some s = some rest ↔ s = rest
    rw [Option.some_inj]
  | cons c start ih =>
    cases s with
    | nil => simp [dropStart?]
    | cons d s =>
      unfold dropStart?
      by_cases h : c = d
      · subst h
        rw [if_pos rfl, ih, List.cons_append, List.cons_inj_right]
      · simp [h, Ne.symm h]

/-- **An entry is read at a uri** exactly if it could have been written for it. -/
theorem decode_eq_some_iff {value uri token : String} :
    decode value uri = some token ↔ value = encode uri token := by
  have hwritten : ∀ rest, value.toList = uri.toList ++ ['='] ++ rest ↔
      value = encode uri (String.ofList rest) := by
    intro rest
    rw [← String.toList_inj, toList_encode, String.toList_ofList, List.append_assoc]
    rfl
  unfold decode
  constructor
  · intro h
    obtain ⟨rest, hrest, rfl⟩ := Option.map_eq_some_iff.1 h
    exact (hwritten rest).1 (dropStart?_eq_some_iff.1 hrest)
  · intro h
    refine Option.map_eq_some_iff.2 ⟨token.toList, ?_, String.ofList_toList⟩
    refine dropStart?_eq_some_iff.2 ((hwritten token.toList).2 ?_)
    rw [String.ofList_toList]
    exact h

/-- The token that an entry answers at a uri. An empty one counts as none. -/
def served (uri value : String) : Option String :=
  (decode value uri).bind fun token => if token = "" then none else some token

theorem served_eq_some_iff {uri value token : String} :
    served uri value = some token ↔ token ≠ "" ∧ value = encode uri token := by
  unfold served
  constructor
  · intro h
    obtain ⟨found, hfound, hanswer⟩ := Option.bind_eq_some_iff.1 h
    split at hanswer
    · cases hanswer
    · rename_i hne
      obtain rfl := Option.some.inj hanswer
      exact ⟨hne, decode_eq_some_iff.1 hfound⟩
  · rintro ⟨hne, hvalue⟩
    rw [decode_eq_some_iff.2 hvalue, Option.bind_some, if_neg hne]

/-- A token depends on the entry of its domain only. -/
theorem token_eq (tokens : Key) (m : Mirror ConfigMap) (domain uri : String) :
    token tokens m domain uri = (entryOf (m.lookup tokens) domain).bind (served uri) := by
  unfold token entryOf
  cases m.lookup tokens with
  | none => rfl
  | some map =>
    simp only [Option.bind_eq_bind, Option.bind_some]
    cases map.data with
    | none => rfl
    | some data => rfl

theorem token_eq_some_iff {tokens : Key} {m : Mirror ConfigMap} {domain uri answer : String} :
    token tokens m domain uri = some answer ↔
      answer ≠ "" ∧ entryOf (m.lookup tokens) domain = some (encode uri answer) := by
  rw [token_eq, Option.bind_eq_some_iff]
  constructor
  · rintro ⟨value, hvalue, hserved⟩
    obtain ⟨hne, rfl⟩ := served_eq_some_iff.1 hserved
    exact ⟨hne, hvalue⟩
  · rintro ⟨hne, hvalue⟩
    exact ⟨_, hvalue, served_eq_some_iff.2 ⟨hne, rfl⟩⟩

/-! ## One call -/

/-- What a server may make of a config map that it stores. It keeps what the config map is called
and its data. -/
structure Stamp where
  apply : ConfigMap → ConfigMap
  ns_apply : ∀ m, (apply m).metadata.ns = m.metadata.ns
  name_apply : ∀ m, (apply m).metadata.name = m.metadata.name
  data_apply : ∀ m, (apply m).data = m.data

/-- The server stores the config map under a version. -/
def Stamp.version (v : String) : Stamp where
  apply m := { m with metadata := { m.metadata with resourceVersion := some v } }
  ns_apply _ := rfl
  name_apply _ := rfl
  data_apply _ := rfl

theorem Stamp.identifier_apply (stamp : Stamp) (m : ConfigMap) :
    identifier (stamp.apply m) = identifier m := by
  show (stamp.apply m).metadata.identifier = m.metadata.identifier
  rw [Metadata.identifier, stamp.ns_apply, stamp.name_apply, Metadata.identifier]

/-- The write of a call. -/
def Call.write (c : Call) (tokens : Key) (m : Mirror ConfigMap) : Write ConfigMap :=
  Challenge.set tokens m c.domain c.uri c.token

/-- The mirror when it shows what the server has made of the write. -/
def Call.settle (c : Call) (stamp : Stamp) (tokens : Key) (m : Mirror ConfigMap) :
    Mirror ConfigMap :=
  m.put (stamp.apply (c.write tokens m).object)

/-- What the mirror shows for the key, if anything, has the key's name. -/
def IsShown (tokens : Key) (m : Mirror ConfigMap) : Prop :=
  ∀ map, m.lookup tokens = some map → map.metadata.name = some tokens.name

variable {tokens : Key} {m m' : Mirror ConfigMap}

/-- This is so of every key with a name: only what has no name can be shown for an empty one. -/
theorem isShown_of_ne (hname : tokens.name ≠ "") (m : Mirror ConfigMap) : IsShown tokens m := by
  intro map hmap
  have hid : (identifier map).name = tokens.name := by
    unfold Mirror.lookup Mirror.get? at hmap
    rcases Option.or_eq_some_iff.1 hmap with h | ⟨-, h⟩
    · rw [Mirror.identifier_of_find? h]
    · rw [Mirror.identifier_of_find? h]
  have htitle : map.metadata.name.getD "" = tokens.name := hid
  cases hshown : map.metadata.name with
  | none =>
    rw [hshown, Option.getD_none] at htitle
    exact absurd htitle.symm hname
  | some name =>
    rw [hshown, Option.getD_some] at htitle
    rw [htitle]

theorem Call.object_write (c : Call) (tokens : Key) (m : Mirror ConfigMap) :
    some (c.write tokens m).object = publish tokens (m.lookup tokens) c := rfl

/-- **A call creates the config map** exactly if the mirror does not show it. -/
theorem Call.verb_write (hshown : IsShown tokens m) (c : Call) :
    (c.write tokens m).verb = .create ↔ m.lookup tokens = none := by
  have hverb : (c.write tokens m).verb =
      if (m.lookup (key ((m.lookup tokens).getD (.ofKey tokens)))).isSome then .update
      else .create := rfl
  rw [hverb]
  cases hmap : m.lookup tokens with
  | none =>
    have hkey : m.lookup (key (ConfigMap.ofKey tokens)) = none := hmap
    rw [Option.getD_none, hkey]
    simp
  | some map =>
    -- the write asks for the config map by its own key, and finds it
    have hfound := Mirror.isSome_lookup_key hmap (hshown map hmap)
    rw [Option.getD_some, hfound]
    simp

/-- **The mirror shows what was written.** -/
theorem Call.lookup_settle (hns : tokens.ns ≠ "") (c : Call) (stamp : Stamp)
    (m : Mirror ConfigMap) :
    (c.settle stamp tokens m).lookup tokens = some (stamp.apply (c.write tokens m).object) := by
  have hstored : identifier (stamp.apply (c.write tokens m).object) =
      identifier ((m.lookup tokens).getD (.ofKey tokens)) := stamp.identifier_apply _
  unfold settle
  cases hmap : m.lookup tokens with
  | none =>
    rw [hmap, Option.getD_none] at hstored
    exact Mirror.lookup_put_of_identifier hns hstored
  | some map =>
    rw [hmap, Option.getD_some] at hstored
    exact Mirror.get?_put_of_get? hmap hstored

theorem Call.isShown_settle (hns : tokens.ns ≠ "") (hshown : IsShown tokens m) (c : Call)
    (stamp : Stamp) : IsShown tokens (c.settle stamp tokens m) := by
  intro map hmap
  rw [c.lookup_settle hns] at hmap
  obtain rfl := Option.some.inj hmap
  rw [stamp.name_apply]
  show ((m.lookup tokens).getD (.ofKey tokens)).metadata.name = _
  cases hbase : m.lookup tokens with
  | none => rfl
  | some base => exact hshown base hbase

/-- **The entries after a call** that the mirror shows: its domain has the one that it leaves. -/
theorem Call.entryOf_shown {c : Call} {stamp : Stamp}
    (hshown : m'.lookup tokens = some (stamp.apply (c.write tokens m).object)) (domain : String) :
    entryOf (m'.lookup tokens) domain =
      if domain = c.domain then c.entry else entryOf (m.lookup tokens) domain := by
  rw [← entryOf_publish tokens, ← c.object_write, hshown]
  unfold entryOf
  rw [Option.bind_some, Option.bind_some, stamp.data_apply]

theorem token_shown_of_ne {c : Call} {stamp : Stamp} {domain : String}
    (hshown : m'.lookup tokens = some (stamp.apply (c.write tokens m).object))
    (hne : domain ≠ c.domain) (uri : String) :
    token tokens m' domain uri = token tokens m domain uri := by
  rw [token_eq, Call.entryOf_shown hshown, if_neg hne, ← token_eq]

/-- **What is read for the domain of a call**: its token, where its entry begins with the uri. -/
theorem token_shown_eq_some_iff {c : Call} {stamp : Stamp} {uri answer : String}
    (hshown : m'.lookup tokens = some (stamp.apply (c.write tokens m).object)) :
    token tokens m' c.domain uri = some answer ↔
      c.token ≠ "" ∧ answer ≠ "" ∧ encode c.uri c.token = encode uri answer := by
  rw [token_eq_some_iff, Call.entryOf_shown hshown, if_pos rfl, Call.entry]
  by_cases htoken : c.token = ""
  · simp [htoken]
  · simp [htoken]

/-! ## Calls one after the other -/

/-- Calls one after the other, each with what the server makes of its write. Every write succeeds
and is shown by the mirror before the next call. -/
def serial (tokens : Key) (m : Mirror ConfigMap) :
    List (Call × Stamp) → List (Write ConfigMap) × Mirror ConfigMap
  | [] => ([], m)
  | (c, stamp) :: rest =>
    let (later, last) := serial tokens (c.settle stamp tokens m) rest
    (c.write tokens m :: later, last)

theorem serial_cons (tokens : Key) (m : Mirror ConfigMap) (c : Call × Stamp)
    (rest : List (Call × Stamp)) :
    serial tokens m (c :: rest) =
      (c.1.write tokens m :: (serial tokens (c.1.settle c.2 tokens m) rest).1,
        (serial tokens (c.1.settle c.2 tokens m) rest).2) := rfl

theorem serial_append (tokens : Key) (m : Mirror ConfigMap) (first rest : List (Call × Stamp)) :
    serial tokens m (first ++ rest) =
      ((serial tokens m first).1 ++ (serial tokens (serial tokens m first).2 rest).1,
        (serial tokens (serial tokens m first).2 rest).2) := by
  induction first generalizing m with
  | nil => rfl
  | cons c first ih =>
    rw [List.cons_append, serial_cons, serial_cons, ih]
    rfl

theorem length_serial (tokens : Key) (m : Mirror ConfigMap) (calls : List (Call × Stamp)) :
    (serial tokens m calls).1.length = calls.length := by
  induction calls generalizing m with
  | nil => rfl
  | cons c rest ih => rw [serial_cons, List.length_cons, ih, List.length_cons]

theorem isShown_serial (hns : tokens.ns ≠ "") (hshown : IsShown tokens m)
    (calls : List (Call × Stamp)) : IsShown tokens (serial tokens m calls).2 := by
  induction calls generalizing m with
  | nil => exact hshown
  | cons c rest ih => exact ih (c.1.isShown_settle hns hshown c.2)

/-- Calls for other domains leave what is read for a domain alone. -/
theorem token_serial_of_ne (hns : tokens.ns ≠ "") {domain : String} {calls : List (Call × Stamp)}
    (hne : ∀ c ∈ calls, c.1.domain ≠ domain) (m : Mirror ConfigMap) (uri : String) :
    token tokens (serial tokens m calls).2 domain uri = token tokens m domain uri := by
  induction calls generalizing m with
  | nil => rfl
  | cons c rest ih =>
    have hfirst := c.1.lookup_settle hns c.2 m
    have hother : domain ≠ c.1.domain := (hne c List.mem_cons_self).symm
    have hrest : ∀ d ∈ rest, d.1.domain ≠ domain := fun d hd =>
      hne d (List.mem_cons_of_mem c hd)
    rw [serial_cons, ih hrest, token_shown_of_ne hfirst hother]

/-- **One entry for each domain.** Calls are made one after the other, from any config map or none,
and the mirror shows each write before the next call. For a domain with calls, the last of them
decides: its token is read at its uri, or nothing at any uri if it removed the entry. For a domain
without calls all is read as before. Every call makes one write, which creates the config map
exactly if the mirror does not show it. -/
theorem serial_entries (hns : tokens.ns ≠ "") (hshown : IsShown tokens m)
    (calls : List (Call × Stamp)) :
    let run := serial tokens m calls
    (∀ before c after, calls = before ++ c :: after → (∀ d ∈ after, d.1.domain ≠ c.1.domain) →
      (c.1.token ≠ "" → token tokens run.2 c.1.domain c.1.uri = some c.1.token) ∧
        (c.1.token = "" → ∀ uri, token tokens run.2 c.1.domain uri = none)) ∧
      (∀ domain, (∀ c ∈ calls, c.1.domain ≠ domain) →
        ∀ uri, token tokens run.2 domain uri = token tokens m domain uri) ∧
      run.1.length = calls.length ∧
      ∀ before c after, calls = before ++ c :: after →
        ∃ write, run.1[before.length]? = some write ∧
          (write.verb = .create ↔ (serial tokens m before).2.lookup tokens = none) := by
  intro run
  have hsplit : ∀ before c after, calls = before ++ c :: after →
      run = ((serial tokens m before).1 ++ c.1.write tokens (serial tokens m before).2 ::
          (serial tokens (c.1.settle c.2 tokens (serial tokens m before).2) after).1,
        (serial tokens (c.1.settle c.2 tokens (serial tokens m before).2) after).2) := by
    intro before c after hcalls
    show serial tokens m calls = _
    rw [hcalls, serial_append, serial_cons]
  refine ⟨fun before c after hcalls hlast => ?_, fun domain hne uri => ?_, ?_, ?_⟩
  · have hcall := c.1.lookup_settle hns c.2 (serial tokens m before).2
    -- what follows leaves the domain alone
    have hread : ∀ uri, token tokens run.2 c.1.domain uri =
        token tokens (c.1.settle c.2 tokens (serial tokens m before).2) c.1.domain uri := by
      intro uri
      rw [hsplit before c after hcalls]
      exact token_serial_of_ne hns hlast _ uri
    constructor
    · intro htoken
      rw [hread]
      exact (token_shown_eq_some_iff hcall).2 ⟨htoken, htoken, rfl⟩
    · intro htoken uri
      rw [hread, Option.eq_none_iff_forall_ne_some]
      intro answer hanswer
      exact ((token_shown_eq_some_iff hcall).1 hanswer).1 htoken
  · exact token_serial_of_ne hns hne m uri
  · exact length_serial tokens m calls
  · intro before c after hcalls
    refine ⟨c.1.write tokens (serial tokens m before).2, ?_,
      c.1.verb_write (isShown_serial hns hshown before)⟩
    rw [hsplit before c after hcalls, ← length_serial tokens m before,
      List.getElem?_append_right (Nat.le_refl _), Nat.sub_self, List.getElem?_cons_zero]

/-- Two calls for a domain without an entry, the second with an empty uri and a sign in its
token. -/
def signedCalls : List (Call × Stamp) :=
  [(⟨"b.test", "/first", "y"⟩, .version "8"), (⟨"b.test", "", "y=z"⟩, .version "9")]

/-- The second call is read whole, and the entry of the other domain is as it was. -/
theorem serial_entries_signed :
    listedSetup.tokens.ns ≠ "" ∧ IsShown listedSetup.tokens listedServer ∧
      token listedSetup.tokens (serial listedSetup.tokens listedServer signedCalls).2 "b.test" "" =
        some "y=z" ∧
      token listedSetup.tokens (serial listedSetup.tokens listedServer signedCalls).2 "a.test"
        "/old" = some "x" := by
  have hns : listedSetup.tokens.ns ≠ "" := by decide
  have hshown : IsShown listedSetup.tokens listedServer := isShown_of_ne (by decide) listedServer
  obtain ⟨hlast, hother, -⟩ := serial_entries hns hshown signedCalls
  refine ⟨hns, hshown, (hlast [_] _ [] rfl (by decide)).1 (by decide), ?_⟩
  have hstart : token listedSetup.tokens listedServer "a.test" "/old" = some "x" := by
    decide +kernel
  rw [← hstart]
  exact hother "a.test" (by decide) "/old"

/-! ## Other uris -/

/-- **Two ways to read an entry.** One uri is longer than the other by a sign and the start of
what follows it. -/
theorem encode_eq_iff_of_ne {uri uri' t t' : String} (hne : uri' ≠ uri) :
    encode uri t = encode uri' t' ↔
      (∃ x, uri = encode uri' x ∧ t' = encode x t) ∨
        ∃ x, uri' = encode uri x ∧ t = encode x t' := by
  have hlists : ∀ {u v s r : List Char}, u ++ '=' :: s = v ++ '=' :: r → u ≠ v →
      (∃ x, u = v ++ '=' :: x ∧ r = x ++ '=' :: s) ∨
        ∃ x, v = u ++ '=' :: x ∧ s = x ++ '=' :: r := by
    intro u v s r h huv
    rcases List.append_eq_append_iff.1 h with ⟨x, hv, hs⟩ | ⟨x, hu, hr⟩
    · -- the second uri is the longer one
      cases x with
      | nil => exact absurd (by rw [hv, List.append_nil]) huv
      | cons c x =>
        obtain ⟨rfl, hrest⟩ := List.cons.inj hs
        exact .inr ⟨x, hv, hrest⟩
    · cases x with
      | nil => exact absurd (by rw [hu, List.append_nil]) huv
      | cons c x =>
        obtain ⟨rfl, hrest⟩ := List.cons.inj hr
        exact .inl ⟨x, hu, hrest⟩
  constructor
  · intro h
    have htext := congrArg String.toList h
    rw [toList_encode, toList_encode] at htext
    have huris : uri.toList ≠ uri'.toList := fun hc => hne (String.toList_injective hc).symm
    have hback : ∀ {a b : String} {x : List Char}, a.toList = b.toList ++ '=' :: x →
        a = encode b (String.ofList x) := fun ha =>
      String.toList_injective (by rw [ha, toList_encode, String.toList_ofList])
    have hback' : ∀ {a b : String} {x : List Char}, a.toList = x ++ '=' :: b.toList →
        a = encode (String.ofList x) b := fun ha =>
      String.toList_injective (by rw [ha, toList_encode, String.toList_ofList])
    rcases hlists htext huris with ⟨x, hu, ht⟩ | ⟨x, hu, ht⟩
    · exact .inl ⟨_, hback hu, hback' ht⟩
    · exact .inr ⟨_, hback hu, hback' ht⟩
  · have hassoc : ∀ a b c : String, encode (encode a b) c = encode a (encode b c) := by
      intro a b c
      simp [encode, String.append_assoc]
    rintro (⟨x, rfl, rfl⟩ | ⟨x, rfl, rfl⟩)
    · exact hassoc _ _ _
    · exact (hassoc _ _ _).symm

/-- **Where a token is read besides its own uri**, once the mirror shows the call: at a uri from
which the uri of the call goes on with a sign, and at one that goes on from it with a sign and a
start of the token. So no token is read at another uri where neither uri has a sign in it. -/
theorem token_elsewhere_iff {c : Call} {stamp : Stamp}
    (hshown : m'.lookup tokens = some (stamp.apply (c.write tokens m).object)) {uri : String}
    (hne : uri ≠ c.uri) :
    (∀ answer, token tokens m' c.domain uri = some answer ↔
      c.token ≠ "" ∧ ((∃ x, c.uri = encode uri x ∧ answer = encode x c.token) ∨
        answer ≠ "" ∧ ∃ x, uri = encode c.uri x ∧ c.token = encode x answer)) ∧
      ('=' ∉ c.uri.toList → '=' ∉ uri.toList → token tokens m' c.domain uri = none) := by
  have hfilled : ∀ x t : String, encode x t ≠ "" := by
    intro x t h
    have htext := congrArg String.toList h
    rw [toList_encode] at htext
    simp at htext
  have hread : ∀ answer, token tokens m' c.domain uri = some answer ↔
      c.token ≠ "" ∧ ((∃ x, c.uri = encode uri x ∧ answer = encode x c.token) ∨
        answer ≠ "" ∧ ∃ x, uri = encode c.uri x ∧ c.token = encode x answer) := by
    intro answer
    rw [token_shown_eq_some_iff hshown, encode_eq_iff_of_ne hne]
    constructor
    · rintro ⟨htoken, hanswer, h | h⟩
      · exact ⟨htoken, .inl h⟩
      · exact ⟨htoken, .inr ⟨hanswer, h⟩⟩
    · rintro ⟨htoken, ⟨x, huri, rfl⟩ | ⟨hanswer, h⟩⟩
      · exact ⟨htoken, hfilled x c.token, .inl ⟨x, huri, rfl⟩⟩
      · exact ⟨htoken, hanswer, .inr h⟩
  refine ⟨hread, fun hown hother => ?_⟩
  -- either way one uri is an encoding itself, and has a sign
  have hsign : ∀ x t : String, '=' ∈ (encode x t).toList := by
    intro x t
    rw [toList_encode]
    simp
  rw [Option.eq_none_iff_forall_ne_some]
  intro answer hanswer
  obtain ⟨-, ⟨x, huri, -⟩ | ⟨-, x, huri, -⟩⟩ := (hread answer).1 hanswer
  · rw [huri] at hown
    exact hown (hsign _ _)
  · rw [huri] at hother
    exact hother (hsign _ _)

/-- A call with a sign in its token. -/
def signedCall : Call := ⟨"a.test", "/acme/x", "a=b"⟩

theorem lookup_signed :
    (signedCall.settle (.version "1") listedSetup.tokens ∅).lookup listedSetup.tokens =
      some ((Stamp.version "1").apply (signedCall.write listedSetup.tokens ∅).object) :=
  signedCall.lookup_settle (by decide) _ _

/-- The rest of its token is read at a uri that nobody has published. -/
theorem token_elsewhere_signed :
    "/acme/x=a" ≠ signedCall.uri ∧
      token listedSetup.tokens (signedCall.settle (.version "1") listedSetup.tokens ∅) "a.test"
        "/acme/x=a" = some "b" := by
  have hne : "/acme/x=a" ≠ signedCall.uri := by decide
  have hread := (token_elsewhere_iff lookup_signed hne).1 "b"
  have hrest : "/acme/x=a" = encode signedCall.uri "a" ∧ signedCall.token = encode "a" "b" := by
    decide
  exact ⟨hne, hread.2 ⟨by decide, .inr ⟨by decide, "a", hrest⟩⟩⟩

/-- So a token need not be kept to its own uri. -/
theorem not_own_uri :
    ¬ ∀ (tokens : Key) (m m' : Mirror ConfigMap) (c : Call) (stamp : Stamp) (uri : String),
      m'.lookup tokens = some (stamp.apply (c.write tokens m).object) → uri ≠ c.uri →
        token tokens m' c.domain uri = none := by
  intro h
  have hnone := h _ _ _ _ _ "/acme/x=a" lookup_signed (by decide)
  have hread : token listedSetup.tokens
      (signedCall.settle (.version "1") listedSetup.tokens ∅) "a.test" "/acme/x=a" = some "b" := by
    decide +kernel
  rw [show signedCall.domain = "a.test" from rfl, hread] at hnone
  cases hnone

end Challenge

end IngressWatch
