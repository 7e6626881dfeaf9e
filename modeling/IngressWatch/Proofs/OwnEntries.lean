import IngressWatch.Acme.Issued
import IngressWatch.Proofs.Tokens
import IngressWatch.Remote.Request

/-!
# Writes to shared objects

The account key, issued certificates and challenge tokens are kept in objects that may hold other
things as well. A write replaces the whole object, so it has to bring along all that it does not
change.

* `Secret.Edits`, `ConfigMap.Edits`: an object with some entries in place of those of another, and
  otherwise the same.
* `Signer.edits_withKey`, `Issued.edits_update`, `Challenge.edits_update`: what each write changes.
* `Signer.call_of_corrupt`: a key that can not be read is not replaced.
* `Write.requests_send`: a write makes one request at most, with the object as its body.
* `own_entries`: **no write touches more than its own entries.**
-/

namespace IngressWatch

/-! ## What a write changes -/

/-- **A secret with some entries set**, for some purpose. All else in it is that of `base`. -/
structure Secret.Edits (changes : List (String × Bytes)) (purpose : Option String)
    (base written : Secret) : Prop where
  metadata : written.metadata = base.metadata
  purpose : written.purpose = purpose
  carried : written.carried = base.carried
  entries : ∀ name, written.value? name = (changes.lookup name).or (base.value? name)

/-- **A config map with one entry set or removed.** All else in it is that of `base`. -/
structure ConfigMap.Edits (domain : String) (entry : Option String) (base written : ConfigMap) :
    Prop where
  metadata : written.metadata = base.metadata
  carried : written.carried = base.carried
  entries : ∀ name, Challenge.entryOf (some written) name =
    if name = domain then entry else Challenge.entryOf (some base) name

/-- What a key refers to, or else an object with nothing but the key's namespace and name. -/
def Mirror.baseSecret (secrets : Mirror Secret) (key : Key) : Secret :=
  (secrets.lookup key).getD { metadata := { ns := some key.ns, name := some key.name } }

def Mirror.baseConfigMap (configMaps : Mirror ConfigMap) (key : Key) : ConfigMap :=
  (configMaps.lookup key).getD { metadata := { ns := some key.ns, name := some key.name } }

namespace Secret.Edits

variable {changes changes' : List (String × Bytes)} {purpose purpose' : Option String}
  {s s' s'' : Secret}

theorem setEntry (s : Secret) (name : String) (content : Bytes) :
    Edits [(name, content)] s.purpose s (s.setEntry name content) where
  metadata := rfl
  purpose := rfl
  carried := rfl
  entries other := by
    rw [Secret.value?_setEntry]
    by_cases h : other = name
    · subst h
      rw [if_pos rfl, List.lookup_cons_self, Option.some_or]
    · rw [if_neg h, List.lookup_cons, beq_false_of_ne h]
      rfl

/-- Later changes go before earlier ones. -/
theorem trans (h : Edits changes purpose s s') (h' : Edits changes' purpose' s' s'') :
    Edits (changes' ++ changes) purpose' s s'' where
  metadata := h'.metadata.trans h.metadata
  purpose := h'.purpose
  carried := h'.carried.trans h.carried
  entries name := by rw [h'.entries, h.entries, List.lookup_append, Option.or_assoc]

end Secret.Edits

/-- **A pair** is put in, and the purpose is that of TLS secrets. -/
theorem Issued.edits_update (s : Secret) (certificate keyText : Bytes) :
    Secret.Edits [(Entry.tlsKey, keyText), (Entry.tlsCertificate, certificate)]
      (some tlsSecretType) s (update s certificate keyText) :=
  have hentries := (Secret.Edits.setEntry s Entry.tlsCertificate certificate).trans
    (.setEntry _ Entry.tlsKey keyText)
  ⟨hentries.metadata, rfl, hentries.carried, hentries.entries⟩

/-- **An entry** is set, or removed with an empty token. -/
theorem Challenge.edits_update (map : ConfigMap) (domain uri token : String) :
    ConfigMap.Edits domain (if token = "" then none else some (encode uri token)) map
      (update map domain uri token) where
  metadata := rfl
  carried := rfl
  entries := entryOf_publish (.mk "" "") (some map) ⟨domain, uri, token⟩

/-! ## The signer -/

namespace Signer

variable {κ : Type} {codec : KeyCodec κ} {account : Key} {secrets : Mirror Secret}
  {cached : Option κ}

theorem value?_baseSecret (secrets : Mirror Secret) (key : Key) (name : String) :
    (secrets.baseSecret key).value? name = (secrets.lookup key).bind (·.value? name) := by
  unfold Mirror.baseSecret
  cases secrets.lookup key <;> rfl

/-- **A key is generated** exactly if the secret has none and none is known. -/
theorem plan_eq_generate_iff {existing : Option Secret} :
    plan codec account secrets cached = .generate existing ↔
      existing = secrets.lookup account ∧
        (secrets.baseSecret account).value? Entry.tlsKey = none ∧ cached = none := by
  rw [value?_baseSecret]
  unfold plan
  dsimp only
  split
  · rename_i text _ htext
    rw [htext]
    split <;> simp
  · simp
  · rename_i htext
    rw [htext]
    simp [eq_comm]

/-- **A call writes** exactly if it has generated a key. -/
theorem write_call_eq_some_iff {fresh : κ} {accepts : Write Secret → Bool} {write : Write Secret} :
    (call codec account secrets cached fresh accepts).write = some write ↔
      ∃ existing, plan codec account secrets cached = .generate existing ∧
        write = Write.of secrets (withKey codec account existing fresh) := by
  unfold call
  split
  · rename_i hplan
    rw [hplan]
    exact ⟨nofun, fun ⟨_, h, _⟩ => nomatch h⟩
  · rename_i existing hplan
    rw [hplan]
    constructor
    · intro h
      exact ⟨existing, rfl, (Option.some.inj h).symm⟩
    · rintro ⟨existing', h, rfl⟩
      obtain rfl := Plan.generate.inj h
      rfl

theorem edits_withKey (account : Key) (fresh : κ) :
    Secret.Edits [(Entry.tlsKey, codec.encode fresh)] (secrets.baseSecret account).purpose
      (secrets.baseSecret account)
      (withKey codec account (secrets.lookup account) fresh) :=
  .setEntry _ _ _

/-- **A key that can not be read** is an error, and nothing else happens. -/
theorem call_of_corrupt {text : Bytes} {cause : Malformed}
    (htext : (secrets.baseSecret account).value? Entry.tlsKey = some text)
    (hcorrupt : codec.decode text = .error cause) (cached : Option κ) (fresh : κ)
    (accepts : Write Secret → Bool) :
    call codec account secrets cached fresh accepts =
      ⟨.error (.malformed cause), none, cached⟩ := by
  have hplan : plan codec account secrets cached =
      .answer (.error (.malformed cause)) cached := by
    rw [value?_baseSecret] at htext
    unfold plan
    simp only [htext, hcorrupt]
  rw [call, hplan]

end Signer

/-! ## Requests -/

theorem Write.requests_send {α : Type} [Manifest α] (w : Write α) (respond : Request → Response) :
    (w.send respond).2.length ≤ 1 ∧
      ∀ request ∈ (w.send respond).2, request.body = Manifest.document w.object := by
  have hbody : ∀ request, Request.of w = some request →
      request.body = Manifest.document w.object := by
    intro request h
    unfold Request.of at h
    dsimp only at h
    split at h
    · obtain ⟨path, -, h⟩ := Option.bind_eq_some_iff.1 h
      exact (congrArg Request.body (Option.some.inj h)).symm
    · obtain ⟨-, -, h⟩ := Option.bind_eq_some_iff.1 h
      obtain ⟨path, -, h⟩ := Option.bind_eq_some_iff.1 h
      exact (congrArg Request.body (Option.some.inj h)).symm
  unfold send
  split
  · exact ⟨Nat.zero_le 1, List.forall_mem_nil _⟩
  · rename_i request hrequest
    exact ⟨Nat.le_refl 1, List.forall_mem_singleton.2 (hbody request hrequest)⟩

/-- **No write touches more than its own entries.** Each of the three calls writes what the mirror
shows for its key, or an object with nothing but the namespace and the name of the key. There are
only these differences. The signer adds a key, and does so exactly if the secret has no key and none
is known. A pair is put in with the purpose of TLS secrets. A token is set in the entry of its
domain, or that is removed. All other entries, the metadata with labels, annotations and version,
and all fields that are only carried along are kept, also if the mirror has moved when a key has
been generated. A write makes one request at most, and its body is that object. A key that the
mirror shows but that can not be read is an error, whatever key is known. Nothing is written then
and nothing forgotten. -/
theorem own_entries {κ : Type} (codec : KeyCodec κ) (secrets : Mirror Secret)
    (configMaps : Mirror ConfigMap) :
    (∀ (account : Key) (cached : Option κ) (fresh : κ) (accepts : Write Secret → Bool),
      let base := secrets.baseSecret account
      let call := Signer.call codec account secrets cached fresh accepts
      let edits := Secret.Edits [(Entry.tlsKey, codec.encode fresh)] base.purpose base
      (call.write.isSome ↔ base.value? Entry.tlsKey = none ∧ cached = none) ∧
      (∀ write, call.write = some write → edits write.object) ∧
      (∀ existing later, Signer.plan codec account secrets cached = .generate existing →
        edits (Write.of later (Signer.withKey codec account existing fresh)).object) ∧
      ∀ text cause, base.value? Entry.tlsKey = some text → codec.decode text = .error cause →
        call.result = .error (.malformed cause) ∧ call.write = none ∧ call.cached = cached) ∧
    (∀ key certificate keyText,
      Secret.Edits [(Entry.tlsKey, keyText), (Entry.tlsCertificate, certificate)]
        (some tlsSecretType) (secrets.baseSecret key)
        (Issued.store secrets key certificate keyText).object) ∧
    (∀ tokens domain uri token,
      ConfigMap.Edits domain (if token = "" then none else some (Challenge.encode uri token))
        (configMaps.baseConfigMap tokens)
        (Challenge.set tokens configMaps domain uri token).object) ∧
    ∀ (α : Type) [Manifest α] (write : Write α) (respond : Request → Response),
      (write.send respond).2.length ≤ 1 ∧
        ∀ request ∈ (write.send respond).2, request.body = Manifest.document write.object := by
  refine ⟨?_, fun key certificate keyText => Issued.edits_update _ certificate keyText,
    fun tokens domain uri token => Challenge.edits_update _ domain uri token,
    fun α _ write respond => write.requests_send respond⟩
  intro account cached fresh accepts base call edits
  have hlater : ∀ existing later, Signer.plan codec account secrets cached = .generate existing →
      edits (Write.of later (Signer.withKey codec account existing fresh)).object := by
    intro existing later hplan
    obtain ⟨rfl, -⟩ := Signer.plan_eq_generate_iff.1 hplan
    exact Signer.edits_withKey account fresh
  refine ⟨?_, fun write hwrite => ?_, hlater, fun text cause htext hcorrupt => ?_⟩
  · rw [Option.isSome_iff_exists]
    constructor
    · rintro ⟨write, hwrite⟩
      obtain ⟨existing, hplan, -⟩ := Signer.write_call_eq_some_iff.1 hwrite
      exact (Signer.plan_eq_generate_iff.1 hplan).2
    · intro hfree
      have hplan : Signer.plan codec account secrets cached = .generate _ :=
        Signer.plan_eq_generate_iff.2 ⟨rfl, hfree⟩
      exact ⟨_, Signer.write_call_eq_some_iff.2 ⟨_, hplan, rfl⟩⟩
  · obtain ⟨existing, hplan, rfl⟩ := Signer.write_call_eq_some_iff.1 hwrite
    exact hlater existing secrets hplan
  · have hcall : call = _ := Signer.call_of_corrupt htext hcorrupt cached fresh accepts
    rw [hcall]
    exact ⟨rfl, rfl, rfl⟩

/-- The account secret of an issuer, with a note of someone else and some more entries. -/
def notedSecret (entries : List (String × Bytes)) : Secret where
  metadata := { ns := some "ingress", name := some "account", resourceVersion := some "7" }
  purpose := some "Opaque"
  data := some (Dict.ofList (("note", [110]) :: entries))

/-- A new key comes beside the note, and is not generated if there is a text that is none. -/
theorem own_entries_noted :
    let account : Key := ⟨"ingress", "account"⟩
    let bare : Mirror Secret := Mirror.empty.put (notedSecret [])
    let corrupt : Mirror Secret := Mirror.empty.put (notedSecret [(Entry.tlsKey, [1])])
    (∃ write,
      (Signer.call rsaCodec account bare none Signer.oneKey fun _ => true).write = some write ∧
      write.object.metadata.resourceVersion = some "7" ∧
      write.object.value? "note" = some [110]) ∧
    (corrupt.baseSecret account).value? Entry.tlsKey = some [1] ∧
      rsaCodec.decode [1] = .error .accountKey ∧
      (Signer.call rsaCodec account corrupt (some Signer.oneKey) Signer.oneKey
        fun _ => true).write = none := by
  intro account bare corrupt
  have hfree : (bare.baseSecret account).value? Entry.tlsKey = none := by decide
  have htext : (corrupt.baseSecret account).value? Entry.tlsKey = some [1] := by decide
  have hcorrupt : rsaCodec.decode [1] = .error .accountKey := by rfl
  obtain ⟨hbare, -⟩ := own_entries rsaCodec bare ∅
  obtain ⟨hwrites, hedits, -⟩ := hbare account none Signer.oneKey fun _ => true
  obtain ⟨write, hwrite⟩ := Option.isSome_iff_exists.1 (hwrites.2 ⟨hfree, rfl⟩)
  have hedits := hedits write hwrite
  obtain ⟨hcorruptCalls, -⟩ := own_entries rsaCodec corrupt ∅
  obtain ⟨-, -, -, hrefused⟩ :=
    hcorruptCalls account (some Signer.oneKey) Signer.oneKey fun _ => true
  refine ⟨⟨write, hwrite, ?_, ?_⟩, htext, hcorrupt, (hrefused [1] _ htext hcorrupt).2.1⟩
  · rw [hedits.metadata]
    rfl
  · rw [hedits.entries]
    rfl

end IngressWatch
