import IngressWatch.Proofs.Lookup
import IngressWatch.Proofs.Results
import IngressWatch.Resolver

/-!
# What a resolver goes by

* `Resolver.key_eq`: **the key of a reference is its qualified key**, if the policy lets that pass.
* `Resolver.ns_of_key`: the policy lets only keys of the namespace pass.
* `Resolver.policy_restricts`: **the policy takes keys away and changes none.**
* `Resolver.tlsMaterial_eq_ok`: **when a reference has TLS material**: its key leads to a secret
  that bears it.
* `Resolver.found_of_tlsMaterial` and its like: whatever is made into a file comes from a mirrored
  secret, under the key of that secret.
-/

namespace IngressWatch

variable {checks : TlsChecks}

/-- **A secret that can be used for TLS**: it has a certificate and a private key that pass the
checks. -/
structure Secret.Bears (checks : TlsChecks) (s : Secret) (certificate keyText : Bytes)
    (parsed : Certificate) : Prop where
  certificateEntry : s.value? Entry.tlsCertificate = some certificate
  keyEntry : s.value? Entry.tlsKey = some keyText
  parses : checks.certificate certificate = .ok parsed
  valid : checks.privateKey keyText = .ok ()

/-- What is made of a secret if all of this is so. -/
theorem Secret.bind_eq_some_iff_bears {β : Type} {s : Secret} {f : Bytes → Bytes → Certificate → β}
    {b : β} :
    (do
      let certificate ← s.value? Entry.tlsCertificate
      let keyText ← s.value? Entry.tlsKey
      let parsed ← (checks.certificate certificate).toOption
      let _ ← (checks.privateKey keyText).toOption
      return f certificate keyText parsed) = some b ↔
      ∃ certificate keyText parsed, s.Bears checks certificate keyText parsed ∧
        f certificate keyText parsed = b := by
  constructor
  · intro h
    obtain ⟨certificate, hcertificate, h⟩ := Option.bind_eq_some_iff.1 h
    obtain ⟨keyText, hkeyText, h⟩ := Option.bind_eq_some_iff.1 h
    obtain ⟨parsed, hparsed, h⟩ := Option.bind_eq_some_iff.1 h
    obtain ⟨_, hvalid, h⟩ := Option.bind_eq_some_iff.1 h
    exact ⟨certificate, keyText, parsed, ⟨hcertificate, hkeyText, toOption_eq_some.1 hparsed,
      toOption_eq_some.1 hvalid⟩, Option.some.inj h⟩
  · rintro ⟨certificate, keyText, parsed, hbears, rfl⟩
    refine Option.bind_eq_some_iff.2 ⟨certificate, hbears.certificateEntry, ?_⟩
    refine Option.bind_eq_some_iff.2 ⟨keyText, hbears.keyEntry, ?_⟩
    refine Option.bind_eq_some_iff.2 ⟨parsed, toOption_eq_some.2 hbears.parses, ?_⟩
    exact Option.bind_eq_some_iff.2 ⟨(), toOption_eq_some.2 hbears.valid, rfl⟩

namespace Resolver

/-- **The key of a reference is its qualified key**, if the policy lets that pass. -/
theorem key_eq (r : Resolver checks) (ns reference : String) :
    r.key ns reference = match Key.qualified ns reference with
      | .error cause => .error (.malformed cause)
      | .ok k =>
        if ns ≠ "" ∧ k.ns ≠ ns ∧ r.allowForeign = false then .error (.foreignReference reference ns)
        else .ok k := by
  unfold key Key.qualified
  cases Key.parse reference with
  | error cause => rfl
  | ok k =>
    obtain ⟨kns, name⟩ := k
    simp only [Except.map, Key.within]
    by_cases hns : ns = ""
    · -- nothing is put in place of a missing namespace
      subst hns
      by_cases hk : kns = "" <;> simp [hk]
    · by_cases hk : kns = ""
      · simp [hns, hk]
      · by_cases hsame : kns = ns
        · simp [hns, hsame]
        · cases hforeign : r.allowForeign <;> simp [hns, hk, hsame]

/-- **Without foreign references only keys of the namespace pass.** -/
theorem ns_of_key {r : Resolver checks} {ns reference : String} {k : Key}
    (hr : r.allowForeign = false) (hns : ns ≠ "") (h : r.key ns reference = .ok k) : k.ns = ns := by
  rw [key_eq] at h
  split at h
  · cases h
  · split at h
    · cases h
    · rename_i hpass
      obtain rfl := Except.ok.inj h
      exact Decidable.byContradiction fun hne => hpass ⟨hns, hne, hr⟩

/-- **The policy takes keys away and changes none.** Where foreign references are followed, the key
of a reference is its qualified key, with the same error if it is malformed. Where they are not, the
same holds for malformed references, for all references from an empty namespace, and for those that
lead to the namespace itself; any other is refused, with its text and the namespace. -/
theorem policy_restricts (secrets : Mirror Secret) (ns reference : String) :
    let qualified : Except Error Key := (Key.qualified ns reference).mapError .malformed
    let lenient : Resolver checks := ⟨true, secrets⟩
    let strict : Resolver checks := ⟨false, secrets⟩
    lenient.key ns reference = qualified ∧
      (∀ e, qualified = .error e → strict.key ns reference = .error e) ∧
      (∀ k, qualified = .ok k → (ns = "" ∨ k.ns = ns) → strict.key ns reference = .ok k) ∧
      (∀ k, qualified = .ok k → ¬ (ns = "" ∨ k.ns = ns) →
        strict.key ns reference = .error (.foreignReference reference ns)) ∧
      (∀ k, strict.key ns reference = .ok k → lenient.key ns reference = .ok k) ∧
      (ns ≠ "" → ∀ k, strict.key ns reference = .ok k → k.ns = ns) := by
  intro qualified lenient strict
  have hlenient : lenient.key ns reference = qualified := by
    rw [key_eq]
    show _ = (Key.qualified ns reference).mapError Error.malformed
    cases Key.qualified ns reference with
    | error cause => rfl
    | ok k => exact if_neg fun h => nomatch h.2.2
  have herror : ∀ e, qualified = .error e → strict.key ns reference = .error e := by
    intro e he
    obtain ⟨cause, hcause, rfl⟩ := mapError_eq_error.1 he
    rw [key_eq, hcause]
  have hpass : ∀ k, qualified = .ok k → (ns = "" ∨ k.ns = ns) →
      strict.key ns reference = .ok k := by
    intro k hk hown
    rw [key_eq, mapError_eq_ok.1 hk]
    exact if_neg fun h => hown.elim h.1 h.2.1
  have hrefuse : ∀ k, qualified = .ok k → ¬ (ns = "" ∨ k.ns = ns) →
      strict.key ns reference = .error (.foreignReference reference ns) := by
    intro k hk hforeign
    obtain ⟨hns, hother⟩ := not_or.1 hforeign
    rw [key_eq, mapError_eq_ok.1 hk]
    exact if_pos ⟨hns, hother, rfl⟩
  refine ⟨hlenient, herror, hpass, hrefuse, ?_, fun hns k hk => ns_of_key rfl hns hk⟩
  intro k hk
  rw [hlenient]
  -- a key that passes is the qualified one, since the policy makes no key of its own
  cases hq : qualified with
  | error e => exact absurd ((herror e hq).symm.trans hk) nofun
  | ok found =>
    by_cases hown : ns = "" ∨ found.ns = ns
    · exact (hpass found hq hown).symm.trans hk
    · exact absurd ((hrefuse found hq hown).symm.trans hk) nofun

variable {r : Resolver checks} {ns reference : String}

theorem secret_eq_ok {k : Key} {s : Secret} : r.secret k = .ok s ↔ r.secrets.lookup k = some s := by
  unfold secret
  split
  · rename_i found hfound
    rw [hfound]
    exact ⟨fun h => congrArg _ (Except.ok.inj h), fun h => congrArg _ (Option.some.inj h)⟩
  · rename_i hnone
    rw [hnone]
    exact ⟨nofun, nofun⟩

theorem entry_eq_ok {s : Secret} {k : Key} {name : String} {content : Bytes} :
    entry s k name = .ok content ↔ s.value? name = some content := by
  unfold entry
  split
  · rename_i found hfound
    rw [hfound]
    exact ⟨fun h => congrArg _ (Except.ok.inj h), fun h => congrArg _ (Option.some.inj h)⟩
  · rename_i hnone
    rw [hnone]
    exact ⟨nofun, nofun⟩

/-! Where material comes from: the reference has a key, the key a secret, and the secret what is
asked for. -/

theorem tlsMaterial_eq_ok {m : TlsMaterial} : r.tlsMaterial ns reference = .ok m ↔
    r.key ns reference = .ok m.key ∧ ∃ s parsed, r.secrets.lookup m.key = some s ∧
      s.Bears checks m.certificate m.keyText parsed ∧ m.identity = parsed.identity := by
  constructor
  · intro h
    obtain ⟨k, hk, h⟩ := bind_eq_ok.1 h
    obtain ⟨s, hs, h⟩ := bind_eq_ok.1 h
    obtain ⟨certificate, hcertificate, h⟩ := bind_eq_ok.1 h
    obtain ⟨keyText, hkeyText, h⟩ := bind_eq_ok.1 h
    obtain ⟨parsed, hparsed, h⟩ := bind_eq_ok.1 h
    obtain ⟨_, hvalid, h⟩ := bind_eq_ok.1 h
    obtain rfl := Except.ok.inj h
    exact ⟨hk, s, parsed, secret_eq_ok.1 hs, ⟨entry_eq_ok.1 hcertificate, entry_eq_ok.1 hkeyText,
      mapError_eq_ok.1 hparsed, mapError_eq_ok.1 hvalid⟩, rfl⟩
  · rintro ⟨hk, s, parsed, hs, hbears, hidentity⟩
    refine bind_eq_ok.2 ⟨_, hk, bind_eq_ok.2 ⟨s, secret_eq_ok.2 hs, ?_⟩⟩
    refine bind_eq_ok.2 ⟨_, entry_eq_ok.2 hbears.certificateEntry, ?_⟩
    refine bind_eq_ok.2 ⟨_, entry_eq_ok.2 hbears.keyEntry, ?_⟩
    refine bind_eq_ok.2 ⟨parsed, mapError_eq_ok.2 hbears.parses, ?_⟩
    refine bind_eq_ok.2 ⟨(), mapError_eq_ok.2 hbears.valid, ?_⟩
    rw [← hidentity]
    rfl

theorem of_caMaterial {m : CaMaterial} (h : r.caMaterial ns reference = .ok m) :
    r.key ns reference = .ok m.key ∧ ∃ s, r.secrets.lookup m.key = some s ∧
      s.value? Entry.caCertificate = some m.ca ∧ s.value? Entry.caRevocation = m.crl := by
  obtain ⟨k, hk, h⟩ := bind_eq_ok.1 h
  obtain ⟨s, hs, h⟩ := bind_eq_ok.1 h
  obtain ⟨ca, hca, h⟩ := bind_eq_ok.1 h
  obtain ⟨_, -, h⟩ := bind_eq_ok.1 h
  obtain rfl := Except.ok.inj h
  exact ⟨hk, s, secret_eq_ok.1 hs, entry_eq_ok.1 hca, rfl⟩

theorem of_entryMaterial {name : String} {m : Key × Bytes}
    (h : r.entryMaterial ns reference name = .ok m) :
    r.key ns reference = .ok m.1 ∧ ∃ s, r.secrets.lookup m.1 = some s ∧
      s.value? name = some m.2 := by
  obtain ⟨k, hk, h⟩ := bind_eq_ok.1 h
  obtain ⟨s, hs, h⟩ := bind_eq_ok.1 h
  obtain ⟨content, hcontent, h⟩ := bind_eq_ok.1 h
  obtain rfl := Except.ok.inj h
  exact ⟨hk, s, secret_eq_ok.1 hs, entry_eq_ok.1 hcontent⟩

/-- The secret that a key refers to, where all secrets are named. -/
theorem mem_of_lookup (h : ∀ s ∈ r.secrets.objects, IsNamed s) {k : Key} {s : Secret}
    (hs : r.secrets.lookup k = some s) : s ∈ r.secrets.objects ∧ Resource.key s = k := by
  rw [Mirror.lookup_of_spaced fun s hs => (h s hs).ns] at hs
  split at hs
  · cases hs
  · exact (Mirror.find?_key_iff h).1 hs

theorem found_of_tlsMaterial (h : ∀ s ∈ r.secrets.objects, IsNamed s) {m : TlsMaterial}
    (hm : r.tlsMaterial ns reference = .ok m) :
    ∃ s ∈ r.secrets.objects, Resource.key s = m.key := by
  obtain ⟨-, s, -, hs, -⟩ := tlsMaterial_eq_ok.1 hm
  exact ⟨s, mem_of_lookup h hs⟩

theorem found_of_caMaterial (h : ∀ s ∈ r.secrets.objects, IsNamed s) {m : CaMaterial}
    (hm : r.caMaterial ns reference = .ok m) :
    ∃ s ∈ r.secrets.objects, Resource.key s = m.key := by
  obtain ⟨-, s, hs, -⟩ := of_caMaterial hm
  exact ⟨s, mem_of_lookup h hs⟩

theorem found_of_entryMaterial (h : ∀ s ∈ r.secrets.objects, IsNamed s) {name : String}
    {m : Key × Bytes} (hm : r.entryMaterial ns reference name = .ok m) :
    ∃ s ∈ r.secrets.objects, Resource.key s = m.1 := by
  obtain ⟨-, s, hs, -⟩ := of_entryMaterial hm
  exact ⟨s, mem_of_lookup h hs⟩

end Resolver

end IngressWatch
