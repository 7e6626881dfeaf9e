import IngressWatch.Proofs.Resolution

/-!
# Namespaces are isolated

Without foreign references, what a resolver answers in a namespace depends on nothing but the
secrets of that namespace.

* `lookup_eq_of_agreeOn`: mirrors that agree on a namespace are alike for its keys.
* `resolver_isolated`: **two runs on such mirrors give the same answers, leave the same files and
  note the same paths.**
-/

namespace IngressWatch

/-- Mirrors that hold the same secrets of a namespace. -/
def AgreeOn (ns : String) (m m' : Mirror Secret) : Prop :=
  ∀ s : Secret, s.metadata.ns = some ns → (s ∈ m.objects ↔ s ∈ m'.objects)

theorem AgreeOn.symm {ns : String} {m m' : Mirror Secret} (h : AgreeOn ns m m') :
    AgreeOn ns m' m := fun s hs => (h s hs).symm

/-- A secret that one mirror shows in the namespace is shown by the other. -/
theorem AgreeOn.find?_of_find? {m m' : Mirror Secret} {k : Key} (h : AgreeOn k.ns m m') {s : Secret}
    (hs : m.find? k.identifier = some s) : m'.find? k.identifier = some s := by
  have hid := Mirror.identifier_of_find? hs
  have hns : s.metadata.ns = some k.ns := congrArg Identifier.ns hid
  rw [← hid]
  exact Mirror.find?_of_mem ((h s hns).1 (Mirror.mem_of_find? hs))

/-- **Mirrors that agree on a namespace are alike for its keys.** -/
theorem lookup_eq_of_agreeOn {m m' : Mirror Secret} {k : Key} (h : AgreeOn k.ns m m')
    (hm : ∀ s ∈ m.objects, s.metadata.ns.isSome) (hm' : ∀ s ∈ m'.objects, s.metadata.ns.isSome) :
    m.lookup k = m'.lookup k := by
  rw [Mirror.lookup_of_spaced hm, Mirror.lookup_of_spaced hm']
  split
  · rfl
  · refine Option.ext fun s => ?_
    exact ⟨h.find?_of_find?, h.symm.find?_of_find?⟩

namespace Resolver

section

variable {checks : TlsChecks} {ns : String} {m m' : Mirror Secret}

/-- What is made of a secret that was found by a reference is the same on both mirrors. -/
theorem bind_secret_eq (hns : ns ≠ "") (h : AgreeOn ns m m')
    (hm : ∀ s ∈ m.objects, s.metadata.ns.isSome) (hm' : ∀ s ∈ m'.objects, s.metadata.ns.isSome)
    (reference : String) {β : Type} (f : Key → Secret → Except Error β) :
    ((⟨false, m⟩ : Resolver checks).key ns reference >>= fun k =>
        (⟨false, m⟩ : Resolver checks).secret k >>= f k) =
      ((⟨false, m'⟩ : Resolver checks).key ns reference >>= fun k =>
        (⟨false, m'⟩ : Resolver checks).secret k >>= f k) := by
  -- the policy itself does not look at the mirror
  have hkey : (⟨false, m'⟩ : Resolver checks).key ns reference =
      (⟨false, m⟩ : Resolver checks).key ns reference := rfl
  rw [hkey]
  cases hk : (⟨false, m⟩ : Resolver checks).key ns reference with
  | error e => rfl
  | ok k =>
    -- whatever the spelling, the key that passed is one of the namespace
    have hkns : k.ns = ns := ns_of_key rfl hns hk
    have hsecret : (⟨false, m⟩ : Resolver checks).secret k =
        (⟨false, m'⟩ : Resolver checks).secret k := by
      unfold secret
      rw [lookup_eq_of_agreeOn (hkns ▸ h) hm hm']
    show (⟨false, m⟩ : Resolver checks).secret k >>= f k =
      (⟨false, m'⟩ : Resolver checks).secret k >>= f k
    rw [hsecret]

/-- **Without foreign references, the secrets of other namespaces make no difference.** For mirrors
that agree on a namespace, every reference from it is answered alike, with the same value or the
same error, and leaves the same store behind: files and index. -/
theorem resolver_isolated (hns : ns ≠ "") (h : AgreeOn ns m m')
    (hm : ∀ s ∈ m.objects, s.metadata.ns.isSome) (hm' : ∀ s ∈ m'.objects, s.metadata.ns.isSome)
    (reference entryName : String) (store : CredentialStore) :
    let r : Resolver checks := ⟨false, m⟩
    let r' : Resolver checks := ⟨false, m'⟩
    r.key ns reference = r'.key ns reference ∧
      r.tls store ns reference = r'.tls store ns reference ∧
      r.ca store ns reference = r'.ca store ns reference ∧
      r.dh store ns reference = r'.dh store ns reference ∧
      r.content ns reference entryName = r'.content ns reference entryName := by
  intro r r'
  have htls : r.tlsMaterial ns reference = r'.tlsMaterial ns reference :=
    bind_secret_eq hns h hm hm' reference _
  have hca : r.caMaterial ns reference = r'.caMaterial ns reference :=
    bind_secret_eq hns h hm hm' reference _
  have hentry : ∀ name, r.entryMaterial ns reference name = r'.entryMaterial ns reference name :=
    fun name => bind_secret_eq hns h hm hm' reference _
  refine ⟨rfl, ?_, ?_, ?_, ?_⟩
  · unfold tls
    rw [htls]
  · unfold ca
    rw [hca]
  · unfold dh
    rw [hentry]
  · unfold content
    rw [hentry]

/-- A secret without entries. -/
def bareSecret (ns name : String) : Secret := { metadata := { ns := some ns, name := some name } }

/-- A secret of another namespace makes no difference, even for a reference to it. -/
theorem resolver_isolated_web :
    let m : Mirror Secret := ⟨[bareSecret "web" "site"], by simp⟩
    let m' : Mirror Secret := ⟨[bareSecret "web" "site", bareSecret "api" "site"], by decide⟩
    let store : CredentialStore := { directory := "certs", disk := Disk.empty }
    let r : Resolver := ⟨false, m⟩
    let r' : Resolver := ⟨false, m'⟩
    "web" ≠ "" ∧ AgreeOn "web" m m' ∧ (∀ s ∈ m.objects, s.metadata.ns.isSome) ∧
      (∀ s ∈ m'.objects, s.metadata.ns.isSome) ∧
      r.key "web" "api/site" = r'.key "web" "api/site" ∧
      r.tls store "web" "api/site" = r'.tls store "web" "api/site" ∧
      r.ca store "web" "api/site" = r'.ca store "web" "api/site" ∧
      r.dh store "web" "api/site" = r'.dh store "web" "api/site" ∧
      r.content "web" "api/site" "tls.crt" = r'.content "web" "api/site" "tls.crt" := by
  intro m m' store r r'
  have hns : "web" ≠ "" := by decide
  have hm : ∀ s ∈ m.objects, s.metadata.ns.isSome := by simp [m, bareSecret]
  have hm' : ∀ s ∈ m'.objects, s.metadata.ns.isSome := by simp [m', bareSecret]
  have h : AgreeOn "web" m m' := by
    intro s hs
    have hne : s ≠ bareSecret "api" "site" := fun hc => by
      rw [hc] at hs
      simp [bareSecret] at hs
    simp [m, m', hne]
  exact ⟨hns, h, hm, hm', resolver_isolated hns h hm hm' "api/site" "tls.crt" store⟩

end

end Resolver

end IngressWatch
