import IngressWatch.CredentialStore
import Mathlib.Logic.Function.Basic

/-!
# Fingerprints tell contents apart

As long as the hash function has no collisions, what a store takes for unchanged content is
unchanged.

* `Bytes.toHex_injective`: bytes can be read off their digits.
* `framed_inj`: **parts can be read back from their frames.**
* `CredentialStore.sameContent_iff`: **two contents of one fingerprint are equal.**
-/

namespace IngressWatch

namespace Bytes

theorem hexDigit_inj {m n : Nat} (hm : m < 16) (hn : n < 16) (h : hexDigit m = hexDigit n) :
    m = n := by
  have hall : ∀ m < 16, ∀ n < 16, hexDigit m = hexDigit n → m = n := by decide
  exact hall m hm n hn h

/-- A byte is its two digits. -/
theorem eq_of_hexDigits {b c : UInt8} (hhigh : hexDigit (b.toNat / 16) = hexDigit (c.toNat / 16))
    (hlow : hexDigit (b.toNat % 16) = hexDigit (c.toNat % 16)) : b = c := by
  have hb := b.toNat_lt
  have hc := c.toNat_lt
  have hdiv : b.toNat / 16 = c.toNat / 16 := hexDigit_inj (by omega) (by omega) hhigh
  have hmod : b.toNat % 16 = c.toNat % 16 := hexDigit_inj (by omega) (by omega) hlow
  exact UInt8.toNat_inj.1 (by omega)

theorem toHex_injective : Function.Injective toHex := by
  intro a b h
  have hdigits := congrArg String.toList h
  simp only [toHex, String.toList_ofList] at hdigits
  clear h
  -- each byte takes two digits, so the bytes are compared one by one
  induction a generalizing b with
  | nil =>
    cases b with
    | nil => rfl
    | cons d b => simp at hdigits
  | cons c a ih =>
    cases b with
    | nil => simp at hdigits
    | cons d b =>
      simp only [List.flatMap_cons, List.cons_append, List.nil_append, List.cons.injEq] at hdigits
      obtain ⟨hhigh, hlow, hrest⟩ := hdigits
      rw [eq_of_hexDigits hhigh hlow, ih hrest]

/-- Digits below 256 are told apart as bytes. -/
theorem eq_of_ofNat_eq {m n : Nat} (hm : m < 256) (hn : n < 256)
    (h : UInt8.ofNat m = UInt8.ofNat n) : m = n := by
  have hnat := congrArg UInt8.toNat h
  rw [UInt8.toNat_ofNat', UInt8.toNat_ofNat'] at hnat
  omega

/-- **A number that fits its width** can be read off its bytes. -/
theorem ofNat_inj {width m n : Nat} (hm : m < Nat.pow 256 width) (hn : n < Nat.pow 256 width)
    (h : ofNat width m = ofNat width n) : m = n := by
  induction width generalizing m n with
  | zero =>
    have hone : Nat.pow 256 0 = 1 := rfl
    omega
  | succ width ih =>
    have hpos : 0 < Nat.pow 256 width := Nat.pow_pos (by omega)
    have hwidth : Nat.pow 256 (width + 1) = Nat.pow 256 width * 256 := rfl
    rw [hwidth] at hm hn
    obtain ⟨hhead, htail⟩ := List.cons_eq_cons.1 h
    -- the first byte is the quotient, the others are the remainder
    have hdiv : m / Nat.pow 256 width = n / Nat.pow 256 width :=
      eq_of_ofNat_eq (Nat.div_lt_of_lt_mul hm) (Nat.div_lt_of_lt_mul hn) hhead
    have hmod : m % Nat.pow 256 width = n % Nat.pow 256 width :=
      ih (Nat.mod_lt m hpos) (Nat.mod_lt n hpos) htail
    rw [← Nat.div_add_mod m (Nat.pow 256 width), hdiv, hmod, Nat.div_add_mod]

end Bytes

/-- The parts that a frame can hold: their lengths fit into eight bytes. -/
def AllShort (parts : List Bytes) : Prop := ∀ p ∈ parts, p.length < Nat.pow 2 64

theorem framed_cons (p : Bytes) (parts : List Bytes) :
    framed (p :: parts) = Bytes.ofNat 8 p.length ++ (p ++ framed parts) := by
  rw [framed, List.flatMap_cons, List.append_assoc]
  rfl

/-- The frame of a part is never empty, not even that of an empty part. -/
theorem framed_cons_ne_nil (p : Bytes) (parts : List Bytes) : framed (p :: parts) ≠ [] := by
  intro hnil
  have hlength := congrArg List.length hnil
  rw [framed_cons, List.length_append, Bytes.length_ofNat, List.length_nil] at hlength
  omega

/-- **Parts can be read back from their frames**, in number and order, empty ones included. -/
theorem framed_inj {parts parts' : List Bytes} (hparts : AllShort parts)
    (hparts' : AllShort parts') (h : framed parts = framed parts') : parts = parts' := by
  induction parts generalizing parts' with
  | nil =>
    cases parts' with
    | nil => rfl
    | cons q parts' => exact absurd h.symm (framed_cons_ne_nil q parts')
  | cons p parts ih =>
    cases parts' with
    | nil => exact absurd h (framed_cons_ne_nil p parts)
    | cons q parts' =>
      obtain ⟨hp, hrest⟩ := List.forall_mem_cons.1 hparts
      obtain ⟨hq, hrest'⟩ := List.forall_mem_cons.1 hparts'
      rw [framed_cons, framed_cons] at h
      -- the lengths come first, and say where the parts end
      obtain ⟨hheader, hbody⟩ := List.append_inj h (by
        rw [Bytes.length_ofNat, Bytes.length_ofNat])
      have hwidth : Nat.pow 256 8 = Nat.pow 2 64 := by decide
      have hlength : p.length = q.length :=
        Bytes.ofNat_inj (hwidth ▸ hp) (hwidth ▸ hq) hheader
      obtain ⟨rfl, htail⟩ := List.append_inj hbody hlength
      rw [ih hrest hrest' htail]

/-- **A fingerprint identifies its parts** if the hash function has no collisions. -/
theorem fingerprint_inj {hash : Bytes → Bytes} (hhash : Function.Injective hash)
    {parts parts' : List Bytes} (hparts : AllShort parts) (hparts' : AllShort parts')
    (h : fingerprint hash parts = fingerprint hash parts') : parts = parts' :=
  framed_inj hparts hparts' (hhash (Bytes.toHex_injective h))

/-- A single part can be read back from its frame. -/
theorem framed_singleton_inj {a b : Bytes} (h : framed [a] = framed [b]) : a = b := by
  simp only [framed, List.flatMap_cons, List.flatMap_nil, List.append_nil] at h
  refine (List.append_inj h ?_).2
  rw [Bytes.length_ofNat, Bytes.length_ofNat]

/-- **Contents of one fingerprint are equal** if the hash function has no collisions. -/
theorem CredentialStore.sameContent_iff {s : CredentialStore} (hhash : Function.Injective s.hash)
    {a b : Bytes} : s.sameContent a b = true ↔ a = b := by
  rw [sameContent, beq_iff_eq]
  constructor
  · intro h
    exact framed_singleton_inj (hhash (Bytes.toHex_injective h))
  · rintro rfl
    rfl

end IngressWatch
