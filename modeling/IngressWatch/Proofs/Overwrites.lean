import IngressWatch.Proofs.Account
import IngressWatch.Proofs.Timeline

/-!
# What a generated key overwrites

A call of the signer takes its time: it looks for the account secret, generates a key, looks again
to choose between a creation and an update, and writes. The mirror may move at any moment, and
anyone may write any secret.

* `Signer.Setup.trace`: parts of calls, steps of the mirror and writes of others in any order, with
  what the calls came to.
* `Signer.Setup.trace_call`: a call that nothing comes in between is `Signer.call`.
* `Signer.Effect.IsBlind`: the first lookup found nothing and the second one did, so that an update
  is sent that names no version.
* `Signer.Setup.trace_keeps`: **a write that takes effect keeps all entries, unless it is blind. A
  blind write leaves nothing but the new key.**
* `Signer.not_trace_keeps`: a blind write does destroy a key.
-/

namespace IngressWatch

open Resource

namespace Signer

/-- Where a call stands. -/
inductive Phase (κ : Type) where
  /-- No call is under way. -/
  | idle
  /-- A key is being generated for the secret that was found. -/
  | generating (found : Option Secret)
  /-- The write of the generated key is on its way. -/
  | writing (found : Option Secret) (fresh : κ) (write : Write Secret)

structure Course (κ : Type) where
  timeline : Timeline Secret
  phase : Phase κ := .idle
  /-- The key that the signer knows. -/
  cached : Option κ := none

/-- A write that took effect. -/
structure Effect (κ : Type) where
  /-- What the first lookup of the call found. -/
  found : Option Secret
  fresh : κ
  verb : Verb
  /-- The account secret on the server before the write. -/
  before : Option Secret
  after : Option Secret

/-- What a call came to: its answer, and what its write did to the server. -/
structure Ended (κ : Type) where
  result : Except Error κ
  effect : Option (Effect κ)

inductive Move (κ : Type) where
  /-- A call begins with its first lookup. It ends there if it has a key to answer. -/
  | look
  /-- The key is generated, and the second lookup decides about the write. -/
  | generate (fresh : κ)
  /-- The write comes to its end, and the call with it. -/
  | deliver (fate : Fate)
  | turnTo (n : Nat)
  /-- Someone else writes a secret. -/
  | put (s : Secret)
  /-- Someone else deletes a secret. -/
  | remove (s : Secret)

/-- The effects that calls had. -/
def effects {κ : Type} (log : List (Ended κ)) : List (Effect κ) := log.filterMap (·.effect)

/-- A part of a call, or a step of the mirror. -/
def Move.IsOwn {κ : Type} : Move κ → Prop
  | .put _ | .remove _ => False
  | _ => True

/-- Whoever writes secrets names them. -/
def Move.Allowed {κ : Type} : Move κ → Prop
  | .put s | .remove s => IsNamed s
  | _ => True

namespace Effect

variable {κ : Type}

/-- Every entry of the account secret is still there. -/
def Keeps (e : Effect κ) : Prop :=
  ∀ s ∈ e.before, ∀ name content, s.value? name = some content →
    ∃ s' ∈ e.after, s'.value? name = some content

/-- An update by a call that found no secret to begin with. -/
def IsBlind (e : Effect κ) : Prop := e.found = none ∧ e.verb = .update

/-- There was nothing but the key that is written. -/
def Repeats (codec : KeyCodec κ) (e : Effect κ) : Prop :=
  ∀ s ∈ e.before, ∀ name content, s.value? name = some content →
    name = Entry.tlsKey ∧ content = codec.encode e.fresh

/-- The server holds what the first lookup found, with the key that was generated. -/
def Writes (codec : KeyCodec κ) (e : Effect κ) : Prop :=
  ∃ s' ∈ e.after, ∀ name, s'.value? name =
    if name = Entry.tlsKey then some (codec.encode e.fresh) else e.found.bind (·.value? name)

variable {codec : KeyCodec κ} {e : Effect κ}

theorem Writes.key (h : e.Writes codec) :
    ∃ s ∈ e.after, s.value? Entry.tlsKey = some (codec.encode e.fresh) := by
  obtain ⟨s', hafter, hvalue⟩ := h
  exact ⟨s', hafter, by rw [hvalue, if_pos rfl]⟩

/-- **Nothing is lost** where the server held what the first lookup found. -/
theorem Writes.keeps_of_found (h : e.Writes codec) (hbefore : e.before = e.found)
    (hfree : ∀ s ∈ e.found, s.value? Entry.tlsKey = none) : e.Keeps := by
  obtain ⟨s', hafter, hvalue⟩ := h
  intro s hs name content hcontent
  rw [hbefore] at hs
  have hname : name ≠ Entry.tlsKey := by
    intro heq
    rw [heq, hfree s hs] at hcontent
    cases hcontent
  have hfound : e.found = some s := hs
  refine ⟨s', hafter, ?_⟩
  rw [hvalue, if_neg hname, hfound]
  exact hcontent

/-- **Everything but the key is lost** where the first lookup found nothing. -/
theorem Writes.keeps_iff_repeats (h : e.Writes codec) (hfound : e.found = none) :
    e.Keeps ↔ e.Repeats codec := by
  obtain ⟨s', hafter, hvalue⟩ := h
  rw [hfound] at hvalue
  constructor
  · intro hkeeps s hs name content hcontent
    obtain ⟨s'', hs'', hkept⟩ := hkeeps s hs name content hcontent
    obtain rfl : s' = s'' := Option.mem_unique hafter hs''
    rw [hvalue] at hkept
    by_cases hname : name = Entry.tlsKey
    · rw [if_pos hname] at hkept
      exact ⟨hname, (Option.some.inj hkept).symm⟩
    · rw [if_neg hname] at hkept
      cases hkept
  · intro hrepeats s hs name content hcontent
    obtain ⟨hname, htext⟩ := hrepeats s hs name content hcontent
    refine ⟨s', hafter, ?_⟩
    rw [hvalue, if_pos hname, htext]

end Effect

namespace Setup

variable {κ : Type} (u : Setup κ)

/-- The account secret that a state of the server holds. -/
def accountOf (m : Mirror Secret) : Option Secret := m.find? u.account.identifier

/-- The end of a write, and of its call. -/
def deliver (t : Timeline Secret) (found : Option Secret) (fresh : κ) (write : Write Secret)
    (fate : Fate) : Ended κ × Course κ :=
  let last := finish write fresh (t.admits write && fate = .confirmed)
  if t.admits write ∧ fate ≠ .dropped then
    let next := t.put u.version write.object
    (⟨last.result, some ⟨found, fresh, write.verb, u.accountOf t.server, u.accountOf next.server⟩⟩,
      ⟨next, .idle, last.cached⟩)
  else (⟨last.result, none⟩, ⟨t, .idle, last.cached⟩)

def move (w : Course κ) : Move κ → List (Ended κ) × Course κ
  | .look =>
    match w.phase with
    | .idle =>
      match plan u.codec u.account w.timeline.mirror w.cached with
      | .answer result cached => ([⟨result, none⟩], { w with cached := cached })
      | .generate found => ([], { w with phase := .generating found })
    | _ => ([], w)
  | .generate fresh =>
    match w.phase with
    | .generating found =>
      let write := Write.of w.timeline.mirror (withKey u.codec u.account found fresh)
      ([], { w with phase := .writing found fresh write })
    | _ => ([], w)
  | .deliver fate =>
    match w.phase with
    | .writing found fresh write =>
      ([(u.deliver w.timeline found fresh write fate).1],
        (u.deliver w.timeline found fresh write fate).2)
    | _ => ([], w)
  | .turnTo n => ([], { w with timeline := w.timeline.turnTo n })
  | .put s => ([], { w with timeline := w.timeline.put u.version s })
  | .remove s => ([], { w with timeline := w.timeline.remove s })

/-- Moves in order, with what the calls came to. -/
def trace (w : Course κ) : List (Move κ) → List (Ended κ) × Course κ
  | [] => ([], w)
  | m :: rest =>
    let (later, last) := trace (u.move w m).2 rest
    ((u.move w m).1 ++ later, last)

variable {u : Setup κ} {w : Course κ}

/-- Whatever becomes of the write, the call answers as `finish` says and is over. -/
theorem deliver_eq (t : Timeline Secret) (found : Option Secret) (fresh : κ) (write : Write Secret)
    (fate : Fate) :
    let last := finish write fresh (t.admits write && fate = .confirmed)
    let ended := u.deliver t found fresh write fate
    ended.1.result = last.result ∧ ended.2.cached = last.cached ∧ ended.2.phase = .idle := by
  intro last ended
  by_cases hstored : t.admits write ∧ fate ≠ .dropped
  · simp [ended, deliver, if_pos hstored, last]
  · simp [ended, deliver, if_neg hstored, last]

/-- A call that nothing comes in between is a whole call. -/
theorem trace_call (hidle : w.phase = .idle) (fresh : κ) (fate : Fate) :
    let call := Signer.call u.codec u.account w.timeline.mirror w.cached fresh fun write =>
      w.timeline.admits write && fate = .confirmed
    let trace := u.trace w [.look, .generate fresh, .deliver fate]
    trace.1.map (·.result) = [call.result] ∧ trace.2.cached = call.cached ∧
      trace.2.phase = .idle := by
  intro call trace
  cases hplan : plan u.codec u.account w.timeline.mirror w.cached with
  | answer result cached =>
    have hcall : call = ⟨result, none, cached⟩ := by simp only [call, Signer.call, hplan]
    have htrace : trace = ([⟨result, none⟩], { w with cached := cached }) := by
      simp only [trace, Setup.trace, move, hidle, hplan, List.append_nil]
    rw [hcall, htrace]
    exact ⟨rfl, rfl, hidle⟩
  | generate found =>
    let write := Write.of w.timeline.mirror (withKey u.codec u.account found fresh)
    have hcall : call = finish write fresh (w.timeline.admits write && fate = .confirmed) := by
      simp only [call, Signer.call, hplan, write]
    have htrace : trace = ([(u.deliver w.timeline found fresh write fate).1],
        (u.deliver w.timeline found fresh write fate).2) := by
      simp only [trace, Setup.trace, move, hidle, hplan, List.nil_append, List.append_nil, write]
    obtain ⟨hresult, hcached, hover⟩ := u.deliver_eq w.timeline found fresh write fate
    rw [hcall, htrace]
    exact ⟨congrArg (fun r => [r]) hresult, hcached, hover⟩

/-! ## What a call knows -/

/-- What the first lookup of a call found was held at some time, and it has no key. -/
def Grounded (u : Setup κ) (t : Timeline Secret) (found : Option Secret) : Prop :=
  ∀ s ∈ found, t.Held s ∧ key s = u.account ∧ s.value? Entry.tlsKey = none

variable {t : Timeline Secret} {found : Option Secret} {fresh : κ} {write : Write Secret}

theorem Grounded.mono (h : Grounded u t found) {t' : Timeline Secret}
    (ht : ∀ s, t.Held s → t'.Held s) : Grounded u t' found := fun s hs =>
  ⟨ht s (h s hs).1, (h s hs).2⟩

theorem Grounded.key_withKey (h : Grounded u t found) (fresh : κ) :
    key (withKey u.codec u.account found fresh) = u.account :=
  Signer.key_withKey fun s hs => (h s hs).2.1

theorem Grounded.isNamed_withKey (h : Grounded u t found) (ht : t.Sound u.version) (fresh : κ) :
    IsNamed (withKey u.codec u.account found fresh) :=
  Signer.isNamed_withKey fun s hs => ht.named s (h s hs).1

/-- A key is generated only for a secret that has none. -/
theorem grounded_of_plan (ht : t.Sound u.version) {cached : Option κ}
    (hplan : plan u.codec u.account t.mirror cached = .generate found) : Grounded u t found := by
  intro s hs
  have hvalue : (t.mirror.lookup u.account).bind (·.value? Entry.tlsKey) = none ∧
      t.mirror.lookup u.account = found := by
    simp only [plan] at hplan
    split at hplan
    · split at hplan
      · cases hplan
      · cases hplan
    · cases hplan
    · rename_i hnone
      exact ⟨hnone, Plan.generate.inj hplan⟩
  obtain ⟨hnone, hlookup⟩ := hvalue
  have hfound : t.mirror.lookup u.account = some s := hlookup.trans hs
  rw [hfound] at hnone
  obtain ⟨hheld, hkey⟩ := ht.of_lookup hfound
  exact ⟨hheld, hkey, hnone⟩

/-- The entries of the secret that is written. -/
theorem value?_written (u : Setup κ) (found : Option Secret) (fresh : κ) (version name : String) :
    (Versioned.withVersion (withKey u.codec u.account found fresh) version).value? name =
      if name = Entry.tlsKey then some (u.codec.encode fresh)
      else found.bind (·.value? name) := by
  show (withKey u.codec u.account found fresh).value? name = _
  rw [withKey, Secret.value?_setEntry]
  cases found <;> rfl

/-- A creation takes effect only where there was no account secret. -/
theorem accountOf_of_create (hnamed : IsNamed write.object) (hkey : key write.object = u.account)
    (hverb : write.verb = .create) (hadmits : t.admits write = true) :
    u.accountOf t.server = none := by
  rw [accountOf, ← hkey]
  exact Timeline.find?_of_create hnamed hverb hadmits

/-- An update of a secret that was found takes effect only while the server still holds that. -/
theorem accountOf_of_update {o : Secret} (ht : t.Sound u.version) (hfound : Grounded u t (some o))
    (hobject : write.object = withKey u.codec u.account (some o) fresh)
    (hverb : write.verb = .update) (hadmits : t.admits write = true) :
    u.accountOf t.server = some o := by
  obtain ⟨hheld, hkeyed, -⟩ := hfound o rfl
  have hnamed : IsNamed write.object := hobject ▸ hfound.isNamed_withKey ht fresh
  have hkey : key write.object = u.account := hobject ▸ hfound.key_withKey fresh
  have hversion : Resource.version? write.object = Resource.version? o := by
    rw [hobject]
    rfl
  rw [accountOf, ← hkey]
  exact ht.find?_of_admits hheld hnamed (hkey.trans hkeyed.symm) hversion hverb hadmits

/-- **A write that takes effect** stores the generated key. It keeps every entry, unless it is
blind: then the new key is all that is left. -/
theorem keeps_iff (ht : t.Sound u.version) (hfound : Grounded u t found)
    (hobject : write.object = withKey u.codec u.account found fresh)
    (hadmits : t.admits write = true) :
    let next := t.put u.version write.object
    let e : Effect κ := ⟨found, fresh, write.verb, u.accountOf t.server, u.accountOf next.server⟩
    (∃ s ∈ e.after, s.value? Entry.tlsKey = some (u.codec.encode fresh)) ∧
      (e.Keeps ↔ (e.IsBlind → e.Repeats u.codec)) := by
  intro next e
  have hnamed : IsNamed write.object := hobject ▸ hfound.isNamed_withKey ht fresh
  have hkey : key write.object = u.account := hobject ▸ hfound.key_withKey fresh
  have hwrites : e.Writes u.codec := by
    refine ⟨Versioned.withVersion write.object (u.version t.stored), ?_, fun name => ?_⟩
    · show (t.put u.version write.object).server.find? u.account.identifier = _
      rw [Timeline.find?_put hnamed, if_pos hkey.symm]
    · rw [hobject]
      exact value?_written u found fresh _ name
  refine ⟨hwrites.key, ?_⟩
  cases hverb : write.verb with
  | create =>
    -- there was nothing to be lost
    have hbefore : e.before = none := accountOf_of_create hnamed hkey hverb hadmits
    have hkeeps : e.Keeps := by
      intro s hs
      rw [hbefore] at hs
      cases hs
    have hseeing : ¬ e.IsBlind := fun hblind => by
      have hupdate : write.verb = .update := hblind.2
      rw [hverb] at hupdate
      cases hupdate
    exact iff_of_true hkeeps fun hblind => absurd hblind hseeing
  | update =>
    cases found with
    | some o =>
      have hbefore : e.before = some o := accountOf_of_update ht hfound hobject hverb hadmits
      have hkeeps : e.Keeps := hwrites.keeps_of_found hbefore fun s hs => (hfound s hs).2.2
      exact iff_of_true hkeeps fun hblind => by cases hblind.1
    | none =>
      have hblind : e.IsBlind := ⟨rfl, hverb⟩
      rw [hwrites.keeps_iff_repeats rfl]
      exact ⟨fun hrepeats _ => hrepeats, fun hrepeats => hrepeats hblind⟩

/-! ## Runs -/

end Setup

/-- What a call under way knows is grounded, and it writes what it found with the key that it
generated. -/
def Phase.Sound {κ : Type} (u : Setup κ) (t : Timeline Secret) : Phase κ → Prop
  | .idle => True
  | .generating found => u.Grounded t found
  | .writing found fresh write =>
    u.Grounded t found ∧ write.object = withKey u.codec u.account found fresh

structure Course.Sound {κ : Type} (u : Setup κ) (w : Course κ) : Prop where
  timeline : w.timeline.Sound u.version
  phase : w.phase.Sound u w.timeline

/-- What every effect of a call is like. -/
def Effect.Lawful {κ : Type} (u : Setup κ) (e : Effect κ) : Prop :=
  (∃ s ∈ e.after, s.value? Entry.tlsKey = some (u.codec.encode e.fresh)) ∧
    (e.Keeps ↔ (e.IsBlind → e.Repeats u.codec))

/-- **A write comes to its end**, and its call with it. -/
theorem Setup.sound_deliver {κ : Type} {u : Setup κ} (hversion : Function.Injective u.version)
    {t : Timeline Secret} (ht : t.Sound u.version) {found : Option Secret}
    (hfound : u.Grounded t found) {fresh : κ} {write : Write Secret}
    (hobject : write.object = withKey u.codec u.account found fresh) (fate : Fate) :
    (u.deliver t found fresh write fate).2.Sound u ∧
      ∀ e ∈ (u.deliver t found fresh write fate).1.effect, e.Lawful u := by
  unfold Setup.deliver
  by_cases hstored : t.admits write ∧ fate ≠ .dropped
  · have hnamed : IsNamed write.object := hobject ▸ hfound.isNamed_withKey ht fresh
    rw [if_pos hstored]
    refine ⟨⟨ht.put hversion hnamed, trivial⟩, ?_⟩
    rintro e ⟨⟩
    exact Setup.keeps_iff ht hfound hobject hstored.1
  · rw [if_neg hstored]
    exact ⟨⟨ht, trivial⟩, fun e he => by cases he⟩

namespace Course.Sound

variable {κ : Type} {u : Setup κ} {w : Course κ}

/-- The server and the mirror move on during a call, and nothing that was held is forgotten. -/
theorem pass (h : w.Sound u) {t : Timeline Secret} (ht : t.Sound u.version)
    (hheld : ∀ s, w.timeline.Held s → t.Held s) : Course.Sound u { w with timeline := t } := by
  refine ⟨ht, ?_⟩
  have hphase : w.phase.Sound u w.timeline := h.phase
  show w.phase.Sound u t
  cases hw : w.phase with
  | idle => trivial
  | generating found =>
    rw [hw] at hphase
    exact hphase.mono hheld
  | writing found fresh write =>
    rw [hw] at hphase
    exact ⟨hphase.1.mono hheld, hphase.2⟩

/-- **One move** of any kind. -/
theorem move (h : w.Sound u) (hversion : Function.Injective u.version) {m : Move κ}
    (hm : m.Allowed) :
    (u.move w m).2.Sound u ∧ ∀ e ∈ effects (u.move w m).1, e.Lawful u := by
  have hphase : w.phase.Sound u w.timeline := h.phase
  have hnone : ∀ e ∈ effects ([] : List (Ended κ)), e.Lawful u := fun e he => by cases he
  cases m with
  | look =>
    generalize hmove : u.move w .look = moved
    simp only [Setup.move] at hmove
    split at hmove
    · split at hmove
      · subst hmove
        exact ⟨⟨h.timeline, h.phase⟩, fun e he => by cases he⟩
      · rename_i found hplan
        subst hmove
        exact ⟨⟨h.timeline, Setup.grounded_of_plan h.timeline hplan⟩, hnone⟩
    · subst hmove
      exact ⟨h, hnone⟩
  | generate fresh =>
    generalize hmove : u.move w (.generate fresh) = moved
    simp only [Setup.move] at hmove
    split at hmove
    · rename_i found hw
      subst hmove
      rw [hw] at hphase
      exact ⟨⟨h.timeline, hphase, rfl⟩, hnone⟩
    · subst hmove
      exact ⟨h, hnone⟩
  | deliver fate =>
    generalize hmove : u.move w (.deliver fate) = moved
    simp only [Setup.move] at hmove
    split at hmove
    · rename_i found fresh write hw
      subst hmove
      rw [hw] at hphase
      obtain ⟨hnext, heffect⟩ :=
        Setup.sound_deliver hversion h.timeline hphase.1 hphase.2 fate
      refine ⟨hnext, fun e he => heffect e ?_⟩
      simpa [effects] using he
    · subst hmove
      exact ⟨h, hnone⟩
  | turnTo n => exact ⟨h.pass (h.timeline.turnTo n) fun s hs => hs.turnTo n, hnone⟩
  | put s => exact ⟨h.pass (h.timeline.put hversion hm) fun o ho => ho.put _ s, hnone⟩
  | remove s => exact ⟨h.pass (h.timeline.remove s) fun o ho => ho.remove s, hnone⟩

/-- **Moves in any order.** -/
theorem trace (hversion : Function.Injective u.version) {moves : List (Move κ)} (h : w.Sound u)
    (hmoves : ∀ m ∈ moves, m.Allowed) :
    ∀ e ∈ effects (u.trace w moves).1, e.Lawful u := by
  induction moves generalizing w with
  | nil =>
    intro e he
    cases he
  | cons m rest ih =>
    intro e he
    obtain ⟨hnext, hfirst⟩ := h.move hversion (hmoves m List.mem_cons_self)
    have hlater := ih hnext fun m hm => hmoves m (List.mem_cons_of_mem _ hm)
    have hlog : effects (u.trace w (m :: rest)).1 =
        effects (u.move w m).1 ++ effects (u.trace (u.move w m).2 rest).1 :=
      List.filterMap_append
    rw [hlog] at he
    rcases List.mem_append.1 he with he | he
    · exact hfirst e he
    · exact hlater e he

end Course.Sound

/-- **A write keeps all entries, unless it is blind.** Let the mirror of a server show any state
that the server was ever in, and move at any moment of a call; every stored object gets a fresh
version, and anyone may write any secret. A write that takes effect stores the generated key. It
keeps what the account secret held if the first lookup found a secret or the second one did not. An
update after a lookup that found nothing keeps all entries only where there was nothing but the key
that it writes. -/
theorem Setup.trace_keeps {κ : Type} (u : Setup κ) (hversion : Function.Injective u.version)
    {server : Mirror Secret} (hserver : Timeline.IsStart u.version server)
    {moves : List (Move κ)} (hmoves : ∀ m ∈ moves, m.Allowed) :
    ∀ e ∈ effects (u.trace ⟨{ server }, .idle, none⟩ moves).1,
      (∃ s ∈ e.after, s.value? Entry.tlsKey = some (u.codec.encode e.fresh)) ∧
        (e.Keeps ↔ (e.IsBlind → e.Repeats u.codec)) := by
  have hstart : Course.Sound u ⟨{ server }, .idle, none⟩ := ⟨.start hserver, trivial⟩
  exact hstart.trace hversion hmoves

theorem start_plain : Timeline.IsStart tallied.version plainServer where
  named s hs := (isStart_plain.served s hs).1
  versioned s hs := (isStart_plain.served s hs).2
  unissued := isStart_plain.unissued

/-- The first call finds the account secret and writes a key. The answer is lost, so that the second
call generates a key again. Its first lookup shows a state in which the secret was deleted, and its
second one the secret that someone has put there since. -/
def deletedMoves : List (Move RsaKey) :=
  [.turnTo 0, .look, .generate oneKey, .deliver .unconfirmed, .remove plainSecret, .turnTo 0, .look,
    .put plainSecret, .turnTo 0, .generate otherKey, .deliver .confirmed]

/-- The first write keeps what is there, and the second one does not. -/
theorem Setup.trace_keeps_deleted :
    let log := (tallied.trace ⟨{ server := plainServer }, .idle, none⟩ deletedMoves).1
    Function.Injective tallied.version ∧ Timeline.IsStart tallied.version plainServer ∧
      (∀ m ∈ deletedMoves, m.Allowed) ∧ (∃ e ∈ effects log, e.before.isSome ∧ e.Keeps) ∧
      ∃ e ∈ effects log, ¬ e.Keeps := by
  intro log
  have hallowed : ∀ m ∈ deletedMoves, m.Allowed := by
    intro m hm
    simp only [deletedMoves, List.mem_cons, List.not_mem_nil, or_false] at hm
    rcases hm with rfl | rfl | rfl | rfl | rfl | rfl | rfl | rfl | rfl | rfl | rfl
    case inr.inr.inr.inr.inl => exact ⟨rfl, rfl⟩
    case inr.inr.inr.inr.inr.inr.inr.inl => exact ⟨rfl, rfl⟩
    all_goals trivial
  have hkeeps := tallied.trace_keeps injective_tallied start_plain hallowed
  have hfirst : ∃ e ∈ effects log, e.found.isSome ∧ e.before.isSome := by decide +kernel
  have hsecond : ∃ e ∈ effects log, e.found.isNone ∧ e.verb = .update ∧
      e.before.bind (·.value? "note") = some [] := by decide +kernel
  refine ⟨injective_tallied, start_plain, hallowed, ?_, ?_⟩
  · obtain ⟨e, he, hfound, hbefore⟩ := hfirst
    refine ⟨e, he, hbefore, (hkeeps e he).2.2 fun hblind => ?_⟩
    rw [hblind.1] at hfound
    cases hfound
  · obtain ⟨e, he, hfound, hverb, hnote⟩ := hsecond
    obtain ⟨s, hs, hvalue⟩ := Option.bind_eq_some_iff.1 hnote
    have hblind : e.IsBlind := ⟨Option.isNone_iff_eq_none.1 hfound, hverb⟩
    refine ⟨e, he, fun hkept => ?_⟩
    obtain ⟨hname, -⟩ := (hkeeps e he).2.1 hkept hblind s hs "note" [] hvalue
    exact absurd hname (by decide)

/-! ## A key that is destroyed -/

/-- An account secret that holds a key. -/
def keyedSecret : Secret where
  metadata := { ns := some "web", name := some "account", resourceVersion := some (tally 0) }
  data := some (Dict.ofList [(Entry.tlsKey, rsaCodec.encode otherKey)])

def keyedServer : Mirror Secret := ⟨[keyedSecret], by simp⟩

/-- The mirror is empty when the call begins, and shows the account secret when the key is
generated. -/
def lateMoves : List (Move RsaKey) := [.look, .turnTo 0, .generate oneKey, .deliver .confirmed]

/-- **A key that the server holds can be destroyed**, by a call that nobody else interferes with. -/
theorem not_trace_keeps :
    ¬ ∀ server, Timeline.IsStart tallied.version server → ∀ moves : List (Move RsaKey),
      (∀ m ∈ moves, m.IsOwn) →
      ∀ e ∈ effects (tallied.trace ⟨{ server }, .idle, none⟩ moves).1, e.Keeps := by
  intro hkeeps
  have hstart : Timeline.IsStart tallied.version keyedServer := by
    refine ⟨fun s hs => ?_, fun s hs => ?_, fun s hs n h => ?_⟩
    · rw [List.mem_singleton.1 hs]
      exact ⟨rfl, rfl⟩
    · rw [List.mem_singleton.1 hs]
      rfl
    · rw [List.mem_singleton.1 hs] at h
      exact tally_zero_ne n (Option.some.inj h)
  have hown : ∀ m ∈ lateMoves, m.IsOwn := by
    intro m hm
    simp only [lateMoves, List.mem_cons, List.not_mem_nil, or_false] at hm
    rcases hm with rfl | rfl | rfl | rfl <;> trivial
  have hlost : ∃ e ∈ effects (tallied.trace ⟨{ server := keyedServer }, .idle, none⟩ lateMoves).1,
      e.before.bind (·.value? Entry.tlsKey) = some (rsaCodec.encode otherKey) ∧
        e.after.bind (·.value? Entry.tlsKey) = some (rsaCodec.encode oneKey) := by decide +kernel
  obtain ⟨e, he, hbefore, hafter⟩ := hlost
  obtain ⟨s, hs, hvalue⟩ := Option.bind_eq_some_iff.1 hbefore
  obtain ⟨s', hs', hkept⟩ := hkeeps keyedServer hstart lateMoves hown e he s hs _ _ hvalue
  have hsame : rsaCodec.encode otherKey = rsaCodec.encode oneKey := by
    rw [hs', Option.bind_some, hkept] at hafter
    exact Option.some.inj hafter
  exact absurd hsame (by decide +kernel)

end Signer

end IngressWatch
