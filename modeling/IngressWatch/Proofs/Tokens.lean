import IngressWatch.Acme.Challenge
import IngressWatch.Proofs.Account
import IngressWatch.Proofs.Timeline

/-!
# No challenge token is lost

Any number of calls publish tokens at the same time. Each computes its write from what the mirror
shows, which may be any state that the server was ever in, and the write reaches the server later.
All other config maps may be written by anyone.

* `Challenge.Setup.run`: calls that begin and writes that arrive in any order, with the results of
  the calls in the order of their writes.
* `Challenge.Setup.Based`: a write on its way applies its call to what the server once held, under
  the version that it had, or creates the config map.
* `Challenge.Setup.Sound.finish`: **a call that succeeds is applied to what the server holds at
  that moment, and any other call changes nothing.**
* `Challenge.Setup.run_published`: the config map is the start with the successful calls applied to
  it, so that each domain has the entry of its last successful call.
-/

namespace IngressWatch

open Resource

/-- What a config map holds, apart from the version under which it is stored. -/
def ConfigMap.unversioned (m : ConfigMap) : ConfigMap :=
  { m with metadata := { m.metadata with resourceVersion := none } }

namespace Challenge

/-- A call that publishes a token, or removes the entry of its domain if the token is empty. -/
structure Call where
  domain : String
  uri : String
  token : String
deriving DecidableEq, Repr

/-- The config map after the call. -/
def Call.apply (c : Call) (map : ConfigMap) : ConfigMap := update map c.domain c.uri c.token

/-- The entry that the call leaves for its domain. -/
def Call.entry (c : Call) : Option String :=
  if c.token = "" then none else some (encode c.uri c.token)

/-- The config map of tokens after a call; it may not have been there before. -/
def publish (tokens : Key) (held : Option ConfigMap) (c : Call) : Option ConfigMap :=
  some (c.apply (held.getD (.ofKey tokens)))

/-- The entry of a domain in the config map of tokens, if that is there. -/
def entryOf (held : Option ConfigMap) (domain : String) : Option String :=
  (held.bind (·.data)).bind (·.get? domain)

theorem entryOf_publish (tokens : Key) (held : Option ConfigMap) (c : Call) (domain : String) :
    entryOf (publish tokens held c) domain =
      if domain = c.domain then c.entry else entryOf held domain := by
  -- a config map without data is as good as an empty one
  have hdata : ((held.getD (.ofKey tokens)).data.getD Dict.empty).get? domain =
      entryOf held domain := by
    cases held with
    | none => rfl
    | some map =>
      simp only [entryOf, Option.getD_some, Option.bind_some]
      cases map.data <;> rfl
  show (update (held.getD (.ofKey tokens)) c.domain c.uri c.token).data.bind (·.get? domain) = _
  unfold update Call.entry
  by_cases htoken : c.token = ""
  · simp only [if_pos htoken, Option.bind_some, Dict.get?_erase, hdata]
  · simp only [if_neg htoken, Option.bind_some, Dict.get?_insert, hdata]

/-- Calls for other domains leave the entry of a domain alone. -/
theorem entryOf_foldl_publish (tokens : Key) {domain : String} {calls : List Call}
    (h : ∀ c ∈ calls, c.domain ≠ domain) (held : Option ConfigMap) :
    entryOf (calls.foldl (publish tokens) held) domain = entryOf held domain := by
  induction calls generalizing held with
  | nil => rfl
  | cons c rest ih =>
    have hne : domain ≠ c.domain := (h c List.mem_cons_self).symm
    rw [List.foldl_cons, ih fun d hd => h d (List.mem_cons_of_mem _ hd), entryOf_publish,
      if_neg hne]

/-- **The last call for a domain** decides the domain's entry. -/
theorem entryOf_foldl_of_last (tokens : Key) {calls before after : List Call} {c : Call}
    (hcalls : calls = before ++ c :: after) (hafter : ∀ d ∈ after, d.domain ≠ c.domain)
    (held : Option ConfigMap) :
    entryOf (calls.foldl (publish tokens) held) c.domain = c.entry := by
  rw [hcalls, List.foldl_append, List.foldl_cons, entryOf_foldl_publish tokens hafter,
    entryOf_publish, if_pos rfl]

/-! ## Callers and their server -/

/-- The setting of the callers and their server. -/
structure Setup where
  tokens : Key
  /-- The version that the server gives to the `n`-th object that it stores. -/
  version : Nat → String

structure World where
  timeline : Timeline ConfigMap
  /-- The calls whose writes are on their way. -/
  pending : List (Call × Write ConfigMap) := []

inductive Step where
  /-- A call looks at the mirror and sends its write. -/
  | begin (c : Call)
  /-- The `n`-th write on its way reaches the server, or is lost. The call ends. -/
  | finish (n : Nat) (arrives : Bool)
  | turnTo (n : Nat)
  /-- Someone writes another config map. -/
  | put (m : ConfigMap)
  /-- Someone deletes another config map. -/
  | remove (m : ConfigMap)

/-- The calls that have succeeded. -/
def succeeded (log : List (Call × Except Error Unit)) : List Call :=
  log.filterMap fun e => if e.2.isOk then some e.1 else none

namespace Setup

variable (u : Setup)

/-- The write by which a call publishes its token. -/
def tokenWrite (m : Mirror ConfigMap) (c : Call) : Write ConfigMap :=
  Challenge.set u.tokens m c.domain c.uri c.token

def finish (w : World) (n : Nat) (arrives : Bool) : List (Call × Except Error Unit) × World :=
  match w.pending[n]? with
  | none => ([], w)
  | some (c, write) =>
    let accepted := w.timeline.admits write && arrives
    let timeline := if accepted then w.timeline.put u.version write.object else w.timeline
    ([(c, write.settle accepted)], ⟨timeline, w.pending.eraseIdx n⟩)

def step (w : World) : Step → List (Call × Except Error Unit) × World
  | .begin c => ([], { w with pending := w.pending ++ [(c, u.tokenWrite w.timeline.mirror c)] })
  | .finish n arrives => u.finish w n arrives
  | .turnTo n => ([], { w with timeline := w.timeline.turnTo n })
  | .put m => ([], { w with timeline := w.timeline.put u.version m })
  | .remove m => ([], { w with timeline := w.timeline.remove m })

/-- A run, with the results of its calls in the order of their writes. -/
def run (w : World) : List Step → List (Call × Except Error Unit) × World
  | [] => ([], w)
  | s :: rest =>
    let (later, last) := run (u.step w s).2 rest
    ((u.step w s).1 ++ later, last)

/-- Nobody else touches the config map of tokens. -/
def Allows : Step → Prop
  | .put m | .remove m => IsNamed m ∧ key m ≠ u.tokens
  | _ => True

/-- The config map of tokens that a state of the server holds. -/
def published (m : Mirror ConfigMap) : Option ConfigMap :=
  (m.find? u.tokens.identifier).map (·.unversioned)

/-! ## Writes on their way -/

/-- The write of a call, as it may be on its way: an update of what the server once held, or a
creation. -/
inductive Based (u : Setup) (t : Timeline ConfigMap) (c : Call) : Write ConfigMap → Prop
  | update (base : ConfigMap) (held : t.Held base) (keyed : key base = u.tokens) :
    Based u t c ⟨.update, c.apply base⟩
  | create : Based u t c ⟨.create, c.apply (.ofKey u.tokens)⟩

variable {u : Setup} {t : Timeline ConfigMap} {c : Call} {write : Write ConfigMap} {m : ConfigMap}

theorem Based.mono (h : Based u t c write) {t' : Timeline ConfigMap}
    (ht : ∀ o, t.Held o → t'.Held o) : Based u t' c write := by
  cases h with
  | update base held keyed => exact .update base (ht base held) keyed
  | create => exact .create

theorem Based.key_eq (h : Based u t c write) : key write.object = u.tokens := by
  cases h with
  | update base held keyed => exact keyed
  | create => rfl

theorem Based.isNamed (h : Based u t c write) (ht : t.Sound u.version) : IsNamed write.object := by
  cases h with
  | update base held keyed => exact ⟨(ht.named base held).ns, (ht.named base held).name⟩
  | create => exact ⟨rfl, rfl⟩

/-- Both lookups of a call find the same, and so its verb fits its object. -/
theorem based_tokenWrite (ht : t.Sound u.version) (c : Call) :
    Based u t c (u.tokenWrite t.mirror c) := by
  have hwrite : u.tokenWrite t.mirror c =
      .of t.mirror (c.apply ((t.mirror.lookup u.tokens).getD (.ofKey u.tokens))) := rfl
  cases hlookup : t.mirror.lookup u.tokens with
  | none =>
    have hverb : t.mirror.lookup (key (c.apply (.ofKey u.tokens))) = none := hlookup
    rw [hwrite, hlookup, Option.getD_none, Write.of, hverb]
    exact .create
  | some base =>
    obtain ⟨hheld, hbase⟩ := ht.of_lookup hlookup
    have hkey : key (c.apply base) = u.tokens := hbase
    have hverb : t.mirror.lookup (key (c.apply base)) = some base := by rw [hkey, hlookup]
    rw [hwrite, hlookup, Option.getD_some, Write.of, hverb]
    exact .update base hheld hbase

/-- A write that is admitted was computed from what the server holds. -/
theorem Based.publishes (h : Based u t c write) (ht : t.Sound u.version)
    (hadmits : t.admits write = true) :
    u.published (t.put u.version write.object).server =
      publish u.tokens (u.published t.server) c := by
  have hnamed : IsNamed write.object := h.isNamed ht
  have hkey : key write.object = u.tokens := h.key_eq
  have hafter : u.published (t.put u.version write.object).server =
      some write.object.unversioned := by
    rw [published, Timeline.find?_put hnamed, if_pos hkey.symm]
    rfl
  rw [hafter]
  cases h with
  | update base held keyed =>
    have hbefore : t.server.find? u.tokens.identifier = some base := by
      rw [← hkey]
      exact ht.find?_of_admits held hnamed rfl rfl rfl hadmits
    rw [published, hbefore]
    rfl
  | create =>
    have hbefore : t.server.find? u.tokens.identifier = none := by
      rw [← hkey]
      exact Timeline.find?_of_create hnamed rfl hadmits
    rw [published, hbefore]
    rfl

theorem published_put (hm : IsNamed m) (hkey : key m ≠ u.tokens) :
    u.published (t.put u.version m).server = u.published t.server := by
  rw [published, Timeline.find?_put hm, if_neg hkey.symm, published]

theorem published_remove (hm : IsNamed m) (hkey : key m ≠ u.tokens) :
    u.published (t.remove m).server = u.published t.server := by
  rw [published, Timeline.find?_remove hm, if_neg hkey.symm, published]

/-! ## Runs -/

/-- Versions are sound, and every write on its way is based on what the server once held. -/
structure Sound (u : Setup) (w : World) : Prop where
  timeline : w.timeline.Sound u.version
  based : ∀ e ∈ w.pending, Based u w.timeline e.1 e.2

namespace Sound

variable {w : World}

/-- The server and the mirror move on, and nothing that was held is forgotten. -/
theorem move (h : Sound u w) {t : Timeline ConfigMap} (ht : t.Sound u.version)
    (hheld : ∀ o, w.timeline.Held o → t.Held o) : Sound u { w with timeline := t } :=
  ⟨ht, fun e he => (h.based e he).mono hheld⟩

theorem begin (h : Sound u w) (c : Call) : Sound u (u.step w (.begin c)).2 := by
  refine ⟨h.timeline, fun e he => ?_⟩
  rcases List.mem_append.1 he with he | he
  · exact h.based e he
  · rw [List.mem_singleton.1 he]
    exact based_tokenWrite h.timeline c

/-- **A write reaches the server or is lost.** The call that succeeds is applied to what the server
holds at that moment, and one that fails changes nothing. -/
theorem finish (h : Sound u w) (hversion : Function.Injective u.version) (n : Nat)
    (arrives : Bool) :
    Sound u (u.finish w n arrives).2 ∧
      u.published (u.finish w n arrives).2.timeline.server =
        (succeeded (u.finish w n arrives).1).foldl (publish u.tokens)
          (u.published w.timeline.server) := by
  unfold Setup.finish
  cases hn : w.pending[n]? with
  | none => exact ⟨h, rfl⟩
  | some e =>
    obtain ⟨c, write⟩ := e
    have hbased : Based u w.timeline c write := h.based (c, write) (List.mem_of_getElem? hn)
    have hrest : Sound u { w with pending := w.pending.eraseIdx n } :=
      ⟨h.timeline, fun e he => h.based e (List.mem_of_mem_eraseIdx he)⟩
    by_cases haccepted : (w.timeline.admits write && arrives) = true
    · have hadmits : w.timeline.admits write = true := (Bool.and_eq_true_iff.1 haccepted).1
      have hnamed : IsNamed write.object := hbased.isNamed h.timeline
      simp only [haccepted, if_true]
      exact ⟨hrest.move (h.timeline.put hversion hnamed) fun o ho => ho.put _ _,
        hbased.publishes h.timeline hadmits⟩
    · have hrefused : (w.timeline.admits write && arrives) = false := by simpa using haccepted
      simp only [hrefused, Bool.false_eq_true, if_false]
      exact ⟨hrest, rfl⟩

/-- **One step** of any kind. -/
theorem step (h : Sound u w) (hversion : Function.Injective u.version) {s : Step}
    (hs : u.Allows s) :
    Sound u (u.step w s).2 ∧
      u.published (u.step w s).2.timeline.server =
        (succeeded (u.step w s).1).foldl (publish u.tokens) (u.published w.timeline.server) := by
  cases s with
  | begin c => exact ⟨h.begin c, rfl⟩
  | finish n arrives => exact h.finish hversion n arrives
  | turnTo n => exact ⟨h.move (h.timeline.turnTo n) fun o ho => ho.turnTo n, rfl⟩
  | put m =>
    exact ⟨h.move (h.timeline.put hversion hs.1) fun o ho => ho.put _ _,
      published_put hs.1 hs.2⟩
  | remove m =>
    exact ⟨h.move (h.timeline.remove m) fun o ho => ho.remove m, published_remove hs.1 hs.2⟩

/-- **A run** applies the calls that succeed in it, in the order of their writes. -/
theorem run (hversion : Function.Injective u.version) {steps : List Step} (h : Sound u w)
    (hsteps : ∀ s ∈ steps, u.Allows s) :
    u.published (u.run w steps).2.timeline.server =
      (succeeded (u.run w steps).1).foldl (publish u.tokens) (u.published w.timeline.server) := by
  induction steps generalizing w with
  | nil => rfl
  | cons s rest ih =>
    obtain ⟨hnext, hfirst⟩ := h.step hversion (hsteps s List.mem_cons_self)
    have hlater := ih hnext fun s hs => hsteps s (List.mem_cons_of_mem _ hs)
    have hlog : succeeded (u.run w (s :: rest)).1 =
        succeeded (u.step w s).1 ++ succeeded (u.run (u.step w s).2 rest).1 :=
      List.filterMap_append
    rw [hlog, List.foldl_append, ← hfirst]
    exact hlater

end Sound

/-- **No token is lost.** The mirror of a server shows any state that the server was ever in, every
stored object gets a fresh version, and only these calls write the config map of tokens. At every
moment the server holds the start with the calls that have succeeded applied in the order of their
writes. The entry of a domain is the one of its last successful call, whatever calls for other
domains did since. -/
theorem run_published (u : Setup) (hversion : Function.Injective u.version)
    {server : Mirror ConfigMap} (hserver : Timeline.IsStart u.version server) {steps : List Step}
    (hsteps : ∀ s ∈ steps, u.Allows s) :
    let run := u.run ⟨{ server }, []⟩ steps
    let now := u.published run.2.timeline.server
    now = (succeeded run.1).foldl (publish u.tokens) (u.published server) ∧
      ∀ before c after, succeeded run.1 = before ++ c :: after →
        (∀ d ∈ after, d.domain ≠ c.domain) → entryOf now c.domain = c.entry := by
  intro run now
  have hstart : Sound u ⟨{ server }, []⟩ := ⟨.start hserver, fun e he => by cases he⟩
  have hnow : now = (succeeded run.1).foldl (publish u.tokens) (u.published server) :=
    hstart.run hversion hsteps
  refine ⟨hnow, fun before c after hcalls hafter => ?_⟩
  rw [hnow]
  exact entryOf_foldl_of_last u.tokens hcalls hafter _

end Setup

/-- A config map with the entry of one domain. -/
def listedTokens : ConfigMap where
  metadata := { ns := some "web", name := some "tokens", resourceVersion := some (Signer.tally 0) }
  data := some (Dict.ofList [("a.test", "/old=x")])

def listedServer : Mirror ConfigMap := ⟨[listedTokens], by simp⟩

def listedSetup : Setup := ⟨⟨"web", "tokens"⟩, Signer.tallied.version⟩

theorem isStart_listed : Timeline.IsStart listedSetup.version listedServer where
  named m hm := by
    rw [List.mem_singleton.1 hm]
    exact ⟨rfl, rfl⟩
  versioned m hm := by
    rw [List.mem_singleton.1 hm]
    rfl
  unissued m hm n h := by
    rw [List.mem_singleton.1 hm] at h
    exact Signer.tally_zero_ne n (Option.some.inj h)

/-- The first call looks at an empty mirror, and the next two at the start of the server. The
removal is written first, so the others are refused. The addition is made again when the mirror has
caught up. The last call sees the start once more and is refused. -/
def staleSteps : List Step :=
  let removal : Call := ⟨"a.test", "", ""⟩
  let addition : Call := ⟨"b.test", "/new", "y"⟩
  [.begin addition, .turnTo 0, .begin removal, .begin addition, .finish 1 true, .finish 1 true,
    .finish 0 true, .put { metadata := { ns := some "web", name := some "other" } }, .turnTo 0,
    .begin addition, .finish 0 true, .turnTo 3, .begin removal, .finish 0 true]

theorem allows_stale : ∀ s ∈ staleSteps, listedSetup.Allows s := by
  intro s hs
  simp only [staleSteps, List.mem_cons, List.not_mem_nil, or_false] at hs
  rcases hs with rfl | rfl | rfl | rfl | rfl | rfl | rfl | rfl | rfl | rfl | rfl | rfl | rfl | rfl
  case inr.inr.inr.inr.inr.inr.inr.inl => exact ⟨⟨rfl, rfl⟩, by decide⟩
  all_goals trivial

/-- Refused calls have no effect, and what succeeded stays. -/
theorem Setup.run_published_stale :
    let run := listedSetup.run ⟨{ server := listedServer }, []⟩ staleSteps
    let now := listedSetup.published run.2.timeline.server
    Function.Injective listedSetup.version ∧
      Timeline.IsStart listedSetup.version listedServer ∧
      (∀ s ∈ staleSteps, listedSetup.Allows s) ∧
      succeeded run.1 = [⟨"a.test", "", ""⟩, ⟨"b.test", "/new", "y"⟩] ∧ run.1.length = 5 ∧
      entryOf now "a.test" = none ∧ entryOf now "b.test" = some "/new=y" := by
  have hcalls : succeeded (listedSetup.run ⟨{ server := listedServer }, []⟩ staleSteps).1 =
      [⟨"a.test", "", ""⟩, ⟨"b.test", "/new", "y"⟩] := by decide +kernel
  obtain ⟨-, hentry⟩ :=
    listedSetup.run_published Signer.injective_tallied isStart_listed allows_stale
  refine ⟨Signer.injective_tallied, isStart_listed, allows_stale, hcalls, by decide +kernel, ?_, ?_⟩
  · exact hentry [] _ [_] hcalls (by decide)
  · exact hentry [_] _ [] hcalls (by decide)

end Challenge

end IngressWatch
