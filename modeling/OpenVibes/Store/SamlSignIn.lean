import OpenVibes.Store.SsoPrograms

/-!
# A sign-in by SAML is used once

* `Matched` — a request is taken under the relay and browser digests it was started with, once, and before it ends.
* `Remembered` — an assertion that has let somebody in is remembered, or forgotten after its end: it lets nobody in
  again, unless a sign-in that began before inserts it after a later cleanup (`Timely`).
* `Names` — whoever is let in is enabled, is the user of this issuer and subject, and has a role, unless another program
  takes it before the commit (`Undisturbed`).
-/

namespace OpenVibes.Store.ConsoleSso

open Theory List Function Cells Cell Option Sessions

/-! ### Requests -/

def Event.relay? : Event → Option ℕ
  | .started relay _ _ _ => some relay
  | .taken relay _ _ _ => some relay
  | _ => none

/-- The request waits: nothing has happened under its relay digest since its start. -/
def Waits (log : List Event) (relay : ℕ) (requestId : String) (browser : ℕ) (expiresAt : ℤ) : Prop :=
  ∃ before after, log = before ++ .started relay requestId browser expiresAt :: after ∧
    ∀ e ∈ after, e.relay? ≠ some relay

/-- Every request that was taken was waiting, for this browser, and had not ended. -/
def Matched (log : List Event) : Prop :=
  ∀ before relay requestId browser now after, log = before ++ .taken relay requestId browser now :: after →
    ∃ expiresAt, Waits before relay requestId browser expiresAt ∧ now < expiresAt

theorem waits_started (log : List Event) (relay : ℕ) (req : String) (browser : ℕ) (expiresAt : ℤ) :
    Waits (log ++ [.started relay req browser expiresAt]) relay req browser expiresAt :=
  ⟨log, [], rfl, by simp⟩

variable {e : Event} {expiresAt : ℤ}

theorem Waits.append {log : List Event} {relay browser : ℕ} {req : String}
    (h : Waits log relay req browser expiresAt) (he : e.relay? ≠ some relay) :
    Waits (log ++ [e]) relay req browser expiresAt := by
  obtain ⟨before, after, rfl, haft⟩ := h
  refine ⟨before, after ++ [e], by simp, fun e' he' => ?_⟩
  rcases mem_append.mp he' with he' | he'
  · exact haft e' he'
  · exact mem_singleton.mp he' ▸ he

theorem Matched.append {log : List Event} (h : Matched log)
    (he : ∀ relay req browser now, e = .taken relay req browser now →
      ∃ expiresAt, Waits log relay req browser expiresAt ∧ now < expiresAt) :
    Matched (log ++ [e]) := by
  intro before relay req browser now after heq
  rcases eq_nil_or_concat after with rfl | ⟨rest, last, rfl⟩
  · obtain ⟨rfl, hla⟩ := append_inj' heq rfl
    exact he relay req browser now (singleton_inj.mp hla)
  have hspl : log ++ [e] = (before ++ .taken relay req browser now :: rest) ++ [last] := by
    rw [heq]
    simp
  exact h before relay req browser now rest (append_inj' hspl rfl).1

/-- The invariant: a request in the table that is not used waits. -/
structure Db.Requested (s : Db) : Prop where
  matched : Matched s.log
  waits : ∀ relay r, s.requests relay = some r → r.consumedAt = none →
    Waits s.log relay r.requestId r.browserSha256 r.expiresAt

variable {s s' : Db}

theorem Db.Requested.log (h : s.Requested) (hrq : s'.requests = s.requests) (hlog : s'.log = s.log ++ [e])
    (he : e.relay? = none) : s'.Requested := by
  refine ⟨?_, fun relay r hr hfrs => ?_⟩
  · rw [hlog]
    refine h.matched.append fun relay req browser now heq => ?_
    rw [heq] at he
    cases he
  · rw [hrq] at hr
    rw [hlog]
    exact (h.waits relay r hr hfrs).append (by simp [he])

variable {t : ℕ}

theorem Db.Requested.acts (h : s.Requested) (hac : Acts t s s') : s'.Requested := by
  cases hac with
  | forgetRequests now => exact ⟨h.matched, fun relay r hr => h.waits relay r (filter_eq_some_iff.mp hr).1⟩
  | forgetSeen now => exact h.log rfl rfl rfl
  | start n relays hnn =>
    refine ⟨h.matched.append nofun, fun relay r hr hfrs => ?_⟩
    rcases update_cases hr with ⟨rfl, hnew⟩ | ⟨hne, hold⟩
    · cases hnew
      exact waits_started ..
    · exact (h.waits relay r hold hfrs).append fun heq => hne (some.inj heq).symm
  | @take relay r browser now hrow htakeable =>
    simp only [Request.takeable, Bool.and_eq_true, decide_eq_true_eq, isNone_iff_eq_none] at htakeable
    obtain ⟨⟨rfl, hfrs⟩, hnow⟩ := htakeable
    refine ⟨h.matched.append fun relay' req browser now' heq => ?_, fun relay' r' hr' hfrs' => ?_⟩
    · obtain ⟨rfl, rfl, rfl, rfl⟩ := Event.taken.inj heq
      exact ⟨r.expiresAt, h.waits relay r hrow hfrs, hnow⟩
    rcases update_cases hr' with ⟨rfl, hnew⟩ | ⟨hne, hold⟩
    · cases hnew
      cases hfrs'
    · exact (h.waits relay' r' hold hfrs').append fun heq => hne (some.inj heq).symm
  | _ => exact ⟨h.matched, h.waits⟩

theorem Db.Requested.record (h : s.Requested) (a : Answer) : (s.record a).Requested := by
  unfold Db.record
  split
  · exact h.log rfl rfl rfl
  · exact h

variable {S S' : Running} {m : Move ℕ Call Outside}

variable {lower : String → String}

/-- **Requests are taken as they should be**, whatever happens. -/
theorem Db.Requested.step (hS : Reached S) (h : S.state.Requested) (hst : (system lower).step S m = some S') :
    S'.state.Requested := by
  obtain ⟨-, hds⟩ := (system_safe lower).step_cases hS hst
  generalize S'.state = s' at hds ⊢
  cases hds with
  | start t call => exact h
  | act t _ hac => exact h.acts hac
  | close t call e =>
    cases e with
    | commit a => exact .record (s := S.state.commit t) ⟨h.matched, h.waits⟩ a
    | rollback a => exact ⟨h.matched, h.waits⟩
  | abort t => exact ⟨h.matched, h.waits⟩
  | outside op _ heff =>
    obtain ⟨hlog, hrq, -⟩ := Outside.kept heff
    refine ⟨hlog ▸ h.matched, ?_⟩
    rw [hlog, hrq]
    exact h.waits

/-! ### Assertions -/

def Event.allows : Event → Option Assertion
  | .allowed a _ => some a
  | _ => none

def Db.accepted (s : Db) : List Assertion := s.log.filterMap Event.allows

variable {u : ℕ} {p : Person} {ends : Assertion → ℤ}

section

/-- The invariant: an assertion that let somebody in is remembered until an hour after its end, or a later cleanup came
by. -/
structure Db.Remembered (ends : Assertion → ℤ) (s : Db) : Prop where
  once : s.accepted.Nodup
  kept : ∀ a ∈ s.accepted, (s.seen a).committed = some (rememberUntil (ends a)) ∨
    ∃ now, .forgot now ∈ s.log ∧ rememberUntil (ends a) < now
  fresh : ∀ a t v, (s.seen a).held = some (t, v) → (s.seen a).committed = none ∧ v.isSome = true ∧ a ∉ s.accepted

section

variable (h : s.Remembered ends) {a : Assertion}

include h

theorem Db.Remembered.log (hse : s'.seen = s.seen) (hlog : s'.log = s.log ++ [e])
    (he : e.allows = none) : s'.Remembered ends := by
  have hacc : s'.accepted = s.accepted := by simp [Db.accepted, hlog, he]
  refine ⟨hacc ▸ h.once, fun a ha => ?_, fun a t v hhd => ?_⟩
  · rw [hacc] at ha
    rw [hse, hlog]
    rcases h.kept a ha with hkp | ⟨now, hmem, hnow⟩
    · exact .inl hkp
    · exact .inr ⟨now, mem_append_left _ hmem, hnow⟩
  · rw [hse] at hhd ⊢
    rw [hacc]
    exact h.fresh a t v hhd

theorem Db.Remembered.same (hse : s'.seen = s.seen) (hlog : s'.log = s.log) : s'.Remembered ends := by
  have hacc : s'.accepted = s.accepted := by rw [Db.accepted, Db.accepted, hlog]
  refine ⟨hacc ▸ h.once, ?_, ?_⟩
  · rw [hacc, hse, hlog]
    exact h.kept
  · rw [hacc, hse]
    exact h.fresh

theorem Db.Remembered.own_none (ha : a ∈ s.accepted) : (s.seen a).own t = none := by
  cases hown : (s.seen a).own t with
  | none => rfl
  | some p => exact absurd ha (h.fresh a t p.2 (own_iff.mp hown).2).2.2

theorem Db.Remembered.close (hend : s.Ends t s') (hlog : s'.log = s.log) : s'.Remembered ends := by
  have hacc : s'.accepted = s.accepted := by rw [Db.accepted, Db.accepted, hlog]
  refine ⟨hacc ▸ h.once, fun a ha => ?_, fun a r v hhd => ?_⟩
  · rw [hacc] at ha
    rw [(hend.seen a).committed (h.own_none ha), hlog]
    exact h.kept a ha
  · obtain ⟨hhd, hown⟩ := (hend.seen a).held hhd
    rw [(hend.seen a).committed hown, hacc]
    exact h.fresh a r v hhd

theorem Db.Remembered.commit : (s.commit t).Remembered ends := h.close (ends_commit t s) rfl

theorem Db.Remembered.abort : (s.abort t).Remembered ends := h.close (ends_abort t s) rfl

theorem Db.Remembered.insert (hfr : (s.seen a).free t = true) (hvw : (s.seen a).view t = none)
    (htim : (s.seen a).held = none → ∀ now, .forgot now ∈ s.log → now ≤ rememberUntil (ends a)) :
    Db.Remembered ends { s with seen := s.seen.write t a (some expiresAt) } := by
  have hhd : (s.seen a).held = none := by
    rcases free_cases hfr with ⟨p, hown⟩ | hhd
    · have hsm := (h.fresh a t p.2 (own_iff.mp hown).2).2.1
      rw [← view_of_own hown, hvw] at hsm
      cases hsm
    · exact hhd
  have hcom : (s.seen a).committed = none := by
    rw [← view_of_none (own_of_held_none hhd), hvw]
  have hnew : a ∉ s.accepted := fun ha => by
    rcases h.kept a ha with hkp | ⟨now, hmem, hnow⟩
    · rw [hcom] at hkp
      cases hkp
    · exact absurd (htim hhd now hmem) (by omega)
  refine ⟨h.once, fun a' ha' => ?_, fun a' r v hv => ?_⟩
  · rw [committed_write]
    exact h.kept a' ha'
  rw [committed_write]
  rcases held_write hv with ⟨rfl, rfl, rfl⟩ | ⟨-, hv⟩
  · exact ⟨hcom, rfl, hnew⟩
  · exact h.fresh a' r v hv

theorem Db.Remembered.forget (now : ℤ) :
    Db.Remembered ends { s with
      seen := fun k =>
        if (s.seen k).held.isNone && (s.seen k).committed.any fun expiresAt => expiresAt < now then .settled none
        else s.seen k
      log := s.log ++ [.forgot now] } := by
  have hacc : ∀ seen, Db.accepted { s with seen := seen, log := s.log ++ [.forgot now] } = s.accepted := fun seen => by
    simp [Db.accepted, Event.allows]
  refine ⟨?_, fun a ha => ?_, fun a r v hv => ?_⟩
  · rw [hacc]
    exact h.once
  · rw [hacc] at ha
    dsimp only
    rcases h.kept a ha with hkp | ⟨now', hmem, hnow⟩
    · split_ifs with hold
      · rw [Bool.and_eq_true, hkp] at hold
        exact .inr ⟨now, mem_append_right _ mem_cons_self, of_decide_eq_true hold.2⟩
      · exact .inl hkp
    · exact .inr ⟨now', mem_append_left _ hmem, hnow⟩
  · rw [hacc]
    dsimp only at hv ⊢
    split_ifs at hv ⊢
    · cases hv
    · exact h.fresh a r v hv

/-- **A statement keeps this**, if what it inserts comes in time. -/
theorem Db.Remembered.acts (hac : Acts t s s') (htim : ∀ a, (s.seen a).held = none → (s'.seen a).held ≠ none →
      ∀ now, .forgot now ∈ s.log → now ≤ rememberUntil (ends a)) : s'.Remembered ends := by
  cases hac with
  | seen expiresAt hfr hvw =>
    refine h.insert hfr hvw fun hhd => htim _ hhd ?_
    dsimp only
    rw [write_self]
    exact some_ne_none _
  | forgetSeen now => exact h.forget now
  | start | take => exact h.log rfl rfl rfl
  | commit => exact h.commit
  | abort => exact h.abort
  | _ => exact h.same rfl rfl

/-- **Somebody is let in**, with an assertion that is remembered from now on. -/
theorem Db.Remembered.letIn (hletsIn : (s.hand t).LetsIn p u)
    (hxps : p.assertionExpiresAt = rememberUntil (ends p.assertion)) :
    Db.Remembered ends { s.commit t with log := s.log ++ [.allowed p.assertion u] } := by
  have hown : (s.seen p.assertion).own t = some (none, some p.assertionExpiresAt) := hletsIn.seen
  obtain ⟨-, -, hnew⟩ := h.fresh p.assertion t _ (own_iff.mp hown).2
  have hcmt := h.commit (t := t)
  have hacc : Db.accepted { s.commit t with log := s.log ++ [.allowed p.assertion u] } =
      s.accepted ++ [p.assertion] := by simp [Db.accepted, Event.allows]
  refine ⟨?_, fun a ha => ?_, fun a r v hv => ?_⟩
  · rw [hacc]
    exact nodup_append.mpr ⟨h.once, by simp, fun a ha b hb heq => hnew (mem_singleton.mp hb ▸ heq ▸ ha)⟩
  · rw [hacc] at ha
    rcases mem_append.mp ha with ha | ha
    · rcases hcmt.kept a ha with hkp | ⟨now, hmem, hnow⟩
      · exact .inl hkp
      · exact .inr ⟨now, mem_append_left _ hmem, hnow⟩
    · obtain rfl := mem_singleton.mp ha
      left
      rw [← hxps]
      exact (committed_commit t s.seen _).trans (view_of_own hown)
  · obtain ⟨hcom, hsm, hnot⟩ := hcmt.fresh a r v hv
    refine ⟨hcom, hsm, fun ha => ?_⟩
    rw [hacc] at ha
    rcases mem_append.mp ha with ha | ha
    · exact hnot ha
    obtain rfl := mem_singleton.mp ha
    obtain ⟨-, hnn⟩ := held_commit hv
    rw [hown] at hnn
    cases hnn

end

end

/-- The sign-in keeps an assertion in mind until an hour after its end. -/
def Call.Proper (ends : Assertion → ℤ) : Call → Prop
  | .signIn p => p.assertionExpiresAt = rememberUntil (ends p.assertion)
  | _ => True

/-- Assertions are inserted before every cleanup at a time after their end and an hour. -/
def Timely (lower : String → String) (ends : Assertion → ℤ) (S : Running) (m : Move ℕ Call Outside) : Prop :=
  ∀ S' a, (system lower).step S m = some S' → (S.state.seen a).held = none → (S'.state.seen a).held ≠ none →
    ∀ now, .forgot now ∈ S.state.log → now ≤ rememberUntil (ends a)

/-- **No assertion lets anybody in twice**, if assertions are inserted in time. -/
theorem Db.Remembered.step (hS : Reached S) (hcal : System.Calls (Call.Proper ends) S)
    (h : S.state.Remembered ends) (htim : Timely lower ends S m) (hst : (system lower).step S m = some S') :
    S'.state.Remembered ends := by
  obtain ⟨-, hds⟩ := (system_safe lower).step_cases hS hst
  have htim' := fun a => htim S' a hst
  generalize S'.state = s' at hds htim' ⊢
  cases hds with
  | start t call => exact h
  | act t _ hac => exact h.acts hac htim'
  | abort t => exact h.abort
  | outside op _ heff =>
    obtain ⟨hlog, -, hse, -⟩ := Outside.kept heff
    exact h.same hse hlog
  | close t call e hret hcls =>
    cases e with
    | rollback a => exact h.abort
    | commit a =>
      change ((S.state.commit t).record a).Remembered ends
      unfold Db.record
      split
      · rename_i p u g created
        obtain ⟨rfl, hletsIn⟩ := hcls.2 p u g created rfl
        exact h.letIn hletsIn (hcal t _ _ hret)
      · exact h.commit

/-! ### Who is let in -/

/-- The user is enabled, is the one of exactly this issuer and subject, and has a role. -/
structure Names (s : Db) (p : Person) (u : ℕ) : Prop where
  enabled : (s.users u).committed.any User.enabled = true
  linked : ∀ who, (s.links who).committed = some u ↔ who = p.who
  role : ∃ k : BindingKey, k.principal = .user u ∧ (s.bindings k).committed.isSome = true

/-- Who has counted the roles of a person still sees one. -/
def Db.SeesRoles (s : Db) : Prop := ∀ t u, s.counted t = some (.roles u) → s.Counts t (.roles u)

/-- No other program takes the last role of a person whose roles a sign-in has counted. -/
def Undisturbed (lower : String → String) (S : Running) (m : Move ℕ Call Outside) : Prop :=
  ∀ S' t u, (system lower).step S m = some S' → m ≠ .advance t → S.state.counted t = some (.roles u) →
    S.state.Counts t (.roles u) → S'.state.Counts t (.roles u)

theorem Db.SeesRoles.acts (h : s.SeesRoles) (hac : Acts t s s') (hcnt : s'.counted t = some (.roles u)) :
    s'.Counts t (.roles u) := by
  cases hac with
  | binding new keys hfr hnx hnot => exact absurd hcnt (hnot u)
  | count c hcts =>
    dsimp only at hcnt
    rw [update_self] at hcnt
    cases hcnt
    exact hcts
  | commit | abort =>
    change update s.counted t none t = _ at hcnt
    rw [update_self] at hcnt
    cases hcnt
  | _ => exact h t u hcnt

theorem Db.SeesRoles.step (hS : Reached S) (h : S.state.SeesRoles) (hund : Undisturbed lower S m)
    (hst : (system lower).step S m = some S') : S'.state.SeesRoles := by
  intro t u hcnt
  obtain ⟨-, hds⟩ := (system_safe lower).step_cases hS hst
  -- what another program does leaves the count to this one
  have hoth : m ≠ .advance t → S.state.counted t = some (.roles u) → S'.state.Counts t (.roles u) := fun hm hc =>
    hund S' t u hst hm hc (h t u hc)
  have hupd : ∀ {r : ℕ}, update S.state.counted r none t = some (.roles u) →
      r ≠ t ∧ S.state.counted t = some (.roles u) := fun hc => by
    rcases update_cases hc with ⟨-, hc⟩ | ⟨hne, hc⟩
    · cases hc
    · exact ⟨hne.symm, hc⟩
  generalize S'.state = s' at hds hoth hcnt ⊢
  cases hds with
  | start r call => exact h t u hcnt
  | act r _ hac =>
    by_cases hr : r = t
    · subst hr
      exact h.acts hac hcnt
    · have hhn := congrArg Hand.counted (hS.state.hand_acts hac (.symm hr))
      exact hoth (fun heq => hr (Move.advance.inj heq)) (hhn.symm.trans hcnt)
  | close r call e =>
    cases e with
    | commit a =>
      have hrec : ((S.state.commit r).record a).counted = (S.state.commit r).counted := by
        unfold Db.record
        split <;> rfl
      change ((S.state.commit r).record a).counted t = _ at hcnt
      rw [hrec] at hcnt
      obtain ⟨hr, hc⟩ := hupd hcnt
      exact hoth (fun heq => hr (Move.advance.inj heq)) hc
    | rollback a =>
      obtain ⟨hr, hc⟩ := hupd hcnt
      exact hoth (fun heq => hr (Move.advance.inj heq)) hc
  | abort r => exact hoth (nofun) (hupd hcnt).2
  | outside op _ heff =>
    obtain ⟨-, -, -, hbnd, hc⟩ := Outside.kept heff
    rw [hc] at hcnt
    exact hoth (nofun) hcnt

theorem Valid.linked (hs : Valid s) {who : Subject} (hown : (s.links who).own t = none)
    (hkn : (s.hand t).known u who) : (s.links who).committed = some u := by
  obtain ⟨hhld, h | ⟨r, h⟩⟩ := hkn
  · exact h
  · exact absurd (holds_unique (hs.links who r _ h u (.inr rfl)) hhld) (ne_of_held hown h)

/-- **Whoever is let in** is enabled, and is the user of exactly this issuer and subject. -/
theorem names_of_letsIn (hs : Valid s) (h : (s.hand t).LetsIn p u) (hrl : s.Counts t (.roles u)) :
    Names (s.commit t) p u := by
  obtain ⟨old, user, hus, hen⟩ := h.user
  have hln : ((s.commit t).links p.who).committed = some u := by
    rcases h.link with hown | ⟨hown, hkn⟩
    · exact (committed_commit t s.links _).trans (view_of_own hown)
    · exact (committed_commit_of_none hown).trans (hs.linked hown hkn)
  refine ⟨?_, fun who => ⟨fun hwho => ?_, fun heq => heq ▸ hln⟩, ?_⟩
  · rw [show ((s.commit t).users u).committed = _ from committed_commit t s.users u, view_of_own hus]
    exact hen
  · exact (hs.ends (ends_commit t s)).one p.who who u (.inl hln) (.inl hwho)
  obtain ⟨k, hk, hvw⟩ := hrl
  refine ⟨k, hk, ?_⟩
  rw [show ((s.commit t).bindings k).committed = _ from committed_commit t s.bindings k]
  exact hvw

/-! ### Runs -/

/-- A move in order: sign-ins remember assertions for long enough, insert them in time, and are not disturbed. -/
structure Orderly (lower : String → String) (ends : Assertion → ℤ) (S : Running) (m : Move ℕ Call Outside) : Prop where
  proper : ∀ t call, m = .start t call → call.Proper ends
  timely : Timely lower ends S m
  undisturbed : Undisturbed lower S m

structure Used (ends : Assertion → ℤ) (S : Running) : Prop where
  reached : Reached S
  calls : System.Calls (Call.Proper ends) S
  requested : S.state.Requested
  remembered : S.state.Remembered ends
  seesRoles : S.state.SeesRoles

theorem Used.step (hS : Used ends S) (hord : Orderly lower ends S m)
    (hst : (system lower).step S m = some S') : Used ends S' where
  reached := ((system_safe lower).step_cases hS.reached hst).1
  calls := System.Calls.step hS.calls hord.proper hst
  requested := hS.requested.step hS.reached hst
  remembered := Db.Remembered.step hS.reached hS.calls hS.remembered hord.timely hst
  seesRoles := Db.SeesRoles.step hS.reached hS.seesRoles hord.undisturbed hst

theorem AtRest.used (hs : AtRest s) (hrq : ∀ relay, s.requests relay = none) (hlog : s.log = [])
    (ends : Assertion → ℤ) : Used ends (quiet s) where
  reached := hs.reached
  calls := System.programs_quiet s
  requested := by
    refine ⟨fun before _ _ _ _ after heq => ?_, fun relay r hr => ?_⟩
    · rw [show (quiet s : Running).state.log = [] from hlog] at heq
      simp at heq
    · rw [show (quiet s : Running).state.requests relay = none from hrq relay] at hr
      cases hr
  remembered := by
    have hacc : s.accepted = [] := by rw [Db.accepted, hlog]; rfl
    refine ⟨?_, fun a ha => ?_, fun a t v hv => ?_⟩
    · rw [show (quiet s : Running).state.accepted = [] from hacc]
      exact nodup_nil
    · rw [show (quiet s : Running).state.accepted = [] from hacc] at ha
      cases ha
    · rw [show ((quiet s : Running).state.seen a).held = none from hs.seen a] at hv
      cases hv
  seesRoles t u ht := by
    rw [show (quiet s : Running).state.counted t = none from hs.counted t] at ht
    cases ht

/-- **A sign-in by SAML is used once, in its own browser**, in every run of orderly moves: requests are taken once, by
the browser that started them and before they end; an assertion lets somebody in once; and the user it lets in is
enabled, is the one of exactly the issuer and subject, and has a role. -/
theorem saml_sign_in_once (lower : String → String) (ends : Assertion → ℤ) {s : Db} {moves : List (Move ℕ Call Outside)}
    {S : Running} (hs : AtRest s) (hrq : ∀ relay, s.requests relay = none) (hlog : s.log = [])
    (hord : StepsMeet (system lower).step (Orderly lower ends) (quiet s) moves)
    (hrun : run (system lower).step (quiet s) moves = some S) :
    Matched S.state.log ∧ S.state.accepted.Nodup ∧
      ∀ t call p u g created S', S.running t = some (call, .ret (.commit (.signIn p (.allowed u g created)))) →
        (system lower).step S (.advance t) = some S' → Names S'.state p u := by
  have hS := run_invariant_of (fun _ _ _ hS hC hst => .step hS hC hst) (hs.used hrq hlog ends) hord hrun
  refine ⟨hS.requested.matched, hS.remembered.once, fun t call p u g created S' hret hst => ?_⟩
  obtain ⟨-, hcls⟩ := hS.reached.returned hret
  obtain ⟨-, hletsIn⟩ := hcls p u g created rfl
  rw [System.step_returned hret hst]
  obtain ⟨hen, hlnk, hrl⟩ := names_of_letsIn hS.reached.state hletsIn (hS.seesRoles t u hletsIn.counted)
  exact ⟨hen, hlnk, hrl⟩

theorem orderly_of (hprp : ∀ t call, m = .start t call → call.Proper ends)
    (hlog : ∀ now, .forgot now ∉ S.state.log) (hcnt : ∀ t u, m ≠ .advance t → S.state.counted t ≠ some (.roles u)) :
    Orderly lower ends S m where
  proper := hprp
  timely _ _ _ _ _ now hmem := absurd hmem (hlog now)
  undisturbed _ t u _ hm hc := absurd hc (hcnt t u hm)

theorem saml_sign_in_once_sample : ∃ S S' : Running, run (system id).step (quiet (sampleDb [1]))
      (.start 0 (.signIn (samplePerson 0 ["administrator"])) :: replicate 7 (.advance 0)) = some S ∧
    (system id).step S (.advance 0) = some S' ∧ S'.state.accepted = [⟨"idp", "a"⟩] ∧
    Names S'.state (samplePerson 0 ["administrator"]) 1 := by
  refine ⟨_, _, rfl, rfl, rfl, ?_⟩
  refine (@saml_sign_in_once id (fun _ => 0) (sampleDb [1])
    (.start 0 (.signIn (samplePerson 0 ["administrator"])) :: replicate 7 (.advance 0)) _
    (sampleDb_atRest (by decide) (by decide)) (fun _ => rfl) rfl ?_ rfl).2.2 0 _ (samplePerson 0 ["administrator"]) 1 0
      false _ rfl rfl
  refine stepsMeet_cons.mpr ⟨orderly_of (fun t call h => ?_) (nofun) (nofun), fun S₁ h₁ => ?_⟩
  · obtain ⟨-, rfl⟩ := Move.start.inj h
    rfl
  cases h₁
  iterate 7
    refine stepsMeet_cons.mpr ⟨orderly_of (nofun) (nofun) (nofun), fun S₁ h₁ => ?_⟩
    cases h₁
  exact stepsMeet_nil

/-- **No account has two subjects**, in any schedule, not even before a commit. -/
theorem subjects_keep_apart {moves : List (Move ℕ Call Outside)} (hs : AtRest s)
    (hrun : run (system lower).step (quiet s) moves = some S) {who who' : Subject}
    (hu : (S.state.links who).Has (some u)) (hu' : (S.state.links who').Has (some u)) : who' = who := by
  have hS : Reached S := (system_safe lower).run hs.reached hrun
  exact hS.state.one who who' u hu hu'

theorem subjects_keep_apart_sample : ∃ S : Running, run (system id).step (quiet (sampleDb [1]))
      (.start 0 (.signIn (samplePerson 0 ["administrator"])) :: replicate 8 (.advance 0)) = some S ∧
    ∀ who, (S.state.links who).Has (some 1) → who = ⟨"idp", "alice"⟩ := by
  refine .imp (fun S hrun => ⟨hrun, fun who => ?_⟩) ⟨_, rfl⟩
  exact subjects_keep_apart (sampleDb_atRest (by decide) (by decide)) hrun (.inl (by cases hrun; rfl))

def Call.time : Call → Option ℤ
  | .startRequest n => some n.now
  | .takeRequest _ _ now => some now
  | .signIn p => some p.now
  | .clean _ _ now => some now
  | _ => none

/-- Calls begin in the order of their times, and sign-ins with assertions that are still accepted. -/
structure Accepted (ends : Assertion → ℤ) (calls : List Call) : Prop where
  times : (calls.filterMap Call.time).Pairwise (· ≤ ·)
  signIns : ∀ p, .signIn p ∈ calls → p.assertionExpiresAt = rememberUntil (ends p.assertion) ∧
    p.now ≤ rememberUntil (ends p.assertion)

def begun : Move ℕ Call Outside → Option Call
  | .start _ call => some call
  | _ => none

def hundredDays : ℤ := 100 * 24 * 60 * 60 * 1000000

/-- **Two races.** A sign-in inserts its assertion after a cleanup of a later time, and lets somebody in again. And the
cleanup commits between a sign-in's count of roles and its commit. -/
theorem saml_sign_in_twice :
    (∃ (ends : Assertion → ℤ) (s : Db) (moves : List (Move ℕ Call Outside)) (S : Running),
      AtRest s ∧ (∀ relay, s.requests relay = none) ∧ s.log = [] ∧ Accepted ends (moves.filterMap begun) ∧
      run (system id).step (quiet s) moves = some S ∧ ¬S.state.accepted.Nodup) ∧
    ∃ (ends : Assertion → ℤ) (s : Db) (moves : List (Move ℕ Call Outside)) (S S' : Running) (t : ℕ) (call : Call)
        (p : Person) (u g : ℕ) (created : Bool),
      AtRest s ∧ (∀ relay, s.requests relay = none) ∧ s.log = [] ∧ Accepted ends (moves.filterMap begun) ∧
      run (system id).step (quiet s) moves = some S ∧
      S.running t = some (call, .ret (.commit (.signIn p (.allowed u g created)))) ∧
      (system id).step S (.advance t) = some S' ∧ ¬Names S'.state p u := by
  constructor
  · refine ⟨fun _ => 0, sampleDb [1],
      .start 0 (.signIn (samplePerson 0 ["administrator"])) :: List.replicate 8 (.advance 0) ++
        [.start 1 (.signIn (samplePerson 0 ["administrator"])),
          .start 2 (.startRequest ⟨0, "request", 0, rememberUntil 0 + 1, rememberUntil 0 + 2⟩), .advance 2,
          .advance 2] ++ List.replicate 8 (.advance 1), _, sampleDb_atRest (by decide) (by decide), fun _ => rfl, rfl,
        ⟨by decide, ?_⟩, rfl, ?_⟩
    · intro p hp
      change Call.signIn p ∈ [.signIn (samplePerson 0 ["administrator"]), .signIn (samplePerson 0 ["administrator"]),
        .startRequest _] at hp
      obtain rfl : p = samplePerson 0 ["administrator"] := by simpa using hp
      exact ⟨rfl, by decide⟩
    · decide
  refine ⟨fun _ => hundredDays, sampleDb [1], .start 0 (.clean 1 90 hundredDays) :: List.replicate 8 (.advance 0) ++
      .start 1 (.signIn (samplePerson hundredDays ["administrator"])) :: List.replicate 7 (.advance 1) ++ [.advance 0],
    _, _, 1, _, samplePerson hundredDays ["administrator"], 1, 0, false, sampleDb_atRest (by decide) (by decide),
    fun _ => rfl, rfl, ⟨by decide, ?_⟩, rfl, rfl, rfl, ?_⟩
  · intro p hp
    change Call.signIn p ∈ [.clean 1 90 hundredDays, .signIn (samplePerson hundredDays ["administrator"])] at hp
    obtain rfl : p = samplePerson hundredDays ["administrator"] := by simpa using hp
    exact ⟨rfl, by decide⟩
  rintro ⟨-, -, k, hk, hrl⟩
  -- the only binding was taken by the cleanup
  change ((((sampleDb [1]).bindings.write 0 ⟨.user 1, "admin"⟩ none).commit 0).commit 1
    k).committed.isSome = true at hrl
  by_cases h : k = ⟨.user 1, "admin"⟩
  · subst h
    cases hrl
  rw [Cells.commit, Cells.commit, write_of_ne h] at hrl
  obtain ⟨b, hb⟩ := isSome_iff_exists.mp hrl
  change ((sampleDb [1]).bindings k).committed = some b at hb
  have hmem := mem_of_table hb
  simp [h] at hmem

end OpenVibes.Store.ConsoleSso
