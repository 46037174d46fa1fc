import OpenVibes.Store.SessionEnds

/-!
# A password that was changed

`change_own_password` keeps the generation, and a sign-in verifies the password outside any transaction. `Dead`: a
password is not stored, sign-ins that have verified it are of an earlier generation, and no hash of it is about to be
stored. A change makes other passwords dead when it commits while no sign-in under way can use one (`Careful`).
-/

namespace OpenVibes.Store.ConsoleAuth

open Theory Option Sessions

section

variable [Hashing]

structure Dead (u : ℕ) (password : String) (s : Db) : Prop where
  stored : ∀ c, (s.credentials u).committed = some c → verifies c.passwordPhc password ≠ true
  verified : ∀ t v, s.verified t = some v → v.userId = u → verifies v.phc password = true →
    ∃ g, s.generation u = some g ∧ v.authGeneration < g
  joined : ∀ t user v, s.joined t = some (.credential u user) → s.verified t = some v → verifies v.phc password ≠ true

section

variable {s s' : Db} {t u : ℕ} {password : String}

section

variable (h : Dead u password s)

include h

theorem Dead.commit (hs : Valid s) (hnew : ∀ c, (s.credentials u).view t = some c →
    verifies c.passwordPhc password ≠ true) : Dead u password (s.commit t) where
  stored c hc := hnew c ((Cell.committed_commit t _).symm.trans hc)
  verified r v hv hu hp := by
    obtain ⟨g, hg, hlt⟩ := h.verified r v hv hu hp
    obtain ⟨g', hg', hle⟩ := hs.generation_commit (t := t) hg
    exact ⟨g', hg', hlt.trans_le hle⟩
  joined r user v hj hv := h.joined r user v (joined_settle hj) hv

theorem Dead.abort : Dead u password (s.abort t) where
  stored c hc := h.stored c ((Cell.committed_abort t _).symm.trans hc)
  verified r v hv hu hp := by
    obtain ⟨g, hg, hlt⟩ := h.verified r v hv hu hp
    exact ⟨g, (congrArg (Option.map _) (Cell.committed_abort t _)).trans hg, hlt⟩
  joined r user v hj hv := h.joined r user v (joined_settle hj) hv

theorem Dead.leave : Dead u password (s.leave t) := by
  have hlv : ∀ {r v}, (s.leave t).verified r = some v → s.verified r = some v := fun hv => by
    rcases update_cases hv with ⟨-, hv⟩ | ⟨-, hv⟩
    · cases hv
    · exact hv
  exact ⟨h.stored, fun r v hv => h.verified r v (hlv hv), fun r user v hj hv => h.joined r user v hj (hlv hv)⟩

/-- **A statement** keeps a password dead. -/
theorem Dead.acts (hs : Valid s) (hac : Acts t s s') : Dead u password s' := by
  cases hac with
  | user =>
    refine ⟨h.stored, fun r v hv hu hp => ?_, h.joined⟩
    obtain ⟨g, hg, hlt⟩ := h.verified r v hv hu hp
    exact ⟨g, (congrArg (Option.map _) (Cells.committed_write ..)).trans hg, hlt⟩
  | credential =>
    exact ⟨fun c hc => h.stored c ((Cells.committed_write ..).symm.trans hc), h.verified, h.joined⟩
  | joinSession =>
    refine ⟨h.stored, h.verified, fun r user v hj hv => ?_⟩
    rcases update_cases hj with ⟨-, hj⟩ | ⟨-, hj⟩
    · cases hj
    · exact h.joined r user v hj hv
  | joinCredential hvfd hgen hcur =>
    refine ⟨h.stored, h.verified, fun r user v hj hv hp => ?_⟩
    rcases update_cases hj with ⟨rfl, hset⟩ | ⟨-, hj⟩
    · obtain ⟨hu, -⟩ := Joined.credential.inj (some.inj hset)
      obtain rfl := mem_unique hvfd hv
      obtain ⟨g, hg, hlt⟩ := h.verified r _ hv hu hp
      rw [hu, hg] at hgen
      exact absurd (hcur.symm.trans (some.inj hgen).symm) hlt.ne
    · exact h.joined r user v hj hv hp
  | verify hgen hsto hphc hjnd =>
    refine ⟨h.stored, fun r v hv hu hp => ?_, fun r user v hj hv => ?_⟩
    · rcases update_cases hv with ⟨rfl, hset⟩ | ⟨-, hv⟩
      · cases hset
        rw [hu] at hsto
        exact absurd (hphc ▸ hp) (h.stored _ hsto)
      · exact h.verified r v hv hu hp
    · have hr : r ≠ t := by
        rintro rfl
        exact absurd (hjnd.symm.trans hj) (some_ne_none _).symm
      exact h.joined r user v hj ((Function.update_of_ne hr ..).symm.trans hv)
  | commit hus hse hrehash =>
    refine h.commit hs fun c hc => ?_
    obtain ⟨-, hold⟩ | hown := sees_of_view hc
    · exact h.stored c hold
    obtain ⟨c', v, user, hc', hvfd, -, hp, hjnd⟩ := hrehash u _ hown
    cases hc'
    exact fun hc => h.joined t user v hjnd hvfd (hp _ hc)
  | _ => exact ⟨h.stored, h.verified, h.joined⟩

end

end

/-- A move does not bring a password back: a committed change of the user's password is to another one; no sign-in that
has verified it is within `rehash_password`; and if the change keeps the generation, none has read that generation. -/
def Careful (u : ℕ) (password : String) (S : Running) (m : Move ℕ Call Empty) : Prop :=
  ∀ t call a phc, m = .advance t → S.running t = some (call, .ret (.commit a)) → call.sets a = some (u, phc) →
    verifies phc password ≠ true ∧
    (∀ r user v, S.state.joined r = some (.credential u user) → S.state.verified r = some v →
      verifies v.phc password ≠ true) ∧
    (call.ends a = none → ∀ r v, S.state.verified r = some v → v.userId = u →
      S.state.generation u = some v.authGeneration → verifies v.phc password ≠ true)

theorem careful_of_quiet {u t : ℕ} {password : String} {S : Running} {call : Call} {a : Answer} {phc : Phc}
    (hret : S.running t = some (call, .ret (.commit a))) (hsets : call.sets a = some (u, phc))
    (hphc : verifies phc password ≠ true) (hjnd : ∀ r, S.state.joined r = none) (hvfd : ∀ r,
    S.state.verified r = none) :
    Careful u password S (.advance t) := by
  intro t' call' a' phc' hm hret' hsets'
  obtain rfl := Move.advance.inj hm
  obtain ⟨rfl, hend⟩ := Prod.mk.inj (mem_unique hret hret')
  obtain rfl := End.commit.inj (Txn.ret.inj hend)
  obtain ⟨-, rfl⟩ := Prod.mk.inj (mem_unique hsets hsets')
  refine ⟨hphc, fun r user v hj => ?_, fun _ r v hv => ?_⟩
  · rw [hjnd] at hj
    cases hj
  · rw [hvfd] at hv
    cases hv

section

variable {S S₁ S' : Running} {t u : ℕ} {password : String} {call : Call} {a : Answer} {phc : Phc}
  {m : Move ℕ Call Empty}

theorem stored_of_commit (hS : Reached S) {s' : Db} (h : CommitOf S m s' t call a) {c : Credential}
    (hc : (S.state.credentials u).view t = some c) :
    (S.state.credentials u).committed = some c ∨ call.sets a = some (u, c.passwordPhc) := by
  obtain ⟨-, hold⟩ | hown := sees_of_view hc
  · exact .inl hold
  · obtain ⟨phc, c', hsets, hc', rfl⟩ := (hS.closes h).2.password u _ _ hown
    cases hc'
    exact .inr hsets

theorem Dead.step (h : Dead u password S.state) (hS : Reached S)
    (hcar : Careful u password S m) (hst : system.step S m = some S₁) : Dead u password S₁.state := by
  obtain ⟨-, hds⟩ := system_safe.step_cases hS hst
  generalize S₁.state = s₁ at hds ⊢
  cases hds with
  | start => exact h
  | act t _ hac => exact h.acts hS.state hac
  | close t call e hret hcls =>
    cases e with
    | commit a =>
      refine (h.commit hS.state fun c hc => ?_).leave
      rcases stored_of_commit hS ⟨rfl, hret, rfl⟩ hc with hold | hsets
      · exact h.stored c hold
      · exact (hcar t call a c.passwordPhc rfl hret hsets).1
    | rollback a => exact h.abort.leave
  | abort t => exact h.abort.leave
  | outside op => exact op.elim

theorem Call.ends_of_sets (h : call.sets a = some (u, phc)) : call.ends a = some u ∨ call.ends a = none := by
  unfold Call.sets at h
  split at h
  · cases h
    exact .inl rfl
  · cases h
    exact .inl rfl
  · exact .inr rfl
  · cases h

theorem dead_of_change (hS : Reached S) (hret : S.running t = some (call, .ret (.commit a)))
    (hsets : call.sets a = some (u, phc)) (hcar : Careful u password S (.advance t))
    (hst : system.step S (.advance t) = some S₁) : Dead u password S₁.state := by
  have h : CommitOf S (.advance t) S₁.state t call a := ⟨rfl, hret, System.step_returned hret hst⟩
  obtain ⟨hphc, hjnd, hvfd⟩ := hcar t call a phc rfl hret hsets
  have hlv : ∀ {r v}, S₁.state.verified r = some v → S.state.verified r = some v := fun hv => by
    rw [h.state] at hv
    rcases update_cases hv with ⟨-, hv⟩ | ⟨-, hv⟩
    · cases hv
    · exact hv
  refine ⟨fun c hc => ?_, fun r v hv hu hp => ?_, fun r user v hj hv => ?_⟩
  · -- the new password is in hand
    obtain ⟨⟨old, new⟩, hown⟩ := isSome_iff_exists.mp ((hS.closes h).2.set u phc hsets)
    obtain ⟨phc', c', hsets', hc', rfl⟩ := (hS.closes h).2.password u old new hown
    obtain ⟨-, rfl⟩ := Prod.mk.inj (mem_unique hsets hsets')
    rw [h.state] at hc
    have hvw : (S.state.credentials u).view t = some c := (Cell.committed_commit t _).symm.trans hc
    rw [Cell.view_of_own hown, hc'] at hvw
    exact some.inj hvw ▸ hphc
  · obtain ⟨g, hg, hle⟩ := hS.state.verified r v (hlv hv)
    rw [hu] at hg
    rcases Call.ends_of_sets hsets with hen | hen
    · exact ⟨g + 1, generation_of_ends hS h hen hg, Nat.lt_succ_of_le hle⟩
    · obtain ⟨g', hg', hle'⟩ := (later_of_step hS hst).generation u g hg
      refine ⟨g', hg', (lt_of_le_of_ne hle fun heq => ?_).trans_le hle'⟩
      exact hvfd hen r v (hlv hv) hu (heq ▸ hg) hp
  · rw [h.state] at hj
    have hj' : (S.state.commit t).joined r = some (.credential u user) := hj
    exact hjnd r user v (joined_settle hj') (hlv hv)

theorem Dead.run {moves : List (Move ℕ Call Empty)} (h : Dead u password S.state) (hS : Reached S)
    (hcar : StepsMeet system.step (Careful u password) S moves) (hrun : Theory.run system.step S moves = some S') :
    Dead u password S'.state :=
  (run_invariant_of (I := fun S => Reached S ∧ Dead u password S.state)
    (fun _ _ _ h hC hst => ⟨(system_safe.step_cases h.1 hst).1, h.2.step h.1 hC hst⟩) ⟨hS, h⟩ hcar hrun).2

end

/-- **An old password is dead**, when its change is careful: after its commit, in every run whose moves do not bring
another password back, that password is not stored, and a sign-in that has verified it makes no session that is ever
returned. -/
theorem old_password_is_dead {s₀ : Db} (h₀ : AtRest s₀) {before after : List (Move ℕ Call Empty)} {S S₁ S' : Running}
    (hbef : run system.step (quiet s₀) before = some S) {t u : ℕ} {call : Call} {a : Answer} {phc : Phc}
    {password : String} (hret : S.running t = some (call, .ret (.commit a))) (hsets : call.sets a = some (u, phc))
    (hcmt : system.step S (.advance t) = some S₁) (haft : run system.step S₁ after = some S')
    (hcar : StepsMeet system.step (Careful u password) S (.advance t :: after)) :
    (∀ c, (S'.state.credentials u).committed = some c → verifies c.passwordPhc password ≠ true) ∧
      ∀ hash during m rest R R₁ r signIn p v, after = during ++ m :: rest → run system.step S₁ during = some R →
        system.step R m = some R₁ → (R.state.sessions hash).committed = none →
        (R₁.state.sessions hash).committed.isSome → m = .advance r → R.running r = some (.login signIn, p) →
        R.state.verified r = some v → v.userId = u → verifies v.phc password = true → ∀ now,
            S'.state.session hash now = none := by
  have hS : Reached S := system_safe.run h₀.reached hbef
  have hS₁ : Reached S₁ := (system_safe.step_cases hS hcmt).1
  obtain ⟨hfst, hrs⟩ := stepsMeet_cons.mp hcar
  have hdd : Dead u password S₁.state := dead_of_change hS hret hsets hfst hcmt
  have hmts : StepsMeet system.step (Careful u password) S₁ after := hrs S₁ hcmt
  refine ⟨(hdd.run hS₁ hmts haft).stored, fun hash during m rest R R₁ r signIn p v hspl hdur hst hnn hsm hm
    hsignIn hv hu hp => ?_⟩
  have hR : Reached R := system_safe.run hS₁ hdur
  have hmts' : StepsMeet system.step (Careful u password) S₁ during := fun first m' last T hfst hT =>
    hmts first m' (last ++ m :: rest) T (by rw [hspl, hfst, List.append_assoc, List.cons_append]) hT
  obtain ⟨g, hg, hlt⟩ := (hdd.run hS₁ hmts' hdur).verified r v hv hu hp
  obtain ⟨R', hdur', hrs'⟩ := run_append.mp (hspl ▸ haft)
  obtain rfl := mem_unique hdur hdur'
  obtain ⟨R₁', hst', hrs'⟩ := run_cons.mp hrs'
  obtain rfl := mem_unique hst hst'
  have hrds : (Call.login signIn).reads (R.state.verified r) = some (u, v.authGeneration) := by
    rw [hv, ← hu]
    rfl
  exact (gone_of_made hR hst hnn hsm hm hsignIn hrds hg hlt hrs').lookup

end

/-! ### A sign-in and a change at once -/

def sampleLogin : LoginRequest := ⟨7, "first", 3, false, 12, none, 22, 60⟩

def sampleChange : Call := .changeOwnPassword 7 11 (PlainPhc.mk "first" 1 true) (PlainPhc.mk "second" 2 false) 60

def changeMoves : List (Move ℕ Call Empty) :=
  [.start 0 sampleChange, .advance 0, .advance 0, .advance 0, .advance 0, .advance 0, .advance 0]

theorem careful_login {S : Running} {r : LoginRequest} {p : Txn Db (End Answer)} (hr : S.running 1 = some (.login r, p))
    (u : ℕ) (password : String) : Careful u password S (.advance 1) := by
  intro t call a phc hm hret hsets
  obtain rfl := Move.advance.inj hm
  obtain ⟨rfl, -⟩ := Prod.mk.inj (mem_unique hr hret)
  cases hsets

/-- Nobody signs in when the change commits, and a sign-in with the first password is rejected after it. -/
theorem old_password_is_dead_sample :
    ∃ S S₁ S', run system.step (quiet sampleDb) changeMoves = some S ∧
      S.running 0 = some (sampleChange, .ret (.commit (.change .changed))) ∧ system.step S (.advance 0) = some S₁ ∧
      run system.step S₁ [.start 1 (.login sampleLogin), .advance 1] = some S' ∧
      S'.running 1 = some (.login sampleLogin, .ret (.rollback (.login .rejected))) ∧
      ∀ c, (S'.state.credentials 7).committed = some c → verifies c.passwordPhc "first" ≠ true := by
  refine ⟨_, _, _, rfl, rfl, rfl, rfl, rfl, (@old_password_is_dead _ sampleDb sampleDb_atRest changeMoves
    [.start 1 (.login sampleLogin), .advance 1] _ _ _ rfl 0 7 sampleChange (.change .changed)
    (.mk "second" 2 false)
    "first" rfl rfl rfl rfl ?_).1⟩
  refine stepsMeet_cons.mpr ⟨careful_of_quiet rfl rfl (by decide) (fun _ => rfl) fun _ => rfl, fun S₁ h₁ => ?_⟩
  refine stepsMeet_cons.mpr ⟨fun _ _ _ _ hm => (by cases hm), fun S₂ h₂ => ?_⟩
  cases h₁
  cases h₂
  exact stepsMeet_cons.mpr ⟨careful_login rfl 7 "first", fun _ _ => stepsMeet_nil⟩

/-- **The old password returns**: a sign-in has verified it when the change commits. The sign-in then stores a new hash
of the first password, and its session counts. -/
theorem old_password_returns :
    ∃ S S₁ S', run system.step (quiet sampleDb)
        (.start 1 (.login sampleLogin) :: .advance 1 :: changeMoves) = some S ∧
      S.running 0 = some (sampleChange, .ret (.commit (.change .changed))) ∧
      ((S.state.credentials 7).committed.map fun c => PlainPhc.password c.passwordPhc) = some "first" ∧
      (S.state.sessions 12).committed = none ∧ system.step S (.advance 0) = some S₁ ∧
      ((S₁.state.credentials 7).committed.map fun c => PlainPhc.password c.passwordPhc) = some "second" ∧
      run system.step S₁ (List.replicate 7 (.advance 1)) = some S' ∧
      ((S'.state.credentials 7).committed.map fun c => PlainPhc.password c.passwordPhc) = some "first" ∧
      (S'.state.session 12 61).isSome :=
  ⟨_, _, _, rfl, rfl, rfl, rfl, rfl, rfl, rfl, rfl, rfl⟩

end OpenVibes.Store.ConsoleAuth
