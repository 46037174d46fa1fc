import OpenVibes.Store.AuthPrograms

/-!
# Ended sessions stay ended

Sessions keep their user and generation, and the generation of a user does not go back (`Db.Later`). A session of an
earlier generation than its user's (`Db.Stale`) is not returned, and no use of it is committed.
-/

namespace OpenVibes.Store.ConsoleAuth

open Theory Option Cell Sessions

section

variable [Hashing]

abbrev Running := Sessions ℕ Call Db (End Answer)

abbrev Reached (S : Running) : Prop := System.Sound Valid Db.hand .nothing Acts (fun _ => Closes) S

structure AtRest (s : Db) : Prop where
  users : ∀ u, (s.users u).held = none
  credentials : ∀ u, (s.credentials u).held = none
  sessions : ∀ hash, (s.sessions hash).held = none
  joined : ∀ t, s.joined t = none
  verified : ∀ t, s.verified t = none
  owner : ∀ u, (s.credentials u).committed.isSome → (s.users u).committed.isSome
  /-- A session has a user of its generation or a later one, and goes idle before it ends. -/
  stored : ∀ hash row, (s.sessions hash).committed = some row → s.Fit row
  hashes : ∀ hash, (s.sessions hash).committed.isSome → hash ∈ s.hashes

variable {s : Db}

theorem AtRest.valid (h : AtRest s) : Valid s where
  user u t v hv := by rw [h.users] at hv; cases hv
  credential u t v hv := by rw [h.credentials] at hv; cases hv
  owner := h.owner
  session hash t v hv := by rw [h.sessions] at hv; cases hv
  stored := h.stored
  hashes hash hh := by
    rw [h.sessions] at hh
    exact h.hashes hash (hh.resolve_right (by decide))
  touching t hash user ht := by rw [h.joined] at ht; cases ht
  verified t v hv := by rw [h.verified] at hv; cases hv
  rehashing t u user ht := by rw [h.joined] at ht; cases ht

theorem AtRest.hand (h : AtRest s) (t : ℕ) : s.hand t = .nothing := by
  refine Hand.ext (funext fun u => own_of_held_none (h.users u)) (funext fun u => own_of_held_none (h.credentials u))
    (funext fun hash => own_of_held_none (h.sessions hash)) (funext fun u => funext fun hash => eq_false fun hk => ?_)
    (h.joined t)
    (h.verified t)
  obtain ⟨p, hp⟩ := holds_iff.mp hk.1
  rw [own_of_held_none (h.users u)] at hp
  cases hp

theorem AtRest.reached (h : AtRest s) : Reached (quiet s) := System.sound_quiet h.valid h.hand

/-! ### What a move commits -/

structure CommitOf (S : Running) (m : Move ℕ Call Empty) (s' : Db) (t : ℕ) (call : Call) (a : Answer) : Prop where
  move : m = .advance t
  returned : S.running t = some (call, .ret (.commit a))
  state : s' = (S.state.commit t).leave t

variable {S S' : Running} {m : Move ℕ Call Empty}

/-- What a move does to the committed sessions and generations: nothing, unless it is a commit. -/
theorem Reached.step_cases (hS : Reached S) (hst : system.step S m = some S') :
    ((∀ hash, (S'.state.sessions hash).committed = (S.state.sessions hash).committed) ∧
      ∀ u, S'.state.generation u = S.state.generation u) ∨
    ∃ t call a, CommitOf S m S'.state t call a := by
  have habr : ∀ t, (∀ hash, (((S.state.abort t).leave t).sessions hash).committed = (S.state.sessions hash).committed) ∧
      ∀ u, ((S.state.abort t).leave t).generation u = S.state.generation u := fun t =>
    ⟨fun hash => committed_abort t _, fun u => congrArg (Option.map _) (committed_abort t _)⟩
  obtain ⟨-, hds⟩ := system_safe.step_cases hS hst
  generalize S'.state = s' at hds ⊢
  cases hds with
  | start t call => exact .inl ⟨fun _ => rfl, fun _ => rfl⟩
  | act t _ hac =>
    refine .inl ?_
    cases hac with
    | user => exact ⟨fun _ => rfl, fun u => congrArg (Option.map _) (Cells.committed_write ..)⟩
    | session | insert => exact ⟨fun hash => Cells.committed_write .., fun _ => rfl⟩
    | commit husers hse =>
      exact ⟨fun hash => Cells.committed_commit_of_none (congrFun hse hash), fun u =>
        generation_commit_of_own_none (congrFun husers u)⟩
    | _ => exact ⟨fun _ => rfl, fun _ => rfl⟩
  | close t call e hret hcls =>
    cases e with
    | commit a => exact .inr ⟨t, call, a, rfl, hret, rfl⟩
    | rollback a => exact .inl (habr t)
  | abort t => exact .inl (habr t)
  | outside op => exact op.elim

variable {s' : Db} {call : Call} {a : Answer}

theorem Reached.closes (hS : Reached S) {t : ℕ} (h : CommitOf S m s' t call a) :
    (S.state.hand t).Fits ∧ Obeys call a (S.state.hand t) := hS.returned h.returned

/-! ### Later states -/

/-- Sessions keep their user and their generation, and the generation of a user does not go back. -/
structure Db.Later (s s' : Db) : Prop where
  sessions : ∀ hash row, (s.sessions hash).committed = some row →
    ∃ row', (s'.sessions hash).committed = some row' ∧ row.Evolves row'
  generation : ∀ u g, s.generation u = some g → ∃ g', s'.generation u = some g' ∧ g ≤ g'

theorem Db.Later.refl (s : Db) : s.Later s := ⟨fun _ row h => ⟨row, h, .refl row⟩, fun _ g h => ⟨g, h, le_rfl⟩⟩

theorem Db.Later.trans {s₁ s₂ s₃ : Db} (h : s₁.Later s₂) (h' : s₂.Later s₃) : s₁.Later s₃ := by
  refine ⟨fun hash row hrow => ?_, fun u g hg => ?_⟩
  · obtain ⟨row₂, hrow₂, hevo⟩ := h.sessions hash row hrow
    obtain ⟨row₃, hrow₃, hevo'⟩ := h'.sessions hash row₂ hrow₂
    exact ⟨row₃, hrow₃, hevo.trans hevo'⟩
  · obtain ⟨g₂, hg₂, hle⟩ := h.generation u g hg
    obtain ⟨g₃, hg₃, hle'⟩ := h'.generation u g₂ hg₂
    exact ⟨g₃, hg₃, hle.trans hle'⟩

theorem later_of_step (hS : Reached S) (hst : system.step S m = some S') : S.state.Later S'.state := by
  rcases hS.step_cases hst with ⟨hse, hgen⟩ | ⟨t, call, a, h⟩
  · exact ⟨fun hash row hrow => ⟨row, (hse hash).trans hrow, .refl row⟩, fun u g hg =>
      ⟨g, (hgen u).trans hg, le_rfl⟩⟩
  · rw [h.state]
    exact ⟨fun hash row hrow => hS.state.session_commit hrow, fun u g hg => hS.state.generation_commit hg⟩

theorem later_of_run {moves : List (Move ℕ Call Empty)} (hS : Reached S) (hrun : run system.step S moves = some S') :
    S.state.Later S'.state := by
  refine (run_invariant (I := fun S₁ => Reached S₁ ∧ S.state.Later S₁.state) (fun S₁ m S₂ h hst => ?_) ⟨hS, .refl _⟩
    hrun).2
  exact ⟨(system_safe.step_cases h.1 hst).1, h.2.trans (later_of_step h.1 hst)⟩

/-! ### Stale sessions -/

/-- The session is of an earlier generation than its user. -/
def Db.Stale (s : Db) (hash : ℕ) : Prop :=
  ∃ row g, (s.sessions hash).committed = some row ∧ s.generation row.userId = some g ∧ row.authGeneration < g

variable {hash : ℕ} {row : Session}

theorem Db.Stale.later (h : s.Stale hash) (hlat : s.Later s') : s'.Stale hash := by
  obtain ⟨row, g, hrow, hg, hlt⟩ := h
  obtain ⟨row', hrow', hevo⟩ := hlat.sessions hash row hrow
  obtain ⟨g', hg', hle⟩ := hlat.generation _ g hg
  refine ⟨row', g', hrow', ?_, ?_⟩
  · rw [hevo.userId]
    exact hg'
  · rw [hevo.generation]
    exact hlt.trans_le hle

structure Gone (S : Running) (hash : ℕ) : Prop where
  lookup : ∀ now, S.state.session hash now = none
  /-- No program is about to commit that it has been extended. -/
  untouched : ∀ t call a now lifetime, S.running t = some (call, .ret (.commit a)) →
    call.touches a ≠ some (hash, now, lifetime)

theorem Db.Stale.lookup (h : s.Stale hash) (now : ℤ) : s.session hash now = none := by
  obtain ⟨row, g, hrow, hg, hlt⟩ := h
  obtain ⟨user, hus, rfl⟩ := map_eq_some_iff.mp hg
  have hlv : row.live user now = false := by
    rw [Session.live, decide_eq_false hlt.ne, Bool.and_false]
  simp [Db.session, hrow, hus, hlv]

/-- **A stale session is over.** A use of it that waited for it finds it revoked, or the user still of the generation
that was read. -/
theorem stale_gone (hS : Reached S) (h : S.state.Stale hash) : Gone S hash := by
  refine ⟨h.lookup, fun t call a now life hret htch => ?_⟩
  have hcls : Closes call (.commit a) (S.state.hand t) := hS.returned hret
  obtain ⟨user, old, hjnd, hold, hunx⟩ := hcls.2.touched hash now life htch
  obtain ⟨row, hrow, -, hcur⟩ := hS.state.touching t hash user hjnd
  have hsm : some old = some row := (committed_of_own hold).symm.trans hrow
  cases hsm
  obtain ⟨row', g, hrow', hg, hlt⟩ := h
  rw [hrow] at hrow'
  cases hrow'
  rcases hcur with hrvk | hcur
  · rw [Session.unexpired, isNone_eq_false_iff.mpr hrvk] at hunx
    cases hunx
  · rw [hcur] at hg
    exact absurd (some.inj hg) hlt.ne

/-! ### The end of sessions -/

theorem generation_of_ends (hS : Reached S) {t u g : ℕ} (h : CommitOf S m s' t call a)
    (hen : call.ends a = some u) (hg : S.state.generation u = some g) : s'.generation u = some (g + 1) := by
  obtain ⟨old, new, hrow, hnew⟩ := (hS.closes h).2.ended u hen
  have hown : (S.state.users u).own t = some (some old, some new) := hrow
  rw [Db.generation, committed_of_own hown] at hg
  have hcom : (s'.users u).committed = some new := by
    rw [h.state]
    exact (committed_commit t _).trans (view_of_own hown)
  rw [Db.generation, hcom, map_some, hnew, some.inj hg]

theorem reads_of_new (hS : Reached S) (hst : system.step S m = some S')
    (hnn : (S.state.sessions hash).committed = none) (hrow : (S'.state.sessions hash).committed = some row) :
    ∃ t call a, CommitOf S m S'.state t call a ∧ call.makes = some hash ∧
      call.reads (S.state.verified t) = some (row.userId, row.authGeneration) := by
  rcases hS.step_cases hst with ⟨hse, -⟩ | ⟨t, call, a, h⟩
  · rw [hse, hnn] at hrow
    cases hrow
  refine ⟨t, call, a, h, (hS.closes h).2.made hash row ?_⟩
  rw [h.state] at hrow
  have hvw : (S.state.sessions hash).view t = some row := (committed_commit t _).symm.trans hrow
  obtain ⟨-, hold⟩ | hown := sees_of_view hvw
  · rw [hnn] at hold
    cases hold
  · rw [hnn] at hown
    exact hown

section

variable {S₁ : Running} {moves : List (Move ℕ Call Empty)} {u g : ℕ}

theorem gone_of_stored (hS : Reached S) (hS₁ : Reached S₁) (hlat : S.state.Later S₁.state)
    (hg : S.state.generation u = some g) (hg₁ : S₁.state.generation u = some (g + 1))
    (hrun : run system.step S₁ moves = some S') (hrow : (S.state.sessions hash).committed = some row)
    (hu : row.userId = u) : Gone S' hash := by
  -- a session is never of a later generation than its user
  obtain ⟨-, g', hg', hle⟩ := hS.state.stored hash row hrow
  rw [hu, hg] at hg'
  cases hg'
  obtain ⟨row₁, hrow₁, hevo⟩ := hlat.sessions hash row hrow
  have hstl : S₁.state.Stale hash := by
    refine ⟨row₁, g + 1, hrow₁, ?_, ?_⟩
    · rw [hevo.userId, hu]
      exact hg₁
    · rw [hevo.generation]
      exact Nat.lt_succ_of_le hle
  exact stale_gone (system_safe.run hS₁ hrun) (hstl.later (later_of_run hS₁ hrun))

theorem gone_of_made {R R₁ : Running} (hR : Reached R) (hst : system.step R m = some R₁)
    (hnn : (R.state.sessions hash).committed = none) (hso : (R₁.state.sessions hash).committed.isSome) {r g' : ℕ}
    (hm : m = .advance r) {signIn : Call} {p : Txn Db (End Answer)} (hsignIn : R.running r = some (signIn, p))
    (hrds : signIn.reads (R.state.verified r) = some (u, g')) (hg : R.state.generation u = some g) (hlt : g' < g)
    (hrun : run system.step R₁ moves = some S') : Gone S' hash := by
  obtain ⟨row, hrow⟩ := isSome_iff_exists.mp hso
  obtain ⟨r', call, a, hcommitOf, -, hrds'⟩ := reads_of_new hR hst hnn hrow
  obtain rfl := Move.advance.inj (hm.symm.trans hcommitOf.move)
  obtain ⟨rfl, -⟩ := Prod.mk.inj (mem_unique hsignIn hcommitOf.returned)
  obtain ⟨hu, hgen⟩ := Prod.mk.inj (mem_unique hrds hrds')
  obtain ⟨g₁, hg₁, hle⟩ := (later_of_step hR hst).generation u g hg
  have hstl : R₁.state.Stale hash := ⟨row, g₁, hrow, hu ▸ hg₁, hgen ▸ hlt.trans_le hle⟩
  have hR₁ : Reached R₁ := (system_safe.step_cases hR hst).1
  exact stale_gone (system_safe.run hR₁ hrun) (hstl.later (later_of_run hR₁ hrun))

/-- **An idle expiry moves** only by the commit of a use of a session that counts. -/
theorem idle_moves (hS : Reached S) (hst : system.step S m = some S₁) {old new : Session}
    (hold : (S.state.sessions hash).committed = some old) (hnew : (S₁.state.sessions hash).committed = some new)
    (hne : new.idleExpiresAt ≠ old.idleExpiresAt) :
    ∃ t call a now life, CommitOf S m S₁.state t call a ∧ call.touches a = some (hash, now, life) ∧
      new = old.touch now life ∧ old.unexpired now = true := by
  rcases hS.step_cases hst with ⟨hse, -⟩ | ⟨t, call, a, h⟩
  · rw [hse, hold] at hnew
    exact absurd (congrArg Session.idleExpiresAt (some.inj hnew).symm) hne
  rw [h.state] at hnew
  have hvw : (S.state.sessions hash).view t = some new := (committed_commit t _).symm.trans hnew
  obtain ⟨-, hsm⟩ | hown := sees_of_view hvw
  · rw [hold] at hsm
    exact absurd (congrArg Session.idleExpiresAt (some.inj hsm).symm) hne
  rw [hold] at hown
  obtain ⟨now, life, htch⟩ := (hS.closes h).2.idle hash old new hown hne
  obtain ⟨user, old', -, htou, hunx⟩ := (hS.closes h).2.touched hash now life htch
  obtain ⟨hfst, hla⟩ := Prod.mk.inj (mem_unique hown htou)
  cases hfst
  exact ⟨t, call, a, now, life, h, htch, some.inj hla, hunx⟩

end

/-- **Ended sessions stay ended**, in any schedule. An idle expiry is not after the absolute one, and moves only by a
use of the session while it counts. Once a call that ends the sessions of a user has committed, none that there was is
ever returned or extended again, and neither is one made later for a sign-in that read a generation before. -/
theorem ended_sessions_stay_ended {s₀ : Db} (h₀ : AtRest s₀) {before : List (Move ℕ Call Empty)} {S : Running}
    (hbef : run system.step (quiet s₀) before = some S) :
    (∀ hash row, (S.state.sessions hash).committed = some row → row.idleExpiresAt ≤ row.absoluteExpiresAt) ∧
    (∀ m S₁ hash old new, system.step S m = some S₁ → (S.state.sessions hash).committed = some old →
      (S₁.state.sessions hash).committed = some new → new.idleExpiresAt ≠ old.idleExpiresAt →
      ∃ t now life, m = .advance t ∧
        S.running t = some (.touchSession hash now life, .ret (.commit (.updated true))) ∧
        now < old.idleExpiresAt ∧ now < old.absoluteExpiresAt ∧ old.revokedAt = none) ∧
    ∀ t u g call a S₁ after S', S.running t = some (call, .ret (.commit a)) → call.ends a = some u →
      S.state.generation u = some g → system.step S (.advance t) = some S₁ → run system.step S₁ after = some S' →
      (∀ hash row, (S.state.sessions hash).committed = some row → row.userId = u → Gone S' hash) ∧
      ∀ hash during m rest R R₁ r signIn p g', after = during ++ m :: rest → run system.step S₁ during = some R →
        system.step R m = some R₁ → (R.state.sessions hash).committed = none →
        (R₁.state.sessions hash).committed.isSome → m = .advance r → R.running r = some (signIn, p) →
        signIn.reads (R.state.verified r) = some (u, g') → g' ≤ g → Gone S' hash := by
  have hS : Reached S := system_safe.run h₀.reached hbef
  refine ⟨fun hash row hrow => (hS.state.stored hash row hrow).1, fun m S₁ hash old new hst hold hnew hne => ?_,
    fun t u g call a S₁ after S' hret hen hg hcmt haft => ?_⟩
  · obtain ⟨t, call, a, now, life, h, htch, -, hunx⟩ := idle_moves hS hst hold hnew hne
    obtain ⟨rfl, rfl⟩ := Call.touches_eq_some htch
    simp only [Session.unexpired, Bool.and_eq_true, decide_eq_true_eq, isNone_iff_eq_none] at hunx
    exact ⟨t, now, life, h.move, h.returned, hunx.1.2, hunx.2, hunx.1.1⟩
  have hS₁ : Reached S₁ := (system_safe.step_cases hS hcmt).1
  have hg₁ : S₁.state.generation u = some (g + 1) :=
    generation_of_ends hS ⟨rfl, hret, System.step_returned hret hcmt⟩ hen hg
  refine ⟨fun hash row hrow hu => gone_of_stored hS hS₁ (later_of_step hS hcmt) hg hg₁ haft hrow hu,
    fun hash during m rest R R₁ r signIn p g' hspl hdur hst hnn hso hm hsignIn hrds hle => ?_⟩
  obtain ⟨R', hdur', hrs⟩ := run_append.mp (hspl ▸ haft)
  obtain rfl := mem_unique hdur hdur'
  obtain ⟨R₁', hst', hrs⟩ := run_cons.mp hrs
  obtain rfl := mem_unique hst hst'
  obtain ⟨g₁, hgR, hle₁⟩ := (later_of_run hS₁ hdur).generation u (g + 1) hg₁
  exact gone_of_made (system_safe.run hS₁ hdur) hst hnn hso hm hsignIn hrds hgR
    ((Nat.lt_succ_of_le hle).trans_le hle₁) hrs

/-- **Sessions keep their user**, in any schedule: none changes its user or its generation, comes back after it was
revoked, or is ahead of its user. -/
theorem sessions_keep_user (hs : AtRest s) {before after : List (Move ℕ Call Empty)}
    (hbef : run system.step (quiet s) before = some S) (haft : run system.step S after = some S') :
    S.state.Later S'.state ∧ ∀ hash row, (S'.state.sessions hash).committed = some row → S'.state.Fit row := by
  have hS : Reached S := system_safe.run hs.reached hbef
  exact ⟨later_of_run hS haft, (system_safe.run hS haft).state.stored⟩

end

/-! ### A session that is used while it ends -/

/-- A hash that keeps its password. -/
structure PlainPhc where
  password : String
  salt : ℕ
  outdated : Bool
deriving DecidableEq

instance : Hashing where
  Phc := PlainPhc
  eq := inferInstance
  verifies phc password := phc.password = password
  outdated := PlainPhc.outdated
  hashPassword password salt := ⟨password, salt, false⟩
  verifies_hash _ _ _ := decide_eq_true_iff

def sampleSession : Session := ⟨21, 7, 3, 0, 0, 1800, 28800, none⟩

def sampleDb : Db where
  users u := Cell.settled (if u = 7 then some ⟨true, 3, false, some 0⟩ else none)
  sharing _ := []
  credentials u := Cell.settled (if u = 7 then some ⟨PlainPhc.mk "first" 1 true, 0, false⟩ else none)
  sessions hash := Cell.settled (if hash = 11 then some sampleSession else none)
  hashes := [11]
  joined _ := none
  verified _ := none

theorem sampleDb_atRest : AtRest sampleDb where
  users _ := rfl
  credentials _ := rfl
  sessions _ := rfl
  joined _ := rfl
  verified _ := rfl
  owner u h := by
    rcases eq_or_ne u 7 with rfl | hu
    · rfl
    · simp [sampleDb, settled, hu] at h
  stored hash row h := by
    rcases eq_or_ne hash 11 with rfl | hh
    · cases h
      exact ⟨by decide, 3, rfl, le_rfl⟩
    · simp [sampleDb, settled, hh] at h
  hashes hash h := by
    rcases eq_or_ne hash 11 with rfl | hh
    · exact List.mem_singleton_self 11
    · simp [sampleDb, settled, hh] at h

/-- A use of the session has seen the user when the user's sessions are ended. -/
def sampleMoves : List (Move ℕ Call Empty) :=
  [.start 1 (.touchSession 11 60 1800), .advance 1, .start 0 (.revokeUserSessions 7 60), .advance 0, .advance 0,
    .advance 0]

theorem ended_sessions_stay_ended_sample :
    ∃ S S₁ S', run system.step (quiet sampleDb) sampleMoves = some S ∧ (S.state.session 11 60).isSome ∧
      system.step S (.advance 0) = some S₁ ∧ run system.step S₁ [.advance 1, .advance 1] = some S' ∧ Gone S' 11 :=
  ⟨_, _, _, rfl, rfl, rfl, rfl, ((@ended_sessions_stay_ended _ sampleDb sampleDb_atRest sampleMoves _ rfl).2.2 0 7 3
    (.revokeUserSessions 7 60) (.updated true) _ [.advance 1, .advance 1] _ rfl rfl rfl rfl rfl).1 11 sampleSession rfl
    rfl⟩

theorem sessions_keep_user_sample : ∃ S, run system.step (quiet sampleDb) sampleMoves = some S ∧
    sampleDb.Later S.state :=
  ⟨_, rfl, (@sessions_keep_user _ sampleDb _ _ sampleDb_atRest [] sampleMoves rfl rfl).1⟩

end OpenVibes.Store.ConsoleAuth
