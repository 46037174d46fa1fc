import OpenVibes.Store.ConsoleAuth

/-!
# What the programs of the console's accounts hold

A program that ends the sessions of a user raises the generation first. From then on it holds the user's row, and nobody
else can commit a new session of that user (`Hand.Fits`). So the sessions that its next statement finds are all that
there are when it commits.
-/

namespace OpenVibes.Store.ConsoleAuth

open Theory Option Function Cells Cell

/-! ### Rows -/

/-- What no call changes of a session, and a revocation stays. -/
structure Session.Evolves (old new : Session) : Prop where
  userId : new.userId = old.userId
  generation : new.authGeneration = old.authGeneration
  absolute : new.absoluteExpiresAt = old.absoluteExpiresAt
  revoked : old.revokedAt.isSome → new.revokedAt.isSome

theorem Session.Evolves.refl (row : Session) : row.Evolves row := ⟨rfl, rfl, rfl, id⟩

theorem Session.Evolves.trans {a b c : Session} (hab : a.Evolves b) (hbc : b.Evolves c) : a.Evolves c :=
  ⟨hbc.userId.trans hab.userId, hbc.generation.trans hab.generation, hbc.absolute.trans hab.absolute,
    hbc.revoked ∘ hab.revoked⟩

theorem Session.evolves_revoke (now : ℤ) (row : Session) : row.Evolves (row.revoke now) := ⟨rfl, rfl, rfl, fun _ => rfl⟩

theorem Session.evolves_touch (now lifetime : ℤ) (row : Session) : row.Evolves (row.touch now lifetime) :=
  ⟨rfl, rfl, rfl, id⟩

variable [Hashing]

/-! ### What is in hand -/

@[ext]
structure Hand where
  users : ℕ → Option (Option User × Option User)
  credentials : ℕ → Option (Option Credential × Option Credential)
  sessions : ℕ → Option (Option Session × Option Session)
  /-- The committed sessions of the users whose rows it has. -/
  known : ℕ → ℕ → Prop
  joined : Option Joined
  verified : Option Verified

def Db.hand (t : ℕ) (s : Db) : Hand where
  users := s.users.hand t
  credentials := s.credentials.hand t
  sessions := s.sessions.hand t
  known u hash := (s.users u).holds t = true ∧ ∃ row, (s.sessions hash).committed = some row ∧ row.userId = u
  joined := s.joined t
  verified := s.verified t

def Hand.nothing : Hand := ⟨fun _ => none, fun _ => none, fun _ => none, fun _ _ => False, none, none⟩

structure Hand.Fits (m : Hand) : Prop where
  inserted : ∀ hash row, m.sessions hash = some (none, some row) → m.users row.userId ≠ none
  /-- With a new generation every session of the user is revoked. -/
  raised : ∀ u old new, m.users u = some (some old, some new) → new.authGeneration ≠ old.authGeneration →
    ∀ hash, m.known u hash → ∃ before row, m.sessions hash = some (before, some row) ∧ row.revokedAt.isSome

/-! ### What holds of the rows -/

def Db.generation (s : Db) (u : ℕ) : Option ℕ := (s.users u).committed.map User.authGeneration

/-- A session that may stand: idle expiry before the end, and a generation not ahead of its user's. -/
def Db.Fit (s : Db) (row : Session) : Prop :=
  row.idleExpiresAt ≤ row.absoluteExpiresAt ∧ ∃ g, s.generation row.userId = some g ∧ row.authGeneration ≤ g

structure Valid (s : Db) : Prop where
  user : ∀ u t v, (s.users u).held = some (t, v) →
    ∃ old new, (s.users u).committed = some old ∧ v = some new ∧ old.authGeneration ≤ new.authGeneration
  credential : ∀ u t v, (s.credentials u).held = some (t, v) → (s.credentials u).committed.isSome ∧ v.isSome
  owner : ∀ u, (s.credentials u).committed.isSome → (s.users u).committed.isSome
  session : ∀ hash t v, (s.sessions hash).held = some (t, v) →
    ∃ new, v = some new ∧ s.Fit new ∧ ∀ old, (s.sessions hash).committed = some old → old.Evolves new
  stored : ∀ hash row, (s.sessions hash).committed = some row → s.Fit row
  hashes : ∀ hash, (s.sessions hash).committed.isSome ∨ (s.sessions hash).held.isSome → hash ∈ s.hashes
  touching : ∀ t hash user, s.joined t = some (.session hash user) →
    ∃ row, (s.sessions hash).committed = some row ∧ row.authGeneration = user.authGeneration ∧
      (row.revokedAt.isSome ∨ s.generation row.userId = some row.authGeneration)
  verified : ∀ t v, s.verified t = some v → ∃ g, s.generation v.userId = some g ∧ v.authGeneration ≤ g
  rehashing : ∀ t u user, s.joined t = some (.credential u user) →
    ∃ v, s.verified t = some v ∧ v.userId = u ∧ user.authGeneration = v.authGeneration

inductive Acts (t : ℕ) (s : Db) : Db → Prop
  | idle : Acts t s s
  | share (sharing : ℕ → List ℕ) : Acts t s { s with sharing := sharing }
  | user {u : ℕ} {old new : User} (hfr : (s.users u).free t = true) (hvw : (s.users u).view t = some old)
    (hgn : old.authGeneration ≤ new.authGeneration) : Acts t s { s with users := s.users.write t u (some new) }
  | credential {u : ℕ} {old : Credential} (new : Credential) (hfr : (s.credentials u).free t = true)
    (hvw : (s.credentials u).view t = some old) :
    Acts t s { s with credentials := s.credentials.write t u (some new) }
  | session {hash : ℕ} {old new : Session} (hfr : (s.sessions hash).free t = true)
    (hvw : (s.sessions hash).view t = some old) (hevo : old.Evolves new)
    (hidl : new.idleExpiresAt ≤ new.absoluteExpiresAt) :
    Acts t s { s with sessions := s.sessions.write t hash (some new) }
  | insert {hash : ℕ} {row : Session} (hfr : (s.sessions hash).free t = true)
    (hvw : (s.sessions hash).view t = none) (hfit : s.Fit row) :
    Acts t s { s with sessions := s.sessions.write t hash (some row), hashes := hash :: s.hashes }
  | joinSession {hash : ℕ} {row : Session} {user : User} (hrow : (s.sessions hash).committed = some row)
    (hgn : s.generation row.userId = some user.authGeneration)
    (hlv : row.authGeneration = user.authGeneration) :
    Acts t s { s with joined := update s.joined t (some (.session hash user)) }
  | joinCredential {v : Verified} {user : User} (hvfd : s.verified t = some v)
    (hgn : s.generation v.userId = some user.authGeneration)
    (hcur : user.authGeneration = v.authGeneration) :
    Acts t s { s with joined := update s.joined t (some (.credential v.userId user)) }
  | verify {v : Verified} {c : Credential} (hgn : s.generation v.userId = some v.authGeneration)
    (hsto : (s.credentials v.userId).committed = some c) (hphc : c.passwordPhc = v.phc) (hjnd : s.joined t = none) :
    Acts t s { s with verified := update s.verified t (some v) }
  | commit (hux : (s.hand t).users = fun _ => none) (hse : (s.hand t).sessions = fun _ => none)
    (hrehash : ∀ u p, (s.hand t).credentials u = some p → ∃ c v user, p.2 = some c ∧ s.verified t = some v ∧
      v.userId = u ∧ (∀ q, verifies c.passwordPhc q = true → verifies v.phc q = true) ∧
        s.joined t = some (.credential u user)) :
    Acts t s (s.commit t)

theorem Hand.fits_of_none {m : Hand} (hux : m.users = fun _ => none) (hse : m.sessions = fun _ => none) :
    m.Fits where
  inserted hash row h := by
    rw [hse] at h
    cases h
  raised u old new h := by
    rw [hux] at h
    cases h

/-! ### Views -/

section

variable {s : Db} {t u hash : ℕ}

section

variable (hs : Valid s)

include hs

theorem Valid.exists_view (h : (s.users u).committed.isSome) :
    ∃ old new, (s.users u).committed = some old ∧ (s.users u).view t = some new ∧
      old.authGeneration ≤ new.authGeneration := by
  cases hown : (s.users u).own t with
  | none =>
    obtain ⟨old, hold⟩ := isSome_iff_exists.mp h
    exact ⟨old, old, hold, (view_of_none hown).trans hold, le_rfl⟩
  | some p =>
    obtain ⟨old, new, hold, hv, hle⟩ := hs.user u t p.2 (own_iff.mp hown).2
    exact ⟨old, new, hold, (view_of_own hown).trans hv, hle⟩

theorem Valid.committed_of_view {row : User} (h : (s.users u).view t = some row) :
    ∃ old, (s.users u).committed = some old ∧ old.authGeneration ≤ row.authGeneration := by
  cases hown : (s.users u).own t with
  | none => exact ⟨row, (view_of_none hown).symm.trans h, le_rfl⟩
  | some p =>
    obtain ⟨old, new, hold, hv, hle⟩ := hs.user u t p.2 (own_iff.mp hown).2
    rw [view_of_own hown, hv] at h
    exact ⟨old, hold, some.inj h ▸ hle⟩

theorem Valid.session_view {row : Session} (h : (s.sessions hash).view t = some row) :
    s.Fit row ∧ ∀ old, (s.sessions hash).committed = some old → old.Evolves row := by
  cases hown : (s.sessions hash).own t with
  | none =>
    rw [view_of_none hown] at h
    refine ⟨hs.stored hash row h, fun old hold => ?_⟩
    rw [h] at hold
    exact some.inj hold ▸ .refl row
  | some p =>
    obtain ⟨new, hv, hfit, hevo⟩ := hs.session hash t p.2 (own_iff.mp hown).2
    rw [view_of_own hown, hv] at h
    exact some.inj h ▸ ⟨hfit, hevo⟩

theorem Valid.exists_session_view {old : Session} (h : (s.sessions hash).committed = some old) :
    ∃ row, (s.sessions hash).view t = some row ∧ old.Evolves row := by
  cases hown : (s.sessions hash).own t with
  | none => exact ⟨old, (view_of_none hown).trans h, .refl old⟩
  | some p =>
    obtain ⟨new, hv, -, hevo⟩ := hs.session hash t p.2 (own_iff.mp hown).2
    exact ⟨new, (view_of_own hown).trans hv, hevo old h⟩

theorem Valid.committed_of_session_view_none (h : (s.sessions hash).view t = none) :
    (s.sessions hash).committed = none := by
  cases hold : (s.sessions hash).committed with
  | none => rfl
  | some old =>
    obtain ⟨row, hrow, -⟩ := hs.exists_session_view (t := t) hold
    rw [h] at hrow
    cases hrow

theorem Valid.credential_view {c : Credential} (h : (s.credentials u).view t = some c) :
    (s.credentials u).committed.isSome := by
  cases hown : (s.credentials u).own t with
  | none => rw [← view_of_none hown, h]; rfl
  | some p => exact (hs.credential u t p.2 (own_iff.mp hown).2).1

end

end

/-! ### Statements keep the invariant -/

variable {s s' : Db} {u hash : ℕ}

theorem Db.Fit.mono {row : Session} (h : s.Fit row)
    (hgn : ∀ u g, s.generation u = some g → ∃ g', s'.generation u = some g' ∧ g ≤ g') : s'.Fit row := by
  obtain ⟨hidl, g, hg, hle⟩ := h
  obtain ⟨g', hg', hle'⟩ := hgn _ g hg
  exact ⟨hidl, g', hg', hle.trans hle'⟩

section

variable {t : ℕ}

/-- **The committed rows are the same**: what is held, and who stands between its statements, decide. -/
theorem Valid.of_committed (hs : Valid s) (hux : ∀ u, (s'.users u).committed = (s.users u).committed)
    (hcr : ∀ u, (s'.credentials u).committed = (s.credentials u).committed)
    (hse : ∀ hash, (s'.sessions hash).committed = (s.sessions hash).committed)
    (hus : ∀ u r v, (s'.users u).held = some (r, v) → (s.users u).held = some (r, v) ∨
      ∃ old new, (s.users u).committed = some old ∧ v = some new ∧ old.authGeneration ≤ new.authGeneration)
    (hcrd : ∀ u r v, (s'.credentials u).held = some (r, v) → (s.credentials u).held = some (r, v) ∨
      (s.credentials u).committed.isSome ∧ v.isSome)
    (hses : ∀ hash r v, (s'.sessions hash).held = some (r, v) → (s.sessions hash).held = some (r, v) ∨
      ∃ new, v = some new ∧ s.Fit new ∧ ∀ old, (s.sessions hash).committed = some old → old.Evolves new)
    (hhas : ∀ hash, (s'.sessions hash).committed.isSome ∨ (s'.sessions hash).held.isSome → hash ∈ s'.hashes)
    (hjnd : ∀ r j, s'.joined r = some j → s.joined r = some j) (hvfd : s'.verified = s.verified) : Valid s' := by
  have hgen : ∀ u, s'.generation u = s.generation u := fun u => by rw [Db.generation, hux, Db.generation]
  have hfit : ∀ {row}, s.Fit row → s'.Fit row := fun hrow => hrow.mono fun u g hg => ⟨g, (hgen u).trans hg, le_rfl⟩
  refine ⟨fun u r v hu => ?_, fun u r v hu => ?_, fun u hu => ?_, fun hash r v hh => ?_, fun hash row hrow => ?_, hhas,
    fun r hash user hr => ?_, fun r v hv => ?_, fun r u user hr => ?_⟩
  · rw [hux]
    exact (hus u r v hu).elim (hs.user u r v) id
  · rw [hcr]
    exact (hcrd u r v hu).elim (hs.credential u r v) id
  · rw [hcr] at hu
    rw [hux]
    exact hs.owner u hu
  · obtain ⟨new, hv, hnew, hevo⟩ := (hses hash r v hh).elim (hs.session hash r v) id
    rw [hse]
    exact ⟨new, hv, hfit hnew, hevo⟩
  · rw [hse] at hrow
    exact hfit (hs.stored hash row hrow)
  · simp only [hse, hgen]
    exact hs.touching r hash user (hjnd r _ hr)
  · rw [hvfd] at hv
    rw [hgen]
    exact hs.verified r v hv
  · rw [hvfd]
    exact hs.rehashing r u user (hjnd r _ hr)

theorem Valid.writeUser (hs : Valid s) {old new : User} (hvw : (s.users u).view t = some old)
    (hgn : old.authGeneration ≤ new.authGeneration) :
    Valid { s with users := s.users.write t u (some new) } := by
  refine hs.of_committed (committed_write t u _ s.users) (fun _ => rfl) (fun _ => rfl) (fun j r v hj => ?_)
    (fun _ _ _ => .inl) (fun _ _ _ => .inl) hs.hashes (fun _ _ => id) rfl
  rcases held_write hj with ⟨rfl, -, rfl⟩ | ⟨-, hj⟩
  · obtain ⟨first, hfst, hle⟩ := hs.committed_of_view hvw
    exact .inr ⟨first, new, hfst, rfl, hle.trans hgn⟩
  · exact .inl hj

theorem Valid.writeCredential (hs : Valid s) {old : Credential} (new : Credential)
    (hvw : (s.credentials u).view t = some old) :
    Valid { s with credentials := s.credentials.write t u (some new) } := by
  refine hs.of_committed (fun _ => rfl) (committed_write t u _ s.credentials) (fun _ => rfl) (fun _ _ _ => .inl)
    (fun j r v hj => ?_) (fun _ _ _ => .inl) hs.hashes (fun _ _ => id) rfl
  rcases held_write hj with ⟨rfl, -, rfl⟩ | ⟨-, hj⟩
  · exact .inr ⟨hs.credential_view hvw, rfl⟩
  · exact .inl hj

theorem Valid.writeSession (hs : Valid s) {new : Session} {hashes : List ℕ} (hfit : s.Fit new)
    (hevo : ∀ old, (s.sessions hash).committed = some old → old.Evolves new) (hmem : hash ∈ hashes)
    (hsub : s.hashes ⊆ hashes) : Valid { s with sessions := s.sessions.write t hash (some new), hashes := hashes } := by
  refine hs.of_committed (fun _ => rfl) (fun _ => rfl) (committed_write t hash _ s.sessions) (fun _ _ _ => .inl)
    (fun _ _ _ => .inl) (fun h r v hh => ?_) (fun h hh => ?_) (fun _ _ => id) rfl
  · rcases held_write hh with ⟨rfl, -, rfl⟩ | ⟨-, hh⟩
    · exact .inr ⟨new, rfl, hfit, hevo⟩
    · exact .inl hh
  dsimp only at hh ⊢
  by_cases heq : h = hash
  · exact heq ▸ hmem
  · rw [write_of_ne heq] at hh
    exact hsub (hs.hashes h hh)

end

/-! ### The end of a transaction -/

section

variable {t : ℕ}

theorem Valid.generation_commit (hs : Valid s) {u g : ℕ} (hg : s.generation u = some g) :
    ∃ g', (s.commit t).generation u = some g' ∧ g ≤ g' := by
  obtain ⟨old, hold, rfl⟩ := Option.map_eq_some_iff.mp hg
  obtain ⟨old', new, hold', hnew, hle⟩ := hs.exists_view (t := t) (u := u) (by rw [hold]; rfl)
  rw [hold] at hold'
  cases hold'
  refine ⟨new.authGeneration, ?_, hle⟩
  change Option.map _ ((s.users u).commit t).committed = _
  rw [Cell.committed_commit, hnew]
  rfl

theorem generation_commit_of_own_none (h : (s.users u).own t = none) : (s.commit t).generation u = s.generation u := by
  exact congrArg _ (committed_commit_of_none h)

theorem Valid.session_commit (hs : Valid s) {old : Session} (h : (s.sessions hash).committed = some old) :
    ∃ new, ((s.commit t).sessions hash).committed = some new ∧ old.Evolves new := by
  obtain ⟨new, hnew, hevo⟩ := hs.exists_session_view (t := t) h
  exact ⟨new, (Cell.committed_commit t _).trans hnew, hevo⟩

theorem Valid.touching_commit (hs : Valid s) (hft : (s.hand t).Fits) {row : Session}
    (hrow : (s.sessions hash).committed = some row)
    (h : row.revokedAt.isSome ∨ s.generation row.userId = some row.authGeneration) :
    ∃ new, ((s.commit t).sessions hash).committed = some new ∧ row.Evolves new ∧
      (new.revokedAt.isSome ∨ (s.commit t).generation new.userId = some new.authGeneration) := by
  obtain ⟨new, hnew, hevo⟩ := hs.session_commit (t := t) hrow
  refine ⟨new, hnew, hevo, ?_⟩
  rcases h with hrvk | hgen
  · exact .inl (hevo.revoked hrvk)
  rw [hevo.userId, hevo.generation]
  cases hown : (s.users row.userId).own t with
  | none => exact .inr ((generation_commit_of_own_none hown).trans hgen)
  | some p =>
    obtain ⟨hcom, hhd⟩ := own_iff.mp hown
    obtain ⟨old, user, hold, hus, -⟩ := hs.user _ _ _ hhd
    have hp : (s.hand t).users row.userId = some (some old, some user) := by
      rw [show (s.hand t).users row.userId = (s.users row.userId).own t from rfl, hown, ← hold, hcom, ← hus]
    have hgen' : old.authGeneration = row.authGeneration := by
      rw [Db.generation, hold] at hgen
      exact some.inj hgen
    by_cases hsm : user.authGeneration = old.authGeneration
    · refine .inr ?_
      change Option.map _ ((s.users row.userId).commit t).committed = _
      rw [Cell.committed_commit, Cell.view_of_own hown, hus, ← hgen', ← hsm]
      rfl
    -- the generation is raised: the session is one of those that the transaction has revoked
    obtain ⟨before, version, hver, hrvk⟩ :=
      hft.raised _ old user hp hsm hash ⟨holds_iff.mpr ⟨p, hown⟩, row, hrow, rfl⟩
    have hvw : (s.sessions hash).view t = some version := view_of_own hver
    rw [show ((s.commit t).sessions hash).committed = _ from Cells.committed_commit .., hvw] at hnew
    exact .inl (some.inj hnew ▸ hrvk)

theorem joined_settle {users : Cells ℕ ℕ (Option User)} {credentials : Cells ℕ ℕ (Option Credential)}
    {sessions : Cells ℕ ℕ (Option Session)} {r : ℕ} {j : Joined}
    (h : (s.settle t users credentials sessions).joined r = some j) : s.joined r = some j := by
  rcases update_cases h with ⟨-, h⟩ | ⟨-, h⟩
  · cases h
  · exact h

theorem Valid.commit (hs : Valid s) (hft : (s.hand t).Fits) : Valid (s.commit t) := by
  have hfit : ∀ {row}, s.Fit row → (s.commit t).Fit row := fun hrow => hrow.mono fun _ _ => hs.generation_commit
  refine ⟨fun u r v hu => ?_, fun u r v hu => ?_, fun u hu => ?_, fun hash r v hh => ?_, fun hash row hrow => ?_,
    fun hash hh => ?_, fun r hash user hr => ?_, fun r v hv => ?_, fun r u user hr => ?_⟩
  · obtain ⟨hhd, hown⟩ := held_commit hu
    rw [show ((s.commit t).users u).committed = _ from committed_commit_of_none hown]
    exact hs.user u r v hhd
  · obtain ⟨hhd, hown⟩ := held_commit hu
    rw [show ((s.commit t).credentials u).committed = _ from committed_commit_of_none hown]
    exact hs.credential u r v hhd
  · rw [show ((s.commit t).credentials u).committed = _ from Cells.committed_commit ..] at hu
    obtain ⟨c, hc⟩ := isSome_iff_exists.mp hu
    obtain ⟨-, new, -, hnew, -⟩ := hs.exists_view (t := t) (hs.owner u (hs.credential_view hc))
    rw [show ((s.commit t).users u).committed = _ from Cells.committed_commit .., hnew]
    rfl
  · obtain ⟨hhd, hown⟩ := held_commit hh
    obtain ⟨new, hv, hnew, hevo⟩ := hs.session hash r v hhd
    rw [show ((s.commit t).sessions hash).committed = _ from committed_commit_of_none hown]
    exact ⟨new, hv, hfit hnew, hevo⟩
  · rw [show ((s.commit t).sessions hash).committed = _ from Cells.committed_commit ..] at hrow
    exact hfit (hs.session_view hrow).1
  · exact hs.hashes hash ((ends_commit t _).there hh)
  · obtain ⟨row, hrow, hgen, h⟩ := hs.touching r hash user (joined_settle hr)
    obtain ⟨new, hnew, hevo, h⟩ := hs.touching_commit hft hrow h
    exact ⟨new, hnew, hevo.generation.trans hgen, h⟩
  · obtain ⟨g, hg, hle⟩ := hs.verified r v hv
    obtain ⟨g', hg', hle'⟩ := hs.generation_commit (t := t) hg
    exact ⟨g', hg', hle.trans hle'⟩
  · exact hs.rehashing r u user (joined_settle hr)

theorem Valid.abort (hs : Valid s) : Valid (s.abort t) :=
  hs.of_committed (fun _ => committed_abort t _) (fun _ => committed_abort t _) (fun _ => committed_abort t _)
    (fun _ _ _ hu => .inl (held_abort hu).1) (fun _ _ _ hu => .inl (held_abort hu).1)
    (fun _ _ _ hh => .inl (held_abort hh).1) (fun hash hh => hs.hashes hash ((ends_abort t _).there hh))
    (fun _ _ => joined_settle) rfl

theorem Valid.leave (hs : Valid s) (hjnd : s.joined t = none) : Valid (s.leave t) := by
  refine { hs with verified := fun r v hv => ?_, rehashing := fun r u user hr => ?_ }
  · rcases update_cases hv with ⟨-, hv⟩ | ⟨-, hv⟩
    · cases hv
    · exact hs.verified r v hv
  obtain ⟨v, hv, hrs⟩ := hs.rehashing r u user hr
  have h : r ≠ t := by
    rintro rfl
    exact absurd (hjnd.symm.trans hr) (some_ne_none _).symm
  exact ⟨v, (update_of_ne h ..).trans hv, hrs⟩

end

theorem Valid.acts {t : ℕ} (hs : Valid s) (h : Acts t s s') : Valid s' := by
  cases h with
  | idle => exact hs
  | share sharing => exact { hs with }
  | user hfr hvw hgn => exact hs.writeUser hvw hgn
  | credential new hfr hvw => exact hs.writeCredential new hvw
  | @session hash old new hfr hvw hevo hidl =>
    obtain ⟨⟨-, g, hg, hle⟩, hfol⟩ := hs.session_view hvw
    refine hs.writeSession ⟨hidl, g, ?_, ?_⟩ (fun first hfst => (hfol first hfst).trans hevo) ?_ (.refl _)
    · rw [hevo.userId]
      exact hg
    · rw [hevo.generation]
      exact hle
    · exact hs.hashes hash (there_of_view (t := t) (by rw [hvw]; rfl))
  | @insert hash row hfr hvw hfit =>
    refine hs.writeSession hfit (fun old hold => ?_) List.mem_cons_self (List.subset_cons_self hash _)
    rw [hs.committed_of_session_view_none hvw] at hold
    cases hold
  | @joinSession hash row user hrow hgn hlv =>
    refine { hs with touching := fun r h w hr => ?_, rehashing := fun r u w hr => ?_ }
    · rcases update_cases hr with ⟨rfl, hj⟩ | ⟨-, hj⟩
      · obtain ⟨rfl, rfl⟩ := Joined.session.inj (some.inj hj)
        exact ⟨row, hrow, hlv, .inr (by rw [hlv]; exact hgn)⟩
      · exact hs.touching r h w hj
    · rcases update_cases hr with ⟨-, hr⟩ | ⟨-, hr⟩
      · cases hr
      · exact hs.rehashing r u w hr
  | @joinCredential v user hvfd hgn hcur =>
    refine { hs with touching := fun r h w hr => ?_, rehashing := fun r u w hr => ?_ }
    · rcases update_cases hr with ⟨-, hr⟩ | ⟨-, hr⟩
      · cases hr
      · exact hs.touching r h w hr
    · rcases update_cases hr with ⟨rfl, hj⟩ | ⟨-, hj⟩
      · obtain ⟨rfl, rfl⟩ := Joined.credential.inj (some.inj hj)
        exact ⟨v, hvfd, rfl, hcur⟩
      · exact hs.rehashing r u w hj
  | @verify v c hgn hsto hphc hjnd =>
    refine { hs with verified := fun r w hr => ?_, rehashing := fun r u w hr => ?_ }
    · rcases update_cases hr with ⟨rfl, hj⟩ | ⟨-, hj⟩
      · cases hj
        exact ⟨v.authGeneration, hgn, le_rfl⟩
      · exact hs.verified r w hj
    · have heq : r ≠ t := by
        rintro rfl
        exact absurd (hjnd.symm.trans hr) (some_ne_none _).symm
      obtain ⟨v', hv', hrs⟩ := hs.rehashing r u w hr
      exact ⟨v', (update_of_ne heq ..).trans hv', hrs⟩
  | commit hux hse hrehash => exact hs.commit (Hand.fits_of_none hux hse)

/-! ### What the others have in hand -/

section

variable {t r : ℕ}

theorem hand_congr (hux : s'.users.hand r = s.users.hand r) (hcr : s'.credentials.hand r = s.credentials.hand r)
    (hse : s'.sessions.hand r = s.sessions.hand r)
    (hkn : ∀ u hash, (s.users u).holds r = true → ((∃ row, (s'.sessions hash).committed = some row ∧ row.userId = u) ↔
        ∃ row, (s.sessions hash).committed = some row ∧ row.userId = u))
    (hjnd : s'.joined r = s.joined r) (hvfd : s'.verified r = s.verified r) : s'.hand r = s.hand r := by
  refine Hand.ext hux hcr hse ?_ hjnd hvfd
  funext u hash
  have hhld : (s'.users u).holds r = (s.users u).holds r := holds_congr (congrFun hux u)
  refine propext ?_
  change _ ∧ _ ↔ _ ∧ _
  rw [hhld]
  exact and_congr_right (hkn u hash)

theorem Valid.known_commit (hs : Valid s) (hft : (s.hand t).Fits) (hr : r ≠ t) (hhld : (s.users u).holds r = true) :
    (∃ row, ((s.commit t).sessions hash).committed = some row ∧ row.userId = u) ↔
      ∃ row, (s.sessions hash).committed = some row ∧ row.userId = u := by
  constructor
  · rintro ⟨row, hrow, rfl⟩
    cases hold : (s.sessions hash).committed with
    | some old =>
      obtain ⟨new, hnew, hevo⟩ := hs.session_commit (t := t) hold
      rw [hrow] at hnew
      cases hnew
      exact ⟨old, rfl, hevo.userId.symm⟩
    | none =>
      -- a session of the transaction that commits: that has the user's row
      rw [show ((s.commit t).sessions hash).committed = _ from Cells.committed_commit ..] at hrow
      cases hown : (s.sessions hash).own t with
      | none =>
        rw [view_of_none hown, hold] at hrow
        cases hrow
      | some p =>
        obtain ⟨hcom, -⟩ := own_iff.mp hown
        rw [view_of_own hown] at hrow
        have hins : (s.hand t).sessions hash = some (none, some row) := by
          rw [show (s.hand t).sessions hash = (s.sessions hash).own t from rfl, hown, ← hrow, ← hold, hcom]
        have how := ne_none_iff_exists'.mp (hft.inserted hash row hins)
        exact absurd (holds_unique hhld (holds_iff.mpr how)) hr
  · rintro ⟨old, hold, rfl⟩
    obtain ⟨new, hnew, hevo⟩ := hs.session_commit (t := t) hold
    exact ⟨new, hnew, hevo.userId⟩

theorem Valid.hand_commit (hs : Valid s) (hft : (s.hand t).Fits) (hr : r ≠ t) : (s.commit t).hand r = s.hand r :=
  hand_congr (Cells.hand_commit hr _) (Cells.hand_commit hr _) (Cells.hand_commit hr _)
    (fun _ _ => hs.known_commit hft hr) (Function.update_of_ne hr ..) rfl

theorem hand_abort (hr : r ≠ t) : (s.abort t).hand r = s.hand r := by
  refine hand_congr (Cells.hand_abort hr _) (Cells.hand_abort hr _) (Cells.hand_abort hr _) (fun u hash _ => ?_)
    (Function.update_of_ne hr ..) rfl
  rw [show ((s.abort t).sessions hash).committed = _ from Cell.committed_abort t _]

theorem hand_leave (hr : r ≠ t) : (s.leave t).hand r = s.hand r :=
  Hand.ext rfl rfl rfl rfl rfl (update_of_ne hr ..)

theorem hand_leave_self : (s.leave t).hand t = { s.hand t with verified := none } :=
  Hand.ext rfl rfl rfl rfl rfl (update_self ..)

theorem hand_commit_kept : (s.commit t).hand t = ⟨fun _ => none, fun _ => none, fun _ => none, fun _ _ => False, none,
    s.verified t⟩ := by
  refine Hand.ext (hand_commit_self t _) (hand_commit_self t _) (hand_commit_self t _) ?_
    (update_self ..) rfl
  funext u hash
  exact eq_false fun h => (holds_commit_iff.mp h.1).1 rfl

theorem hand_commit_self : ((s.commit t).leave t).hand t = .nothing := by
  rw [hand_leave_self, hand_commit_kept]
  rfl

theorem hand_abort_self : ((s.abort t).leave t).hand t = .nothing := by
  refine Hand.ext (Cells.hand_abort_self t _) (Cells.hand_abort_self t _) (Cells.hand_abort_self t _) ?_
    (Function.update_self ..) (Function.update_self ..)
  funext u hash
  exact eq_false fun h => (holds_abort_iff.mp h.1).1 rfl

/-- **A statement does not touch what another program has in hand.** -/
theorem Valid.hand_acts (hs : Valid s) (h : Acts t s s') (hr : r ≠ t) : s'.hand r = s.hand r := by
  cases h with
  | idle | share => rfl
  | user hfr hvw hgn =>
    exact hand_congr ((takes_write hfr _).hand hr) rfl rfl (fun _ _ _ => .rfl) rfl rfl
  | credential new hfr hvw =>
    exact hand_congr rfl ((takes_write hfr _).hand hr) rfl (fun _ _ _ => .rfl) rfl rfl
  | session hfr | insert hfr =>
    refine hand_congr rfl rfl ((takes_write hfr _).hand hr) (fun u hash _ => ?_) rfl rfl
    rw [(takes_write hfr _).committed]
  | joinSession | joinCredential =>
    exact hand_congr rfl rfl rfl (fun _ _ _ => .rfl) (update_of_ne hr ..) rfl
  | verify hgn hsto hphc hjnd =>
    exact hand_congr rfl rfl rfl (fun _ _ _ => .rfl) rfl (update_of_ne hr ..)
  | commit hux hse hrehash => exact hs.hand_commit (Hand.fits_of_none hux hse) hr

end

end OpenVibes.Store.ConsoleAuth
