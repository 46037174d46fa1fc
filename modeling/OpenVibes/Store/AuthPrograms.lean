import OpenVibes.Store.AuthLocks

/-!
# The programs of the console's accounts keep their rules

Each program of `Store.ConsoleAuth`, among any others, acts as `Acts` says and commits only what `Closes` allows.
`Obeys` is what it has in hand when it commits, by its call; `safe` is `Theory.System.Safe` for the whole system.
-/

namespace OpenVibes.Store.ConsoleAuth

open Theory Function Cells Cell Option

variable [Hashing]

/-! ### What a call commits -/

def Call.ends : Call → Answer → Option ℕ
  | .revokeUserSessions u _, .updated true => some u
  | .replacePassword u _ _ _, .updated true => some u
  | .resetPassword u _ _, .updated true => some u
  | .disableLocalUser u _ _, .disable .disabled => some u
  | _, _ => none

/-- The user whose password a call has set, and its hash. -/
def Call.sets : Call → Answer → Option (ℕ × Phc)
  | .replacePassword u phc _ _, .updated true => some (u, phc)
  | .resetPassword u phc _, .updated true => some (u, phc)
  | .changeOwnPassword u _ _ phc _, .change .changed => some (u, phc)
  | _, _ => none

/-- The session that a call has extended, when, and for how long. -/
def Call.touches : Call → Answer → Option (ℕ × ℤ × ℤ)
  | .touchSession hash now lifetime, .updated true => some (hash, now, lifetime)
  | _, _ => none

variable {call : Call} {a : Answer} {hash : ℕ} {now lifetime : ℤ}

theorem Call.touches_eq_some (h : call.touches a = some (hash, now, lifetime)) :
    call = .touchSession hash now lifetime ∧ a = .updated true := by
  unfold Call.touches at h
  split at h
  · obtain ⟨rfl, htim⟩ := Prod.mk.inj (some.inj h)
    cases htim
    exact ⟨rfl, rfl⟩
  · cases h

variable {u : ℕ} {f : User → User}

theorem Call.touches_of_ends (h : call.ends a = some u) : call.touches a = none := by
  cases call with
  | touchSession => cases h
  | _ => rfl

def Call.reads : Call → Option Verified → Option (ℕ × ℕ)
  | .createSession n, _ => some (n.userId, n.authGeneration)
  | .login _, verified => verified.map fun v => (v.userId, v.authGeneration)
  | _, _ => none

def Call.makes : Call → Option ℕ
  | .createSession n => some n.sessionSha256
  | .login r => some r.sessionSha256
  | _ => none

structure Obeys (call : Call) (a : Answer) (m : Hand) : Prop where
  idle : ∀ hash old new, m.sessions hash = some (some old, some new) → new.idleExpiresAt ≠ old.idleExpiresAt →
    ∃ now lifetime, call.touches a = some (hash, now, lifetime)
  touched : ∀ hash now lifetime, call.touches a = some (hash, now, lifetime) → ∃ user old,
    m.joined = some (.session hash user) ∧ m.sessions hash = some (some old, some (old.touch now lifetime)) ∧
      old.unexpired now = true
  /-- A session is made by a sign-in, for what it has read. -/
  made : ∀ hash row, m.sessions hash = some (none, some row) →
    call.makes = some hash ∧ call.reads m.verified = some (row.userId, row.authGeneration)
  ended : ∀ u, call.ends a = some u →
    ∃ old new, m.users u = some (some old, some new) ∧ new.authGeneration = old.authGeneration + 1
  password : ∀ u old new, m.credentials u = some (old, new) →
    ∃ phc c, call.sets a = some (u, phc) ∧ new = some c ∧ c.passwordPhc = phc
  set : ∀ u phc, call.sets a = some (u, phc) → (m.credentials u).isSome

def Closes (call : Call) : End Answer → Hand → Prop
  | .rollback _, _ => True
  | .commit a, m => m.Fits ∧ Obeys call a m

/-! ### Hands after a write -/

section

variable {s : Db} {t : ℕ}

theorem hand_writeUser (u : ℕ) (new : Option User) :
    Db.hand t { s with users := s.users.write t u new } = { s.hand t with
        users := update (s.hand t).users u (some ((s.users u).committed, new))
        known := update (s.hand t).known u fun hash =>
          ∃ row, (s.sessions hash).committed = some row ∧ row.userId = u } := by
  refine Hand.ext (hand_write t u new s.users) rfl rfl (funext fun j => ?_) rfl rfl
  by_cases hj : j = u
  · subst hj
    dsimp only
    rw [update_self]
    funext hash
    simp [Db.hand]
  · dsimp only
    rw [update_of_ne hj]
    funext hash
    simp only [Db.hand]
    rw [write_of_ne hj]

theorem hand_writeCredential (u : ℕ) (new : Option Credential) :
    Db.hand t { s with credentials := s.credentials.write t u new } = { s.hand t with
        credentials := update (s.hand t).credentials u (some ((s.credentials u).committed, new)) } :=
  Hand.ext rfl (hand_write t u new s.credentials) rfl rfl rfl rfl

theorem hand_writeSession (hash : ℕ) (new : Option Session) (hashes : List ℕ) :
    Db.hand t { s with sessions := s.sessions.write t hash new, hashes := hashes } = { s.hand t with
        sessions := update (s.hand t).sessions hash (some ((s.sessions hash).committed, new)) } := by
  refine Hand.ext rfl rfl (hand_write t hash new s.sessions) (funext fun u => funext fun h => ?_) rfl rfl
  simp [Db.hand, committed_write]

end

/-! ### Statements -/

section

variable {t : ℕ} {l : Hand} {Q : Bool → Hand → Prop}

/-- What a program of transaction `t` meets from the hand `l`. -/
abbrev Runs {α : Type} (t : ℕ) (Q : α → Hand → Prop) (p : Txn Db α) (l : Hand) : Prop :=
  p.Meets Valid (Db.hand t) (Acts t) Q l

theorem updateUser_meets {cond : User → Bool} (hf : ∀ row, row.authGeneration ≤ (f row).authGeneration)
    (hno : ∀ s, Valid s → s.hand t = l → (∀ row, (s.users u).view t = some row → cond row = false) → Q false l)
    (hyes : ∀ old row K, Sees (l.users u) (some old) row → cond row = true → Q true { l with
        users := update l.users u (some (some old, some (f row))), known := update l.known u K }) :
    Runs t Q (updateUser t u cond f) l := by
  refine .stmt fun s b s' hs hl hact => ?_
  split at hact
  · rename_i hvw
    cases hact
    exact ⟨.idle, hl ▸ hno s hs hl fun row hrow => by rw [hvw] at hrow; cases hrow⟩
  rename_i row hvw
  split_ifs at hact with hcd hshr
  · cases hact
    refine ⟨.idle, hl ▸ hno s hs hl fun row' hrow' => ?_⟩
    rw [hvw] at hrow'
    exact some.inj hrow' ▸ (by simpa using hcd)
  obtain ⟨hfr, heq⟩ := map_put_iff.mp hact
  cases heq
  refine ⟨.user hfr hvw (hf row), ?_⟩
  obtain ⟨old, hold, -⟩ := hs.committed_of_view hvw
  rw [hand_writeUser, hl, hold]
  refine hyes old row _ ?_ (by simpa using hcd)
  rw [← hl, ← hold]
  exact sees_of_view hvw

theorem updateCredential_meets {f : Credential → Credential}
    (hno : ∀ s, Valid s → s.hand t = l → (s.credentials u).view t = none → Q false l)
    (hyes : ∀ s old row, Valid s → s.hand t = l → (s.credentials u).view t = some row →
      Sees (l.credentials u) old row → Q true { l with credentials := update l.credentials u (some (old,
      some (f row))) }) :
    Runs t Q (updateCredential t u f) l := by
  refine .stmt fun s b s' hs hl hact => ?_
  split at hact
  · rename_i hvw
    cases hact
    exact ⟨.idle, hl ▸ hno s hs hl hvw⟩
  rename_i row hvw
  obtain ⟨hfr, heq⟩ := map_put_iff.mp hact
  cases heq
  refine ⟨.credential _ hfr hvw, ?_⟩
  rw [hand_writeCredential, hl]
  refine hyes s _ row hs hl hvw ?_
  rw [← hl]
  exact sees_of_view hvw

theorem updateSession_meets {cond : Session → Bool} {f : Session → Session} (hf : ∀ row : Session, row.Evolves (f row))
    (hidl : ∀ row, row.idleExpiresAt ≤ row.absoluteExpiresAt → (f row).idleExpiresAt ≤ (f row).absoluteExpiresAt)
    (hno : ∀ s, Valid s → s.hand t = l → (∀ row, (s.sessions hash).view t = some row → cond row = false) → Q false l)
    (hyes : ∀ old row, Sees (l.sessions hash) old row → cond row = true →
      Q true { l with sessions := update l.sessions hash (some (old, some (f row))) }) :
    Runs t Q (updateSession t hash cond f) l := by
  refine .stmt fun s b s' hs hl hact => ?_
  split at hact
  · rename_i hvw
    cases hact
    exact ⟨.idle, hl ▸ hno s hs hl fun row hrow => by rw [hvw] at hrow; cases hrow⟩
  rename_i row hvw
  split_ifs at hact with hcd
  · cases hact
    refine ⟨.idle, hl ▸ hno s hs hl fun row' hrow' => ?_⟩
    rw [hvw] at hrow'
    exact some.inj hrow' ▸ (by simpa using hcd)
  obtain ⟨hfr, heq⟩ := map_put_iff.mp hact
  cases heq
  refine ⟨.session hfr hvw (hf row) (hidl row (hs.session_view hvw).1.1), ?_⟩
  rw [hand_writeSession hash _ s.hashes, hl]
  refine hyes _ row ?_ (by simpa using hcd)
  rw [← hl]
  exact sees_of_view hvw

end

/-! ### Revoking sessions -/

def Hand.Steady (m : Hand) : Prop :=
  ∀ hash p, m.sessions hash = some p → ∃ old new, p = (some old, some new) ∧ new.idleExpiresAt = old.idleExpiresAt

theorem Hand.steady_nothing : Hand.nothing.Steady := fun _ _ h => by cases h

variable {m : Hand} {old : Option Session} {row : Session}

theorem Hand.Steady.revoke (h : m.Steady) (hss : Sees (m.sessions hash) old row) (now : ℤ) :
    Hand.Steady { m with sessions := update m.sessions hash (some (old, some (row.revoke now))) } := by
  intro hash' p hp
  rcases update_cases hp with ⟨rfl, hq⟩ | ⟨-, hq⟩
  · cases hq
    rcases hss with ⟨-, rfl⟩ | hown
    · exact ⟨row, _, rfl, rfl⟩
    obtain ⟨first, last, heq, hidl⟩ := h _ _ hown
    obtain ⟨rfl, hla⟩ := Prod.mk.inj heq
    cases hla
    exact ⟨first, _, rfl, hidl⟩
  · exact h hash' p hq

def Hand.Revokes (m : Hand) (hash : ℕ) : Prop :=
  ∃ before row, m.sessions hash = some (before, some row) ∧ row.revokedAt.isSome

theorem Hand.Revokes.update {hash' : ℕ} (h : m.Revokes hash) (now : ℤ) :
    Hand.Revokes { m with sessions := update m.sessions hash' (some (old, some (row.revoke now))) } hash := by
  by_cases heq : hash = hash'
  · subst heq
    exact ⟨old, row.revoke now, update_self .., rfl⟩
  · obtain ⟨before, row', hrow, hrvk⟩ := h
    exact ⟨before, row', (update_of_ne heq ..).trans hrow, hrvk⟩

variable {l : Hand} {t : ℕ} {Q : Unit → Hand → Prop}

/-- **An update of sessions** revokes all that are known and meet its condition. -/
theorem updateSessions_meets {cond : ℕ → Session → Bool} (hl : l.Steady)
    (hQ : ∀ sessions, Hand.Steady { l with sessions := sessions } → (∀ u hash, l.known u hash →
      (∀ row, row.userId = u → cond hash row = true) → Hand.Revokes { l with sessions := sessions } hash) →
      Q () { l with sessions := sessions }) :
    Runs t Q (updateSessions t cond (Session.revoke now)) l := by
  -- the sessions of the snapshot that still wait
  let J : List ℕ → Unit → Hand → Prop := fun rest _ m => ∃ sessions, m = { l with sessions := sessions } ∧ m.Steady ∧
    ∀ u hash, l.known u hash → (∀ row, row.userId = u → cond hash row = true) → hash ∈ rest ∨ m.Revokes hash
  refine .bind (.query (fun _ => .idle) fun s hs hhn => ?_)
  have hsta : J (s.hashes.filter fun hash => ((s.sessions hash).view t).any (cond hash)) () l := by
    refine ⟨l.sessions, rfl, hl, fun u hash hkn hcd => .inl ?_⟩
    rw [← hhn] at hkn
    obtain ⟨-, row, hrow, hu⟩ := hkn
    obtain ⟨ver, hver, hevo⟩ := hs.exists_session_view (t := t) hrow
    refine List.mem_filter.mpr ⟨hs.hashes hash (.inl (by rw [hrow]; rfl)), ?_⟩
    rw [hver]
    exact hcd ver (hevo.userId.trans hu)
  refine (Txn.Meets.foldlM (J := J) (fun hash rest _ m hm => ?_) hsta).imp fun _ m hm => ?_
  · obtain ⟨sessions, rfl, hst, hrev⟩ := hm
    refine .bind (updateSession_meets (Session.evolves_revoke now) (fun _ h => h) (fun s hs hhn hno => ?_)
      fun old row hss _ => ?_)
    · refine ⟨sessions, rfl, hst, fun u hash' hkn hcd => ?_⟩
      rcases hrev u hash' hkn hcd with hmem | hdn
      · rcases List.mem_cons.mp hmem with rfl | hmem
        · -- a session that is known is there to be revoked
          have hkn' : (s.hand t).known u hash' := by rw [hhn]; exact hkn
          obtain ⟨-, row, hrow, hu⟩ := hkn'
          obtain ⟨ver, hver, hevo⟩ := hs.exists_session_view (t := t) hrow
          have hfa := hno ver hver
          rw [hcd ver (hevo.userId.trans hu)] at hfa
          cases hfa
        · exact .inl hmem
      · exact .inr hdn
    · refine ⟨_, rfl, hst.revoke hss now, fun u hash' hkn hcd => ?_⟩
      rcases hrev u hash' hkn hcd with hmem | hdn
      · rcases List.mem_cons.mp hmem with rfl | hmem
        · exact .inr ⟨old, row.revoke now, update_self .., rfl⟩
        · exact .inl hmem
      · exact .inr (hdn.update now)
  · obtain ⟨sessions, rfl, hst, hrev⟩ := hm
    exact hQ sessions hst fun u hash hkn hcd =>
      (hrev u hash hkn hcd).resolve_left List.not_mem_nil

/-! ### Programs that end sessions -/

/-- A new generation of a user, with every session of theirs revoked. -/
structure Hand.Ended (m : Hand) (u : ℕ) : Prop where
  users : ∃ old new, m.users = update (fun _ => none) u (some (some old, some new)) ∧
    new.authGeneration = old.authGeneration + 1
  steady : m.Steady
  revoked : ∀ hash, m.known u hash → m.Revokes hash

theorem Hand.Steady.obeys (h : m.Steady) (htch : call.touches a = none)
    (hend : ∀ u, call.ends a = some u → ∃ old new, m.users u = some (some old, some new) ∧
      new.authGeneration = old.authGeneration + 1)
    (hpwd : ∀ u old new, m.credentials u = some (old, new) →
      ∃ phc c, call.sets a = some (u, phc) ∧ new = some c ∧ c.passwordPhc = phc)
    (hset : ∀ u phc, call.sets a = some (u, phc) → (m.credentials u).isSome) : Obeys call a m where
  idle hash old new hrow hne := by
    obtain ⟨old', new', heq, hidl⟩ := h hash _ hrow
    obtain ⟨hold, hnew⟩ := Prod.mk.inj heq
    rw [some.inj hold, some.inj hnew] at hne
    exact absurd hidl hne
  touched hash now lifetime ht := by
    rw [htch] at ht
    cases ht
  made hash row hrow := by
    obtain ⟨old, new, heq, -⟩ := h hash _ hrow
    cases (Prod.mk.inj heq).1
  ended := hend
  password := hpwd
  set := hset

theorem Hand.Steady.fits (h : m.Steady)
    (hrsd : ∀ u old new, m.users u = some (some old, some new) → new.authGeneration ≠ old.authGeneration →
      ∀ hash, m.known u hash → m.Revokes hash) :
    m.Fits where
  inserted hash row hrow := by
    obtain ⟨old, new, heq, -⟩ := h hash _ hrow
    cases (Prod.mk.inj heq).1
  raised := hrsd

theorem Hand.Ended.closes (h : m.Ended u) (hen : call.ends a = some u)
    (hpwd : ∀ u old new, m.credentials u = some (old, new) →
      ∃ phc c, call.sets a = some (u, phc) ∧ new = some c ∧ c.passwordPhc = phc)
    (hset : ∀ u phc, call.sets a = some (u, phc) → (m.credentials u).isSome) : Closes call (.commit a) m := by
  obtain ⟨old, new, hux, hgen⟩ := h.users
  refine ⟨h.steady.fits fun u' old' new' hu' _ hash hkn => ?_, h.steady.obeys
    (Call.touches_of_ends hen) (fun u' hu' => ?_) hpwd hset⟩
  · rw [hux] at hu'
    obtain ⟨rfl, -⟩ := single_cases hu'
    exact h.revoked hash hkn
  · rw [hen] at hu'
    cases hu'
    exact ⟨old, new, by rw [hux, update_self], hgen⟩

/-- **Once the generation is raised**, the sessions are revoked. -/
theorem revokeSessions_meets {α : Type} {e : α} {Q : α → Hand → Prop} (hst : l.Steady)
    (hux : ∃ old new, l.users = update (fun _ => none) u (some (some old, some new)) ∧
      new.authGeneration = old.authGeneration + 1)
    (hQ : ∀ m : Hand, m.Ended u → m.credentials = l.credentials → Q e m) :
    Runs t Q (do revokeSessions t u now; pure e : Txn Db α) l := by
  refine .bind (updateSessions_meets hst fun sessions hst hrev => ?_)
  exact hQ { l with sessions := sessions }
    ⟨hux, hst, fun hash hkn => hrev u hash hkn fun row hrow => decide_eq_true hrow⟩ rfl

variable {phc : Phc}

section

omit [Hashing] in
theorem User.generation_next (user : User) : user.authGeneration ≤ user.next.authGeneration := Nat.le_succ _

theorem revokeUserSessions_meets :
    Runs t (fun e => Closes (.revokeUserSessions u now) (e.map .updated)) (revokeUserSessions t u now) .nothing := by
  refine .bind (updateUser_meets User.generation_next (fun _ _ _ _ => trivial) fun old row K hss _ => ?_)
  obtain ⟨-, hold⟩ | hown := hss
  · cases hold
    refine revokeSessions_meets Hand.steady_nothing ⟨old, old.next, rfl, rfl⟩ fun m hm hcr => ?_
    refine hm.closes rfl (fun u old new h => ?_) (nofun)
    rw [hcr] at h
    cases h
  · cases hown

theorem disableLocalUser_meets {lastAdministrator : Bool} :
    Runs t (fun e => Closes (.disableLocalUser u lastAdministrator now) (e.map .disable))
      (disableLocalUser t u lastAdministrator now) .nothing := by
  rw [disableLocalUser]
  split_ifs
  · trivial
  refine .bind (updateUser_meets User.generation_next (fun _ _ _ _ => trivial) fun old row K hss _ => ?_)
  obtain ⟨-, hold⟩ | hown := hss
  · cases hold
    refine revokeSessions_meets Hand.steady_nothing ⟨old, { old.next with enabled := false }, rfl, rfl⟩
      fun m hm hcr => ?_
    refine hm.closes rfl (fun u old new h => ?_) (nofun)
    rw [hcr] at h
    cases h
  · cases hown

theorem exists_user_of_credential {s : Db} (hs : Valid s) {p : Option Credential × Option Credential}
    (h : (s.hand t).credentials u = some p) : ∃ row, (s.users u).view t = some row := by
  have hown := own_iff.mp h
  obtain ⟨-, new, -, hnew, -⟩ := hs.exists_view (t := t) (hs.owner u (hs.credential u t p.2 hown.2).1)
  exact ⟨new, hnew⟩

/-- The rest of a password change by somebody else: a new generation and the end of all sessions. -/
theorem raise_meets (hf : ∀ row, (f row).authGeneration = row.authGeneration + 1) {c : Credential}
    {first : Option Credential} (hphc : c.passwordPhc = phc) (hen : call.ends (.updated true) = some u)
    (hsets : call.sets (.updated true) = some (u, phc)) (hux : l.users = fun _ => none) (hst : l.Steady)
    (hcr : l.credentials = update (fun _ => none) u (some (first, some c))) :
    Runs t (fun e => Closes call (e.map .updated)) (do
        let _ ← updateUser t u (fun _ => true) f
        revokeSessions t u now
        pure (.commit true) : Txn Db (End Bool)) l := by
  refine .bind (updateUser_meets (fun row => (hf row).symm ▸ Nat.le_succ _) (fun s hs hhn hno => ?_)
    fun old row K hss _ => ?_)
  · have hown : (s.hand t).credentials u = some (first, some c) := by
      rw [hhn, hcr, update_self]
    obtain ⟨row, hrow⟩ := exists_user_of_credential hs hown
    cases hno row hrow
  rw [hux] at hss
  obtain ⟨-, hold⟩ | hown := hss
  · cases hold
    refine revokeSessions_meets (by exact hst) ⟨old, f old, by rw [hux], hf old⟩ fun m hm hm' => ?_
    refine hm.closes hen (fun u' old' new' h => ?_) fun u' phc' h => ?_
    · rw [hm', hcr] at h
      obtain ⟨rfl, hp⟩ := single_cases h
      exact ⟨phc, c, hsets, (Prod.mk.inj hp).2, hphc⟩
    · rw [hsets] at h
      cases h
      rw [hm', hcr, update_self]
      rfl
  · cases hown

theorem replacePassword_meets {mustChange : Bool} :
    Runs t (fun e => Closes (.replacePassword u phc mustChange now) (e.map .updated))
      (replacePassword t u phc mustChange now) .nothing :=
  .bind (updateCredential_meets (fun _ _ _ _ => trivial) fun _ _ _ _ _ _ _ =>
    raise_meets (fun _ => rfl) rfl rfl rfl rfl Hand.steady_nothing rfl)

theorem resetPassword_meets :
    Runs t (fun e => Closes (.resetPassword u phc now) (e.map .updated)) (resetPassword t u phc now) .nothing :=
  .bind (updateCredential_meets (fun _ _ _ _ => trivial) fun _ _ _ _ _ _ _ =>
    raise_meets (fun _ => rfl) rfl rfl rfl rfl Hand.steady_nothing rfl)

end

/-! ### Programs that keep the generation -/

section

theorem enableLocalUser_meets :
    Runs t (fun e => Closes (.enableLocalUser u) (e.map .updated)) (enableLocalUser t u) .nothing := by
  refine .bind (updateUser_meets (fun _ => le_rfl) (fun _ _ _ _ => trivial) fun old row K hss _ => ?_)
  obtain ⟨-, hold⟩ | hown := hss
  · cases hold
    refine ⟨Hand.Steady.fits (by exact Hand.steady_nothing) fun u' old' new' hu' hne => ?_, Hand.Steady.obeys
      (by exact Hand.steady_nothing) rfl (nofun) (nofun) nofun⟩
    obtain ⟨hold, hnew⟩ := Prod.mk.inj (single_cases hu').2
    rw [some.inj hold, some.inj hnew] at hne
    exact absurd rfl hne
  · cases hown

theorem revokeSession_meets :
    Runs t (fun e => Closes (.revokeSession hash now) (e.map .updated)) (revokeSession t hash now) .nothing := by
  refine .bind (updateSession_meets (Session.evolves_revoke now) (fun _ h => h) (fun _ _ _ _ => trivial)
    fun old row hss _ => ?_)
  have hst := Hand.steady_nothing.revoke hss now
  exact ⟨hst.fits (nofun), hst.obeys rfl (nofun) (nofun) nofun⟩

structure Hand.Bare (m : Hand) : Prop where
  users : m.users = fun _ => none
  credentials : m.credentials = fun _ => none
  sessions : m.sessions = fun _ => none

theorem Hand.bare_nothing : Hand.nothing.Bare := ⟨rfl, rfl, rfl⟩

theorem Hand.Bare.steady (h : m.Bare) : m.Steady := fun hash p hp => by
  rw [h.sessions] at hp
  cases hp

theorem Hand.Bare.closes (h : m.Bare) (hen : call.ends a = none) (hsets : call.sets a = none)
    (htch : call.touches a = none) : Closes call (.commit a) m := by
  refine ⟨h.steady.fits fun u old new hu => ?_, h.steady.obeys htch (fun u hu => ?_)
    (fun u old new hu => ?_) fun u phc hu => ?_⟩
  · rw [h.users] at hu
    cases hu
  · rw [hen] at hu
    cases hu
  · rw [h.credentials] at hu
    cases hu
  · rw [hsets] at hu
    cases hu

variable {Q : Bool → Hand → Prop}

theorem joinSession_meets (hno : Q false .nothing)
    (hyes : ∀ (m : Hand) (user : User), m.Bare → m.joined = some (.session hash user) → Q true m) :
    Runs t Q (joinSession t hash now) .nothing := by
  refine .stmt fun s b s' hs hhn hact => ?_
  have hown : ∀ h, (s.sessions h).own t = none := fun h => congrFun (congrArg Hand.sessions hhn) h
  have hownUser : ∀ u, (s.users u).own t = none := fun u => congrFun (congrArg Hand.users hhn) u
  split at hact
  · cases hact
    exact ⟨.idle, hhn ▸ hno⟩
  rename_i row hrow
  split at hact
  · cases hact
    exact ⟨.idle, hhn ▸ hno⟩
  rename_i user hus
  split_ifs at hact with hlv
  · cases hact
    rw [view_of_none (hown hash)] at hrow
    rw [view_of_none (hownUser _)] at hus
    rw [Session.live, Bool.and_eq_true] at hlv
    refine ⟨.joinSession hrow (by rw [Db.generation, hus]; rfl) (of_decide_eq_true hlv.2), hyes _ user ?_ ?_⟩
    · exact ⟨funext hownUser, congrArg Hand.credentials hhn, funext hown⟩
    · exact update_self ..
  · cases hact
    exact ⟨.idle, hhn ▸ hno⟩

theorem touchRow_meets (hl : l.Bare) (hno : Q false l)
    (hyes : ∀ row, row.unexpired now = true → Q true { l with sessions := update (fun _ => none) hash (some
      (some row, some (row.touch now lifetime))) }) :
    Runs t Q (touchRow t hash now lifetime) l := by
  refine .stmt fun s b s' hs hhn hact => ?_
  split at hact
  · rename_i user row _ hvw
    split_ifs at hact with hlv
    · obtain ⟨hfr, heq⟩ := map_put_iff.mp hact
      cases heq
      refine ⟨.session hfr hvw (Session.evolves_touch now lifetime row) (Int.min_le_left _ _), ?_⟩
      have hnn : (s.sessions hash).own t = none :=
        (congrFun (congrArg Hand.sessions hhn) hash).trans (congrFun hl.sessions hash)
      rw [view_of_none hnn] at hvw
      rw [hand_writeSession hash _ s.hashes, hhn, hvw, hl.sessions]
      rw [Session.live, Bool.and_eq_true, Bool.and_eq_true] at hlv
      exact hyes row hlv.1.1
    · cases hact
      exact ⟨.idle, hhn ▸ hno⟩
  · cases hact
    exact ⟨.idle, hhn ▸ hno⟩

theorem touchSession_meets :
    Runs t (fun e => Closes (.touchSession hash now lifetime) (e.map .updated))
      (touchSession t hash now lifetime) .nothing := by
  refine .bind (joinSession_meets (Hand.bare_nothing.closes rfl rfl rfl) fun m user hm hjnd => ?_)
  refine .bind (touchRow_meets hm (hm.closes rfl rfl rfl) fun row hrow => ?_)
  refine ⟨⟨fun h new hp => ?_, fun u old new hu => ?_⟩, ⟨fun h old new hp _ => ?_, fun h w l ht => ?_,
    fun h new hp => ?_, fun u hu => ?_, fun u old new hu => ?_, fun u phc hu => ?_⟩⟩
  · cases (Prod.mk.inj (single_cases hp).2).1
  · rw [hm.users] at hu
    cases hu
  · obtain ⟨rfl, -⟩ := single_cases hp
    exact ⟨now, lifetime, rfl⟩
  · obtain ⟨rfl, hw⟩ := Prod.mk.inj (some.inj ht)
    cases hw
    refine ⟨user, row, hjnd, ?_, hrow⟩
    dsimp only
    rw [update_self]
  · cases (Prod.mk.inj (single_cases hp).2).1
  · cases hu
  · rw [hm.credentials] at hu
    cases hu
  · cases hu

def Level (users : ℕ → Option (Option User × Option User)) : Prop :=
  ∀ u old new, users u = some (some old, some new) → new.authGeneration = old.authGeneration

omit [Hashing] in
theorem Level.update {users : ℕ → Option (Option User × Option User)} (h : Level users) {old row new : User}
    (hss : Sees (users u) (some old) row) (hnew : new.authGeneration = row.authGeneration) :
    Level (update users u (some (some old, some new))) := by
  intro u' old' new' hu'
  rcases update_cases hu' with ⟨rfl, hp⟩ | ⟨-, hp⟩
  · obtain ⟨hold, hnew'⟩ := Prod.mk.inj (some.inj hp)
    rw [← some.inj hold, ← some.inj hnew', hnew]
    rcases hss with ⟨-, hsm⟩ | hown
    · rw [some.inj hsm]
    · exact h _ old row hown
  · exact h u' old' new' hp

theorem changeOwnPassword_meets {verified : Phc} :
    Runs t (fun e => Closes (.changeOwnPassword u hash verified phc now) (e.map .change))
      (changeOwnPassword t u hash verified phc now) .nothing := by
  refine .bind (.query (fun _ => .idle) fun s hs hhn => ?_)
  split_ifs
  · trivial
  refine .bind (.stmt fun s b s' hs hhn hact => ?_)
  obtain ⟨⟨stored, credentials⟩, hlk, heq⟩ := map_eq_some_iff.mp hact
  cases heq
  obtain ⟨hvw, ⟨rfl, rfl⟩ | ⟨hsto, hfr, rfl⟩⟩ := lock_eq_some_iff.mp hlk
  · exact ⟨.idle, trivial⟩
  obtain ⟨row, rfl⟩ := ne_none_iff_exists'.mp hsto
  refine ⟨.credential row hfr hvw, ?_⟩
  rw [hand_writeCredential, hhn]
  dsimp only
  split_ifs
  · trivial
  refine .bind (.query (fun _ => .idle) fun s₁ hs₁ hhn₁ => ?_)
  split_ifs
  · trivial
  refine .bind (updateCredential_meets (fun s₂ hs₂ hhn₂ hnn => ?_) fun s₂ old row₂ hs₂ hhn₂ hvw₂ hss₂ => ?_)
  · have hown : (s₂.credentials u).own t = some _ :=
      (congrFun (congrArg Hand.credentials hhn₂) u).trans (update_self ..)
    rw [view_of_own hown] at hnn
    cases hnn
  rw [update_idem]
  refine .bind (updateUser_meets (fun _ => le_rfl) (fun s₃ hs₃ hhn₃ hno => ?_) fun old₃ row₃ K hss₃ _ => ?_)
  · have hown : (s₃.hand t).credentials u = some _ :=
      (congrFun (congrArg Hand.credentials hhn₃) u).trans (update_self ..)
    obtain ⟨user, hus⟩ := exists_user_of_credential hs₃ hown
    cases hno user hus
  have hemp : Level Hand.nothing.users := nofun
  have hlev := hemp.update (u := u) hss₃
    (show User.authGeneration { row₃ with passwordMustChange := false } = row₃.authGeneration from rfl)
  refine .bind (updateSessions_meets (by exact Hand.steady_nothing) fun sessions hst _ => ?_)
  refine ⟨hst.fits fun u' old' new' hu' hne => ?_, hst.obeys rfl (nofun) (fun u' old' new' h => ?_)
    fun u' phc' h => ?_⟩
  · exact absurd (hlev u' old' new' hu') hne
  · obtain ⟨rfl, hp⟩ := single_cases h
    exact ⟨phc, _, rfl, (Prod.mk.inj hp).2, rfl⟩
  cases h
  dsimp only
  rw [update_self]
  rfl

end

/-! ### Making a session -/

section

variable {n : NewSession}

/-- The rows of sessions in hand: the new one, and those that are revoked. -/
def NewSession.Makes (n : NewSession) (sessions : ℕ → Option (Option Session × Option Session)) : Prop :=
  ∀ hash p, sessions hash = some p → (hash = n.sessionSha256 ∧ ∃ row, p = (none, some row) ∧ row.userId = n.userId ∧
      row.authGeneration = n.authGeneration) ∨
    ∃ old new, p = (some old, some new) ∧ new.idleExpiresAt = old.idleExpiresAt

omit [Hashing] in
theorem NewSession.Makes.revoke {sessions : ℕ → Option (Option Session × Option Session)} (h : n.Makes sessions)
    (hss : Sees (sessions hash) old row) (now : ℤ) :
    n.Makes (update sessions hash (some (old, some (row.revoke now)))) := by
  intro hash' p hp
  rcases update_cases hp with ⟨rfl, hq⟩ | ⟨-, hq⟩
  · cases hq
    rcases hss with ⟨-, rfl⟩ | hown
    · exact .inr ⟨row, _, rfl, rfl⟩
    rcases h _ _ hown with ⟨hhs, row', heq, hu, hg⟩ | ⟨first, last, heq, hidl⟩
    · obtain ⟨rfl, hrow⟩ := Prod.mk.inj heq
      cases hrow
      exact .inl ⟨hhs, _, rfl, hu, hg⟩
    · obtain ⟨rfl, hla⟩ := Prod.mk.inj heq
      cases hla
      exact .inr ⟨first, _, rfl, hidl⟩
  · exact h hash' p hq

/-- What the maker of a session has in hand when it commits. -/
structure Hand.Made (m : Hand) (n : NewSession) (l : Hand) : Prop where
  users : ∃ old new, m.users = update (fun _ => none) n.userId (some (some old, some new)) ∧
    new.authGeneration = old.authGeneration
  sessions : n.Makes m.sessions
  credentials : m.credentials = fun _ => none
  verified : m.verified = l.verified

theorem Hand.Made.fits (h : m.Made n l) : m.Fits := by
  obtain ⟨old, new, hux, hgen⟩ := h.users
  refine ⟨fun hash row hrow => ?_, fun u old' new' hu hne => ?_⟩
  · rcases h.sessions hash _ hrow with ⟨-, row', heq, hu, -⟩ | ⟨_, _, heq, -⟩
    · obtain rfl := some.inj (Prod.mk.inj heq).2
      rw [hux, hu, update_self]
      exact some_ne_none _
    · cases (Prod.mk.inj heq).1
  · rw [hux] at hu
    obtain ⟨hold, hnew⟩ := Prod.mk.inj (single_cases hu).2
    rw [some.inj hold, some.inj hnew] at hne
    exact absurd hgen hne

theorem Hand.Made.closes (h : m.Made n l) (hen : call.ends a = none) (hsets : call.sets a = none)
    (htch : call.touches a = none) (hmak : call.makes = some n.sessionSha256)
    (hrds : call.reads m.verified = some (n.userId, n.authGeneration)) : Closes call (.commit a) m := by
  refine ⟨h.fits, ⟨fun hash old new hrow hne => ?_, fun hash now lifetime ht => ?_, fun hash row hrow => ?_,
    fun u hu => ?_, fun u old new hu => ?_, fun u phc hu => ?_⟩⟩
  · rcases h.sessions hash _ hrow with ⟨-, row, heq, -⟩ | ⟨old', new', heq, hidl⟩
    · cases (Prod.mk.inj heq).1
    · obtain ⟨hold, hnew⟩ := Prod.mk.inj heq
      rw [some.inj hold, some.inj hnew] at hne
      exact absurd hidl hne
  · rw [htch] at ht
    cases ht
  · rcases h.sessions hash _ hrow with ⟨rfl, row', heq, hu, hg⟩ | ⟨old', new', heq, -⟩
    · obtain rfl := some.inj (Prod.mk.inj heq).2
      exact ⟨hmak, hu ▸ hg ▸ hrds⟩
    · cases (Prod.mk.inj heq).1
  · rw [hen] at hu
    cases hu
  · rw [h.credentials] at hu
    cases hu
  · rw [hsets] at hu
    cases hu

theorem shareUser_meets (hQ : Q () l) : Runs t Q (shareUser t n) l := by
  refine .stmt fun s b s' hs hhn hact => ?_
  split at hact
  · cases hact
    exact ⟨.idle, hhn ▸ hQ⟩
  split_ifs at hact
  · cases hact
    exact ⟨.idle, hhn ▸ hQ⟩
  · cases hact
    exact ⟨.share _, hhn ▸ hQ⟩

theorem insertSession_meets (hl : l.Bare) {Q : Creation → Hand → Prop} (hfld : Q .failed l)
    (hrfd : Q .refused l)
    (hcrd : ∀ user, user.authGeneration = n.authGeneration →
      Q .created { l with sessions := update (fun _ => none) n.sessionSha256 (some (none, some (n.row user))) }) :
    Runs t Q (insertSession t n) l := by
  refine .stmt fun s b s' hs hhn hact => ?_
  split at hact
  · cases hact
    exact ⟨.idle, hhn ▸ hrfd⟩
  rename_i user hus
  split_ifs at hact with hadm hchc
  · cases hact
    exact ⟨.idle, hhn ▸ hrfd⟩
  · cases hact
    exact ⟨.idle, hhn ▸ hfld⟩
  split at hact
  · cases hact
    exact ⟨.idle, hhn ▸ hfld⟩
  rename_i hvw
  obtain ⟨hfr, heq⟩ := map_put_iff.mp hact
  cases heq
  have hnn : (s.users n.userId).own t = none := (congrFun (congrArg Hand.users hhn) _).trans (congrFun hl.users _)
  rw [view_of_none hnn] at hus
  have hfit : s.Fit (n.row user) := by
    refine ⟨?_, user.authGeneration, by rw [show (n.row user).userId = n.userId from rfl, Db.generation, hus]; rfl,
      le_rfl⟩
    simp only [Bool.or_eq_true, decide_eq_true_eq, not_or] at hchc
    exact Int.not_lt.mp hchc.1
  refine ⟨.insert hfr hvw hfit, ?_⟩
  rw [hand_writeSession, hhn, hs.committed_of_session_view_none hvw, hl.sessions]
  refine hcrd user ?_
  simp only [NewSession.admits, Bool.not_eq_true', Bool.not_eq_false, Bool.and_eq_true, decide_eq_true_eq] at hadm
  exact hadm.2

theorem createSession_meets (hl : l.Bare) {Q : End Creation → Hand → Prop} (hfld : Q (.rollback .failed) l)
    (hrfd : Q (.commit .refused) l) (hcrd : ∀ m : Hand, m.Made n l → Q (.commit .created) m) :
    Runs t Q (createSession t n) l := by
  refine .bind (shareUser_meets (.bind (insertSession_meets hl hfld hrfd fun user hgen => ?_)))
  have hmak : n.Makes (update (fun _ => none) n.sessionSha256 (some (none, some (n.row user)))) :=
    fun hash p hp => by
      obtain ⟨rfl, rfl⟩ := single_cases hp
      exact .inl ⟨rfl, _, rfl, rfl, hgen⟩
  refine .bind (updateUser_meets (fun _ => le_rfl) (fun s hs hhn hno => ?_) fun old row K hss _ => ?_)
  · -- the user of the new session is there
    have hown : (s.sessions n.sessionSha256).own t = some (none, some (n.row user)) := by
      rw [show (s.sessions n.sessionSha256).own t = _ from congrFun (congrArg Hand.sessions hhn) _]
      dsimp only
      rw [update_self]
    obtain ⟨new, hnew, ⟨-, g, hg, -⟩, -⟩ := hs.session _ t _ (own_iff.mp hown).2
    cases hnew
    obtain ⟨found, hfnd, -⟩ := map_eq_some_iff.mp hg
    obtain ⟨-, ver, -, hver, -⟩ := hs.exists_view (t := t) (u := n.userId) (by
      rw [show (s.users n.userId).committed = some found from hfnd]; rfl)
    cases hno ver hver
  · rw [show l.users n.userId = none from congrFun hl.users _] at hss
    obtain ⟨-, hold⟩ | hown := hss
    · cases hold
      have hux : ∃ a b, update l.users n.userId
          (some (some old, some { old with lastSignInAt := some n.now })) =
            update (fun _ => none) n.userId (some (some a, some b)) ∧ b.authGeneration = a.authGeneration :=
        ⟨old, { old with lastSignInAt := some n.now }, by rw [hl.users], rfl⟩
      cases hprv : n.previousSessionSha256 with
      | none => exact hcrd _ ⟨hux, hmak, hl.credentials, rfl⟩
      | some previous =>
        refine .bind (updateSession_meets (Session.evolves_revoke n.now) (fun _ h => h) (fun _ _ _ _ => ?_)
          fun first ver hss _ => ?_)
        · exact hcrd _ ⟨hux, hmak, hl.credentials, rfl⟩
        · exact hcrd _ ⟨hux, hmak.revoke hss n.now, hl.credentials, rfl⟩
    · cases hown

theorem createSession_closes :
    Runs t (fun e => Closes (.createSession n) (e.map .creation)) (createSession t n) .nothing :=
  createSession_meets Hand.bare_nothing trivial (Hand.bare_nothing.closes rfl rfl rfl) fun _ hm =>
    hm.closes rfl rfl rfl rfl rfl

end

/-! ### Signing in -/

section

variable {v : Verified}

theorem verifyCredential_meets {pw : String} {Q : Option Verified → Hand → Prop} (hno : Q none .nothing)
    (hyes : ∀ (v : Verified) (m : Hand), m.Bare → m.verified = some v → v.userId = u →
      verifies v.phc pw = true → Q (some v) m) :
    Runs t Q (verifyCredential t u pw) .nothing := by
  refine .stmt fun s b s' hs hhn hact => ?_
  split at hact
  · rename_i user credential hus hcred
    split_ifs at hact with hvrf
    · cases hact
      rw [view_of_none (congrFun (congrArg Hand.users hhn) u)] at hus
      rw [view_of_none (congrFun (congrArg Hand.credentials hhn) u)] at hcred
      rw [Bool.and_eq_true] at hvrf
      refine ⟨.verify (by rw [Db.generation, hus]; rfl) hcred rfl (congrArg Hand.joined hhn), ?_⟩
      exact hyes _ _ ⟨congrArg Hand.users hhn, congrArg Hand.credentials hhn, congrArg Hand.sessions hhn⟩
        (update_self ..) rfl hvrf.2
    · cases hact
      exact ⟨.idle, hhn ▸ hno⟩
  · cases hact
    exact ⟨.idle, hhn ▸ hno⟩

theorem joinCredential_meets (hl : l.Bare) (hvfd : l.verified = some v) {Q : Bool → Hand → Prop} (hno : Q false l)
    (hyes : ∀ user, Q true { l with joined := some (.credential v.userId user) }) :
    Runs t Q (joinCredential t v.userId v.authGeneration) l := by
  refine .stmt fun s b s' hs hhn hact => ?_
  split at hact
  · rename_i user credential hus hcred
    split_ifs at hact with hcur
    · cases hact
      have hown : (s.users v.userId).own t = none :=
        (congrFun (congrArg Hand.users hhn) _).trans (congrFun hl.users _)
      rw [view_of_none hown] at hus
      rw [Bool.and_eq_true] at hcur
      refine ⟨.joinCredential ((congrArg Hand.verified hhn).trans hvfd) (by rw [Db.generation, hus]; rfl)
        (of_decide_eq_true hcur.2), ?_⟩
      have hhn' : Db.hand t { s with joined := update s.joined t (some (.credential v.userId user)) } =
          { s.hand t with joined := some (.credential v.userId user) } :=
        Hand.ext rfl rfl rfl rfl (update_self ..) rfl
      rw [hhn', hhn]
      exact hyes user
    · cases hact
      exact ⟨.idle, hhn ▸ hno⟩
  · cases hact
    exact ⟨.idle, hhn ▸ hno⟩

theorem rehashPassword_meets (hl : l.Bare) (hvfd : l.verified = some v)
    (hphc : ∀ q, verifies phc q = true → verifies v.phc q = true)
    {Q : Bool → Hand → Prop} (hno : ∀ m, Q false m) (hyes : ∀ m : Hand, m.Bare → m.verified = some v → Q true m) :
    Runs t Q (rehashPassword t v phc now) l := by
  refine .bind (joinCredential_meets hl hvfd (hno _) fun user => ?_)
  refine .bind (updateCredential_meets (fun _ _ _ _ => hno _) fun s old row hs hhn hvw hss => ?_)
  refine .bind (.stmt fun s₁ b s₁' hs₁ hhn₁ hact => ?_)
  cases hact
  have hvfd₁ : s₁.verified t = some v := (congrArg Hand.verified hhn₁).trans hvfd
  refine ⟨.commit ((congrArg Hand.users hhn₁).trans hl.users) ((congrArg Hand.sessions hhn₁).trans hl.sessions)
    fun u p hp => ?_, ?_⟩
  · rw [hhn₁] at hp
    rw [hl.credentials] at hp
    obtain ⟨rfl, rfl⟩ := single_cases hp
    exact ⟨_, v, user, rfl, hvfd₁, rfl, hphc, congrArg Hand.joined hhn₁⟩
  · rw [hand_commit_kept]
    exact hyes _ ⟨rfl, rfl, rfl⟩ hvfd₁

theorem login_meets {r : LoginRequest} : Runs t (fun e => Closes (.login r) (e.map .login)) (login t r) .nothing := by
  have hcre : ∀ {v : Verified} {l : Hand}, l.Bare → l.verified = some v →
      Runs t (fun e => Closes (.login r) ((e.map Creation.login).map .login))
        (createSession t (r.session v)) l := fun {v l} hl hvfd =>
    createSession_meets hl trivial (hl.closes rfl rfl rfl) fun m hm => hm.closes rfl rfl rfl rfl
      (by rw [hm.verified, hvfd]; rfl)
  rw [login]
  split_ifs
  · trivial
  refine .bind (verifyCredential_meets trivial fun v l hl hvfd hu hpwd => ?_)
  dsimp only
  split_ifs
  · have hphc : ∀ q, verifies (hashPassword r.password r.salt) q = true → verifies v.phc q = true := fun q hq => by
      rw [← (verifies_hash ..).mp hq]
      exact hpwd
    refine .bind (rehashPassword_meets hl hvfd hphc (fun _ => trivial) fun m hm hvfd => ?_)
    exact .bind (hcre hm hvfd)
  · exact .bind (hcre hl hvfd)

end

/-! ### The system -/

theorem system_safe : system.Safe Valid Db.hand .nothing Acts fun _ => Closes where
  start t call := by
    cases call with
    | createSession n => exact .bind createSession_closes
    | touchSession hash now lifetime => exact .bind touchSession_meets
    | revokeSession hash now => exact .bind revokeSession_meets
    | revokeUserSessions u now => exact .bind revokeUserSessions_meets
    | replacePassword u phc mustChange now => exact .bind replacePassword_meets
    | resetPassword u phc now => exact .bind resetPassword_meets
    | changeOwnPassword u hash verified phc now => exact .bind changeOwnPassword_meets
    | disableLocalUser u lastAdministrator now => exact .bind disableLocalUser_meets
    | enableLocalUser u => exact .bind enableLocalUser_meets
    | login r => exact .bind login_meets
  keeps t s s' hs hac := hs.acts hac
  others t r s s' hr hs hac := hs.hand_acts hac hr
  close t call e s hs hcls := by
    cases e with
    | commit a =>
      exact ⟨(hs.commit hcls.1).leave (update_self ..), fun r hr =>
        (hand_leave hr).trans (hs.hand_commit hcls.1 hr), hand_commit_self⟩
    | rollback a =>
      exact ⟨hs.abort.leave (update_self ..), fun r hr => (hand_leave hr).trans (hand_abort hr), hand_abort_self⟩
  abort t s hs :=
    ⟨hs.abort.leave (update_self ..), fun r hr => (hand_leave hr).trans (hand_abort hr), hand_abort_self⟩
  effect op := op.elim

end OpenVibes.Store.ConsoleAuth
