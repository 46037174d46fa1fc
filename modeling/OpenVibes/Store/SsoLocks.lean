import OpenVibes.Store.ConsoleSso

/-!
# What the programs on people and roles hold

* `Acts` — what a statement does, once and for all.
* `Valid` — no two subjects lead to the same user, who has a subject's row in hand has the rows of its users too,
  and who has counted Administrators has the lock.
* `Hand` — what a program can rely on while others run.
-/

namespace OpenVibes.Store.ConsoleSso

open Theory Function Cells Cell

/-! ### What is in hand -/

@[ext]
structure Hand where
  lock : Option (Unit × Unit)
  users : ℕ → Option (Option User × Option User)
  links : Subject → Option (Option ℕ × Option ℕ)
  bindings : BindingKey → Option (Option Binding × Option Binding)
  seen : Assertion → Option (Option ℤ × Option ℤ)
  known : ℕ → Subject → Prop
  counted : Option Counted

def Db.hand (t : ℕ) (s : Db) : Hand where
  lock := s.lock.own t
  users := s.users.hand t
  links := s.links.hand t
  bindings := s.bindings.hand t
  seen := s.seen.hand t
  known u who := (s.users u).holds t = true ∧ (s.links who).Has (some u)
  counted := s.counted t

def Hand.nothing : Hand := ⟨none, fun _ => none, fun _ => none, fun _ => none, fun _ => none, fun _ _ => False, none⟩

/-- What is in hand of users and of bindings is this person's. -/
structure Hand.Of (m : Hand) (u : ℕ) : Prop where
  users : ∀ v, m.users v ≠ none → v = u
  bindings : ∀ v roleId, m.bindings ⟨.user v, roleId⟩ ≠ none → v = u

/-! ### The invariant -/

def Db.Administrator (s : Db) (u : ℕ) : Prop :=
  (s.users u).committed.any User.enabled = true ∧ (s.bindings ⟨.user u, "admin"⟩).committed.isSome = true

def Db.Counts (s : Db) (t : ℕ) : Counted → Prop
  | .administrators u => s.lock.holds t = true ∧ (¬s.Administrator u ∨ ∃ u', u' ≠ u ∧ s.Administrator u')
  | .roles u => ∃ k : BindingKey, k.principal = .user u ∧ ((s.bindings k).view t).isSome = true

structure Valid (s : Db) : Prop where
  users : ∀ u, (s.users u).committed.isSome ∨ (s.users u).held.isSome → u < s.nextId
  ids : ∀ who u, (s.links who).Has (some u) → u < s.nextId
  one : ∀ who who' u, (s.links who).Has (some u) → (s.links who').Has (some u) → who' = who
  links : ∀ who t v, (s.links who).held = some (t, v) → ∀ u, (s.links who).committed = some u ∨ v = some u →
    (s.users u).holds t = true
  counted : ∀ t u, s.counted t = some (.administrators u) → s.lock.holds t = true

/-- What a statement does: it writes rows that are free, of users and bindings those of one person. -/
inductive Acts (t : ℕ) (s : Db) : Db → Prop
  | idle : Acts t s s
  | lock (hfr : s.lock.free t = true) : Acts t s { s with lock := s.lock.write t () }
  | user {u : ℕ} (new : Option User) (ids : List ℕ) {next : ℕ} (hfr : (s.users u).free t = true)
    (hnx : s.nextId ≤ next) (hu : u < next) (hof : (s.hand t).Of u) :
    Acts t s { s with users := s.users.write t u new, userIds := ids, nextId := next }
  | link {who : Subject} {new : Option ℕ} (subjects : List Subject) (hfr : (s.links who).free t = true)
    (howner : ∀ u, (s.links who).committed = some u ∨ new = some u → (s.users u).holds t = true)
    (hone : ∀ u, new = some u → u < s.nextId ∧ ∀ who', (s.links who').Has (some u) → who' = who) :
    Acts t s { s with links := s.links.write t who new, subjects := subjects }
  /-- It writes a binding; not after it has counted roles. -/
  | binding {k : BindingKey} (new : Option Binding) (keys : List BindingKey) {next : ℕ}
    (hfr : (s.bindings k).free t = true) (hnx : s.nextId ≤ next) (hcnt : ∀ u, s.counted t ≠ some (.roles u))
    (hof : ∀ u, k.principal = .user u → (s.hand t).Of u) :
    Acts t s { s with bindings := s.bindings.write t k new, bindingKeys := keys, nextId := next }
  | seen {a : Assertion} (expiresAt : ℤ) (hfr : (s.seen a).free t = true) (hvw : (s.seen a).view t = none) :
    Acts t s { s with seen := s.seen.write t a (some expiresAt) }
  | count (c : Counted) (hcts : s.Counts t c) :
    Acts t s { s with counted := update s.counted t (some c) }
  | forgetRequests (now : ℤ) :
    Acts t s { s with requests := fun k => (s.requests k).filter fun r => !(r.expiresAt < now) }
  | forgetSeen (now : ℤ) :
    Acts t s { s with
      seen := fun k =>
        if (s.seen k).held.isNone && (s.seen k).committed.any fun expiresAt => expiresAt < now then .settled none
        else s.seen k
      log := s.log ++ [.forgot now] }
  | start (n : NewRequest) (relays : List ℕ) (hnn : s.requests n.relaySha256 = none) :
    Acts t s { s with
      requests := update s.requests n.relaySha256 (some n.row)
      relays := relays
      log := s.log ++ [.started n.relaySha256 n.requestId n.browserSha256 n.expiresAt] }
  | take {relay : ℕ} {r : Request} (browser : ℕ) (now : ℤ) (hrow : s.requests relay = some r)
    (htakeable : r.takeable browser now = true) :
    Acts t s { s with
      requests := update s.requests relay (some { r with consumedAt := some now })
      log := s.log ++ [.taken relay r.requestId browser now] }
  | commit : Acts t s (s.commit t)
  | abort : Acts t s (s.abort t)

/-! ### The invariant is kept -/

variable {u : ℕ} {who who' : Subject} {new : Option ℕ}

section

variable {s s' : Db} {t : ℕ}

theorem Valid.lt_of_has (hs : Valid s) {user : User} (h : (s.users u).Has (some user)) : u < s.nextId := by
  rcases h with h | ⟨r, h⟩
  · exact hs.users u (.inl (by rw [h]; rfl))
  · exact hs.users u (.inr (by rw [h]; rfl))

/-- A transaction ends. -/
structure Db.Ends (t : ℕ) (s s' : Db) : Prop where
  lock : s.lock.Ends t s'.lock
  users : ∀ u, (s.users u).Ends t (s'.users u)
  links : ∀ who, (s.links who).Ends t (s'.links who)
  bindings : ∀ k, (s.bindings k).Ends t (s'.bindings k)
  seen : ∀ a, (s.seen a).Ends t (s'.seen a)
  counted : s'.counted = update s.counted t none
  nextId : s'.nextId = s.nextId

theorem ends_commit (t : ℕ) (s : Db) : s.Ends t (s.commit t) :=
  ⟨Cell.ends_commit t _, fun _ => Cell.ends_commit t _, fun _ => Cell.ends_commit t _, fun _ => Cell.ends_commit t _,
    fun _ => Cell.ends_commit t _, rfl, rfl⟩

theorem ends_abort (t : ℕ) (s : Db) : s.Ends t (s.abort t) :=
  ⟨Cell.ends_abort t _, fun _ => Cell.ends_abort t _, fun _ => Cell.ends_abort t _, fun _ => Cell.ends_abort t _,
    fun _ => Cell.ends_abort t _, rfl, rfl⟩

theorem Valid.ends (hs : Valid s) (hen : s.Ends t s') : Valid s' := by
  obtain ⟨hlk, hus, hlks, -, -, hcts, hnx⟩ := hen
  refine ⟨fun u h => ?_, fun who u h => ?_, fun who who' u h h' => ?_, fun who r v hhd u hu => ?_, fun r u hcnt => ?_⟩
  · exact hnx ▸ hs.users u ((hus u).there h)
  · exact hnx ▸ hs.ids who u ((hlks who).has h)
  · exact hs.one who who' u ((hlks who).has h) ((hlks who').has h')
  · obtain ⟨hhd, hown⟩ := (hlks who).held hhd
    rw [(hlks who).committed hown] at hu
    exact (holds_congr ((hus u).own (ne_of_held hown hhd))).trans (hs.links who r v hhd u hu)
  · rw [hcts] at hcnt
    rcases update_cases hcnt with ⟨-, h⟩ | ⟨hr, h⟩
    · cases h
    · exact (holds_congr (hlk.own hr)).trans (hs.counted r u h)

theorem has_write (h : (s.links.write t who new who').Has (some u)) :
    (s.links who').Has (some u) ∨ who' = who ∧ new = some u := by
  by_cases hw : who' = who
  · subst hw
    rw [write_self] at h
    rcases h.of_write with h | h
    · exact .inl (.inl h)
    · exact .inr ⟨rfl, h⟩
  · rw [write_of_ne hw] at h
    exact .inl h

theorem Valid.writeLink (hs : Valid s) {subjects : List Subject}
    (howner : ∀ u, (s.links who).committed = some u ∨ new = some u → (s.users u).holds t = true)
    (hone : ∀ u, new = some u → u < s.nextId ∧ ∀ who', (s.links who').Has (some u) → who' = who) :
    Valid { s with links := s.links.write t who new, subjects := subjects } := by
  refine ⟨hs.users, fun who' u h => ?_, fun who₁ who₂ u h₁ h₂ => ?_, fun who' r v hhd u hu => ?_, hs.counted⟩
  · rcases has_write h with h | ⟨-, rfl⟩
    · exact hs.ids who' u h
    · exact (hone u rfl).1
  · rcases has_write h₁ with hold₁ | ⟨heq₁, hnew₁⟩ <;> rcases has_write h₂ with hold₂ | ⟨heq₂, hnew₂⟩
    · exact hs.one who₁ who₂ u hold₁ hold₂
    · exact heq₂.trans ((hone u hnew₂).2 who₁ hold₁).symm
    · exact ((hone u hnew₁).2 who₂ hold₂).trans heq₁.symm
    · exact heq₂.trans heq₁.symm
  · dsimp only at hhd hu
    rw [committed_write] at hu
    rcases held_write hhd with ⟨rfl, rfl, rfl⟩ | ⟨-, hhd⟩
    · exact howner u hu
    · exact hs.links who' r v hhd u hu

theorem Valid.writeUser (hs : Valid s) {next : ℕ} {new : Option User} {ids : List ℕ}
    (hfr : (s.users u).free t = true) (hnx : s.nextId ≤ next) (hu : u < next) :
    Valid { s with users := s.users.write t u new, userIds := ids, nextId := next } := by
  refine ⟨fun u' h => ?_, fun who u' h => (hs.ids who u' h).trans_le hnx, hs.one,
    fun who r v hhd u' hu' => holds_write hfr (hs.links who r v hhd u' hu'), hs.counted⟩
  by_cases heq : u' = u
  · exact heq ▸ hu
  · dsimp only at h
    rw [write_of_ne heq] at h
    exact (hs.users u' h).trans_le hnx

theorem Valid.acts (hs : Valid s) (h : Acts t s s') : Valid s' := by
  cases h with
  | lock hfr =>
    exact ⟨hs.users, hs.ids, hs.one, hs.links, fun r u hcnt => holds_write hfr (hs.counted r u hcnt)⟩
  | user new ids hfr hnx hu => exact hs.writeUser hfr hnx hu
  | link subjects hfr howner hone => exact hs.writeLink howner hone
  | binding new keys hfr hnx =>
    exact ⟨fun u h => (hs.users u h).trans_le hnx, fun who u h => (hs.ids who u h).trans_le hnx, hs.one, hs.links,
      hs.counted⟩
  | count c hcts =>
    refine ⟨hs.users, hs.ids, hs.one, hs.links, fun r u hcnt => ?_⟩
    rcases update_cases hcnt with ⟨rfl, h⟩ | ⟨-, h⟩
    · cases h
      exact hcts.1
    · exact hs.counted r u h
  | commit => exact hs.ends (ends_commit t s)
  | abort => exact hs.ends (ends_abort t s)
  | _ => exact ⟨hs.users, hs.ids, hs.one, hs.links, hs.counted⟩

end

/-! ### What the others have in hand -/

section

variable {s s' : Db} {t r : ℕ}

theorem hand_congr (hlk : s'.lock.own r = s.lock.own r) (hus : s'.users.hand r = s.users.hand r)
    (hlks : s'.links.hand r = s.links.hand r) (hbnd : s'.bindings.hand r = s.bindings.hand r)
    (hse : s'.seen.hand r = s.seen.hand r)
    (hkn : ∀ u who, (s.users u).holds r = true → ((s'.links who).Has (some u) ↔ (s.links who).Has (some u)))
    (hcnt : s'.counted r = s.counted r) : s'.hand r = s.hand r := by
  refine Hand.ext hlk hus hlks hbnd hse ?_ hcnt
  funext u who
  have hhld : (s'.users u).holds r = (s.users u).holds r := holds_congr (congrFun hus u)
  refine propext ?_
  change _ ∧ _ ↔ _ ∧ _
  rw [hhld]
  exact and_congr_right (hkn u who)

section

variable (hs : Valid s) (hr : r ≠ t)

include hs hr

section

variable (hhld : (s.users u).holds r = true)

include hhld

theorem Valid.not_has {p : Option ℕ × Option ℕ}
    (hown : (s.links who).own t = some p) : ¬(s.links who).Has (some u) := by
  obtain ⟨-, hhd⟩ := own_iff.mp hown
  rintro (h | ⟨r', h⟩)
  · exact hr (holds_unique hhld (hs.links who t p.2 hhd u (.inl h)))
  · rw [hhd] at h
    exact hr (holds_unique hhld (hs.links who t p.2 hhd u (.inr (Prod.mk.inj (Option.some.inj h)).2)))

theorem Valid.has_ends (hen : s.Ends t s') : (s'.links who).Has (some u) ↔ (s.links who).Has (some u) := by
  rcases hen.links who with ⟨-, heq⟩ | ⟨p, v, hown, -, -⟩
  · rw [heq]
  · have hnot := hs.not_has hr hhld hown
    exact iff_of_false (fun h => hnot ((hen.links who).has h)) hnot

end

theorem Valid.has_writeLink (hfr : (s.links who).free t = true)
    (howner : ∀ u, (s.links who).committed = some u ∨ new = some u → (s.users u).holds t = true)
    (hhld : (s.users u).holds r = true) :
    (s.links.write t who new who').Has (some u) ↔ (s.links who').Has (some u) := by
  by_cases hw : who' = who
  · subst hw
    have hnn : ¬((s.links who').committed = some u ∨ new = some u) := fun h =>
      hr (holds_unique hhld (howner u h))
    rw [write_self]
    refine iff_of_false (fun h => hnn h.of_write) fun h => ?_
    rcases free_cases hfr with ⟨p, hown⟩ | hhd
    · exact hs.not_has hr hhld hown h
    rcases h with h | ⟨r', h⟩
    · exact hnn (.inl h)
    · rw [hhd] at h
      cases h
  · rw [write_of_ne hw]

theorem Valid.hand_ends (hen : s.Ends t s') : s'.hand r = s.hand r := by
  refine hand_congr (hen.lock.own hr) (funext fun u => (hen.users u).own hr) (funext fun who => (hen.links who).own hr)
    (funext fun k => (hen.bindings k).own hr) (funext fun a => (hen.seen a).own hr) (fun _ _ hhld => ?_) ?_
  · exact hs.has_ends hr hhld hen
  · rw [hen.counted, update_of_ne hr]

end

theorem Db.Ends.hand_self (hen : s.Ends t s') : s'.hand t = .nothing := by
  refine Hand.ext hen.lock.own_self (funext fun u => (hen.users u).own_self) (funext fun who =>
    (hen.links who).own_self) (funext fun k => (hen.bindings k).own_self) (funext fun a => (hen.seen a).own_self) ?_ ?_
  · funext u who
    exact eq_false fun h => absurd ((own_eq_none_iff.mp (hen.users u).own_self).symm.trans h.1) (by decide)
  · exact (congrFun hen.counted t).trans (update_self ..)

theorem Valid.closed (hs : Valid s) (hen : s.Ends t s') : System.Left Valid Db.hand .nothing t s s' :=
  ⟨hs.ends hen, fun _ hr => hs.hand_ends hr hen, hen.hand_self⟩

theorem hand_forgetSeen (now : ℤ) :
    Db.hand r { s with
      seen := fun k =>
        if (s.seen k).held.isNone && (s.seen k).committed.any fun expiresAt => expiresAt < now then .settled none
        else s.seen k
      log := s.log ++ [.forgot now] } = s.hand r := by
  refine Hand.ext rfl rfl rfl rfl (funext fun k => ?_) rfl rfl
  simp only [Db.hand, hand]
  split_ifs with h
  · rw [Bool.and_eq_true, Option.isNone_iff_eq_none] at h
    rw [own_settled, own, h.1]
  · rfl

/-- **A statement does not touch what another program has in hand.** -/
theorem Valid.hand_acts (hs : Valid s) (h : Acts t s s') (hr : r ≠ t) : s'.hand r = s.hand r := by
  cases h with
  | lock hfr => exact hand_congr (own_write hr hfr) rfl rfl rfl rfl (fun _ _ _ => .rfl) rfl
  | user new ids hfr =>
    exact hand_congr rfl ((takes_write hfr _).hand hr) rfl rfl rfl (fun _ _ _ => .rfl) rfl
  | link subjects hfr howner =>
    exact hand_congr rfl rfl ((takes_write hfr _).hand hr) rfl rfl
      (fun u who hhld => hs.has_writeLink hr hfr howner hhld) rfl
  | binding new keys hfr =>
    exact hand_congr rfl rfl rfl ((takes_write hfr _).hand hr) rfl (fun _ _ _ => .rfl) rfl
  | seen expiresAt hfr hvw =>
    exact hand_congr rfl rfl rfl rfl ((takes_write hfr _).hand hr) (fun _ _ _ => .rfl) rfl
  | count c hcts => exact hand_congr rfl rfl rfl rfl rfl (fun _ _ _ => .rfl) (update_of_ne hr ..)
  | forgetSeen now => exact hand_forgetSeen now
  | commit => exact hs.hand_ends hr (ends_commit t s)
  | abort => exact hs.hand_ends hr (ends_abort t s)
  | _ => rfl

end

/-! ### Ends, and what comes from outside -/

section

variable {s s' : Db} {t r : ℕ} {op : Outside}

theorem hand_record (a : Answer) : (s.record a).hand r = s.hand r := by
  unfold Db.record
  split <;> rfl

theorem Valid.record (hs : Valid s) (a : Answer) : Valid (s.record a) := by
  unfold Db.record
  split
  · exact ⟨hs.users, hs.ids, hs.one, hs.links, hs.counted⟩
  · exact hs

theorem committed_signedIn (now : ℤ) (u' : ℕ) :
    (update s.users u (.settled ((s.users u).committed.map fun user => { user with lastSignInAt := some now }))
      u').committed.any User.enabled = (s.users u').committed.any User.enabled := by
  by_cases hu : u' = u
  · subst hu
    rw [update_self, settled]
    cases (s.users u').committed <;> rfl
  · rw [update_of_ne hu]

theorem Outside.kept (h : op.apply s = some s') :
    s'.log = s.log ∧ s'.requests = s.requests ∧ s'.seen = s.seen ∧ s'.bindings = s.bindings ∧ s'.counted = s.counted :=
        by
  cases op with
  | signedIn u now =>
    unfold Outside.apply at h
    dsimp only at h
    split_ifs at h
    cases h
    exact ⟨rfl, rfl, rfl, rfl, rfl⟩
  | _ =>
    cases h
    exact ⟨rfl, rfl, rfl, rfl, rfl⟩

/-- **What comes from outside** keeps the invariant, and what all have in hand. -/
theorem Valid.outside (hs : Valid s) (h : op.apply s = some s') : Valid s' ∧ ∀ r, s'.hand r = s.hand r := by
  cases op with
  | roles | referenced =>
    cases h
    exact ⟨⟨hs.users, hs.ids, hs.one, hs.links, hs.counted⟩, fun r => rfl⟩
  | signedIn u now =>
    unfold Outside.apply at h
    dsimp only at h
    split_ifs at h with hhd
    cases h
    rw [Option.isNone_iff_eq_none] at hhd
    have hown : ∀ r u', (update s.users u (.settled ((s.users u).committed.map
        fun user => { user with lastSignInAt := some now })) u').own r = (s.users u').own r := fun r u' => by
      by_cases hu : u' = u
      · subst hu
        rw [update_self, own_settled, own, hhd]
      · rw [update_of_ne hu]
    refine ⟨⟨fun u' hu' => ?_, hs.ids, hs.one, fun who r v hv u' hu' => ?_, hs.counted⟩, fun r => ?_⟩
    · by_cases hu : u' = u
      · subst hu
        dsimp only at hu'
        rw [update_self] at hu'
        exact hs.users u' (by simpa [settled, hhd] using hu')
      · dsimp only at hu'
        rw [update_of_ne hu] at hu'
        exact hs.users u' hu'
    · exact (holds_congr (hown r u')).trans (hs.links who r v hv u' hu')
    · exact hand_congr rfl (funext (hown r)) rfl rfl rfl (fun _ _ _ => .rfl) rfl

end

end OpenVibes.Store.ConsoleSso
