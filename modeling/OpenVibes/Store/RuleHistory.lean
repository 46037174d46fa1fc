import OpenVibes.Store.Rules

/-!
# What is published only moves forward

The versions of a set go up, stored bytes stay, keys keep their meaning, and a bundle is committed only while its issuer
is trusted. A publisher holds the lock of its set, so the versions that it compared with are those at its commit
(`Hand.known`). It shares the row of its issuer's key, and one who adds a key that of the set.
-/

namespace OpenVibes.Store.Rules

open Theory List Option Cells Cell Sessions

/-! ### Rows -/

/-- A later version of a rule set: once retired it stays as it is. -/
def RuleSet.Evolves (old new : RuleSet) : Prop := old.retiredAt.isSome → new = old

instance : IsPreorder RuleSet RuleSet.Evolves where
  refl _ _ := rfl
  trans a b c hab hbc ha := by
    obtain rfl := hab ha
    exact hbc ha

/-- A later version of a key: it is the same key, and once removed it stays as it is. -/
def TrustKey.Evolves (old new : TrustKey) : Prop :=
  new.publicKey = old.publicKey ∧ (old.removedAt.isSome → new = old)

instance : IsPreorder TrustKey TrustKey.Evolves where
  refl _ := ⟨rfl, fun _ => rfl⟩
  trans a b c hab hbc := by
    refine ⟨hbc.1.trans hab.1, fun ha => ?_⟩
    obtain rfl := hab.2 ha
    exact hbc.2 ha

/-! ### What is in hand -/

@[ext]
structure Hand where
  locks : ℤ → Option (Unit × Unit)
  sets : String → Option (Option RuleSet × Option RuleSet)
  sharedSets : String → Option RuleSet
  keys : String × String → Option (Option TrustKey × Option TrustKey)
  sharedKeys : String × String → Option TrustKey
  bundles : String × ℤ → Option (Option Bundle × Option Bundle)
  /-- The committed versions of the sets whose lock it has. -/
  known : String → ℤ → Prop

def Hand.nothing : Hand :=
  ⟨fun _ => none, fun _ => none, fun _ => none, fun _ => none, fun _ => none, fun _ => none, fun _ _ => False⟩

section

variable (hashtext : String → ℤ)

def Db.hand (t : ℕ) (s : Db) : Hand where
  locks := s.locks.hand t
  sets := s.sets.rows.hand t
  sharedSets := s.sets.shared t
  keys := s.keys.rows.hand t
  sharedKeys := s.keys.shared t
  bundles := s.bundles.hand t
  known set version := (s.locks (hashtext set)).holds t = true ∧ (s.bundles (set, version)).committed.isSome = true

structure Db.Publishes (s : Db) (t : ℕ) (k : String × ℤ) (b : Bundle) : Prop where
  fresh : (s.bundles k).committed = none
  lock : (s.locks (hashtext k.1)).holds t = true
  above : ∀ version, (s.bundles (k.1, version)).committed.isSome = true → version < k.2
  /-- It shares the key of the issuer and has not written it, -/
  shares : t ∈ s.keys.sharers (k.1, b.issuerKeyId) ∧ (s.keys.rows (k.1, b.issuerKeyId)).own t = none
  trusted : ∃ key, (s.keys.rows (k.1, b.issuerKeyId)).committed = some key ∧ key.removedAt = none

structure Valid (s : Db) : Prop where
  sets : s.sets.Ok RuleSet.Evolves
  keys : s.keys.Ok TrustKey.Evolves
  adding : ∀ k t v, (s.keys.rows k).held = some (t, v) → (s.keys.rows k).committed = none →
    ∃ row, s.sets.shared t k.1 = some row ∧ row.retiredAt = none
  bundle : ∀ k t v, (s.bundles k).held = some (t, v) → ∃ b, v = some b ∧ s.Publishes hashtext t k b
  one : ∀ k j t v w, (s.bundles k).held = some (t, v) → (s.bundles j).held = some (t, w) → k = j
  listed : ∀ k, (s.bundles k).committed.isSome = true ∨ (s.bundles k).held.isSome = true → k ∈ s.bundleKeys

inductive Acts (t : ℕ) (s : Db) : Db → Prop
  | lock {k : ℤ} (hfr : (s.locks k).free t = true) : Acts t s { s with locks := s.locks.write t k () }
  | sets {sets : Shared ℕ String RuleSet} (hset : s.sets.Acts RuleSet.Evolves t sets)
    (hky : s.keys.rows.hand t = fun _ => none) : Acts t s { s with sets := sets }
  /-- It works on the keys; a new key is for a set that it shares and that is not retired. -/
  | keys {keys : Shared ℕ (String × String) TrustKey} (hky : s.keys.Acts TrustKey.Evolves t keys)
    (hbun : s.bundles.hand t = fun _ => none)
    (hadding : ∀ k v, (keys.rows k).held = some (t, v) → (keys.rows k).committed = none →
      ∃ row, s.sets.shared t k.1 = some row ∧ row.retiredAt = none) : Acts t s { s with keys := keys }
  | bundle {k : String × ℤ} {b : Bundle} (hfr : (s.bundles k).free t = true)
    (hnn : s.bundles.hand t = fun _ => none) (hpub : s.Publishes hashtext t k b) :
    Acts t s { s with bundles := s.bundles.write t k (some b), bundleKeys := k :: s.bundleKeys }

end

variable {hashtext : String → ℤ} {s s' : Db} {t r : ℕ}

theorem Acts.idle (hky : s.keys.rows.hand t = fun _ => none) : Acts hashtext t s s := .sets .idle hky

/-! ### Statements keep the invariant -/

variable {b : Bundle} {k : String × ℤ} {set : String} (n : NewBundle)

theorem Db.Publishes.congr (h : s.Publishes hashtext t k b)
    (hlk : ∀ j, (s.locks j).holds t = true → (s'.locks j).holds t = true)
    (hbun : ∀ j, (s'.bundles j).committed = (s.bundles j).committed)
    (hshrr : ∀ j, t ∈ s.keys.sharers j → t ∈ s'.keys.sharers j) (hown : s'.keys.rows.hand t = s.keys.rows.hand t)
    (hky : ∀ j, (s'.keys.rows j).committed = (s.keys.rows j).committed) : s'.Publishes hashtext t k b where
  fresh := (hbun k).trans h.fresh
  lock := hlk _ h.lock
  above version hver := h.above version (by rwa [hbun] at hver)
  shares := ⟨hshrr _ h.shares.1, (congrFun hown _).trans h.shares.2⟩
  trusted := by
    rw [hky]
    exact h.trusted

theorem Valid.acts (hs : Valid hashtext s) (h : Acts hashtext t s s') : Valid hashtext s' := by
  cases h with
  | @lock i hfr =>
    refine { hs with bundle := fun k r v hhd => ?_ }
    obtain ⟨b, hv, hpub⟩ := hs.bundle k r v hhd
    refine ⟨b, hv, hpub.congr (fun j hj => ?_) (fun _ => rfl) (fun _ => id) rfl fun _ => rfl⟩
    by_cases hk : j = i
    · subst hk
      dsimp only
      rw [write_self]
      exact holds_write hfr hj
    · dsimp only
      rwa [write_of_ne hk]
  | sets hset hky =>
    refine { hs with
      sets := hset.ok hs.sets
      adding := fun k r v hhd hnn => ?_
      bundle := fun k r v hhd => ?_ }
    · have hr : r ≠ t := ne_of_held (congrFun hky k) hhd
      rw [hset.shared hr]
      exact hs.adding k r v hhd hnn
    · obtain ⟨b, hv, hpub⟩ := hs.bundle k r v hhd
      exact ⟨b, hv, hpub.congr (fun _ => id) (fun _ => rfl) (fun _ => id) rfl fun _ => rfl⟩
  | @keys keys hky hbun hadding =>
    refine { hs with
      keys := hky.ok hs.keys
      adding := fun k r v hhd hnn => ?_
      bundle := fun k r v hhd => ?_ }
    · rcases eq_or_ne r t with rfl | hr
      · exact hadding k v hhd hnn
      have hown : (s.keys.rows k).own r = some (none, v) := by
        have hsm : (keys.rows k).own r = (s.keys.rows k).own r := congrFun (hky.hand hr) k
        rw [← hsm]
        exact own_iff.mpr ⟨hnn, hhd⟩
      obtain ⟨hcom, hhd⟩ := own_iff.mp hown
      exact hs.adding k r v hhd hcom
    · obtain ⟨b, hv, hpub⟩ := hs.bundle k r v hhd
      have hr : r ≠ t := ne_of_held (congrFun hbun k) hhd
      exact ⟨b, hv, hpub.congr (fun _ => id) (fun _ => rfl) (fun j hj => (hky.mem_sharers hr j).mpr hj)
        (hky.hand hr) hky.committed⟩
  | @bundle k b hfr hnn hpub =>
    have hcom := committed_write t k (some b) s.bundles
    have hcon : ∀ {j r c}, s.Publishes hashtext r j c → Db.Publishes hashtext
        { s with bundles := s.bundles.write t k (some b), bundleKeys := k :: s.bundleKeys } r j c :=
      fun h => h.congr (fun _ => id) hcom (fun _ => id) rfl fun _ => rfl
    refine { hs with
      bundle := fun j r v hhd => ?_
      one := fun j j' r v v' hhd hhd' => ?_
      listed := fun j hj => ?_ }
    · rcases held_write hhd with ⟨rfl, rfl, rfl⟩ | ⟨-, hhd⟩
      · exact ⟨b, rfl, hcon hpub⟩
      · obtain ⟨c, hv, hc⟩ := hs.bundle j r v hhd
        exact ⟨c, hv, hcon hc⟩
    · have hnot : ∀ {i w}, (s.bundles i).held ≠ some (t, w) := fun h => ne_of_held (congrFun hnn _) h rfl
      rcases held_write hhd with ⟨rfl, rfl, rfl⟩ | ⟨-, hold⟩
      · rcases held_write hhd' with ⟨rfl, -, -⟩ | ⟨-, hold'⟩
        · rfl
        · exact absurd hold' hnot
      · rcases held_write hhd' with ⟨rfl, rfl, rfl⟩ | ⟨-, hold'⟩
        · exact absurd hold hnot
        · exact hs.one j j' r v v' hold hold'
    · by_cases hjk : j = k
      · exact hjk ▸ mem_cons_self
      · dsimp only at hj
        rw [write_of_ne hjk] at hj
        exact mem_cons_of_mem _ (hs.listed j hj)

/-! ### Ends keep the invariant -/

structure Db.Ends (t : ℕ) (s s' : Db) : Prop where
  locks : ∀ k, (s.locks k).Ends t (s'.locks k)
  sets : s.sets.Ends t s'.sets
  keys : s.keys.Ends t s'.keys
  bundles : ∀ k, (s.bundles k).Ends t (s'.bundles k)
  bundleKeys : s'.bundleKeys = s.bundleKeys

theorem ends_commit (t : ℕ) (s : Db) : s.Ends t (s.commit t) :=
  ⟨fun _ => Cell.ends_commit t _, Shared.ends_commit t _, Shared.ends_commit t _, fun _ => Cell.ends_commit t _, rfl⟩

theorem ends_abort (t : ℕ) (s : Db) : s.Ends t (s.abort t) :=
  ⟨fun _ => Cell.ends_abort t _, Shared.ends_abort t _, Shared.ends_abort t _, fun _ => Cell.ends_abort t _, rfl⟩

theorem committed_cases (h : ((s.commit t).bundles k).committed = some b) :
    (s.bundles k).committed = some b ∨ (s.bundles k).held = some (t, some b) := by
  rw [show ((s.commit t).bundles k).committed = (s.bundles k).view t from committed_commit t _] at h
  cases hown : (s.bundles k).own t with
  | none => exact .inl ((view_of_none hown).symm.trans h)
  | some p =>
    rw [view_of_own hown] at h
    exact .inr (h ▸ (own_iff.mp hown).2)

section

variable (hs : Valid hashtext s)

include hs

theorem Valid.committed_bundle (hen : s.Ends t s') (hr : r ≠ t) (hlk : (s.locks (hashtext k.1)).holds r = true) :
    (s'.bundles k).committed = (s.bundles k).committed := by
  refine (hen.bundles k).committed ?_
  cases hown : (s.bundles k).own t with
  | none => rfl
  | some p =>
    obtain ⟨b, -, hpub⟩ := hs.bundle k t p.2 (own_iff.mp hown).2
    exact absurd (holds_unique hlk hpub.lock) hr

theorem Valid.ends (hen : s.Ends t s') : Valid hashtext s' where
  sets := hs.sets.ends hen.sets
  keys := hs.keys.ends hen.keys
  adding k r v hhd hnn := by
    obtain ⟨hhd, hown⟩ := (hen.keys.1 k).held hhd
    have hnn : (s.keys.rows k).committed = none := ((hen.keys.1 k).committed hown).symm.trans hnn
    obtain ⟨row, hrow, hrtd⟩ := hs.adding k r v hhd hnn
    exact ⟨row, (congrFun (hs.sets.shared_ends hen.sets (ne_of_held hown hhd)) k.1).trans hrow, hrtd⟩
  bundle k r v hhd := by
    obtain ⟨hhd, hown⟩ := (hen.bundles k).held hhd
    have hr := ne_of_held hown hhd
    obtain ⟨b, hv, h⟩ := hs.bundle k r v hhd
    refine ⟨b, hv, ?_, ?_, fun version hver => ?_, ⟨?_, ?_⟩, ?_⟩
    · exact ((hen.bundles k).committed hown).trans h.fresh
    · exact (holds_congr ((hen.locks _).own hr)).trans h.lock
    · have hsm := hs.committed_bundle hen (k := (k.1, version)) hr h.lock
      exact h.above version (hsm ▸ hver)
    · exact (hen.keys.2 _ _).mpr ⟨h.shares.1, hr⟩
    · exact ((hen.keys.1 _).own hr).trans h.shares.2
    · obtain ⟨key, hkey, hrmd⟩ := h.trusted
      exact ⟨key, ((hen.keys.1 _).committed (hs.keys.own_none hr h.shares.1)).trans hkey, hrmd⟩
  one k j r v w hk hj := hs.one k j r v w ((hen.bundles k).held hk).1 ((hen.bundles j).held hj).1
  listed k hk := by
    rw [hen.bundleKeys]
    exact hs.listed k ((hen.bundles k).there hk)

end

/-! ### What the others have in hand -/

theorem hand_congr (hloc : s'.locks.hand r = s.locks.hand r) (hset : s'.sets.rows.hand r = s.sets.rows.hand r)
    (hsharedSets : s'.sets.shared r = s.sets.shared r) (hky : s'.keys.rows.hand r = s.keys.rows.hand r)
    (hsharedKeys : s'.keys.shared r = s.keys.shared r) (hbun : s'.bundles.hand r = s.bundles.hand r)
    (hkn : ∀ k : String × ℤ, (s.locks (hashtext k.1)).holds r = true →
      (s'.bundles k).committed = (s.bundles k).committed) :
    s'.hand hashtext r = s.hand hashtext r := by
  refine Hand.ext hloc hset hsharedSets hky hsharedKeys hbun ?_
  funext set version
  have hhld : (s'.locks (hashtext set)).holds r = (s.locks (hashtext set)).holds r :=
    holds_congr (congrFun hloc (hashtext set))
  refine propext ⟨fun h => ?_, fun h => ?_⟩
  · have hlk := hhld.symm.trans h.1
    exact ⟨hlk, by rw [← hkn (set, version) hlk]; exact h.2⟩
  · exact ⟨hhld.trans h.1, by rw [hkn (set, version) h.1]; exact h.2⟩

theorem hand_acts (h : Acts hashtext t s s') (hr : r ≠ t) : s'.hand hashtext r = s.hand hashtext r := by
  cases h with
  | lock hfr => exact hand_congr ((takes_write hfr _).hand hr) rfl rfl rfl rfl rfl fun _ _ => rfl
  | sets hset => exact hand_congr rfl (hset.hand hr) (hset.shared hr) rfl rfl rfl fun _ _ => rfl
  | keys hky => exact hand_congr rfl rfl rfl (hky.hand hr) (hky.shared hr) rfl fun _ _ => rfl
  | bundle hfr =>
    exact hand_congr rfl rfl rfl rfl rfl ((takes_write hfr _).hand hr) fun k _ => committed_write ..

theorem Valid.hand_ends (hs : Valid hashtext s) (hen : s.Ends t s') (hr : r ≠ t) :
    s'.hand hashtext r = s.hand hashtext r :=
  hand_congr (funext fun k => (hen.locks k).own hr) (funext fun k => (hen.sets.1 k).own hr)
    (hs.sets.shared_ends hen.sets hr) (funext fun k => (hen.keys.1 k).own hr) (hs.keys.shared_ends hen.keys hr)
    (funext fun k => (hen.bundles k).own hr) fun _ hlk => hs.committed_bundle hen hr hlk

theorem hand_nothing (hloc : s.locks.hand t = fun _ => none) (hset : s.sets.rows.hand t = fun _ => none)
    (hsharedSets : s.sets.shared t = fun _ => none) (hky : s.keys.rows.hand t = fun _ => none)
    (hsharedKeys : s.keys.shared t = fun _ => none) (hbun : s.bundles.hand t = fun _ => none) :
    s.hand hashtext t = .nothing := by
  refine Hand.ext hloc hset hsharedSets hky hsharedKeys hbun ?_
  funext set version
  refine eq_false fun h => ?_
  have hnn := own_eq_none_iff.mp (congrFun hloc (hashtext set))
  exact absurd (hnn.symm.trans h.1) (by decide)

theorem Db.Ends.hand_self (hen : s.Ends t s') : s'.hand hashtext t = .nothing :=
  hand_nothing (funext fun k => (hen.locks k).own_self) (funext fun k => (hen.sets.1 k).own_self)
    hen.sets.shared_self (funext fun k => (hen.keys.1 k).own_self) hen.keys.shared_self
    (funext fun k => (hen.bundles k).own_self)

theorem Valid.closed (hs : Valid hashtext s) (hen : s.Ends t s') :
    System.Left (Valid hashtext) (Db.hand hashtext) .nothing t s s' :=
  ⟨hs.ends hen, fun _ hr => hs.hand_ends hen hr, hen.hand_self⟩

/-! ### The programs -/

abbrev Meeting (hashtext : String → ℤ) (t : ℕ) {α : Type} (Q : α → Hand → Prop) (p : Txn Db α) (m : Hand) : Prop :=
  p.Meets (Valid hashtext) (Db.hand hashtext t) (Acts hashtext t) Q m

structure Hand.Bare (m : Hand) : Prop where
  keys : m.keys = fun _ => none
  bundles : m.bundles = fun _ => none

theorem Hand.bare_nothing : Hand.nothing.Bare := ⟨rfl, rfl⟩

variable {row : RuleSet} {version : ℤ} {move : Move ℕ Call Empty} {bytes : List UInt8} {current : Option ℤ}
  {S S' : Running}

section

variable {m : Hand}

theorem query_meets {α : Type} {q : Db → α} {Q : α → Hand → Prop} (hm : m.keys = fun _ => none)
    (h : ∀ s, Valid hashtext s → s.hand hashtext t = m → Q (q s) m) : Meeting hashtext t Q (.query q) m := by
  intro s b s' hs hmn hact
  cases hact
  subst hmn
  exact ⟨.idle hm, h s hs rfl⟩

theorem insertSet_meets (set : String) (hm : m.Bare) :
    Meeting hashtext t (fun _ m' => m'.Bare) (insertSet t set) m := by
  refine .stmt fun s b s' hs hmn hact => ?_
  subst hmn
  obtain ⟨⟨b', sets⟩, hins, hr⟩ := map_eq_some_iff.mp hact
  cases hr
  refine ⟨.sets ?_ hm.keys, hm.keys, hm.bundles⟩
  rcases Shared.insert_cases hins with ⟨-, rfl⟩ | ⟨-, hfr, hvw, rfl⟩
  · exact .idle
  · exact .insert _ hfr hvw

theorem shareSet_meets (set : String) (hm : m.Bare) : Meeting hashtext t
    (fun found m' => m'.Bare ∧ ∀ row, found = some row → m'.sharedSets set = some row) (shareSet t set) m := by
  refine .stmt fun s b s' hs hmn hact => ?_
  subst hmn
  obtain ⟨⟨b', sets⟩, hshr, hr⟩ := map_eq_some_iff.mp hact
  cases hr
  rcases Shared.share_cases hshr with ⟨rfl, rfl⟩ | ⟨row, rfl, hfr, hvw, -, rfl⟩
  · exact ⟨.sets .idle hm.keys, ⟨hm.keys, hm.bundles⟩, nofun⟩
  · refine ⟨.sets (.share hfr hvw) hm.keys, ⟨hm.keys, hm.bundles⟩, fun row' hrow => ?_⟩
    cases hrow
    exact Shared.shared_eq_some_iff.mpr ⟨Shared.mem_share.mpr (.inl ⟨rfl, rfl⟩), hvw⟩

theorem updateSet_meets (set : String) (now : ℤ) (hm : m.Bare) :
    Meeting hashtext t (fun _ _ => True) (updateSet t set now) m := by
  refine .stmt fun s b s' hs hmn hact => ?_
  subst hmn
  obtain ⟨⟨b', sets⟩, hupd, hr⟩ := map_eq_some_iff.mp hact
  cases hr
  refine ⟨.sets ?_ hm.keys, trivial⟩
  rcases Shared.update_cases hupd with ⟨-, rfl⟩ | ⟨old, -, hfr, hvw, hcd, halo, rfl⟩
  · exact .idle
  · refine .update hfr hvw halo fun hrtd => ?_
    rw [isNone_iff_eq_none.mp hcd] at hrtd
    cases hrtd

theorem insertKey_meets (set issuer : String) (key : PublicKey) (hm : m.Bare) (hrow : m.sharedSets set = some row)
    (hrtd : row.retiredAt = none) :
    Meeting hashtext t (fun inserted m' => inserted = false → m'.Bare) (insertKey t (set, issuer) key) m := by
  refine .stmt fun s b s' hs hmn hact => ?_
  subst hmn
  obtain ⟨⟨b', keys⟩, hins, hr⟩ := map_eq_some_iff.mp hact
  cases hr
  rcases Shared.insert_cases hins with ⟨-, rfl⟩ | ⟨rfl, hfr, hvw, rfl⟩
  · exact ⟨.idle hm.keys, fun _ => ⟨hm.keys, hm.bundles⟩⟩
  refine ⟨.keys (.insert _ hfr hvw) hm.bundles fun k v hhd _ => ?_, nofun⟩
  rcases held_write hhd with ⟨rfl, -, -⟩ | ⟨-, hhd⟩
  · exact ⟨row, hrow, hrtd⟩
  · exact absurd rfl (ne_of_held (congrFun hm.keys k) hhd)

theorem updateKey_meets (k : String × String) (now : ℤ) (hm : m.Bare) :
    Meeting hashtext t (fun _ _ => True) (updateKey t k now) m := by
  refine .stmt fun s b s' hs hmn hact => ?_
  subst hmn
  obtain ⟨⟨b', keys⟩, hupd, hr⟩ := map_eq_some_iff.mp hact
  cases hr
  refine ⟨?_, trivial⟩
  rcases Shared.update_cases hupd with ⟨-, rfl⟩ | ⟨old, -, hfr, hvw, hcd, halo, rfl⟩
  · exact .idle hm.keys
  refine .keys (.update hfr hvw halo ⟨rfl, fun hrmd => ?_⟩) hm.bundles fun j v hhd hnn => ?_
  · rw [isNone_iff_eq_none.mp hcd] at hrmd
    cases hrmd
  rcases held_write hhd with ⟨rfl, -, -⟩ | ⟨-, hhd⟩
  · -- the row is there, since it has no other version in hand
    rw [view_of_none (congrFun hm.keys j), ← committed_write t j _ s.keys.rows j, hnn] at hvw
    cases hvw
  · exact absurd rfl (ne_of_held (congrFun hm.keys j) hhd)

theorem addTrustKey_meets (set issuer : String) (key : PublicKey) :
    Meeting hashtext t (fun _ _ => True) (addTrustKey t set issuer key) .nothing := by
  refine (insertSet_meets set Hand.bare_nothing).seq fun _ m hm => ?_
  refine (shareSet_meets set hm).seq fun found m' hfnd => ?_
  obtain ⟨hm', hsha⟩ := hfnd
  cases found with
  | none => trivial
  | some row =>
    dsimp only
    split_ifs with hrtd
    · trivial
    have hrtd : row.retiredAt = none := by simpa using hrtd
    refine (insertKey_meets set issuer key hm' (hsha row rfl) hrtd).seq fun inserted m'' hbr => ?_
    split_ifs with hin
    · trivial
    refine .bind (query_meets (hbr (by simpa using hin)).keys fun s _ _ => ?_)
    split
    · trivial
    · split_ifs <;> trivial

structure Hand.Publisher (hashtext : String → ℤ) (n : NewBundle) (m : Hand) : Prop extends Hand.Bare m where
  lock : m.locks (hashtext n.ruleSetId) ≠ none

theorem takeLock_meets : Meeting hashtext t (fun _ m => m.Publisher hashtext n)
    (takeLock hashtext t n.ruleSetId) .nothing := by
  refine .stmt fun s b s' hs hmn hact => ?_
  obtain ⟨hfr, hr⟩ := map_put_iff.mp hact
  cases hr
  refine ⟨.lock hfr, ⟨congrArg Hand.keys hmn, congrArg Hand.bundles hmn⟩, ?_⟩
  change (write t _ () s.locks _).own t ≠ none
  rw [write_self, own_write_self]
  exact some_ne_none _

theorem Valid.mem_versions (hs : Valid hashtext s) :
    version ∈ s.versions s.stored set ↔ (s.stored (set, version)).isSome = true := by
  simp only [Db.versions, List.mem_map, mem_filter, Bool.and_eq_true, decide_eq_true_eq]
  constructor
  · rintro ⟨⟨_, _⟩, ⟨-, rfl, h⟩, rfl⟩
    exact h
  · exact fun h => ⟨(set, version), ⟨hs.listed _ (.inl h), rfl, h⟩, rfl⟩

theorem Valid.current_eq_some_iff (hs : Valid hashtext s) {current : ℤ} :
    s.current s.stored set = some current ↔ (s.stored (set, current)).isSome = true ∧
      ∀ version, (s.stored (set, version)).isSome = true → version ≤ current := by
  rw [Db.current, max?_eq_some_iff, hs.mem_versions]
  simp [hs.mem_versions]

theorem Valid.lt_of_current (hs : Valid hashtext s) {n : NewBundle}
    (h : (s.current s.stored n.ruleSetId).filter (fun current => n.version ≤ current) = none)
    (hver : (s.stored (n.ruleSetId, version)).isSome = true) : version < n.version := by
  cases hcur : s.current s.stored n.ruleSetId with
  | none =>
    have hnil := max?_eq_none_iff.mp hcur
    have hmem := hs.mem_versions.mpr hver
    rw [hnil] at hmem
    cases hmem
  | some current =>
    have hle := (hs.current_eq_some_iff.mp hcur).2 version hver
    rw [hcur, filter_eq_none_iff] at h
    have hlt := h current rfl
    simp only [decide_eq_true_eq] at hlt
    omega

theorem seen_eq_stored (h : s.bundles.hand t = fun _ => none) : s.seen t = s.stored :=
  funext fun k => view_of_none (congrFun h k)

section

variable (hm : m.Publisher hashtext n) (habv : ∀ version, m.known n.ruleSetId version → version < n.version)

include hm habv

theorem shareKey_meets : Meeting hashtext t
    (fun found m' => m'.Publisher hashtext n ∧ (∀ version, m'.known n.ruleSetId version → version < n.version) ∧
      (found.isSome = true → ∃ key, m'.sharedKeys (n.ruleSetId, n.issuerKeyId) = some key ∧ key.removedAt = none))
    (shareKey t (n.ruleSetId, n.issuerKeyId)) m := by
  refine .stmt fun s b s' hs hmn hact => ?_
  subst hmn
  obtain ⟨⟨b', keys⟩, hshr, hr⟩ := map_eq_some_iff.mp hact
  cases hr
  rcases Shared.share_cases hshr with ⟨rfl, rfl⟩ | ⟨row, rfl, hfr, hvw, hcd, rfl⟩
  · exact ⟨.idle hm.keys, hm, habv, nofun⟩
  refine ⟨.keys (.share hfr hvw) hm.bundles fun k v hhd _ => ?_, ⟨⟨hm.keys, hm.bundles⟩, hm.lock⟩, habv, fun _ => ?_⟩
  · exact absurd rfl (ne_of_held (congrFun hm.keys k) hhd)
  · exact ⟨row, Shared.shared_eq_some_iff.mpr ⟨Shared.mem_share.mpr (.inl ⟨rfl, rfl⟩), hvw⟩,
      isNone_iff_eq_none.mp hcd⟩

theorem insertBundle_meets {key : TrustKey}
    (hkey : m.sharedKeys (n.ruleSetId, n.issuerKeyId) = some key) (hrmd : key.removedAt = none) :
    Meeting hashtext t (fun _ _ => True) (insertBundle t n) m := by
  refine .stmt fun s b s' hs hmn hact => ?_
  subst hmn
  refine ⟨?_, trivial⟩
  split_ifs at hact with hchc
  · cases hact
    exact .idle hm.keys
  split at hact
  · cases hact
    exact .idle hm.keys
  rename_i hvw
  obtain ⟨hfr, hr⟩ := map_put_iff.mp hact
  cases hr
  have hlk : (s.locks (hashtext n.ruleSetId)).holds t = true := holds_iff.mpr (ne_none_iff_exists'.mp hm.lock)
  obtain ⟨hshar, hss⟩ := Shared.shared_eq_some_iff.mp hkey
  refine .bundle hfr hm.bundles ⟨?_, hlk, fun version h => habv version ⟨hlk, h⟩,
    ⟨hshar, congrFun hm.keys _⟩, key, ?_, hrmd⟩
  · exact (view_of_none (congrFun hm.bundles _)).symm.trans hvw
  · exact (view_of_none (congrFun hm.keys _)).symm.trans hss

end

theorem publish_meets : Meeting hashtext t (fun _ _ => True) (publish hashtext t n) .nothing := by
  refine (takeLock_meets n).seq fun _ m hm => ?_
  refine .bind (query_meets hm.keys fun s _ _ => ?_)
  split
  · trivial
  split_ifs
  · trivial
  refine .bind (query_meets hm.keys fun s _ _ => ?_)
  split
  · split_ifs <;> trivial
  refine .bind (query_meets hm.keys fun s hs hmn => ?_)
  split
  · trivial
  rename_i hcur
  have habv : ∀ version, m.known n.ruleSetId version → version < n.version := by
    intro version hkn
    subst hmn
    rw [seen_eq_stored hm.bundles] at hcur
    exact hs.lt_of_current hcur hkn.2
  refine (shareKey_meets n hm habv).seq fun found m' hfnd => ?_
  obtain ⟨hm', habv', htrs⟩ := hfnd
  cases found with
  | none => trivial
  | some row =>
    obtain ⟨key, hkey, hrmd⟩ := htrs rfl
    refine (insertBundle_meets n hm' habv' hkey hrmd).seq fun inserted _ _ => ?_
    split_ifs <;> trivial

/-- **Every program** keeps the invariant with each of its statements. -/
theorem prog_meets (call : Call) : Meeting hashtext t (fun _ _ => True) (call.prog hashtext t) .nothing := by
  cases call with
  | addTrustKey set issuer key => exact (addTrustKey_meets set issuer key).seq fun _ _ _ => trivial
  | removeTrustKey set issuer now =>
    exact .bind ((updateKey_meets (set, issuer) now Hand.bare_nothing).seq fun _ _ _ => trivial)
  | publish n => exact (publish_meets n).seq fun _ _ _ => trivial
  | retire set now => exact .bind ((updateSet_meets set now Hand.bare_nothing).seq fun _ _ _ => trivial)
  | serve set current => exact .bind (.bind (query_meets rfl fun s _ _ => trivial))

end

theorem system_safe (hashtext : String → ℤ) :
    (system hashtext).Safe (Valid hashtext) (Db.hand hashtext) .nothing (Acts hashtext) fun _ _ _ _ => True where
  start _ call := prog_meets call
  keeps _ _ _ hs h := hs.acts h
  others _ _ _ _ hr _ h := hand_acts h hr
  close t call e s hs _ := by
    cases e with
    | commit a => exact hs.closed (ends_commit t s)
    | rollback a => exact hs.closed (ends_abort t s)
  abort t s hs := hs.closed (ends_abort t s)
  effect op := op.elim

/-! ### What changes -/

def Db.Trusted (s : Db) (set issuer : String) : Prop :=
  ∃ key, (s.keys.rows (set, issuer)).committed = some key ∧ key.removedAt = none

structure Later (s s' : Db) : Prop where
  /-- A version that was not there is above those that were. -/
  versions : ∀ set v w, (s.stored (set, v)).isSome = true → (s'.stored (set, w)).isSome = true →
    s.stored (set, w) = none → v < w
  bundles : ∀ k b, s.stored k = some b → s'.stored k = some b
  /-- An issuer id names the same key, and one that was removed stays removed. -/
  keys : ∀ k key, (s.keys.rows k).committed = some key →
    ∃ key', (s'.keys.rows k).committed = some key' ∧ key.Evolves key'
  retired : ∀ set row, (s.sets.rows set).committed = some row → row.retiredAt.isSome = true →
    (s'.sets.rows set).committed = some row
  closed : ∀ set row issuer, (s.sets.rows set).committed = some row → row.retiredAt.isSome = true →
    (s.keys.rows (set, issuer)).committed = none → (s'.keys.rows (set, issuer)).committed = none

/-- When bundles are stored: one at a time, and the issuer is trusted. -/
structure Stores (s s' : Db) : Prop where
  trusted : ∀ k b, s.stored k = none → s'.stored k = some b →
    s.Trusted k.1 b.issuerKeyId ∧ s'.Trusted k.1 b.issuerKeyId
  one : ∀ k j, s.stored k = none → (s'.stored k).isSome = true → s.stored j = none → (s'.stored j).isSome = true → k = j

theorem Later.of_committed (hbun : s'.stored = s.stored)
    (hky : ∀ k, (s'.keys.rows k).committed = (s.keys.rows k).committed)
    (hset : ∀ set, (s'.sets.rows set).committed = (s.sets.rows set).committed) : Later s s' ∧ Stores s s' := by
  refine ⟨⟨fun set v w _ hw hnn => ?_, fun k b hk => ?_, fun k key hk => ?_, fun set row hrow _ => ?_,
    fun set row issuer _ _ hk => ?_⟩, fun k b hnn hb => ?_, fun k j hnn hk => ?_⟩
  · rw [hbun, hnn] at hw
    cases hw
  · rw [hbun, hk]
  · exact ⟨key, (hky k).trans hk, refl_of TrustKey.Evolves key⟩
  · exact (hset set).trans hrow
  · exact (hky _).trans hk
  · rw [hbun, hnn] at hb
    cases hb
  · rw [hbun, hnn] at hk
    cases hk

theorem Later.refl (s : Db) : Later s s := (Later.of_committed rfl (fun _ => rfl) fun _ => rfl).1

theorem Later.trans {a b c : Db} (hab : Later a b) (hbc : Later b c) : Later a c where
  versions set v w hv hw hnn := by
    cases hb : b.stored (set, w) with
    | none =>
      obtain ⟨bundle, hbnd⟩ := isSome_iff_exists.mp hv
      exact hbc.versions set v w (by rw [hab.bundles _ _ hbnd]; rfl) hw hb
    | some bundle => exact hab.versions set v w hv (by rw [hb]; rfl) hnn
  bundles k bundle hk := hbc.bundles k bundle (hab.bundles k bundle hk)
  keys k key hk := by
    obtain ⟨key₁, hkey₁, h₁⟩ := hab.keys k key hk
    obtain ⟨key₂, hkey₂, h₂⟩ := hbc.keys k key₁ hkey₁
    exact ⟨key₂, hkey₂, trans_of TrustKey.Evolves h₁ h₂⟩
  retired set row hrow hrtd := hbc.retired set row (hab.retired set row hrow hrtd) hrtd
  closed set row issuer hrow hrtd hnn :=
    hbc.closed set row issuer (hab.retired set row hrow hrtd) hrtd (hab.closed set row issuer hrow hrtd hnn)

theorem Valid.closed_commit (hs : Valid hashtext s) {issuer : String} (hrow : (s.sets.rows set).committed = some row)
    (hrtd : row.retiredAt.isSome = true) (hnn : (s.keys.rows (set, issuer)).committed = none) (t : ℕ) :
    ((s.commit t).keys.rows (set, issuer)).committed = none := by
  cases hown : (s.keys.rows (set, issuer)).own t with
  | none => exact (committed_commit_of_none hown).trans hnn
  | some p =>
    obtain ⟨row', hsha, hlv⟩ := hs.adding (set, issuer) t p.2 (own_iff.mp hown).2 hnn
    have hevo := hs.sets.view (Shared.shared_eq_some_iff.mp hsha).2 row hrow
    rw [hevo hrtd] at hlv
    rw [hlv] at hrtd
    cases hrtd

theorem Valid.publishes_of_commit (hs : Valid hashtext s) (hnn : s.stored k = none)
    (hb : (s.commit t).stored k = some b) : (s.bundles k).held = some (t, some b) ∧ s.Publishes hashtext t k b := by
  rcases committed_cases hb with hold | hhd
  · cases hnn.symm.trans hold
  · obtain ⟨b', hb', hpub⟩ := hs.bundle k t (some b) hhd
    cases hb'
    exact ⟨hhd, hpub⟩

theorem Valid.later_commit (hs : Valid hashtext s) (t : ℕ) : Later s (s.commit t) ∧ Stores s (s.commit t) := by
  refine ⟨⟨fun set v w hv hw hnn => ?_, fun k b hk => ?_, fun k key hk => hs.keys.committed_commit hk t,
    fun set row hrow hrtd => ?_, fun set row issuer hrow hrtd hnn => hs.closed_commit hrow hrtd hnn t⟩,
    fun k b hnn hb => ?_, fun k j hk hk' hj hj' => ?_⟩
  · obtain ⟨b, hb⟩ := isSome_iff_exists.mp hw
    exact (hs.publishes_of_commit hnn hb).2.above v hv
  · refine (committed_commit_of_none ?_).trans hk
    cases hown : (s.bundles k).own t with
    | none => rfl
    | some p =>
      obtain ⟨b', -, hpub⟩ := hs.bundle k t p.2 (own_iff.mp hown).2
      cases hpub.fresh.symm.trans hk
  · obtain ⟨new, hnew, hevo⟩ := hs.sets.committed_commit hrow t
    rwa [hevo hrtd] at hnew
  · obtain ⟨-, hpub⟩ := hs.publishes_of_commit hnn hb
    obtain ⟨key, hkey, hrmd⟩ := hpub.trusted
    have hkey' := (committed_commit_of_none hpub.shares.2).trans hkey
    exact ⟨⟨key, hkey, hrmd⟩, key, hkey', hrmd⟩
  · obtain ⟨b, hb⟩ := isSome_iff_exists.mp hk'
    obtain ⟨c, hc⟩ := isSome_iff_exists.mp hj'
    exact hs.one k j t _ _ (hs.publishes_of_commit hk hb).1 (hs.publishes_of_commit hj hc).1

/-! ### Runs -/

structure AtRest (s : Db) : Prop where
  locks : ∀ k, (s.locks k).held = none
  sets : s.sets.AtRest
  keys : s.keys.AtRest
  bundles : ∀ k, (s.bundles k).held = none
  listed : ∀ k, (s.stored k).isSome = true → k ∈ s.bundleKeys

abbrev Running := Sessions ℕ Call Db (End Answer)

abbrev Reached (hashtext : String → ℤ) (S : Running) : Prop :=
  System.Sound (Valid hashtext) (Db.hand hashtext) .nothing (Acts hashtext) (fun _ _ _ _ => True) S

theorem AtRest.reached (h : AtRest s) (hashtext : String → ℤ) : Reached hashtext (quiet s) := by
  refine System.sound_quiet ⟨h.sets.ok, h.keys.ok, fun k t v hhd => ?_, fun k t v hhd => ?_, fun k j t v w hhd => ?_,
    fun k hk => ?_⟩ fun t => ?_
  · rw [h.keys.held] at hhd
    cases hhd
  · rw [h.bundles] at hhd
    cases hhd
  · rw [h.bundles] at hhd
    cases hhd
  · rcases hk with hk | hk
    · exact h.listed k hk
    · rw [h.bundles] at hk
      cases hk
  · exact hand_nothing (funext fun k => own_of_held_none (h.locks k)) (h.sets.hand t) (h.sets.shared t) (h.keys.hand t)
      (h.keys.shared t) (funext fun k => own_of_held_none (h.bundles k))

theorem later_step (hS : Reached hashtext S) (h : (system hashtext).step S move = some S') :
    Later S.state S'.state ∧ Stores S.state S'.state := by
  have hds := ((system_safe hashtext).step_cases hS h).2
  generalize S'.state = s' at hds ⊢
  have habr : ∀ t, Later S.state (S.state.abort t) ∧ Stores S.state (S.state.abort t) := fun t =>
    Later.of_committed (funext fun k => Cells.committed_abort ..) (fun k => Cells.committed_abort ..) fun set =>
      Cells.committed_abort ..
  cases hds with
  | start t call => exact Later.of_committed rfl (fun _ => rfl) fun _ => rfl
  | act t s hac =>
    cases hac with
    | lock => exact Later.of_committed rfl (fun _ => rfl) fun _ => rfl
    | sets hset => exact Later.of_committed rfl (fun _ => rfl) hset.committed
    | keys hky => exact Later.of_committed rfl hky.committed fun _ => rfl
    | bundle => exact Later.of_committed (funext fun k => committed_write ..) (fun _ => rfl) fun _ => rfl
  | close t call e =>
    cases e with
    | commit a => exact hS.state.later_commit t
    | rollback a => exact habr t
  | abort t => exact habr t
  | outside op => exact op.elim

theorem later_run {moves : List (Move ℕ Call Empty)} (hS : Reached hashtext S)
    (h : run (system hashtext).step S moves = some S') : Later S.state S'.state := by
  have hinv : Reached hashtext S' ∧ Later S.state S'.state :=
    run_invariant (I := fun S₁ => Reached hashtext S₁ ∧ Later S.state S₁.state)
      (fun S₁ move S₂ hS₁ hst =>
        ⟨((system_safe hashtext).step_cases hS₁.1 hst).1, hS₁.2.trans (later_step hS₁.1 hst).1⟩)
      ⟨hS, .refl _⟩ h
  exact hinv.2

/-! ### What is served -/

/-- What `serve` may give: the highest version of a live set, above the agent's. -/
def Db.Serves (s : Db) (set : String) (current : Option ℤ) (bytes : List UInt8) : Prop :=
  ∃ version b row, s.stored (set, version) = some b ∧ b.envelope = bytes ∧ current.getD 0 < version ∧
    (∀ v, (s.stored (set, v)).isSome = true → v ≤ version) ∧
    (s.sets.rows set).committed = some row ∧ row.retiredAt = none

theorem Valid.serve (hs : Valid hashtext s) (h : s.serve set current = .envelope bytes) :
    s.Serves set current bytes := by
  unfold Db.serve at h
  split at h
  · rename_i row version hrow hver
    split at h
    · rename_i b hb
      split_ifs at h with hrtd hlt
      cases h
      exact ⟨version, b, row, hb, rfl, hlt, (hs.current_eq_some_iff.mp hver).2, hrow, by simpa using hrtd⟩
    · cases h
  · cases h

/-- A call of `serve` is at its only statement, or has returned. -/
def Serving (hashtext : String → ℤ) (t : ℕ) (call : Call) (p : Txn Db (End Answer)) : Prop :=
  ∀ set current, call = .serve set current → p = call.prog hashtext t ∨ ∃ a, p = .ret a

theorem serving_step (hS : System.ProgramsAt (Serving hashtext) S)
    (h : (system hashtext).step S move = some S') : System.ProgramsAt (Serving hashtext) S' := by
  refine hS.step (fun t call _ set current _ => .inl rfl) (fun t call β act next s b s' hp hact set current hcl => ?_) h
  subst hcl
  rcases hp set current rfl with hp | ⟨a, ha⟩
  · cases hp
    exact .inr ⟨_, rfl⟩
  · cases ha

/-- **The statement of `serve`** answers with what it finds. -/
theorem serves_step (hS : Reached hashtext S) (hser : System.ProgramsAt (Serving hashtext) S)
    (h : (system hashtext).step S (.advance t) = some S')
    (hret : S'.running t = some (.serve set current, .ret (.commit (.served (.envelope bytes))))) :
    S.state.Serves set current bytes := by
  rw [System.step] at h
  split at h
  · cases h
  · cases h
    dsimp only at hret
    rw [Function.update_self] at hret
    cases hret
  rename_i call act next hr
  obtain ⟨⟨b, s⟩, hact, rfl⟩ := map_eq_some_iff.mp h
  dsimp only at hret
  rw [Function.update_self] at hret
  obtain ⟨rfl, hnx⟩ := Prod.mk.inj (some.inj hret)
  rcases hser t _ _ hr set current rfl with hp | ⟨a, ha⟩
  · cases hp
    cases hact
    exact hS.state.serve (Answer.served.inj (End.commit.inj (Txn.ret.inj hnx)))
  · cases ha

/-- **What is published only moves forward.** Versions only go up, stored bundles stay, issuer ids keep their key and
stay removed, and a retired set stays retired; each step stores at most one bundle, whose issuer is trusted then; and
`serve` gives the highest version, above the agent's, of a set that is not retired. -/
theorem rules_only_move_forward (hashtext : String → ℤ) {s : Db} (hs : AtRest s) {before after : List
    (Move ℕ Call Empty)} {S₁ S₂ : Running} (h₁ : run (system hashtext).step (quiet s) before = some S₁)
    (h₂ : run (system hashtext).step S₁ after = some S₂) :
    Later S₁.state S₂.state ∧ ∀ move S₃, (system hashtext).step S₂ move = some S₃ →
      Stores S₂.state S₃.state ∧ ∀ t set current bytes, move = .advance t →
        S₃.running t = some (.serve set current, .ret (.commit (.served (.envelope bytes)))) →
        S₂.state.Serves set current bytes := by
  have hS₁ : Reached hashtext S₁ := (system_safe hashtext).run (hs.reached hashtext) h₁
  have hS₂ : Reached hashtext S₂ := (system_safe hashtext).run hS₁ h₂
  have hser : System.ProgramsAt (Serving hashtext) S₂ :=
    run_invariant (fun _ _ _ => serving_step) (System.programsAt_quiet s) (run_append.mpr ⟨S₁, h₁, h₂⟩)
  refine ⟨later_run hS₁ h₂, fun move S₃ h₃ => ⟨(later_step hS₂ h₃).2, fun t set current bytes hmv hret => ?_⟩⟩
  subst hmv
  exact serves_step hS₂ hser h₃ hret

def emptyDb : Db where
  locks _ := .settled ()
  sets := ⟨fun _ => .settled none, fun _ => []⟩
  keys := ⟨fun _ => .settled none, fun _ => []⟩
  bundles _ := .settled none
  bundleKeys := []

theorem emptyDb_atRest : AtRest emptyDb :=
  ⟨fun _ => rfl, ⟨fun _ => rfl, fun _ => rfl⟩, ⟨fun _ => rfl, fun _ => rfl⟩, fun _ => rfl, nofun⟩

def sampleBundle : NewBundle := ⟨"site", 1, [7], .replicate 32 0, "site.key", 0, 1, "admin"⟩

def adding : List (Move ℕ Call Empty) :=
  .start 0 (.addTrustKey "site" "site.key" (.replicate 32 1)) :: List.replicate 4 (.advance 0)

def publishing : List (Move ℕ Call Empty) :=
  .start 1 (.publish sampleBundle) :: List.replicate 7 (.advance 1) ++ [.start 2 (.serve "site" none)]

theorem answer_sample : ((run (system fun _ => 0).step (quiet emptyDb) (adding ++ publishing ++
    [.advance 2])).bind (answer 2)) = some (.serve "site" none, .commit (.served (.envelope [7]))) := by
  decide +kernel

/-- The bundle is served. -/
theorem rules_only_move_forward_sample : ∃ S₁ S₂ S₃ : Running,
    run (system fun _ => 0).step (quiet emptyDb) adding = some S₁ ∧
    run (system fun _ => 0).step S₁ publishing = some S₂ ∧ (system fun _ => 0).step S₂ (.advance 2) = some S₃ ∧
    S₃.running 2 = some (.serve "site" none, .ret (.commit (.served (.envelope [7])))) ∧
    Later S₁.state S₂.state ∧ Stores S₂.state S₃.state ∧ S₂.state.Serves "site" none [7] := by
  obtain ⟨S₃, hrun, hans⟩ := bind_eq_some_iff.mp answer_sample
  have hret := running_of_answer hans
  obtain ⟨S₂, hrun, hsrv⟩ := run_append.mp hrun
  obtain ⟨S₁, h₁, h₂⟩ := run_append.mp hrun
  obtain ⟨S₃', h₃, hend⟩ := run_cons.mp hsrv
  obtain rfl : S₃' = S₃ := some.inj hend
  obtain ⟨hlat, hst⟩ := rules_only_move_forward (fun _ => 0) emptyDb_atRest h₁ h₂
  obtain ⟨hsto, hserv⟩ := hst (.advance 2) _ h₃
  exact ⟨S₁, S₂, _, h₁, h₂, h₃, hret, hlat, hsto, hserv 2 "site" none [7] rfl hret⟩

end OpenVibes.Store.Rules
