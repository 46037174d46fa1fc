import Mathlib

/-!
# The throttle of sign-ins

The row of one bucket, an account or a source address: `login_is_throttled` and the upsert of `count_failure`
(`crates/platform-store/src/console_auth.rs`), with the window and lock of their callers. The limit is a parameter (5
for an account, 25 for an address). `record_login_failure` and `record_signer_failure`, which call `count_failure` for
each bucket, and the row's deletion by a sign-in that succeeds are left out. Times are in microseconds.
-/

namespace OpenVibes.Store.LoginThrottle

open List Option

/-! ### The row of a bucket -/

/-- A row of `console_auth_throttle`. -/
structure Row where
  (windowStartedAt failures : ℤ)
  lockedUntil : Option ℤ
  updatedAt : ℤ
deriving DecidableEq

/-- `login_is_throttled`, for one bucket. -/
def isLocked (row : Option Row) (now : ℤ) : Bool := row.any fun r => r.lockedUntil.any fun lock => now < lock

/-- The upsert of `count_failure`. -/
def countRow (old : Option Row) (now window failureLimit lockFor : ℤ) : Row :=
  match old with
  | none => ⟨now, 1, if failureLimit ≤ 1 then some (now + lockFor) else none, now⟩
  | some row =>
    { windowStartedAt := if row.windowStartedAt ≤ now - window then now else row.windowStartedAt
      failures := if row.windowStartedAt ≤ now - window then 1 else row.failures + 1
      lockedUntil :=
        if row.windowStartedAt ≤ now - window then if failureLimit ≤ 1 then some (now + lockFor) else none
        else if failureLimit ≤ row.failures + 1 then some (max (row.lockedUntil.getD now) (now + lockFor))
        else row.lockedUntil
      updatedAt := now }

/-- `Duration::minutes(15)`, the window and the length of a lock. -/
def fifteenMinutes : ℤ := 15 * 60 * 1000000

/-- A failure of a bucket with its callers' window and lock. -/
def fail (limit : ℤ) (row : Option Row) (now : ℤ) : Option Row :=
  some (countRow row now fifteenMinutes limit fifteenMinutes)

/-- The row of a bucket after failures at these times. -/
def after (limit : ℤ) (times : List ℤ) : Option Row := times.foldl (fail limit) none

variable {t : ℤ} {us : List ℤ} {r : Row}

section

variable {limit now : ℤ} {row : Row} {ts : List ℤ}

/-- What a row holds after failures: the last is in its window, and the row is locked for a window length exactly when
they have reached the limit. -/
structure Row.Counted (limit : ℤ) (row : Row) : Prop where
  one : 1 ≤ row.failures
  start : row.windowStartedAt ≤ row.updatedAt
  inside : row.updatedAt < row.windowStartedAt + fifteenMinutes
  locked : row.lockedUntil = if limit ≤ row.failures then some (row.updatedAt + fifteenMinutes) else none

def Restarts (row : Option Row) (now : ℤ) : Prop := ∃ r, row = some r ∧ r.windowStartedAt ≤ now - fifteenMinutes

theorem fifteenMinutes_pos : 0 < fifteenMinutes := by decide

theorem countRow_restart (h : row.windowStartedAt ≤ now - fifteenMinutes) :
    countRow (some row) now fifteenMinutes limit fifteenMinutes =
      ⟨now, 1, if limit ≤ 1 then some (now + fifteenMinutes) else none, now⟩ := by
  simp [countRow, h]

theorem countRow_inside (hrow : row.Counted limit) (hnow : row.updatedAt ≤ now)
    (h : ¬row.windowStartedAt ≤ now - fifteenMinutes) :
    countRow (some row) now fifteenMinutes limit fifteenMinutes =
      ⟨row.windowStartedAt, row.failures + 1, if limit ≤ row.failures + 1 then some (now + fifteenMinutes) else none,
          now⟩ := by
  have hpos := fifteenMinutes_pos
  -- the lock that there was ends before the new one
  have hmax : max (row.lockedUntil.getD now) (now + fifteenMinutes) = now + fifteenMinutes := by
    refine max_eq_right ?_
    rw [hrow.locked]
    split_ifs <;> simp <;> omega
  by_cases hlim : limit ≤ row.failures + 1
  · simp [countRow, h, hlim, hmax]
  · have hnn : row.lockedUntil = none := by
      rw [hrow.locked, if_neg (by omega)]
    simp [countRow, h, hlim, hnn]

theorem counted_first : Row.Counted limit ⟨now, 1, if limit ≤ 1 then some (now + fifteenMinutes) else none, now⟩ :=
  ⟨le_rfl, le_rfl, lt_add_of_pos_right now fifteenMinutes_pos, rfl⟩

theorem Row.Counted.count (hrow : row.Counted limit) (hnow : row.updatedAt ≤ now) :
    (countRow (some row) now fifteenMinutes limit fifteenMinutes).Counted limit := by
  by_cases h : row.windowStartedAt ≤ now - fifteenMinutes
  · rw [countRow_restart h]
    exact counted_first
  rw [countRow_inside hrow hnow h]
  have hone := hrow.one
  have hsta := hrow.start
  refine ⟨?_, ?_, ?_, rfl⟩ <;> dsimp only <;> omega

theorem after_append (ts us : List ℤ) : after limit (ts ++ us) = us.foldl (fail limit) (after limit ts) :=
  foldl_append

theorem after_concat (ts : List ℤ) (t : ℤ) : after limit (ts ++ [t]) = fail limit (after limit ts) t := by
  rw [after_append, foldl_cons, foldl_nil]

/-- **Failures in order**: after the last one, the row is as counted. -/
theorem after_counted (hsrt : (ts ++ [t]).Pairwise (· ≤ ·)) :
    ∃ r, after limit (ts ++ [t]) = some r ∧ r.Counted limit ∧ r.updatedAt = t := by
  induction ts using reverseRecOn generalizing t with
  | nil => exact ⟨_, rfl, counted_first, rfl⟩
  | append_singleton ts s ih =>
    obtain ⟨hts, -, hle⟩ := pairwise_append.mp hsrt
    obtain ⟨r, hr, hcnt, hla⟩ := ih hts
    have hst : r.updatedAt ≤ t := hla ▸ hle s (by simp) t (by simp)
    rw [after_concat, hr]
    refine ⟨_, rfl, hcnt.count hst, ?_⟩
    rfl

theorem counted_of_after (hsrt : ts.Pairwise (· ≤ ·)) (hr : after limit ts = some r) :
    r.Counted limit ∧ r.updatedAt ∈ ts := by
  cases ts using reverseRecOn with
  | nil => cases hr
  | append_singleton ts t =>
    obtain ⟨r', hr', hcnt, hla⟩ : ∃ r, after limit _ = some r ∧ _ := after_counted hsrt
    obtain rfl := mem_unique hr hr'
    exact ⟨hcnt, hla ▸ by simp⟩

end

/-! ### How long a lock lasts -/

section

variable {limit : ℤ} {ts : List ℤ} {row : Option Row}

/-- Once the bucket is locked until some time, it is locked until then. -/
def StaysLocked (limit : ℤ) (ts : List ℤ) : Prop :=
  ∀ before during rest r lock now later, ts = before ++ during ++ rest → (∀ t ∈ before, t ≤ now) →
    (∀ t ∈ during, now ≤ t ∧ t ≤ later) → now ≤ later → after limit before = some r → r.lockedUntil = some lock →
    now < lock → later < lock → isLocked (after limit (before ++ during)) later = true

/-- No failure starts a new window while the bucket is locked, unless it locks it anew. -/
def KeepsWindow (limit : ℤ) (ts : List ℤ) : Prop :=
  ∀ before t rest, ts = before ++ t :: rest → isLocked (after limit before) t = true →
    Restarts (after limit before) t → limit ≤ 1

theorem isLocked_iff {now : ℤ} :
    isLocked row now = true ↔ ∃ r lock, row = some r ∧ r.lockedUntil = some lock ∧ now < lock := by
  simp [isLocked, Option.any_eq_true]

theorem fail_locked (hr : r.Counted limit) {lock : ℤ} (ht : r.updatedAt ≤ t)
    (hlk : r.lockedUntil = some lock) (hwin : Restarts (some r) t → limit ≤ 1) :
    ∃ r' lock', fail limit (some r) t = some r' ∧ r'.lockedUntil = some lock' ∧ lock ≤ lock' := by
  have hlim : limit ≤ r.failures ∧ lock = r.updatedAt + fifteenMinutes := by
    have h := hr.locked
    rw [hlk] at h
    split_ifs at h with hlim
    exact ⟨hlim, some.inj h⟩
  by_cases h : r.windowStartedAt ≤ t - fifteenMinutes
  · have hone : limit ≤ 1 := hwin ⟨r, rfl, h⟩
    refine ⟨_, t + fifteenMinutes, congrArg some (countRow_restart h), by simp [hone], by omega⟩
  · refine ⟨_, t + fifteenMinutes, congrArg some (countRow_inside hr ht h), ?_, by omega⟩
    simp only
    rw [if_pos (by omega)]

/-- **A lock lasts** exactly when no new window starts under it. -/
theorem staysLocked_iff (hsrt : ts.Pairwise (· ≤ ·)) : StaysLocked limit ts ↔ KeepsWindow limit ts := by
  constructor
  · intro h before t rest hts hlkd hres
    by_contra hlim
    obtain ⟨r, lock, hr, hlk, hlt⟩ := isLocked_iff.mp hlkd
    obtain ⟨r', hr', hsta⟩ := hres
    obtain rfl := mem_unique hr hr'
    have hbef : ∀ s ∈ before, s ≤ t := by
      subst hts
      exact fun s hs => (pairwise_append.mp hsrt).2.2 s hs t (by simp)
    have hkp := h before [t] rest r lock t t (by simp [hts]) hbef (by simp) le_rfl hr hlk hlt hlt
    rw [after_concat, hr, fail, countRow_restart hsta] at hkp
    simp [isLocked, hlim] at hkp
  intro h before during rest r lock now later hts hbef hdur hle hr hlk hlt hlat
  -- by the failures while it is locked: the end of the lock does not come nearer
  suffices hlkd : ∃ r' lock', after limit (before ++ during) = some r' ∧ r'.lockedUntil = some lock' ∧ lock ≤ lock' by
    obtain ⟨r', lock', hr', hlk', hle'⟩ := hlkd
    exact isLocked_iff.mpr ⟨r', lock', hr', hlk', hlat.trans_le hle'⟩
  induction during using reverseRecOn generalizing rest with
  | nil => exact ⟨r, lock, by simpa using hr, hlk, le_rfl⟩
  | append_singleton during t ih =>
    obtain ⟨r', lock', hr', hlk', hle'⟩ := ih (t :: rest) (by simp [hts]) fun s hs => hdur s (mem_append_left _ hs)
    rw [hts, ← append_assoc] at hsrt
    obtain ⟨hps, -, hla⟩ := pairwise_append.mp (pairwise_append.mp hsrt).1
    obtain ⟨hcnt, hmem⟩ := counted_of_after hps hr'
    have hlkd : isLocked (after limit (before ++ during)) t = true :=
      isLocked_iff.mpr ⟨r', lock', hr', hlk', ((hdur t (by simp)).2.trans_lt hlat).trans_le hle'⟩
    obtain ⟨r'', lock'', hr'', hlk'', hle''⟩ := fail_locked hcnt (hla _ hmem t (by simp)) hlk' fun hres =>
      h (before ++ during) t rest (by simp [hts]) hlkd (hr' ▸ hres)
    exact ⟨r'', lock'', by rw [← append_assoc, after_concat, hr', hr''], hlk'', hle'.trans hle''⟩

/-! ### When a lock comes -/

/-- Right after as many failures within a window length as the limit, the bucket is locked. -/
def LocksInTime (limit : ℤ) (ts : List ℤ) : Prop :=
  ∀ before burst t rest, ts = before ++ burst ++ t :: rest → (burst.length : ℤ) + 1 = limit →
    (∀ s ∈ burst, t < s + fifteenMinutes) → isLocked (after limit (before ++ burst ++ [t])) t = true

/-- Among as many failures within a window length as the limit, none but the first starts a new window. -/
def OneWindow (limit : ℤ) (ts : List ℤ) : Prop :=
  ∀ before burst t rest, ts = before ++ burst ++ t :: rest → (burst.length : ℤ) + 1 = limit →
    (∀ s ∈ burst, t < s + fifteenMinutes) →
    ∀ first s last, burst ++ [t] = first ++ s :: last → first ≠ [] → ¬Restarts (after limit (before ++ first)) s

def failures (row : Option Row) : ℤ := row.elim 0 Row.failures

theorem failures_fail_of_not_restarts (h : ¬Restarts row t) : failures (fail limit row t) = failures row + 1 := by
  cases row with
  | none => rfl
  | some r =>
    have h' : ¬r.windowStartedAt ≤ t - fifteenMinutes := fun hr => h ⟨r, rfl, hr⟩
    simp [failures, fail, countRow, h']

theorem failures_fail_of_restarts (h : Restarts row t) : failures (fail limit row t) = 1 := by
  obtain ⟨r, rfl, hr⟩ := h
  simp [failures, fail, countRow, hr]

theorem failures_foldl_eq (h : ∀ first s last, us = first ++ s :: last → ¬Restarts (first.foldl (fail limit) row) s) :
    failures (us.foldl (fail limit) row) = failures row + us.length := by
  induction us generalizing row with
  | nil => simp
  | cons u us ih =>
    have hu : failures (fail limit row u) = failures row + 1 := failures_fail_of_not_restarts (h [] u us rfl)
    rw [foldl_cons, ih fun first s last hus => h (u :: first) s last (by simp [hus]), hu, length_cons]
    push_cast
    omega

theorem failures_foldl_le (hone : 1 ≤ failures row) :
    failures (us.foldl (fail limit) row) ≤ failures row + us.length := by
  induction us generalizing row with
  | nil => simp
  | cons u us ih =>
    rw [foldl_cons, length_cons]
    push_cast
    by_cases hu : Restarts row u
    · have hsta : failures (fail limit row u) = 1 := failures_fail_of_restarts hu
      have := ih (show 1 ≤ failures (fail limit row u) by omega)
      omega
    · have hnx : failures (fail limit row u) = failures row + 1 := failures_fail_of_not_restarts hu
      have := ih (show 1 ≤ failures (fail limit row u) by omega)
      omega

/-- Right after a failure, the bucket is locked exactly when the failures have reached the limit. -/
theorem isLocked_after_iff (hsrt : (us ++ [t]).Pairwise (· ≤ ·)) :
    isLocked (after limit (us ++ [t])) t = true ↔ limit ≤ failures (after limit (us ++ [t])) := by
  obtain ⟨r, hr, hcnt, rfl⟩ : ∃ r, after limit _ = some r ∧ _ := after_counted hsrt
  have hpos := fifteenMinutes_pos
  rw [hr]
  simp only [isLocked, failures, any_some, elim_some, hcnt.locked]
  split_ifs with hlim <;> simp [hlim, hpos]

/-- **A lock comes in time** exactly when the failures are of one window. -/
theorem locksInTime_iff (hsrt : ts.Pairwise (· ≤ ·)) : LocksInTime limit ts ↔ OneWindow limit ts := by
  have hpr : ∀ {before burst : List ℤ} {t : ℤ} {rest : List ℤ}, ts = before ++ burst ++ t :: rest →
      (before ++ burst ++ [t]).Pairwise (· ≤ ·) := by
    intro before burst t rest hts
    rw [hts, ← singleton_append, ← append_assoc] at hsrt
    exact (pairwise_append.mp hsrt).1
  constructor
  · intro h before burst t rest hts hlen hwth first s last hspl hfst hres
    have hlkd := (isLocked_after_iff (hpr hts)).mp (h before burst t rest hts hlen hwth)
    -- the failures since the new window are fewer than the limit
    have hct := congrArg length hspl
    have hpos := length_pos_iff.mpr hfst
    simp only [length_append, length_cons, length_nil] at hct
    have hsta : failures (fail limit (after limit (before ++ first)) s) = 1 := failures_fail_of_restarts hres
    have hle : failures (last.foldl (fail limit) _) ≤ _ := failures_foldl_le hsta.ge
    rw [append_assoc, hspl, ← append_assoc, after_append, foldl_cons] at hlkd
    omega
  intro h before burst t rest hts hlen hwth
  refine (isLocked_after_iff (hpr hts)).mpr ?_
  obtain ⟨u, us, hus⟩ := exists_cons_of_ne_nil (show burst ++ [t] ≠ [] by simp)
  have hkp : failures (us.foldl (fail limit) (after limit (before ++ [u]))) =
      failures (after limit (before ++ [u])) + us.length := by
    refine failures_foldl_eq fun first s last hla => ?_
    have hnew := h before burst t rest hts hlen hwth (u :: first) s last (by rw [hus, hla]; rfl) (by simp)
    rwa [← singleton_append, ← append_assoc, after_append] at hnew
  have hct := congrArg length hus
  simp only [length_append, length_cons, length_nil] at hct
  have hone : 1 ≤ failures (after limit (before ++ [u])) := by
    have hu : (before ++ [u]).Pairwise (· ≤ ·) := by
      have hall := hpr hts
      rw [append_assoc, hus, ← singleton_append, ← append_assoc] at hall
      exact (pairwise_append.mp hall).1
    obtain ⟨r, hr, hcnt, -⟩ : ∃ r, after limit _ = some r ∧ _ := after_counted hu
    rw [hr]
    exact hcnt.one
  rw [append_assoc, hus, ← singleton_append, ← append_assoc, after_append, hkp]
  omega

end

/-- **When a locked bucket stays locked.** For failures in order of time, from no row: a lock lasts until its end, and
comes right after as many failures within a window length as the limit, exactly when no failure starts a new window
under a lock and none but the first of such failures starts one. -/
theorem lock_holds_iff {limit : ℤ} {ts : List ℤ} (hsrt : ts.Pairwise (· ≤ ·)) :
    StaysLocked limit ts ∧ LocksInTime limit ts ↔ KeepsWindow limit ts ∧ OneWindow limit ts :=
  and_congr (staysLocked_iff hsrt) (locksInTime_iff hsrt)

def minutes (m : ℤ) : ℤ := m * 60 * 1000000

def fiveFailures : List ℤ := [0, minutes 10, minutes 10, minutes 10, minutes 10]

/-- Five failures within a window lock the bucket for as long. -/
theorem lock_holds_iff_sample :
    fiveFailures.Pairwise (· ≤ ·) ∧ isLocked (after 5 fiveFailures) (minutes 24) = true ∧
      (StaysLocked 5 fiveFailures ∧ LocksInTime 5 fiveFailures ↔ KeepsWindow 5 fiveFailures ∧
          OneWindow 5 fiveFailures) :=
  ⟨by decide, by decide, lock_holds_iff (by decide)⟩

/-- **A locked account does not stay locked, and need not be locked at all.** Five failures lock it until the 25th
minute, and one at the 15th starts a new window. And of five failures between the 14th and the 16th minute, a new window
at the 15th forgets the first three. -/
theorem lock_is_lost :
    ¬StaysLocked 5 (fiveFailures ++ [minutes 15]) ∧
      ¬LocksInTime 5 [0, minutes 14, minutes 14, minutes 14, minutes 15, minutes 16] := by
  constructor
  · intro h
    have hlkd := h fiveFailures [minutes 15] [] ⟨0, 5, some (minutes 25), minutes 10⟩ (minutes 25) (minutes 15)
      (minutes 15) (by decide) (by decide) (by decide) (by decide) (by decide) (by decide) (by decide) (by decide)
    exact absurd hlkd (by decide)
  · intro h
    have hlkd := h [0] [minutes 14, minutes 14, minutes 14, minutes 15] (minutes 16) [] (by decide) (by decide)
      (by decide)
    exact absurd hlkd (by decide)

end OpenVibes.Store.LoginThrottle
