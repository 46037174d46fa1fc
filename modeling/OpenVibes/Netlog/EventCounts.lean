import OpenVibes.Netlog.Collapse
import OpenVibes.Theory.Tally

/-!
# Every network event is counted once

After a flush that succeeds, the stored alarms of a device, signature and source count what the collapser counted — if
no two of its alarms were created in one millisecond, of which their ids are made. A generation is an alarm from its
creation on; a row holds the largest count of those with its id (`Holds`), so that rows and generations tally
(`Theory.Tally`).
-/

namespace OpenVibes.Netlog

open Theory Store Store.DeviceAlarms List Option

/-! ### Ids -/

theorem append_cons_inj {α : Type*} {x : α} {a a' b b' : List α} (hb : x ∉ b) (hb' : x ∉ b')
    (h : a ++ x :: b = a' ++ x :: b') : a = a' ∧ b = b' := by
  rcases append_eq_append_iff.mp h with ⟨c, rfl, hc⟩ | ⟨c, rfl, hc⟩ <;> cases c with
  | nil => simp_all
  | cons y c =>
    have htl := (cons.inj hc).2
    simp_all

theorem isDigit_of_mem_repr {n : ℕ} {c : Char} (h : c ∈ n.repr.toList) : c.isDigit = true := by
  rw [Nat.toList_repr] at h
  exact Nat.isDigit_of_mem_toDigits (by decide) (by decide) h

theorem slash_not_mem_toString (n : ℤ) : '/' ∉ (toString n).toList := fun h => by
  have hdig : ∀ k : ℕ, '/' ∉ k.repr.toList := fun k hk => absurd (isDigit_of_mem_repr hk) (by decide)
  rw [Int.toString_eq_repr, Int.repr_eq_if] at h
  split_ifs at h
  · exact hdig _ h
  · simp only [String.toList_append, mem_append] at h
    exact h.elim (by decide) (hdig _)

variable {ms : ℤ}

variable {ms' deviceId : ℤ} {k' : Key} {stored : List DeviceAlarm} {ips : Ips} {maxKeys : ℕ} {c : Collapser}
  {rows : List DeviceAlarms.Entry} {sig sig' : String}

/-- **An id gives back its signature, source and millisecond.** -/
theorem alarmId_inj {src src' : IpAddr} (h : alarmId sig src ms = alarmId sig' src' ms') :
    sig = sig' ∧ src = src' ∧ ms = ms' := by
  rw [alarmId, alarmId, ← String.toList_inj] at h
  have hspl : ∀ (sig : String) (src : IpAddr) (ms : ℤ), (sig ++ "/" ++ src.text ++ "/" ++ toString ms).toList =
      (sig.toList ++ '/' :: src.text.toList) ++ '/' :: (toString ms).toList := fun sig src ms => by simp
  rw [hspl, hspl] at h
  obtain ⟨hfrn, hms⟩ := append_cons_inj (slash_not_mem_toString ms) (slash_not_mem_toString ms') h
  obtain ⟨hsig, hsrc⟩ := append_cons_inj src.plain src'.plain hfrn
  obtain ⟨text, plain⟩ := src
  obtain ⟨text', plain'⟩ := src'
  obtain rfl : text = text' := String.toList_inj.mp hsrc
  exact ⟨String.toList_inj.mp hsig, rfl, Int.repr_injective (String.toList_inj.mp hms)⟩

/-! ### Generations -/

structure Generation where
  key : Key
  millis : ℤ
  count : ℕ

def generation (p : Key × Entry) : Generation := ⟨p.1, timestampMillis p.2.alarm.firstSeen, p.2.alarm.count⟩

/-- An alarm is of a key, and was created in a millisecond. -/
structure Named (a : DeviceAlarm) (key : Key) (millis : ℤ) : Prop where
  deviceId : a.deviceId = key.deviceId
  alarmId : a.alarmId = Netlog.alarmId key.signatureId key.src millis
  ruleId : a.ruleId = Netlog.ruleId key.signatureId
  src : a.network.src = key.src.text

variable {a : DeviceAlarm} {k : Key}

theorem Named.unique {b : DeviceAlarm} (ha : Named a k ms) (hb : Named b k' ms') (hdev : a.deviceId = b.deviceId)
    (hid : a.alarmId = b.alarmId) : k' = k ∧ ms' = ms := by
  obtain ⟨device, sig, src⟩ := k
  obtain ⟨device', sig', src'⟩ := k'
  obtain ⟨rfl, rfl, rfl⟩ := alarmId_inj (ha.alarmId.symm.trans (hid.trans hb.alarmId))
  obtain rfl : device = device' := ha.deviceId.symm.trans (hdev.trans hb.deviceId)
  exact ⟨rfl, rfl⟩

theorem Named.raised {old : DeviceAlarm} (hold : Named old k ms) (ha : Named a k ms) : Named (old.raised a) k ms where
  deviceId := hold.deviceId
  alarmId := hold.alarmId
  ruleId := hold.ruleId
  src := by
    rw [DeviceAlarm.raised]
    dsimp only
    split
    · exact ha.src
    · exact hold.src

def Covered (stored : List DeviceAlarm) (g : Generation) : Prop :=
  ∃ a ∈ stored, Named a g.key g.millis ∧ g.count ≤ a.count

structure StoredOf (G : List Generation) (stored : List DeviceAlarm) : Prop where
  nodup : (stored.map fun a => (a.deviceId, a.alarmId)).Nodup
  counted : ∀ a ∈ stored, ∃ g ∈ G, Named a g.key g.millis ∧ a.count ≤ g.count

variable {G G' : List Generation}

theorem StoredOf.mono (h : StoredOf G stored)
    (hG : ∀ g ∈ G, ∃ g' ∈ G', g'.key = g.key ∧ g'.millis = g.millis ∧ g.count ≤ g'.count) : StoredOf G' stored where
  nodup := h.nodup
  counted := fun a ha => by
    obtain ⟨g, hg, hnam, hle⟩ := h.counted a ha
    obtain ⟨g', hg', hkey, hmil, hle'⟩ := hG g hg
    exact ⟨g', hg', by rwa [hkey, hmil], hle.trans hle'⟩

/-! ### A batch -/

variable {g : Generation}

section

variable {parts : ℤ → Bool} (supps : List DeviceSuppression) (now : Time)
  {s : List DeviceAlarms.Entry × DeviceStored}

/-- A batch leaves the stored alarms with the generations, and forgets no count. -/
structure Stores (G : List Generation) (stored stored' : List DeviceAlarm) : Prop where
  storedOf : StoredOf G stored'
  kept : ∀ g, Covered stored g → Covered stored' g

theorem insertOne_stores (hpar : ∀ day, parts day)
    (h : StoredOf G (alarms s.1)) (hg : g ∈ G) (ha : Named a g.key g.millis) (hct : a.count = g.count) :
    Stores G (alarms s.1) (alarms (insertOne parts supps now s a).1) ∧
      Covered (alarms (insertOne parts supps now s a).1) g := by
  rcases insertOne_cases supps now s (hpar (Alarms.dayOf a.firstSeen)) with
    ⟨pre, old, post, hrw, hdev, hid, hrw'⟩ | ⟨hnn, hrw'⟩ <;> rw [hrw']
  · rw [hrw] at h ⊢
    have hmem : old ∈ pre ++ old :: post := by simp
    have hmem' : old.raised a ∈ pre ++ old.raised a :: post := by simp
    obtain ⟨g₀, hg₀, hnam, hle⟩ := h.counted old hmem
    obtain ⟨hkey, hmil⟩ := ha.unique hnam hdev.symm hid.symm
    have hrsd : Named (old.raised a) g.key g.millis := (hkey ▸ hmil ▸ hnam).raised ha
    have hmax : (old.raised a).count = max old.count a.count := rfl
    refine ⟨⟨⟨?_, fun b hb => ?_⟩, fun x hx => ?_⟩, old.raised a, hmem', hrsd, by omega⟩
    · simpa [DeviceAlarm.raised] using h.nodup
    · rcases mem_append.mp hb with hb | hb
      · exact h.counted b (mem_append_left _ hb)
      rcases mem_cons.mp hb with rfl | hb
      · rcases Nat.le_total old.count a.count with hc | hc
        · exact ⟨g, hg, hrsd, by omega⟩
        · exact ⟨g₀, hg₀, by rwa [hkey, hmil], by omega⟩
      · exact h.counted b (mem_append_right _ (mem_cons_of_mem _ hb))
    · obtain ⟨b, hb, hbx, hble⟩ := hx
      rcases mem_append.mp hb with hb | hb
      · exact ⟨b, mem_append_left _ hb, hbx, hble⟩
      rcases mem_cons.mp hb with rfl | hb
      · obtain ⟨hkey', hmil'⟩ := ha.unique hbx hdev.symm hid.symm
        exact ⟨b.raised a, hmem', by rwa [hkey', hmil'], by omega⟩
      · exact ⟨b, mem_append_right _ (mem_cons_of_mem _ hb), hbx, hble⟩
  · refine ⟨⟨⟨?_, fun b hb => ?_⟩, fun x hx => ?_⟩, a, by simp, ha, hct.ge⟩
    · rw [map_append, nodup_append]
      refine ⟨h.nodup, by simp, fun x hx y hy => ?_⟩
      obtain ⟨old, hold, rfl⟩ := mem_map.mp hx
      obtain rfl := mem_singleton.mp hy
      exact fun heq => hnn old hold (Prod.mk.inj heq)
    · rcases mem_append.mp hb with hb | hb
      · exact h.counted b hb
      · obtain rfl := mem_singleton.mp hb
        exact ⟨g, hg, ha, hct.le⟩
    · obtain ⟨b, hb, hbx⟩ := hx
      exact ⟨b, mem_append_left _ hb, hbx⟩

theorem insertAll_stores (hpar : ∀ day, parts day) {batch : List DeviceAlarm} (h : StoredOf G (alarms s.1))
    (hbat : ∀ a ∈ batch, ∃ g ∈ G, Named a g.key g.millis ∧ a.count = g.count) :
    Stores G (alarms s.1) (alarms (batch.foldl (insertOne parts supps now) s).1) ∧
      ∀ a ∈ batch, ∀ g ∈ G, Named a g.key g.millis → a.count = g.count →
        Covered (alarms (batch.foldl (insertOne parts supps now) s).1) g := by
  induction batch generalizing s with
  | nil => exact ⟨⟨h, fun _ hx => hx⟩, fun _ ha => absurd ha not_mem_nil⟩
  | cons a batch ih =>
    obtain ⟨g, hg, ha, hct⟩ := hbat a mem_cons_self
    have hone := insertOne_stores supps now hpar h hg ha hct
    obtain ⟨hrs, hcov⟩ := ih hone.1.storedOf fun b hb => hbat b (mem_cons_of_mem _ hb)
    refine ⟨⟨hrs.storedOf, fun x hx => hrs.kept x (hone.1.kept x hx)⟩, fun b hb g' hg' hb' hct' => ?_⟩
    rcases mem_cons.mp hb with rfl | hb
    · exact hrs.kept g' (insertOne_stores supps now hpar h hg' hb' hct').2
    · exact hcov b hb g' hg' hb' hct'

end

/-! ### The invariant -/

/-- All generations: those that left the map and those in it. -/
def generations (s : State) (past : List Generation) : List Generation := past ++ s.collapser.opened.map generation

/-- What holds of netlog and the database, with the generations that left the map. -/
structure Holds (s : State) (past : List Generation) : Prop where
  keys : (s.collapser.opened.map Prod.fst).Nodup
  size : s.collapser.opened.length ≤ s.collapser.maxKeys
  named : ∀ p ∈ s.collapser.opened, Named p.2.alarm p.1 (timestampMillis p.2.alarm.firstSeen)
  pos : ∀ g ∈ generations s past, 0 < g.count
  clean : ∀ p ∈ s.collapser.opened, p.2.dirty = false → Covered (alarms s.rows) (generation p)
  gone : ∀ g ∈ past, Covered (alarms s.rows) g
  stored : StoredOf (generations s past) (alarms s.rows)

def ofKey (key : Key) (G : List Generation) : List Generation := G.filter fun g => g.key = key

structure Logged (G : List Generation) (log : List Counted) : Prop where
  count : ∀ k, (eventsOf k log).length = ((ofKey k G).map Generation.count).sum
  created : ∀ k, ((eventsOf k log).filterMap Counted.created).Perm ((ofKey k G).map Generation.millis)

def Invariant (s : State) (log : List Counted) : Prop :=
  (∀ day, s.partitions day) ∧ ∃ past, Holds s past ∧ Logged (generations s past) log

variable {log : List Counted}

theorem Logged.perm (h : Logged G log) (hG : G.Perm G') : Logged G' log where
  count := fun k => (h.count k).trans ((hG.filter _).map _).sum_eq
  created := fun k => (h.created k).trans ((hG.filter _).map _)

theorem StoredOf.perm (h : StoredOf G stored) (hG : G.Perm G') : StoredOf G' stored :=
  h.mono fun g hg => ⟨g, hG.mem_iff.mp hg, rfl, rfl, le_rfl⟩

def State.withOpened (s : State) (opened : List (Key × Entry)) : State := { s with collapser.opened := opened }

variable {s : State}

theorem Invariant.drop (h : Invariant s log) {keep : Key × Entry → Bool}
    (hkp : ∀ p ∈ s.collapser.opened, keep p = false → p.2.dirty = false) :
    Invariant (s.withOpened (s.collapser.opened.filter keep)) log := by
  obtain ⟨hpar, past, h, hlog⟩ := h
  set dropped := s.collapser.opened.filter fun p => !keep p
  have hpm : (generations s past).Perm
      (generations (s.withOpened (s.collapser.opened.filter keep)) (past ++ dropped.map generation)) := by
    simp only [generations, append_assoc]
    refine .append_left past ?_
    rw [← map_append]
    exact ((filter_append_perm keep s.collapser.opened).symm.trans perm_append_comm).map generation
  have hsub : ∀ p ∈ s.collapser.opened.filter keep, p ∈ s.collapser.opened := fun p hp => (mem_filter.mp hp).1
  refine ⟨hpar, past ++ dropped.map generation, ⟨?_, ?_, ?_, ?_, ?_, ?_, h.stored.perm hpm⟩, hlog.perm hpm⟩
  · exact h.keys.sublist (filter_sublist.map Prod.fst)
  · exact (length_filter_le _ _).trans h.size
  · exact fun p hp => h.named p (hsub p hp)
  · exact fun g hg => h.pos g (hpm.mem_iff.mpr hg)
  · exact fun p hp => h.clean p (hsub p hp)
  · intro g hg
    rcases mem_append.mp hg with hg | hg
    · exact h.gone g hg
    · obtain ⟨p, hp, rfl⟩ := mem_map.mp hg
      obtain ⟨hp, hdr⟩ := mem_filter.mp hp
      exact h.clean p hp (hkp p hp (by simpa using hdr))

theorem Invariant.reorder (h : Invariant s log) {opened : List (Key × Entry)} (hpm : opened.Perm s.collapser.opened) :
    Invariant (s.withOpened opened) log := by
  obtain ⟨hpar, past, h, hlog⟩ := h
  have hall : (generations s past).Perm (generations (s.withOpened opened) past) :=
    (hpm.symm.map generation).append_left past
  refine ⟨hpar, past, ⟨?_, ?_, ?_, ?_, ?_, h.gone, h.stored.perm hall⟩, hlog.perm hall⟩
  · exact (hpm.map Prod.fst).nodup_iff.mpr h.keys
  · exact hpm.length_eq.trans_le h.size
  · exact fun p hp => h.named p (hpm.mem_iff.mp hp)
  · exact fun g hg => h.pos g (hall.mem_iff.mpr hg)
  · exact fun p hp => h.clean p (hpm.mem_iff.mp hp)

theorem Logged.again {A B : List Generation} (h : Logged (A ++ g :: B) log) :
    Logged (A ++ { g with count := g.count + 1 } :: B) (log ++ [⟨g.key, none⟩]) where
  count := fun k => by
    have hk := h.count k
    by_cases hg : g.key = k <;> simp [eventsOf, ofKey, filter_append, hg] at hk ⊢ <;> omega
  created := fun k => by
    have hk := h.created k
    by_cases hg : g.key = k <;> simpa [eventsOf, ofKey, filter_append, filter_cons, hg] using hk

theorem Logged.create (h : Logged G log) (key : Key) (millis : ℤ) :
    Logged (G ++ [⟨key, millis, 1⟩]) (log ++ [⟨key, some millis⟩]) where
  count := fun k => by
    have hk := h.count k
    by_cases hg : key = k <;> simp [eventsOf, ofKey, filter_append, hg] at hk ⊢ <;> omega
  created := fun k => by
    have hk := h.created k
    by_cases hg : key = k
    · simpa [eventsOf, ofKey, filter_append, filter_cons, hg] using hk.append_right [millis]
    · simpa [eventsOf, ofKey, filter_append, filter_cons, hg] using hk

variable {now : Time}

theorem Invariant.again (h : Invariant s log) {pre post : List (Key × Entry)} {e : Entry}
    (hopd : s.collapser.opened = pre ++ (ips.key deviceId, e) :: post) :
    Invariant (s.withOpened (pre ++ (ips.key deviceId, e.again ips now) :: post))
      (log ++ [⟨ips.key deviceId, none⟩]) := by
  obtain ⟨hpar, past, h, hlog⟩ := h
  set g := generation (ips.key deviceId, e)
  have hbef : generations s past = (past ++ pre.map generation) ++ g :: post.map generation := by
    simp [generations, hopd, g]
  have haft : generations (s.withOpened (pre ++ (ips.key deviceId, e.again ips now) :: post)) past =
      (past ++ pre.map generation) ++ { g with count := g.count + 1 } :: post.map generation := by
    simp [generations, State.withOpened, g, generation, Entry.again]
  -- every entry but the one that counts the event is as before
  have hold : ∀ p ∈ pre ++ (ips.key deviceId, e.again ips now) :: post,
      p = (ips.key deviceId, e.again ips now) ∨ p ∈ s.collapser.opened := by
    intro p hp
    rw [hopd]
    simp only [mem_append, mem_cons] at hp ⊢
    tauto
  have he : (ips.key deviceId, e) ∈ s.collapser.opened := by simp [hopd]
  refine ⟨hpar, past, ⟨?_, ?_, fun p hp => ?_, fun x hx => ?_, fun p hp hcl => ?_, h.gone, ?_⟩, ?_⟩
  · simpa [State.withOpened, hopd] using h.keys
  · simpa [State.withOpened, hopd] using h.size
  · rcases hold p hp with rfl | hp
    · exact ⟨(h.named _ he).deviceId, (h.named _ he).alarmId, (h.named _ he).ruleId, rfl⟩
    · exact h.named p hp
  · rw [haft] at hx
    have hpos := h.pos
    simp only [hbef, mem_append, mem_cons] at hpos hx
    rcases hx with hx | rfl | hx
    · exact hpos x (.inl hx)
    · exact Nat.succ_pos _
    · exact hpos x (.inr (.inr hx))
  · rcases hold p hp with rfl | hp
    · cases hcl
    · exact h.clean p hp hcl
  · have hsto := h.stored
    rw [hbef] at hsto
    rw [haft]
    refine hsto.mono fun x hx => ?_
    simp only [mem_append, mem_cons] at hx
    rcases hx with hx | rfl | hx
    · exact ⟨x, mem_append_left _ (mem_append.mpr hx), rfl, rfl, le_rfl⟩
    · exact ⟨{ g with count := g.count + 1 }, by simp, rfl, rfl, Nat.le_succ _⟩
    · exact ⟨x, mem_append_right _ (mem_cons_of_mem _ hx), rfl, rfl, le_rfl⟩
  · rw [haft]
    rw [hbef] at hlog
    exact hlog.again

theorem Invariant.create (h : Invariant s log) (hnew : ips.key deviceId ∉ s.collapser.opened.map Prod.fst)
    (hrm : s.collapser.opened.length < s.collapser.maxKeys) :
    Invariant (s.withOpened (s.collapser.opened ++ [(ips.key deviceId, ⟨ips.alarm deviceId now, true⟩)]))
      (log ++ [⟨ips.key deviceId, some (timestampMillis now)⟩]) := by
  obtain ⟨hpar, past, h, hlog⟩ := h
  have haft : generations (s.withOpened (s.collapser.opened ++ [(ips.key deviceId, ⟨ips.alarm deviceId now, true⟩)]))
      past = generations s past ++ [⟨ips.key deviceId, timestampMillis now, 1⟩] := by
    simp [generations, State.withOpened, generation, Ips.alarm]
  refine ⟨hpar, past, ⟨?_, ?_, fun p hp => ?_, fun g hg => ?_, fun p hp hcl => ?_, h.gone, ?_⟩, ?_⟩
  · rw [State.withOpened, map_append]
    refine nodup_append.mpr ⟨h.keys, nodup_singleton _, fun k hk k' hk' => ?_⟩
    obtain rfl := mem_singleton.mp hk'
    exact fun heq : k = ips.key deviceId => hnew (heq ▸ hk)
  · rw [State.withOpened, length_append]
    exact hrm
  · rcases mem_append.mp hp with hp | hp
    · exact h.named p hp
    · obtain rfl := mem_singleton.mp hp
      exact ⟨rfl, rfl, rfl, rfl⟩
  · rw [haft] at hg
    rcases mem_append.mp hg with hg | hg
    · exact h.pos g hg
    · obtain rfl := mem_singleton.mp hg
      exact Nat.one_pos
  · rcases mem_append.mp hp with hp | hp
    · exact h.clean p hp hcl
    · obtain rfl := mem_singleton.mp hp
      cases hcl
  · rw [haft]
    exact h.stored.mono fun g hg => ⟨g, mem_append_left _ hg, rfl, rfl, le_rfl⟩
  · rw [haft]
    exact hlog.create _ _

/-! ### What an event does -/

variable {p : Key × Entry}

theorem oldest_mem {entries : List (Key × Entry)} (h : oldest entries = some p) : p ∈ entries ∧ p.2.dirty = false := by
  -- the best entry so far is the one the fold starts with or one of the list
  have hfd : ∀ (l : List (Key × Entry)) (best : Option (Key × Entry)) (q : Key × Entry),
      l.foldl older best = some q → q ∈ l ∨ best = some q := by
    intro l
    induction l with
    | nil => exact fun best q h => .inr h
    | cons x l ih =>
      intro best q h
      rcases ih _ q h with hq | hq
      · exact .inl (mem_cons_of_mem _ hq)
      cases best with
      | none => exact .inl (some.inj hq ▸ mem_cons_self)
      | some b =>
        rw [older] at hq
        split at hq
        · exact .inl (some.inj hq ▸ mem_cons_self)
        · exact .inr hq
  rcases hfd _ none p h with hp | hp
  · obtain ⟨hp, hcl⟩ := mem_filter.mp hp
    exact ⟨hp, by simpa using hcl⟩
  · cases hp

theorem makeRoom_eq_some {entries room : List (Key × Entry)} (hky : (entries.map Prod.fst).Nodup)
    (hsz : entries.length ≤ maxKeys) (h : makeRoom entries maxKeys = some room) :
    ∃ keep : Key × Entry → Bool, room = entries.filter keep ∧ room.length < maxKeys ∧
      ∀ p ∈ entries, keep p = false → p.2.dirty = false := by
  rw [makeRoom] at h
  split_ifs at h with hfu
  · obtain ⟨old, hold, rfl⟩ := map_eq_some_iff.mp h
    obtain ⟨hmem, hcl⟩ := oldest_mem hold
    refine ⟨fun p => decide (p.1 ≠ old.1), rfl, ?_, fun p hp hkp => ?_⟩
    · refine lt_of_lt_of_le ?_ hsz
      exact length_filter_lt_length_iff_exists.mpr ⟨old, hmem, by simp⟩
    · have : p = old := inj_on_of_nodup_map hky hp hmem (by simpa using hkp)
      rwa [this]
  · cases h
    exact ⟨fun _ => true, by simp, by omega, fun p _ hkp => by cases hkp⟩

/-- What `add` does: it counts into the open alarm, drops the event, or creates an alarm. -/
theorem add_cases (hky : (c.opened.map Prod.fst).Nodup) (hsz : c.opened.length ≤ c.maxKeys) (deviceId : ℤ)
    (ips : Ips) (now : Time) : (∃ pre e post, c.retained now = pre ++ (ips.key deviceId, e) :: post ∧
        c.add deviceId ips now = (true, { c with opened := pre ++ (ips.key deviceId, e.again ips now) :: post })) ∨
      ips.key deviceId ∉ (c.retained now).map Prod.fst ∧
        (c.add deviceId ips now = (false, { c with opened := c.retained now }) ∨
          ∃ keep : Key × Entry → Bool, (∀ p ∈ c.retained now, keep p = false → p.2.dirty = false) ∧
            ((c.retained now).filter keep).length < c.maxKeys ∧
            c.add deviceId ips now = (true, { c with
              opened := (c.retained now).filter keep ++ [(ips.key deviceId, ⟨ips.alarm deviceId now, true⟩)] })) := by
  have hky' : ((c.retained now).map Prod.fst).Nodup := hky.sublist (filter_sublist.map Prod.fst)
  rw [Collapser.add]
  by_cases hop : ((c.retained now).any fun p => p.1 = ips.key deviceId) = true
  · obtain ⟨⟨key, e⟩, hmem, hkey⟩ := any_eq_true.mp hop
    obtain rfl : key = ips.key deviceId := by simpa using hkey
    obtain ⟨pre, post, hspl⟩ := append_of_mem hmem
    refine .inl ⟨pre, e, post, hspl, ?_⟩
    rw [hspl, map_append, map_cons, nodup_append, nodup_cons] at hky'
    have hsm : ∀ l : List (Key × Entry), ips.key deviceId ∉ l.map Prod.fst →
        (l.map fun p => if p.1 = ips.key deviceId then (p.1, p.2.again ips now) else p) = l := fun l hl =>
      (map_congr_left (g := id) fun p hp => if_neg fun heq => hl (mem_map.mpr ⟨p, hp, heq⟩)).trans
        (map_id l)
    rw [if_pos hop, hspl]
    simp only [map_append, map_cons, if_true, hsm post hky'.2.1.1]
    rw [hsm pre fun hmem => hky'.2.2 _ hmem _ mem_cons_self rfl]
  · have hnew : ips.key deviceId ∉ (c.retained now).map Prod.fst := by simpa using hop
    refine .inr ⟨hnew, ?_⟩
    simp only [if_neg hop]
    cases hrm : makeRoom (c.retained now) c.maxKeys with
    | none => exact .inl rfl
    | some room =>
      obtain ⟨keep, rfl, hlt, hkp⟩ := makeRoom_eq_some hky' ((length_filter_le _ _).trans hsz) hrm
      exact .inr ⟨keep, hkp, hlt, rfl⟩

theorem dirty_of_not_retained (h : (p.2.dirty || decide (now < p.2.alarm.lastSeen + c.window)) = false) :
    p.2.dirty = false := by
  simp only [Bool.or_eq_false_iff] at h
  exact h.1

theorem Invariant.add (h : Invariant s log) (deviceId : ℤ) (ips : Ips) (now : Time) :
    Invariant { s with collapser := (s.collapser.add deviceId ips now).2 }
      (log ++ (counted s (.add deviceId ips now)).toList) := by
  obtain ⟨-, past, hhld, -⟩ := id h
  have hke : Invariant (s.withOpened (s.collapser.retained now)) log := h.drop fun p _ => dirty_of_not_retained
  rcases add_cases hhld.keys hhld.size deviceId ips now with ⟨pre, e, post, hspl, hadd⟩ | ⟨hnew, hadd | hadd⟩
  · have hop : ((s.collapser.retained now).any fun p => p.1 = ips.key deviceId) = true := by simp [hspl]
    simp only [counted, hadd, hop, if_true, toList_some]
    exact hke.again hspl
  · simp only [counted, hadd, Bool.false_eq_true, if_false, toList_none, append_nil]
    exact hke
  obtain ⟨keep, hkp, hlt, hadd⟩ := hadd
  have hop : ((s.collapser.retained now).any fun p => p.1 = ips.key deviceId) = false :=
    any_eq_false.mpr fun p hp heq => hnew (mem_map.mpr ⟨p, hp, of_decide_eq_true heq⟩)
  simp only [counted, hadd, hop, if_true, Bool.false_eq_true, if_false, toList_some]
  refine (hke.drop hkp).create (fun hmem => hnew ?_) hlt
  exact (filter_sublist.map Prod.fst).subset hmem

variable {past : List Generation}

theorem Holds.insertBatch (h : Holds s past) (hpar : ∀ day, s.partitions day)
    (supps : List DeviceSuppression) (now : Time) : let s' := { s with rows := (insertBatch s.partitions
      supps s.rows s.collapser.dirty now).1 }
    Holds s' past ∧ ∀ p ∈ s.collapser.opened, Covered (alarms s'.rows) (generation p) := by
  intro s'
  have hmem : ∀ p ∈ s.collapser.opened, generation p ∈ generations s past := fun p hp =>
    mem_append_right _ (mem_map.mpr ⟨p, hp, rfl⟩)
  obtain ⟨hstr, hbat⟩ := insertAll_stores (activeSuppressions supps) now hpar
    (s := (s.rows, ⟨0, 0, 0, 0⟩)) h.stored fun a (ha : a ∈ s.collapser.dirty) => by
      obtain ⟨p, hp, rfl⟩ := mem_map.mp ha
      have hp := (mem_filter.mp hp).1
      exact ⟨generation p, hmem p hp, h.named p hp, rfl⟩
  have hcov : ∀ p ∈ s.collapser.opened, Covered (alarms s'.rows) (generation p) := by
    intro p hp
    cases hdir : p.2.dirty with
    | false => exact hstr.kept _ (h.clean p hp hdir)
    | true =>
      refine hbat p.2.alarm ?_ _ (hmem p hp) (h.named p hp) rfl
      exact mem_map.mpr ⟨p, mem_filter.mpr ⟨hp, hdir⟩, rfl⟩
  exact ⟨⟨h.keys, h.size, h.named, h.pos, fun p hp _ => hcov p hp, fun g hg => hstr.kept g (h.gone g hg),
    hstr.storedOf⟩, hcov⟩

theorem stored_opened (c : Collapser) (batch : List DeviceAlarm) :
    ∃ mark : Key × Entry → Key × Entry, (c.stored batch).opened = c.opened.map mark ∧
      (∀ p, (mark p).1 = p.1 ∧ (mark p).2.alarm = p.2.alarm) ∧
      ∀ p, (mark p).2.dirty = true → p.2.dirty = true ∧ p.2.alarm ∉ batch := by
  refine ⟨_, rfl, fun p => ?_, fun p => ?_⟩
  · dsimp only
    split <;> exact ⟨rfl, rfl⟩
  dsimp only
  split
  · exact nofun
  · rename_i hnot
    refine fun hdir => ⟨hdir, fun hmem => hnot (any_eq_true.mpr ⟨_, hmem, by simp⟩)⟩

theorem Holds.mark (h : Holds s past) (hcov : ∀ p ∈ s.collapser.opened, Covered (alarms s.rows) (generation p))
    (batch : List DeviceAlarm) : Holds { s with collapser := s.collapser.stored batch } past ∧
      generations { s with collapser := s.collapser.stored batch } past = generations s past := by
  obtain ⟨mark, hopd, hmk, -⟩ := stored_opened s.collapser batch
  have hgen : ∀ p, generation (mark p) = generation p := fun p => by
    simp [generation, (hmk p).1, (hmk p).2]
  have hsm : generations { s with collapser := s.collapser.stored batch } past = generations s past := by
    simp only [generations, hopd, List.map_map]
    exact congrArg (past ++ ·) (map_congr_left fun p _ => hgen p)
  refine ⟨⟨?_, ?_, fun p hp => ?_, hsm ▸ h.pos, fun p hp _ => ?_, h.gone, hsm ▸ h.stored⟩, hsm⟩
  · have hfst : Prod.fst ∘ mark = Prod.fst := funext fun p => (hmk p).1
    rw [hopd, List.map_map, hfst]
    exact h.keys
  · rw [hopd, length_map]
    exact h.size
  · rw [hopd] at hp
    obtain ⟨q, hq, rfl⟩ := List.mem_map.mp hp
    rw [(hmk q).1, (hmk q).2]
    exact h.named q hq
  · rw [hopd] at hp
    obtain ⟨q, hq, rfl⟩ := List.mem_map.mp hp
    rw [hgen]
    exact hcov q hq

theorem Invariant.flush (h : Invariant s log) (out : Outcome) (now : Time) (supps : List DeviceSuppression) :
    Invariant (s.flush out now supps) log := by
  obtain ⟨hpar, past, hhld, hlog⟩ := id h
  rw [State.flush]
  split
  · exact h
  obtain ⟨hins, hcov⟩ := hhld.insertBatch hpar supps now
  cases out with
  | stored =>
    obtain ⟨hsto, hsm⟩ := hins.mark hcov s.collapser.dirty
    exact ⟨hpar, past, hsto, hsm ▸ hlog⟩
  | failed => exact h
  | unacknowledged => exact ⟨hpar, past, hins, hlog⟩

theorem clean_of_flush {supps : List DeviceSuppression}
    (hp : p ∈ (s.flush .stored now supps).collapser.opened) : p.2.dirty = false := by
  have hbat : ∀ q ∈ s.collapser.opened, q.2.dirty = true → q.2.alarm ∈ s.collapser.dirty := fun q hq hdir =>
    mem_map.mpr ⟨q, mem_filter.mpr ⟨hq, hdir⟩, rfl⟩
  rw [Bool.eq_false_iff]
  intro hdir
  rw [State.flush] at hp
  split at hp
  · rename_i hemp
    have := hbat p hp hdir
    rw [isEmpty_iff.mp hemp] at this
    exact not_mem_nil this
  obtain ⟨mark, hopd, -, hmk⟩ := stored_opened s.collapser s.collapser.dirty
  dsimp only at hp
  rw [hopd] at hp
  obtain ⟨q, hq, rfl⟩ := mem_map.mp hp
  obtain ⟨hq', hnot⟩ := hmk q hdir
  exact hnot (hbat q hq hq')

theorem alarms_modify (rows : List DeviceAlarms.Entry) (id : ℕ) {f : DeviceAlarms.Entry → DeviceAlarms.Entry}
    (hf : ∀ e, (f e).alarm = e.alarm) : alarms (rows.modify id f) = alarms rows := by
  refine ext_getElem? fun i => ?_
  rw [getElem?_map, getElem?_map, getElem?_modify, Option.map_eq_map, Option.map_map]
  congr 1
  funext e
  simp only [Function.comp]
  split
  · exact hf e
  · rfl

variable {s' : State} {e : Event}

theorem Invariant.step (h : Invariant s log) (hst : step s e = some s') :
    Invariant s' (log ++ (counted s e).toList) := by
  cases e with
  | add deviceId ips now =>
    cases hst
    exact h.add deviceId ips now
  | flush out now supps =>
    cases hst
    simpa [counted] using h.flush out now supps
  | reorder opened =>
    rw [Netlog.step] at hst
    split_ifs at hst with hpm
    cases hst
    simpa [counted, State.withOpened] using h.reorder (isPerm_iff.mp hpm)
  | triage id newTriage history =>
    cases hst
    obtain ⟨hpar, past, h, hlog⟩ := h
    have halm := alarms_modify s.rows id
      (f := fun e => { e with triage := newTriage, history := e.history ++ history }) fun _ => rfl
    simp only [counted, toList_none, append_nil]
    refine ⟨hpar, past, ⟨h.keys, h.size, h.named, h.pos, ?_, ?_, ?_⟩, hlog⟩ <;> rw [halm]
    exacts [h.clean, h.gone, h.stored]

theorem invariant_run {window : Time} {parts : ℤ → Bool} (hpar : ∀ day, parts day) {es : List Event}
    (hrun : run step (start window maxKeys parts) es = some s) :
    Invariant s (observe step counted (start window maxKeys parts) es) := by
  have hsta : Invariant (start window maxKeys parts) [] :=
    ⟨hpar, [], ⟨nodup_nil, Nat.zero_le _, by simp [start], by simp [generations, start], by simp [start],
      by simp, ⟨by simp [start], by simp [start]⟩⟩, ⟨fun k => rfl, fun k => .nil⟩⟩
  simpa using run_observe (I := Invariant) (fun s e s' log h hst => h.step hst) hsta hrun

/-! ### What is stored -/

theorem ruleId_inj (h : ruleId sig = ruleId sig') : sig = sig' := by
  rw [ruleId, ruleId, ← String.toList_inj] at h
  exact String.toList_inj.mp (by simpa using h)

theorem Named.eq_key (h : Named a k ms) (hdev : a.deviceId = k'.deviceId)
    (hru : a.ruleId = Netlog.ruleId k'.signatureId) (hsrc : a.network.src = k'.src.text) : k = k' := by
  obtain ⟨device, sig, text, plain⟩ := k
  obtain ⟨device', sig', text', plain'⟩ := k'
  obtain rfl : device = device' := h.deviceId.symm.trans hdev
  obtain rfl : sig = sig' := ruleId_inj (h.ruleId.symm.trans hru)
  obtain rfl : text = text' := h.src.symm.trans hsrc
  rfl

theorem mem_storedAlarms {key : Key} {e : DeviceAlarms.Entry} :
    e ∈ storedAlarms key rows ↔ e ∈ rows ∧ e.alarm.deviceId = key.deviceId ∧ e.alarm.ruleId = ruleId key.signatureId ∧
      e.alarm.network.src = key.src.text := by
  simp [storedAlarms, and_assoc]

theorem tally (h : StoredOf G (alarms rows)) (hpos : ∀ g ∈ G, 0 < g.count)
    (hcov : ∀ g ∈ G, Covered (alarms rows) g) (key : Key) :
    Tally (storedAlarms key rows) (fun e => (e.alarm.alarmId, e.alarm.count)) (ofKey key G)
      fun g => (alarmId key.signatureId key.src g.millis, g.count) where
  nodup := by
    refine .map_on (fun e he e' he' hid => ?_) (.filter _ h.nodup.of_map.of_map)
    obtain ⟨he, hdev, -⟩ := mem_storedAlarms.mp he
    obtain ⟨he', hdev', -⟩ := mem_storedAlarms.mp he'
    have hnd := h.nodup
    rw [List.map_map] at hnd
    exact inj_on_of_nodup_map hnd he he' (Prod.ext (hdev.trans hdev'.symm) hid)
  covers := fun g hg => by
    obtain ⟨hmem, hkey⟩ := mem_filter.mp hg
    obtain rfl : g.key = key := of_decide_eq_true hkey
    obtain ⟨a, ha, hnam, hle⟩ := hcov g hmem
    obtain ⟨e, he, rfl⟩ := List.mem_map.mp ha
    exact ⟨e, mem_storedAlarms.mpr ⟨he, hnam.deviceId, hnam.ruleId, hnam.src⟩, hnam.alarmId, hle⟩
  counted := fun e he => by
    obtain ⟨he, hdev, hru, hsrc⟩ := mem_storedAlarms.mp he
    obtain ⟨g, hg, hnam, hle⟩ := h.counted e.alarm (List.mem_map.mpr ⟨e, he, rfl⟩)
    obtain rfl := hnam.eq_key hdev hru hsrc
    exact ⟨g, mem_filter.mpr ⟨hg, decide_eq_true rfl⟩, hnam.alarmId.symm, hle⟩
  pos := fun g hg => hpos g (mem_filter.mp hg).1

/-- What was counted is stored exactly when no two alarms of the key were created in one millisecond. -/
theorem Invariant.counted_iff (h : Invariant s log) (hcl : ∀ p ∈ s.collapser.opened, p.2.dirty = false) (key : Key) :
    (eventsOf key log).length = ((storedAlarms key s.rows).map fun e => e.alarm.count).sum ↔
      ((eventsOf key log).filterMap Counted.created).Nodup := by
  obtain ⟨-, past, h, hlog⟩ := h
  have hcov : ∀ g ∈ generations s past, Covered (alarms s.rows) g := by
    intro g hg
    rcases mem_append.mp hg with hg | hg
    · exact h.gone g hg
    · obtain ⟨p, hp, rfl⟩ := mem_map.mp hg
      exact h.clean p hp (hcl p hp)
  have htal := (tally h.stored h.pos hcov key).sum_eq_sum_iff_nodup
  have hids : ((ofKey key (generations s past)).map fun g => alarmId key.signatureId key.src g.millis) =
      ((ofKey key (generations s past)).map Generation.millis).map (alarmId key.signatureId key.src) := by
    rw [List.map_map]
    rfl
  have hinj : Function.Injective (alarmId key.signatureId key.src) := fun ms ms' h => (alarmId_inj h).2.2
  rw [hids, nodup_map_iff hinj] at htal
  rw [hlog.count, (hlog.created key).nodup_iff, eq_comm]
  exact htal

theorem Invariant.dirty_kept (h : Invariant s log) (hst : Netlog.step s e = some s') (hp : p ∈ s.collapser.opened)
    (hdir : p.2.dirty = true) :
    ∃ e' : Entry, (p.1, e') ∈ s'.collapser.opened ∧ e'.alarm.alarmId = p.2.alarm.alarmId ∧
      p.2.alarm.count ≤ e'.alarm.count := by
  obtain ⟨-, past, h, -⟩ := h
  cases e with
  | add deviceId ips now =>
    cases hst
    have hke : p ∈ s.collapser.retained now := mem_filter.mpr ⟨hp, by simp [hdir]⟩
    rcases add_cases h.keys h.size deviceId ips now with ⟨pre, e, post, hspl, hadd⟩ | ⟨-, hadd | hadd⟩
    · simp only [hadd]
      rw [hspl, mem_append, mem_cons] at hke
      rcases hke with hpre | rfl | hps
      · exact ⟨p.2, mem_append_left _ hpre, rfl, le_rfl⟩
      · exact ⟨e.again ips now, by simp, rfl, Nat.le_succ _⟩
      · exact ⟨p.2, mem_append_right _ (mem_cons_of_mem _ hps), rfl, le_rfl⟩
    · simp only [hadd]
      exact ⟨p.2, hke, rfl, le_rfl⟩
    · obtain ⟨keep, hkp, -, hadd⟩ := hadd
      simp only [hadd]
      refine ⟨p.2, mem_append_left _ (mem_filter.mpr ⟨hke, ?_⟩), rfl, le_rfl⟩
      by_contra hdr
      exact absurd (hkp p hke (by simpa using hdr)) (by simp [hdir])
  | flush out now supps =>
    cases hst
    rw [State.flush]
    split
    · exact ⟨p.2, hp, rfl, le_rfl⟩
    cases out with
    | stored =>
      obtain ⟨mark, hopd, hmk, -⟩ := stored_opened s.collapser s.collapser.dirty
      refine ⟨(mark p).2, ?_, by rw [(hmk p).2], by rw [(hmk p).2]⟩
      dsimp only
      rw [hopd, ← (hmk p).1]
      exact mem_map.mpr ⟨p, hp, rfl⟩
    | failed | unacknowledged => exact ⟨p.2, hp, rfl, le_rfl⟩
  | reorder opened =>
    rw [Netlog.step] at hst
    split_ifs at hst with hpm
    cases hst
    exact ⟨p.2, (isPerm_iff.mp hpm).mem_iff.mpr hp, rfl, le_rfl⟩
  | triage id newTriage history =>
    cases hst
    exact ⟨p.2, hp, rfl, le_rfl⟩

theorem maxKeys_step (h : step s e = some s') : s'.collapser.maxKeys = s.collapser.maxKeys := by
  cases e with
  | add deviceId ips now =>
    cases h
    simp only [Collapser.add]
    split
    · rfl
    · split <;> rfl
  | flush out now supps =>
    cases h
    rw [State.flush]
    split
    · rfl
    · cases out <;> rfl
  | reorder opened =>
    rw [step] at h
    split_ifs at h
    cases h
    rfl
  | triage id newTriage history =>
    cases h
    rfl

/-- **No event is lost or counted twice, unless an alarm is created twice in a millisecond.** After a flush that
succeeds, the events counted are what the stored alarms count exactly then. An entry with unstored events is never
dropped, and the map never holds more than `max_keys` entries. -/
theorem counted_once_iff {window : Time} {maxKeys : ℕ} {parts : ℤ → Bool} (hpar : ∀ day, parts day)
    {es : List Event} {s : State} (hrun : run step (start window maxKeys parts) es = some s) :
    (∀ now supps key, (eventsOf key (observe step counted (start window maxKeys parts) es)).length =
          ((storedAlarms key (s.flush .stored now supps).rows).map fun e => e.alarm.count).sum ↔
        ((eventsOf key (observe step counted (start window maxKeys parts) es)).filterMap Counted.created).Nodup) ∧
      (∀ e s', step s e = some s' → ∀ p ∈ s.collapser.opened, p.2.dirty = true →
        ∃ e' : Entry, (p.1, e') ∈ s'.collapser.opened ∧ e'.alarm.alarmId = p.2.alarm.alarmId ∧
          p.2.alarm.count ≤ e'.alarm.count) ∧
      s.collapser.opened.length ≤ maxKeys := by
  have h := invariant_run hpar hrun
  refine ⟨fun now supps key => ?_, fun e s' hst p hp hdir => h.dirty_kept hst hp hdir, ?_⟩
  · exact (h.flush .stored now supps).counted_iff (fun p hp => clean_of_flush hp) key
  have hmax : s.collapser.maxKeys = maxKeys :=
    run_invariant (I := fun s => s.collapser.maxKeys = maxKeys)
      (fun s e s' hs hst => (maxKeys_step hst).trans hs) rfl hrun
  obtain ⟨-, past, hhld, -⟩ := h
  exact hmax ▸ hhld.size

def scan (src : IpAddr) : Ips :=
  ⟨"blocked", "TCP", "", src, none, ⟨"10.0.0.5", by decide⟩, some 22, "", "inbound", "", "", "ET SCAN", "2001219",
    "UDM", .medium, "ET SCAN: potential SSH scan"⟩

def attacker : IpAddr := ⟨"203.0.113.7", by decide⟩

def other : IpAddr := ⟨"203.0.113.8", by decide⟩

/-- Three events within a millisecond, with room for one alarm. -/
def crowded : List Event :=
  [.add 1 (scan attacker) 1000000, .flush .stored 1000100 [], .add 1 (scan other) 1000200, .flush .stored 1000300 [],
    .add 1 (scan attacker) 1000400]

theorem counted_once_iff_sample :
    ∃ s, run step (start 600000000 1 fun _ => true) (crowded.take 4) = some s ∧
      ((eventsOf ((scan attacker).key 1) (observe step counted (start 600000000 1 fun _ => true)
          (crowded.take 4))).length =
          ((storedAlarms ((scan attacker).key 1) (s.flush .stored 2000000 []).rows).map fun e => e.alarm.count).sum) :=
              by
  refine ⟨_, rfl, ((counted_once_iff (fun _ => rfl) rfl).1 2000000 [] ((scan attacker).key 1)).mpr ?_⟩
  decide +kernel

/-- **An event is lost**: the second alarm of the first source has the id and count of the first, and is taken for a
resend. -/
theorem recreated_alarm_is_lost :
    (crowded.filterMap Event.time).Pairwise (· ≤ ·) ∧
      ∃ s, run step (start 600000000 1 fun _ => true) crowded = some s ∧ (eventsOf ((scan attacker).key 1)
          (observe step counted (start 600000000 1 fun _ => true) crowded)).length = 2 ∧
        ((storedAlarms ((scan attacker).key 1) (s.flush .stored 1000500 []).rows).map fun e => e.alarm.count).sum = 1 :=
  ⟨by decide, _, rfl, by decide +kernel, by decide +kernel⟩

end OpenVibes.Netlog
