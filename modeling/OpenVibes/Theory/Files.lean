import OpenVibes.Theory.Prog

/-!
# A directory of files, and crashes

A file is sure to be there after a crash once it is synced, and what a name stands for once the directory is. Until then
each name can be found as it was at any moment since the last sync, and an unsynced file with anything in it. A rename
is one step. `writeAtomic` replaces a file by way of a temporary name. `Holds`: every file that a name stands for, or
can stand for after a crash, is synced and as `P` says.
-/

namespace OpenVibes.Theory

open List Function

structure Node (β : Type) where
  content : β
  synced : Bool

structure Files (κ β : Type) where
  names : κ → Option ℕ
  since : List (κ → Option ℕ)
  nodes : ℕ → Node β
  next : ℕ

namespace Files

variable {κ β : Type}

def dirs (f : Files κ β) : List (κ → Option ℕ) := f.names :: f.since

def relink (names : κ → Option ℕ) (f : Files κ β) : Files κ β := { f with names := names, since := f.names :: f.since }

/-- `unlink`. -/
def remove [DecidableEq κ] (k : κ) (f : Files κ β) : Files κ β := f.relink (update f.names k none)

def create [DecidableEq κ] (k : κ) (c : β) (f : Files κ β) : Files κ β :=
  { f.relink (update f.names k (some f.next)) with
    nodes := update f.nodes f.next ⟨c, false⟩
    next := f.next + 1 }

def write (n : ℕ) (c : β) (f : Files κ β) : Files κ β := { f with nodes := update f.nodes n ⟨c, false⟩ }

/-- `fsync` of a file. -/
def sync (n : ℕ) (f : Files κ β) : Files κ β :=
  { f with nodes := update f.nodes n { f.nodes n with synced := true } }

def rename [DecidableEq κ] (a b : κ) (f : Files κ β) : Files κ β :=
  f.relink (update (update f.names a none) b (f.names a))

/-- `fsync` of the directory. -/
def syncDir (f : Files κ β) : Files κ β := { f with since := [] }

def spoil (n : ℕ) (c : β) (f : Files κ β) : Files κ β :=
  { f with nodes := update f.nodes n { f.nodes n with content := c } }

/-- What is found after a crash: for each name, what it stood for at a moment since the last sync, and in an unsynced
file anything. -/
def crash (pick : κ → ℕ) (torn : ℕ → β) (f : Files κ β) : Files κ β where
  names k := (f.dirs[pick k]?.getD f.names) k
  since := []
  nodes n := if (f.nodes n).synced then f.nodes n else ⟨torn n, true⟩
  next := f.next

def read (k : κ) (f : Files κ β) : Option β := (f.names k).map fun n => (f.nodes n).content

@[simp] theorem nodes_write_self (n : ℕ) (c : β) (f : Files κ β) : (f.write n c).nodes n = ⟨c, false⟩ :=
  update_self ..

@[simp] theorem nodes_sync_self (n : ℕ) (f : Files κ β) : (f.sync n).nodes n = { f.nodes n with synced := true } :=
  update_self ..

@[simp] theorem nodes_spoil_self (n : ℕ) (c : β) (f : Files κ β) :
    (f.spoil n c).nodes n = { f.nodes n with content := c } := update_self ..

theorem nodes_spoil_of_ne {n m : ℕ} (h : m ≠ n) (c : β) (f : Files κ β) : (f.spoil n c).nodes m = f.nodes m :=
  update_of_ne h ..

/-! ### A file is replaced -/

/-- `create_new`: it fails if there is such a file, and answers the file. -/
def createNew [DecidableEq κ] (k : κ) (c : β) : ExceptT Unit (Prog (Files κ β)) ℕ :=
  .transaction () fun f =>
    match f.names k with
    | some _ => .error ()
    | none => .ok (f.create k c, f.next)

/-- `rename`: it fails if there is no such file. -/
def renameTo [DecidableEq κ] (a b : κ) : ExceptT Unit (Prog (Files κ β)) Unit :=
  .transaction () fun f =>
    match f.names a with
    | some _ => .ok (f.rename a b, ())
    | none => .error ()

/-- A file is replaced by one that is whole. While it is written a part of it is there. -/
def writeAtomic [DecidableEq κ] (temp name : κ) (part bytes : β) : ExceptT Unit (Prog (Files κ β)) Unit := do
  Prog.attempt (remove temp)
  let n ← createNew temp part
  -- the mode is set
  Prog.query () fun _ => ()
  Prog.stmt () (write n part) fun _ => ()
  Prog.stmt () (write n bytes) fun _ => ()
  Prog.stmt () (sync n) fun _ => ()
  renameTo temp name
  -- the directory is opened
  Prog.query () fun _ => ()
  Prog.stmt () syncDir fun _ => ()

/-! ### What the names stand for -/

section

variable {P : β → Prop} {k j : κ} {n : ℕ} {c : β} {f f' : Files κ β}

def Fine (P : β → Prop) (n : ℕ) (f : Files κ β) : Prop :=
  n < f.next ∧ (f.nodes n).synced = true ∧ P (f.nodes n).content

/-- Every file that a name stands for, or can stand for after a crash, is on disk and as `P` says. -/
def Holds (P : β → Prop) (k : κ) (f : Files κ β) : Prop := ∀ d ∈ f.dirs, ∀ n, d k = some n → f.Fine P n

def Has (k : κ) (f : Files κ β) : Prop := ∀ d ∈ f.dirs, d k ≠ none

structure Keeps (P : β → Prop) (k : κ) (f f' : Files κ β) : Prop where
  holds : f.Holds P k → f'.Holds P k
  has : f.Has k → f'.Has k

theorem Keeps.refl (f : Files κ β) : f.Keeps P k f := ⟨id, id⟩

theorem Keeps.trans {f'' : Files κ β} (h : f.Keeps P k f') (h' : f'.Keeps P k f'') : f.Keeps P k f'' :=
  ⟨h'.holds ∘ h.holds, h'.has ∘ h.has⟩

theorem keeps_relink {names : κ → Option ℕ} (hfi : ∀ n, names k = some n → names k = f.names k ∨ f.Fine P n)
    (hnn : names k = none → f.names k = none) : f.Keeps P k (f.relink names) := by
  refine ⟨fun h d hd n hn => ?_, fun h d hd => ?_⟩
  · rcases mem_cons.mp hd with rfl | hd
    · rcases hfi n hn with heq | hfi
      · exact h f.names mem_cons_self n (heq ▸ hn)
      · exact hfi
    · exact h d hd n hn
  · rcases mem_cons.mp hd with rfl | hd
    · exact fun hd => h f.names mem_cons_self (hnn hd)
    · exact h d hd

theorem keeps_remove [DecidableEq κ] (hk : k ≠ j) : f.Keeps P k (f.remove j) :=
  keeps_relink (fun _ _ => .inl (update_of_ne hk ..)) fun h => (update_of_ne hk ..).symm.trans h

theorem keeps_rename [DecidableEq κ] {a b : κ} (ha : k ≠ a) (hn : f.names a = some n) (hfi : k = b → f.Fine P n) :
    f.Keeps P k (f.rename a b) := by
  by_cases hb : k = b
  · subst hb
    refine keeps_relink (fun m hm => .inr ?_) fun h => ?_
    · rw [update_self, hn] at hm
      exact Option.some.inj hm ▸ hfi rfl
    · rw [update_self, hn] at h
      cases h
  · have hsm : update (update f.names a none) b (f.names a) k = f.names k := by
      rw [update_of_ne hb, update_of_ne ha]
    exact keeps_relink (fun m _ => .inl hsm) fun h => hsm.symm.trans h

theorem keeps_nodes {nodes : ℕ → Node β} {next : ℕ} (hnx : f.next ≤ next)
    (hsm : ∀ d ∈ f.dirs, ∀ m, d k = some m → f.Fine P m →
      (nodes m).synced = true ∧ P (nodes m).content) : f.Keeps P k { f with nodes := nodes, next := next } := by
  refine ⟨fun h d hd m hm => ?_, id⟩
  have hm' := h d hd m hm
  exact ⟨hm'.1.trans_le hnx, hsm d hd m hm hm'⟩

theorem keeps_write (hn : ∀ d ∈ f.dirs, d k ≠ some n) : f.Keeps P k (f.write n c) := by
  refine keeps_nodes le_rfl fun d hd m hm hfi => ?_
  have hne : m ≠ n := fun heq => hn d hd (heq ▸ hm)
  rw [update_of_ne hne]
  exact hfi.2

theorem keeps_sync : f.Keeps P k (f.sync n) := by
  refine keeps_nodes le_rfl fun d hd m hm hfi => ?_
  by_cases hmn : m = n
  · subst hmn
    rw [update_self]
    exact ⟨rfl, hfi.2.2⟩
  · rw [update_of_ne hmn]
    exact hfi.2

theorem keeps_spoil (hc : P c) : f.Keeps P k (f.spoil n c) := by
  refine keeps_nodes le_rfl fun d hd m hm hfi => ?_
  by_cases hmn : m = n
  · subst hmn
    rw [update_self]
    exact ⟨hfi.2.1, hc⟩
  · rw [update_of_ne hmn]
    exact hfi.2

theorem keeps_syncDir : f.Keeps P k f.syncDir := by
  have hsub : ∀ d, d ∈ f.syncDir.dirs → d ∈ f.dirs := fun d hd => by
    rw [mem_singleton.mp hd]
    exact mem_cons_self
  exact ⟨fun h d hd => h d (hsub d hd), fun h d hd => h d (hsub d hd)⟩

theorem keeps_create [DecidableEq κ] (hk : k ≠ j) : f.Keeps P k (f.create j c) := by
  have hnod : f.Keeps P k { f with nodes := update f.nodes f.next ⟨c, false⟩, next := f.next + 1 } := by
    refine keeps_nodes (Nat.le_succ _) fun d hd m hm hfi => ?_
    rw [update_of_ne hfi.1.ne]
    exact hfi.2
  have hsm : update f.names j (some f.next) k = f.names k := update_of_ne hk ..
  exact hnod.trans (keeps_relink (fun _ _ => .inl hsm) fun h => hsm.symm.trans h)

theorem keeps_crash (pick : κ → ℕ) (torn : ℕ → β) : f.Keeps P k (f.crash pick torn) := by
  have hpc : (f.dirs[pick k]?.getD f.names) ∈ f.dirs := by
    cases h : f.dirs[pick k]? with
    | none => exact mem_cons_self
    | some d => exact mem_of_getElem? h
  refine ⟨fun h d hd n hn => ?_, fun h d hd => ?_⟩
  · obtain rfl := mem_singleton.mp hd
    have hfi := h (f.dirs[pick k]?.getD f.names) hpc n hn
    refine ⟨hfi.1, ?_⟩
    change (if (f.nodes n).synced then f.nodes n else _).synced = true ∧
      P (if (f.nodes n).synced then f.nodes n else _).content
    rw [if_pos hfi.2.1]
    exact hfi.2
  · obtain rfl := mem_singleton.mp hd
    exact h (f.dirs[pick k]?.getD f.names) hpc

end

/-! ### Replacing a file -/

section

variable {P Bad : β → Prop} {temp name k : κ} {part bytes : β} {f f' : Files κ β} {n : ℕ}

def Spoils (Bad : β → Prop) (f f' : Files κ β) : Prop := ∃ n c, Bad c ∧ f' = f.spoil n c

theorem Spoils.holds (hBad : ∀ c, Bad c → P c) (h : Spoils Bad f f') (hf : f.Holds P k) : f'.Holds P k := by
  obtain ⟨n, c, hc, rfl⟩ := h
  exact (keeps_spoil (hBad c hc)).holds hf

def Intact (Bad : β → Prop) (bytes : β) (n : ℕ) (f : Files κ β) : Prop :=
  (f.nodes n).content = bytes ∨ Bad (f.nodes n).content

theorem Spoils.intact (h : Spoils Bad f f') (hn : f.Intact Bad bytes n) : f'.Intact Bad bytes n := by
  obtain ⟨m, c, hc, rfl⟩ := h
  by_cases hmn : n = m
  · subst hmn
    rw [Intact, nodes_spoil_self]
    exact .inr hc
  · rw [Intact, nodes_spoil_of_ne hmn]
    exact hn

theorem Spoils.synced (h : Spoils Bad f f') (hn : (f.nodes n).synced = true) : (f'.nodes n).synced = true := by
  obtain ⟨m, c, hc, rfl⟩ := h
  by_cases hmn : n = m
  · subst hmn
    rw [nodes_spoil_self]
    exact hn
  · rw [nodes_spoil_of_ne hmn]
    exact hn

/-- The new file is there under its temporary name, and `k` does not stand for it. -/
structure Draft (P : β → Prop) (k temp : κ) (n : ℕ) (f : Files κ β) : Prop where
  holds : f.Holds P k
  temp : f.names temp = some n
  lt : n < f.next
  unlinked : ∀ d ∈ f.dirs, d k ≠ some n

theorem Spoils.draft (hBad : ∀ c, Bad c → P c) (h : Spoils Bad f f')
    (hf : f.Draft P k temp n) : f'.Draft P k temp n := by
  have hhld := h.holds hBad hf.holds
  obtain ⟨m, c, hc, rfl⟩ := h
  exact ⟨hhld, hf.temp, hf.lt, hf.unlinked⟩

theorem Draft.write (hf : f.Draft P k temp n) (c : β) : (f.write n c).Draft P k temp n :=
  ⟨(keeps_write hf.unlinked).holds hf.holds, hf.temp, hf.lt, hf.unlinked⟩

theorem Draft.sync (hf : f.Draft P k temp n) : (f.sync n).Draft P k temp n :=
  ⟨keeps_sync.holds hf.holds, hf.temp, hf.lt, hf.unlinked⟩

theorem Draft.create [DecidableEq κ] (hk : k ≠ temp) (hf : f.Holds P k) (c : β) :
    (f.create temp c).Draft P k temp f.next where
  holds := (keeps_create hk).holds hf
  temp := update_self ..
  lt := Nat.lt_succ_self _
  unlinked d hd hn := by
    rcases mem_cons.mp hd with rfl | hd
    · have hn' : f.names k = some f.next := (update_of_ne hk ..).symm.trans hn
      exact absurd (hf f.names mem_cons_self _ hn').1 (lt_irrefl _)
    · exact absurd (hf d hd _ hn).1 (lt_irrefl _)

def Placed (Bad : β → Prop) (bytes : β) (name : κ) (f : Files κ β) : Prop :=
  ∃ n, f.names name = some n ∧ f.Intact Bad bytes n

theorem Spoils.placed (h : Spoils Bad f f') (hf : f.Placed Bad bytes name) : f'.Placed Bad bytes name := by
  obtain ⟨n, hn, hinta⟩ := hf
  refine ⟨n, ?_, h.intact hinta⟩
  obtain ⟨m, c, -, rfl⟩ := h
  exact hn

structure Written (Bad : β → Prop) (bytes : β) (name : κ) (f : Files κ β) : Prop where
  placed : f.Placed Bad bytes name
  since : f.since = []

theorem Spoils.written (h : Spoils Bad f f') (hf : f.Written Bad bytes name) : f'.Written Bad bytes name := by
  refine ⟨h.placed hf.placed, ?_⟩
  obtain ⟨m, c, -, rfl⟩ := h
  exact hf.since

/-- **Replacing a file.** What any other name stands for is kept; and when there was no error, the new file is in place
for good. -/
theorem writeAtomic_meets [DecidableEq κ] (hk : k ≠ temp) (hBad : ∀ c, Bad c → P c) (hbyt : k = name →
    P bytes) (hf : f.Holds P k) : Prog.Meets (Spoils Bad) (Files.Keeps P k)
      (Prog.OnOk fun _ f => f.Holds P k ∧ f.Written Bad bytes name) (writeAtomic temp name part bytes) f := by
  have hrf : ∀ f : Files κ β, f.Keeps P k f := Keeps.refl
  have hhld : ∀ f f' : Files κ β, Spoils Bad f f' → f.Holds P k → f'.Holds P k := fun _ _ h => h.holds hBad
  have hdft : ∀ (n : ℕ) (f f' : Files κ β), Spoils Bad f f' → f.Draft P k temp n → f'.Draft P k temp n :=
    fun _ _ _ h => h.draft hBad
  -- the rest, after the old temporary file is gone or could not be removed
  have hrs : ∀ f : Files κ β, f.Holds P k → Prog.Meets (Spoils Bad) (Files.Keeps P k)
      (Prog.OnOk fun _ f => f.Holds P k ∧ f.Written Bad bytes name) (do
        let n ← createNew temp part
        Prog.query () fun _ => ()
        Prog.stmt () (write n part) fun _ => ()
        Prog.stmt () (write n bytes) fun _ => ()
        Prog.stmt () (sync n) fun _ => ()
        renameTo temp name
        Prog.query () fun _ => ()
        Prog.stmt () syncDir fun _ => () : ExceptT Unit (Prog (Files κ β)) Unit) f := by
    intro f hf
    refine .transaction_bind hhld hrf hf fun f f' n hf hcre => ?_
    split at hcre
    · cases hcre
    cases hcre
    generalize hnx : f.next = n
    refine ⟨keeps_create hk, .query_bind (hdft n) hrf (hnx ▸ .create hk hf part) fun f hf => ?_⟩
    refine .stmt_bind (hdft n) hf fun f hf => ⟨keeps_write hf.unlinked, ?_⟩
    refine .stmt_bind (hdft n) (hf.write part) fun f hf => ⟨keeps_write hf.unlinked, ?_⟩
    refine .stmt_bind (P := fun f => f.Draft P k temp n ∧ f.Intact Bad bytes n)
      (fun f f' h hf => ⟨h.draft hBad hf.1, h.intact hf.2⟩) ⟨hf.write bytes, .inl (by rw [nodes_write_self])⟩
      fun f hf => ⟨keeps_sync, ?_⟩
    refine .transaction_bind (P := fun f => f.Draft P k temp n ∧ f.Intact Bad bytes n ∧ (f.nodes n).synced = true)
      (fun f f' h hf => ⟨h.draft hBad hf.1, h.intact hf.2.1, h.synced hf.2.2⟩) hrf ⟨hf.1.sync, ?_, ?_⟩
      fun f f' _ hf hren => ?_
    · rw [Intact, nodes_sync_self]
      exact hf.2
    · rw [nodes_sync_self]
    obtain ⟨hdrf, hinta, hsyn⟩ := hf
    rw [hdrf.temp] at hren
    cases hren
    have hfi : k = name → f.Fine P n := fun h => ⟨hdrf.lt, hsyn, hinta.elim (fun h' => h' ▸ hbyt h) (hBad _)⟩
    have hkps : f.Keeps P k (f.rename temp name) := keeps_rename hk hdrf.temp hfi
    have hplc : (f.rename temp name).Placed Bad bytes name := ⟨n, (update_self ..).trans hdrf.temp, hinta⟩
    refine ⟨hkps, .query_bind (P := fun f => f.Holds P k ∧ f.Placed Bad bytes name)
      (fun f f' h hf => ⟨h.holds hBad hf.1, h.placed hf.2⟩) hrf ⟨hkps.holds hdrf.holds, hplc⟩ fun f hf => ?_⟩
    refine .stmt (P := fun f => f.Holds P k ∧ f.Placed Bad bytes name)
      (fun f f' h hf => ⟨h.holds hBad hf.1, h.placed hf.2⟩) hf fun f hf => ⟨keeps_syncDir, fun f' h => ?_⟩
    exact Prog.stable_reflTransGen (P := fun f => f.Holds P k ∧ f.Written Bad bytes name)
      (fun f f' h hf => ⟨h.holds hBad hf.1, h.written hf.2⟩) h ⟨keeps_syncDir.holds hf.1, hf.2, rfl⟩
  exact .attempt_bind hhld hf fun f hf =>
    ⟨keeps_remove hk, hrs _ ((keeps_remove hk).holds hf), hrs f hf⟩

end

end Files

end OpenVibes.Theory
