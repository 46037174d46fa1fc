import OpenVibes.Theory.Steps

/-!
# Transactions side by side

`Txn σ α` is the tree of a program: a statement acts on the database of its moment and answers, or has to wait. Between
two statements any number of others can come, and a program can be stopped, which undoes what it did. A `System` gives
the program of each call and what its end, its failure and the outside do to the database; `Sessions` is a database with
the programs that are running on it, and a schedule is a list of `Move`s.
-/

namespace OpenVibes.Theory

open Option Function

/-- A program that works on `σ` in statements and returns an `α`. -/
inductive Txn (σ α : Type) : Type 1 where
  | ret (a : α)
  /-- A statement: it acts and answers, or has to wait (`none`). -/
  | step {β : Type} (act : σ → Option (β × σ)) (next : β → Txn σ α)

inductive End (α : Type) where
  | commit (a : α)
  | rollback (a : α)
deriving DecidableEq

def End.result {α : Type} : End α → α
  | .commit a => a
  | .rollback a => a

def End.map {α β : Type} (f : α → β) : End α → End β
  | .commit a => .commit (f a)
  | .rollback a => .rollback (f a)

namespace Txn

variable {σ α β γ : Type} {f : α → Txn σ β} {q : σ → β}

def bind : Txn σ α → (α → Txn σ β) → Txn σ β
  | .ret a, f => f a
  | .step act next, f => .step act fun b => (next b).bind f

instance : Monad (Txn σ) where
  pure := .ret
  bind := Txn.bind

def stmt (act : σ → Option (β × σ)) : Txn σ β := .step act .ret

def query (q : σ → β) : Txn σ β := stmt fun s => some (q s, s)

/-! ### Pre- and postconditions among others -/

section

variable {Λ : Type*} (I : σ → Prop) (mine : σ → Λ) (G : σ → σ → Prop)

/-- From what the transaction has in hand: each of its statements, wherever it has that in hand, acts within `G`; and it
returns with `Q`. -/
def Meets (Q : α → Λ → Prop) : Txn σ α → Λ → Prop
  | .ret a, l => Q a l
  | .step act next, l => ∀ s b s', I s → mine s = l → act s = some (b, s') → G s s' ∧ (next b).Meets Q (mine s')

variable {I mine G} {Q : α → Λ → Prop} {l : Λ} {p : Txn σ α}

theorem Meets.imp {Q' : α → Λ → Prop} (h : p.Meets I mine G Q l)
    (hQ : ∀ a l, Q a l → Q' a l) : p.Meets I mine G Q' l := by
  induction p generalizing l with
  | ret a => exact hQ a l h
  | step act next ih =>
    intro s b s' hI hs hact
    obtain ⟨hG, hnx⟩ := h s b s' hI hs hact
    exact ⟨hG, ih b hnx⟩

theorem Meets.bind {Q : β → Λ → Prop}
    (h : p.Meets I mine G (fun a l => (f a).Meets I mine G Q l) l) : (p >>= f).Meets I mine G Q l := by
  induction p generalizing l with
  | ret a => exact h
  | step act next ih =>
    intro s b s' hI hs hact
    obtain ⟨hG, hnx⟩ := h s b s' hI hs hact
    exact ⟨hG, ih b hnx⟩

/-- **Sequencing**: what the first program returns with is where the second one starts. -/
theorem Meets.seq {Q' : β → Λ → Prop} (h : p.Meets I mine G Q l)
    (hf : ∀ a l, Q a l → (f a).Meets I mine G Q' l) : (p >>= f).Meets I mine G Q' l :=
  .bind (h.imp hf)

variable {Q : β → Λ → Prop}

theorem Meets.stmt {act : σ → Option (β × σ)}
    (h : ∀ s b s', I s → mine s = l → act s = some (b, s') → G s s' ∧ Q b (mine s')) :
    (Txn.stmt act).Meets I mine G Q l := h

theorem Meets.query (hG : ∀ s, G s s) (h : ∀ s, I s → mine s = l → Q (q s) l) : (Txn.query q).Meets I mine G Q l := by
  intro s b s' hI hs hact
  cases hact
  refine ⟨hG s, ?_⟩
  rw [hs]
  exact h s hI hs

theorem Meets.foldlM {J : List γ → β → Λ → Prop} {f : β → γ → Txn σ β}
    (h : ∀ x rest b l, J (x :: rest) b l → (f b x).Meets I mine G (J rest) l) {xs : List γ} {b : β}
    (hl : J xs b l) : (xs.foldlM f b).Meets I mine G (J []) l := by
  induction xs generalizing b l with
  | nil => exact hl
  | cons x xs ih =>
    rw [List.foldlM_cons]
    exact Meets.bind ((h x xs b l hl).imp fun b' l' => ih)

end

/-! ### What the statements of a program keep to -/

section

variable (P : σ → σ → Prop)

/-- Every statement of the program acts within `P`, on whatever state it comes. -/
abbrev Only (p : Txn σ α) : Prop := p.Meets (fun _ => True) (fun _ => ()) P (fun _ _ => True) ()

variable {P}

theorem Only.bind {p : Txn σ α} (hp : p.Only P) (hf : ∀ a, (f a).Only P) : (p >>= f).Only P :=
  Meets.bind (hp.imp fun a _ _ => hf a)

theorem Only.stmt {act : σ → Option (β × σ)} (h : ∀ s b s', act s = some (b, s') → P s s') :
    (Txn.stmt act).Only P := fun s b s' _ _ hact => ⟨h s b s' hact, trivial⟩

theorem Only.query (hP : ∀ s, P s s) : (Txn.query q).Only P := Meets.query hP fun _ _ _ => trivial

end

end Txn

/-! ### Systems -/

structure System (ι κ ο σ α : Type) where
  prog : ι → κ → Txn σ α
  close : ι → α → σ → σ
  abort : ι → σ → σ
  effect : ο → σ → Option σ

/-- A database, and the programs running on it with the call each was started for. -/
structure Sessions (ι κ σ α : Type) : Type 1 where
  state : σ
  running : ι → Option (κ × Txn σ α)

def Sessions.quiet {ι κ σ α : Type} (s : σ) : Sessions ι κ σ α := ⟨s, fun _ => none⟩

/-- The call and the result of a program that has returned. -/
def Sessions.answer {ι κ σ α : Type} (t : ι) (S : Sessions ι κ σ α) : Option (κ × α) :=
  match S.running t with
  | some (call, .ret a) => some (call, a)
  | _ => none

theorem Sessions.running_of_answer {ι κ σ α : Type} {t : ι} {S : Sessions ι κ σ α} {call : κ} {a : α}
    (h : S.answer t = some (call, a)) : S.running t = some (call, .ret a) := by
  unfold Sessions.answer at h
  split at h
  · rename_i hS
    cases h
    exact hS
  · cases h

inductive Move (ι κ ο : Type) where
  | start (t : ι) (call : κ)
  | advance (t : ι)
  | fail (t : ι)
  | outside (op : ο)

namespace System

variable {ι κ ο σ α : Type} [DecidableEq ι] {Λ : Type*}

def step (Y : System ι κ ο σ α) (S : Sessions ι κ σ α) : Move ι κ ο → Option (Sessions ι κ σ α)
  | .start t call =>
    match S.running t with
    | none => some { S with running := Function.update S.running t (some (call, Y.prog t call)) }
    | some _ => none
  | .advance t =>
    match S.running t with
    | none => none
    | some (_, .ret a) => some ⟨Y.close t a S.state, Function.update S.running t none⟩
    | some (call, .step act next) =>
      (act S.state).map fun r => ⟨r.2, Function.update S.running t (some (call, next r.1))⟩
  | .fail t =>
    match S.running t with
    | none => none
    | some _ => some ⟨Y.abort t S.state, Function.update S.running t none⟩
  | .outside op => (Y.effect op S.state).map fun s => { S with state := s }

/-- A state after the end of a transaction: the invariant holds, the others have in hand what they had, and it has
nothing. -/
structure Left (I : σ → Prop) (mine : ι → σ → Λ) (nothing : Λ) (t : ι) (s s' : σ) : Prop where
  state : I s'
  others : ∀ u, u ≠ t → mine u s' = mine u s
  self : mine t s' = nothing

/-- What makes a system keep an invariant: what a transaction has in hand (`mine`), or when it is not running
(`nothing`), what its statements do (`G`) and what it returns with (`Q`). -/
structure Safe (Y : System ι κ ο σ α) (I : σ → Prop) (mine : ι → σ → Λ) (nothing : Λ) (G : ι → σ → σ → Prop)
    (Q : ι → κ → α → Λ → Prop) : Prop where
  start : ∀ t call, (Y.prog t call).Meets I (mine t) (G t) (Q t call) nothing
  keeps : ∀ t s s', I s → G t s s' → I s'
  /-- A statement of one transaction does not touch what another has in hand. -/
  others : ∀ t u s s', u ≠ t → I s → G t s s' → mine u s' = mine u s
  close : ∀ t call a s, I s → Q t call a (mine t s) → Left I mine nothing t s (Y.close t a s)
  abort : ∀ t s, I s → Left I mine nothing t s (Y.abort t s)
  /-- What else happens keeps the invariant and what all have in hand. -/
  effect : ∀ op s s', I s → Y.effect op s = some s' → I s' ∧ ∀ u, mine u s' = mine u s

variable {Y : System ι κ ο σ α} {I : σ → Prop} {mine : ι → σ → Λ} {nothing : Λ} {G : ι → σ → σ → Prop}
  {Q : ι → κ → α → Λ → Prop}

/-- The invariant holds, and every program meets its condition from where it stands. -/
structure Sound (I : σ → Prop) (mine : ι → σ → Λ) (nothing : Λ) (G : ι → σ → σ → Prop) (Q : ι → κ → α → Λ → Prop)
    (S : Sessions ι κ σ α) : Prop where
  state : I S.state
  idle : ∀ t, S.running t = none → mine t S.state = nothing
  running : ∀ t call p, S.running t = some (call, p) → p.Meets I (mine t) (G t) (Q t call) (mine t S.state)

variable {s : σ} {call : κ} {a : α}

omit [DecidableEq ι] in
theorem sound_quiet (hI : I s) (hnth : ∀ t, mine t s = nothing) :
    Sound I mine nothing G Q (Sessions.quiet s : Sessions ι κ σ α) where
  state := hI
  idle t _ := hnth t
  running _ _ _ h := by cases h

variable {r : Option (κ × Txn σ α)} {t : ι} {S : Sessions ι κ σ α}

theorem Sound.update (hS : Sound I mine nothing G Q S) (hI : I s)
    (hoth : ∀ u, u ≠ t → mine u s = mine u S.state) (hidl : r = none → mine t s = nothing)
    (hrng : ∀ call p, r = some (call, p) → p.Meets I (mine t) (G t) (Q t call) (mine t s)) :
    Sound I mine nothing G Q ⟨s, update S.running t r⟩ where
  state := hI
  idle u hu := by
    rcases update_cases hu with ⟨rfl, hr⟩ | ⟨ht, hu⟩
    · exact hidl hr
    · exact (hoth u ht).trans (hS.idle u hu)
  running u call p hu := by
    rcases update_cases hu with ⟨rfl, hr⟩ | ⟨ht, hu⟩
    · exact hrng call p hr
    · dsimp only
      rw [hoth u ht]
      exact hS.running u call p hu

theorem Sound.left (hS : Sound I mine nothing G Q S)
    (h : Left I mine nothing t S.state s) : Sound I mine nothing G Q ⟨s, Function.update S.running t none⟩ :=
  hS.update h.state h.others (fun _ => h.self) nofun

inductive Does (Y : System ι κ ο σ α) (mine : ι → σ → Λ) (G : ι → σ → σ → Prop) (Q : ι → κ → α → Λ → Prop)
    (S : Sessions ι κ σ α) : Move ι κ ο → σ → Prop
  | start (t : ι) (call : κ) : Does Y mine G Q S (.start t call) S.state
  | act (t : ι) (s : σ) (h : G t S.state s) : Does Y mine G Q S (.advance t) s
  | close (t : ι) (call : κ) (a : α) (hret : S.running t = some (call, .ret a)) (hQ : Q t call a (mine t S.state)) :
    Does Y mine G Q S (.advance t) (Y.close t a S.state)
  | abort (t : ι) : Does Y mine G Q S (.fail t) (Y.abort t S.state)
  | outside (op : ο) (s : σ) (h : Y.effect op S.state = some s) : Does Y mine G Q S (.outside op) s

variable {m : Move ι κ ο} {S S' : Sessions ι κ σ α}

theorem Safe.step_cases (hY : Y.Safe I mine nothing G Q) (hS : Sound I mine nothing G Q S)
    (h : Y.step S m = some S') : Sound I mine nothing G Q S' ∧ Does Y mine G Q S m S'.state := by
  cases m with
  | start t call =>
    rw [step] at h
    cases hr : S.running t with
    | some r =>
      rw [hr] at h
      cases h
    | none =>
      rw [hr] at h
      cases h
      refine ⟨hS.update hS.state (fun _ _ => rfl) (nofun) fun c p hcp => ?_, .start t call⟩
      cases hcp
      rw [hS.idle t hr]
      exact hY.start t call
  | advance t =>
    rw [step] at h
    match hr : S.running t with
    | none =>
      rw [hr] at h
      cases h
    | some (call, .ret a) =>
      rw [hr] at h
      cases h
      have hQ : Q t call a (mine t S.state) := hS.running t call _ hr
      exact ⟨hS.left (hY.close t call a S.state hS.state hQ), .close t call a hr hQ⟩
    | some (call, .step act next) =>
      rw [hr] at h
      obtain ⟨⟨b, s⟩, hact, rfl⟩ := map_eq_some_iff.mp h
      obtain ⟨hG, hnx⟩ := hS.running t call _ hr S.state b s hS.state rfl hact
      refine ⟨hS.update (hY.keeps t S.state s hS.state hG) (fun u hu => hY.others t u S.state s hu hS.state hG)
        (nofun) fun c p h => ?_, .act t s hG⟩
      cases h
      exact hnx
  | fail t =>
    rw [step] at h
    cases hr : S.running t with
    | none =>
      rw [hr] at h
      cases h
    | some r =>
      rw [hr] at h
      cases h
      exact ⟨hS.left (hY.abort t S.state hS.state), .abort t⟩
  | outside op =>
    rw [step] at h
    obtain ⟨s, hs, rfl⟩ := map_eq_some_iff.mp h
    obtain ⟨hI, hmn⟩ := hY.effect op S.state s hS.state hs
    refine ⟨⟨hI, fun u hu => (hmn u).trans (hS.idle u hu), fun u c p hu => ?_⟩, .outside op s hs⟩
    dsimp only
    rw [hmn u]
    exact hS.running u c p hu

/-- **What every transaction has in hand stays as `P` says**, if its statements keep it so. -/
theorem Safe.hand_step (hY : Y.Safe I mine nothing G Q) (hS : Sound I mine nothing G Q S) {P : Λ → Prop}
    (hnot : P nothing) (hG : ∀ t s s', P (mine t s) → G t s s' → P (mine t s')) (hP : ∀ t, P (mine t S.state))
    (h : Y.step S m = some S') : ∀ t, P (mine t S'.state) := by
  obtain ⟨-, hds⟩ := hY.step_cases hS h
  have hlf : ∀ {t s}, Left I mine nothing t S.state s → ∀ r, P (mine r s) := fun {t s} hs r => by
    by_cases hr : r = t
    · subst hr
      rw [hs.self]
      exact hnot
    · rw [hs.others r hr]
      exact hP r
  generalize S'.state = s' at hds ⊢
  cases hds with
  | start t call => exact hP
  | act t _ hac =>
    intro r
    by_cases hr : r = t
    · subst hr
      exact hG r S.state s' (hP r) hac
    · rw [hY.others t r S.state s' hr hS.state hac]
      exact hP r
  | close t call a hret hQ => exact hlf (hY.close t call a S.state hS.state hQ)
  | abort t => exact hlf (hY.abort t S.state hS.state)
  | outside op _ heff =>
    intro r
    rw [(hY.effect op S.state s' hS.state heff).2 r]
    exact hP r

omit [DecidableEq ι] in
theorem Sound.returned (hS : Sound I mine nothing G Q S)
    (hret : S.running t = some (call, .ret a)) : Q t call a (mine t S.state) := hS.running t call _ hret

theorem step_returned (hret : S.running t = some (call, .ret a))
    (h : Y.step S (.advance t) = some S') : S'.state = Y.close t a S.state := by
  rw [step, hret] at h
  rw [← some.inj h]

/-! ### The programs that run -/

section

variable {E : ι → κ → Txn σ α → Prop} {D : κ → Txn σ α → Prop} {C : κ → Prop} {P : σ → σ → Prop}

/-- Each program that runs, and its call, is as `E` says of its session. -/
def ProgramsAt (E : ι → κ → Txn σ α → Prop) (S : Sessions ι κ σ α) : Prop :=
  ∀ t call p, S.running t = some (call, p) → E t call p

omit [DecidableEq ι] in
theorem programsAt_quiet (s : σ) : ProgramsAt E (Sessions.quiet s : Sessions ι κ σ α) := nofun

theorem ProgramsAt.update (hS : ProgramsAt E S)
    (hr : ∀ call p, r = some (call, p) → E t call p) : ProgramsAt E ⟨s, update S.running t r⟩ := by
  intro u call p hu
  rcases update_cases hu with ⟨rfl, hnew⟩ | ⟨-, hu⟩
  · exact hr call p hnew
  · exact hS u call p hu

/-- **A move** keeps this, if a call that begins is so and a statement leaves a program that is so. -/
theorem ProgramsAt.step (hS : ProgramsAt E S) (hsta : ∀ t call, m = .start t call → E t call (Y.prog t call))
    (hnx : ∀ t call β act next s b s', E t call (.step (β := β) act next) → act s = some (b, s') → E t call (next b))
    (h : Y.step S m = some S') : ProgramsAt E S' := by
  have hno : ∀ t call p, (none : Option (κ × Txn σ α)) = some (call, p) → E t call p := nofun
  cases m with
  | start t call =>
    rw [System.step] at h
    split at h
    · cases h
      refine hS.update fun call' p hp => ?_
      cases hp
      exact hsta t call rfl
    · cases h
  | advance t =>
    rw [System.step] at h
    match hr : S.running t with
    | none =>
      rw [hr] at h
      cases h
    | some (call, .ret a) =>
      rw [hr] at h
      cases h
      exact hS.update (hno t)
    | some (call, .step act next) =>
      rw [hr] at h
      obtain ⟨⟨b, s⟩, hact, rfl⟩ := map_eq_some_iff.mp h
      refine hS.update fun call' p hp => ?_
      cases hp
      exact hnx t call _ act next S.state b s (hS t call _ hr) hact
  | fail t =>
    rw [System.step] at h
    split at h
    · cases h
    · cases h
      exact hS.update (hno t)
  | outside op =>
    rw [System.step] at h
    obtain ⟨s, -, rfl⟩ := map_eq_some_iff.mp h
    exact hS

/-- The programs that run, and their calls, are as `D` says. -/
def Programs (D : κ → Txn σ α → Prop) (S : Sessions ι κ σ α) : Prop := ∀ t call p, S.running t = some (call, p) →
    D call p

omit [DecidableEq ι] in
theorem programs_quiet (s : σ) : Programs D (Sessions.quiet s : Sessions ι κ σ α) := nofun

theorem Programs.step (hS : Programs D S) (hsta : ∀ t call, m = .start t call → D call (Y.prog t call))
    (hnx : ∀ call β act next s b s', D call (.step (β := β) act next) → act s = some (b, s') → D call (next b))
    (h : Y.step S m = some S') : Programs D S' :=
  ProgramsAt.step (E := fun _ => D) hS hsta (fun _ => hnx) h

abbrev Calls (C : κ → Prop) (S : Sessions ι κ σ α) : Prop := Programs (fun call _ => C call) S

theorem Calls.step (hS : Calls C S) (hm : ∀ t call, m = .start t call → C call)
    (h : Y.step S m = some S') : Calls C S' :=
  Programs.step hS hm (fun _ _ _ _ _ _ _ hC _ => hC) h

abbrev Keeping (C : κ → Prop) (P : σ → σ → Prop) (S : Sessions ι κ σ α) : Prop :=
  Programs (fun call p => C call → p.Only P) S

theorem Keeping.step (hY : ∀ t call, C call → (Y.prog t call).Only P) (hS : Keeping C P S)
    (h : Y.step S m = some S') : Keeping C P S' :=
  Programs.step hS (fun t call _ => hY t call) (fun _ _ _ _ s b s' hp hact hC => (hp hC s b s' trivial rfl hact).2) h

theorem Keeping.act (hS : Keeping C P S) {β : Type} {act : σ → Option (β × σ)}
    {next : β → Txn σ α} (hr : S.running t = some (call, .step act next)) (hC : C call)
    (h : Y.step S (.advance t) = some S') : P S.state S'.state := by
  rw [System.step, hr] at h
  obtain ⟨⟨b, s⟩, hact, rfl⟩ := map_eq_some_iff.mp h
  exact (hS t call _ hr hC S.state b s trivial rfl hact).1

end

/-! ### A program on its own -/

variable {n : ℕ}

section

variable {Q : α → σ → Prop} {t : ι}

theorem run_advance_none (hr : S.running t = none) (h : Theory.run Y.step S (List.replicate n (.advance t)) = some S') :
    S' = S := by
  cases n with
  | zero => exact (some.inj h).symm
  | succ n =>
    obtain ⟨S₁, hS₁, -⟩ := run_cons.mp h
    rw [step, hr] at hS₁
    cases hS₁

/-- **A program on its own** returns with what its condition over the whole state says. -/
theorem run_alone {call' : κ} {p : Txn σ α} (hr : S.running t = some (call, p))
    (hp : p.Meets (fun _ => True) id (fun _ _ => True) Q S.state)
    (h : Theory.run Y.step S (List.replicate n (.advance t)) = some S') (hret : S'.running t = some (call', .ret a)) :
    Q a S'.state := by
  induction n generalizing S p with
  | zero =>
    cases h
    rw [hr] at hret
    cases hret
    exact hp
  | succ n ih =>
    obtain ⟨S₁, hS₁, hrun⟩ := run_cons.mp h
    rw [step, hr] at hS₁
    cases p with
    | ret b =>
      cases hS₁
      have hnn : update S.running t none t = none := update_self ..
      obtain rfl := run_advance_none hnn hrun
      cases hnn.symm.trans hret
    | step act next =>
      obtain ⟨⟨b, s⟩, hact, rfl⟩ := map_eq_some_iff.mp hS₁
      exact ih (update_self ..) (hp S.state b s trivial rfl hact).2 hrun

end

/-- **Every schedule** of a safe system keeps the invariant, and every program its condition from where it stands. -/
theorem Safe.run (hY : Y.Safe I mine nothing G Q) {moves : List (Move ι κ ο)}
    (hS : Sound I mine nothing G Q S) (h : Theory.run Y.step S moves = some S') : Sound I mine nothing G Q S' :=
  run_invariant (fun _ _ _ hS h => (hY.step_cases hS h).1) hS h

end System

end OpenVibes.Theory
