import Mathlib.Tactic

/-!
# Programs of atomic steps

A program that works on a shared state in steps, each of which is carried out as a whole or fails. Between two steps
others may change the state, and the program may be stopped. `run` carries out a program alone, with a list that says
which steps fail and where it stops; `exec` is the run without a failure. A `Pool` is a state with the programs that are
running on it, and `Pool.acts` a schedule of them.
-/

namespace OpenVibes.Theory

open List

/-- A program that works on a state `σ` in atomic steps and returns an `α`. -/
inductive Prog (σ α : Type) where
  | ret (a : α)
  /-- A step acts on the state, or fails and leaves it; what comes next depends on the state it acted on, or on its
  failure (`none`). -/
  | step (act : σ → σ) (next : Option σ → Prog σ α)

namespace Prog

variable {σ α β ε : Type}

def bind : Prog σ α → (α → Prog σ β) → Prog σ β
  | .ret a, f => f a
  | .step act next, f => .step act fun o => (next o).bind f

instance : Monad (Prog σ) where
  pure := .ret
  bind := Prog.bind

def query (e : ε) (q : σ → α) : ExceptT ε (Prog σ) α :=
  .step id fun
    | some s => .ret (.ok (q s))
    | none => .ret (.error e)

/-- A transaction: it commits, or is rolled back with an error of its own. -/
def transaction (e : ε) (t : σ → Except ε (σ × α)) : ExceptT ε (Prog σ) α :=
  .step (fun s => match t s with
      | .ok (s', _) => s'
      | .error _ => s) fun
    | some s => .ret ((t s).map Prod.snd)
    | none => .ret (.error e)

/-- A statement: it acts on the state and returns what it found there. -/
def stmt (e : ε) (act : σ → σ) (q : σ → α) : ExceptT ε (Prog σ) α :=
  .step act fun
    | some s => .ret (.ok (q s))
    | none => .ret (.error e)

def attempt (act : σ → σ) : ExceptT ε (Prog σ) Unit := .step act fun _ => .ret (.ok ())

/-! ### Runs of one program -/

/-- A run of a program alone: the list says which steps are carried out, and where it ends, the program is stopped. -/
def run : List Bool → Prog σ α → σ → σ × Option α
  | _, .ret a, s => (s, some a)
  | [], .step _ _, s => (s, none)
  | true :: outcomes, .step act next, s => run outcomes (next (some s)) (act s)
  | false :: outcomes, .step _ next, s => run outcomes (next none) s

def exec : Prog σ α → σ → α × σ
  | .ret a, s => (a, s)
  | .step act next, s => (next (some s)).exec (act s)

theorem exec_bind (p : Prog σ α) (f : α → Prog σ β) (s : σ) :
    (p >>= f).exec s = (f (p.exec s).1).exec (p.exec s).2 := by
  induction p generalizing s with
  | ret a => rfl
  | step act next ih => exact ih (some s) (act s)

/-! ### What a program meets among others -/

/-- Whatever the others do to the state within `R`, the steps of the program act on it within
`G`, and it returns with `Q`. -/
def Meets (R G : σ → σ → Prop) (Q : α → σ → Prop) : Prog σ α → σ → Prop
  | .ret a, s => ∀ s', Relation.ReflTransGen R s s' → Q a s'
  | .step act next, s => ∀ s', Relation.ReflTransGen R s s' →
      G s' (act s') ∧ (next (some s')).Meets R G Q (act s') ∧ (next none).Meets R G Q s'

variable {s : σ} {p : Prog σ α} {act : σ → σ} {Q' : α → σ → Prop} {a : α} {f : α → ExceptT ε (Prog σ) β} {q : σ → α}
  {γ : Type} (e : ε)

variable {s' : σ} {next : Option σ → Prog σ α} {t : σ → Except ε (σ × α)} {F : σ → Prop}

section

variable {R G : σ → σ → Prop} {Q : α → σ → Prop} {P : σ → Prop}

theorem Meets.of_rely (h : p.Meets R G Q s) (hr : R s s') : p.Meets R G Q s' := by
  cases p with
  | ret | step => exact fun t ht => h t (ht.head hr)

theorem stable_reflTransGen (hP : ∀ s s', R s s' → P s → P s') (h : Relation.ReflTransGen R s s')
    (hs : P s) : P s' := by
  induction h with
  | refl => exact hs
  | tail _ hr ih => exact hP _ _ hr ih

theorem Meets.step (hP : ∀ s s', R s s' → P s → P s') (hs : P s)
    (h : ∀ s, P s → G s (act s) ∧ (next (some s)).Meets R G Q (act s) ∧ (next none).Meets R G Q s) :
    (Prog.step act next).Meets R G Q s :=
  fun s' hr => h s' (stable_reflTransGen hP hr hs)

theorem Meets.bind {f : α → Prog σ β} {Q : β → σ → Prop} (h : p.Meets R G (fun a s => (f a).Meets R G Q s) s) :
    (p.bind f).Meets R G Q s := by
  induction p generalizing s with
  | ret a => exact h s .refl
  | step act next ih =>
    intro s' hs
    obtain ⟨hg, hok, hfl⟩ := h s' hs
    exact ⟨hg, ih _ hok, ih _ hfl⟩

theorem Meets.imp (h : p.Meets R G Q s) (hq : ∀ a s, Q a s → Q' a s) : p.Meets R G Q' s := by
  induction p generalizing s with
  | ret a => exact fun s' hr => hq a s' (h s' hr)
  | step act next ih =>
    intro s' hr
    obtain ⟨hg, hok, hfl⟩ := h s' hr
    exact ⟨hg, ih _ hok, ih _ hfl⟩

/-- The condition on the result of a fallible program: an error has none. -/
def OnOk (Q : α → σ → Prop) : Except ε α → σ → Prop
  | .ok a, s => Q a s
  | .error _, _ => True

theorem meets_error (Q : α → σ → Prop) (s : σ) : (Prog.ret (.error e) : Prog σ (Except ε α)).Meets R G (OnOk Q) s :=
  fun _ _ => trivial

theorem meets_pure (a : α) (s : σ) : Prog.Meets R G (OnOk fun _ _ => True) (Pure.pure a : ExceptT ε (Prog σ) α) s :=
  fun _ _ => trivial

theorem Meets.except_bind {p : ExceptT ε (Prog σ) α} {Q' : β → σ → Prop} (h : Prog.Meets R G (OnOk Q) p s)
    (hf : ∀ a s, Q a s → Prog.Meets R G (OnOk Q') (f a) s) :
    Prog.Meets R G (OnOk Q') (p >>= f : ExceptT ε (Prog σ) β) s := by
  refine .bind (h.imp fun r s hr => ?_)
  cases r with
  | ok a => exact hf a s hr
  | error e => exact meets_error e Q' s

section

variable (hP : ∀ s s', R s s' → P s → P s')

include hP

theorem Meets.pure (hs : P s) (h : ∀ s, P s → Q a s) : Prog.Meets R G (OnOk Q) (Pure.pure a : ExceptT ε (Prog σ) α) s :=
  fun s' hr => h s' (stable_reflTransGen hP hr hs)

variable {e : ε}

theorem Meets.query_bind (hG : ∀ s, G s s) {Q : β → σ → Prop} (hs : P s)
    (h : ∀ s, P s → Prog.Meets R G (OnOk Q) (f (q s)) s) :
    Prog.Meets R G (OnOk Q) (Prog.query e q >>= f : ExceptT ε (Prog σ) β) s :=
  Meets.step hP hs fun s' hs' => ⟨hG s', h s' hs', meets_error e Q s'⟩

theorem Meets.transaction_bind (hG : ∀ s, G s s) {Q : β → σ → Prop} (hs : P s)
    (h : ∀ s s' a, P s → t s = .ok (s', a) → G s s' ∧ Prog.Meets R G (OnOk Q) (f a) s') :
    Prog.Meets R G (OnOk Q) (Prog.transaction e t >>= f : ExceptT ε (Prog σ) β) s := by
  refine .step hP hs fun s' hs' => ?_
  dsimp only [Prog.bind]
  cases ht : t s' with
  | ok r =>
    obtain ⟨hg, hf⟩ := h s' r.1 r.2 hs' ht
    exact ⟨hg, hf, meets_error e Q s'⟩
  | error e' => exact ⟨hG s', meets_error e' Q s', meets_error e Q s'⟩

theorem Meets.stmt_bind {Q : β → σ → Prop} (hs : P s)
    (h : ∀ s, P s → G s (act s) ∧ Prog.Meets R G (OnOk Q) (f (q s)) (act s)) :
    Prog.Meets R G (OnOk Q) (Prog.stmt e act q >>= f : ExceptT ε (Prog σ) β) s :=
  Meets.step hP hs fun s' hs' => ⟨(h s' hs').1, (h s' hs').2, meets_error e Q s'⟩

theorem Meets.stmt (hs : P s)
    (h : ∀ s, P s → G s (act s) ∧ ∀ s', Relation.ReflTransGen R (act s) s' → Q (q s) s') :
    Prog.Meets R G (OnOk Q) (Prog.stmt e act q : ExceptT ε (Prog σ) α) s :=
  Meets.step hP hs fun s' hs' => ⟨(h s' hs').1, (h s' hs').2, meets_error e Q s'⟩

theorem Meets.attempt_bind {f : Unit → ExceptT ε (Prog σ) β} {Q : β → σ → Prop} (hs : P s)
    (h : ∀ s, P s → G s (act s) ∧ Prog.Meets R G (OnOk Q) (f ()) (act s) ∧ Prog.Meets R G (OnOk Q) (f ()) s) :
    Prog.Meets R G (OnOk Q) (Prog.attempt act >>= f : ExceptT ε (Prog σ) β) s :=
  Meets.step hP hs h

end

theorem Meets.foldlM {I : List γ → σ → Prop} (hI : ∀ done s s', R s s' → I done s → I done s')
    {f : β → γ → ExceptT ε (Prog σ) β} {xs : List γ}
    (h : ∀ done, ∀ x ∈ xs, ∀ b s, I done s → Prog.Meets R G (OnOk fun _ => I (done ++ [x])) (f b x) s) (done : List γ)
    (b : β) (hs : I done s) :
    Prog.Meets R G (OnOk fun _ => I (done ++ xs)) (xs.foldlM f b : ExceptT ε (Prog σ) β) s := by
  induction xs generalizing done b s with
  | nil =>
    rw [append_nil]
    exact .pure (hI done) hs fun _ hs => hs
  | cons x xs ih =>
    rw [foldlM_cons, append_cons]
    exact .except_bind (h done x mem_cons_self b s hs) fun b' s' hs' =>
      ih (fun done x hx => h done x (mem_cons_of_mem _ hx)) (done ++ [x]) b' hs'

end

/-! ### What a program alone keeps -/

/-- In a run of the program alone, every step leaves a state as `I` says, and it returns with `Q`. -/
def Always (I : σ → Prop) (Q : α → σ → Prop) : Prog σ α → σ → Prop
  | .ret a, s => Q a s
  | .step act next, s => I (act s) ∧ (next (some s)).Always I Q (act s) ∧ (next none).Always I Q s

section

variable {I : σ → Prop} {Q : α → σ → Prop}

/-- **Every run of a program is as it always is**, wherever it stops and whichever steps fail. -/
theorem Always.run (h : p.Always I Q s) (hs : I s) (outs : List Bool) :
    I (p.run outs s).1 ∧ ∀ a, (p.run outs s).2 = some a → Q a (p.run outs s).1 := by
  induction p generalizing s outs with
  | ret a =>
    rw [Prog.run]
    exact ⟨hs, fun b hb => Option.some.inj hb ▸ h⟩
  | step act next ih =>
    obtain ⟨hact, hok, hfl⟩ := h
    cases outs with
    | nil => exact ⟨hs, fun _ hb => nomatch hb⟩
    | cons b outs =>
      cases b with
      | true => exact ih (some s) hok hact outs
      | false => exact ih none hfl hs outs

theorem Always.bind {f : α → Prog σ β} {Q : β → σ → Prop} (h : p.Always I (fun a s => (f a).Always I Q s) s) :
    (p.bind f).Always I Q s := by
  induction p generalizing s with
  | ret a => exact h
  | step act next ih => exact ⟨h.1, ih _ h.2.1, ih _ h.2.2⟩

theorem Always.imp {J : σ → Prop} (h : p.Always I Q s) (hI : ∀ s, I s → J s) (hq : ∀ a s, Q a s → Q' a s) :
    p.Always J Q' s := by
  induction p generalizing s with
  | ret a => exact hq a s h
  | step act next ih => exact ⟨hI _ h.1, ih _ h.2.1, ih _ h.2.2⟩

theorem always_of_forall (h : ∀ a s, Q a s) (p : Prog σ α) (s : σ) : p.Always (fun _ => True) Q s := by
  induction p generalizing s with
  | ret a => exact h a s
  | step act next ih => exact ⟨trivial, ih _ _, ih _ _⟩

variable {Q : Except ε β → σ → Prop}

theorem Always.except_bind {p : ExceptT ε (Prog σ) α} (h : Prog.Always I (fun r s => match r with
      | .ok a => Prog.Always I Q (f a) s
      | .error e => Q (.error e) s) p s) : Prog.Always I Q (p >>= f : ExceptT ε (Prog σ) β) s := by
  refine .bind (h.imp (fun _ hs => hs) fun r s hr => ?_)
  cases r with
  | ok | error => exact hr

/-- **Sequencing**: where the first program returns, the second one starts; an error ends both. -/
theorem Always.seq {p : ExceptT ε (Prog σ) α} {Q : α → σ → Prop} {Q' : β → σ → Prop} (h : Prog.Always I (OnOk Q) p s)
    (hf : ∀ a s, Q a s → Prog.Always I (OnOk Q') (f a) s) :
    Prog.Always I (OnOk Q') (p >>= f : ExceptT ε (Prog σ) β) s := by
  refine .bind (h.imp (fun _ hs => hs) fun r s hr => ?_)
  cases r with
  | ok a => exact hf a s hr
  | error e => trivial

theorem Always.foldlM {J : β → σ → Prop} {f : β → γ → ExceptT ε (Prog σ) β}
    (h : ∀ b x s, J b s → Prog.Always I (OnOk J) (f b x) s) (xs : List γ) {b : β} (hs : J b s) :
    Prog.Always I (OnOk J) (xs.foldlM f b : ExceptT ε (Prog σ) β) s := by
  induction xs generalizing b s with
  | nil => exact hs
  | cons x xs ih =>
    rw [foldlM_cons]
    exact .seq (h b x s hs) fun b' s' => ih

theorem Always.lift_bind (h : p.Always I (fun a s => Prog.Always I Q (f a) s) s) :
    Prog.Always I Q (ExceptT.lift p >>= f : ExceptT ε (Prog σ) β) s :=
  Always.except_bind (Always.bind h)

end

/-! ### Pre- and postconditions -/

/-- From a state as `P` says, every step of the program alone leaves a state to which `R` leads, and it returns with
`Q`. -/
def Keeps (R : σ → σ → Prop) (P : σ → Prop) (p : Prog σ α) (Q : α → σ → Prop) : Prop :=
  ∀ s, P s → p.Always (R s) (fun a s' => R s s' ∧ Q a s') s

section

variable {R : σ → σ → Prop} {P : σ → Prop} {Q : α → σ → Prop}

theorem Keeps.imp {P' : σ → Prop} (h : p.Keeps R P Q) (hP : ∀ s, P' s → P s) (hQ : ∀ a s, Q a s → Q' a s) :
    p.Keeps R P' Q' :=
  fun s hs => (h s (hP s hs)).imp (fun _ h => h) fun a s' h => ⟨h.1, hQ a s' h.2⟩

theorem Keeps.of_true (h : p.Keeps R (fun _ => True) Q) : p.Keeps R P Q := h.imp (fun _ _ => trivial) fun _ _ h => h

theorem Keeps.frame (h : p.Keeps R (fun _ => True) Q) (hF : ∀ s s', R s s' → F s → F s') :
    p.Keeps R F fun a s => Q a s ∧ F s :=
  fun s hs => (h s trivial).imp (fun _ h => h) fun _ s' h => ⟨h.1, h.2, hF s s' h.1 hs⟩

theorem Keeps.except_frame {p : ExceptT ε (Prog σ) α} (h : Prog.Keeps R (fun _ => True) p (OnOk Q))
    (hF : ∀ s s', R s s' → F s → F s') : Prog.Keeps R F p (OnOk fun a s => Q a s ∧ F s) := by
  refine (Keeps.frame h hF).imp (fun _ h => h) fun r s hs => ?_
  cases r with
  | ok a => exact hs
  | error e => trivial

variable [IsPreorder σ R]

theorem Keeps.ret (h : ∀ s, P s → Q a s) : (Prog.ret a).Keeps R P Q := fun s hs => ⟨refl_of R s, h s hs⟩

theorem Keeps.step (h : ∀ s, P s → R s (act s) ∧ (next (some s)).Keeps R (fun s' => s' = act s) Q ∧
      (next none).Keeps R (fun s' => s' = s) Q) : (Prog.step act next).Keeps R P Q := by
  intro s hs
  obtain ⟨hact, hok, hfl⟩ := h s hs
  refine ⟨hact, ?_, hfl s rfl⟩
  exact (hok _ rfl).imp (fun _ h => trans_of R hact h) fun a s' h => ⟨trans_of R hact h.1, h.2⟩

variable {Q' : β → σ → Prop}

theorem Keeps.bind {f : α → Prog σ β} (h : p.Keeps R P Q) (hf : ∀ a, (f a).Keeps R (Q a) Q') :
    (p >>= f).Keeps R P Q' := by
  intro s hs
  refine .bind ((h s hs).imp (fun _ h => h) fun a s' ⟨hr, hq⟩ => ?_)
  exact (hf a s' hq).imp (fun _ h => trans_of R hr h) fun b s'' h => ⟨trans_of R hr h.1, h.2⟩

theorem Keeps.except_bind {p : ExceptT ε (Prog σ) α} (h : Prog.Keeps R P p (OnOk Q))
    (hf : ∀ a, Prog.Keeps R (Q a) (f a) (OnOk Q')) : Prog.Keeps R P (p >>= f : ExceptT ε (Prog σ) β) (OnOk Q') := by
  refine .bind h fun r => ?_
  cases r with
  | ok a => exact hf a
  | error e => exact .ret fun _ _ => trivial

theorem Keeps.lift (h : p.Keeps R P Q) : Prog.Keeps R P (ExceptT.lift p : ExceptT ε (Prog σ) α) (OnOk Q) :=
  Keeps.bind h fun _ => Keeps.ret fun _ hs => hs

theorem Keeps.pure (h : ∀ s, P s → Q a s) : Prog.Keeps R P (Pure.pure a : ExceptT ε (Prog σ) α) (OnOk Q) := Keeps.ret h

theorem Keeps.throw : Prog.Keeps R P (MonadExcept.throw e : ExceptT ε (Prog σ) α) (OnOk Q) :=
  Keeps.ret fun _ _ => trivial

theorem Keeps.stmt {e : ε} (h : ∀ s, P s → R s (act s) ∧ Q (q s) (act s)) :
    Prog.Keeps R P (Prog.stmt e act q) (OnOk Q) :=
  Keeps.step fun s hs => ⟨(h s hs).1, Keeps.ret fun _ hs' => hs' ▸ (h s hs).2, Keeps.ret fun _ _ => trivial⟩

theorem Keeps.foldlM {I : β → σ → Prop} {f : β → γ → Prog σ β} (h : ∀ b x, (f b x).Keeps R (I b) I) (xs : List γ)
    (b : β) : (xs.foldlM f b).Keeps R (I b) I := by
  induction xs generalizing b with
  | nil => exact .ret fun _ hs => hs
  | cons x xs ih =>
    rw [foldlM_cons]
    exact .bind (h b x) ih

end

/-! ### What every step does -/

/-- Every step of the program, from whatever state, acts within `G`. -/
def Within (G : σ → σ → Prop) : Prog σ α → Prop
  | .ret _ => True
  | .step act next => (∀ s, G s (act s)) ∧ ∀ o, (next o).Within G

section

variable {G : σ → σ → Prop}

theorem Within.run (h : p.Within G) {I : σ → Prop} (hI : ∀ s s', G s s' → I s → I s') (hs : I s)
    (outs : List Bool) : I (p.run outs s).1 := by
  induction p generalizing s outs with
  | ret a =>
    rw [Prog.run]
    exact hs
  | step act next ih =>
    cases outs with
    | nil => exact hs
    | cons b outs =>
      cases b with
      | true => exact ih (some s) (h.2 _) (hI _ _ (h.1 s) hs) outs
      | false => exact ih none (h.2 _) hs outs

theorem Within.always (h : p.Within G) {F : σ → Prop} (hF : ∀ s s', G s s' → F s → F s') (hs : F s) :
    p.Always (fun _ => True) (fun _ => F) s := by
  induction p generalizing s with
  | ret a => exact hs
  | step act next ih => exact ⟨trivial, ih _ (h.2 _) (hF _ _ (h.1 s) hs), ih _ (h.2 _) hs⟩

theorem Within.imp {G' : σ → σ → Prop} (h : p.Within G) (hG : ∀ s s', G s s' → G' s s') : p.Within G' := by
  induction p with
  | ret a => trivial
  | step act next ih => exact ⟨fun s => hG _ _ (h.1 s), fun o => ih o (h.2 o)⟩

theorem Within.bind {f : α → Prog σ β} (h : p.Within G) (hf : ∀ a, (f a).Within G) : (p.bind f).Within G := by
  induction p with
  | ret a => exact hf a
  | step act next ih => exact ⟨h.1, fun o => ih o (h.2 o)⟩

theorem Within.except_bind {p : ExceptT ε (Prog σ) α} (h : Prog.Within G p) (hf : ∀ a, Prog.Within G (f a)) :
    Prog.Within G (p >>= f : ExceptT ε (Prog σ) β) := by
  refine .bind h fun r => ?_
  cases r with
  | ok a => exact hf a
  | error e => trivial

theorem Within.foldlM {f : β → γ → ExceptT ε (Prog σ) β} (h : ∀ b x, Prog.Within G (f b x)) (xs : List γ) (b : β) :
    Prog.Within G (xs.foldlM f b : ExceptT ε (Prog σ) β) := by
  induction xs generalizing b with
  | nil => trivial
  | cons x xs ih =>
    rw [foldlM_cons]
    exact .except_bind (h b x) ih

theorem Within.query (hG : ∀ s, G s s) (e : ε) (q : σ → α) : Prog.Within G (Prog.query e q) := by
  refine ⟨hG, fun o => ?_⟩
  cases o <;> trivial

theorem Within.transaction (hG : ∀ s, G s s) (e : ε) (ht : ∀ s s' a, t s = .ok (s', a) → G s s') :
    Prog.Within G (Prog.transaction e t) := by
  refine ⟨fun s => ?_, fun o => ?_⟩
  · cases h : t s with
    | ok r => simpa [h] using ht s r.1 r.2 h
    | error e => simpa [h] using hG s
  · cases o <;> trivial

theorem Within.stmt (h : ∀ s, G s (act s)) (q : σ → α) : Prog.Within G (Prog.stmt e act q) := by
  refine ⟨h, fun o => ?_⟩
  cases o <;> trivial

end

/-! ### Programs on a part of the state -/

def zoom {τ : Type} (get : τ → σ) (set : τ → σ → τ) : Prog σ α → Prog τ α
  | .ret a => .ret a
  | .step act next => .step (fun t => set t (act (get t))) fun o => (next (o.map get)).zoom get set

theorem Within.zoom {τ : Type} {get : τ → σ} {set : τ → σ → τ} {G : σ → σ → Prop} {G' : τ → τ → Prop} (h : p.Within G)
    (hG : ∀ t s, G (get t) s → G' t (set t s)) : (p.zoom get set).Within G' := by
  induction p with
  | ret a => trivial
  | step act next ih => exact ⟨fun t => hG t _ (h.1 _), fun o => ih _ (h.2 _)⟩

/-! ### Programs side by side -/

def isRet : Prog σ α → Bool
  | .ret _ => true
  | .step _ _ => false

def advance : Prog σ α → Bool → σ → Prog σ α × σ
  | .ret a, _, s => (.ret a, s)
  | .step act next, true, s => (next (some s), act s)
  | .step _ next, false, s => (next none, s)

theorem Meets.advance {R G : σ → σ → Prop} {Q : α → σ → Prop} (h : p.Meets R G Q s) (b : Bool) :
    (p.advance b s).1.Meets R G Q (p.advance b s).2 ∧ ((p.advance b s).2 = s ∨ G s (p.advance b s).2) := by
  cases p with
  | ret a => exact ⟨h, .inl rfl⟩
  | step act next =>
    obtain ⟨hg, hok, hfl⟩ := h s .refl
    cases b with
    | true => exact ⟨hok, .inr hg⟩
    | false => exact ⟨hfl, .inl rfl⟩

end Prog

/-- A state, and the programs running on it with the job each does. -/
structure Pool (ι σ α : Type) where
  state : σ
  running : List (ι × Prog σ α)

inductive Act (ι ο : Type) where
  | start (job : ι)
  /-- The `i`-th program takes a step, which is carried out or fails. -/
  | advance (i : ℕ) (ok : Bool)
  | stop (i : ℕ)
  | outside (op : ο)

namespace Pool

variable {ι ο σ α : Type} (prog : ι → Prog σ α) (effect : ο → σ → σ)

def act (P : Pool ι σ α) : Act ι ο → Pool ι σ α
  | .start job => { P with running := P.running ++ [(job, prog job)] }
  | .advance i ok =>
    match P.running[i]? with
    | none => P
    | some (job, p) => ⟨(p.advance ok P.state).2, P.running.set i (job, (p.advance ok P.state).1)⟩
  | .stop i => { P with running := P.running.eraseIdx i }
  | .outside op => { P with state := effect op P.state }

def acts (P : Pool ι σ α) (schedule : List (Act ι ο)) : Pool ι σ α := schedule.foldl (Pool.act prog effect) P

/-- Every act of a schedule is as `ok` says, in the pool in which it happens. -/
def Each (ok : Pool ι σ α → Act ι ο → Prop) : Pool ι σ α → List (Act ι ο) → Prop
  | _, [] => True
  | P, a :: schedule => ok P a ∧ Each ok (P.act prog effect a) schedule

/-- Every running program meets its conditions from the state there is. -/
def AllMeet (R : ι → σ → σ → Prop) (G : σ → σ → Prop) (P : Pool ι σ α) : Prop :=
  ∀ x ∈ P.running, x.2.Meets (R x.1) G (fun _ _ => True) P.state

variable {prog effect} {R : ι → σ → σ → Prop} {G : σ → σ → Prop} {I : σ → Prop}
  {ok : Pool ι σ α → Act ι ο → Prop}

theorem meets_of_isRet {R : σ → σ → Prop} {p : Prog σ α} (h : p.isRet) (s : σ) : p.Meets R G (fun _ _ => True) s := by
  cases p with
  | ret a => exact fun _ _ => trivial
  | step act next => cases h

variable {P : Pool ι σ α}
  (hsta : ∀ P job, ok P (.start job) → I P.state → (prog job).Meets (R job) G (fun _ _ => True) P.state)
  (hout : ∀ P op, ok P (.outside op) → I P.state → I (effect op P.state) ∧
    ∀ x ∈ P.running, x.2.isRet = false → R x.1 P.state (effect op P.state)) (hG : ∀ s s', G s s' → I s → I s')
  (hR : ∀ job s s', G s s' → R job s s')

include hsta hout hG hR

/-- **One act in a pool.** If programs rely on no more than every step guarantees, they keep meeting their conditions,
and the invariant holds. -/
theorem act_invariant (hmt : P.AllMeet R G) (hI : I P.state) {a : Act ι ο} (ha : ok P a) :
    (P.act prog effect a).AllMeet R G ∧ I (P.act prog effect a).state := by
  cases a with
  | start job =>
    refine ⟨fun x hx => ?_, hI⟩
    rcases mem_append.mp hx with hx | hx
    · exact hmt x hx
    · rw [mem_singleton.mp hx]
      exact hsta P job ha hI
  | advance i b =>
    simp only [act]
    cases hi : P.running[i]? with
    | none => exact ⟨hmt, hI⟩
    | some x =>
      obtain ⟨job, p⟩ := x
      obtain ⟨hp, hst⟩ := (hmt _ (mem_of_getElem? hi)).advance b
      have hoth : ∀ y ∈ P.running, y.2.Meets (R y.1) G (fun _ _ => True) (p.advance b P.state).2 := by
        intro y hy
        rcases hst with hsm | hg
        · rw [hsm]
          exact hmt y hy
        · exact (hmt y hy).of_rely (hR y.1 _ _ hg)
      refine ⟨fun y hy => ?_, ?_⟩
      · rcases mem_or_eq_of_mem_set hy with hy | rfl
        · exact hoth y hy
        · exact hp
      · rcases hst with hsm | hg
        · exact (congrArg I hsm).mpr hI
        · exact hG _ _ hg hI
  | stop i => exact ⟨fun x hx => hmt x (mem_of_mem_eraseIdx hx), hI⟩
  | outside op =>
    obtain ⟨hI', hrl⟩ := hout P op ha hI
    refine ⟨fun x hx => ?_, hI'⟩
    cases hret : x.2.isRet with
    | true => exact meets_of_isRet hret _
    | false => exact (hmt x hx).of_rely (hrl x hx hret)

/-- **Every schedule of a pool**, begun with no program running, keeps the invariant. -/
theorem acts_invariant (hmt : P.AllMeet R G) (hI : I P.state) {schedule : List (Act ι ο)}
    (h : P.Each prog effect ok schedule) : I (P.acts prog effect schedule).state := by
  induction schedule generalizing P with
  | nil => exact hI
  | cons a schedule ih =>
    obtain ⟨ha, hrs⟩ := h
    obtain ⟨hmt', hI'⟩ := act_invariant hsta hout hG hR hmt hI ha
    exact ih hmt' hI' hrs

end Pool

end OpenVibes.Theory
