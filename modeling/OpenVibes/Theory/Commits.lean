import OpenVibes.Theory.Cells
import OpenVibes.Theory.Txn

/-!
# What commits change

A table of cells (`Theory.Cells`) in the database of a system of transactions (`Theory.Txn`). What is committed changes
only when a transaction commits, and if programs commit only changes which the rule of the table allows
(`System.Follows`), every change is one (`System.Follows.step`).
-/

namespace OpenVibes.Theory

open Function Option

variable {τ κ ν : Type*} [DecidableEq τ]

theorem single_cases {κ β : Type*} [DecidableEq κ] {k j : κ} {v b : β}
    (h : update (fun _ => none) k (some v) j = some b) : j = k ∧ b = v := by
  rcases update_cases h with ⟨hj, hv⟩ | ⟨-, hnn⟩
  · exact ⟨hj, (some.inj hv).symm⟩
  · cases hnn

/-- What a transaction sees of a row, by what it has in hand. -/
def Sees (own : Option (Option ν × Option ν)) (old : Option ν) (row : ν) : Prop :=
  own = none ∧ old = some row ∨ own = some (old, some row)

variable {t : τ}

theorem sees_of_view {c : Cell τ (Option ν)} {row : ν} (h : c.view t = some row) : Sees (c.own t) c.committed row := by
  cases hown : c.own t with
  | none => exact .inl ⟨rfl, (Cell.view_of_none hown).symm.trans h⟩
  | some p =>
    rw [Cell.view_of_own hown] at h
    exact .inr (congrArg some (Prod.ext (Cell.committed_of_own hown).symm h))

namespace Cell

variable {c : Cell τ ν} {v w : ν}

section

variable {c' : Cell τ ν} {u r : τ} (h : c.Ends t c')

include h

theorem Ends.has (hv : c'.Has v) : c.Has v := by
  rcases h with ⟨-, rfl⟩ | ⟨p, w, -, hw, rfl⟩
  · exact hv
  rcases hv with rfl | ⟨r, hr⟩
  · exact hw
  · cases hr

theorem Ends.held (hhd : c'.held = some (r, v)) : c.held = some (r, v) ∧ c.own t = none := by
  rcases h with ⟨hown, rfl⟩ | ⟨p, w, -, -, rfl⟩
  · exact ⟨hhd, hown⟩
  · cases hhd

theorem Ends.committed (hown : c.own t = none) : c'.committed = c.committed := by
  rcases h with ⟨-, rfl⟩ | ⟨p, w, hp, -, -⟩
  · rfl
  · rw [hown] at hp
    cases hp

end

theorem Ends.there {ρ : Type*} {row row' : Cell τ (Option ρ)} (h : row.Ends t row')
    (hthr : row'.committed.isSome ∨ row'.held.isSome) : row.committed.isSome ∨ row.held.isSome := by
  rcases h with ⟨-, rfl⟩ | ⟨p, v, hown, -, -⟩
  · exact hthr
  · exact .inr (by rw [(Cell.own_iff.mp hown).2]; rfl)

omit [DecidableEq τ] in
theorem Has.of_write (h : (c.write t w).Has v) : c.committed = v ∨ w = v := by
  rcases h with h | ⟨r, hr⟩
  · exact .inl h
  · exact .inr (Prod.mk.inj (some.inj hr)).2

end Cell

variable {u r : τ} {cells cells' : Cells τ κ ν} {k j : κ} {v : ν}

namespace Cells

/-- What a transaction has in hand of a table. -/
def hand (t : τ) (cells : Cells τ κ ν) : κ → Option (ν × ν) := fun k => (cells k).own t

def Takes (t : τ) (cells cells' : Cells τ κ ν) : Prop :=
  ∀ k, cells' k = cells k ∨ (cells k).free t = true ∧ ∃ v, cells' k = (cells k).write t v

theorem Takes.refl (t : τ) (cells : Cells τ κ ν) : Takes t cells cells := fun _ => .inl rfl

theorem Takes.hand (hu : u ≠ t) (h : Takes t cells cells') : cells'.hand u = cells.hand u := by
  funext k
  rw [Cells.hand, Cells.hand]
  rcases h k with hk | ⟨hfr, v, hk⟩
  · rw [hk]
  · rw [hk, Cell.own_write hu hfr]

theorem Takes.committed (h : Takes t cells cells') (k : κ) : (cells' k).committed = (cells k).committed := by
  rcases h k with hk | ⟨-, v, hk⟩
  · rw [hk]
  · rw [hk]
    rfl

theorem Takes.view (hu : u ≠ t) (h : Takes t cells cells') (k : κ) : (cells' k).view u = (cells k).view u :=
  Cell.view_eq (congrFun (h.hand hu) k) (h.committed k)

theorem hand_commit_self (t : τ) (cells : Cells τ κ ν) : (cells.commit t).hand t = fun _ => none :=
  funext fun k => Cell.own_commit_self t (cells k)

theorem hand_abort_self (t : τ) (cells : Cells τ κ ν) : (cells.abort t).hand t = fun _ => none :=
  funext fun k => Cell.own_abort_self t (cells k)

theorem hand_commit (hu : u ≠ t) (cells : Cells τ κ ν) : (cells.commit t).hand u = cells.hand u :=
  funext fun k => Cell.own_commit hu (cells k)

theorem hand_abort (hu : u ≠ t) (cells : Cells τ κ ν) : (cells.abort t).hand u = cells.hand u :=
  funext fun k => Cell.own_abort hu (cells k)

theorem committed_commit (t : τ) (cells : Cells τ κ ν) (k : κ) : (cells.commit t k).committed = (cells k).view t :=
  Cell.committed_commit t (cells k)

theorem committed_abort (t : τ) (cells : Cells τ κ ν) (k : κ) : (cells.abort t k).committed = (cells k).committed :=
  Cell.committed_abort t (cells k)

theorem committed_commit_of_none (h : (cells k).own t = none) :
    (cells.commit t k).committed = (cells k).committed := by
  rw [committed_commit, Cell.view_of_none h]

theorem held_commit (h : (cells.commit t k).held = some (r, v)) :
    (cells k).held = some (r, v) ∧ (cells k).own t = none := (Cell.ends_commit t _).held h

theorem held_abort (h : (cells.abort t k).held = some (r, v)) :
    (cells k).held = some (r, v) ∧ (cells k).own t = none := (Cell.ends_abort t _).held h

variable [DecidableEq κ]

omit [DecidableEq τ] in
theorem held_write {w : ν} (h : (cells.write t k v j).held = some (r, w)) :
    j = k ∧ r = t ∧ w = v ∨ j ≠ k ∧ (cells j).held = some (r, w) := by
  by_cases hj : j = k
  · subst hj
    rw [write_self] at h
    cases h
    exact .inl ⟨rfl, rfl, rfl⟩
  · rw [write_of_ne hj] at h
    exact .inr ⟨hj, h⟩

theorem takes_write (hfr : (cells k).free t = true) (v : ν) : Takes t cells (cells.write t k v) := by
  intro j
  by_cases hj : j = k
  · subst hj
    exact .inr ⟨hfr, v, write_self t j v cells⟩
  · exact .inl (write_of_ne hj t v cells)

theorem hand_write (t : τ) (k : κ) (v : ν) (cells : Cells τ κ ν) :
    (cells.write t k v).hand t = update (cells.hand t) k (some ((cells k).committed, v)) := by
  funext j
  by_cases hj : j = k
  · subst hj
    rw [hand, write_self, Cell.own_write_self, update_self]
  · rw [hand, write_of_ne hj, update_of_ne hj, hand]

/-- Rows that a transaction has deleted, and one more. -/
theorem hand_deleted {cells : Cells τ κ (Option ν)} {gone : List κ}
    (h : ∀ j ∈ gone, ∃ old, cells.hand t j = some (old, none)) (j : κ) (hj : j ∈ gone ++ [k]) :
    ∃ old, (cells.write t k none).hand t j = some (old, none) := by
  rw [hand_write]
  by_cases hne : j = k
  · exact ⟨_, by rw [hne, update_self]⟩
  · rw [update_of_ne hne]
    exact h j (by simpa [hne] using hj)

end Cells

namespace System

variable {ι : Type} [DecidableEq ι] {γ ο σ α : Type}

/-- A transaction that commits has in hand only changes which the rule allows for its call. -/
def Commits (R : γ → κ → ν → ν → Prop) (call : γ) : End α → (κ → Option (ν × ν)) → Prop
  | .commit _, hand => ∀ k p, hand k = some p → R call k p.1 p.2
  | .rollback _, _ => True

/-- What a statement does: it takes cells of the table, and otherwise acts as `H` says. -/
def Acts (tbl : σ → Cells ι κ ν) (H : σ → σ → Prop) (t : ι) (s s' : σ) : Prop := Cells.Takes t (tbl s) (tbl s') ∧ H s s'

/-- A system follows the rule `R` of a table: programs commit only changes that it allows, and the invariant is kept. -/
structure Follows (Y : System ι γ ο σ (End α)) (tbl : σ → Cells ι κ ν) (I : σ → Prop) (H : σ → σ → Prop)
    (R : γ → κ → ν → ν → Prop) : Prop where
  start : ∀ t call, (Y.prog t call).Meets I (fun s => (tbl s).hand t) (Acts tbl H t) (Commits R call) fun _ => none
  close : ∀ t e s, tbl (Y.close t e s) = match e with
    | .commit _ => (tbl s).commit t
    | .rollback _ => (tbl s).abort t
  abort : ∀ t s, tbl (Y.abort t s) = (tbl s).abort t
  effect : ∀ op s s', Y.effect op s = some s' → tbl s' = tbl s
  keeps : ∀ t s s', I s → Acts tbl H t s s' → I s'
  closes : ∀ t call e s, I s → Commits R call e ((tbl s).hand t) → I (Y.close t e s)
  aborts : ∀ t s, I s → I (Y.abort t s)
  effects : ∀ op s s', I s → Y.effect op s = some s' → I s'

variable {Y : System ι γ ο σ (End α)} {tbl : σ → Cells ι κ ν} {I : σ → Prop} {H : σ → σ → Prop}
  {R : γ → κ → ν → ν → Prop} {S S' : Sessions ι γ σ (End α)}

theorem Follows.safe (h : Y.Follows tbl I H R) :
    Y.Safe I (fun t s => (tbl s).hand t) (fun _ => none) (Acts tbl H) fun _ => Commits R where
  start := h.start
  keeps := h.keeps
  others t u s s' hu _ hG := hG.1.hand hu
  close t call e s hI hQ := by
    refine ⟨h.closes t call e s hI hQ, fun u hu => ?_, ?_⟩
    · rw [h.close]
      cases e with
      | commit a => exact Cells.hand_commit hu _
      | rollback a => exact Cells.hand_abort hu _
    · rw [h.close]
      cases e with
      | commit a => exact Cells.hand_commit_self t _
      | rollback a => exact Cells.hand_abort_self t _
  abort t s hI := by
    refine ⟨h.aborts t s hI, fun u hu => ?_, ?_⟩
    · rw [h.abort, Cells.hand_abort hu]
    · rw [h.abort, Cells.hand_abort_self]
  effect op s s' hI heff := ⟨h.effects op s s' hI heff, fun u => by rw [h.effect op s s' heff]⟩

/-- The invariant holds, and every program follows the rule from where it stands. -/
abbrev Following (tbl : σ → Cells ι κ ν) (I : σ → Prop) (H : σ → σ → Prop) (R : γ → κ → ν → ν → Prop)
    (S : Sessions ι γ σ (End α)) : Prop :=
  Sound I (fun t s => (tbl s).hand t) (fun _ => none) (Acts tbl H) (fun _ => Commits R) S

theorem following_quiet {s : σ} (hI : I s) (hstl : ∀ k, (tbl s k).held = none) :
    Following tbl I H R (Sessions.quiet s : Sessions ι γ σ (End α)) :=
  sound_quiet hI fun t => funext fun k => by rw [Cells.hand, Cell.own, hstl]

/-- **Every change is one which the rule allows**, for the call of a transaction that commits. -/
theorem Follows.step (h : Y.Follows tbl I H R) {m : Move ι γ ο}
    (hS : Following tbl I H R S) (hst : Y.step S m = some S') (k : κ) :
    (tbl S'.state k).committed = (tbl S.state k).committed ∨
      ∃ t call a, m = .advance t ∧ S.running t = some (call, .ret (.commit a)) ∧
        R call k (tbl S.state k).committed (tbl S'.state k).committed := by
  have hds := (h.safe.step_cases hS hst).2
  generalize S'.state = s' at hds
  cases hds with
  | start t call => exact .inl rfl
  | act t s hG => exact .inl (hG.1.committed k)
  | close t call e hret hQ =>
    rw [h.close]
    cases e with
    | rollback a => exact .inl (Cell.committed_abort t _)
    | commit a =>
      change ((tbl S.state k).commit t).committed = _ ∨ _
      cases hown : (tbl S.state k).own t with
      | none =>
        rw [Cell.commit_of_none hown]
        exact .inl rfl
      | some p =>
        refine .inr ⟨t, call, a, rfl, hret, ?_⟩
        change R call k _ ((tbl S.state k).commit t).committed
        rw [Cell.commit_of_own hown, Cell.committed_of_own hown]
        exact hQ k p hown
  | abort t =>
    rw [h.abort]
    exact .inl (Cell.committed_abort t _)
  | outside op _ heff =>
    rw [h.effect op S.state _ heff]
    exact .inl rfl

theorem Follows.run (h : Y.Follows tbl I H R) {moves : List (Move ι γ ο)}
    (hS : Following tbl I H R S) (hrun : Theory.run Y.step S moves = some S') : Following tbl I H R S' :=
  h.safe.run hS hrun

end System

end OpenVibes.Theory
