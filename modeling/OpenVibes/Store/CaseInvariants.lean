import OpenVibes.Store.Cases

/-!
# What holds of cases

Every item of a case is active exactly while the case is not closed, a closed case has an outcome for each item that
needs one, and no alarm, finding or vulnerability is in two open cases. An operation holds the row of its case before it
writes an item (`Mine`). `Holding` is what a program knows between two statements, `Settled` what it has at its commit.
-/

namespace OpenVibes.Store.Cases

open Theory List Option Cells Cell Txn

theorem clashes_comm (a b : Item) : a.clashes b = b.clashes a := by
  suffices h : ∀ a b : Item, a.clashes b → b.clashes a from Bool.eq_iff_iff.mpr ⟨h a b, h b a⟩
  simp only [Item.clashes, Bool.and_eq_true, Bool.or_eq_true, decide_eq_true_eq]
  rintro a b ⟨⟨hkd, href⟩, hcs | ⟨⟨ha, hb⟩, hex⟩⟩
  · exact ⟨⟨hkd.symm, href.symm⟩, .inl hcs.symm⟩
  · exact ⟨⟨hkd.symm, href.symm⟩, .inr ⟨⟨hb, ha⟩, hkd ▸ hex⟩⟩

/-! ### The invariant -/

structure ItemOk (row : CaseRow) (it : Item) : Prop where
  active : it.active = true ↔ row.status ≠ .closed
  /-- In a closed case an item of an exclusive kind has an outcome. -/
  decided : row.status = .closed → it.kind.exclusive = true → it.outcome ≠ none
  kind : it.outcome ≠ none → it.kind.exclusive = true
  dated : it.outcomeUntil ≠ none ↔ it.outcome = some .acceptedRisk

def RowOk (row : CaseRow) : Prop := row.status = .closed → row.closedAt ≠ none

/-- What holds of the database, between any two statements. -/
structure Consistent (s : Db) : Prop where
  items : ∀ i it, (s.items i).committed = some it → ∃ row, (s.cases it.caseId).committed = some row ∧ ItemOk row it
  cases : ∀ id row, (s.cases id).committed = some row → RowOk row
  apart : s.items.Apart Item.clashes
  guarded : ∀ t i p it, (s.items i).own t = some p → (p.1 = some it ∨ p.2 = some it) →
    (s.cases it.caseId).holds t = true
  freshItems : ∀ i, s.nextItem ≤ i → s.items i = Cell.settled none
  freshCases : ∀ id, s.nextCase ≤ id → s.cases id = Cell.settled none

/-- What a transaction has in hand: the cases that it holds, and what it sees of their items. -/
structure Mine where
  cases : ℕ → Option (Option CaseRow × Option CaseRow)
  items : ℕ → Option Item

def nothing : Mine := ⟨fun _ => none, fun _ => none⟩

def Db.mine (t : ℕ) (s : Db) : Mine where
  cases := s.cases.hand t
  items i := ((s.items i).view t).filter fun it => (s.cases it.caseId).holds t

variable {s : Db} {i t : ℕ} {it : Item}

theorem Db.mine_items :
    (s.mine t).items i = some it ↔ (s.items i).view t = some it ∧ (s.cases it.caseId).holds t = true :=
  filter_eq_some_iff

/-- What a statement of a transaction does: it takes what is free for it. -/
structure Touches (t : ℕ) (s s' : Db) : Prop where
  cases : Cells.Takes t s.cases s'.cases
  items : Cells.Takes t s.items s'.items

theorem Touches.refl (t : ℕ) (s : Db) : Touches t s s := ⟨.refl t _, .refl t _⟩

variable {u : ℕ} {s' : Db}

theorem mine_congr (hcas : ∀ k, (s'.cases k).own u = (s.cases k).own u)
    (hite : ∀ i, (s'.items i).view u = (s.items i).view u) : s'.mine u = s.mine u := by
  rw [Db.mine, Db.mine, Mine.mk.injEq]
  refine ⟨funext hcas, funext fun i => ?_⟩
  simp [hite i, holds_congr (hcas _)]

/-- **What others have in hand** is not changed by a statement. -/
theorem Touches.mine (hu : u ≠ t) (h : Touches t s s') : s'.mine u = s.mine u :=
  mine_congr (fun k => congrFun (h.cases.hand hu) k) (h.items.view hu)

abbrev Runs (t : ℕ) {α : Type} (Q : α → Mine → Prop) (p : Txn Db α) (l : Mine) : Prop :=
  p.Meets Consistent (Db.mine t) (fun s s' => Consistent s' ∧ Touches t s s') Q l

/-- What a transaction has in hand when it commits: rows and items that are as they have to be. -/
def Settled (l : Mine) : Prop :=
  ∀ c p, l.cases c = some p → ∃ row, p.2 = some row ∧ RowOk row ∧ ∀ i it, l.items i = some it → it.caseId = c →
    ItemOk row it

def Ends {α : Type} : End α → Mine → Prop
  | .commit _, l => Settled l
  | .rollback _, _ => True

/-- The transaction holds the case `c`, with the row `row`, and its items are as `D` says. -/
structure Holding (c : ℕ) (row : CaseRow) (D : ℕ → Item → Prop) (l : Mine) : Prop where
  case : ∃ old, l.cases c = some (old, some row)
  others : ∀ k, k ≠ c → l.cases k = none
  items : ∀ i it, l.items i = some it → it.caseId = c ∧ D i it

abbrev Fine (c : ℕ) (row : CaseRow) (l : Mine) : Prop := Holding c row (fun _ => ItemOk row) l

variable {c : ℕ} {row : CaseRow} {l : Mine}

theorem Holding.imp {D E : ℕ → Item → Prop} (h : Holding c row D l)
    (hD : ∀ i it, l.items i = some it → D i it → E i it) : Holding c row E l :=
  ⟨h.case, h.others, fun i it hi => ⟨(h.items i it hi).1, hD i it hi (h.items i it hi).2⟩⟩

theorem Holding.empty (h : Holding c row (fun _ _ => False) l) : Fine c row l := h.imp fun _ _ _ hfa => hfa.elim

theorem Holding.settled (h : Fine c row l) (hrow : RowOk row) : Settled l := by
  intro k p hp
  have hk : k = c := by
    by_contra hne
    rw [h.others k hne] at hp
    cases hp
  subst hk
  obtain ⟨old, hold⟩ := h.case
  rw [hold] at hp
  cases hp
  exact ⟨row, rfl, hrow, fun i it hi _ => (h.items i it hi).2⟩

/-! ### Statements -/

variable {n id : ℕ} {v : Item}

variable (viewer : Viewer) (now : Time)

section

variable {D E : ℕ → Item → Prop}

section

variable (h : Holding c row D (s.mine t))

include h

theorem Holding.holds_iff (k : ℕ) : (s.cases k).holds t = true ↔ k = c := by
  constructor
  · intro hhld
    obtain ⟨p, hp⟩ := Cell.holds_iff.mp hhld
    by_contra hne
    have hnn := h.others k hne
    rw [show (s.mine t).cases k = some p from hp] at hnn
    cases hnn
  · rintro rfl
    obtain ⟨old, hold⟩ := h.case
    exact Cell.holds_iff.mpr ⟨_, hold⟩

theorem Holding.view_case : (s.cases c).view t = some row := by
  obtain ⟨old, hold⟩ := h.case
  exact view_of_own hold

theorem Holding.view_item : (s.mine t).items i = some it ↔ (s.items i).view t = some it ∧ it.caseId = c := by
  rw [Db.mine_items, h.holds_iff]

end

theorem Consistent.item_lt (hI : Consistent s) (h : (s.items i).view t = some it) : i < s.nextItem := by
  by_contra hge
  rw [hI.freshItems i (not_lt.mp hge)] at h
  cases h

theorem Holding.write (hI : Consistent s) (h : Holding c row D (s.mine t)) {v : Option Item}
    (hfr : (s.items i).free t = true) (hi : i < n) (hn : s.nextItem ≤ n)
    (hvw : ∀ it, (s.items i).view t = some it → it.caseId = c) (hv : ∀ it, v = some it → it.caseId = c ∧ E i it)
    (hD : ∀ j it, j ≠ i → D j it → E j it) (hapr : (s.items.write t i v).Apart Item.clashes) : let s' := { s with
      items := s.items.write t i v, nextItem := n }
    (Consistent s' ∧ Touches t s s') ∧ Holding c row E (s'.mine t) ∧ (s'.mine t).items i = v ∧
      ∀ j, j ≠ i → (s'.mine t).items j = (s.mine t).items j := by
  have hsf : ∀ it, v = some it → (s.cases it.caseId).holds t = true := fun it hit => (h.holds_iff _).mpr (hv it hit).1
  have hitm : ((s.items.write t i v i).view t).filter (fun it => (s.cases it.caseId).holds t) = v := by
    rw [write_self, view_write_self]
    cases v with
    | none => rfl
    | some it => exact filter_some_pos (hsf it rfl)
  have hoth : ∀ j, j ≠ i → ((s.items.write t i v j).view t).filter (fun it => (s.cases it.caseId).holds t) =
      (s.mine t).items j := by
    intro j hj
    rw [write_of_ne hj]
    rfl
  refine ⟨⟨⟨fun j it hj => hI.items j it ((committed_write t i v s.items j).symm.trans hj), hI.cases, hapr,
    fun u j p it hown hp => ?_, fun j hj => ?_, hI.freshCases⟩, .refl t _, takes_write hfr v⟩,
    ⟨h.case, h.others, fun j it hj => ?_⟩, hitm, hoth⟩
  · rcases own_write_cases hfr hown with ⟨rfl, rfl, rfl⟩ | hown
    · rcases hp with hp | hp
      · cases hbef : (s.items j).own u with
        | some q => exact hI.guarded u j q it hbef (.inl ((committed_of_own hbef).symm.trans hp))
        | none => exact (h.holds_iff _).mpr (hvw it ((view_of_none hbef).trans hp))
      · exact hsf it hp
    · exact hI.guarded u j p it hown hp
  · exact unused_write (fun j hj => hI.freshItems j (hn.trans hj)) (not_le.mpr hi) j hj
  · by_cases hne : j = i
    · subst hne
      exact hv it (hitm.symm.trans hj)
    · have hold := h.items j it ((hoth j hne).symm.trans hj)
      exact ⟨hold.1, hD j it hne hold.2⟩

theorem writeItem_eq_some {ok : Bool} (h : s.writeItem t i v = some (ok, s')) :
    (ok = false ∧ s' = s) ∨ ok = true ∧ (s.items i).free t = true ∧
      s.items.check Item.clashes (range s.nextItem) t i v = .pass ∧
      s' = { s with items := s.items.write t i (some v) } := by
  rw [Db.writeItem] at h
  split_ifs at h with hfr
  cases hchk : s.items.check Item.clashes (range s.nextItem) t i v with
  | wait =>
    rw [hchk] at h
    cases h
  | clash =>
    rw [hchk] at h
    cases h
    exact .inl ⟨rfl, rfl⟩
  | pass =>
    rw [hchk] at h
    cases h
    exact .inr ⟨rfl, hfr, rfl, rfl⟩

theorem Consistent.apart_write (hI : Consistent s) (hfr : (s.items i).free t = true)
    (hps : s.items.check Item.clashes (range s.nextItem) t i v = .pass) :
    (s.items.write t i (some v)).Apart Item.clashes :=
  hI.apart.write clashes_comm (fun j hj => hI.freshItems j (not_lt.mp fun hlt => hj (mem_range.mpr hlt))) hfr hps

theorem query_runs {β : Type} {Q : β → Mine → Prop} {q : Db → β} (h : ∀ s, Consistent s → s.mine t = l → Q (q s) l) :
    Runs t Q (.query q) l := by
  refine .stmt fun s b s' hI hs hact => ?_
  cases hact
  exact ⟨⟨hI, .refl t s⟩, hs ▸ h s hI hs⟩

theorem refuse_runs (r : Refusal) : Runs t Ends (refuse r) l := trivial

section

variable (h : Holding c row D l)

include h

theorem updateItem_runs {f : Item → Item} (hin : (l.items i).isSome = true)
    (hf : ∀ it, D i it → (f it).caseId = it.caseId ∧ E i (f it)) (hD : ∀ j it, j ≠ i → D j it → E j it) :
    Runs t (fun ok l' => ok = true → Holding c row E l' ∧ (l'.items i).isSome = true ∧
        ∀ j, j ≠ i → l'.items j = l.items j) (updateItem t i f) l := by
  refine .stmt fun s ok s' hI hs hact => ?_
  subst hs
  obtain ⟨it, hit⟩ := isSome_iff_exists.mp hin
  obtain ⟨hvw, hcs⟩ := h.view_item.mp hit
  rw [hvw] at hact
  rcases writeItem_eq_some hact with ⟨rfl, rfl⟩ | ⟨rfl, hfr, hps, rfl⟩
  · exact ⟨⟨hI, .refl t s'⟩, nofun⟩
  obtain ⟨hf₁, hf₂⟩ := hf it (h.items i it hit).2
  obtain ⟨hac, hhdg, hsf, hoth⟩ := h.write (E := E) hI hfr (hI.item_lt hvw) le_rfl
    (fun it' hit' => mem_unique hvw hit' ▸ hcs)
    (fun it' hit' => some.inj hit' ▸ ⟨hf₁.trans hcs, hf₂⟩) hD (hI.apart_write hfr hps)
  exact ⟨hac, fun _ => ⟨hhdg, by rw [hsf]; rfl, hoth⟩⟩

/-- **`UPDATE` of the items of the case**: those that it is for change, the others stay. -/
theorem updateItems_runs {p : ℕ → Item → Bool} {f : ℕ → Item → Item}
    (hf : ∀ i it, D i it → p i it = true → (f i it).caseId = it.caseId ∧ E i (f i it))
    (hsk : ∀ i it, D i it → p i it = false → E i it) :
    Runs t (fun ok l' => ok = true → Holding c row E l') (updateItems t c p f) l := by
  refine Meets.bind (query_runs fun s hI hs => ?_)
  subst hs
  -- Before the rest of the list, its items are as before, and all others as they have to be.
  refine (Meets.foldlM (J := fun rest ok l => ok = true →
    Holding c row (fun i it => if i ∈ rest then D i it ∧ p i it = true else E i it) l ∧ rest.Nodup ∧
      ∀ i ∈ rest, (l.items i).isSome = true) (fun x rest ok l hJ => ?_) fun _ => ⟨?_, ?_,
      ?_⟩).imp fun ok l' hJ hok => ?_
  · cases ok with
    | false => exact fun hok => absurd hok Bool.false_ne_true
    | true =>
      obtain ⟨hhdg, hnd, hin⟩ := hJ rfl
      obtain ⟨hx, hnd⟩ := nodup_cons.mp hnd
      refine (updateItem_runs (E := fun i it => if i ∈ rest then D i it ∧ p i it = true else E i it) hhdg
        (hin x mem_cons_self) (fun it hit => ?_) fun j it hj hit => ?_).imp fun ok' l' hpo hok => ?_
      · rw [if_pos mem_cons_self] at hit
        rw [if_neg hx]
        exact hf x it hit.1 hit.2
      · by_cases hmem : j ∈ rest
        · rw [if_pos (mem_cons_of_mem x hmem)] at hit
          rwa [if_pos hmem]
        · rw [if_neg (not_mem_cons_of_ne_of_not_mem hj hmem)] at hit
          rwa [if_neg hmem]
      · obtain ⟨hhdg', -, hoth⟩ := hpo hok
        refine ⟨hhdg', hnd, fun i hi => ?_⟩
        rw [hoth i fun heq => hx (heq ▸ hi)]
        exact hin i (mem_cons_of_mem x hi)
  · refine h.imp fun i it hit hD => ?_
    obtain ⟨hvw, hcs⟩ := h.view_item.mp hit
    split_ifs with hmem
    · refine ⟨hD, ?_⟩
      have := (mem_filter.mp hmem).2
      rw [hvw] at this
      simpa [hcs] using this
    · refine hsk i it hD ?_
      by_contra hp
      refine hmem (mem_filter.mpr ⟨mem_range.mpr (hI.item_lt hvw), ?_⟩)
      rw [hvw]
      simpa [hcs] using hp
  · exact nodup_range.filter _
  · intro i hmem
    have hany := (mem_filter.mp hmem).2
    cases hvw : (s.items i).view t with
    | none =>
      rw [hvw] at hany
      cases hany
    | some it =>
      rw [hvw] at hany
      have hcs : it.caseId = c ∧ p i it = true := by simpa using hany
      rw [h.view_item.mpr ⟨hvw, hcs.1⟩]
      rfl
  · obtain ⟨hhdg, -, -⟩ := hJ hok
    exact hhdg.imp fun i it _ hit => by simpa using hit

theorem insertItemRow_runs (hcs : v.caseId = c) (hv : ∀ i, D i v) :
    Runs t (fun i l' => i ≠ none → Holding c row D l') (insertItemRow t v) l := by
  refine .stmt fun s b s' hI hs hact => ?_
  subst hs
  obtain ⟨⟨ok, s₁⟩, hwrt, heq⟩ := map_eq_some_iff.mp hact
  rcases writeItem_eq_some hwrt with ⟨rfl, rfl⟩ | ⟨rfl, hfr, hps, rfl⟩
  · obtain ⟨rfl, rfl⟩ := Prod.mk.inj heq
    exact ⟨⟨hI, .refl t s₁⟩, fun hok => absurd rfl hok⟩
  cases heq
  have hnn : (s.items s.nextItem).view t = none := by
    rw [hI.freshItems s.nextItem le_rfl]
    rfl
  obtain ⟨hac, hhdg, -, -⟩ := h.write (E := D) hI hfr (Nat.lt_succ_self _) (Nat.le_succ _)
    (fun it hit => by rw [hnn] at hit; cases hit)
    (fun it hit => some.inj hit ▸ ⟨hcs, hv s.nextItem⟩) (fun _ _ _ hD => hD) (hI.apart_write hfr hps)
  exact ⟨hac, fun _ => hhdg⟩

theorem deleteItem_runs (hin : (l.items i).isSome = true) :
    Runs t (fun _ l' => Holding c row D l') (deleteItem t i) l := by
  refine .stmt fun s b s' hI hs hact => ?_
  subst hs
  obtain ⟨it, hit⟩ := isSome_iff_exists.mp hin
  obtain ⟨hvw, hcs⟩ := h.view_item.mp hit
  rw [hvw] at hact
  obtain ⟨hfr, heq⟩ := map_put_iff.mp hact
  cases heq
  obtain ⟨hac, hhdg, -, -⟩ := h.write (E := D) hI hfr (hI.item_lt hvw) le_rfl
    (fun it' hit' => mem_unique hvw hit' ▸ hcs) (fun it hit => by cases hit) (fun _ _ _ hD => hD)
    (hI.apart.erase hfr)
  exact ⟨hac, hhdg⟩

theorem lockItem_runs (viewer : Viewer) (i : Option ℕ) :
    Runs t (fun r l' => ∀ p, r = some p → Holding c row D l' ∧ l'.items p.1 = some p.2.1) (lockItem t viewer c i) l :=
        by
  cases i with
  | none => exact fun _ hp => by cases hp
  | some i =>
    refine Meets.stmt fun s b s' hI hs hact => ?_
    subst hs
    cases hfnd : ((s.items i).view t).filter fun it => it.caseId = c && itemVisible s.world viewer it with
    | none =>
      rw [hfnd] at hact
      cases hact
      exact ⟨⟨hI, Touches.refl t s⟩, fun p hp => by cases hp⟩
    | some it =>
      rw [hfnd] at hact
      obtain ⟨hvw, hcd⟩ := filter_eq_some_iff.mp hfnd
      have hcs : it.caseId = c := by simpa using (Bool.and_eq_true_iff.mp hcd).1
      obtain ⟨hfr, heq⟩ := map_put_iff.mp hact
      cases heq
      obtain ⟨hac, hhdg, hsf, -⟩ := h.write (E := D) hI hfr (hI.item_lt hvw) le_rfl
        (fun it' hit' => mem_unique hvw hit' ▸ hcs)
        (fun it' hit' => some.inj hit' ▸ ⟨hcs, (h.items i it (h.view_item.mpr ⟨hvw, hcs⟩)).2⟩)
        (fun _ _ _ hD => hD) (hI.apart.keep clashes_comm hfr hvw)
      refine ⟨hac, fun p hp => ?_⟩
      cases hp
      exact ⟨hhdg, hsf⟩

end

theorem Consistent.writeCase (hI : Consistent s) {v : Option CaseRow} (hfr : (s.cases id).free t = true)
    (hid : id < n) (hn : s.nextCase ≤ n) : let s' := { s with cases := s.cases.write t id v, nextCase := n }
    Consistent s' ∧ Touches t s s' := by
  have hcom : ∀ k, (s.cases.write t id v k).committed = (s.cases k).committed := committed_write t id v s.cases
  refine ⟨⟨fun i it hi => ?_, fun k row hk => hI.cases k row ((hcom k).symm.trans hk), hI.apart,
    fun u i p it hown hp => holds_write hfr (hI.guarded u i p it hown hp), hI.freshItems, fun k hk => ?_⟩,
    takes_write hfr v, .refl t _⟩
  · obtain ⟨row, hrow, hok⟩ := hI.items i it hi
    exact ⟨row, (hcom it.caseId).trans hrow, hok⟩
  · exact unused_write (fun k hk => hI.freshCases k (hn.trans hk)) (not_le.mpr hid) k hk

theorem Consistent.case_lt (hI : Consistent s) (h : (s.cases id).view t = some row) : id < s.nextCase := by
  by_contra hge
  rw [hI.freshCases id (not_lt.mp hge)] at h
  cases h

theorem updateCase_runs (f : CaseRow → CaseRow) (h : Holding c row D l) :
    Runs t (fun _ l' => Holding c (f row) D l') (updateCase t c f) l := by
  refine Meets.stmt fun s b s' hI hs hact => ?_
  subst hs
  have hvw := h.view_case
  rw [hvw] at hact
  obtain ⟨hfr, heq⟩ := map_put_iff.mp hact
  cases heq
  refine ⟨hI.writeCase hfr (hI.case_lt hvw) le_rfl, ⟨(s.cases c).committed, ?_⟩, fun k hk => ?_, fun i it hi => ?_⟩
  · change (s.cases.write t c (some (f row)) c).own t = _
    rw [write_self, own_write_self]
  · change (s.cases.write t c (some (f row)) k).own t = none
    rw [write_of_ne hk]
    exact h.others k hk
  obtain ⟨hitm, hhld⟩ := Db.mine_items.mp hi
  refine h.items i it (Db.mine_items.mpr ⟨hitm, ?_⟩)
  by_cases heq : it.caseId = c
  · exact (h.holds_iff _).mpr heq
  · change (s.cases.write t c (some (f row)) it.caseId).holds t = true at hhld
    rwa [write_of_ne heq] at hhld

theorem view_of_nothing (hI : Consistent s) (hs : s.mine t = nothing) (h : (s.items i).view t = some it) :
    (s.items i).committed = some it := by
  cases hown : (s.items i).own t with
  | none => exact (view_of_none hown).symm.trans h
  | some p =>
    have hhld := hI.guarded t i p it hown (.inr ((view_of_own hown).symm.trans h))
    have hitm : (s.mine t).items i = some it := Db.mine_items.mpr ⟨h, hhld⟩
    rw [hs] at hitm
    cases hitm

theorem holding_of_nothing (hI : Consistent s) (hs : s.mine t = nothing) {v : CaseRow}
    (hD : ∀ i it, (s.items i).committed = some it → it.caseId = id → D i it) :
    Holding id v D (({ s with cases := s.cases.write t id (some v), nextCase := n } : Db).mine t) := by
  have hnn : ∀ k, (s.cases k).own t = none := fun k => congrFun (congrArg Mine.cases hs) k
  refine ⟨⟨(s.cases id).committed, ?_⟩, fun k hk => ?_, fun i it hi => ?_⟩
  · change (s.cases.write t id (some v) id).own t = _
    rw [write_self, own_write_self]
  · change (s.cases.write t id (some v) k).own t = none
    rw [write_of_ne hk]
    exact hnn k
  obtain ⟨hvw, hhld⟩ := Db.mine_items.mp hi
  have hcs : it.caseId = id := by
    by_contra hne
    change (s.cases.write t id (some v) it.caseId).holds t = true at hhld
    rw [write_of_ne hne] at hhld
    have := own_eq_none_iff.mp (hnn it.caseId)
    rw [hhld] at this
    cases this
  exact ⟨hcs, hD i it (view_of_nothing hI hs hvw) hcs⟩

/-- **A case is locked**: its items are as they have to be. -/
theorem lockWhere_runs {cond : Db → CaseRow → Bool} {skip : Bool} :
    Runs t (fun r l' => ∀ row, r = some row → RowOk row ∧ Fine id row l' ∧ ∃ s, cond s row = true)
      (lockWhere t id cond skip) nothing := by
  refine .bind (query_runs fun s hI hs => ?_)
  cases hfnd : (((s.cases id).view t).filter (cond s)).map fun _ => cond s with
  | none => exact fun row hrow => by cases hrow
  | some recheck =>
    obtain ⟨_, -, rfl⟩ := map_eq_some_iff.mp hfnd
    refine .stmt fun s₁ b s' hI hs hact => ?_
    have hsm : ∀ row, (none : Option CaseRow) = some row → RowOk row ∧ Fine id row nothing ∧ ∃ s, cond s row = true :=
      fun row hrow => by cases hrow
    split_ifs at hact with hfr hsk
    · cases hvw : (s₁.cases id).view t with
      | none =>
        rw [hvw] at hact
        cases hact
        exact ⟨⟨hI, .refl t s₁⟩, hs ▸ hsm⟩
      | some row =>
        rw [hvw] at hact
        dsimp only at hact
        split_ifs at hact with hcd
        · cases hact
          have hcom : (s₁.cases id).committed = some row :=
            (view_of_none (congrFun (congrArg Mine.cases hs) id)).symm.trans hvw
          refine ⟨hI.writeCase hfr (hI.case_lt hvw) le_rfl, fun row' hrow' => ?_⟩
          cases hrow'
          refine ⟨hI.cases id row hcom, holding_of_nothing hI hs fun i it hi hcs => ?_, s, hcd⟩
          obtain ⟨row', hrow', hok⟩ := hI.items i it hi
          rw [hcs, hcom] at hrow'
          exact some.inj hrow' ▸ hok
        · cases hact
          exact ⟨⟨hI, .refl t s₁⟩, hs ▸ hsm⟩
    · cases hact
      exact ⟨⟨hI, .refl t s₁⟩, hs ▸ hsm⟩

theorem insertCase_runs (make : ℕ → CaseRow) :
    Runs t (fun id l' => Holding id (make id) (fun _ _ => False) l') (insertCase t make) nothing := by
  refine .stmt fun s b s' hI hs hact => ?_
  obtain ⟨hfr, heq⟩ := map_put_iff.mp hact
  cases heq
  refine ⟨hI.writeCase hfr (Nat.lt_succ_self _) (Nat.le_succ _), holding_of_nothing hI hs fun i it hi hcs => ?_⟩
  obtain ⟨row, hrow, -⟩ := hI.items i it hi
  rw [hcs, hI.freshCases s.nextCase le_rfl] at hrow
  cases hrow

/-! ### Operations -/

theorem commitDetail_runs (h : Fine c row l) (hrow : RowOk row) : Runs t Ends (commitDetail t viewer c) l := by
  refine .bind (query_runs fun s _ _ => ?_)
  split_ifs
  · exact h.settled hrow
  · exact trivial

theorem commitItem_runs (i : ℕ) (h : Fine c row l) (hrow : RowOk row) : Runs t Ends (commitItem t viewer c i) l := by
  refine .bind (query_runs fun s _ _ => ?_)
  split_ifs
  · exact h.settled hrow
  · exact trivial

theorem ItemOk.congr {row' : CaseRow} (h : ItemOk row it) (hsts : row'.status = row.status) : ItemOk row' it :=
  ⟨hsts ▸ h.active, hsts ▸ h.decided, h.kind, h.dated⟩

theorem touch_runs (h : Fine c row l) (hrow : RowOk row) :
    Runs t (fun _ l' => ∃ row', RowOk row' ∧ Fine c row' l') (touch t c now) l :=
  (updateCase_runs _ h).imp fun _ _ hl =>
    ⟨{ row with updatedAt := max row.updatedAt now }, hrow, hl.imp fun _ _ _ hit => hit.congr rfl⟩

theorem resolveItem_runs (kind reference : String) :
    Runs t (fun _ l' => l' = l) (resolveItem viewer kind reference) l := by
  rw [resolveItem]
  cases ItemKind.parse kind with
  | none => exact rfl
  | some kind =>
    dsimp only
    cases parseRef kind reference with
    | none => exact rfl
    | some parsed => exact query_runs fun s _ _ => rfl

theorem itemOk_new (item : Resolved) (viewer : Viewer) (id : ℕ) (now : Time) (h : row.status ≠ .closed) :
    ItemOk row (item.row viewer id now) :=
  ⟨⟨fun _ => h, fun _ => rfl⟩, fun hcld => absurd hcld h, fun hne => absurd rfl hne,
    ⟨fun hne => absurd rfl hne, nofun⟩⟩

theorem insertItem_runs (item : Resolved) (now : Time) (h : Fine c row l) (hop : row.status ≠ .closed) :
    Runs t (fun r l' => ∀ i, r = .ok i → Fine c row l') (insertItem t viewer c item now) l := by
  refine .bind (query_runs fun s _ _ => ?_)
  split
  · exact nofun
  refine .bind (query_runs fun s _ _ => ?_)
  split
  · exact nofun
  refine .bind (query_runs fun s _ _ => ?_)
  cases if item.kind.exclusive then s.otherCase t viewer c item else none with
  | some other => exact nofun
  | none =>
    refine (insertItemRow_runs h rfl fun _ => itemOk_new item viewer c now hop).seq fun r l' hl => ?_
    cases r with
    | none => exact nofun
    | some i => exact fun _ _ => hl (some_ne_none i)

theorem resolveItems_runs (items : List (String × String)) :
    Runs t (fun _ l' => l' = l) (resolveItems viewer items) l := by
  refine .foldlM (J := fun _ _ l' => l' = l) (fun item _ done l' hl => ?_) rfl
  cases done with
  | error r => exact hl
  | ok done =>
    refine (resolveItem_runs viewer item.1 item.2).seq fun r l'' hl' => ?_
    cases r with
    | error | ok => exact hl'.trans hl

theorem insertItems_runs (items : List Resolved) (now : Time) (h : Fine c row l) (hop : row.status ≠ .closed) :
    Runs t (fun r l' => r = none → Fine c row l') (insertItems t viewer c items now) l := by
  refine .foldlM (J := fun _ r l' => r = none → Fine c row l') (fun item _ r l' hl => ?_) fun _ => h
  cases r with
  | some r => exact nofun
  | none =>
    refine (insertItem_runs viewer item now (hl rfl) hop).seq fun r l'' hl' => ?_
    cases r with
    | ok i => exact fun _ => hl' i rfl
    | error r => exact nofun

theorem create_runs (new : NewCase) (now : Time) : Runs t Ends (create t viewer new now) nothing := by
  rw [create]
  split_ifs
  · exact refuse_runs _
  · exact refuse_runs _
  · exact refuse_runs _
  refine .bind (query_runs fun s _ _ => ?_)
  split_ifs
  · exact refuse_runs _
  refine (resolveItems_runs viewer new.items).seq fun r l' hl => ?_
  cases r with
  | error r => exact refuse_runs r
  | ok items =>
    rw [hl]
    refine (insertCase_runs _).seq fun id l'' hnew => ?_
    refine (insertItems_runs viewer items now hnew.empty (by simp [NewCase.row])).seq fun r l₃ hl₃ => ?_
    cases r with
    | some r => exact refuse_runs r
    | none => exact commitDetail_runs viewer (hl₃ rfl) fun hcld => by simp [NewCase.row] at hcld

theorem withCase_runs {viewer : Viewer} {id : Option ℕ} {f : ℕ → CaseRow → Txn Db (End Answer)}
    (h : ∀ id row l, RowOk row → Fine id row l → Runs t Ends (f id row) l) : Runs t Ends
        (withCase t viewer id f) nothing := by
  cases id with
  | none => exact refuse_runs _
  | some id =>
    refine lockWhere_runs.seq fun r l' hl => ?_
    cases r with
    | none => exact refuse_runs _
    | some row =>
      obtain ⟨hrow, hfi, -⟩ := hl row rfl
      exact h id row l' hrow hfi

theorem addItem_runs (id : Option ℕ) (kind reference : String) (now : Time) :
    Runs t Ends (addItem t viewer id kind reference now) nothing := by
  refine withCase_runs fun id row l hrow hfi => ?_
  split_ifs with hcld
  · exact refuse_runs _
  refine (resolveItem_runs viewer kind reference).seq fun r l' hl => ?_
  cases r with
  | error r => exact refuse_runs r
  | ok item =>
    rw [hl]
    refine (insertItem_runs viewer item now hfi hcld).seq fun r l' hl => ?_
    cases r with
    | error r => exact refuse_runs r
    | ok i =>
      refine (touch_runs now (hl i rfl) hrow).seq fun _ l' hl => ?_
      obtain ⟨row', hrow', hfi'⟩ := hl
      exact commitItem_runs viewer i hfi' hrow'

theorem removeItem_runs (id i : Option ℕ) (now : Time) : Runs t Ends (removeItem t viewer id i now) nothing := by
  refine withCase_runs fun id row l hrow hfi => ?_
  split_ifs with hcld
  · exact refuse_runs _
  refine (lockItem_runs hfi viewer i).seq fun r l' hl => ?_
  cases r with
  | none => exact refuse_runs _
  | some p =>
    obtain ⟨hfi', hitm⟩ := hl p rfl
    refine (deleteItem_runs hfi' (by rw [hitm]; rfl)).seq fun _ l' hl => ?_
    refine (touch_runs now hl hrow).seq fun _ l' hl => ?_
    obtain ⟨row', hrow', hfi''⟩ := hl
    exact hfi''.settled hrow'

theorem dated_of_outcomeValid {change : OutcomeChange} {out : Outcome} {now : Time}
    (h : outcomeValid change now = .ok out) : change.outcomeUntil ≠ none ↔ out = .acceptedRisk := by
  rw [outcomeValid] at h
  cases hpar : Outcome.parse change.outcome with
  | none =>
    rw [hpar] at h
    cases h
  | some o =>
    rw [hpar] at h
    dsimp only at h
    split_ifs at h
    cases hrs : decide (o = .acceptedRisk) with
    | true =>
      cases hdt : change.outcomeUntil with
      | none =>
        rw [hrs, hdt] at h
        cases h
      | some date =>
        rw [hrs, hdt] at h
        dsimp only at h
        split_ifs at h
        cases h
        exact ⟨fun _ => by simpa using hrs, fun _ => some_ne_none date⟩
    | false =>
      cases hdt : change.outcomeUntil with
      | some date =>
        rw [hrs, hdt] at h
        cases h
      | none =>
        rw [hrs, hdt] at h
        cases h
        exact ⟨fun hne => absurd rfl hne, fun heq => absurd heq (by simpa using hrs)⟩

theorem setValidOutcome_runs (id i : Option ℕ) (change : Option (OutcomeChange × Outcome)) (now : Time)
    (hdat : ∀ p, change = some p → (p.1.outcomeUntil ≠ none ↔ p.2 = .acceptedRisk)) :
    Runs t Ends (setValidOutcome t viewer id i change now) nothing := by
  refine withCase_runs fun id row l hrow hfi => ?_
  split_ifs with hcld
  · exact refuse_runs _
  refine (lockItem_runs hfi viewer i).seq fun r l' hl => ?_
  cases r with
  | none => exact refuse_runs _
  | some p =>
    obtain ⟨i, item, gone⟩ := p
    obtain ⟨hfi', hitm⟩ := hl _ rfl
    dsimp only at hitm ⊢
    split_ifs with hkd hgn hchg
    · exact refuse_runs _
    · exact refuse_runs _
    · -- The item that was locked is the one that is changed.
      have hlkd : Holding id row (fun j it => ItemOk row it ∧ (j = i → it = item)) l' :=
        hfi'.imp fun j it hj hok => ⟨hok, fun heq => mem_unique (heq ▸ hj) hitm⟩
      refine (updateItem_runs (E := fun _ => ItemOk row) hlkd (by rw [hitm]; rfl)
        (fun it hit => ?_) fun j it _ hit => hit.1).seq fun ok l'' hl => ?_
      · refine ⟨rfl, hit.1.active, fun hcld' => absurd hcld' hcld, fun _ => ?_, ?_⟩
        · rw [hit.2 rfl]
          simpa using hkd
        cases change with
        | none => exact ⟨fun hne => absurd rfl hne, nofun⟩
        | some p =>
          change p.1.outcomeUntil ≠ none ↔ some p.2 = some Outcome.acceptedRisk
          rw [some.injEq]
          exact hdat p rfl
      · cases ok with
        | false => exact trivial
        | true =>
          refine (touch_runs now (hl rfl).1 hrow).seq fun _ l' hl => ?_
          obtain ⟨row', hrow', hfi''⟩ := hl
          exact commitItem_runs viewer i hfi'' hrow'
    · exact commitItem_runs viewer i hfi' hrow

theorem setOutcome_runs (id i : Option ℕ) (change : Option OutcomeChange) (now : Time) :
    Runs t Ends (setOutcome t viewer id i change now) nothing := by
  cases change with
  | none => exact setValidOutcome_runs viewer id i none now nofun
  | some change =>
    rw [setOutcome]
    cases hval : outcomeValid change now with
    | error e => exact refuse_runs _
    | ok out =>
      refine setValidOutcome_runs viewer id i _ now fun p hp => ?_
      cases hp
      exact dated_of_outcomeValid hval

theorem Holding.mem_itemsOf (hI : Consistent s) (h : Holding c row D (s.mine t)) (hi : (s.mine t).items i = some it) :
    (i, it) ∈ s.itemsOf t c := by
  obtain ⟨hvw, hcs⟩ := h.view_item.mp hi
  refine mem_filterMap.mpr ⟨i, mem_range.mpr (hI.item_lt hvw), ?_⟩
  rw [hvw, filter_some_pos (by simpa using hcs)]
  rfl

/-- **What lets a case be closed**: no item of it blocks. -/
theorem closeRefusal_eq_none {viewer : Viewer} (h : closeRefusal (blockingItems t viewer c s) = none)
    (hi : (i, it) ∈ s.itemsOf t c) : blockingItem s.world it = false := by
  have hcts : (blockingItems t viewer c s).1 = 0 ∧ (blockingItems t viewer c s).2 = 0 := by
    rw [closeRefusal] at h
    split_ifs at h with hse hhid
    exact ⟨Nat.eq_zero_of_not_pos hse, Nat.eq_zero_of_not_pos hhid⟩
  by_contra hblc
  have hmem : it ∈ ((s.itemsOf t c).map Prod.snd).filter (blockingItem s.world) :=
    mem_filter.mpr ⟨mem_map.mpr ⟨(i, it), hi, rfl⟩, by simpa using hblc⟩
  cases hvis : itemVisible s.world viewer it with
  | true => exact countP_eq_zero.mp hcts.1 it hmem hvis
  | false => exact countP_eq_zero.mp hcts.2 it hmem (by simpa using hvis)

theorem outcome_of_not_blocking {w : World} (h : blockingItem w it = false) (hkd : it.kind.exclusive = true) :
    it.outcome ≠ none := by
  rintro hnn
  rw [blockingItem, hkd, hnn] at h
  cases h

theorem rowOk_changed (row : CaseRow) (change : CaseChange) (severity : Severity) (status : Status) (now : Time) :
    RowOk (row.changed change severity status now) := by
  intro hcld
  have hsts : status = .closed := hcld
  rw [CaseRow.changed, hsts]
  exact some_ne_none _

theorem updateLocked_runs (change : CaseChange) (severity : Severity) (status : Status) (now : Time)
    (hfi : Fine c row l) : Runs t Ends (updateLocked t viewer change severity status now c row) l := by
  rw [updateLocked]
  split
  · exact refuse_runs _
  split
  · exact refuse_runs _
  generalize (if row.assignee ≠ change.assignee then change.assignee else none) = assignee
  refine .bind (query_runs fun s _ _ => ?_)
  split
  · exact refuse_runs _
  split
  · refine .bind (query_runs fun s _ _ => ?_)
    split <;> exact trivial
  refine .bind (query_runs fun s hI hs => ?_)
  subst hs
  cases hrfs : if row.status ≠ .closed && status = .closed then closeRefusal (blockingItems t viewer c s) else none with
  | some r => exact refuse_runs r
  | none =>
    -- If the case is to be closed, every item that needs an outcome has one.
    have hrdy : Holding c row (fun _ it => ItemOk row it ∧
        (status = .closed → it.kind.exclusive = true → it.outcome ≠ none)) (s.mine t) := by
      refine hfi.imp fun i it hi hok => ⟨hok, fun hsts hkd => ?_⟩
      by_cases hcld : row.status = .closed
      · exact hok.decided hcld hkd
      · rw [if_pos (by simp [hcld, hsts])] at hrfs
        exact outcome_of_not_blocking (closeRefusal_eq_none hrfs (hfi.mem_itemsOf hI hi)) hkd
    refine .bind (query_runs fun s' _ _ => ?_)
    cases if row.status = .closed && status ≠ .closed then reopenConflict t viewer c s' else none with
    | some number => exact refuse_runs _
    | none =>
      refine (updateCase_runs _ hrdy).seq fun _ l' hl => ?_
      split
      · refine (updateItems_runs
          (E := fun _ => ItemOk (row.changed change severity status now)) hl
          (fun i it hit _ => ?_) fun i it _ hp => ?_).seq fun ok l'' hl => ?_
        · refine ⟨rfl, ?_, fun hcld => hit.2 hcld, hit.1.kind, hit.1.dated⟩
          change decide (status ≠ .closed) = true ↔ status ≠ .closed
          rw [decide_eq_true_iff]
        · cases hp
        · cases ok with
          | false => exact refuse_runs _
          | true => exact commitDetail_runs viewer (hl rfl) (rowOk_changed row change severity status now)
      · next hsm =>
        have hiff : row.status = .closed ↔ status = .closed := by simpa using hsm
        refine commitDetail_runs viewer (hl.imp fun i it _ hit => ⟨hit.1.active.trans ?_, fun hcld => hit.2 hcld,
          hit.1.kind, hit.1.dated⟩) (rowOk_changed row change severity status now)
        exact not_congr hiff

theorem update_runs (id : Option ℕ) (change : CaseChange) (now : Time) :
    Runs t Ends (update t viewer id change now) nothing := by
  rw [update]
  split
  · exact refuse_runs _
  cases Severity.parse change.severity with
  | none => exact refuse_runs _
  | some severity =>
    dsimp only
    cases Status.parse change.status with
    | none => exact refuse_runs _
    | some status =>
      dsimp only
      cases closingValid change with
      | some p => exact refuse_runs _
      | none => exact withCase_runs fun id row l _ hfi => updateLocked_runs viewer change severity status now hfi

theorem ItemOk.reopened (h : ItemOk row it) (clear : Bool) (now : Time) :
    ItemOk (row.reopened now) (it.reopened clear) := by
  have hop : (row.reopened now).status ≠ .closed := by simp [CaseRow.reopened]
  cases clear with
  | true =>
    exact ⟨⟨fun _ => hop, fun _ => rfl⟩, fun hcld => absurd hcld hop, fun hne => absurd rfl hne,
      ⟨fun hne => absurd rfl hne, nofun⟩⟩
  | false => exact ⟨⟨fun _ => hop, fun _ => rfl⟩, fun hcld => absurd hcld hop, h.kind, h.dated⟩

theorem reopen_runs {clear : ℕ → Item → Bool} (hfi : Fine c row l) : Runs t Ends (reopen t c clear now) l := by
  refine (updateItems_runs (E := fun _ => ItemOk (row.reopened now)) hfi
    (fun i it hit _ => ?_) fun i it _ hp => ?_).seq fun ok l' hl => ?_
  · refine ⟨?_, hit.reopened _ now⟩
    rw [Item.reopened]
    split_ifs <;> rfl
  · cases hp
  cases ok with
  | false => exact trivial
  | true =>
    refine (updateCase_runs _ (hl rfl)).seq fun _ l'' hl => ?_
    exact hl.settled fun hcld => by simp [CaseRow.reopened] at hcld

theorem reopenOnItems_runs (tr : Trigger) (id : ℕ) : Runs t Ends (reopenOnItems t tr id) nothing := by
  refine lockWhere_runs.seq fun r l hl => ?_
  cases r with
  | none => exact trivial
  | some row =>
    obtain ⟨-, hfi, -⟩ := hl row rfl
    exact .bind (query_runs fun s _ _ => reopen_runs tr.now hfi)

theorem reopenExpired_runs (id : ℕ) (now : Time) : Runs t Ends (reopenExpired t id now) nothing := by
  refine lockWhere_runs.seq fun r l hl => ?_
  cases r with
  | none => exact trivial
  | some row =>
    obtain ⟨-, hfi, -⟩ := hl row rfl
    refine .bind (query_runs fun s _ _ => ?_)
    split
    · exact trivial
    · exact reopen_runs now hfi

theorem clearOpenAcceptancesExpired_runs (id : ℕ) (now : Time) :
    Runs t Ends (clearOpenAcceptancesExpired t id now) nothing := by
  refine lockWhere_runs.seq fun r l hl => ?_
  cases r with
  | none => exact trivial
  | some row =>
    obtain ⟨hrow, hfi, s, hcd⟩ := hl row rfl
    have hop : row.status ≠ .closed := by simpa using hcd
    refine (updateItems_runs (E := fun _ => ItemOk row) hfi
      (fun i it hit _ => ?_) fun i it hit _ => hit).seq fun ok l' hl => ?_
    · exact ⟨rfl, hit.active, fun hcld => absurd hcld hop, fun hne => absurd rfl hne,
        ⟨fun hne => absurd rfl hne, nofun⟩⟩
    cases ok with
    | false => exact trivial
    | true =>
      refine (touch_runs now (hl rfl) hrow).seq fun _ l'' hl => ?_
      obtain ⟨row', hrow', hfi'⟩ := hl
      exact hfi'.settled hrow'

theorem prog_runs (t : ℕ) (call : Call) : Runs t Ends (prog t call) nothing := by
  cases call with
  | create viewer new now => exact create_runs viewer new now
  | addItem viewer id kind reference now => exact addItem_runs viewer id kind reference now
  | removeItem viewer id i now => exact removeItem_runs viewer id i now
  | setOutcome viewer id i change now => exact setOutcome_runs viewer id i change now
  | update viewer id change now => exact update_runs viewer id change now
  | evidenceReturned id | itemAcceptanceExpired id => exact reopenOnItems_runs _ id
  | reopenExpired id now => exact reopenExpired_runs id now
  | clearOpenAcceptancesExpired id now => exact clearOpenAcceptancesExpired_runs id now

/-! ### The system -/

theorem Consistent.commit (hI : Consistent s) (hstl : Settled (s.mine t)) : Consistent (s.commit t) where
  items i it hi := by
    change ((s.items i).commit t).committed = some it at hi
    rw [Cell.committed_commit] at hi
    change ∃ row, ((s.cases it.caseId).commit t).committed = some row ∧ _
    rw [Cell.committed_commit]
    cases hown : (s.cases it.caseId).own t with
    | some p =>
      have hitm : (s.mine t).items i = some it := Db.mine_items.mpr ⟨hi, Cell.holds_iff.mpr ⟨p, hown⟩⟩
      obtain ⟨row, hp, -, hok⟩ := hstl it.caseId p hown
      exact ⟨row, (view_of_own hown).trans hp, hok i it hitm rfl⟩
    | none =>
      rw [Cell.view_of_none hown]
      cases hitm : (s.items i).own t with
      | none => exact hI.items i it ((Cell.view_of_none hitm).symm.trans hi)
      | some p =>
        have hhld := hI.guarded t i p it hitm (.inr ((view_of_own hitm).symm.trans hi))
        rw [own_eq_none_iff, hhld] at hown
        cases hown
  cases id row hid := by
    change ((s.cases id).commit t).committed = some row at hid
    rw [Cell.committed_commit] at hid
    cases hown : (s.cases id).own t with
    | none => exact hI.cases id row ((Cell.view_of_none hown).symm.trans hid)
    | some p =>
      obtain ⟨row', hp, hrow, -⟩ := hstl id p hown
      rw [view_of_own hown, hp] at hid
      exact some.inj hid ▸ hrow
  apart := hI.apart.commit clashes_comm t
  guarded u i p it hown hp := by
    obtain ⟨hu, hown⟩ := own_commit_eq_some_iff.mp hown
    exact holds_commit_iff.mpr ⟨hu, hI.guarded u i p it hown hp⟩
  freshItems i hi := commit_of_settled (hI.freshItems i hi) t
  freshCases id hid := commit_of_settled (hI.freshCases id hid) t

theorem Consistent.abort (hI : Consistent s) (t : ℕ) : Consistent (s.abort t) where
  items i it hi := by
    obtain ⟨row, hrow, hok⟩ := hI.items i it ((Cell.committed_abort t _).symm.trans hi)
    exact ⟨row, (Cell.committed_abort t _).trans hrow, hok⟩
  cases id row hid := hI.cases id row ((Cell.committed_abort t _).symm.trans hid)
  apart := hI.apart.abort t
  guarded u i p it hown hp := by
    obtain ⟨hu, hown⟩ := own_abort_eq_some_iff.mp hown
    exact holds_abort_iff.mpr ⟨hu, hI.guarded u i p it hown hp⟩
  freshItems i hi := abort_of_settled (hI.freshItems i hi) t
  freshCases id hid := abort_of_settled (hI.freshCases id hid) t

theorem mine_of_own_none (h : ∀ k, (s.cases k).own t = none) : s.mine t = nothing := by
  rw [Db.mine, nothing, Mine.mk.injEq]
  refine ⟨funext h, funext fun i => ?_⟩
  cases (s.items i).view t with
  | none => rfl
  | some it => exact filter_some_neg (own_eq_none_iff.mp (h it.caseId))

/-- **What others have in hand** is not changed by a commit. -/
theorem mine_commit (hI : Consistent s) (hu : u ≠ t) : (s.commit t).mine u = s.mine u := by
  have hcas : ∀ k, ((s.commit t).cases k).own u = (s.cases k).own u := fun k => own_commit hu _
  rw [Db.mine, Db.mine, Mine.mk.injEq]
  refine ⟨funext hcas, funext fun i => ?_⟩
  simp only [holds_congr (hcas _)]
  change (((s.items i).commit t).view u).filter _ = _
  cases hown : (s.items i).own t with
  | none => rw [commit_of_none hown]
  | some p =>
    have hnot : ∀ v, (v = p.1 ∨ v = p.2) → v.filter (fun it => (s.cases it.caseId).holds u) = none := by
      intro v hv
      cases v with
      | none => rfl
      | some it =>
        have hhld := hI.guarded t i p it hown (hv.imp .symm Eq.symm)
        exact filter_some_neg (Bool.eq_false_iff.mpr fun hothe => hu (holds_unique hothe hhld))
    rw [commit_of_own hown, view_settled, hnot p.2 (.inr rfl),
      view_of_none (own_none_of_ne hu hown), committed_of_own hown, hnot p.1 (.inl rfl)]

theorem mine_abort (hu : u ≠ t) : (s.abort t).mine u = s.mine u :=
  mine_congr (fun _ => own_abort hu _) fun _ => view_abort hu _

end

theorem system_safe :
    system.Safe Consistent Db.mine nothing (fun t s s' => Consistent s' ∧ Touches t s s') fun _ _ => Ends where
  start := prog_runs
  keeps _ _ _ _ hG := hG.1
  others _ _ _ _ hu _ hG := hG.2.mine hu
  close t call e s hI hen := by
    cases e with
    | commit a =>
      exact ⟨hI.commit hen, fun u hu => mine_commit hI hu, mine_of_own_none fun _ => own_commit_self t _⟩
    | rollback a => exact ⟨hI.abort t, fun u hu => mine_abort hu, mine_of_own_none fun _ => own_abort_self t _⟩
  abort t s hI := ⟨hI.abort t, fun u hu => mine_abort hu, mine_of_own_none fun _ => own_abort_self t _⟩
  effect w s s' hI heff := by
    cases heff
    exact ⟨⟨hI.items, hI.cases, hI.apart, hI.guarded, hI.freshItems, hI.freshCases⟩, fun u => rfl⟩

structure Invariants (s : Db) : Prop where
  active : ∀ i it, (s.items i).committed = some it →
    ∃ row, (s.cases it.caseId).committed = some row ∧ (it.active = true ↔ row.status ≠ .closed)
  /-- Each alarm, finding or vulnerability is active in at most one case. -/
  exclusive : ∀ i j a b, (s.items i).committed = some a → (s.items j).committed = some b → a.active = true →
    b.active = true → a.kind.exclusive = true → a.kind = b.kind → a.ref = b.ref → a.caseId = b.caseId
  /-- A closed case holds no alarm, finding or vulnerability without an outcome, -/
  decided : ∀ i it row, (s.items i).committed = some it → (s.cases it.caseId).committed = some row →
    row.status = .closed → it.kind.exclusive = true → it.outcome ≠ none
  closedAt : ∀ id row, (s.cases id).committed = some row → row.status = .closed → row.closedAt ≠ none
  outcomes : ∀ i it, (s.items i).committed = some it → it.outcome ≠ none → it.kind.exclusive = true
  dated : ∀ i it, (s.items i).committed = some it → (it.outcomeUntil ≠ none ↔ it.outcome = some .acceptedRisk)

theorem Consistent.invariants (hI : Consistent s) : Invariants s where
  active i it hi := by
    obtain ⟨row, hrow, hok⟩ := hI.items i it hi
    exact ⟨row, hrow, hok.active⟩
  exclusive i j a b hi hj ha hb hkd heq href := by
    by_cases hij : i = j
    · subst hij
      exact congrArg Item.caseId (mem_unique hi hj)
    · have hcls := hI.apart.committed hij hi hj
      rw [Item.clashes] at hcls
      simp [heq, href, ha, hb, heq ▸ hkd] at hcls
  decided i it row hi hrow := by
    obtain ⟨row', hrow', hok⟩ := hI.items i it hi
    exact mem_unique hrow' hrow ▸ hok.decided
  closedAt := hI.cases
  outcomes i it hi := by
    obtain ⟨_, -, hok⟩ := hI.items i it hi
    exact hok.kind
  dated i it hi := by
    obtain ⟨_, -, hok⟩ := hI.items i it hi
    exact hok.dated

/-- A database at rest: nobody holds a row, ids to come are free, and no case has the same item twice. -/
structure AtRest (s : Db) : Prop where
  cases : ∀ id, (s.cases id).held = none
  items : ∀ i, (s.items i).held = none
  freshItems : ∀ i, s.nextItem ≤ i → s.items i = Cell.settled none
  freshCases : ∀ id, s.nextCase ≤ id → s.cases id = Cell.settled none
  unique : ∀ i j a b, i ≠ j → (s.items i).committed = some a → (s.items j).committed = some b → a.clashes b = false

theorem AtRest.consistent (h : AtRest s) (hinv : Invariants s) : Consistent s where
  items i it hi := by
    obtain ⟨row, hrow, hatv⟩ := hinv.active i it hi
    exact ⟨row, hrow, hatv, fun hcld hkd => hinv.decided i it row hi hrow hcld hkd, hinv.outcomes i it hi,
      hinv.dated i it hi⟩
  cases := hinv.closedAt
  apart := ⟨fun hij ha hb => h.unique _ _ _ _ hij ha hb, fun {t i} _ _ _ _ _ hown _ => by
    rw [own, h.items i] at hown
    cases hown⟩
  guarded t i p it hown _ := by
    rw [own, h.items i] at hown
    cases hown
  freshItems := h.freshItems
  freshCases := h.freshCases

/-- **The invariants of cases hold** in every state of every schedule of the operations, from a database at rest in
which they hold. -/
theorem case_invariants {s₀ : Db} (h₀ : AtRest s₀) (hinv : Invariants s₀) {moves : List (Move ℕ Call World)}
    {S : Sessions ℕ Call Db (End Answer)} (hrun : run system.step (Sessions.quiet s₀) moves = some S) :
    Invariants S.state := by
  have hqu : ∀ t, s₀.mine t = nothing := fun t => mine_of_own_none fun k => by rw [own, h₀.cases k]
  exact (system_safe.run (System.sound_quiet (h₀.consistent hinv) hqu) hrun).state.invariants

/-! ### Two cases for one alarm -/

def sampleWorld : World where
  dir := ⟨.empty, [], .empty⟩
  gone _ := true
  finds _ _ := some (none, some "high")
  assignable _ := false
  clock := 0

def sampleDb : Db := ⟨fun _ => Cell.settled none, 0, fun _ => Cell.settled none, 0, sampleWorld⟩

def sampleViewer : Viewer := ⟨.global, "dana"⟩

def sampleNew : NewCase := ⟨"A", none, none, [("alarm", "7")]⟩

/-- Two cases are opened with the alarm; the second is refused. The first gets an outcome and is closed. -/
def sampleMoves : List (Move ℕ Call World) :=
  [.start 0 (.create sampleViewer sampleNew 10), .start 1 (.create sampleViewer sampleNew 11)] ++
    List.replicate 7 (.advance 0) ++ List.replicate 6 (.advance 1) ++ List.replicate 2 (.advance 0) ++
    List.replicate 2 (.advance 1) ++
    [.start 2 (.setOutcome sampleViewer (some 0) (some 0) (some ⟨"resolved", none, none⟩) 20)] ++
    List.replicate 7 (.advance 2) ++
    [.start 3 (.update sampleViewer (some 0) ⟨1, "A", "high", "closed", none, some "done"⟩ 30)] ++
    List.replicate 10 (.advance 3)

theorem sampleDb_atRest : AtRest sampleDb where
  cases _ := rfl
  items _ := rfl
  freshItems _ _ := rfl
  freshCases _ _ := rfl
  unique _ _ _ _ _ h := by cases h

theorem sampleDb_invariants : Invariants sampleDb where
  active _ _ h := by cases h
  exclusive _ _ _ _ h := by cases h
  decided _ _ _ h := by cases h
  closedAt _ _ h := by cases h
  outcomes _ _ h := by cases h
  dated _ _ h := by cases h

/-- One case is left, closed, with its item. -/
theorem case_invariants_sample :
    ∃ S, run system.step (Sessions.quiet sampleDb) sampleMoves = some S ∧
      (S.state.items 0).committed.map Item.active = some false ∧ (S.state.items 1).committed = none ∧
      (S.state.cases 0).committed.map CaseRow.status = some .closed ∧ (S.state.cases 1).committed = none ∧
      Invariants S.state :=
  ⟨_, rfl, rfl, rfl, rfl, rfl, @case_invariants sampleDb sampleDb_atRest sampleDb_invariants sampleMoves _ rfl⟩

end OpenVibes.Store.Cases
