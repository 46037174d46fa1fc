import Mathlib
import OpenVibes.Rust.Bytes
import OpenVibes.Theory.Loop

/-!
# CVE ids in a text

`cves_in` of `updateinfo.rs` collects the ids of an advisory's title and description. It looks for `CVE-` in the text
and counts digits in its bytes. A slice of a text that begins or ends inside a character is a panic.
-/

namespace OpenVibes.Vulns.Updateinfo

open Rust List Theory String.Pos.Raw

/-- A slice of a text, as its bytes; `none` is a panic. -/
def slice (text : String) (i j : ℕ) : Option Bytes :=
  if i ≤ j ∧ IsValid text ⟨i⟩ ∧ IsValid text ⟨j⟩ then some (((asBytes text).drop i).take (j - i)) else none

/-- A slice of bytes. -/
def getFrom (s : Bytes) (i : ℕ) : Option Bytes := if i ≤ s.length then some (s.drop i) else none

/-- `CVE-`. -/
def cve : Bytes := [67, 86, 69, 45]

/-- `str::find`. -/
def find (needle s : Bytes) : Option ℕ := (range (s.length + 1)).find? fun i => needle.isPrefixOf (s.drop i)

/-- The length of the run of digits at the start. -/
def digits (s : Bytes) : ℕ := (s.takeWhile isAsciiDigit).length

def turn (text : String) : ℕ × Finset Bytes → (ℕ × Finset Bytes) ⊕ Option (Finset Bytes)
  | (pos, found) =>
    match slice text pos (asBytes text).length with
    | none => .inr none
    | some tail =>
      match find cve tail with
      | none => .inr (some found)
      | some offset =>
        let start := pos + offset
        match getFrom (asBytes text) (start + 4) with
        | none => .inr none
        | some rest =>
          let year := digits rest
          let number := (getFrom rest (year + 1)).elim 0 digits
          if year = 4 ∧ rest[4]? = some 45 ∧ 4 ≤ number then
            match slice text start (start + 4 + 5 + number) with
            | none => .inr none
            | some id => .inl (start + 4, insert id found)
          else .inl (start + 4, found)

/-- `none` if the loop is still going round after as many turns as the text has bytes, and one more. -/
def cvesIn (text : String) (found : Finset Bytes) : Option (Option (Finset Bytes)) :=
  loop (turn text) ((asBytes text).length + 1) (0, found)

/-- The text starts with the id: `CVE-`, exactly four digits, `-` and all of a run of at least four digits. -/
def Starts (id s : Bytes) : Prop :=
  ∃ rest, s = cve ++ rest ∧ (digits rest = 4 ∧ rest[4]? = some 45 ∧ 4 ≤ digits (rest.drop 5)) ∧
    id = cve ++ rest.take (5 + digits (rest.drop 5))

variable {id s rest : Bytes} {b : UInt8} {text : String} {i pos offset : ℕ} {found : Finset Bytes}

/-- A character begins and ends at an ASCII byte. -/
theorem isValid_of_ascii (h : (asBytes text)[i]? = some b) (hb : b &&& 128 = 0) :
    IsValid text ⟨i⟩ ∧ IsValid text ⟨i + 1⟩ := by
  obtain ⟨hlt, hby⟩ := List.getElem?_eq_some_iff.mp h
  have hby : text.getUTF8Byte ⟨i⟩ hlt = b := hby
  have hval := isValid_iff_isUTF8FirstByte.mpr (.inr ⟨hlt, hby ▸ .inl hb⟩)
  let pos : text.Pos := ⟨_, hval⟩
  have hend : pos ≠ text.endPos := fun heq => Nat.ne_of_lt hlt (congrArg (·.offset.byteIdx) heq)
  have hpos : pos.byte hend = b := String.Pos.getUTF8Byte_offset.symm.trans hby
  have hsz : (pos.get hend).utf8Size = 1 := by
    rw [← String.Pos.utf8ByteSize_byte, UInt8.utf8ByteSize, if_pos (hpos ▸ hb)]
  have hnx : (pos.next hend).offset = ⟨i + 1⟩ := by
    rw [String.Pos.Raw.ext_iff, String.Pos.byteIdx_offset_next, hsz]
  exact ⟨hval, hnx ▸ (pos.next hend).isValid⟩

theorem and_of_isAsciiDigit (h : isAsciiDigit b) : b &&& 128 = 0 := by
  revert b
  decide +kernel

/-- The run of digits after the year is the one that is counted. -/
theorem number_eq (h : digits rest = 4) (hds : rest[4]? = some 45) :
    (getFrom rest (digits rest + 1)).elim 0 digits = digits (rest.drop 5) := by
  obtain ⟨hlt, -⟩ := List.getElem?_eq_some_iff.mp hds
  rw [h, getFrom, if_pos (Nat.succ_le_of_lt hlt)]
  rfl

theorem starts_cve_append :
    Starts id (cve ++ rest) ↔ (digits rest = 4 ∧ rest[4]? = some 45 ∧ 4 ≤ digits (rest.drop 5)) ∧
      id = cve ++ rest.take (5 + digits (rest.drop 5)) := by
  simp [Starts]

theorem Starts.isPrefixOf (h : Starts id s) : cve.isPrefixOf s := by
  obtain ⟨rest, rfl, -⟩ := h
  exact isPrefixOf_iff_prefix.mpr (prefix_append cve rest)

theorem rest_eq (hs : (asBytes text).drop i = cve ++ rest) : rest = (asBytes text).drop (i + 4) := by
  rw [← drop_drop, hs]
  rfl

theorem slice_id (hs : (asBytes text).drop i = cve ++ rest) (hnum : 4 ≤ digits (rest.drop 5)) :
    slice text i (i + 4 + 5 + digits (rest.drop 5)) = some (cve ++ rest.take (5 + digits (rest.drop 5))) := by
  have hsta : IsValid text ⟨i⟩ := by
    have hfst : (asBytes text)[i + 0]? = some 67 := by rw [← getElem?_drop, hs]; rfl
    exact (isValid_of_ascii hfst (by decide)).1
  -- the last byte is a digit
  have hend : IsValid text ⟨i + 4 + 5 + digits (rest.drop 5)⟩ := by
    obtain ⟨n, hn⟩ : ∃ n, digits (rest.drop 5) = n + 1 := ⟨digits (rest.drop 5) - 1, by omega⟩
    have hlt : n < ((rest.drop 5).takeWhile isAsciiDigit).length := by rw [digits] at hn; omega
    have hla := prefix_iff_getElem?.mp ( takeWhile_prefix isAsciiDigit) n hlt
    have hby : (asBytes text)[i + 4 + 5 + n]? = (rest.drop 5)[n]? := by rw [rest_eq hs, drop_drop, getElem?_drop]
    rw [hn]
    exact (isValid_of_ascii (hby.trans hla) (and_of_isAsciiDigit (mem_takeWhile_imp (getElem_mem hlt)))).2
  rw [slice, if_pos ⟨by omega, hsta, hend⟩, hs, ← take_length_add_append]
  congr 2
  simp [cve]
  omega

theorem find_cve (h : find cve s = some offset) :
    (∃ rest, s.drop offset = cve ++ rest) ∧ ∀ id, ∀ j < offset, ¬Starts id (s.drop j) := by
  obtain ⟨hfst, -, hbef⟩ := find?_range_eq_some.mp h
  obtain ⟨rest, hrs⟩ := isPrefixOf_iff_prefix.mp hfst
  refine ⟨⟨rest, hrs.symm⟩, fun id j hj hsts => ?_⟩
  simpa [hsts.isPrefixOf] using hbef j hj

theorem not_starts_of_find (h : find cve s = none) (j : ℕ) : ¬Starts id (s.drop j) := fun hsts => by
  have hlt : j < s.length := by
    by_contra hge
    have hemp := hsts.isPrefixOf
    rw [drop_of_length_le (not_lt.mp hge)] at hemp
    cases hemp
  simpa [hsts.isPrefixOf] using find?_range_eq_none.mp h j (Nat.lt_succ_of_lt hlt)

theorem slice_tail (hpos : IsValid text ⟨pos⟩) : slice text pos (asBytes text).length = some
    ((asBytes text).drop pos) := by
  rw [slice, if_pos ⟨hpos.le_utf8ByteSize, hpos, isValid_rawEndPos⟩, ← length_drop, take_length]

theorem turn_some (found : Finset Bytes) (hpos : IsValid text ⟨pos⟩) (hfi : find cve
    ((asBytes text).drop pos) = some offset) (hs : (asBytes text).drop (pos + offset) = cve ++ rest) :
    ∃ found', turn text (pos, found) = .inl (pos + offset + 4, found') ∧
      ∀ id, id ∈ found' ↔ id ∈ found ∨ Starts id (cve ++ rest) := by
  have hrs : getFrom (asBytes text) (pos + offset + 4) = some rest := by
    have hlen := congrArg length hs
    rw [getFrom, ← rest_eq hs, if_pos (by simp [cve] at hlen; omega)]
  simp only [turn, slice_tail hpos, hfi, hrs, starts_cve_append]
  split_ifs with hcts
  · rw [number_eq hcts.1 hcts.2.1] at hcts ⊢
    rw [slice_id hs hcts.2.2]
    exact ⟨_, rfl, fun id => by simp [hcts, or_comm]⟩
  · refine ⟨found, rfl, fun id => (or_iff_left ?_).symm⟩
    rintro ⟨⟨hyr, hds, hnum⟩, -⟩
    exact hcts ⟨hyr, hds, (number_eq hyr hds).symm ▸ hnum⟩

theorem loop_turn {n : ℕ} (found : Finset Bytes) (hn : (asBytes text).length < n + pos) (hpos : IsValid text ⟨pos⟩) :
    ∃ found', loop (turn text) n (pos, found) = some (some found') ∧
      ∀ id, id ∈ found' ↔ id ∈ found ∨ ∃ i, pos ≤ i ∧ Starts id ((asBytes text).drop i) := by
  induction n generalizing pos found with
  | zero => exact absurd hpos.le_utf8ByteSize (by rw [Nat.zero_add] at hn; exact Nat.not_le.mpr hn)
  | succ n ih =>
    rw [loop]
    cases hfi : find cve ((asBytes text).drop pos) with
    | none =>
      refine ⟨found, by simp only [turn, slice_tail hpos, hfi], fun id => (or_iff_left ?_).symm⟩
      rintro ⟨i, hi, hsts⟩
      obtain ⟨j, rfl⟩ := Nat.exists_eq_add_of_le hi
      exact not_starts_of_find hfi j (drop_drop ▸ hsts)
    | some offset =>
      obtain ⟨⟨rest, hs⟩, hbef⟩ := find_cve hfi
      rw [drop_drop] at hs
      obtain ⟨found₁, htr, hfnd₁⟩ := turn_some found hpos hfi hs
      have hds : (asBytes text)[pos + offset + 3]? = some 45 := by rw [← getElem?_drop, hs]; rfl
      obtain ⟨found', hlp, hfnd'⟩ := ih found₁ (by omega) (isValid_of_ascii hds (by decide)).2
      refine ⟨found', by rw [htr]; exact hlp, fun id => ?_⟩
      rw [hfnd', hfnd₁, or_assoc, ← hs]
      refine or_congr_right ⟨?_, ?_⟩
      · rintro (hsts | ⟨i, hi, hsts⟩)
        · exact ⟨_, Nat.le_add_right .., hsts⟩
        · exact ⟨i, by omega, hsts⟩
      rintro ⟨i, hi, hsts⟩
      obtain ⟨j, rfl⟩ := Nat.exists_eq_add_of_le hi
      rcases lt_trichotomy j offset with hlt | rfl | hgt
      · exact absurd (drop_drop ▸ hsts) (hbef id j hlt)
      · exact .inl hsts
      by_cases hfar : offset + 4 ≤ j
      · exact .inr ⟨_, by omega, hsts⟩
      -- no id starts inside `CVE-`
      obtain ⟨k, rfl⟩ := Nat.exists_eq_add_of_le hgt
      have hins := hsts.isPrefixOf
      have hdr : (asBytes text).drop (pos + (offset + 1 + k)) = (cve ++ rest).drop (k + 1) := by
        rw [← hs, drop_drop]
        congr 1
        omega
      obtain rfl | rfl | rfl : k = 0 ∨ k = 1 ∨ k = 2 := by omega
      all_goals simp [hdr, cve] at hins

/-- **Exactly the ids of the text** are added, and no slice panics. -/
theorem cvesIn_adds_ids (text : String) (found : Finset Bytes) :
    ∃ found', cvesIn text found = some (some found') ∧
      ∀ id, id ∈ found' ↔ id ∈ found ∨ ∃ i, Starts id ((asBytes text).drop i) := by
  simpa [cvesIn] using @loop_turn text 0 _ found (Nat.lt_succ_self _) isValid_zero

end OpenVibes.Vulns.Updateinfo
