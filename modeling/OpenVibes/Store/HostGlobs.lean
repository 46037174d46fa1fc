import OpenVibes.Store.HostGroups

/-!
# Hostname patterns

`console_glob_like` of `migrations/0053_host_groups.sql` writes a pattern with `*` as one for `LIKE`, in four
replacements one after the other; the conditions of `0057_version_order.sql` prepare the patterns with it. `lower` is a
parameter. A pattern that ends in the escape character, which `LIKE` refuses, matches nothing here.
-/

namespace OpenVibes.Store.HostGroups

open List

/-! ### Patterns -/

/-- `replace`, of one character. -/
def replace (c : Char) (target text : List Char) : List Char := text.flatMap fun x => if x = c then target else [x]

/-- `console_glob_like`, after `lower`. -/
def globLike (pattern : List Char) : List Char :=
  replace '*' ['%'] (replace '_' ['\\', '_'] (replace '%' ['\\', '%'] (replace '\\' ['\\', '\\'] pattern)))

/-- `text LIKE pattern ESCAPE '\'`, after the escape character or not. -/
def likeFrom : Bool → List Char → List Char → Bool
  | escaped, [], text => !escaped && text.isEmpty
  | escaped, c :: pattern, text =>
    if !escaped && c = '%' then text.tails.any (likeFrom false pattern)
    else if !escaped && c = '\\' then likeFrom true pattern text
    else
      match text with
      | [] => false
      | x :: text => (!escaped && c = '_' || c = x) && likeFrom false pattern text

def like : List Char → List Char → Bool := likeFrom false

/-- The text is the pattern with a text in place of each `*`. -/
inductive Fits : List Char → List Char → Prop
  | nil : Fits [] []
  | star (part : List Char) {pattern text : List Char} (h : Fits pattern text) : Fits ('*' :: pattern) (part ++ text)
  | char {c : Char} {pattern text : List Char} (hc : c ≠ '*') (h : Fits pattern text) : Fits (c :: pattern) (c :: text)

/-- What the replacements make of one character. -/
def quoted (c : Char) : List Char :=
  if c = '*' then ['%'] else if c = '\\' ∨ c = '%' ∨ c = '_' then ['\\', c] else [c]

/-- **The replacements do not meet one another**: together they quote each character once. -/
theorem globLike_eq (pattern : List Char) : globLike pattern = pattern.flatMap quoted := by
  simp only [globLike, replace, flatMap_assoc]
  refine flatMap_congr fun c _ => ?_
  by_cases hesc : c = '\\'
  · subst hesc
    decide
  by_cases hper : c = '%'
  · subst hper
    decide
  by_cases hln : c = '_'
  · subst hln
    decide
  by_cases hst : c = '*'
  · subst hst
    decide
  simp [quoted, hesc, hper, hln, hst]

variable {pattern text : List Char}

theorem like_percent_iff :
    like ('%' :: pattern) text = true ↔ ∃ part rest, part ++ rest = text ∧ like pattern rest = true := by
  simp only [like, likeFrom, Bool.not_false, Bool.true_and, decide_true, if_true, any_eq_true, mem_tails]
  constructor
  · rintro ⟨rest, ⟨part, rfl⟩, h⟩
    exact ⟨part, rest, rfl, h⟩
  · rintro ⟨part, rest, rfl, h⟩
    exact ⟨rest, ⟨part, rfl⟩, h⟩

/-- A quoted character matches itself. -/
theorem like_quoted_iff {c : Char} (hc : c ≠ '*') :
    like (quoted c ++ pattern) text = true ↔ ∃ rest, c :: rest = text ∧ like pattern rest = true := by
  rw [quoted, if_neg hc]
  split_ifs with hspc
  · cases text with
    | nil | cons => simp [like, likeFrom]
  · simp only [not_or] at hspc
    cases text with
    | nil | cons => simp [like, likeFrom, hspc]

/-- **`LIKE` means the pattern.** -/
theorem like_globLike_iff (pattern text : List Char) : like (globLike pattern) text = true ↔ Fits pattern text := by
  rw [globLike_eq]
  induction pattern generalizing text with
  | nil =>
    rw [flatMap_nil, like, likeFrom, Bool.not_false, Bool.true_and, List.isEmpty_iff]
    constructor
    · rintro rfl
      exact .nil
    · rintro ⟨⟩
      rfl
  | cons c pattern ih =>
    rw [flatMap_cons]
    by_cases hc : c = '*'
    · subst hc
      change like ('%' :: pattern.flatMap quoted) text = true ↔ _
      simp only [like_percent_iff, ih]
      constructor
      · rintro ⟨part, rest, rfl, h⟩
        exact .star part h
      · rintro (_ | ⟨part, h⟩ | ⟨hc, -⟩)
        · exact ⟨part, _, rfl, h⟩
        · exact absurd rfl hc
    · simp only [like_quoted_iff hc, ih]
      constructor
      · rintro ⟨rest, rfl, h⟩
        exact .char hc h
      · rintro (_ | _ | ⟨-, h⟩)
        · exact absurd rfl hc
        · exact ⟨_, rfl, h⟩

/-! ### Prepared conditions -/

/-- `console_condition_likes`. -/
def conditionLikes (lower : String → String) (vals : List String) : List (List Char) :=
  vals.map fun v => globLike (lower v).toList

/-- `console_condition_holds_prepared`. -/
def conditionHoldsPrepared (lower : String → String) (within : String → String → Bool) (k : Known) (field : Field)
    (negate : Bool) (vals : List String) (likes : List (List Char)) (nets : List String) : Bool :=
  match field with
  | .osFamily => k.osFamily.any fun v => negate != vals.contains v
  | .distribution => k.distribution.any fun v => negate != vals.contains v
  | .hostname => k.hostname.any fun v => negate != likes.any fun pattern => like pattern (lower v).toList
  | .ip => k.lastAddress.any fun v => negate != nets.any (within v)

/-- `console_condition_holds` of migration 57 gives the answers of migration 53. -/
theorem conditionHoldsPrepared_eq (lower : String → String) (within : String → String →
    Bool) (k : Known) (c : Condition) :
    conditionHoldsPrepared lower within k c.field c.negate c.vals (conditionLikes lower c.vals) c.vals =
      conditionHolds ⟨lower, fun v pattern => like (globLike (lower pattern).toList) (lower v).toList, within⟩ k c := by
  unfold conditionHoldsPrepared conditionHolds
  cases c.field with
  | hostname => simp only [conditionLikes, any_map, Function.comp_def]
  | _ => rfl

/-- **Hostname patterns mean what they say**: `*` stands for any text, and every other character for itself; and so they
do in a prepared condition, negated or not. -/
theorem hostname_patterns_mean (lower : String → String) (within : String → String → Bool) :
    (∀ pattern hostname : String, like (globLike (lower pattern).toList) (lower hostname).toList = true ↔
      Fits (lower pattern).toList (lower hostname).toList) ∧
    ∀ (k : Known) (negate : Bool) (vals nets : List String),
      conditionHoldsPrepared lower within k .hostname negate vals (conditionLikes lower vals) nets = true ↔
        ∃ hostname, k.hostname = some hostname ∧
          (negate = true ↔ ¬∃ v ∈ vals, Fits (lower v).toList (lower hostname).toList) := by
  refine ⟨fun pattern hostname => like_globLike_iff _ _, fun k negate vals nets => ?_⟩
  have hany : ∀ hostname : String,
      ((conditionLikes lower vals).any fun pattern => like pattern (lower hostname).toList) = true ↔
        ∃ v ∈ vals, Fits (lower v).toList (lower hostname).toList := fun hostname => by
    simp [conditionLikes, like_globLike_iff]
  rw [conditionHoldsPrepared]
  simp only [Option.any_eq_true, ← hany]
  refine exists_congr fun hostname => and_congr_right fun _ => ?_
  cases negate <;> cases (conditionLikes lower vals).any fun pattern => like pattern (lower hostname).toList <;> simp

end OpenVibes.Store.HostGroups
