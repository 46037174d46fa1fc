import Mathlib.Data.List.TakeWhile
import OpenVibes.Rust.Bytes
import OpenVibes.Theory.Compare
import OpenVibes.Theory.Loop

/-!
# RPM version order

`crates/openvibes-vulns/src/rpmver.rs`: a turn of the loop of `rpmvercmp` is `rpmStep`. The meaning is RPM's: versions
compare token by token (`tokens`, `cmpTokens`), in the order `~`, the end of the version, `^`, runs of letters, runs of
digits.
-/

namespace OpenVibes.Vulns

open Rust Theory List

/-! ### The program -/

/-- The bytes that only separate: not alphanumeric, not `~`, not `^`. -/
def separator (c : UInt8) : Bool := !isAsciiAlphanumeric c && c != 126 && c != 94

/-- What follows the loop: a string that ended first is the lower one. -/
def rpmEnd (one two : Bytes) : Ordering :=
  if one = [] ∧ two = [] then .eq else if one = [] then .lt else .gt

def segmentByte : Bool → UInt8 → Bool
  | true => isAsciiDigit
  | false => isAsciiAlphabetic

def segmentOrder (numeric : Bool) (one two : Bytes) : Ordering :=
  if numeric then
    let x := one.dropWhile (· == 48)
    let y := two.dropWhile (· == 48)
    (compare x.length y.length).then (cmpBytes x y)
  else cmpBytes one two

/-- A turn of the loop, after the separators: tilde, caret, then a segment. -/
def rpmBody (one two : Bytes) : (Bytes × Bytes) ⊕ Ordering :=
  if one.head? = some 126 ∧ two.head? = some 126 then .inl (one.tail, two.tail)
  else if one.head? = some 126 then .inr .lt
  else if two.head? = some 126 then .inr .gt
  else if one.head? = some 94 ∨ two.head? = some 94 then
    if one = [] then .inr .lt
    else if two = [] then .inr .gt
    else if one.head? ≠ some 94 then .inr .gt
    else if two.head? ≠ some 94 then .inr .lt
    else .inl (one.tail, two.tail)
  else if one = [] ∨ two = [] then .inr (rpmEnd one two)
  else
    let numeric := one.head?.any isAsciiDigit
    let segTwo := two.takeWhile (segmentByte numeric)
    if segTwo = [] then .inr (if numeric then .gt else .lt)
    else
      let order := segmentOrder numeric (one.takeWhile (segmentByte numeric)) segTwo
      if order ≠ .eq then .inr order
      else .inl (one.dropWhile (segmentByte numeric), two.dropWhile (segmentByte numeric))

def rpmStep : Bytes × Bytes → (Bytes × Bytes) ⊕ Ordering
  | (one, two) =>
    if one = [] ∧ two = [] then .inr (rpmEnd one two)
    else rpmBody (one.dropWhile separator) (two.dropWhile separator)

/-! ### The meaning -/

/-- A token of a version; `stop` is the end of the version. -/
inductive Token where
  | tilde
  | stop
  | caret
  | letters (run : Bytes)
  | digits (n : ℕ)
  deriving DecidableEq

def Token.rank : Token → ℕ
  | .tilde => 0
  | .stop => 1
  | .caret => 2
  | .letters _ => 3
  | .digits _ => 4

/-- The order of tokens: by kind, letters by their bytes, digits by their number. -/
def Token.cmp : Token → Token → Ordering
  | .letters x, .letters y => cmpBytes x y
  | .digits m, .digits n => compare m n
  | s, t => compare s.rank t.rank

/-- The tokens of a version: separators dropped, runs as long as they go. -/
def tokens : Bytes → List Token
  | [] => []
  | c :: s =>
    if c = 126 then .tilde :: tokens s
    else if c = 94 then .caret :: tokens s
    else if isAsciiDigit c then
      .digits (decimal (c :: s.takeWhile isAsciiDigit)) :: tokens (s.dropWhile isAsciiDigit)
    else if isAsciiAlphabetic c then
      .letters (c :: s.takeWhile isAsciiAlphabetic) :: tokens (s.dropWhile isAsciiAlphabetic)
    else tokens s
  termination_by s => s.length
  decreasing_by
    all_goals simp only [length_cons, Nat.lt_succ_iff, le_refl]
    all_goals exact (dropWhile_sublist _).length_le

/-- **RPM's order**: token lists compared token by token, each with its end. -/
def cmpTokens (x y : List Token) : Ordering :=
  List.compareLex Token.cmp (x ++ [.stop]) (y ++ [.stop])

/-! ### Tokens and their order -/

def Token.run : Token → Bytes
  | .letters x => x
  | _ => []

def Token.value : Token → ℕ
  | .digits n => n
  | _ => 0

theorem Token.cmp_eq (s t : Token) :
    Token.cmp s t = compareLex (compareOn Token.rank)
      (compareLex (compareOn Token.run) (compareOn Token.value)) s t := by
  cases s <;> cases t <;> simp [Token.cmp, compareLex, compareOn, Token.rank, Token.run, Token.value] <;> rfl

instance : Std.TransCmp Token.cmp := by
  rw [show Token.cmp = _ from funext fun s => funext fun t => Token.cmp_eq s t]
  infer_instance

instance : Std.TransCmp cmpTokens := transCmp_comap (List.compareLex Token.cmp) (· ++ [.stop])

@[simp] theorem tokens_nil : tokens [] = [] := by rw [tokens]

variable {c : UInt8} (s : Bytes) {a b : Token} {x y : List Token}

@[simp] theorem tokens_tilde : tokens (126 :: s) = .tilde :: tokens s := by
  rw [tokens]; simp

@[simp] theorem tokens_caret : tokens (94 :: s) = .caret :: tokens s := by
  rw [tokens]; simp

theorem tokens_separator (h : separator c) (s : Bytes) : tokens (c :: s) = tokens s := by
  simp only [separator, isAsciiAlphanumeric, Bool.and_eq_true, Bool.not_eq_true', Bool.or_eq_false_iff,
    bne_iff_ne] at h
  rw [tokens]; simp [h]

theorem tokens_digit (h : isAsciiDigit c) (s : Bytes) :
    tokens (c :: s) = .digits (decimal ((c :: s).takeWhile isAsciiDigit)) ::
      tokens ((c :: s).dropWhile isAsciiDigit) := by
  have h1 : c ≠ 126 := by rintro rfl; revert h; decide
  have h2 : c ≠ 94 := by rintro rfl; revert h; decide
  rw [tokens]; simp [h, h1, h2]

theorem tokens_letter (h : isAsciiAlphabetic c) (s : Bytes) :
    tokens (c :: s) = .letters ((c :: s).takeWhile isAsciiAlphabetic) ::
      tokens ((c :: s).dropWhile isAsciiAlphabetic) := by
  have h1 : c ≠ 126 := by rintro rfl; revert h; decide
  have h2 : c ≠ 94 := by rintro rfl; revert h; decide
  have h3 : isAsciiDigit c = false := by simp only [isAsciiAlphabetic, isAsciiDigit] at *; grind
  rw [tokens]; simp [h, h1, h2, h3]

theorem tokens_skip : tokens (s.dropWhile separator) = tokens s := by
  induction s with
  | nil => rfl
  | cons c s ih =>
    rw [dropWhile_cons]
    split_ifs with hc
    · rw [ih, tokens_separator hc]
    · rfl

inductive Head : Bytes → Prop where
  | stop : Head []
  | tilde (s : Bytes) : Head (126 :: s)
  | caret (s : Bytes) : Head (94 :: s)
  | run {c : UInt8} (s : Bytes) : isAsciiAlphabetic c ∨ isAsciiDigit c → Head (c :: s)

theorem head_skip : Head (s.dropWhile separator) := by
  induction s with
  | nil => exact .stop
  | cons c s ih =>
    rw [dropWhile_cons]
    split_ifs with hc
    · exact ih
    simp only [separator, isAsciiAlphanumeric, Bool.and_eq_true, Bool.not_eq_true', Bool.or_eq_false_iff,
      bne_iff_ne, not_and_or, not_not, Bool.not_eq_false] at hc
    rcases hc with (h | rfl) | rfl
    · exact .run s h
    · exact .tilde s
    · exact .caret s

theorem not_isAsciiDigit_of_alphabetic (h : isAsciiAlphabetic c) : isAsciiDigit c = false := by
  simp only [isAsciiAlphabetic, isAsciiDigit] at *
  grind

theorem ne_of_run (h : isAsciiAlphabetic c ∨ isAsciiDigit c) : c ≠ 126 ∧ c ≠ 94 := by
  simp only [isAsciiAlphabetic, isAsciiDigit] at h
  grind

theorem tokens_run (h : isAsciiAlphabetic c ∨ isAsciiDigit c) (s : Bytes) :
    ∃ t x, tokens (c :: s) = t :: x ∧ 2 < t.rank := by
  rcases h with h | h
  · exact ⟨_, _, tokens_letter h s, by simp [Token.rank]⟩
  · exact ⟨_, _, tokens_digit h s, by simp [Token.rank]⟩

/-! ### The loop -/

theorem cmpTokens_cons (a b : Token) (x y : List Token) :
    cmpTokens (a :: x) (b :: y) = (Token.cmp a b).then (cmpTokens x y) := List.compareLex_cons_cons

theorem Token.cmp_of_rank_lt {s t : Token} (h : s.rank < t.rank) : Token.cmp s t = .lt := by
  rw [Token.cmp_eq, compareLex, compareOn, Nat.compare_eq_lt.mpr h]
  rfl

theorem cmpTokens_of_rank_lt (h : a.rank < b.rank) : cmpTokens (a :: x) (b :: y) = .lt := by
  rw [cmpTokens_cons, Token.cmp_of_rank_lt h]
  rfl

theorem cmpTokens_nil_of_rank (h : 1 < b.rank) : cmpTokens [] (b :: y) = .lt := by
  rw [cmpTokens, nil_append, cons_append, List.compareLex_cons_cons, Token.cmp_of_rank_lt (s := .stop) h]
  rfl

theorem cmpTokens_tilde_nil (x : List Token) : cmpTokens (.tilde :: x) [] = .lt := by
  rw [cmpTokens, nil_append, cons_append, List.compareLex_cons_cons]
  rfl

theorem cmpTokens_gt (h : cmpTokens y x = .lt) : cmpTokens x y = .gt := Std.OrientedCmp.gt_of_lt h

/-- A turn agrees with the order `o`: it leaves with `o`, or goes round with strings in the order `o`. -/
def Agrees (o : Ordering) : (Bytes × Bytes) ⊕ Ordering → Prop
  | .inl s => cmpTokens (tokens s.1) (tokens s.2) = o
  | .inr r => r = o

/-- Segments of one kind decide, unless they compare equal. -/
theorem agrees_segments {order : Ordering} (r₁ r₂ : Bytes) (ho : order = Token.cmp a b) :
    Agrees (cmpTokens (a :: tokens r₁) (b :: tokens r₂)) (if order ≠ .eq then .inr order else .inl (r₁, r₂)) := by
  rw [cmpTokens_cons, ← ho]
  cases order <;> rfl

theorem rpmBody_runs {d : UInt8} {s t : Bytes} (hc : isAsciiAlphabetic c ∨ isAsciiDigit c)
    (hd : isAsciiAlphabetic d ∨ isAsciiDigit d) :
    Agrees (cmpTokens (tokens (c :: s)) (tokens (d :: t))) (rpmBody (c :: s) (d :: t)) := by
  obtain ⟨c1, c2⟩ := ne_of_run hc
  obtain ⟨d1, d2⟩ := ne_of_run hd
  simp only [rpmBody, head?_cons, Option.some.injEq, c1, c2, d1, d2, and_self, or_self, if_false,
    reduceCtorEq, Option.any_some]
  rcases hc with hc | hc
  · simp only [not_isAsciiDigit_of_alphabetic hc, segmentByte]
    rcases hd with hd | hd
    · rw [if_neg (by simp [hd]), tokens_letter hc, tokens_letter hd]
      exact agrees_segments _ _ rfl
    have hd' : isAsciiAlphabetic d = false := by
      by_contra h
      rw [not_isAsciiDigit_of_alphabetic (by simpa using h)] at hd
      exact absurd hd (by simp)
    rw [if_pos (by simp [hd']), tokens_letter hc, tokens_digit hd, cmpTokens_of_rank_lt (by simp [Token.rank])]
    rfl
  · simp only [hc, segmentByte]
    rcases hd with hd | hd
    · rw [if_pos (by simp [not_isAsciiDigit_of_alphabetic hd]), tokens_digit hc, tokens_letter hd,
        cmpTokens_gt (cmpTokens_of_rank_lt (by simp [Token.rank]))]
      rfl
    · rw [if_neg (by simp [hd]), tokens_digit hc, tokens_digit hd]
      refine agrees_segments _ _ ?_
      exact compare_length_then_cmpBytes (fun e he => mem_takeWhile_imp he) (fun e he => mem_takeWhile_imp he)

/-- A turn agrees with the order of the strings: an end, a tilde or a caret on one side decides. -/
theorem rpmBody_spec {one two : Bytes} (h₁ : Head one) (h₂ : Head two) :
    Agrees (cmpTokens (tokens one) (tokens two)) (rpmBody one two) := by
  cases h₁ with
  | stop =>
    cases h₂ with
    | stop => rw [tokens_nil]; rfl
    | tilde t => rw [tokens_nil, tokens_tilde, cmpTokens_gt (cmpTokens_tilde_nil _)]; rfl
    | caret t => rw [tokens_nil, tokens_caret, cmpTokens_nil_of_rank (by simp [Token.rank])]; rfl
    | run t hd =>
      obtain ⟨d1, d2⟩ := ne_of_run hd
      obtain ⟨b, y, hy, hr⟩ := tokens_run hd t
      rw [tokens_nil, hy, cmpTokens_nil_of_rank (by omega)]
      simp [rpmBody, rpmEnd, d1, d2, Agrees]
  | tilde s =>
    cases h₂ with
    | stop => rw [tokens_nil, tokens_tilde, cmpTokens_tilde_nil]; rfl
    | tilde t => rw [tokens_tilde, tokens_tilde, cmpTokens_cons]; rfl
    | caret t => rw [tokens_tilde, tokens_caret, cmpTokens_of_rank_lt (by simp [Token.rank])]; rfl
    | run t hd =>
      obtain ⟨d1, -⟩ := ne_of_run hd
      obtain ⟨b, y, hy, hr⟩ := tokens_run hd t
      rw [tokens_tilde, hy, cmpTokens_of_rank_lt (a := .tilde) (show 0 < b.rank by omega)]
      simp [rpmBody, d1, Agrees]
  | caret s =>
    cases h₂ with
    | stop => rw [tokens_nil, tokens_caret, cmpTokens_gt (cmpTokens_nil_of_rank (by simp [Token.rank]))]; rfl
    | tilde t =>
      rw [tokens_tilde, tokens_caret, cmpTokens_gt (cmpTokens_of_rank_lt (by simp [Token.rank]))]; rfl
    | caret t => rw [tokens_caret, tokens_caret, cmpTokens_cons]; rfl
    | run t hd =>
      obtain ⟨d1, d2⟩ := ne_of_run hd
      obtain ⟨b, y, hy, hr⟩ := tokens_run hd t
      rw [tokens_caret, hy, cmpTokens_of_rank_lt (a := .caret) hr]
      simp [rpmBody, d1, d2, Agrees]
  | run s hc =>
    obtain ⟨c1, c2⟩ := ne_of_run hc
    obtain ⟨a, x, hx, hr⟩ := tokens_run hc s
    cases h₂ with
    | stop =>
      rw [tokens_nil, hx, cmpTokens_gt (cmpTokens_nil_of_rank (by omega))]
      simp [rpmBody, rpmEnd, c1, c2, Agrees]
    | tilde t =>
      rw [tokens_tilde, hx, cmpTokens_gt (cmpTokens_of_rank_lt (a := .tilde) (show 0 < a.rank by omega))]
      simp [rpmBody, c1, Agrees]
    | caret t =>
      rw [tokens_caret, hx, cmpTokens_gt (cmpTokens_of_rank_lt (a := .caret) hr)]
      simp [rpmBody, c1, c2, Agrees]
    | run t hd => exact rpmBody_runs hc hd

/-- **A turn of the loop** agrees with the order of the strings. -/
theorem rpmStep_spec (one two : Bytes) : Agrees (cmpTokens (tokens one) (tokens two)) (rpmStep (one, two)) := by
  rw [rpmStep]
  split_ifs with h
  · obtain ⟨rfl, rfl⟩ := h
    rw [tokens_nil]
    rfl
  · rw [← tokens_skip one, ← tokens_skip two]
    exact rpmBody_spec (head_skip one) (head_skip two)

theorem length_tail_lt {s : Bytes} (h : s.head? = some c) : s.tail.length < s.length := by
  cases s with
  | nil => simp at h
  | cons d t => simp

theorem length_dropWhile_lt {s : Bytes} {p : UInt8 → Bool} (h : s.takeWhile p ≠ []) :
    (s.dropWhile p).length < s.length := by
  have hs := congrArg length (takeWhile_append_dropWhile (p := p) (l := s))
  have := length_pos_iff.mpr h
  rw [length_append] at hs
  omega

theorem rpmBody_shorter {one two one' two' : Bytes} (h : rpmBody one two = .inl (one', two')) :
    one'.length + two'.length < one.length + two.length := by
  simp only [rpmBody] at h
  split_ifs at h with h1 h2 h3 h4 h5 h6 h7 h8 h9 h10 h11
  · cases h
    exact Nat.add_lt_add (length_tail_lt h1.1) (length_tail_lt h1.2)
  · cases h
    exact Nat.add_lt_add (length_tail_lt (not_not.mp h7)) (length_tail_lt (not_not.mp h8))
  · cases h
    exact Nat.add_lt_add_of_le_of_lt (dropWhile_sublist _).length_le (length_dropWhile_lt h10)

theorem rpmStep_decreases : Decreases rpmStep fun s => s.1.length + s.2.length := by
  rintro ⟨one, two⟩ ⟨one', two'⟩ h
  rw [rpmStep] at h
  split_ifs at h
  calc one'.length + two'.length
      < (one.dropWhile separator).length + (two.dropWhile separator).length := rpmBody_shorter h
    _ ≤ one.length + two.length := Nat.add_le_add (dropWhile_sublist _).length_le (dropWhile_sublist _).length_le

/-- `rpmvercmp`: equal strings are equal versions; otherwise the loop decides. -/
def rpmvercmp (a b : Bytes) : Ordering :=
  if a = b then .eq else runLoop rpmStep _ rpmStep_decreases (a, b)

/-- `compare_evr`: epoch, then version, then release. -/
def compareEvr (a b : ℕ × Bytes × Bytes) : Ordering :=
  (compare a.1 b.1).then ((rpmvercmp a.2.1 b.2.1).then (rpmvercmp a.2.2 b.2.2))

theorem rpmvercmp_eq_cmpTokens (a b : Bytes) : rpmvercmp a b = cmpTokens (tokens a) (tokens b) := by
  rw [rpmvercmp]
  split_ifs with h
  · rw [h]
    exact Std.ReflCmp.compare_self.symm
  refine runLoop_rule (fun s r => r = cmpTokens (tokens s.1) (tokens s.2)) ?_ ?_ (a, b)
  · rintro ⟨one, two⟩ r hs
    have := rpmStep_spec one two
    rwa [hs] at this
  · rintro ⟨one, two⟩ s' r hs hr
    have := rpmStep_spec one two
    rw [hs] at this
    exact hr.trans this

instance : Std.TransCmp rpmvercmp := by
  rw [show rpmvercmp = _ from funext fun a => funext fun b => rpmvercmp_eq_cmpTokens a b]
  exact transCmp_comap cmpTokens tokens

instance : Std.TransCmp compareEvr :=
  letI := transCmp_comap rpmvercmp fun a : ℕ × Bytes × Bytes => a.2.1
  letI := transCmp_comap rpmvercmp fun a : ℕ × Bytes × Bytes => a.2.2
  inferInstanceAs (Std.TransCmp (compareLex (compareOn fun a : ℕ × Bytes × Bytes => a.1)
    (compareLex (fun a b => rpmvercmp a.2.1 b.2.1) fun a b => rpmvercmp a.2.2 b.2.2)))

/-- **RPM's order.** The loop of `rpmvercmp` ends after at most as many turns as the two
strings have bytes, `rpmvercmp` is the lexicographic comparison of the token lists, and
it is a total preorder, as is `compare_evr`. -/
theorem rpm_order :
    (∀ (a b : Bytes) (turns : ℕ), a ≠ b → a.length + b.length < turns →
      loop rpmStep turns (a, b) = some (rpmvercmp a b)) ∧
    (∀ a b : Bytes, rpmvercmp a b = List.compareLex Token.cmp (tokens a ++ [.stop]) (tokens b ++ [.stop])) ∧
    TotalPreorder rpmvercmp ∧ TotalPreorder compareEvr := by
  refine ⟨fun a b turns hab hn => ?_, rpmvercmp_eq_cmpTokens, totalPreorder _, totalPreorder _⟩
  rw [rpmvercmp, if_neg hab]
  exact loop_eq_some_runLoop hn

example : rpmvercmp (asBytes "1.0~rc1") (asBytes "1.0") = .lt := by decide

example : rpmvercmp (asBytes "10.0001") (asBytes "10.1") = .eq := by decide

end OpenVibes.Vulns
