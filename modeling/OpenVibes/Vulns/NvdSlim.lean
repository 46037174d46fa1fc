import OpenVibes.Theory.Fallible
import OpenVibes.Theory.Group
import OpenVibes.Vulns.NvdRecord

/-!
# Slim NVD files

`crates/openvibes-vulns/src/enrich/nvd_slim.rs`: the builder makes a slim record of each of NVD's (`slimRecord`), one
file a year. The platform refuses a file with a record that breaks the format (`SlimRecord.bad`), and else makes of it
the rows that the API sync stores (`parseSlim`). A score is in tenths in memory, and a floating-point number as it is
written. JSON's text and gzip are a `Codec`, which gives back the file that was written.
-/

namespace OpenVibes.Vulns.Enrich

open Rust Store Theory List Option

/-! ### Slim files -/

/-- `MAX_RANGES`: most ranges one record may carry. -/
def maxRanges : ℕ := 5000

def maxBound : ℕ := 64

/-- `SlimCvss`: a score in tenths in memory, and a floating-point number in JSON. -/
structure SlimCvss (S : Type) where
  version : String
  score : S
  (severity vector : String)

/-- `SlimRange`: one affected range. -/
structure SlimRange where
  cpe : String
  (startIncluding startExcluding endIncluding endExcluding : Option String)

/-- `SlimRecord`: one CVE. -/
structure SlimRecord (S : Type) where
  id : String
  modified : Option String
  cvss : Option (SlimCvss S)
  cwe : List String
  description : Option String
  ranges : List SlimRange
  os : List String

/-- `SlimFile`: a slim year file. -/
structure SlimFile (S : Type) where
  (format year : ℕ)
  records : List (SlimRecord S)

/-- `Tenths`: a score in tenths. -/
abbrev Tenths := ℕ

def Tenths.serialize (tenths : Tenths) : F64 := f64 (tenths / 10)

def Tenths.deserialize (score : F64) : Option Tenths :=
  if 0 ≤ score ∧ score ≤ 10 then some (asU16 (roundAway (f64 (score * 10)))) else none

def SlimCvss.serialize (c : SlimCvss Tenths) : SlimCvss F64 := { c with score := Tenths.serialize c.score }

def SlimRecord.serialize (r : SlimRecord Tenths) : SlimRecord F64 := { r with cvss := r.cvss.map SlimCvss.serialize }

def SlimFile.serialize (f : SlimFile Tenths) : SlimFile F64 := { f with records := f.records.map SlimRecord.serialize }

def SlimCvss.deserialize (c : SlimCvss F64) : Option (SlimCvss Tenths) :=
  (Tenths.deserialize c.score).map fun score => { c with score := score }

def SlimRecord.deserialize (r : SlimRecord F64) : Option (SlimRecord Tenths) :=
  match r.cvss with
  | none => some { r with cvss := none }
  | some c => c.deserialize.map fun c => { r with cvss := some c }

def SlimFile.deserialize (f : SlimFile F64) : Option (SlimFile Tenths) :=
  (f.records.mapM SlimRecord.deserialize).map fun records => { f with records := records }

/-! ### Writing -/

/-- `severity`: NVD's word, or the usual one for the score. -/
def severity (cve : Json) (score : F32) : String :=
  let metrics := cvssKeys.filterMap fun x => (((cve.get "metrics").get? x.1).bind Json.asArray).bind List.head?
  match metrics.findSome? fun m => (((m.get "cvssData").get "baseSeverity").asStr).or (m.get "baseSeverity").asStr with
  | some word => truncate (toAsciiUppercase word) 16
  | none =>
    if score < f32 (1 / 10) then "NONE"
    else if score < 4 then "LOW"
    else if score < 7 then "MEDIUM"
    else if score < 9 then "HIGH"
    else "CRITICAL"

def isFedora (o : String) : Bool := fedoraStart.toList.isPrefixOf o.toList

/-- The filter of `cap_os`: Fedora entries, and others while there is room. -/
def fill : ℕ → List String → List String
  | _, [] => []
  | room, o :: os => if isFedora o then o :: fill room os else if 0 < room then o :: fill (room - 1) os else fill 0 os

/-- `cap_os`: at most `MAX_OS` operating systems, Fedora first. -/
def capOs (os : List String) : List String :=
  if os.length ≤ maxOs then os else (fill (maxOs - os.countP isFedora) os).take maxOs

def validBound (bound : Option String) : Bool :=
  bound.all fun b => b.utf8ByteSize ≤ maxBound && !b.toList.any isControl

/-- `range_ok`: whether a range is one the reader accepts. -/
def rangeOk (range : SlimRange) : Bool :=
  "cpe:2.3:a:".toList.isPrefixOf range.cpe.toList && range.cpe.utf8ByteSize ≤ 512 && !range.cpe.toList.any isControl &&
    validBound range.startIncluding && validBound range.endIncluding && validBound range.endExcluding &&
    validBound range.startExcluding

/-- A match as a range of a slim file, its bounds cut as the API sync cuts them. -/
def RawMatch.slim (m : RawMatch) : SlimRange :=
  let cut := fun bound : Option String => bound.map fun b => truncate b maxBound
  ⟨m.criteria, cut m.startIncluding, none, cut m.endIncluding, cut m.endExcluding⟩

def tenthsOf (score : F32) : Tenths := asU16 (roundAway (f32 (score * 10)))

/-- The slim record of a record with a valid id. -/
def slimOf (cve : Json) (id : String) : SlimRecord Tenths where
  id
  modified := (cve.get "lastModified").asStr
  cvss := (cvss (cve.get "metrics")).map fun s => ⟨s.version, tenthsOf s.score, severity cve s.score, s.vector⟩
  cwe := weaknesses cve
  description := englishDescription cve
  ranges := (((keptMatches cve).1.map RawMatch.slim).filter rangeOk).take maxRanges
  os := capOs (keptMatches cve).2

/-- `slim_record`: the slim record of one NVD API record. -/
def slimRecord (cve : Json) : Option (SlimRecord Tenths) := (validId cve).map (slimOf cve)

/-! ### Reading -/

/-- `SlimPage`: what a slim year file holds, as the rows the API sync stores. -/
structure SlimPage where
  year : ℕ
  entries : List Nvd
  applicability : List Applicability
deriving DecidableEq

structure Codec where
  gzip : Bytes → Bytes
  gunzip : Bytes → ℕ → Option Bytes
  toJson : SlimFile F64 → Bytes
  ofJson : Bytes → Option (SlimFile F64)

section

variable (parseTime : String → Option Time)

def SlimRecord.bad (year : ℕ) (r : SlimRecord Tenths) : Bool :=
  let rightYear := ((stripStart "CVE-" r.id).bind fun rest => (split '-' rest).head?) = some (toString year)
  !isCve r.id || !rightYear || r.cwe.any (fun c => !isCwe c) ||
    r.description.any (fun d => maxDescription < d.utf8ByteSize) || maxRanges < r.ranges.length ||
    r.cvss.any (fun c => maxVector < c.vector.utf8ByteSize || !(["4.0", "3.1", "3.0", "2.0"].contains c.version)) ||
    !r.ranges.all rangeOk || maxOs < r.os.length || !r.os.all osOk

def SlimRecord.score (r : SlimRecord Tenths) : Option F32 := r.cvss.map fun c => f32 (c.score / 10)

def SlimRecord.rows (r : SlimRecord Tenths) : List Applicability :=
  (r.ranges.filter fun range => range.startExcluding = none).filterMap fun range =>
    (rangeRow r.id r.score range.cpe range.startIncluding range.endExcluding range.endIncluding).map fun row =>
      { row with fedora := fedoraReleases r.os }

def SlimRecord.entry (r : SlimRecord Tenths) : Nvd where
  cveId := r.id
  cvssScore := r.score
  cvssVersion := r.cvss.map SlimCvss.version
  cvssVector := r.cvss.map SlimCvss.vector
  cwe := r.cwe
  description := r.description
  modifiedAt := r.modified.bind parseTime

/-- `parse_slim`: reads a slim NVD year file. Any record that breaks the format refuses the file. -/
def parseSlim (codec : Codec) (content : Bytes) (maxOpen : ℕ) : Except ParseError SlimPage :=
  match codec.gunzip content (maxOpen + 1) with
  | none => .error .malformed
  | some json =>
    if maxOpen < json.length then .error .malformed
    else
      match (codec.ofJson json).bind SlimFile.deserialize with
      | none => .error .malformed
      | some file =>
        if file.format ≠ 1 ∨ file.records.any (SlimRecord.bad file.year) then .error .malformed
        else .ok ⟨file.year, file.records.map (SlimRecord.entry parseTime), file.records.flatMap SlimRecord.rows⟩

end

/-! ### Ranges -/

theorem validBound_cut {bound : Option String} (h : ∀ b ∈ bound, b.toList.any isControl = false) :
    validBound (bound.map fun b => truncate b maxBound) = true := by
  cases bound with
  | none => rfl
  | some b =>
    have hcon : (takeBytes maxBound b.toList).any isControl = false := by
      rw [List.any_eq_false]
      intro c hc
      exact any_eq_false.mp (h b rfl) c ((takeBytes_isPrefix _ _).subset hc)
    simp only [validBound, map_some, all_some, toList_truncate, hcon, Bool.not_false, Bool.and_true,
      decide_eq_true_eq]
    exact utf8ByteSize_truncate_le b maxBound

/-! ### Operating systems -/

variable {c : Char} {maxOpen : ℕ} (os : List String) {cve : Json}

theorem fill_sublist (room : ℕ) (os : List String) : (fill room os).Sublist os := by
  induction os generalizing room with
  | nil => exact .refl _
  | cons o os ih =>
    rw [fill]
    split_ifs
    · exact (ih room).cons_cons o
    · exact (ih _).cons_cons o
    · exact (ih 0).cons o

theorem length_capOs_le : (capOs os).length ≤ maxOs := by
  rw [capOs]
  split_ifs with hft
  · exact hft
  · exact length_take_le _ _

theorem capOs_subset : capOs os ⊆ os := by
  rw [capOs]
  split_ifs
  · exact .refl _
  · exact ((take_sublist _ _).trans (fill_sublist _ _)).subset

/-! ### The year -/

/-- The year of a CVE id, as the builder reads it: `id[4..8]`. -/
def yearOf (id : String) : ℕ := Json.digitsValue ((id.toList.drop 4).take 4)

theorem utf8Size_of_isDigit (h : c.isDigit = true) : c.utf8Size = 1 := by
  rw [Char.utf8Size_eq_one_iff]
  simp only [Char.isDigit, Bool.and_eq_true, decide_eq_true_eq] at h
  exact UInt32.le_trans h.2 (by decide)

theorem utf8Len_of_digits {cs : List Char} (h : cs.all Char.isDigit = true) : String.utf8Len cs = cs.length := by
  induction cs with
  | nil => rfl
  | cons c cs ih =>
    obtain ⟨hc, hcs⟩ := Bool.and_eq_true_iff.mp h
    rw [String.utf8Len_cons, ih hcs, utf8Size_of_isDigit hc, length_cons]

theorem isCve_parts {id : String} (h : isCve id = true) :
    ∃ year number : List Char, id.toList = "CVE-".toList ++ (year ++ '-' :: number) ∧ year.length = 4 ∧
      year.all Char.isDigit = true ∧ number.all Char.isDigit = true := by
  rw [isCve] at h
  split at h
  · rename_i cve year number hpar
    simp only [Bool.and_eq_true, decide_eq_true_eq] at h
    obtain ⟨⟨⟨⟨⟨rfl, hlen⟩, hyr⟩, -⟩, -⟩, hnum⟩ := h
    have hspl : id.toList.splitOn '-' = ["CVE".toList, year.toList, number.toList] := by
      have := congrArg (map String.toList) hpar
      simpa [split] using this
    refine ⟨year.toList, number.toList, ?_, ?_, hyr, hnum⟩
    · have hjnd : ['-'].intercalate (id.toList.splitOn '-') = id.toList := intercalate_splitOn '-'
      rw [hspl] at hjnd
      rw [← hjnd]
      simp [intercalate]
    · rw [← utf8Len_of_digits hyr, ← String.utf8ByteSize_ofList, String.ofList_toList]
      exact hlen
  · cases h

theorem digitChar_of_isDigit (h : c.isDigit = true) : c.toNat - 48 < 10 ∧ Nat.digitChar (c.toNat - 48) = c := by
  have hbou : 48 ≤ c.toNat ∧ c.toNat ≤ 57 := by
    simp only [Char.isDigit, Bool.and_eq_true, decide_eq_true_eq] at h
    exact ⟨UInt32.le_iff_toNat_le.mp h.1, UInt32.le_iff_toNat_le.mp h.2⟩
  obtain ⟨hlow, hhg⟩ := hbou
  refine ⟨by omega, ?_⟩
  rw [← Char.ofNat_toNat c]
  generalize c.toNat = n at hlow hhg
  interval_cases n <;> decide

theorem toString_digitsValue {year : List Char} (hlen : year.length = 4) (hdig : year.all Char.isDigit = true)
    (hval : 1000 ≤ Json.digitsValue year) : toString (Json.digitsValue year) = String.ofList year := by
  obtain ⟨a, b, c, d, rfl⟩ : ∃ a b c d, year = [a, b, c, d] := by
    match year, hlen with
    | [a, b, c, d], _ => exact ⟨a, b, c, d, rfl⟩
  simp only [all_cons, all_nil, Bool.and_true, Bool.and_eq_true] at hdig
  obtain ⟨ha, hb, hc, hd⟩ := hdig
  obtain ⟨ha, hca⟩ := digitChar_of_isDigit ha
  obtain ⟨hb, hcb⟩ := digitChar_of_isDigit hb
  obtain ⟨hc, hcc⟩ := digitChar_of_isDigit hc
  obtain ⟨hd, hcd⟩ := digitChar_of_isDigit hd
  simp only [Json.digitsValue, foldl_cons, foldl_nil] at hval ⊢
  generalize a.toNat - 48 = x at *
  generalize b.toNat - 48 = y at *
  generalize c.toNat - 48 = z at *
  generalize d.toNat - 48 = w at *
  rw [Nat.toString_eq_ofList_toDigits, Nat.toDigits_of_base_le (by decide) (by omega),
    Nat.toDigits_of_base_le (by decide) (by omega), Nat.toDigits_of_base_le (by decide) (by omega),
    Nat.toDigits_of_lt_base (by omega)]
  rw [show (10 * (10 * (10 * (10 * 0 + x) + y) + z) + w) / 10 / 10 / 10 = x by omega,
    show (10 * (10 * (10 * (10 * 0 + x) + y) + z) + w) / 10 / 10 % 10 = y by omega,
    show (10 * (10 * (10 * (10 * 0 + x) + y) + z) + w) / 10 % 10 = z by omega,
    show (10 * (10 * (10 * (10 * 0 + x) + y) + z) + w) % 10 = w by omega, hca, hcb, hcc, hcd]
  rfl

/-- **The year in an id is the year of its file**, from the year 1000 on. -/
theorem rightYear_iff {id : String} (h : isCve id = true) :
    ((stripStart "CVE-" id).bind fun rest => (split '-' rest).head?) = some (toString (yearOf id)) ↔
        1000 ≤ yearOf id := by
  obtain ⟨year, number, hid, hlen, hdig, hnum⟩ := isCve_parts h
  have hyearOf : yearOf id = Json.digitsValue year := by
    rw [yearOf, hid]
    have hdr : ("CVE-".toList ++ (year ++ '-' :: number)).drop 4 = year ++ '-' :: number := drop_left' (by decide)
    rw [hdr, take_left' hlen]
  have hnot : ∀ cs : List Char, cs.all Char.isDigit = true → '-' ∉ cs := fun cs hcs hmem =>
    absurd (all_eq_true.mp hcs '-' hmem) (by decide)
  have hspl : (year ++ '-' :: number).splitOn '-' = [year, number] := by
    have hjnd : (['-'].intercalate [year, number]).splitOn '-' = [year, number] :=
      splitOn_intercalate '-' (by simp [hnot year hdig, hnot number hnum]) (by simp)
    simpa [intercalate] using hjnd
  have hstr : stripStart "CVE-" id = some (.ofList (year ++ '-' :: number)) := by
    rw [stripStart, hid, if_pos ( isPrefixOf_iff_prefix.mpr (prefix_append _ _)), drop_left' rfl]
  rw [hstr, bind_some, split, String.toList_ofList, hspl, hyearOf]
  constructor
  · -- a smaller number has fewer digits
    intro heq
    by_contra hsml
    have hshr : (toString (Json.digitsValue year)).length ≤ 3 := Nat.repr_length _ 3 (by decide) (not_le.mp hsml)
    have hdig' := congrArg String.toList (some.inj heq)
    rw [String.toList_ofList] at hdig'
    rw [← String.length_toList, ← hdig', hlen] at hshr
    exact absurd hshr (by decide)
  · intro hyr
    rw [toString_digitsValue hlen hdig hyr]
    rfl

/-! ### A record -/

theorem tenthsOf_le {score : F64} (h : 0 ≤ score ∧ score ≤ 10) : tenthsOf (f32 score) ≤ 100 := by
  obtain ⟨hlow, hhg⟩ := f32_mem h.1 (n := 10) (by exact_mod_cast h.2) (by decide)
  obtain ⟨hlow', hhg'⟩ := f32_mem (x := f32 score * 10) (n := 100) (by linarith)
    (by push_cast at *; linarith) (by decide)
  have hrnd : roundAway (f32 (f32 score * 10)) ≤ 100 := by
    rw [roundAway, if_pos hlow', ← Int.lt_add_one_iff, Int.floor_lt]
    push_cast at *
    linarith
  exact (min_le_left _ _).trans (Int.toNat_le.mpr hrnd)

/-- **A record comes back** as it was written. -/
theorem deserialize_slimOf (cve : Json) (id : String) :
    (slimOf cve id).serialize.deserialize = some (slimOf cve id) := by
  rw [SlimRecord.serialize, SlimRecord.deserialize]
  cases hs : cvss (cve.get "metrics") with
  | none => simp [slimOf, hs]
  | some s =>
    obtain ⟨-, -, x, -, metric, score, -, hscr, heq⟩ := cvss_eq_some hs
    have hle : tenthsOf s.score ≤ 100 := heq ▸ tenthsOf_le (of_decide_eq_true (filter_eq_some_iff.mp hscr).2)
    have hba : Tenths.deserialize (Tenths.serialize (tenthsOf s.score)) = some (tenthsOf s.score) := by
      rw [Tenths.serialize, Tenths.deserialize, if_pos (f64_tenths_mem _ (Nat.lt_succ_of_le hle)),
        (round_tenths _ (Nat.lt_succ_of_le hle)).2.2]
    simp [slimOf, hs, SlimCvss.serialize, SlimCvss.deserialize, hba]

/-- **What the reader refuses of the builder's records** is a year that is not written as its number. -/
theorem bad_slimOf {id : String} (hid : validId cve = some id) : (slimOf cve id).bad (yearOf id) = decide
    (yearOf id < 1000) := by
  have hcve : isCve id = true := (filter_eq_some_iff.mp hid).2
  have hcwe : (weaknesses cve).any (fun c => !isCwe c) = false := by
    rw [List.any_eq_false]
    intro c hc
    rw [isCwe_of_mem_weaknesses hc]
    decide
  have hdes : (englishDescription cve).any (fun d => maxDescription < d.utf8ByteSize) = false := by
    cases hd : englishDescription cve with
    | none => rfl
    | some d => exact decide_eq_false (utf8ByteSize_englishDescription_le hd).not_gt
  have hcvs : (slimOf cve id).cvss.any (fun c =>
      maxVector < c.vector.utf8ByteSize || !(["4.0", "3.1", "3.0", "2.0"].contains c.version)) = false := by
    rw [slimOf]
    cases hs : cvss (cve.get "metrics") with
    | none => rfl
    | some s =>
      obtain ⟨hvec, hver, -⟩ := cvss_eq_some hs
      rw [map_some, any_some, Bool.or_eq_false_iff, Bool.not_eq_false', contains_iff_mem]
      exact ⟨decide_eq_false hvec.not_gt, hver⟩
  have hrng : (slimOf cve id).ranges.all rangeOk = true := by
    rw [List.all_eq_true]
    exact fun range hran => (mem_filter.mp (mem_of_mem_take hran)).2
  have hlen : ¬maxRanges < (slimOf cve id).ranges.length := (length_take_le _ _).not_gt
  have hos : (capOs (keptMatches cve).2).all osOk = true :=
    all_eq_true.mpr fun o ho => osOk_of_mem_keptMatches (capOs_subset _ ho)
  have hosLength : ¬maxOs < (capOs (keptMatches cve).2).length := (length_capOs_le _).not_gt
  rw [SlimRecord.bad, hcvs, hrng, decide_eq_false hlen]
  have hrg := rightYear_iff hcve
  simp only [slimOf, hcve, hcwe, hdes, hos, hosLength, hrg, Bool.not_true, Bool.or_false, Bool.false_or, decide_false]
  by_cases hyr : 1000 ≤ yearOf id
  · simp [hyr]
  · simp [hyr, not_le.mp hyr]

/-- A record of NVD's API whose slim record says all that the platform keeps. -/
structure Regular (year : ℕ) (cve : Json) : Prop where
  id : ∃ id, validId cve = some id ∧ yearOf id = year
  /-- The names of its kept matches are those of applications, of at most 512 bytes, without control characters. -/
  names : ∀ m ∈ (keptMatches cve).1, "cpe:2.3:a:".toList <+: m.criteria.toList ∧ m.criteria.utf8ByteSize ≤ 512 ∧
    m.criteria.toList.any isControl = false
  bounds : ∀ m ∈ (keptMatches cve).1, ∀ bound ∈ [m.startIncluding, m.endExcluding, m.endIncluding],
    ∀ b ∈ bound, b.toList.any isControl = false
  ranges : (keptMatches cve).1.length ≤ maxRanges
  fedora : (keptMatches cve).2.countP isFedora ≤ maxOs
  scores : ∀ x ∈ cvssKeys, ∀ metric ∈ chosenMetric (cve.get "metrics") x.1, ∀ score ∈ baseScore metric,
    ∃ k : ℕ, k ≤ 100 ∧ score = f64 (k / 10)

section

variable {year : ℕ}

section

variable (h : Regular year cve)

include h

theorem Regular.score {s : Scored} (hs : cvss (cve.get "metrics") = some s) :
    f32 ((tenthsOf s.score : ℕ) / 10) = s.score := by
  obtain ⟨-, -, x, hx, metric, score, hmet, hscr, heq⟩ := cvss_eq_some hs
  obtain ⟨k, hk, rfl⟩ := h.scores x hx metric hmet score hscr
  obtain ⟨hsm, hfr, -⟩ := round_tenths k (by omega)
  have hten : tenthsOf s.score = k := by rw [tenthsOf, heq, hfr]
  rw [hten, heq, hsm]

theorem Regular.rangeOk {m : RawMatch} (hm : m ∈ (keptMatches cve).1) : rangeOk m.slim = true := by
  obtain ⟨hsta, hsz, hcon⟩ := h.names m hm
  have hbnd : ∀ bound ∈ [m.startIncluding, m.endExcluding, m.endIncluding],
      validBound (bound.map fun b => truncate b maxBound) = true :=
    fun bound hb => validBound_cut (h.bounds m hm bound hb)
  simp only [mem_cons, not_mem_nil, or_false, forall_eq_or_imp, forall_eq] at hbnd
  obtain ⟨hsi, hee, hei⟩ := hbnd
  rw [Enrich.rangeOk, RawMatch.slim]
  simp only [ isPrefixOf_iff_prefix.mpr hsta, hsz, hcon, hsi, hee, hei, decide_true, Bool.not_false, Bool.and_true]
  rfl

end

end

/-! ### A file -/

structure Codec.RoundTrips (codec : Codec) (file : SlimFile F64) : Prop where
  json : codec.ofJson (codec.toJson file) = some file
  gzip : ∀ n, codec.gunzip (codec.gzip (codec.toJson file)) n = some ((codec.toJson file).take n)

variable {r : SlimRecord Tenths} {file : SlimFile Tenths} {codec : Codec}

section

variable {year : ℕ} {cves : List Json}

theorem deserialize_file (h : ∀ r ∈ file.records, ∃ cve id, r = slimOf cve id) :
    file.serialize.deserialize = some file := by
  have hrc : (file.records.map SlimRecord.serialize).mapM SlimRecord.deserialize = some file.records := by
    rw [mapM_map, mapM_eq_some_of_forall (g := id), List.map_id]
    intro r hr
    obtain ⟨cve, id, rfl⟩ := h r hr
    exact deserialize_slimOf cve id
  rw [SlimFile.deserialize, SlimFile.serialize]
  simp only [hrc, map_some]

/-- **Reading what was written**: only a record that breaks the format refuses the file. -/
theorem parseSlim_written (h : ∀ r ∈ file.records, ∃ cve id, r = slimOf cve id) (parseTime : String → Option Time)
    (hcod : codec.RoundTrips file.serialize) (hop : (codec.toJson file.serialize).length ≤ maxOpen) :
    parseSlim parseTime codec (codec.gzip (codec.toJson file.serialize)) maxOpen =
      if file.format ≠ 1 ∨ file.records.any (SlimRecord.bad file.year) then .error .malformed
      else .ok ⟨file.year, file.records.map (SlimRecord.entry parseTime), file.records.flatMap SlimRecord.rows⟩ := by
  rw [parseSlim, hcod.gzip, take_of_length_le (by omega)]
  simp only [if_neg hop.not_gt, hcod.json, bind_some, deserialize_file h]

/-- The file as the builder writes it (`flush`): a map from the ids, in their order. -/
def flushedFile (year : ℕ) (cves : List Json) : SlimFile Tenths :=
  ⟨1, year, ((group compare SlimRecord.id (fun r _ => some r) (cves.filterMap slimRecord)).toList.map Prod.snd)⟩

end

/-! ### Examples -/

def codecOf (file : SlimFile F64) : Codec where
  gzip := id
  gunzip content n := some (content.take n)
  toJson _ := [0]
  ofJson _ := some file

theorem codecOf_roundTrips (file : SlimFile F64) : (codecOf file).RoundTrips file := ⟨rfl, fun _ => rfl⟩

def sampleMatch (name : String) (bound : Option String) : Json :=
  .obj ([("criteria", .str name), ("vulnerable", .bool true)] ++
    bound.toList.map fun b => ("versionEndExcluding", .str b))

def sampleCve (id : String) : Json :=
  .obj
    [("id", .str id), ("metrics", .obj
        [("cvssMetricV31", .arr
          [.obj [("cvssData", .obj [("baseScore", .num "9.8"), ("vectorString", .str "CVSS:3.1/AV:N")])]])]),
      ("configurations", .arr
        [.obj [("nodes", .arr
          [.obj
            [("operator", .str "OR"), ("cpeMatch", .arr
                [sampleMatch "cpe:2.3:a:acme:tool:*:*:*:*:*:*:*:*" (some "1.2"),
                  sampleMatch "cpe:2.3:a:acme:tool:2.0:rc1:*:*:*:*:*:*" none,
                  sampleMatch "cpe:2.3:o:fedoraproject:fedora:42:*:*:*:*:*:*:*" none])]])]])]

theorem sampleCve_regular {year : ℕ} {id : String} (hid : isCve id = true) (hyr : yearOf id = year) :
    Regular year (sampleCve id) where
  id := ⟨id, by rw [validId]; exact filter_eq_some_iff.mpr ⟨rfl, hid⟩, hyr⟩
  names := by
    change ∀ m ∈ (keptMatches (sampleCve "")).1, _
    decide +kernel
  bounds := by
    change ∀ m ∈ (keptMatches (sampleCve "")).1, _
    decide +kernel
  ranges := by
    change (keptMatches (sampleCve "")).1.length ≤ maxRanges
    decide +kernel
  fedora := by
    change (keptMatches (sampleCve "")).2.countP isFedora ≤ maxOs
    decide +kernel
  scores := by
    have hsco : ∀ x ∈ cvssKeys, ∀ metric ∈ chosenMetric ((sampleCve "").get "metrics") x.1,
        ∀ score ∈ baseScore metric, score = f64 ((98 : ℕ) / 10) := by decide +kernel
    exact fun x hx metric hmet score hscr => ⟨98, by decide, hsco x hx metric hmet score hscr⟩

def sampleCves : List Json := [sampleCve "CVE-2024-20001", sampleCve "CVE-2024-10001"]

theorem sampleCves_regular : ∀ cve ∈ sampleCves, Regular 2024 cve := by
  intro cve hcve
  obtain rfl | rfl : cve = sampleCve "CVE-2024-20001" ∨ cve = sampleCve "CVE-2024-10001" := by
    simpa [sampleCves] using hcve
  · exact sampleCve_regular (by decide +kernel) (by decide +kernel)
  · exact sampleCve_regular (by decide +kernel) (by decide +kernel)

/-- **The builder's file of a year is accepted** exactly from the year 1000 on. -/
theorem flushedFile_accepted_iff {year : ℕ} {cves : List Json} (hne : cves ≠ [])
    (hyr : ∀ cve ∈ cves, ∃ r, slimRecord cve = some r ∧ yearOf r.id = year) (parseTime : String → Option Time)
    (codec : Codec) (hcod : codec.RoundTrips (flushedFile year cves).serialize) (maxOpen : ℕ)
    (hop : (codec.toJson (flushedFile year cves).serialize).length ≤ maxOpen) :
    (∃ page, parseSlim parseTime codec (codec.gzip (codec.toJson (flushedFile year cves).serialize)) maxOpen = .ok
      page) ↔ 1000 ≤ year := by
  have hrec : ∀ {r}, r ∈ (flushedFile year cves).records →
      ∃ cve id, validId cve = some id ∧ yearOf id = year ∧ r = slimOf cve id := by
    intro r hr
    obtain ⟨⟨id, r⟩, hgrp, rfl⟩ := mem_map.mp hr
    have hfd := mem_group.mp hgrp
    rw [foldl_some, or_none] at hfd
    obtain ⟨cve, hcve, hsl⟩ := mem_filterMap.mp (mem_of_mem_filter (mem_of_getLast? hfd))
    obtain ⟨r', hr', hyr⟩ := hyr cve hcve
    obtain rfl := mem_unique hsl hr'
    obtain ⟨id, hid, rfl⟩ := map_eq_some_iff.mp hsl
    exact ⟨cve, id, hid, hyr, rfl⟩
  have hbad : ∀ {r}, r ∈ (flushedFile year cves).records → r.bad year = decide (year < 1000) := by
    intro r hr
    obtain ⟨cve, id, hid, rfl, rfl⟩ := hrec hr
    exact bad_slimOf hid
  rw [parseSlim_written (fun r hr => ?_) parseTime hcod hop]
  · constructor
    · rintro ⟨page, hpg⟩
      obtain ⟨r, hr⟩ : ∃ r, r ∈ (flushedFile year cves).records := by
        obtain ⟨cve, hcve⟩ := exists_mem_of_ne_nil cves hne
        obtain ⟨r, hsl, -⟩ := hyr cve hcve
        have hmem : r ∈ (cves.filterMap slimRecord).filter fun x => x.id = r.id :=
          mem_filter.mpr ⟨mem_filterMap.mpr ⟨cve, hcve, hsl⟩, decide_eq_true rfl⟩
        obtain ⟨r', hr'⟩ := isSome_iff_exists.mp (getLast?_isSome.mpr (ne_nil_of_mem hmem))
        refine ⟨r', mem_map.mpr ⟨(r.id, r'), mem_group.mpr ?_, rfl⟩⟩
        rw [foldl_some, or_none]
        exact hr'
      by_contra hsml
      have hany : (flushedFile year cves).records.any (SlimRecord.bad year) = true :=
        any_eq_true.mpr ⟨r, hr, (hbad hr).trans (decide_eq_true (not_le.mp hsml))⟩
      cases (if_pos (.inr hany)).symm.trans hpg
    · intro hlar
      have hany : (flushedFile year cves).records.any (SlimRecord.bad year) = false := by
        rw [List.any_eq_false]
        intro r hr
        rw [hbad hr, decide_eq_false hlar.not_gt]
        decide
      refine ⟨_, if_neg fun h => ?_⟩
      rcases h with h | h
      · exact h rfl
      · exact absurd (hany.symm.trans h) (by decide)
  · obtain ⟨cve, id, -, -, rfl⟩ := hrec hr
    exact ⟨cve, id, rfl⟩

/-- A record of the year 999 stops the file of that year. -/
theorem flushedFile_early_refused :
    (slimRecord (sampleCve "CVE-0999-0001")).map (fun r => yearOf r.id) = some 999 ∧
      (codecOf (flushedFile 999 [sampleCve "CVE-0999-0001"]).serialize).RoundTrips
        (flushedFile 999 [sampleCve "CVE-0999-0001"]).serialize ∧
      parseSlim (fun _ => none) (codecOf (flushedFile 999 [sampleCve "CVE-0999-0001"]).serialize) [0] 1 =
        .error .malformed :=
  ⟨by decide +kernel, codecOf_roundTrips _, by decide +kernel⟩

theorem flushedFile_accepted_sample :
    ∃ page, parseSlim (fun _ => none) (codecOf (flushedFile 2024 sampleCves).serialize) [0] 1 = .ok page := by
  refine (flushedFile_accepted_iff (cons_ne_nil _ _ : sampleCves ≠ []) (fun cve hcve => ?_) (fun _ => none)
    (codecOf (flushedFile 2024 sampleCves).serialize) (codecOf_roundTrips _) 1 (by decide)).mpr (by decide)
  obtain ⟨id, hid, hyr⟩ := (sampleCves_regular cve hcve).id
  exact ⟨slimOf cve id, by rw [slimRecord, hid, map_some], hyr⟩

end OpenVibes.Vulns.Enrich
