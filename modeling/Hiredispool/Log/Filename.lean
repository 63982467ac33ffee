import Hiredispool.Lib.Numeral
import Hiredispool.Log.Config

/-!
# The dated log file

Model of `convert_logfilename` (`log.c`, lines 96–130): the date is written into
the name of the log file.

* `convert_holds`, `convert_eq_none`, `convert_cannot`: the name, and when it is
  written outside its buffer.
* `datedInPlace_iff`: when the dated file lies where its directory was made.
* `dot_misplaced`: a name for which it does not.
-/

namespace Hiredispool.Log

open Hiredispool.Pool
open LastSplit (upto behind insertBefore)
open Numeral (decimal)

/-! ## Model -/

/-- A `struct tm`, as `localtime_r` fills it in. -/
structure Tm where
  tmYear : ℤ
  tmMon : Fin 12
  tmMday : Fin 32
  tmHour : Fin 24
  tmMin : Fin 60
  tmSec : Fin 61
  year_ge : -2147483648 ≤ tmYear
  year_le : tmYear + 1900 ≤ 2147483647

namespace Tm

/-- `m.tm_year+1900`. -/
def year (m : Tm) : ℤ := m.tmYear + 1900

/-- `m.tm_mon+1`. -/
def mon (m : Tm) : ℕ := m.tmMon + 1

end Tm

/-- The text of `".%04d%02d%02d"` (lines 115 and 120). -/
def dateText (m : Tm) : Bytes :=
  46 :: (decimal 4 m.year ++ decimal 2 m.mon ++ decimal 2 m.tmMday.val)

/-- `convert_logfilename` (lines 96–130), where `now` is what `time` and `localtime_r`
    return, and `converted` is a buffer of `namelen` characters. -/
def convertLogfilename {namelen : ℕ} (now : Option Tm) (origin : Bytes)
    (converted : CBuffer namelen) : Option (CBuffer namelen) :=
  if namelen < origin.length + 10 then converted.copy origin
  else
    match now with
    | none => converted.copy origin
    | some m =>
      match LastSplit.lastIdx 46 origin with
      | none => converted.sprintf 0 (origin ++ dateText m)
      | some len => do
        let converted ← converted.memcpy origin len
        let converted ← converted.sprintf len (dateText m)
        converted.strcat (origin.drop len)

/-- Line 185: the name of the log file is converted. -/
def logfileName (now : Option Tm) (c : LogConfigInternal) (namebuf : CBuffer 1024) :
    Option (CBuffer 1024) := do
  let file ← c.file.string 0
  convertLogfilename now file namebuf

/-! ## The date -/

theorem mem_date {m : Tm} {x : UInt8}
    (h : x ∈ decimal 4 m.year ++ decimal 2 m.mon ++ decimal 2 m.tmMday.val) :
    x = 45 ∨ 48 ≤ x.toNat ∧ x.toNat ≤ 57 := by
  rw [List.mem_append, List.mem_append] at h
  rcases h with (h | h) | h
  · exact Numeral.mem_decimal h
  · exact Numeral.mem_decimal h
  · exact Numeral.mem_decimal h

/-- Neither a NUL, nor a dot, nor a slash stands in a date. -/
theorem not_mem_date (m : Tm) {x : UInt8} (hx : x.toNat < 48) (hne : x ≠ 45) :
    x ∉ decimal 4 m.year ++ decimal 2 m.mon ++ decimal 2 m.tmMday.val := by
  intro h
  rcases mem_date h with h | ⟨h, -⟩
  · exact hne h
  · omega

theorem zero_not_mem_dateText (m : Tm) : 0 ∉ dateText m := by
  unfold dateText
  rw [List.mem_cons, not_or]
  exact ⟨by decide, not_mem_date m (by decide) (by decide)⟩

theorem length_dateText (m : Tm) : (dateText m).length = (decimal 4 m.year).length + 5 := by
  have hmon : (decimal 2 m.mon).length = 2 :=
    Numeral.length_decimal (by omega) (by unfold Tm.mon; omega)
  have hmday : (decimal 2 m.tmMday.val).length = 2 := Numeral.length_decimal (by omega) (by omega)
  unfold dateText
  rw [List.length_cons, List.length_append, List.length_append, hmon, hmday]

/-- A year of four characters. -/
theorem length_dateText_eq {m : Tm} (hlow : -999 ≤ m.year) (hhigh : m.year ≤ 9999) :
    (dateText m).length = 9 := by
  have hle : (decimal 4 m.year).length ≤ 4 :=
    Numeral.length_decimal_le (by omega) (by omega) (by omega) (by omega)
  have hge := Numeral.le_length_decimal 4 m.year
  rw [length_dateText]
  omega

/-! ## The name -/

section Convert

variable {n : ℕ} {origin : Bytes} {m : Tm}

theorem convert_cannot {now : Option Tm} (h : n < origin.length + 10 ∨ now = none) (hn : 0 < n)
    (h0 : 0 ∉ origin) (b : CBuffer n) :
    ∃ b', convertLogfilename now origin b = some b' ∧ b'.Holds (origin.take (n - 1)) := by
  obtain ⟨b', hcopy, hholds⟩ := b.copy_holds h0 hn
  refine ⟨b', ?_, hholds⟩
  unfold convertLogfilename
  rcases h with hlong | rfl
  · rw [if_pos hlong, hcopy]
  · split
    · exact hcopy
    · exact hcopy

/-- The name has no dot: its date goes behind it. -/
theorem convert_noDot (hlong : origin.length + 10 ≤ n) (hdot : 46 ∉ origin) (b : CBuffer n) :
    convertLogfilename (some m) origin b = b.sprintf 0 (origin ++ dateText m) := by
  unfold convertLogfilename
  rw [if_neg (by omega), LastSplit.lastIdx_eq_none hdot]

/-- The name is cut at its last dot, and the date is printed there. -/
theorem convert_dot {p q : Bytes} (hlong : (p ++ 46 :: q).length + 10 ≤ n) (hq : 46 ∉ q)
    (b : CBuffer n) :
    ∃ b₁ : CBuffer n, b₁.bytes.take p.length = p ∧
      convertLogfilename (some m) (p ++ 46 :: q) b =
        (b₁.sprintf p.length (dateText m)).bind fun b₂ => b₂.strcat (46 :: q) := by
  have hlen : p.length ≤ n := by
    rw [List.length_append] at hlong
    omega
  obtain ⟨b₁, hcpy, hpre⟩ := b.memcpy_take (s := p ++ 46 :: q) (k := p.length) (by simp) hlen
  rw [List.take_left] at hpre
  refine ⟨b₁, hpre, ?_⟩
  unfold convertLogfilename
  rw [if_neg (by omega), LastSplit.lastIdx_append_cons p hq]
  simp only [Option.bind_eq_bind, hcpy, Option.bind_some, List.drop_left]

theorem convert_holds (h0 : 0 ∉ origin) (hlong : origin.length + 10 ≤ n)
    (hfit : origin.length + (dateText m).length < n) (b : CBuffer n) :
    ∃ b', convertLogfilename (some m) origin b = some b' ∧
      b'.Holds (insertBefore 46 (dateText m) origin) := by
  have hdate := zero_not_mem_dateText m
  by_cases hdot : 46 ∈ origin
  · obtain ⟨p, q, rfl, hq⟩ := LastSplit.exists_split hdot
    obtain ⟨b₁, hpre, hconvert⟩ := convert_dot (m := m) hlong hq b
    rw [List.mem_append, not_or] at h0
    rw [List.length_append] at hfit
    obtain ⟨b₂, hprint, hholds⟩ := CBuffer.sprintf_holds hpre h0.1 hdate (by omega)
    obtain ⟨b₃, hcat, hholds₃⟩ := CBuffer.strcat_holds hholds h0.2
      (by rw [List.length_append]; omega)
    refine ⟨b₃, ?_, ?_⟩
    · rw [hconvert, hprint, Option.bind_some, hcat]
    · rw [LastSplit.insertBefore_append_cons _ p hq]
      exact hholds₃
  · have hnul : 0 ∉ origin ++ dateText m := by
      rw [List.mem_append, not_or]
      exact ⟨h0, hdate⟩
    rw [convert_noDot hlong hdot, LastSplit.insertBefore_of_not_mem _ hdot]
    exact b.sprintf_zero hnul (by rw [List.length_append]; omega)

/-- The name with its date and NUL does not fit. -/
theorem convert_eq_none (h0 : 0 ∉ origin) (hlong : origin.length + 10 ≤ n)
    (hfull : n ≤ origin.length + (dateText m).length) (b : CBuffer n) :
    convertLogfilename (some m) origin b = none := by
  by_cases hdot : 46 ∈ origin
  · obtain ⟨p, q, rfl, hq⟩ := LastSplit.exists_split hdot
    obtain ⟨b₁, hpre, hconvert⟩ := convert_dot (m := m) hlong hq b
    rw [List.mem_append, not_or] at h0
    rw [List.length_append] at hfull
    rw [hconvert]
    by_cases hprint : p.length + (dateText m).length < n
    · -- the date fits, what stands behind it does not
      obtain ⟨b₂, hb₂, hholds⟩ := CBuffer.sprintf_holds hpre h0.1 (zero_not_mem_dateText m) hprint
      rw [hb₂, Option.bind_some]
      apply CBuffer.strcat_eq_none hholds
      rw [List.length_append]
      omega
    · rw [CBuffer.sprintf_eq_none (by omega)]
      rfl
  · rw [convert_noDot hlong hdot]
    apply CBuffer.sprintf_eq_none
    rw [List.length_append]
    omega

end Convert

/-! ## The file -/

/-- The name that `vlog` opens at `now` after `log_set_config` was called with the file
    `name`, and the directories that were made; `stack` is what is in the buffers at
    first. -/
def datedFile (stack : CBuffer 1024) (c : LogConfigInternal) (config : LogConfig) (name : CString)
    (now : Option Tm) : Option (Bytes × List Bytes) := do
  let r ← logSetConfig stack c { config with file := some name }
  let namebuf ← logfileName now r.config stack
  let dated ← namebuf.string 0
  some (dated, r.made)

section Place

variable {stack : CBuffer 1024} {c : LogConfigInternal} {config : LogConfig} {name : CString}
  {m : Tm} {dated : Bytes} {made : List Bytes}

/-- The name with its date and NUL fits into `namebuf`. -/
def Fits (name : Bytes) (m : Tm) : Prop := name.length + (dateText m).length < 1024

/-- With a year of four characters every name of fewer than 1015 fits. -/
theorem fits_of_year {name : Bytes} (hlow : -999 ≤ m.year) (hhigh : m.year ≤ 9999)
    (hlen : name.length < 1015) : Fits name m := by
  unfold Fits
  rw [length_dateText_eq hlow hhigh]
  omega

theorem configured_file (stack : CBuffer 1024) (c : LogConfigInternal) (config : LogConfig)
    (hlen : name.bytes.length < 1024) :
    ∃ r, logSetConfig stack c { config with file := some name } = some r ∧
      r.config.file.Holds name.bytes ∧
      ∀ path, path ∈ r.made ↔ ∃ rest, name.bytes = path ++ 47 :: rest := by
  obtain ⟨r, hr, hsets⟩ := logSetConfig_spec stack c { config with file := some name }
  have hfile := hsets.file name rfl
  have hmade := hsets.made name rfl
  rw [List.take_of_length_le (by omega)] at hfile hmade
  exact ⟨r, hr, hfile, hmade⟩

theorem datedFile_eq (stack : CBuffer 1024) (c : LogConfigInternal) (config : LogConfig)
    (hlen : name.bytes.length < 1015) (hfits : Fits name.bytes m) :
    ∃ made, datedFile stack c config name (some m) =
        some (insertBefore 46 (dateText m) name.bytes, made) ∧
      ∀ path, path ∈ made ↔ ∃ rest, name.bytes = path ++ 47 :: rest := by
  obtain ⟨r, hr, hfile, hmade⟩ := @configured_file name stack c config (by omega)
  obtain ⟨namebuf, hconvert, hname⟩ := convert_holds name.noNul (by omega) hfits stack
  refine ⟨r.made, ?_, hmade⟩
  unfold datedFile logfileName
  simp only [Option.bind_eq_bind, hr, Option.bind_some, hfile.string_zero, hconvert,
    hname.string_zero]

theorem datedFile_eq_none (hlen : name.bytes.length < 1015) (hfull : ¬Fits name.bytes m) :
    datedFile stack c config name (some m) = none := by
  obtain ⟨r, hr, hfile, -⟩ := @configured_file name stack c config (by omega)
  unfold Fits at hfull
  have hconvert := convert_eq_none name.noNul (by omega) (by omega) stack (m := m)
  unfold datedFile logfileName
  simp only [Option.bind_eq_bind, hr, Option.bind_some, hfile.string_zero, hconvert,
    Option.bind_none]

/-- The dated name `dated` of `name`: it lies where `name` does, in a directory that was
    made, and the date stands in its last component. -/
structure InPlace (name : Bytes) (m : Tm) (dated : Bytes) (made : List Bytes) : Prop where
  dir : upto 47 dated = upto 47 name
  made : ∀ path file, dated = path ++ 47 :: file → 47 ∉ file → path ∈ made
  file : behind 47 dated = insertBefore 46 (dateText m) (behind 47 name)

/-- The dated file of `name` lies in place, and no other name has the same one. -/
def DatedInPlace (stack : CBuffer 1024) (c : LogConfigInternal) (config : LogConfig)
    (name : CString) (m : Tm) : Prop :=
  ∃ dated made, datedFile stack c config name (some m) = some (dated, made) ∧
    InPlace name.bytes m dated made ∧
    ∀ name' made', name'.bytes.length < 1015 →
      datedFile stack c config name' (some m) = some (dated, made') → name'.bytes = name.bytes

theorem dateText_insertBefore_iff (name : Bytes) (m : Tm) :
    (upto 47 (insertBefore 46 (dateText m) name) = upto 47 name ∧
        behind 47 (insertBefore 46 (dateText m) name) =
          insertBefore 46 (dateText m) (behind 47 name)) ↔
      (46 ∈ name → 46 ∈ behind 47 name) :=
  LastSplit.insertBefore_component_iff (by decide) (not_mem_date m (by decide) (by decide))
    (not_mem_date m (by decide) (by decide)) name

theorem dateText_injective (m : Tm) : Function.Injective (insertBefore 46 (dateText m)) :=
  LastSplit.insertBefore_injective (not_mem_date m (by decide) (by decide))

/-- **The dated log file lies in the prepared directory** exactly if the name with its
    date fits and no dot of the name stands in a directory alone. -/
theorem datedInPlace_iff (stack : CBuffer 1024) (c : LogConfigInternal) (config : LogConfig)
    (name : CString) (m : Tm) (hlen : name.bytes.length < 1015) :
    DatedInPlace stack c config name m ↔
      Fits name.bytes m ∧ (46 ∈ name.bytes → 46 ∈ behind 47 name.bytes) := by
  by_cases hfits : Fits name.bytes m
  · obtain ⟨made, heq, hmade⟩ := datedFile_eq stack c config hlen hfits
    rw [← dateText_insertBefore_iff]
    constructor
    · rintro ⟨dated, made', heq', hplace, -⟩
      obtain ⟨rfl, rfl⟩ := Prod.mk.inj (Option.some.inj (heq.symm.trans heq'))
      exact ⟨hfits, hplace.dir, hplace.file⟩
    · rintro ⟨-, hdir, hfile⟩
      refine ⟨_, made, heq, ⟨hdir, ?_, hfile⟩, ?_⟩
      · intro path file hsplit hslash
        rw [hsplit, LastSplit.upto_append_cons path hslash] at hdir
        rw [hmade]
        exact ⟨behind 47 name.bytes,
          calc name.bytes = upto 47 name.bytes ++ behind 47 name.bytes :=
                (LastSplit.upto_append_behind 47 name.bytes).symm
            _ = (path ++ [47]) ++ behind 47 name.bytes := by rw [hdir]
            _ = path ++ 47 :: behind 47 name.bytes := by
              rw [List.append_assoc, List.singleton_append]⟩
      · intro name' made' hlen' heq'
        by_cases hfits' : Fits name'.bytes m
        · obtain ⟨made'', hdated, -⟩ := datedFile_eq stack c config hlen' hfits'
          rw [heq'] at hdated
          exact dateText_injective m (Prod.mk.inj (Option.some.inj hdated)).1.symm
        · rw [datedFile_eq_none hlen' hfits'] at heq'
          cases heq'
  · refine iff_of_false ?_ (fun h => hfits h.1)
    rintro ⟨dated, made, heq, -⟩
    rw [datedFile_eq_none hlen hfits] at heq
    cases heq

end Place

/-- The first of February 2017, at noon. -/
def noon : Tm := ⟨117, 1, 1, 12, 0, 0, by decide, by decide⟩

/-- An empty buffer. -/
def blank (n : ℕ) : CBuffer n := .ofLiteral n []

/-- A log file. -/
def fileConfig : LogConfig :=
  ⟨9, .files, none, ⟨Bytes.ofString "test_log", by decide⟩, 0, 1⟩

/-- `log/test_log.log`. -/
def logTest : CString := ⟨Bytes.ofString "log/test_log.log", by decide⟩

/-- `./app`. -/
def dotApp : CString := ⟨Bytes.ofString "./app", by decide⟩

theorem datedInPlace_iff_logTest :
    DatedInPlace (blank 1024) .initial fileConfig logTest noon ↔
      Fits logTest.bytes noon ∧ (46 ∈ logTest.bytes → 46 ∈ behind 47 logTest.bytes) :=
  datedInPlace_iff (blank 1024) .initial fileConfig logTest noon (by decide)

/-- A program in the current directory logs into a directory that was not made. -/
theorem dot_misplaced :
    (∃ made, datedFile (blank 1024) .initial fileConfig dotApp (some noon) =
        some (Bytes.ofString ".20170201./app", made) ∧ Bytes.ofString ".20170201." ∉ made) ∧
      ¬DatedInPlace (blank 1024) .initial fileConfig dotApp noon := by
  have hfits : Fits dotApp.bytes noon := fits_of_year (by decide) (by decide) (by decide)
  have hname : insertBefore 46 (dateText noon) dotApp.bytes = Bytes.ofString ".20170201./app" := by
    decide +kernel
  obtain ⟨made, heq, hmade⟩ :=
    @datedFile_eq dotApp noon (blank 1024) .initial fileConfig (by decide) hfits
  constructor
  · refine ⟨made, by rw [heq, hname], ?_⟩
    rw [hmade]
    rintro ⟨rest, hrest⟩
    have hlen := congrArg List.length hrest
    rw [List.length_append, List.length_cons] at hlen
    have h5 : dotApp.bytes.length = 5 := by decide
    have h10 : (Bytes.ofString ".20170201.").length = 10 := by decide
    omega
  · rintro ⟨dated, made', heq', hplace, -⟩
    obtain ⟨rfl, -⟩ := Prod.mk.inj (Option.some.inj (heq.symm.trans heq'))
    have hdir := hplace.dir
    rw [hname] at hdir
    exact absurd hdir (by decide +kernel)

end Hiredispool.Log
