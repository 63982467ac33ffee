import Hiredispool.Log.Vlog

/-!
# The logger's buffers

No write of `log_set_config` leaves its buffer, and none of `vlog` does but for
two: the hexadecimal label of a level above 0xFFFF, which has room for four digits
in `deflvl` (`log.c`, lines 210, 220, 232 and 240), and a year of more than four
characters at the end of a long file name.

* `openLog_dated`, `logfileName_spec`: the file that is opened.
* `vlog_sound_iff`: when a call of `vlog` stays within its buffers.
* `logger_sound_iff`: the same after any calls of `log_set_config`;
  `logger_sound_named`: with the levels of `log.h`.
* `label_overrun`: a level whose label does not fit.
-/

namespace Hiredispool.Log

open Hiredispool.Pool

section Call

variable {env : Env} {stack : Stack} {c : LogConfigInternal} {lvl : Int32} {message : Bytes}

/-! ## The log file -/

/-- `vlog` opens a log file. -/
def UsesFile (c : LogConfigInternal) : Prop := c.dest = .files ∧ c.file.bytes.head? ≠ some 0

/-- The name of the log file has room for the date, if there is one to put into it. -/
def NameFits (env : Env) (c : LogConfigInternal) : Prop :=
  ∀ file m, c.file.Holds file → env.now = some m → file.length < 1015 → Fits file m

theorem openLog_noFile (hnull : c.dest ≠ .null) (h : ¬UsesFile c) :
    ∃ msgfd, openLog env stack c = some (.opened msgfd none) := by
  unfold openLog
  unfold UsesFile at h
  cases hdest : c.dest with
  | files =>
    have hempty : c.file.bytes.head? = some 0 := by
      by_contra hne
      exact h ⟨hdest, hne⟩
    simp only [hempty, if_true]
    exact ⟨_, rfl⟩
  | null => exact absurd hdest hnull
  | _ => exact ⟨_, rfl⟩

theorem openLog_file (h : UsesFile c) :
    openLog env stack c = (logfileName env.now c stack.namebuf).bind fun namebuf =>
      (namebuf.string 0).bind fun name =>
        if env.opened then some (.opened (some (.file name)) (some namebuf))
        else some (.failed namebuf name) := by
  unfold openLog
  rw [h.1]
  dsimp only
  rw [if_neg h.2]
  rfl

/-- The file that `vlog` opens is the dated one of the configured name. -/
theorem openLog_dated {config : LogConfig} {name : CString} {r : Configured} {dated : Bytes}
    {made : List Bytes}
    (hr : logSetConfig stack.namebuf c { config with file := some name } = some r)
    (hfiles : config.dest = .files) (hne : name.bytes ≠ [])
    (hdated : datedFile stack.namebuf c config name env.now = some (dated, made))
    (hopened : env.opened = true) :
    ∃ namebuf, openLog env stack r.config = some (.opened (some (.file dated)) (some namebuf)) := by
  obtain ⟨r', hr', hsets⟩ := logSetConfig_spec stack.namebuf c { config with file := some name }
  obtain rfl := Option.some.inj (hr.symm.trans hr')
  have huses : UsesFile r.config := by
    refine ⟨hsets.dest.trans hfiles, ?_⟩
    intro hhead
    have hfile := hsets.file name rfl
    obtain ⟨x, s, hname⟩ := List.exists_cons_of_ne_nil hne
    obtain ⟨rest, hbytes⟩ := hfile.bytes
    rw [hname] at hfile hbytes
    rw [hbytes] at hhead
    obtain rfl : x = 0 := Option.some.inj hhead
    exact hfile.noNul List.mem_cons_self
  unfold datedFile at hdated
  rw [hr] at hdated
  simp only [Option.bind_eq_bind, Option.bind_some] at hdated
  obtain ⟨namebuf, hconvert, hname⟩ := Option.bind_eq_some_iff.mp hdated
  obtain ⟨name', hstring, hpair⟩ := Option.bind_eq_some_iff.mp hname
  obtain ⟨rfl, -⟩ := Prod.mk.inj (Option.some.inj hpair)
  refine ⟨namebuf, ?_⟩
  rw [openLog_file huses, hconvert, Option.bind_some, hstring, Option.bind_some, if_pos hopened]

theorem logfileName_spec (hfile : c.file.Terminated) :
    (NameFits env c → ∃ namebuf name, logfileName env.now c stack.namebuf = some namebuf ∧
        namebuf.Holds name) ∧
      (¬NameFits env c → logfileName env.now c stack.namebuf = none) := by
  obtain ⟨file, hholds⟩ := hfile.exists_holds
  have hlen := hholds.length_lt
  unfold logfileName
  rw [hholds.string_zero]
  simp only [Option.bind_eq_bind, Option.bind_some]
  constructor
  · intro hfits
    by_cases hcannot : 1024 < file.length + 10 ∨ env.now = none
    · obtain ⟨b, hb, hname⟩ := convert_cannot hcannot (by omega) hholds.noNul stack.namebuf
      exact ⟨b, _, hb, hname⟩
    · rw [not_or] at hcannot
      obtain ⟨m, hnow⟩ := Option.ne_none_iff_exists'.mp hcannot.2
      obtain ⟨b, hb, hname⟩ := convert_holds hholds.noNul (by omega)
        (hfits file m hholds hnow (by omega)) stack.namebuf
      rw [hnow]
      exact ⟨b, _, hb, hname⟩
  · intro hfits
    unfold NameFits at hfits
    push Not at hfits
    obtain ⟨file', m, hholds', hnow, hlong, hfull⟩ := hfits
    obtain rfl : file = file' := Option.some.inj (hholds.string_zero.symm.trans hholds'.string_zero)
    unfold Fits at hfull
    rw [hnow]
    exact convert_eq_none hholds.noNul (by omega) (by omega) stack.namebuf

/-! ## One call -/

/-- The buffers that were filled are terminated. -/
structure Logged.Terminated (r : Logged) : Prop where
  namebuf : ∀ b ∈ r.namebuf, b.Terminated
  deflvl : ∀ b ∈ r.deflvl, b.Terminated
  buffer : ∀ b ∈ r.buffer, b.Terminated

/-- No write of the call leaves its buffer, and the buffers are terminated. -/
def VlogSound (env : Env) (stack : Stack) (c : LogConfigInternal) (lvl : Int32) (message : Bytes) :
    Prop :=
  ∃ r, vlog env stack c lvl message = some r ∧ r.Terminated

/-- The message is filtered out; or the name of the log file has room for the date, and
    the level is small, unless it is not printed. -/
def BoundsOk (env : Env) (c : LogConfigInternal) (lvl : Int32) : Prop :=
  filtered c lvl = true ∨
    (UsesFile c → NameFits env c) ∧
      (c.dest = .syslog ∨ (UsesFile c ∧ env.opened = false) ∨ Small lvl)

theorem vlog_opened_iff {msgfd : Option Sink} {namebuf : Option (CBuffer 1024)}
    (hfilter : filtered c lvl = false)
    (hopen : openLog env stack c = some (.opened msgfd namebuf))
    (hnamebuf : ∀ b ∈ namebuf, b.Terminated) :
    VlogSound env stack c lvl message ↔ c.dest = .syslog ∨ Small lvl := by
  constructor
  · rintro ⟨r, hr, -⟩
    by_contra hlarge
    rw [not_or] at hlarge
    have hprefix := @putPrefix_eq_none env stack c lvl hlarge.1 hlarge.2
    unfold vlog at hr
    rw [hfilter, hopen] at hr
    simp only [Bool.false_eq_true, if_false, Option.bind_eq_bind, Option.bind_some, hprefix,
      Option.bind_none] at hr
    cases hr
  · intro hsmall
    obtain ⟨deflvl, buffer, heq, hbuffer, hdeflvl⟩ :=
      vlog_eq hfilter hopen (fun hdest => hsmall.resolve_left hdest) message
    refine ⟨_, heq, hnamebuf, hdeflvl, ?_⟩
    intro b hb
    obtain rfl := Option.some.inj hb
    exact hbuffer

theorem vlog_failed {namebuf : CBuffer 1024} {name : Bytes} (hc : c.WellFormed)
    (hfilter : filtered c lvl = false)
    (hopen : openLog env stack c = some (.failed namebuf name)) (hname : namebuf.Holds name) :
    VlogSound env stack c lvl message := by
  obtain ⟨progname, hprogname⟩ := hc.progname.exists_holds
  refine ⟨⟨-1, some namebuf, none, none, complain env progname name message⟩, ?_, ?_, ?_, ?_⟩
  · unfold vlog
    rw [hfilter, hopen]
    simp only [Bool.false_eq_true, if_false, Option.bind_eq_bind, Option.bind_some,
      hprogname.string_zero]
  · intro b hb
    obtain rfl := Option.some.inj hb
    exact hname.terminated
  · simp
  · simp

/-- **A call of `vlog` stays within its buffers** exactly under these conditions. -/
theorem vlog_sound_iff (hc : c.WellFormed) :
    VlogSound env stack c lvl message ↔ BoundsOk env c lvl := by
  unfold BoundsOk
  cases hfilter : filtered c lvl with
  | true =>
    refine iff_of_true ⟨⟨0, none, none, none, []⟩, ?_, by simp, by simp, by simp⟩ (Or.inl rfl)
    unfold vlog
    rw [if_pos hfilter]
  | false =>
    rw [or_iff_right (by simp)]
    have hnull : c.dest ≠ .null := by
      intro hdest
      have hno := of_decide_eq_false hfilter
      exact hno (Or.inr (Or.inr hdest))
    by_cases huses : UsesFile c
    · obtain ⟨hfits, hfull⟩ := @logfileName_spec env stack c hc.file
      have hopen := @openLog_file env stack c huses
      have hdest : c.dest ≠ .syslog := by
        rw [huses.1]
        simp
      by_cases hname : NameFits env c
      · obtain ⟨namebuf, name, hconvert, hholds⟩ := hfits hname
        rw [hconvert, Option.bind_some, hholds.string_zero, Option.bind_some] at hopen
        cases hopened : env.opened with
        | true =>
          rw [hopened, if_pos rfl] at hopen
          rw [vlog_opened_iff hfilter hopen (by simpa using hholds.terminated)]
          simp [hdest, hname]
        | false =>
          rw [hopened, if_neg (by simp)] at hopen
          exact iff_of_true (vlog_failed hc hfilter hopen hholds)
            ⟨fun _ => hname, Or.inr (Or.inl ⟨huses, rfl⟩)⟩
      · refine iff_of_false ?_ fun h => hname (h.1 huses)
        rintro ⟨r, hr, -⟩
        unfold vlog at hr
        rw [hfilter, hopen, hfull hname] at hr
        cases hr
    · obtain ⟨msgfd, hopen⟩ := @openLog_noFile env stack c hnull huses
      rw [vlog_opened_iff hfilter hopen (by simp)]
      simp [huses]

end Call

/-! ## All calls -/

/-- No write of the logger leaves its buffer, and the buffers are terminated: in the
    given calls of `log_set_config`, and in a call of `vlog` after them. -/
structure LoggerSound (calls : List (CBuffer 1024 × LogConfig)) (env : Env) (stack : Stack)
    (lvl : Int32) (message : Bytes) : Prop where
  set : ∀ before call after, calls = before ++ call :: after →
    ∃ c r, configured before = some c ∧ logSetConfig call.1 c call.2 = some r ∧
      r.config.WellFormed ∧ (call.2.file ≠ none → r.namebuf.Terminated)
  log : ∃ c, configured calls = some c ∧ VlogSound env stack c lvl message

theorem LoggerSound.of_boundsOk {calls : List (CBuffer 1024 × LogConfig)} {env : Env}
    {stack : Stack} {lvl : Int32} {message : Bytes}
    (h : ∀ c, configured calls = some c → BoundsOk env c lvl) :
    LoggerSound calls env stack lvl message := by
  constructor
  · rintro before call after -
    obtain ⟨c, hc, hwf⟩ := configured_wellFormed before
    obtain ⟨r, hr, hsets⟩ := logSetConfig_spec call.1 c call.2
    refine ⟨c, r, hc, hr, hsets.wellFormed hwf, ?_⟩
    intro hfile
    obtain ⟨name, hname⟩ := Option.ne_none_iff_exists'.mp hfile
    exact (hsets.namebuf name hname).terminated
  · obtain ⟨c, hc, hwf⟩ := configured_wellFormed calls
    exact ⟨c, hc, (vlog_sound_iff hwf).mpr (h c hc)⟩

/-- **The buffers of the logger never overflow** exactly if the message is filtered out
    or its level is small or not printed, and the dated file name fits. -/
theorem logger_sound_iff (calls : List (CBuffer 1024 × LogConfig)) (env : Env) (stack : Stack)
    (lvl : Int32) (message : Bytes) :
    LoggerSound calls env stack lvl message ↔
      ∀ c, configured calls = some c → BoundsOk env c lvl := by
  constructor
  · intro h c hc
    obtain ⟨c', hc', hlog⟩ := h.log
    obtain rfl := Option.some.inj (hc.symm.trans hc')
    obtain ⟨c', hc', hwf⟩ := configured_wellFormed calls
    obtain rfl := Option.some.inj (hc.symm.trans hc')
    exact (vlog_sound_iff hwf).mp hlog
  · exact LoggerSound.of_boundsOk

/-- The levels of `log.h`, also for the console. -/
theorem named_small : ∀ e ∈ levelTable, Small e.2 ∧ Small (e.2 ||| lCons) := by
  unfold Small
  decide

/-- **With a level of `log.h`** and a year of four characters no buffer overflows. -/
theorem logger_sound_named (calls : List (CBuffer 1024 × LogConfig)) (env : Env) (stack : Stack)
    (message : Bytes) (hyear : ∀ m, env.now = some m → -999 ≤ m.year ∧ m.year ≤ 9999)
    {e : Bytes × Int32} (he : e ∈ levelTable) :
    LoggerSound calls env stack e.2 message ∧
      LoggerSound calls env stack (e.2 ||| lCons) message := by
  have hfits : ∀ c, NameFits env c := by
    intro c file m _ hnow hlen
    exact fits_of_year (hyear m hnow).1 (hyear m hnow).2 hlen
  have hsmall := named_small e he
  constructor
  · apply LoggerSound.of_boundsOk
    intro c _
    exact Or.inr ⟨fun _ => hfits c, Or.inr (Or.inr hsmall.1)⟩
  · apply LoggerSound.of_boundsOk
    intro c _
    exact Or.inr ⟨fun _ => hfits c, Or.inr (Or.inr hsmall.2)⟩

/-- `log_(65536, …)` writes nine characters into `deflvl`, also if nothing was
    configured. -/
theorem label_overrun :
    (hexLabel 65536).length = 8 ∧ vlog noonEnv blankStack .initial 65536 [] = none ∧
      ¬LoggerSound [] noonEnv blankStack 65536 [] := by
  have hlarge : ¬Small 65536 := by unfold Small; decide
  have hfilter : filtered .initial 65536 = false := by decide
  have hopen : openLog noonEnv blankStack .initial = some (.opened (some .stderr) none) := rfl
  have hprefix := @putPrefix_eq_none noonEnv blankStack .initial 65536 (by decide) hlarge
  have hnone : vlog noonEnv blankStack .initial 65536 [] = none := by
    unfold vlog
    rw [hfilter, hopen]
    simp only [Bool.false_eq_true, if_false, Option.bind_eq_bind, Option.bind_some, hprefix,
      Option.bind_none]
  refine ⟨by decide +kernel, hnone, ?_⟩
  intro h
  obtain ⟨c, hc, r, hr, -⟩ := h.log
  obtain rfl : LogConfigInternal.initial = c := Option.some.inj hc
  rw [hnone] at hr
  cases hr

end Hiredispool.Log
