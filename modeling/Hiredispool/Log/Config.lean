import Hiredispool.Lib.CBuffer
import Hiredispool.Lib.LastSplit
import Hiredispool.Pool.Types

/-!
# The logger's configuration

Model of `log_set_config` and `_set_logfile` (`log.c`, lines 13–31, 60–94 and
376–386), with the directories that are made on the way.

* `mkdirLoop_eq`: the loop makes a directory for each slash and leaves the name as
  it was.
* `logSetConfig_spec`: no write leaves its buffer, and what is in the buffers then.
* `configured_wellFormed`: whatever was configured, the strings are terminated.
-/

namespace Hiredispool.Log

open Hiredispool.Pool

/-! ## Types -/

/-- `L_TRACE` … `L_FATAL` and `L_CONS` (log.h, lines 17–23). -/
def lTrace : Int32 := 512
def lDebug : Int32 := 1024
def lInfo : Int32 := 2048
def lWarn : Int32 := 4096
def lError : Int32 := 8192
def lFatal : Int32 := 16384
def lCons : Int32 := 32768

/-- `log_dest_t` (log.h, lines 26–32). -/
inductive LogDest
  | files
  | syslog
  | stdout
  | stderr
  | null
deriving DecidableEq

/-- What a `const char*` points to, without its NUL. -/
structure CString where
  bytes : Bytes
  noNul : 0 ∉ bytes

/-- `LOG_CONFIG` (log.h, lines 34–41). `file` is `none` for NULL. -/
structure LogConfig where
  verbose : Int32
  dest : LogDest
  file : Option CString
  progname : CString
  levelHold : Int32
  printMillisec : Int32

/-- `LOG_CONFIG_INTERNAL` (lines 13–21). -/
structure LogConfigInternal where
  verbose : Int32
  dest : LogDest
  dir : CBuffer 1024
  file : CBuffer 1024
  progname : CBuffer 256
  levelHold : Int32
  printMillisec : Int32

/-- `C` before any call (lines 23–31). -/
def LogConfigInternal.initial : LogConfigInternal where
  verbose := 0
  dest := .stderr
  dir := .ofLiteral 1024 []
  file := .ofLiteral 1024 (Bytes.ofString "noname.log")
  progname := .ofLiteral 256 (Bytes.ofString "noname")
  levelHold := lWarn
  printMillisec := 0

/-- What a call has done: the new `C`, what is in `namebuf`, and the arguments of the
    calls of `mkdir`. -/
structure Configured where
  config : LogConfigInternal
  namebuf : CBuffer 1024
  made : List Bytes

/-! ## Model -/

/-- The loop of lines 76–81 from position `dir` on. -/
def mkdirLoop {n : ℕ} : ℕ → CBuffer n → ℕ → List Bytes → Option (CBuffer n × List Bytes)
  | 0, _, _, _ => none
  | fuel + 1, namebuf, dir, made => do
    let rest ← namebuf.string dir
    match CBuffer.strchr 47 rest with
    | none => some (namebuf, made)
    | some k =>
      let dirsep := dir + k
      let cut ← namebuf.set dirsep 0
      let path ← cut.string 0
      let namebuf ← cut.set dirsep 47
      mkdirLoop fuel namebuf (dirsep + 1) (made ++ [path])

/-- Lines 83–89: the directory of the name in `namebuf`. -/
def setDir (c : LogConfigInternal) (namebuf : CBuffer 1024) :
    Option (LogConfigInternal × CBuffer 1024) := do
  let name ← namebuf.string 0
  match LastSplit.lastIdx 47 name with
  | none => some (c, namebuf)
  | some dirsep =>
    let cut ← namebuf.set dirsep 0
    let path ← cut.string 0
    let dir ← c.dir.copy path
    let namebuf ← cut.set dirsep 47
    some ({ c with dir }, namebuf)

/-- `_set_logfile` (lines 63–94), where `namebuf` is what is in that buffer at first. The
    loop runs at most once for each of its characters. -/
def setLogfile (namebuf : CBuffer 1024) (c : LogConfigInternal) :
    Option CString → Option Configured
  | none => some ⟨c, namebuf, []⟩
  | some filename => do
    let namebuf ← namebuf.copy filename.bytes
    let (namebuf, made) ← mkdirLoop 1024 namebuf 0 []
    let (c, namebuf) ← setDir c namebuf
    let file ← c.file.copy filename.bytes
    some ⟨{ c with file }, namebuf, made⟩

/-- `log_set_config` (lines 376–386). -/
def logSetConfig (namebuf : CBuffer 1024) (c : LogConfigInternal) (config : LogConfig) :
    Option Configured := do
  let r ← setLogfile namebuf { c with verbose := config.verbose, dest := config.dest } config.file
  let progname ← r.config.progname.copy config.progname.bytes
  some { r with config := { r.config with
    levelHold := config.levelHold, printMillisec := config.printMillisec, progname } }

/-! ## The directories -/

section Directories

variable {n : ℕ} {b : CBuffer n} {s : Bytes}

/-- One round of the loop, for the slash between `p` and `q`. -/
theorem mkdirLoop_step {fuel dir k : ℕ} {p q : Bytes} (made : List Bytes)
    (h : b.Holds (p ++ 47 :: q)) (hk : CBuffer.strchr 47 ((p ++ 47 :: q).drop dir) = some k)
    (hlen : p.length = dir + k) :
    mkdirLoop (fuel + 1) b dir made = mkdirLoop fuel b (p.length + 1) (made ++ [p]) := by
  obtain ⟨cut, hset, hcut, hrestore⟩ := CBuffer.set_restore h
  have hdir : dir ≤ (p ++ 47 :: q).length := by
    rw [List.length_append]
    omega
  rw [mkdirLoop, h.string hdir]
  simp only [Option.bind_eq_bind, Option.bind_some, hk, ← hlen, hset, hcut.string_zero, hrestore]

/-- The slashes of a name from position `dir` on, if the first of them is the one
    between `p` and `q`. -/
theorem slash_iff {dir : ℕ} {p q path : Bytes} (hp : 47 ∉ p.drop dir) (hdir : dir ≤ p.length) :
    (dir ≤ path.length ∧ ∃ rest, p ++ 47 :: q = path ++ 47 :: rest) ↔
      path = p ∨ p.length + 1 ≤ path.length ∧ ∃ rest, p ++ 47 :: q = path ++ 47 :: rest := by
  constructor
  · rintro ⟨hle, rest, heq⟩
    rcases List.append_eq_append_iff.mp heq with ⟨m, rfl, hm⟩ | ⟨m, rfl, hm⟩
    · cases m with
      | nil => exact Or.inl (List.append_nil p)
      | cons x m =>
        refine Or.inr ⟨?_, rest, heq⟩
        rw [List.length_append, List.length_cons]
        omega
    · cases m with
      | nil => exact Or.inl (List.append_nil path).symm
      | cons x m =>
        -- a slash in front of the first one
        obtain rfl : (47 : UInt8) = x := (List.cons.inj hm).1
        refine absurd ?_ hp
        rw [List.drop_append_of_le_length hle]
        simp
  · rintro (rfl | ⟨hlt, hrest⟩)
    · exact ⟨hdir, q, rfl⟩
    · exact ⟨by omega, hrest⟩

/-- By induction on the fuel: what is left of the name is long enough for it. -/
theorem mkdirLoop_eq {fuel dir : ℕ} (made : List Bytes) (h : b.Holds s) (hdir : dir ≤ s.length)
    (hfuel : s.length < dir + fuel) :
    ∃ made', mkdirLoop fuel b dir made = some (b, made ++ made') ∧
      ∀ path, path ∈ made' ↔ dir ≤ path.length ∧ ∃ rest, s = path ++ 47 :: rest := by
  induction fuel generalizing dir made with
  | zero => omega
  | succ fuel ih =>
    cases hk : CBuffer.strchr 47 (s.drop dir) with
    | none =>
      refine ⟨[], ?_, ?_⟩
      · rw [mkdirLoop, h.string hdir, Option.bind_eq_bind, Option.bind_some]
        dsimp only
        rw [hk, List.append_nil]
      · intro path
        refine iff_of_false List.not_mem_nil ?_
        rintro ⟨hle, rest, rfl⟩
        rw [CBuffer.strchr, List.idxOf?_eq_none_iff, List.drop_append_of_le_length hle] at hk
        exact hk (by simp)
    | some k =>
      obtain ⟨p', q, hsplit, hnot, hlen⟩ := CBuffer.strchr_split hk
      obtain ⟨p, rfl, hp, hdrop⟩ : ∃ p, s = p ++ 47 :: q ∧ p.length = dir + k ∧
          p.drop dir = p' := by
        refine ⟨s.take dir ++ p', ?_, ?_, ?_⟩
        · rw [List.append_assoc, ← hsplit, List.take_append_drop]
        · rw [List.length_append, List.length_take_of_le hdir, hlen]
        · rw [List.drop_append_of_le_length (by rw [List.length_take_of_le hdir])]
          simp
      rw [mkdirLoop_step made h hk hp]
      rw [List.length_append, List.length_cons] at hfuel
      obtain ⟨made', hloop, hmade⟩ := @ih (p.length + 1) (made ++ [p])
        (by rw [List.length_append, List.length_cons]; omega)
        (by rw [List.length_append, List.length_cons]; omega)
      refine ⟨p :: made', ?_, ?_⟩
      · rw [hloop, List.append_assoc, List.singleton_append]
      · intro path
        have hslash := @slash_iff dir p q path (by rw [hdrop]; exact hnot) (by omega)
        rw [List.mem_cons, hmade]
        exact hslash.symm

end Directories

/-! ## The buffers -/

section Buffers

variable {c : LogConfigInternal} {config : LogConfig} {namebuf : CBuffer 1024} {s : Bytes}

/-- The strings of `C` are terminated. -/
structure LogConfigInternal.WellFormed (c : LogConfigInternal) : Prop where
  dir : c.dir.Terminated
  file : c.file.Terminated
  progname : c.progname.Terminated

/-- The directory of `s` has been set. -/
structure DirSet (c : LogConfigInternal) (s : Bytes) (c' : LogConfigInternal) : Prop where
  eq : c' = { c with dir := c'.dir }
  dir : ∀ a b, s = a ++ 47 :: b → 47 ∉ b → c'.dir.Holds a
  noDir : 47 ∉ s → c'.dir = c.dir

theorem setDir_spec (c : LogConfigInternal) (h : namebuf.Holds s) :
    ∃ c', setDir c namebuf = some (c', namebuf) ∧ DirSet c s c' := by
  unfold setDir
  rw [h.string_zero]
  simp only [Option.bind_eq_bind, Option.bind_some]
  by_cases hslash : 47 ∈ s
  · obtain ⟨a, b, rfl, hb⟩ := LastSplit.exists_split hslash
    obtain ⟨cut, hset, hcut, hrestore⟩ := CBuffer.set_restore h
    obtain ⟨dir, hcopy, hdir⟩ := c.dir.copy_holds hcut.noNul (by omega)
    have hlen := hcut.length_lt
    rw [List.take_of_length_le (by omega)] at hdir
    rw [LastSplit.lastIdx_append_cons a hb]
    refine ⟨{ c with dir }, ?_, rfl, ?_, fun hno => absurd hslash hno⟩
    · simp only [hset, hcut.string_zero, hcopy, hrestore, Option.bind_some]
    · intro a' b' heq hb'
      have hupto := congrArg (LastSplit.upto 47) heq
      rw [LastSplit.upto_append_cons a hb, LastSplit.upto_append_cons a' hb'] at hupto
      rw [← List.append_cancel_right hupto]
      exact hdir
  · rw [LastSplit.lastIdx_eq_none hslash]
    refine ⟨c, rfl, rfl, ?_, fun _ => rfl⟩
    rintro a b rfl -
    exact absurd (by simp) hslash

/-- What `_set_logfile` leaves behind, for the name `filename`. -/
structure FileSet (c : LogConfigInternal) (filename : Option CString) (r : Configured) : Prop where
  file : ∀ name, filename = some name → r.config.file.Holds (name.bytes.take 1023)
  namebuf : ∀ name, filename = some name → r.namebuf.Holds (name.bytes.take 1023)
  made : ∀ name, filename = some name →
    ∀ path, path ∈ r.made ↔ ∃ rest, name.bytes.take 1023 = path ++ 47 :: rest
  dir : (∃ a, r.config.dir.Holds a) ∨ r.config.dir = c.dir
  noFile : filename = none → r.config.file = c.file

theorem setLogfile_spec (namebuf : CBuffer 1024) (c : LogConfigInternal)
    (filename : Option CString) :
    ∃ r, setLogfile namebuf c filename = some r ∧
      r.config = { c with dir := r.config.dir, file := r.config.file } ∧ FileSet c filename r := by
  cases filename with
  | none => exact ⟨⟨c, namebuf, []⟩, rfl, rfl, by simp, by simp, by simp, Or.inr rfl, fun _ => rfl⟩
  | some name =>
    obtain ⟨buf, hbuf, hname⟩ := namebuf.copy_holds name.noNul (by omega)
    obtain ⟨file, hfile, hholds⟩ := c.file.copy_holds name.noNul (by omega)
    have hlen := hname.length_lt
    obtain ⟨made, hloop, hmade⟩ := mkdirLoop_eq [] hname (Nat.zero_le _)
      (show (name.bytes.take 1023).length < 0 + 1024 by omega)
    obtain ⟨c', hdir, hset⟩ := setDir_spec c hname
    have hfile' : c'.file.copy name.bytes = some file := by
      rw [hset.eq]
      exact hfile
    rw [List.nil_append] at hloop
    refine ⟨⟨{ c' with file }, buf, made⟩, ?_, ?_, ?_⟩
    · simp only [setLogfile, Option.bind_eq_bind, Option.bind_some, hbuf, hloop, hdir, hfile']
    · rw [hset.eq]
    · constructor
      · rintro _ h
        obtain rfl := Option.some.inj h
        exact hholds
      · rintro _ h
        obtain rfl := Option.some.inj h
        exact hname
      · rintro _ h path
        obtain rfl := Option.some.inj h
        rw [hmade]
        exact and_iff_right (Nat.zero_le _)
      · by_cases hslash : 47 ∈ name.bytes.take 1023
        · obtain ⟨a, b, hsplit, hb⟩ := LastSplit.exists_split hslash
          exact Or.inl ⟨a, hset.dir a b hsplit hb⟩
        · exact Or.inr (hset.noDir hslash)
      · simp

/-- What `log_set_config` leaves behind, for the configuration `config`. -/
structure Sets (c : LogConfigInternal) (config : LogConfig) (r : Configured) : Prop
    extends FileSet c config.file r where
  verbose : r.config.verbose = config.verbose
  dest : r.config.dest = config.dest
  levelHold : r.config.levelHold = config.levelHold
  printMillisec : r.config.printMillisec = config.printMillisec
  progname : r.config.progname.Holds (config.progname.bytes.take 255)

/-- **No write of `log_set_config` leaves its buffer**, and the strings are those of the
    configuration, as far as they fit. -/
theorem logSetConfig_spec (namebuf : CBuffer 1024) (c : LogConfigInternal) (config : LogConfig) :
    ∃ r, logSetConfig namebuf c config = some r ∧ Sets c config r := by
  obtain ⟨r, hr, heq, hset⟩ := setLogfile_spec namebuf
    { c with verbose := config.verbose, dest := config.dest } config.file
  obtain ⟨progname, hcopy, hholds⟩ := r.config.progname.copy_holds config.progname.noNul (by omega)
  refine ⟨{ r with config := { r.config with
    levelHold := config.levelHold, printMillisec := config.printMillisec, progname } }, ?_, ?_⟩
  · simp only [logSetConfig, Option.bind_eq_bind, hr, Option.bind_some, hcopy]
  · refine ⟨⟨hset.file, hset.namebuf, hset.made, hset.dir, hset.noFile⟩, ?_, ?_, rfl, rfl, hholds⟩
    · show r.config.verbose = config.verbose
      rw [heq]
    · show r.config.dest = config.dest
      rw [heq]

theorem Sets.wellFormed {r : Configured} (h : Sets c config r) (hc : c.WellFormed) :
    r.config.WellFormed := by
  constructor
  · rcases h.dir with ⟨a, ha⟩ | heq
    · exact ha.terminated
    · rw [heq]
      exact hc.dir
  · cases hf : config.file with
    | none =>
      rw [h.noFile hf]
      exact hc.file
    | some name => exact (h.file name hf).terminated
  · exact h.progname.terminated

end Buffers

/-! ## All calls -/

/-- `C` after the given calls of `log_set_config`, each with what is in its `namebuf` at
    first. -/
def configured (calls : List (CBuffer 1024 × LogConfig)) : Option LogConfigInternal :=
  calls.foldlM (fun c call => (logSetConfig call.1 c call.2).map Configured.config) .initial

theorem initial_wellFormed : LogConfigInternal.initial.WellFormed := by
  constructor
  · exact CBuffer.ofLiteral_terminated (by decide)
  · exact CBuffer.ofLiteral_terminated (by decide)
  · exact CBuffer.ofLiteral_terminated (by decide)

/-- **Whatever was configured, no buffer was overrun**, and the strings are terminated. -/
theorem configured_wellFormed (calls : List (CBuffer 1024 × LogConfig)) :
    ∃ c, configured calls = some c ∧ c.WellFormed := by
  have hrun : ∀ c : LogConfigInternal, c.WellFormed →
      ∃ c', calls.foldlM (fun c call => (logSetConfig call.1 c call.2).map Configured.config) c =
        some c' ∧ c'.WellFormed := by
    induction calls with
    | nil => exact fun c hc => ⟨c, rfl, hc⟩
    | cons call calls ih =>
      intro c hc
      obtain ⟨r, hr, hsets⟩ := logSetConfig_spec call.1 c call.2
      obtain ⟨c', hc', hwf⟩ := ih r.config (hsets.wellFormed hc)
      refine ⟨c', ?_, hwf⟩
      rw [List.foldlM_cons, hr]
      exact hc'
  exact hrun _ initial_wellFormed

end Hiredispool.Log
