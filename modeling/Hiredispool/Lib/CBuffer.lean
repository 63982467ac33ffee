import Mathlib.Data.List.TakeWhile

/-!
# Buffers of characters

A `char[n]` and the functions of C that write into it. `none` is a write outside
the buffer, or the search for a NUL that is not there. `b.Holds s` says that the
buffer is terminated and that `s` is its string.

* `write_bytes`: what a write leaves of the buffer.
* `copy_holds`, `sprintf_holds`, `append_holds`, `strcat_holds`, `vsnprintf_holds`,
  `mapString_holds`: the rules for the functions.
* `sprintf_eq_none`, `strcat_eq_none`: what does not fit is written outside.
-/

/-- A `char[n]`. -/
@[ext]
structure CBuffer (n : ℕ) where
  bytes : List UInt8
  size : bytes.length = n
deriving DecidableEq

namespace CBuffer

variable {n : ℕ}

/-- A `char[n]` with `s` in it and NULs behind it, as a literal initialises it. -/
def ofLiteral (n : ℕ) (s : List UInt8) : CBuffer n :=
  ⟨s.take n ++ List.replicate (n - s.length) 0, by
    rw [List.length_append, List.length_take, List.length_replicate]; omega⟩

/-! ## Reading and writing -/

/-- The bytes `l` are written from position `i` on. -/
def write (b : CBuffer n) (i : ℕ) (l : List UInt8) : Option (CBuffer n) :=
  if h : i + l.length ≤ n then
    some ⟨b.bytes.take i ++ l ++ b.bytes.drop (i + l.length), by
      have hsize := b.size
      simp only [List.length_append, List.length_take, List.length_drop]
      omega⟩
  else none

/-- The string that begins at position `i`. -/
def string (b : CBuffer n) (i : ℕ) : Option (List UInt8) :=
  if 0 ∈ b.bytes.drop i then some ((b.bytes.drop i).takeWhile (· ≠ 0)) else none

/-- `b[i] = c`. -/
def set (b : CBuffer n) (i : ℕ) (c : UInt8) : Option (CBuffer n) := b.write i [c]

/-- `strncpy(b, s, k)`. -/
def strncpy (b : CBuffer n) (s : List UInt8) (k : ℕ) : Option (CBuffer n) :=
  b.write 0 (s.take k ++ List.replicate (k - s.length) 0)

/-- `memcpy(b, s, k)`. -/
def memcpy (b : CBuffer n) (s : List UInt8) (k : ℕ) : Option (CBuffer n) := b.write 0 (s.take k)

/-- `sprintf(b + i, …)`, where `s` is the text. -/
def sprintf (b : CBuffer n) (i : ℕ) (s : List UInt8) : Option (CBuffer n) := b.write i (s ++ [0])

/-- `vsnprintf(b + i, k, …)`, where `s` is the text. -/
def vsnprintf (b : CBuffer n) (i k : ℕ) (s : List UInt8) : Option (CBuffer n) :=
  if k = 0 then some b else b.write i (s.take (k - 1) ++ [0])

/-- `strcat(b, s)`. -/
def strcat (b : CBuffer n) (s : List UInt8) : Option (CBuffer n) := do
  let t ← b.string 0
  b.write t.length (s ++ [0])

/-- The loop `for (p = b; *p != '\\0'; p++) *p = f(*p);`. -/
def mapLoop (f : UInt8 → UInt8) : List UInt8 → Option (List UInt8)
  | [] => none
  | c :: l => if c = 0 then some (c :: l) else (mapLoop f l).map (f c :: ·)

theorem length_mapLoop {f : UInt8 → UInt8} {l l' : List UInt8} (h : mapLoop f l = some l') :
    l'.length = l.length := by
  induction l generalizing l' with
  | nil => cases h
  | cons c l ih =>
    rw [mapLoop] at h
    split at h
    · rw [← Option.some.inj h]
    · obtain ⟨l'', hl, rfl⟩ := Option.map_eq_some_iff.mp h
      rw [List.length_cons, List.length_cons, ih hl]

/-- That loop on a buffer. -/
def mapString (f : UInt8 → UInt8) (b : CBuffer n) : Option (CBuffer n) :=
  match h : mapLoop f b.bytes with
  | none => none
  | some l => some ⟨l, (length_mapLoop h).trans b.size⟩

/-- `strchr(s, c)`, as a position in `s`. -/
def strchr (c : UInt8) (s : List UInt8) : Option ℕ := s.idxOf? c

theorem strchr_split {c : UInt8} {s : List UInt8} {k : ℕ} (h : strchr c s = some k) :
    ∃ p q, s = p ++ c :: q ∧ c ∉ p ∧ p.length = k := by
  obtain ⟨hk, hc, hbefore⟩ := List.idxOf?_eq_some_iff.mp h
  refine ⟨s.take k, s.drop (k + 1), ?_, ?_, List.length_take_of_le (by omega)⟩
  · rw [← hc, ← List.drop_eq_getElem_cons hk, List.take_append_drop]
  · intro hmem
    obtain ⟨j, hj, hget⟩ := List.mem_iff_getElem.mp hmem
    rw [List.getElem_take] at hget
    rw [List.length_take] at hj
    exact hbefore j (by omega) hget

/-! ## Strings in a buffer -/

/-- The buffer is terminated, and `s` is its string. -/
structure Holds (b : CBuffer n) (s : List UInt8) : Prop where
  noNul : 0 ∉ s
  bytes : ∃ rest, b.bytes = s ++ 0 :: rest

/-- The buffer is terminated. -/
def Terminated (b : CBuffer n) : Prop := 0 ∈ b.bytes

theorem takeWhile_append {s : List UInt8} (h : 0 ∉ s) (l : List UInt8) :
    (s ++ l).takeWhile (· ≠ 0) = s ++ l.takeWhile (· ≠ 0) := by
  apply List.takeWhile_append_of_pos
  intro x hx
  have hne : x ≠ 0 := by
    rintro rfl
    exact h hx
  simpa using hne

theorem takeWhile_append_nul {s : List UInt8} (h : 0 ∉ s) (rest : List UInt8) :
    (s ++ 0 :: rest).takeWhile (· ≠ 0) = s := by
  rw [takeWhile_append h]
  simp

theorem not_mem_takeWhile (l : List UInt8) : 0 ∉ l.takeWhile (· ≠ 0) := by
  intro h
  have hne := List.mem_takeWhile_imp h
  simp at hne

theorem exists_takeWhile_append_nul {l : List UInt8} (h : 0 ∈ l) :
    ∃ rest, l = l.takeWhile (· ≠ 0) ++ 0 :: rest := by
  obtain ⟨s, rest, rfl, hs⟩ := List.eq_append_cons_of_mem h
  exact ⟨rest, by rw [takeWhile_append_nul hs]⟩

section Rules

variable {b : CBuffer n} {s t pre : List UInt8} {i k : ℕ}

/-- What stands in front of a NUL is the string, up to the first NUL in it. -/
theorem holds_of_bytes {rest : List UInt8} (h : b.bytes = s ++ 0 :: rest) :
    b.Holds (s.takeWhile (· ≠ 0)) := by
  constructor
  · exact not_mem_takeWhile s
  · by_cases h0 : 0 ∈ s
    · obtain ⟨rest', hs⟩ := exists_takeWhile_append_nul h0
      refine ⟨rest' ++ 0 :: rest, ?_⟩
      calc b.bytes = s ++ 0 :: rest := h
        _ = (s.takeWhile (· ≠ 0) ++ 0 :: rest') ++ 0 :: rest := congrArg (· ++ 0 :: rest) hs
        _ = s.takeWhile (· ≠ 0) ++ 0 :: (rest' ++ 0 :: rest) := by
          rw [List.append_assoc, List.cons_append]
    · have hall := takeWhile_append h0 []
      rw [List.append_nil, List.takeWhile_nil, List.append_nil] at hall
      rw [hall]
      exact ⟨rest, h⟩

theorem Holds.terminated (h : b.Holds s) : b.Terminated := by
  obtain ⟨rest, hb⟩ := h.bytes
  unfold Terminated
  rw [hb]
  simp

theorem Terminated.exists_holds (h : b.Terminated) : ∃ s, b.Holds s := by
  obtain ⟨rest, hb⟩ := exists_takeWhile_append_nul h
  exact ⟨_, not_mem_takeWhile _, rest, hb⟩

theorem ofLiteral_terminated (h : s.length < n) : (ofLiteral n s).Terminated := by
  show 0 ∈ s.take n ++ List.replicate (n - s.length) 0
  refine List.mem_append_right _ (List.mem_replicate.mpr ⟨?_, rfl⟩)
  omega

theorem Holds.length_lt (h : b.Holds s) : s.length < n := by
  obtain ⟨rest, hb⟩ := h.bytes
  have hlen := congrArg List.length hb
  rw [b.size, List.length_append, List.length_cons] at hlen
  omega

/-- The strings within a string are its ends. -/
theorem Holds.string (h : b.Holds s) (hi : i ≤ s.length) : b.string i = some (s.drop i) := by
  obtain ⟨rest, hb⟩ := h.bytes
  have hdrop : b.bytes.drop i = s.drop i ++ 0 :: rest := by
    rw [hb, List.drop_append_of_le_length hi]
  have hnul : 0 ∉ s.drop i := fun hmem => h.noNul (List.mem_of_mem_drop hmem)
  unfold CBuffer.string
  rw [hdrop, if_pos (by simp), takeWhile_append_nul hnul]

theorem Holds.string_zero (h : b.Holds s) : b.string 0 = some s := h.string (Nat.zero_le _)

/-! ## The rule for a write -/

theorem write_bytes {l : List UInt8} (h : i + l.length ≤ n) :
    ∃ b', b.write i l = some b' ∧
      b'.bytes = b.bytes.take i ++ l ++ b.bytes.drop (i + l.length) := by
  unfold write
  rw [dif_pos h]
  exact ⟨_, rfl, rfl⟩

theorem write_eq_none {l : List UInt8} (h : n < i + l.length) : b.write i l = none := by
  unfold write
  exact dif_neg (by omega)

/-- A text with its NUL, written behind `pre`. -/
theorem write_nul (hpre : b.bytes.take i = pre) (hfit : i + s.length < n) :
    ∃ b' rest, b.write i (s ++ [0]) = some b' ∧ b'.bytes = pre ++ s ++ 0 :: rest := by
  obtain ⟨b', hw, hb⟩ := write_bytes (b := b) (i := i) (l := s ++ [0])
    (by rw [List.length_append, List.length_singleton]; omega)
  refine ⟨b', b.bytes.drop (i + (s ++ [0]).length), hw, ?_⟩
  rw [hb, hpre]
  simp only [List.append_assoc, List.cons_append, List.nil_append]

/-! ## The rules for the functions -/

/-- A NUL behind the string does not change it. -/
theorem set_holds (h : b.Holds s) (hi : s.length ≤ i) (hn : i < n) :
    ∃ b', b.set i 0 = some b' ∧ b'.Holds s := by
  obtain ⟨rest, hb⟩ := h.bytes
  obtain ⟨b', rest', hw, hb'⟩ := write_nul (b := b) (s := []) (i := i) rfl (by simpa using hn)
  refine ⟨b', hw, h.noNul, ?_⟩
  rw [hb', hb]
  obtain ⟨k, rfl⟩ := Nat.exists_eq_add_of_le hi
  rw [List.take_length_add_append]
  cases k with
  | zero => exact ⟨rest', by simp⟩
  | succ k => exact ⟨rest.take k ++ 0 :: rest', by simp⟩

/-- A NUL in the place of a character cuts the string there, and the character in the
    place of the NUL gives it back. -/
theorem set_restore {c : UInt8} {q : List UInt8} (h : b.Holds (pre ++ c :: q)) :
    ∃ b', b.set pre.length 0 = some b' ∧ b'.Holds pre ∧ b'.set pre.length c = some b := by
  obtain ⟨rest, hb⟩ := h.bytes
  rw [List.append_assoc, List.cons_append] at hb
  have hlen := h.length_lt
  rw [List.length_append, List.length_cons] at hlen
  -- what a single character in front of `q` leaves of a buffer
  have hset : ∀ (b : CBuffer n) (x y : UInt8), b.bytes = pre ++ x :: (q ++ 0 :: rest) →
      ∃ b', b.set pre.length y = some b' ∧ b'.bytes = pre ++ y :: (q ++ 0 :: rest) := by
    intro b x y hb
    obtain ⟨b', hw, hb'⟩ := write_bytes (b := b) (i := pre.length) (l := [y])
      (by rw [List.length_singleton]; omega)
    refine ⟨b', hw, ?_⟩
    rw [hb', hb, List.take_left, List.length_singleton, ← List.drop_drop, List.drop_left]
    simp
  obtain ⟨b₁, hw₁, hb₁⟩ := hset b c 0 hb
  obtain ⟨b₂, hw₂, hb₂⟩ := hset b₁ 0 c hb₁
  refine ⟨b₁, hw₁, ⟨fun hmem => h.noNul (List.mem_append_left _ hmem), _, hb₁⟩, ?_⟩
  rw [hw₂]
  exact congrArg some (CBuffer.ext (hb₂.trans hb.symm))

theorem sprintf_holds (hpre : b.bytes.take i = pre) (hnul : 0 ∉ pre) (hs : 0 ∉ s)
    (hfit : i + s.length < n) : ∃ b', b.sprintf i s = some b' ∧ b'.Holds (pre ++ s) := by
  obtain ⟨b', rest, hw, hb⟩ := write_nul hpre hfit
  refine ⟨b', hw, ?_, rest, hb⟩
  rw [List.mem_append, not_or]
  exact ⟨hnul, hs⟩

theorem sprintf_zero (b : CBuffer n) (hs : 0 ∉ s) (hfit : s.length < n) :
    ∃ b', b.sprintf 0 s = some b' ∧ b'.Holds s := by
  obtain ⟨b', hw, hb⟩ := sprintf_holds (b := b) List.take_zero (by simp) hs (by omega)
  rw [List.nil_append] at hb
  exact ⟨b', hw, hb⟩

theorem sprintf_eq_none (h : n ≤ i + s.length) : b.sprintf i s = none := by
  apply write_eq_none
  rw [List.length_append, List.length_singleton]
  omega

theorem memcpy_take (b : CBuffer n) (hs : k ≤ s.length) (hn : k ≤ n) :
    ∃ b', b.memcpy s k = some b' ∧ b'.bytes.take k = s.take k := by
  have hlen := List.length_take_of_le hs
  obtain ⟨b', hw, hb⟩ := write_bytes (b := b) (i := 0) (l := s.take k) (by omega)
  refine ⟨b', hw, ?_⟩
  rw [hb, List.take_zero, List.nil_append, List.take_append_of_le_length (by omega), List.take_take,
    min_self]

theorem Holds.take (h : b.Holds t) : b.bytes.take t.length = t := by
  obtain ⟨rest, hb⟩ := h.bytes
  rw [hb, List.take_left]

theorem strcat_holds (h : b.Holds t) (hs : 0 ∉ s) (hfit : t.length + s.length < n) :
    ∃ b', b.strcat s = some b' ∧ b'.Holds (t ++ s) := by
  obtain ⟨b', hw, hb⟩ := sprintf_holds h.take h.noNul hs hfit
  refine ⟨b', ?_, hb⟩
  unfold strcat
  rw [h.string_zero]
  exact hw

theorem strcat_eq_none (h : b.Holds t) (hfull : n ≤ t.length + s.length) : b.strcat s = none := by
  unfold strcat
  rw [h.string_zero]
  exact sprintf_eq_none hfull

/-- What does not fit into `k` characters with its NUL is cut off. -/
theorem vsnprintf_holds (h : b.Holds t) (s : List UInt8) (hk : 0 < k) (hfit : t.length + k ≤ n) :
    ∃ b', b.vsnprintf t.length k s = some b' ∧
      b'.Holds (t ++ (s.take (k - 1)).takeWhile (· ≠ 0)) := by
  have hlen := List.length_take_le (k - 1) s
  obtain ⟨b', rest, hw, hb⟩ := write_nul (s := s.take (k - 1)) h.take (by omega)
  refine ⟨b', ?_, ?_⟩
  · unfold vsnprintf
    rw [if_neg (by omega)]
    exact hw
  · have hholds := holds_of_bytes hb
    rwa [takeWhile_append h.noNul] at hholds

/-- `strncpy` into the whole buffer, and a NUL at its end. -/
def copy (b : CBuffer n) (s : List UInt8) : Option (CBuffer n) := do
  let b ← b.strncpy s n
  b.set (n - 1) 0

theorem not_mem_of_mem_take (hs : 0 ∉ s) : 0 ∉ s.take k :=
  fun h => hs (List.mem_of_mem_take h)

theorem copy_holds (b : CBuffer n) (hs : 0 ∉ s) (hn : 0 < n) :
    ∃ b', b.copy s = some b' ∧ b'.Holds (s.take (n - 1)) := by
  -- `strncpy` writes the whole buffer
  have hlen : (s.take n ++ List.replicate (n - s.length) 0).length = n := by
    rw [List.length_append, List.length_take, List.length_replicate]
    omega
  obtain ⟨b₁, hw₁, hb₁⟩ := write_bytes (b := b) (i := 0)
    (l := s.take n ++ List.replicate (n - s.length) 0) (by omega)
  have hpre : b₁.bytes.take (n - 1) = s.take (n - 1) ++ List.replicate (n - 1 - s.length) 0 := by
    rw [hb₁, List.take_zero, List.nil_append, List.take_append_of_le_length (by omega),
      List.take_append, List.take_take, List.take_replicate, List.length_take]
    congr 2
    · omega
    · omega
  obtain ⟨b₂, rest, hw₂, hb₂⟩ := write_nul (s := []) hpre (by simp only [List.length_nil]; omega)
  refine ⟨b₂, ?_, not_mem_of_mem_take hs, ?_⟩
  · unfold copy strncpy
    rw [hw₁]
    exact hw₂
  · rw [hb₂]
    cases n - 1 - s.length with
    | zero => exact ⟨rest, by simp⟩
    | succ k => exact ⟨List.replicate k 0 ++ 0 :: rest, by simp [List.replicate_succ]⟩

theorem mapLoop_append {f : UInt8 → UInt8} (hs : 0 ∉ s) (rest : List UInt8) :
    mapLoop f (s ++ 0 :: rest) = some (s.map f ++ 0 :: rest) := by
  induction s with
  | nil => rfl
  | cons c s ih =>
    rw [List.mem_cons, not_or] at hs
    rw [List.cons_append, mapLoop, if_neg (Ne.symm hs.1), ih hs.2]
    rfl

theorem mapString_holds {f : UInt8 → UInt8} (h : b.Holds s) (hf : ∀ c ∈ s, f c ≠ 0) :
    ∃ b', b.mapString f = some b' ∧ b'.Holds (s.map f) := by
  obtain ⟨rest, hb⟩ := h.bytes
  have hloop : mapLoop f b.bytes = some (s.map f ++ 0 :: rest) := by
    rw [hb]
    exact mapLoop_append h.noNul rest
  refine ⟨⟨s.map f ++ 0 :: rest, (length_mapLoop hloop).trans b.size⟩, ?_, ?_, rest, rfl⟩
  · unfold mapString
    split
    · rename_i hnone
      rw [hloop] at hnone
      cases hnone
    · rename_i l hl
      obtain rfl := Option.some.inj (hloop.symm.trans hl)
      rfl
  · intro hmem
    obtain ⟨c, hc, h0⟩ := List.mem_map.mp hmem
    exact hf c hc h0

end Rules

end CBuffer
