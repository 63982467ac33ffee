import Mathlib.Data.List.DropRight

/-!
# Lists at the last occurrence of an element

`upto c l` is `l` up to its last `c`, that one included, and `behind c l` is the
rest; `lastIdx c l` is the position of that `c`. `insertBefore c d l` has `d` in
front of the last `c` of `l`, or at the end.

* `upto_append_cons`, `behind_append_cons`: the only place where a list can be split.
* `insertBefore_append`, `insertBefore_append_left`: insertion in a part of a list.
* `insertBefore_injective`: different lists stay different.
-/

namespace LastSplit

variable {α : Type*} [DecidableEq α] {c : α} {a b d l : List α}

/-- `l` up to its last `c`. -/
def upto (c : α) (l : List α) : List α := l.rdropWhile (· ≠ c)

/-- What stands behind the last `c` of `l`. -/
def behind (c : α) (l : List α) : List α := l.rtakeWhile (· ≠ c)

/-- The position of the last `c` of `l`. -/
def lastIdx (c : α) : List α → Option ℕ
  | [] => none
  | x :: l =>
    match lastIdx c l with
    | some i => some (i + 1)
    | none => if x = c then some 0 else none

/-- `l` with `d` in front of its last `c`, or at its end. -/
def insertBefore (c : α) (d l : List α) : List α :=
  match lastIdx c l with
  | none => l ++ d
  | some i => l.take i ++ d ++ l.drop i

/-! ## The two parts -/

theorem upto_append_behind (c : α) (l : List α) : upto c l ++ behind c l = l :=
  List.rdropWhile_append_rtakeWhile

theorem not_mem_behind (c : α) (l : List α) : c ∉ behind c l := by
  intro h
  have hne := List.mem_rtakeWhile_imp h
  simp at hne

theorem upto_append (a : List α) (hb : c ∉ b) : upto c (a ++ b) = upto c a := by
  induction b using List.reverseRecOn with
  | nil => rw [List.append_nil]
  | append_singleton b x ih =>
    rw [List.mem_append, List.mem_singleton, not_or] at hb
    rw [← List.append_assoc, upto, List.rdropWhile_concat_pos _ _ _ (by simpa using Ne.symm hb.2)]
    exact ih hb.1

theorem behind_append (a : List α) (hb : c ∉ b) : behind c (a ++ b) = behind c a ++ b := by
  induction b using List.reverseRecOn with
  | nil => rw [List.append_nil, List.append_nil]
  | append_singleton b x ih =>
    rw [List.mem_append, List.mem_singleton, not_or] at hb
    rw [← List.append_assoc, behind,
      List.rtakeWhile_concat_pos _ _ _ (by simpa using Ne.symm hb.2), ← List.append_assoc]
    exact congrArg (· ++ [x]) (ih hb.1)

theorem upto_append_cons (a : List α) (hb : c ∉ b) : upto c (a ++ c :: b) = a ++ [c] := by
  have hassoc : a ++ c :: b = (a ++ [c]) ++ b := by simp
  rw [hassoc, upto_append _ hb, upto, List.rdropWhile_concat_neg _ _ _ (by simp)]

theorem behind_append_cons (a : List α) (hb : c ∉ b) : behind c (a ++ c :: b) = b := by
  have hassoc : a ++ c :: b = (a ++ [c]) ++ b := by simp
  rw [hassoc, behind_append _ hb, behind, List.rtakeWhile_concat_neg _ _ _ (by simp),
    List.nil_append]

/-- A list with a `c` has a last one. -/
theorem exists_split (h : c ∈ l) : ∃ a b, l = a ++ c :: b ∧ c ∉ b := by
  induction l with
  | nil => cases h
  | cons x l ih =>
    by_cases hl : c ∈ l
    · obtain ⟨a, b, rfl, hb⟩ := ih hl
      exact ⟨x :: a, b, rfl, hb⟩
    · obtain rfl : c = x := (List.mem_cons.mp h).resolve_right hl
      exact ⟨[], l, rfl, hl⟩

theorem upto_eq_nil (h : c ∉ l) : upto c l = [] := by
  have hnil := upto_append [] h
  rwa [List.nil_append] at hnil

theorem behind_eq_self (h : c ∉ l) : behind c l = l := by
  have hnil := behind_append [] h
  rwa [List.nil_append] at hnil

/-- The first part is its own first part. -/
theorem upto_upto (c : α) (l : List α) : upto c (upto c l) = upto c l := by
  by_cases h : c ∈ l
  · obtain ⟨a, b, rfl, hb⟩ := exists_split h
    rw [upto_append_cons a hb]
    exact upto_append_cons a (b := []) (by simp)
  · rw [upto_eq_nil h]
    rfl

theorem behind_upto (c : α) (l : List α) : behind c (upto c l) = [] := by
  by_cases h : c ∈ l
  · obtain ⟨a, b, rfl, hb⟩ := exists_split h
    rw [upto_append_cons a hb]
    exact behind_append_cons a (b := []) (by simp)
  · rw [upto_eq_nil h]
    rfl

/-! ## The position -/

theorem lastIdx_eq_none (h : c ∉ l) : lastIdx c l = none := by
  induction l with
  | nil => rfl
  | cons x l ih =>
    rw [List.mem_cons, not_or] at h
    rw [lastIdx, ih h.2]
    exact if_neg (Ne.symm h.1)

theorem lastIdx_append_cons (a : List α) (hb : c ∉ b) :
    lastIdx c (a ++ c :: b) = some a.length := by
  induction a with
  | nil =>
    rw [List.nil_append, lastIdx, lastIdx_eq_none hb]
    exact if_pos rfl
  | cons x a ih =>
    rw [List.cons_append, lastIdx, ih]
    rfl

/-! ## Insertion -/

theorem insertBefore_of_not_mem (d : List α) (h : c ∉ l) : insertBefore c d l = l ++ d := by
  rw [insertBefore, lastIdx_eq_none h]

theorem insertBefore_append_cons (d a : List α) (hb : c ∉ b) :
    insertBefore c d (a ++ c :: b) = a ++ d ++ c :: b := by
  rw [insertBefore, lastIdx_append_cons a hb]
  show (a ++ c :: b).take a.length ++ d ++ (a ++ c :: b).drop a.length = _
  rw [List.take_left, List.drop_left]

theorem mem_insertBefore {x : α} : x ∈ insertBefore c d l ↔ x ∈ l ∨ x ∈ d := by
  by_cases h : c ∈ l
  · obtain ⟨a, b, rfl, hb⟩ := exists_split h
    rw [insertBefore_append_cons d a hb]
    simp only [List.mem_append]
    tauto
  · rw [insertBefore_of_not_mem d h, List.mem_append]

/-- The insertion happens in the second part, if the `c` is there. -/
theorem insertBefore_append (d a : List α) (h : c ∈ b) :
    insertBefore c d (a ++ b) = a ++ insertBefore c d b := by
  obtain ⟨b₁, b₂, rfl, hb⟩ := exists_split h
  rw [insertBefore_append_cons d b₁ hb, ← List.append_assoc, insertBefore_append_cons d _ hb]
  simp only [List.append_assoc]

theorem behind_insertBefore (d : List α) (h : c ∈ l) :
    behind c (insertBefore c d l) = behind c l := by
  obtain ⟨a, b, rfl, hb⟩ := exists_split h
  rw [insertBefore_append_cons d a hb, behind_append_cons _ hb, behind_append_cons _ hb]

/-- **Different lists stay different** when something that begins with the only `c`
    in it is inserted. -/
theorem insertBefore_injective (hd : c ∉ d) : Function.Injective (insertBefore c (c :: d)) := by
  intro l l' heq
  by_cases h : c ∈ l
  · obtain ⟨a, b, rfl, hb⟩ := exists_split h
    have hbehind := congrArg (behind c) heq
    rw [behind_insertBefore _ h, behind_append_cons a hb] at hbehind
    rw [insertBefore_append_cons _ a hb] at heq
    by_cases h' : c ∈ l'
    · obtain ⟨a', b', rfl, hb'⟩ := exists_split h'
      rw [behind_insertBefore _ h', behind_append_cons a' hb'] at hbehind
      rw [insertBefore_append_cons _ a' hb', ← hbehind] at heq
      rw [← hbehind, List.append_cancel_right (List.append_cancel_right heq)]
    · -- `l'` would have the `c` that was inserted into `l`
      rw [insertBefore_of_not_mem _ h', behind_append_cons l' hd] at hbehind
      rw [insertBefore_of_not_mem _ h', hbehind] at heq
      have hl' : a ++ c :: d = l' := List.append_cancel_right heq
      exact absurd (by rw [← hl']; simp) h'
  · rw [insertBefore_of_not_mem _ h] at heq
    by_cases h' : c ∈ l'
    · obtain ⟨a', b', rfl, hb'⟩ := exists_split h'
      have hbehind := congrArg (behind c) heq
      rw [behind_insertBefore _ h', behind_append_cons a' hb', behind_append_cons l hd] at hbehind
      rw [insertBefore_append_cons _ a' hb', ← hbehind] at heq
      have hl : l = a' ++ c :: d := List.append_cancel_right heq
      exact absurd (by rw [hl]; simp) h
    · rw [insertBefore_of_not_mem _ h'] at heq
      exact List.append_cancel_right heq

/-! ## Two separators -/

section Extension

variable {e : α}

/-- If the last component has a `c`, or the whole path has none, the insertion happens in
    the last component. -/
theorem insertBefore_component (hed : e ∉ d) (l : List α) (h : c ∈ l → c ∈ behind e l) :
    insertBefore c d l = upto e l ++ insertBefore c d (behind e l) ∧
      e ∉ insertBefore c d (behind e l) := by
  constructor
  · by_cases hc : c ∈ l
    · have hinsert := insertBefore_append d (upto e l) (h hc)
      rwa [upto_append_behind] at hinsert
    · have hlast : c ∉ behind e l := by
        intro hmem
        apply hc
        rw [← upto_append_behind e l]
        exact List.mem_append_right _ hmem
      rw [insertBefore_of_not_mem d hc, insertBefore_of_not_mem d hlast, ← List.append_assoc,
        upto_append_behind]
  · rw [mem_insertBefore, not_or]
    exact ⟨not_mem_behind e l, hed⟩

/-- An insertion in front of a `c` that has an `e` behind it is not one at the end. -/
theorem insertBefore_ne_append (hce : e ≠ c) (hd : c ∉ d) (hed : e ∉ d) (h : c ∈ l)
    (hlast : c ∉ behind e l) : insertBefore c (c :: d) l ≠ l ++ c :: d := by
  intro hend
  have hc := congrArg (behind c) hend
  rw [behind_insertBefore _ h, behind_append_cons l hd] at hc
  have he : e ∈ l := by
    by_contra he
    rw [behind_eq_self he] at hlast
    exact hlast h
  obtain ⟨a, b, rfl, hb⟩ := exists_split he
  rw [behind_append_cons a hb] at hlast
  have hcb : c ∉ e :: b := by
    rw [List.mem_cons, not_or]
    exact ⟨Ne.symm hce, hlast⟩
  rw [behind_append a hcb] at hc
  exact hed (by rw [← hc]; simp)

/-- **An insertion before the last `c` of a path is one before the last `c` of its last
    component** exactly if there is no `c`, or one in the last component. -/
theorem insertBefore_component_iff (hce : e ≠ c) (hd : c ∉ d) (hed : e ∉ d) (l : List α) :
    (upto e (insertBefore c (c :: d) l) = upto e l ∧
        behind e (insertBefore c (c :: d) l) = insertBefore c (c :: d) (behind e l)) ↔
      (c ∈ l → c ∈ behind e l) := by
  constructor
  · rintro ⟨hupto, hbehind⟩ h
    by_contra hlast
    rw [insertBefore_of_not_mem _ hlast] at hbehind
    apply insertBefore_ne_append hce hd hed h hlast
    rw [← upto_append_behind e (insertBefore c (c :: d) l), hupto, hbehind, ← List.append_assoc,
      upto_append_behind]
  · intro h
    have hed' : e ∉ c :: d := by
      rw [List.mem_cons, not_or]
      exact ⟨hce, hed⟩
    obtain ⟨hsplit, hlast⟩ := insertBefore_component hed' l h
    rw [hsplit]
    constructor
    · rw [upto_append _ hlast, upto_upto]
    · rw [behind_append _ hlast, behind_upto, List.nil_append]

end Extension

end LastSplit
