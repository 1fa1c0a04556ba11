import EntitySplit.Text.Blank

namespace EntitySplit

namespace Text

/-- The characters with the property `White_Space`, one by one. -/
def blankChars : List Char :=
  ['\t', '\n', '\x0b', '\x0c', '\r', ' ', '\u0085', '\u00a0', '\u1680', '\u2000', '\u2001',
   '\u2002', '\u2003', '\u2004', '\u2005', '\u2006', '\u2007', '\u2008', '\u2009', '\u200a',
   '\u2028', '\u2029', '\u202f', '\u205f', '\u3000']

/-- There are no others that are white space, so the list may be gone through
    in the place of the ranges. -/
theorem mem_blankChars_of_isBlank {c : Char} (h : isBlank c = true) : c ∈ blankChars := by
  have hcode : c.toNat ∈ blankChars.map Char.toNat := by
    have hcodes :
        blankChars.map Char.toNat =
          [9, 10, 11, 12, 13, 0x20, 0x85, 0xA0, 0x1680, 0x2000, 0x2001, 0x2002, 0x2003, 0x2004,
           0x2005, 0x2006, 0x2007, 0x2008, 0x2009, 0x200A, 0x2028, 0x2029, 0x202F, 0x205F,
           0x3000] := by
      decide
    simp only [isBlank, Bool.or_eq_true, Bool.and_eq_true, decide_eq_true_eq] at h
    rw [hcodes]
    simp only [List.mem_cons, List.not_mem_nil, or_false]
    omega
  obtain ⟨d, hd, heq⟩ := List.mem_map.1 hcode
  rwa [← Char.ofNat_toNat c, ← heq, Char.ofNat_toNat]

/-- What holds of no white space character is told by looking at each. The
    premise is a finite check. -/
theorem eq_false_of_isBlank {p : Char → Bool} {c : Char} (hp : blankChars.all (!p ·) = true)
    (h : isBlank c = true) :
    p c = false := by
  have hnot := List.all_eq_true.1 hp c (mem_blankChars_of_isBlank h)
  simpa using hnot

/-- `trimmed` is `whole` without the white space at its two ends. -/
def IsTrim (whole trimmed : Text) : Prop :=
  ∃ left right, whole = left ++ trimmed ++ right ∧ (∀ c ∈ left ++ right, isBlank c = true) ∧
    (∀ c ∈ trimmed.head?, isBlank c = false) ∧ ∀ c ∈ trimmed.getLast?, isBlank c = false

theorem isTrim_trim (t : Text) : IsTrim t (trim t) := by
  obtain ⟨left, middle, rfl, hleft, hhead⟩ := exists_run isBlank t
  obtain ⟨right, inner, hmiddle, hright, hlast⟩ := exists_run isBlank middle.reverse
  have htrim : trim (left ++ middle) = inner.reverse := by
    rw [trim, dropWhile_run_append hleft hhead, trimEnd, hmiddle, dropWhile_run_append hright hlast]
  have hsplit : middle = inner.reverse ++ right.reverse := by
    rw [← List.reverse_append, ← hmiddle, List.reverse_reverse]
  rw [htrim]
  refine ⟨left, right.reverse, ?_, ?_, ?_, ?_⟩
  · rw [hsplit, List.append_assoc]
  · intro c hc
    rcases List.mem_append.1 hc with hc | hc
    · exact hleft c hc
    · exact hright c (List.mem_reverse.1 hc)
  · intro c hc
    apply hhead c
    rw [hsplit, Option.mem_def, List.head?_append, hc, Option.some_or]
  · intro c hc
    rw [List.getLast?_reverse] at hc
    exact hlast c hc

theorem trim_eq_nil_iff {t : Text} : trim t = [] ↔ ∀ c ∈ t, isBlank c = true := by
  obtain ⟨left, right, heq, hblank, hhead, -⟩ := isTrim_trim t
  constructor
  · intro hnil
    rw [hnil, List.append_nil] at heq
    rw [heq]
    exact hblank
  · intro h
    cases htrim : trim t with
    | nil => rfl
    | cons c rest =>
      rw [htrim] at heq hhead
      have hvisible := hhead c rfl
      rw [h c (by simp [heq])] at hvisible
      exact absurd hvisible (by decide)

section

variable {t blanks : Text}

@[simp] theorem withoutBlanks_append (s t : Text) :
    withoutBlanks (s ++ t) = withoutBlanks s ++ withoutBlanks t :=
  List.filter_append s t

theorem withoutBlanks_eq_nil_iff : withoutBlanks t = [] ↔ ∀ c ∈ t, isBlank c = true := by
  simp [withoutBlanks]

theorem trimEnd_append (hblanks : ∀ c ∈ blanks, isBlank c = true) :
    trimEnd (t ++ blanks) = trimEnd t := by
  have hblanks' : ∀ c ∈ blanks.reverse, isBlank c = true :=
    fun c hc => hblanks c (List.mem_reverse.1 hc)
  rw [trimEnd, List.reverse_append, List.dropWhile_append_of_pos hblanks', trimEnd]

/-- White space behind a text is no part of it. -/
theorem trim_append (hblanks : ∀ c ∈ blanks, isBlank c = true) : trim (t ++ blanks) = trim t := by
  rw [trim, List.dropWhile_append]
  split
  · next hnone =>
    have hdrop : (blanks ++ []).dropWhile isBlank = [] := dropWhile_run_append hblanks (by simp)
    rw [List.append_nil] at hdrop
    rw [hdrop, trim, List.isEmpty_iff.1 hnone]
  · rw [trimEnd_append hblanks, trim]

/-- A text without white space at its ends stays as it is. -/
theorem trim_eq_self (hhead : ∀ c ∈ t.head?, isBlank c = false)
    (hlast : ∀ c ∈ t.getLast?, isBlank c = false) :
    trim t = t := by
  have hdrop : t.dropWhile isBlank = t :=
    dropWhile_run_append (fun c (hc : c ∈ []) => absurd hc List.not_mem_nil) hhead
  have hdrop' : t.reverse.dropWhile isBlank = t.reverse := by
    have hlast' : ∀ c ∈ t.reverse.head?, isBlank c = false := by rwa [List.head?_reverse]
    exact dropWhile_run_append (fun c (hc : c ∈ []) => absurd hc List.not_mem_nil) hlast'
  rw [trim, hdrop, trimEnd, hdrop', List.reverse_reverse]

end

end Text

end EntitySplit
