import EntitySplit.Proofs.Backup.Place
import EntitySplit.Proofs.Path.Folder
import Mathlib.Algebra.GroupWithZero.Nat
import Mathlib.Data.Char
import Mathlib.Data.List.Forall2
import Mathlib.Data.List.Lex
import Mathlib.Data.Int.Order.Basic
import Mathlib.Data.Set.Function
import Mathlib.Order.Monotone.Basic

namespace EntitySplit

namespace Text

/-- Texts that begin with as many characters are in the order of the
    beginnings, or of what follows equal ones. Without the same length a
    beginning could be a part of the other and what follows would decide. -/
theorem append_lt_append_iff {s s' t t' : Text} (hlength : s.length = s'.length) :
    s ++ t < s' ++ t' ↔ s < s' ∨ s = s' ∧ t < t' := by
  induction s generalizing s' with
  | nil =>
    rw [List.eq_nil_of_length_eq_zero hlength.symm]
    simp
  | cons c s ih =>
    cases s' with
    | nil => exact absurd hlength (by simp)
    | cons c' s' =>
      have hrest := ih (Nat.succ_inj.1 hlength)
      simp only [List.cons_append, List.cons_lt_cons_iff, hrest, List.cons.injEq, and_or_left,
        or_assoc, and_assoc]

theorem append_left_lt_append_left_iff (lead : Text) {t t' : Text} :
    lead ++ t < lead ++ t' ↔ t < t' := by
  rw [append_lt_append_iff rfl]
  simp

/-- A common end behind texts of the same length does not matter to the order
    either. -/
theorem append_right_lt_append_right_iff {s s' : Text} (hlength : s.length = s'.length)
    (rest : Text) :
    s ++ rest < s' ++ rest ↔ s < s' := by
  rw [append_lt_append_iff hlength]
  simp

end Text

namespace Moment

section

variable {width number : Nat}

/-- A number that has at most as many digits as there are places is written in
    just these places. The width must be positive, because zero is written with
    one digit. -/
theorem length_padded (hwidth : 0 < width) (h : number < 10 ^ width) :
    (padded width number).length = width := by
  have hdigits := (Nat.length_toDigits_le_iff (by decide) hwidth).2 h
  simp [padded]
  omega

theorem padded_one (h : number < 10) : padded 1 number = [number.digitChar] := by
  simp [padded, Nat.toDigits_of_lt_base h]

/-- The last digit of a number stands behind the others in one place less,
    which is what the induction on the width rests on. -/
theorem padded_succ (hwidth : 0 < width) (number : Nat) :
    padded (width + 1) number = padded width (number / 10) ++ [(number % 10).digitChar] := by
  by_cases hsmall : number < 10
  · obtain ⟨places, rfl⟩ := Nat.exists_eq_add_one_of_ne_zero hwidth.ne'
    rw [Nat.div_eq_of_lt hsmall, Nat.mod_eq_of_lt hsmall, padded, padded,
      Nat.toDigits_of_lt_base hsmall, Nat.toDigits_zero]
    simp [List.replicate_succ']
  · rw [padded, padded, Nat.toDigits_of_base_le (by decide) (Nat.le_of_not_lt hsmall)]
    simp

/-- Digits are in the order of their characters. The bound on the larger one
    covers the smaller. -/
theorem digitChar_lt_digitChar {m n : Nat} (hn : n < 10) (h : m < n) :
    m.digitChar < n.digitChar := by
  have hm : m.digitChar.val.toNat = 48 + m := Nat.toNat_digitChar_of_lt_ten (h.trans hn)
  have hn : n.digitChar.val.toNat = 48 + n := Nat.toNat_digitChar_of_lt_ten hn
  rw [Char.lt_def, UInt32.lt_iff_toNat_lt]
  omega

/-- Numbers in one width are in the order of their digits as texts, by
    induction on the width. -/
theorem padded_lt_padded {m n : Nat} (hwidth : 0 < width) (hn : n < 10 ^ width) (h : m < n) :
    padded width m < padded width n := by
  induction width, hwidth using Nat.le_induction generalizing m n with
  | base =>
    rw [padded_one (h.trans hn), padded_one hn, List.cons_lt_cons_iff]
    exact .inl (digitChar_lt_digitChar hn h)
  | succ width hwidth ih =>
    have hrest : n / 10 < 10 ^ width := by omega
    have hlength : (padded width (m / 10)).length = (padded width (n / 10)).length := by
      rw [length_padded hwidth hrest, length_padded hwidth (by omega)]
    rw [padded_succ hwidth, padded_succ hwidth, Text.append_lt_append_iff hlength,
      List.cons_lt_cons_iff]
    -- The number with the smaller tens is the smaller one, and of two with the same tens that with
    -- the smaller units.
    rcases Nat.lt_or_ge (m / 10) (n / 10) with htens | htens
    · exact .inl (ih hrest htens)
    · have hsame : m / 10 = n / 10 := by omega
      exact .inr ⟨by rw [hsame],
        .inl (digitChar_lt_digitChar (Nat.mod_lt _ (by decide)) (by omega))⟩

end

/-- Year, month, day, hour, minute and second, the largest unit first, as a
    stamp writes them. -/
def fields (moment : Moment) : List Int :=
  [moment.year, moment.month, moment.day, moment.hour, moment.minute, moment.second]

/-- The order of time: the first field in which two moments differ decides. -/
instance : LT Moment where
  lt moment other := moment.fields < other.fields

theorem lt_iff {moment other : Moment} : moment < other ↔
    moment.year < other.year ∨ moment.year = other.year ∧
      (moment.month < other.month ∨ moment.month = other.month ∧
      (moment.day < other.day ∨ moment.day = other.day ∧
        (moment.hour < other.hour ∨ moment.hour = other.hour ∧
        (moment.minute < other.minute ∨ moment.minute = other.minute ∧
          moment.second < other.second)))) := by
  change moment.fields < other.fields ↔ _
  simp only [fields, List.cons_lt_cons_iff, Int.ofNat_lt, Int.natCast_inj, List.lt_irrefl,
    and_false, or_false]

/-- How many digits a stamp has for each field, fourteen in all. -/
def widths : List Nat :=
  [4, 2, 2, 2, 2, 2]

/-- That each number has as many digits at most as there are for it. -/
def FitsIn : List Nat → List Int → Prop :=
  List.Forall₂ fun width number => 0 < width ∧ 0 ≤ number ∧ number.natAbs < 10 ^ width

/-- That the year has four digits at most and no sign, and each other field
    two. All moments of the years 0 to 9999 are like this, also one in a leap
    second; the moment need not exist in the calendar. -/
def Fits (moment : Moment) : Prop :=
  FitsIn widths moment.fields

/-- Numbers in the widths that there are for them, one after another. -/
def joined (widths : List Nat) (numbers : List Int) : Text :=
  (widths.zip numbers).flatMap fun (width, number) => padded width number.natAbs

section

variable {widths : List Nat} {numbers others : List Int}

theorem length_joined (h : FitsIn widths numbers) :
    (joined widths numbers).length = widths.sum := by
  induction h with
  | nil => rfl
  | @cons width number _ _ hfits _ ih =>
    obtain ⟨hwidth, -, hlt⟩ := hfits
    rw [joined, List.zip_cons_cons, List.flatMap_cons, List.length_append, List.sum_cons,
      length_padded hwidth hlt]
    exact congrArg _ ih

theorem isDigit_of_mem_joined {c : Char} (h : c ∈ joined widths numbers) : c.isDigit = true := by
  obtain ⟨field, -, hmem⟩ := List.mem_flatMap.1 h
  exact isDigit_of_mem_padded hmem

/-- Joining numbers in fixed widths keeps their order, by induction on the
    widths: the first number that differs decides, and it stands at the same
    place in both texts. -/
theorem joined_strictMonoOn (widths : List Nat) :
    StrictMonoOn (joined widths) {numbers | FitsIn widths numbers} := by
  intro numbers hnumbers others hothers h
  induction hnumbers generalizing others with
  | nil =>
    cases hothers
    exact absurd h (lt_irrefl _)
  | @cons width number widths numbers hfits _ ih =>
    obtain ⟨other, others, ⟨-, hnonneg', hlt'⟩, hfit, rfl⟩ := List.forall₂_cons_left_iff.1 hothers
    obtain ⟨hwidth, hnonneg, hlt⟩ := hfits
    have hlength : (padded width number.natAbs).length = (padded width other.natAbs).length := by
      rw [length_padded hwidth hlt, length_padded hwidth hlt']
    refine (Text.append_lt_append_iff hlength).2 ?_
    rcases List.cons_lt_cons_iff.1 h with hfirst | ⟨rfl, hrest⟩
    · exact .inl (padded_lt_padded hwidth hlt' (by omega))
    · exact .inr ⟨rfl, ih hfit hrest⟩

end

section

variable {moment other : Moment}

/-- A stamp is its fields joined in their widths. The year is asked to fit
    because otherwise the stamp has a sign in front. -/
theorem stamp_eq_joined (h : moment.Fits) : moment.stamp = joined widths moment.fields := by
  obtain ⟨⟨-, hnonneg, hle⟩, -⟩ := List.forall₂_cons.1 h
  have hyear : yearText moment.year = padded 4 moment.year.natAbs := by
    rw [yearText, if_neg (by omega), if_neg (by omega)]
  simp [stamp, hyear, joined, widths, fields]

theorem fields_injective : Function.Injective fields := by
  rintro ⟨year, month, day, hour, minute, second⟩ ⟨year', month', day', hour', minute', second'⟩ h
  simp only [fields, List.cons.injEq, Int.natCast_inj, and_true] at h
  simp [h]

/-- Stamps are in the order of their moments, as both are in the order of the
    fields. -/
theorem stamp_lt_stamp_iff (h : moment.Fits) (hother : other.Fits) :
    moment.stamp < other.stamp ↔ moment < other := by
  rw [stamp_eq_joined h, stamp_eq_joined hother]
  exact (joined_strictMonoOn widths).lt_iff_lt h hother

/-- Stamps are equal for equal moments only, so two backups of a file have the
    same path only if they are made within the same second. -/
theorem stamp_eq_stamp_iff (h : moment.Fits) (hother : other.Fits) :
    moment.stamp = other.stamp ↔ moment = other := by
  rw [stamp_eq_joined h, stamp_eq_joined hother, (joined_strictMonoOn widths).injOn.eq_iff h hother,
    fields_injective.eq_iff]

theorem Fits.length_stamp (h : moment.Fits) : moment.stamp.length = 14 := by
  rw [stamp_eq_joined h, length_joined h]
  rfl

theorem Fits.isDigit_of_mem_stamp (h : moment.Fits) : ∀ c ∈ moment.stamp, c.isDigit = true := by
  intro c hmem
  rw [stamp_eq_joined h] at hmem
  exact isDigit_of_mem_joined hmem

/-- The conditions for a moment to exist, one by one. -/
theorem isValid_iff : moment.isValid = true ↔ firstYear ≤ moment.year ∧ moment.year ≤ lastYear ∧
    1 ≤ moment.month ∧ moment.month ≤ 12 ∧ 1 ≤ moment.day ∧
      moment.day ≤ daysIn moment.year moment.month ∧
    moment.hour < 24 ∧ moment.minute < 60 ∧ moment.second < 60 := by
  simp only [isValid, Bool.and_eq_true, decide_eq_true_eq, and_assoc]

theorem daysIn_le (year : Int) (month : Nat) : daysIn year month ≤ 31 := by
  grind [daysIn]

/-- A moment of the years 0 to 9999 that exists fits. The converse fails, for
    instance for a second number 60. -/
theorem fits_of_isValid (h : moment.isValid = true) (hyear : 0 ≤ moment.year ∧ moment.year ≤ 9999) :
    moment.Fits := by
  obtain ⟨-, -, -, hmonth, -, hday, hhour, hminute, hsecond⟩ := isValid_iff.1 h
  have hdays := daysIn_le moment.year moment.month
  simp only [Fits, FitsIn, widths, fields, List.forall₂_cons, List.forall₂_nil_left_iff,
    Int.natAbs_natCast, and_true]
  omega

end

end Moment

namespace Backup

section

variable {path : Path} {name stamp stamp' : Text}

/-- A backup stands next to its file under a name of its own. The stamp has to
    be without slashes, as every stamp of a moment is. -/
theorem isSibling_pathFor (hname : path.fileName? = some name) (hstamp : '/' ∉ stamp) :
    path.IsSibling (pathFor path stamp) := by
  obtain ⟨hbackup, hparent⟩ := fileName?_parent?_pathFor hname hstamp
  refine Path.isSibling_of_parent?_eq hparent.symm hname hbackup ?_
  simp [ending]

/-- Backups with different stamps stand next to each other under different
    names. -/
theorem isSibling_pathFor_pathFor (hname : path.fileName? = some name) (hstamp : '/' ∉ stamp)
    (hstamp' : '/' ∉ stamp')
    (hne : stamp ≠ stamp') : (pathFor path stamp).IsSibling (pathFor path stamp') := by
  obtain ⟨hbackup, hparent⟩ := fileName?_parent?_pathFor hname hstamp
  obtain ⟨hbackup', hparent'⟩ := fileName?_parent?_pathFor hname hstamp'
  refine Path.isSibling_of_parent?_eq (hparent.trans hparent'.symm) hbackup hbackup' ?_
  simpa [ending] using hne

/-- Names of backups are in the order of their stamps, since the file's name in
    front and the extension behind are the same for all. -/
theorem append_ending_lt_append_ending_iff (hlength : stamp.length = stamp'.length) (name : Text) :
    name ++ ending stamp < name ++ ending stamp' ↔ stamp < stamp' := by
  rw [Text.append_left_lt_append_left_iff, ending, ending, List.cons_append, List.cons_append,
    List.cons_lt_cons_iff, Text.append_right_lt_append_right_iff hlength]
  simp

/-- Paths of backups of one file are in the order of their stamps, as the
    folder in front is the same. -/
theorem raw_pathFor_lt_raw_pathFor_iff (hname : path.fileName? = some name) (hstamp : '/' ∉ stamp)
    (hstamp' : '/' ∉ stamp') (hlength : stamp.length = stamp'.length) :
    (pathFor path stamp).raw < (pathFor path stamp').raw ↔ stamp < stamp' := by
  obtain ⟨lead, hlead⟩ := Path.exists_raw_withFileName path
  rw [pathFor_eq_withFileName hname, pathFor_eq_withFileName hname,
    hlead _ (slash_not_mem_append_ending hname hstamp),
    hlead _ (slash_not_mem_append_ending hname hstamp'), Text.append_left_lt_append_left_iff,
    append_ending_lt_append_ending_iff hlength]

end

/-- The stamps of the years 0 to 9999 are fourteen digits and are in the order
    of the moments. The backups of a file stand next to it under names of their
    own, and are in that order both by their names and by their paths. Of the
    path only that it ends with a file name is asked. -/
theorem backups_in_order_of_time {moment other : Moment} (h : moment.Fits) (hother : other.Fits) :
    (∀ stamp ∈ [moment.stamp, other.stamp], stamp.length = 14 ∧ ∀ c ∈ stamp, c.isDigit = true) ∧
    (moment.stamp < other.stamp ↔ moment < other) ∧ (moment.stamp = other.stamp ↔ moment = other) ∧
    ∀ (path : Path) (name : Text), path.fileName? = some name →
      path.IsSibling (pathFor path moment.stamp) ∧ path.IsSibling (pathFor path other.stamp) ∧
      (moment ≠ other → (pathFor path moment.stamp).IsSibling (pathFor path other.stamp)) ∧
      ((pathFor path moment.stamp).fileName? < (pathFor path other.stamp).fileName? ↔
        moment < other) ∧
      ((pathFor path moment.stamp).raw < (pathFor path other.stamp).raw ↔ moment < other) := by
  have hslash := Moment.slash_not_mem_stamp
  have hlength : moment.stamp.length = other.stamp.length := by
    rw [h.length_stamp, hother.length_stamp]
  have horder := Moment.stamp_lt_stamp_iff h hother
  have hinjective := Moment.stamp_eq_stamp_iff h hother
  refine ⟨?_, horder, hinjective, fun path name hname => ⟨?_, ?_, ?_, ?_, ?_⟩⟩
  · simp only [List.forall_mem_cons]
    exact ⟨⟨h.length_stamp, h.isDigit_of_mem_stamp⟩,
      ⟨hother.length_stamp, hother.isDigit_of_mem_stamp⟩, by simp⟩
  · exact isSibling_pathFor hname (hslash moment)
  · exact isSibling_pathFor hname (hslash other)
  · intro hne
    exact isSibling_pathFor_pathFor hname (hslash moment) (hslash other) (hinjective.not.2 hne)
  · obtain ⟨hbackup, -⟩ := fileName?_parent?_pathFor hname (hslash moment)
    obtain ⟨hbackup', -⟩ := fileName?_parent?_pathFor hname (hslash other)
    rw [hbackup, hbackup', Option.some_lt_some, append_ending_lt_append_ending_iff hlength, horder]
  · rw [raw_pathFor_lt_raw_pathFor_iff hname (hslash moment) (hslash other) hlength, horder]

/-- The last second of a year and the first of the next, for a path with
    slashes that its backups do without. -/
theorem backups_in_order_of_time_turn_of_year :
    pathFor ⟨"./src//Ctx.cs/".toList⟩ (Moment.stamp ⟨2023, 12, 31, 23, 59, 59⟩) =
      ⟨"./src/Ctx.cs.20231231235959.bak".toList⟩ ∧
    pathFor ⟨"./src//Ctx.cs/".toList⟩ (Moment.stamp ⟨2024, 1, 1, 0, 0, 0⟩) =
      ⟨"./src/Ctx.cs.20240101000000.bak".toList⟩ ∧
    Path.IsSibling ⟨"./src/Ctx.cs.20231231235959.bak".toList⟩
      ⟨"./src/Ctx.cs.20240101000000.bak".toList⟩ ∧
    "./src/Ctx.cs.20231231235959.bak".toList < "./src/Ctx.cs.20240101000000.bak".toList := by
  have hlast : Moment.Fits ⟨2023, 12, 31, 23, 59, 59⟩ :=
    Moment.fits_of_isValid (by decide) (by decide)
  have hfirst : Moment.Fits ⟨2024, 1, 1, 0, 0, 0⟩ := Moment.fits_of_isValid (by decide) (by decide)
  have hearlier : (⟨2023, 12, 31, 23, 59, 59⟩ : Moment) < ⟨2024, 1, 1, 0, 0, 0⟩ :=
    Moment.lt_iff.2 (by decide)
  obtain ⟨-, -, -, hbackups⟩ := backups_in_order_of_time hlast hfirst
  obtain ⟨-, -, hsiblings, -, horder⟩ :=
    hbackups ⟨"./src//Ctx.cs/".toList⟩ "Ctx.cs".toList (by decide +kernel)
  have hpath : pathFor ⟨"./src//Ctx.cs/".toList⟩ (Moment.stamp ⟨2023, 12, 31, 23, 59, 59⟩) =
      ⟨"./src/Ctx.cs.20231231235959.bak".toList⟩ := by decide +kernel
  have hpath' : pathFor ⟨"./src//Ctx.cs/".toList⟩ (Moment.stamp ⟨2024, 1, 1, 0, 0, 0⟩) =
      ⟨"./src/Ctx.cs.20240101000000.bak".toList⟩ := by decide +kernel
  rw [hpath, hpath'] at hsiblings horder
  exact ⟨hpath, hpath', hsiblings (by decide), horder.2 hearlier⟩

end Backup

end EntitySplit
