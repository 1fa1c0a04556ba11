import EntitySplit.Proofs.Backup.Order
import Mathlib.Algebra.BigOperators.Intervals
import Mathlib.Algebra.Order.BigOperators.Group.Finset

namespace EntitySplit

namespace Moment

/-- The days of a year before a month, counted month by month so that leap
    years need no case of their own. The month after the last gives the whole
    year. -/
def daysBefore (year : Int) (month : Nat) : Nat :=
  ∑ earlier ∈ Finset.Ico 1 month, daysIn year earlier

/-- The days before a year, from the beginning of the first year that is
    counted. -/
def daysBeforeYear (year : Int) : Nat :=
  ∑ count ∈ Finset.range (year - firstYear).toNat, daysBefore (firstYear + count) 13

/-- The days before a moment's own: those of the years before, of the months
    before, and of the month before the day. -/
def days (moment : Moment) : Nat :=
  daysBeforeYear moment.year + (daysBefore moment.year moment.month + (moment.day - 1))

/-- The seconds that have passed since the beginning of the first year. The
    calendar is one without leap seconds and changes of the clock, as the
    fields of a moment know of neither. -/
def elapsed (moment : Moment) : Nat :=
  ((moment.days * 24 + moment.hour) * 60 + moment.minute) * 60 + moment.second

/-- The days of a month come before all later months. That the month is one at
    least is needed, since the count begins with the first. -/
theorem daysBefore_add_daysIn_le (year : Int) {month later : Nat} (hmonth : 1 ≤ month)
    (h : month < later) :
    daysBefore year month + daysIn year month ≤ daysBefore year later := by
  rw [daysBefore, ← Finset.sum_Ico_succ_top hmonth]
  exact Finset.sum_le_sum_of_subset (Finset.Ico_subset_Ico_right h)

/-- The days of a year come before all later years. -/
theorem daysBeforeYear_add_le {year later : Int} (hyear : firstYear ≤ year) (h : year < later) :
    daysBeforeYear year + daysBefore year 13 ≤ daysBeforeYear later := by
  have hcount : firstYear + ((year - firstYear).toNat : Int) = year := by omega
  have hsum :=
    Finset.sum_range_succ (fun count : Nat => daysBefore (firstYear + count) 13)
      (year - firstYear).toNat
  rw [hcount] at hsum
  rw [daysBeforeYear, ← hsum]
  exact Finset.sum_le_sum_of_subset (Finset.range_subset_range.2 (by omega))

section

variable {moment other : Moment}

/-- A day of a month comes before all later months of the year; that it exists
    keeps it from running over into the next. -/
theorem daysBefore_add_day_lt (h : moment.isValid = true) {later : Nat}
    (hmonth : moment.month < later) :
    daysBefore moment.year moment.month + (moment.day - 1) < daysBefore moment.year later := by
  obtain ⟨-, -, hfirst, -, hday, hdays, -⟩ := isValid_iff.1 h
  have hle := daysBefore_add_daysIn_le moment.year hfirst hmonth
  omega

/-- The days before a moment are fewer than those before any moment of a later
    year, which need not itself exist. -/
theorem days_lt_of_year_lt (h : moment.isValid = true) (hyear : moment.year < other.year) :
    moment.days < other.days := by
  obtain ⟨hfirst, -, -, hmonth, -⟩ := isValid_iff.1 h
  have hday := daysBefore_add_day_lt h (show moment.month < 13 by omega)
  have hle := daysBeforeYear_add_le hfirst hyear
  rw [days, days]
  omega

/-- The days before a moment are fewer than those before any moment of a later
    month of the year. -/
theorem days_lt_of_month_lt (h : moment.isValid = true) (hyear : moment.year = other.year)
    (hmonth : moment.month < other.month) : moment.days < other.days := by
  have hday := daysBefore_add_day_lt h hmonth
  rw [days, days, ← hyear]
  omega

/-- More seconds have passed at the later of two moments. Only the earlier must
    exist: the later one may even lie beyond the end of its month. -/
theorem elapsed_lt_elapsed (h : moment.isValid = true) (hlt : moment < other) :
    moment.elapsed < other.elapsed := by
  obtain ⟨-, -, -, -, hday, -, hhour, hminute, hsecond⟩ := isValid_iff.1 h
  -- It is enough that there are more days, or as many and more seconds of the day.
  suffices moment.days < other.days ∨ moment.days = other.days ∧
      (moment.hour < other.hour ∨ moment.hour = other.hour ∧
        (moment.minute < other.minute ∨ moment.minute = other.minute ∧
          moment.second < other.second)) by
    unfold elapsed
    omega
  rcases lt_iff.1 hlt with hyear | ⟨hyear, hmonth | ⟨hmonth, hday | ⟨hday, htime⟩⟩⟩
  · exact .inl (days_lt_of_year_lt h hyear)
  · exact .inl (days_lt_of_month_lt h hyear hmonth)
  · refine .inl ?_
    rw [days, days, hyear, hmonth]
    omega
  · exact .inr ⟨by rw [days, days, hyear, hmonth, hday], htime⟩

/-- The order of moments by their fields is that of time. Here both must exist,
    as the order of the fields is a total one and either may be the earlier. -/
theorem lt_iff_elapsed_lt (h : moment.isValid = true) (hother : other.isValid = true) :
    moment < other ↔ moment.elapsed < other.elapsed := by
  constructor
  · exact elapsed_lt_elapsed h
  · intro hlt
    rcases lt_trichotomy moment.fields other.fields with hbefore | hsame | hafter
    · exact hbefore
    · rw [fields_injective hsame] at hlt
      exact absurd hlt (lt_irrefl _)
    · exact absurd hlt (elapsed_lt_elapsed hother hafter).not_gt

/-- Of two stamps of the years 0 to 9999, the smaller is made when fewer
    seconds have passed. Outside these years a stamp has a sign or a further
    digit, and the order of texts is no longer that of numbers. -/
theorem stamp_lt_stamp_iff_elapsed_lt (h : moment.isValid = true) (hother : other.isValid = true)
    (hyear : 0 ≤ moment.year ∧ moment.year ≤ 9999) (hyear' : 0 ≤ other.year ∧ other.year ≤ 9999) :
    moment.stamp < other.stamp ↔ moment.elapsed < other.elapsed :=
  (stamp_lt_stamp_iff (fits_of_isValid h hyear) (fits_of_isValid hother hyear')).trans
    (lt_iff_elapsed_lt h hother)

end

end Moment

end EntitySplit
