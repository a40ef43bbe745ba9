import Drydock.Proofs.Text
import Drydock.Time.Rfc3339

/-! Instants read back from their text. The calendar counts every day once: the
day with a given number is a day of the calendar, and counting up to it gives
the number back. The text has every component in full, so what is read of it is
what was written. -/
namespace Drydock

namespace Date

theorem isLeap_iff {year : Int} :
    isLeap year = true ↔ year % 4 = 0 ∧ (year % 100 ≠ 0 ∨ year % 400 = 0) := by
  simp [isLeap]

/-- A year has as many days as its months together. -/
theorem daysBeforeYear_succ (year : Int) :
    daysBeforeYear (year + 1) = daysBeforeYear year + (monthLengths year).sum := by
  by_cases hLeap : isLeap year = true
  · have hSum : (monthLengths year).sum = 366 := by simp [monthLengths, hLeap]
    rw [isLeap_iff] at hLeap
    rw [hSum, daysBeforeYear, daysBeforeYear]
    omega
  · have hSum : (monthLengths year).sum = 365 := by simp [monthLengths, hLeap]
    rw [isLeap_iff] at hLeap
    rw [hSum, daysBeforeYear, daysBeforeYear]
    omega

/-- The estimate of the year is never late, and at most one year early. Nothing
is assumed about the sign of the day's number. -/
theorem daysBeforeYear_guess (n : Int) :
    daysBeforeYear (400 * n / 146097 + 1) ≤ n ∧
      n < daysBeforeYear (400 * n / 146097 + 1 + 1 + 1) := by
  rw [daysBeforeYear, daysBeforeYear]
  omega

/-- Corrected by one at most, the estimate is the year in which the day lies. -/
theorem yearOfDay_spec (n : Int) :
    daysBeforeYear (yearOfDay n) ≤ n ∧ n < daysBeforeYear (yearOfDay n + 1) := by
  obtain ⟨hLow, hHigh⟩ := daysBeforeYear_guess n
  rw [yearOfDay]
  split
  · rename_i hNext
    exact ⟨hNext, hHigh⟩
  · rename_i hNext
    exact ⟨hLow, by omega⟩

/-- Counting on through the months from `month` ends in one of them, at a day
that it has. The induction is on the months that are left, and the days counted
so far are part of the statement. -/
theorem monthAndDay_spec {lengths : List Nat} {daysGone : Nat} (month : Nat)
    (h : daysGone < lengths.sum) :
    ∃ before length after, lengths = before ++ length :: after ∧
      (monthAndDay month lengths daysGone).1 = month + before.length ∧
      (monthAndDay month lengths daysGone).2 ≤ length ∧
      before.sum + (monthAndDay month lengths daysGone).2 = daysGone + 1 ∧
      1 ≤ (monthAndDay month lengths daysGone).2 := by
  induction lengths generalizing month daysGone with
  | nil => simp at h
  | cons length rest ih =>
      rw [monthAndDay]
      split
      · rename_i hHere
        exact ⟨[], length, rest, rfl, rfl, hHere, by simp, by omega⟩
      · rename_i hLater
        -- the month is over: the days that are left count from the next one
        rw [List.sum_cons] at h
        have hFewer : daysGone - length < rest.sum := by omega
        obtain ⟨before, own, after, rfl, hMonth, hDay, hSum, hOne⟩ := ih (month + 1) hFewer
        refine ⟨length :: before, own, after, rfl, ?_, hDay, ?_, hOne⟩
        · rw [hMonth, List.length_cons]
          omega
        · rw [List.sum_cons]
          omega

/-- The day of the year has a month, which begins after the months before it. -/
theorem exists_ofDay_eq (n : Int) :
    ∃ before length after day, monthLengths (yearOfDay n) = before ++ length :: after ∧
      ofDay n = ⟨yearOfDay n, 1 + before.length, day⟩ ∧ 1 ≤ day ∧ day ≤ length ∧
      daysBeforeYear (yearOfDay n) + before.sum + day = n + 1 := by
  obtain ⟨hLow, hHigh⟩ := yearOfDay_spec n
  rw [daysBeforeYear_succ] at hHigh
  have hGone : (n - daysBeforeYear (yearOfDay n)).toNat < (monthLengths (yearOfDay n)).sum := by
    omega
  obtain ⟨before, length, after, hLengths, hMonth, hDay, hSum, hOne⟩ := monthAndDay_spec 1 hGone
  refine ⟨before, length, after, _, hLengths, ?_, hOne, hDay, by omega⟩
  rw [← hMonth]
  rfl

/-- The number of a day always leads to a date that exists. -/
theorem isValid_ofDay (n : Int) : (ofDay n).isValid = true := by
  obtain ⟨before, length, after, day, hLengths, hDate, hOne, hDay, -⟩ := exists_ofDay_eq n
  simp [isValid, hDate, hLengths, hOne, hDay]

/-- Counting up to the day with a given number gives the number, be it
negative. -/
theorem toDay_ofDay (n : Int) : (ofDay n).toDay = n := by
  obtain ⟨before, length, after, day, hLengths, hDate, -, -, hCount⟩ := exists_ofDay_eq n
  have hBefore : daysBeforeMonth (yearOfDay n) (1 + before.length) = before.sum := by
    simp [daysBeforeMonth, hLengths, List.sum_eq_foldr]
  rw [toDay, hDate]
  dsimp only
  omega

/-- No month has more than two digits, and neither has a day. -/
theorem month_lt_and_day_lt (n : Int) : (ofDay n).month < 100 ∧ (ofDay n).day < 100 := by
  obtain ⟨before, length, after, day, hLengths, hDate, -, hDay, -⟩ := exists_ofDay_eq n
  have hMonths : before.length < 12 := by
    have hLength := congrArg List.length hLengths
    simp only [monthLengths, List.length_append, List.length_cons, List.length_nil] at hLength
    omega
  have hLong : length ≤ 31 := by
    have hMem : length ∈ monthLengths (yearOfDay n) := by rw [hLengths]; simp
    have hAll : ∀ m ∈ monthLengths (yearOfDay n), m ≤ 31 := by
      cases hLeap : isLeap (yearOfDay n) with
      | false => simp [monthLengths, hLeap]
      | true => simp [monthLengths, hLeap]
    exact hAll length hMem
  rw [hDate]
  exact ⟨by dsimp only; omega, by dsimp only; omega⟩

end Date

theorem Text.isBlank_of_isDigit {c : Char} (h : c.isDigit = true) : isBlank c = false := by
  have hBounds := isDigit_bounds h
  simp only [isBlank, Bool.or_eq_false_iff, Bool.and_eq_false_iff, decide_eq_false_iff_not,
    beq_eq_false_iff_ne]
  omega

namespace Instant

section Digits

variable {width n : Nat}

/-- A number that fits is written with exactly the digits asked for. -/
theorem length_padded (hWidth : 0 < width) (h : n < 10 ^ width) :
    (padded width n).length = width := by
  have hLength := (Nat.length_toDigits_le_iff (b := 10) (by omega) hWidth).mpr h
  rw [padded, Nat.toList_repr]
  simp only [List.length_append, List.length_replicate]
  omega

theorem isDigit_of_mem_padded {c : Char} (h : c ∈ padded width n) : c.isDigit = true := by
  rw [padded, Nat.toList_repr] at h
  rcases List.mem_append.mp h with h | h
  · obtain ⟨-, rfl⟩ := List.mem_replicate.mp h
    rfl
  · exact Nat.isDigit_of_mem_toDigits (by omega) (by omega) h

/-- Zeros in front do not change the number. -/
theorem ofDigitChars_padded (width n : Nat) : Nat.ofDigitChars 10 (padded width n) 0 = n := by
  rw [padded, Nat.toList_repr, Nat.ofDigitChars_append, Nat.ofDigitChars_replicate_zero,
    Nat.mul_zero, Nat.ofDigitChars_ten_toDigits]

theorem exists_padded_eq_cons (width n : Nat) :
    ∃ d ds, padded width n = d :: ds ∧ d.isDigit = true := by
  have hNe : padded width n ≠ [] := by simp [padded, Nat.toList_repr]
  obtain ⟨d, ds, hCons⟩ := List.exists_cons_of_ne_nil hNe
  have hMem : d ∈ padded width n := by simp [hCons]
  exact ⟨d, ds, hCons, isDigit_of_mem_padded hMem⟩

/-- Digits are not passed over as blanks. -/
theorem trimStart_padded (width n : Nat) (rest : Text) :
    Text.trimStart (padded width n ++ rest) = padded width n ++ rest := by
  obtain ⟨d, ds, hCons, hDigit⟩ := exists_padded_eq_cons width n
  rw [hCons]
  exact Text.trimStart_cons_of_not_blank (Text.isBlank_of_isDigit hDigit) _

/-- Exactly these digits are read, whatever follows, be it another digit. -/
theorem digits?_padded (hWidth : 0 < width) (h : n < 10 ^ width) (rest : Text) :
    digits? width (padded width n ++ rest) = some (padded width n, rest) := by
  have hLength := length_padded hWidth h
  have hTake : ((padded width n ++ rest).take width).takeWhile Char.isDigit = padded width n := by
    rw [List.take_left' hLength, List.takeWhile_eq_self_iff]
    intro c hc
    exact isDigit_of_mem_padded hc
  have hDrop : (padded width n ++ rest).drop (padded width n).length = rest := List.drop_left
  obtain ⟨d, ds, hCons, -⟩ := exists_padded_eq_cons width n
  rw [digits?, trimStart_padded, hTake]
  simp only [hCons] at hDrop ⊢
  rw [hDrop]

/-- A number of two digits is read back, as in months, days and the parts of a
day. -/
theorem number?_padded (h : n < 100) (rest : Text) :
    number? (padded 2 n ++ rest) = some (n, rest) := by
  rw [number?, digits?_padded (by omega) h, Option.map_some]
  simp only [ofDigitChars_padded]

/-- A year of four digits is read back, without a sign. -/
theorem year?_padded (h : n < 10000) (rest : Text) :
    year? (padded 4 n ++ rest) = some ((n : Int), rest) := by
  have hDigits : digits? 4 (padded 4 n ++ rest) = some (padded 4 n, rest) :=
    digits?_padded (by omega) h rest
  obtain ⟨d, ds, hCons, hDigit⟩ := exists_padded_eq_cons 4 n
  rw [year?, trimStart_padded]
  dsimp only
  -- the first character is a digit, so there is no sign
  split
  · rename_i tail hMinus
    rw [hCons] at hMinus
    obtain ⟨rfl, -⟩ := List.cons.inj hMinus
    exact absurd hDigit (by decide)
  · rename_i tail hPlus
    rw [hCons] at hPlus
    obtain ⟨rfl, -⟩ := List.cons.inj hPlus
    exact absurd hDigit (by decide)
  · rw [hDigits, Option.map_some]
    simp only [ofDigitChars_padded]

end Digits

theorem mark?_cons {c : Char} (h : Text.isBlank c = false) (s : Text) :
    mark? c (c :: s) = some s := by
  rw [mark?, Text.trimStart_cons_of_not_blank h]
  exact Text.after?_eq_some_iff.mpr rfl

/-- Of a fraction with up to nine places none is lost. -/
theorem fraction?_padded {width n : Nat} (hWidth : 0 < width) (hNine : width ≤ 9)
    (h : n < 10 ^ width) :
    fraction? ('.' :: padded width n ++ ['Z']) = some (n * 10 ^ (9 - width), ['Z']) := by
  have hLength := length_padded hWidth h
  have hDigits : ∀ c ∈ padded width n, c.isDigit = true := fun _ => isDigit_of_mem_padded
  have hTake : (padded width n ++ ['Z']).takeWhile Char.isDigit = padded width n := by
    rw [List.takeWhile_append_of_pos hDigits, List.takeWhile_cons_of_neg (by decide),
      List.append_nil]
  have hDrop : (padded width n ++ ['Z']).dropWhile Char.isDigit = ['Z'] := by
    rw [List.dropWhile_append_of_pos hDigits, List.dropWhile_cons_of_neg (by decide)]
  have hNines : (padded width n).take 9 = padded width n := List.take_of_length_le (by omega)
  rw [List.cons_append, fraction?, hTake, hDrop]
  obtain ⟨d, ds, hCons, -⟩ := exists_padded_eq_cons width n
  split
  · rename_i hNil
    simp [hCons] at hNil
  · dsimp only
    rw [hNines, ofDigitChars_padded, hLength]
    rfl

/-- The fraction of a second is read back from three, six or nine places, and
from none if it is zero. -/
theorem fraction?_fractionText {nanos : Nat} (h : nanos < 1000000000) :
    fraction? (fractionText nanos ++ ['Z']) = some (nanos, ['Z']) := by
  rw [fractionText]
  split
  · rename_i hZero
    obtain rfl : nanos = 0 := by simpa using hZero
    rfl
  · split
    · rename_i hMillis
      have hExact : nanos / 1000000 * 10 ^ (9 - 3) = nanos := by
        have hMod : nanos % 1000000 = 0 := by simpa using hMillis
        omega
      rw [fraction?_padded (by omega) (by omega) (by omega), hExact]
    · split
      · rename_i hMicros
        have hExact : nanos / 1000 * 10 ^ (9 - 6) = nanos := by
          have hMod : nanos % 1000 = 0 := by simpa using hMicros
          omega
        rw [fraction?_padded (by omega) (by omega) (by omega), hExact]
      · rw [fraction?_padded (by omega) (by omega) (by omega)]
        simp

/-- The text of an instant within the years of four digits, component by
component. Other years are written with a sign. -/
theorem toText_eq {t : Instant} {year : Nat} (hYear : t.date.year = year) (hLate : year ≤ 9999)
    (hNanos : t.nanos < 1000000000) :
    t.toText = padded 4 year ++ '-' :: (padded 2 t.date.month ++ '-' ::
      (padded 2 t.date.day ++ 'T' :: (padded 2 (t.secondOfDay / 3600) ++ ':' ::
        (padded 2 (t.secondOfDay / 60 % 60) ++ ':' :: (padded 2 (t.secondOfDay % 60) ++
          (fractionText t.nanos ++ ['Z'])))))) := by
  have hNoLeap : ¬ 1000000000 ≤ t.nanos := by omega
  have hYearText : yearText t.date.year = padded 4 year := by
    simp [yearText, hYear, hLate]
  simp [toText, hYearText, hNoLeap]

/-- An instant is the second of its day on its date. -/
theorem seconds_eq (t : Instant) :
    (t.date.toDay - epochDay) * 86400 + (t.secondOfDay / 3600 : Nat) * 3600 +
      (t.secondOfDay / 60 % 60 : Nat) * 60 + (t.secondOfDay % 60 : Nat) = t.seconds := by
  rw [date, Date.toDay_ofDay, secondOfDay]
  omega

/-- An instant is read back from its text, with no loss below the second. -/
theorem ofText?_toText {t : Instant} (hYear : 0 ≤ t.date.year) (hLate : t.date.year ≤ 9999)
    (hNanos : t.nanos < 1000000000) : ofText? t.toText = some t := by
  obtain ⟨year, hNat⟩ := Int.eq_ofNat_of_zero_le hYear
  have hDigits : year < 10000 := by omega
  obtain ⟨hMonth, hDay⟩ : t.date.month < 100 ∧ t.date.day < 100 := Date.month_lt_and_day_lt _
  have hSecond : t.secondOfDay < 86400 := by
    rw [secondOfDay]
    omega
  have hDate : (⟨year, t.date.month, t.date.day⟩ : Date) = t.date := by rw [← hNat]
  have hValid : t.date.isValid = true := Date.isValid_ofDay _
  have hRange : yearInRange year = true := by
    simp only [yearInRange, Bool.and_eq_true, decide_eq_true_eq]
    omega
  have hSeparator : ∀ s, separator? ('T' :: s) = some s := fun _ => rfl
  have hOffset : offset? ['Z'] = some (0, []) := rfl
  have hMinute : t.secondOfDay / 60 % 60 < 60 := Nat.mod_lt _ (by omega)
  have hNoLeap : ¬ (t.secondOfDay % 60 == 60) = true := by
    rw [beq_iff_eq]
    omega
  rw [ofText?, toText_eq hNat (by omega) hNanos, year?_padded hDigits]
  dsimp only [Option.bind_eq_bind, Option.bind_some]
  -- the date, then the time of day and the offset
  rw [mark?_cons (c := '-') rfl, Option.bind_some, number?_padded hMonth, Option.bind_some,
    mark?_cons (c := '-') rfl, Option.bind_some, number?_padded hDay, Option.bind_some,
    hSeparator, Option.bind_some]
  dsimp only
  rw [number?_padded (by omega), Option.bind_some, mark?_cons (c := ':') rfl, Option.bind_some,
    number?_padded (by omega), Option.bind_some, mark?_cons (c := ':') rfl, Option.bind_some,
    number?_padded (by omega), Option.bind_some, fraction?_fractionText hNanos, Option.bind_some,
    hOffset, Option.bind_some]
  dsimp only
  rw [if_pos ?_, if_neg hNoLeap, Nat.sub_zero, Nat.zero_mul, Nat.add_zero, Int.sub_zero, hDate,
    t.seconds_eq]
  simp only [hDate, hValid, hRange, List.all_nil, Bool.and_eq_true, decide_eq_true_eq, and_true,
    true_and]
  omega

end Instant

end Drydock
