import Mathlib.Tactic.Linarith
import MarketRelay.Lib.Calendar

/-!
# Dates in ISO 8601

Year, month and day of a date, and its text `YYYY-MM-DD`. Reading accepts the calendar and
the week forms of ISO 8601, each with or without separators.

The conversion from day numbers divides by the lengths of the 400-, 100- and 4-year cycles
and of a year; the last day of a cycle overflows the division and is treated apart.

## Main results

* `Date.ofYmd?_ymd`: year, month and day determine the date.
* `Date.fromIsoformat?_isoformat`: a date is read back from its text.
* `Date.length_isoformat`, `Date.isoformat_injective`.
-/

namespace Gregorian

/-! ### Year, month, day -/

def isLeap (year : ℕ) : Bool :=
  decide (year % 4 = 0) && (decide (year % 100 ≠ 0) || decide (year % 400 = 0))

/-- The number of days before January 1st of a year. -/
def daysBeforeYear (year : ℕ) : ℕ :=
  (year - 1) * 365 + (year - 1) / 4 - (year - 1) / 100 + (year - 1) / 400

def daysInMonth (leap : Bool) : ℕ → ℕ
  | 2 => if leap then 29 else 28
  | 4 | 6 | 9 | 11 => 30
  | _ => 31

/-- The number of days of the year before the first of a month. -/
def daysBeforeMonth (leap : Bool) (month : ℕ) : ℕ :=
  ((List.range' 1 (month - 1)).map (daysInMonth leap)).sum

/-- The month and the day of day `n` of a year, counted from `0`: an estimate that is at
most one month too large. -/
def monthDay (leap : Bool) (n : ℕ) : ℕ × ℕ :=
  let month := (n + 50) / 32
  if n < daysBeforeMonth leap month then (month - 1, n - daysBeforeMonth leap (month - 1) + 1)
  else (month, n - daysBeforeMonth leap month + 1)

namespace Date

/-- The date of a year, month and day, when there is one. -/
def ofYmd? (year month day : ℕ) : Option Date :=
  if 1 ≤ year ∧ year ≤ 9999 ∧ 1 ≤ month ∧ month ≤ 12 ∧ 1 ≤ day ∧
      day ≤ daysInMonth (isLeap year) month then
    ofOrdinal? (daysBeforeYear year + daysBeforeMonth (isLeap year) month + day : ℕ)
  else none

/-- Year, month and day of a date. -/
def ymd (d : Date) : ℕ × ℕ × ℕ :=
  let n := d.ordinal - 1
  let n400 := n / 146097
  let n := n % 146097
  let n100 := n / 36524
  let n := n % 36524
  let n4 := n / 1461
  let n := n % 1461
  let n1 := n / 365
  let n := n % 365
  let year := n400 * 400 + 1 + (n100 * 100 + n4 * 4 + n1)
  if n1 = 4 ∨ n100 = 4 then (year - 1, 12, 31)
  else (year, monthDay (decide (n1 = 3) && (decide (n4 ≠ 24) || decide (n100 = 3))) n)

/-- Month and day of a day of the year. -/
private theorem monthDay_spec : ∀ (leap : Bool) (n : Fin 366), n.val < 365 + leap.toNat →
    1 ≤ (monthDay leap n).1 ∧ (monthDay leap n).1 ≤ 12 ∧ 1 ≤ (monthDay leap n).2 ∧
      (monthDay leap n).2 ≤ daysInMonth leap (monthDay leap n).1 ∧
      daysBeforeMonth leap (monthDay leap n).1 + (monthDay leap n).2 = n.val + 1 := by
  decide +kernel

private theorem ofYmd?_of_eq {year month day : ℕ} {leap : Bool} {d : Date}
    (hyear : 1 ≤ year ∧ year ≤ 9999) (hleap : isLeap year = leap)
    (hmonth : 1 ≤ month ∧ month ≤ 12) (hday : 1 ≤ day ∧ day ≤ daysInMonth leap month)
    (hn : daysBeforeYear year + (daysBeforeMonth leap month + day) = d.ordinal) :
    ofYmd? year month day = some d := by
  subst hleap
  rw [ofYmd?, if_pos ⟨hyear.1, hyear.2, hmonth.1, hmonth.2, hday.1, hday.2⟩,
    ofOrdinal?_eq_some_iff]
  omega

/-- The years of a 400-year cycle: which are leap years, and where they start. -/
private theorem year_cycle {a b c e : ℕ} (hb : b ≤ 3) (hc : c ≤ 24) (he : e ≤ 3) :
    isLeap (a * 400 + 1 + (b * 100 + c * 4 + e)) =
        (decide (e = 3) && (decide (c ≠ 24) || decide (b = 3))) ∧
      daysBeforeYear (a * 400 + 1 + (b * 100 + c * 4 + e)) =
        a * 146097 + b * 36524 + c * 1461 + e * 365 := by
  obtain ⟨y, hy⟩ : ∃ y, y = a * 400 + (b * 100 + c * 4 + e) := ⟨_, rfl⟩
  rw [show a * 400 + 1 + (b * 100 + c * 4 + e) = y + 1 by omega]
  have h4 : y / 4 = a * 100 + b * 25 + c := by omega
  have h100 : y / 100 = a * 4 + b := by omega
  have h400 : y / 400 = a := by omega
  refine ⟨?_, ?_⟩
  · rw [Bool.eq_iff_iff]
    simp only [isLeap, Bool.and_eq_true, Bool.or_eq_true, decide_eq_true_eq]
    omega
  · rw [daysBeforeYear, Nat.add_sub_cancel, h4, h100, h400]
    omega

/-- The last year of a 4-year cycle, and that of a 400-year cycle, have one day more. -/
private theorem year_overflow {a b c e : ℕ} (h : (b ≤ 3 ∧ c ≤ 23 ∧ e = 4) ∨ (b = 4 ∧ c = 0 ∧ e = 0)) :
    isLeap (a * 400 + 1 + (b * 100 + c * 4 + e) - 1) = true ∧
      daysBeforeYear (a * 400 + 1 + (b * 100 + c * 4 + e) - 1) + 366 =
        a * 146097 + b * 36524 + c * 1461 + e * 365 + 1 := by
  obtain ⟨y, hy⟩ : ∃ y, y + 1 = a * 400 + (b * 100 + c * 4 + e) :=
    ⟨a * 400 + (b * 100 + c * 4 + e) - 1, by omega⟩
  rw [show a * 400 + 1 + (b * 100 + c * 4 + e) - 1 = y + 1 by omega]
  refine ⟨?_, ?_⟩
  · simp only [isLeap, Bool.and_eq_true, Bool.or_eq_true, decide_eq_true_eq]
    omega
  · rw [daysBeforeYear, Nat.add_sub_cancel]
    rcases h with ⟨hb, hc, rfl⟩ | ⟨rfl, rfl, rfl⟩
    · have h4 : y / 4 = a * 100 + b * 25 + c := by omega
      have h100 : y / 100 = a * 4 + b := by omega
      have h400 : y / 400 = a := by omega
      omega
    · have h4 : y / 4 = a * 100 + 99 := by omega
      have h100 : y / 100 = a * 4 + 3 := by omega
      have h400 : y / 400 = a := by omega
      omega

/-- **Year, month and day determine the date.** -/
theorem ofYmd?_ymd (d : Date) : ofYmd? d.ymd.1 d.ymd.2.1 d.ymd.2.2 = some d := by
  have h1 := d.one_le
  have h2 : d.ordinal ≤ 3652059 := d.le_max
  obtain ⟨n, hn⟩ : ∃ n, d.ordinal = n + 1 := ⟨d.ordinal - 1, by omega⟩
  rw [ymd, hn, Nat.add_sub_cancel]
  -- The digits of `n` in the mixed radix of the cycles.
  obtain ⟨a, ha⟩ : ∃ a, a = n / 146097 := ⟨_, rfl⟩
  obtain ⟨b, hb⟩ : ∃ b, b = n % 146097 / 36524 := ⟨_, rfl⟩
  obtain ⟨c, hc⟩ : ∃ c, c = n % 146097 % 36524 / 1461 := ⟨_, rfl⟩
  obtain ⟨e, he⟩ : ∃ e, e = n % 146097 % 36524 % 1461 / 365 := ⟨_, rfl⟩
  obtain ⟨r, hr⟩ : ∃ r, r = n % 146097 % 36524 % 1461 % 365 := ⟨_, rfl⟩
  have hsum : n = a * 146097 + b * 36524 + c * 1461 + e * 365 + r := by omega
  simp only [← ha, ← hb, ← hc, ← he, ← hr]
  split
  · rename_i h
    have hcase : (b ≤ 3 ∧ c ≤ 23 ∧ e = 4) ∨ (b = 4 ∧ c = 0 ∧ e = 0) := by omega
    obtain ⟨hleap, hdays⟩ := year_overflow (a := a) hcase
    refine ofYmd?_of_eq (by omega) hleap ⟨by simp, by simp⟩ ⟨by simp, by simp [daysInMonth]⟩ ?_
    have hmonth : daysBeforeMonth true 12 + 31 = 366 := by decide
    rw [hmonth, hdays]
    omega
  · rename_i h
    obtain ⟨hleap, hdays⟩ := year_cycle (a := a) (b := b) (c := c) (e := e)
      (by omega) (by omega) (by omega)
    have hlt : r < 365 + (decide (e = 3) && (decide (c ≠ 24) || decide (b = 3))).toNat := by
      omega
    obtain ⟨hm1, hm2, hd1, hd2, hday⟩ := monthDay_spec _ ⟨r, by omega⟩ hlt
    refine ofYmd?_of_eq (by omega) hleap ⟨hm1, hm2⟩ ⟨hd1, hd2⟩ ?_
    simp only at hday
    rw [hday, hdays]
    omega

/-- Year, month and day are in range. -/
theorem ymd_bounds (d : Date) : d.ymd.1 ≤ 9999 ∧ d.ymd.2.1 ≤ 12 ∧ d.ymd.2.2 ≤ 31 := by
  have hmonth : ∀ leap m, daysInMonth leap m ≤ 31 := by
    intro leap m
    unfold daysInMonth
    split
    · split <;> omega
    all_goals omega
  have h := d.ofYmd?_ymd
  rw [ofYmd?] at h
  split at h
  · rename_i hb
    exact ⟨hb.2.1, hb.2.2.2.1, hb.2.2.2.2.2.trans (hmonth _ _)⟩
  · exact absurd h (by simp)

end Date

/-! ### Texts -/

/-- The decimal digit of a number below ten. -/
def digit (n : ℕ) : Char := Char.ofNat (48 + n % 10)

def twoDigits (n : ℕ) : List Char := [digit (n / 10), digit n]

def fourDigits (n : ℕ) : List Char := twoDigits (n / 100) ++ twoDigits n

/-- Read a number of exactly `k` decimal digits. -/
def parseDigits : (k : ℕ) → List Char → Option (ℕ × List Char)
  | 0, cs => some (0, cs)
  | k + 1, c :: cs =>
    if '0' ≤ c ∧ c ≤ '9' then
      (parseDigits k cs).map fun r => ((c.toNat - 48) * 10 ^ k + r.1, r.2)
    else none
  | _ + 1, [] => none

/-- Read a separator, when the text uses separators. -/
def parseSeparator (uses : Bool) : List Char → Option (List Char)
  | c :: cs => if uses then (if c = '-' then some cs else none) else some (c :: cs)
  | [] => if uses then none else some []

namespace Date

/-- The Monday of the first ISO week of a year, as a day number. -/
def isoWeek1Monday (year : ℕ) : ℤ :=
  let first : ℤ := daysBeforeYear year + 1
  let weekday := (first + 6) % 7
  if 3 < weekday then first - weekday + 7 else first - weekday

/-- The date of an ISO year, week and day of the week. -/
def ofIsoWeek? (year week day : ℕ) : Option Date :=
  let weekday := (daysBeforeYear year + 1 + 6) % 7
  if 1 ≤ year ∧ 1 ≤ day ∧ day ≤ 7 ∧ 1 ≤ week ∧
      (week ≤ 52 ∨ week = 53 ∧ (weekday = 3 ∨ weekday = 2 ∧ isLeap year)) then
    ofOrdinal? (isoWeek1Monday year + (week - 1) * 7 + day - 1)
  else none

/-- `date.isoformat` -/
def isoformat (d : Date) : String :=
  String.ofList (fourDigits d.ymd.1 ++ '-' :: twoDigits d.ymd.2.1 ++ '-' :: twoDigits d.ymd.2.2)

/-- `date.fromisoformat`: `YYYY-MM-DD`, `YYYYMMDD`, `YYYY-Www`, `YYYY-Www-D` and the forms
without separators, as documented. The whole text has one of these forms: a text that goes on after
them is refused, also where an implementation ignores what follows the eighth character. -/
def fromIsoformat? (s : String) : Option Date := do
  let (year, cs) ← parseDigits 4 s.toList
  let uses := decide (cs.head? = some '-')
  let cs ← parseSeparator uses cs
  match cs with
  | 'W' :: cs =>
    let (week, cs) ← parseDigits 2 cs
    if cs = [] then
      ofIsoWeek? year week 1
    else
      let cs ← parseSeparator uses cs
      let (day, cs) ← parseDigits 1 cs
      if cs = [] then ofIsoWeek? year week day else none
  | cs =>
    let (month, cs) ← parseDigits 2 cs
    let cs ← parseSeparator uses cs
    let (day, cs) ← parseDigits 2 cs
    if cs = [] then ofYmd? year month day else none

/-! ### Reading a text back -/

private theorem digit_spec (n : ℕ) :
    '0' ≤ digit n ∧ digit n ≤ '9' ∧ (digit n).toNat - 48 = n % 10 := by
  have hsmall : ∀ m : Fin 10, '0' ≤ Char.ofNat (48 + m) ∧ Char.ofNat (48 + m) ≤ '9' ∧
      (Char.ofNat (48 + m)).toNat - 48 = m := by decide
  exact hsmall ⟨n % 10, Nat.mod_lt n (by omega)⟩

theorem parseDigits_digit (k n : ℕ) (cs : List Char) :
    parseDigits (k + 1) (digit n :: cs) =
      (parseDigits k cs).map fun r => (n % 10 * 10 ^ k + r.1, r.2) := by
  obtain ⟨h0, h9, hval⟩ := digit_spec n
  rw [parseDigits, if_pos ⟨h0, h9⟩, hval]

private theorem parseDigits_twoDigits_mod (n : ℕ) (cs : List Char) :
    parseDigits 2 (twoDigits n ++ cs) = some (n % 100, cs) := by
  change parseDigits (1 + 1) (digit (n / 10) :: digit n :: cs) = _
  rw [parseDigits_digit, ← Nat.zero_add 1, parseDigits_digit]
  simp only [parseDigits, Option.map_some, Option.some.injEq, Prod.mk.injEq, and_true]
  omega

theorem parseDigits_twoDigits {n : ℕ} (h : n ≤ 99) (cs : List Char) :
    parseDigits 2 (twoDigits n ++ cs) = some (n, cs) := by
  rw [parseDigits_twoDigits_mod, Nat.mod_eq_of_lt (by omega)]

theorem parseDigits_fourDigits {n : ℕ} (h : n ≤ 9999) (cs : List Char) :
    parseDigits 4 (fourDigits n ++ cs) = some (n, cs) := by
  rw [fourDigits, List.append_assoc]
  change parseDigits (3 + 1) (digit (n / 100 / 10) :: digit (n / 100) :: (twoDigits n ++ cs)) = _
  rw [parseDigits_digit, show 3 = 2 + 1 from rfl, parseDigits_digit, parseDigits_twoDigits_mod]
  simp only [Option.map_some, Option.some.injEq, Prod.mk.injEq, and_true]
  omega

/-- **A date is read back from its text.** -/
theorem fromIsoformat?_isoformat (d : Date) : fromIsoformat? d.isoformat = some d := by
  obtain ⟨hy, hm, hd⟩ := d.ymd_bounds
  have hW : digit (d.ymd.2.1 / 10) ≠ 'W' := by
    obtain ⟨-, h9, -⟩ := digit_spec (d.ymd.2.1 / 10)
    intro h
    rw [h] at h9
    exact absurd h9 (by decide)
  have hmonth : twoDigits d.ymd.2.1 = digit (d.ymd.2.1 / 10) :: [digit d.ymd.2.1] := rfl
  simp only [fromIsoformat?, isoformat, String.toList_ofList, List.append_assoc, List.cons_append,
    parseDigits_fourDigits hy, Option.bind_eq_bind, Option.bind_some, List.head?_cons,
    decide_true, parseSeparator, if_true]
  rw [hmonth]
  simp only [List.cons_append, List.nil_append]
  split
  · rename_i heq
    injection heq with h _
    exact absurd h hW
  · have hread := parseDigits_twoDigits (n := d.ymd.2.1) (by omega) ('-' :: twoDigits d.ymd.2.2)
    rw [hmonth] at hread
    simp only [List.cons_append, List.nil_append] at hread
    rw [hread]
    have hday := parseDigits_twoDigits (n := d.ymd.2.2) (by omega) []
    rw [List.append_nil] at hday
    simp only [Option.bind_some, if_true, hday]
    exact d.ofYmd?_ymd

theorem isoformat_injective : Function.Injective isoformat := by
  intro d e h
  have := congrArg fromIsoformat? h
  rw [fromIsoformat?_isoformat, fromIsoformat?_isoformat] at this
  exact Option.some.inj this

/-- Every text has ten characters. -/
theorem length_isoformat (d : Date) : d.isoformat.toList.length = 10 := by
  simp [isoformat, fourDigits, twoDigits]

/-- It consists of digits and hyphens. -/
theorem mem_isoformat {d : Date} {c : Char} (h : c ∈ d.isoformat.toList) :
    c = '-' ∨ '0' ≤ c ∧ c ≤ '9' := by
  have hdigit : ∀ n, '0' ≤ digit n ∧ digit n ≤ '9' := fun n =>
    ⟨(digit_spec n).1, (digit_spec n).2.1⟩
  simp only [isoformat, fourDigits, twoDigits, String.toList_ofList, List.mem_append, List.mem_cons,
    List.not_mem_nil, or_false] at h
  rcases h with (((rfl | rfl) | rfl | rfl) | rfl | rfl | rfl) | rfl | rfl | rfl
  all_goals first | exact Or.inl rfl | exact Or.inr (hdigit _)

example : (Date.mk 739267 (by decide) (by decide)).isoformat = "2025-01-16" := by decide +kernel

end Date

end Gregorian
