import GoCluster.Lib.Strconv
import GoCluster.Lib.Time
/-!
# Dates

The days of the proleptic Gregorian calendar, counted from 1 January of year 1,
and the layout `02-Jan-2006 1504Z` that `Format` writes and `Parse` reads.
-/

open List

namespace Golib

/-! ## Days -/

def isLeap (year : Int) : Bool := year % 4 = 0 && (year % 100 ≠ 0 || year % 400 = 0)

/-- Days of a common year before each month, counted from 0. -/
def daysBefore (month : Nat) : Nat := [0, 31, 59, 90, 120, 151, 181, 212, 243, 273, 304, 334, 365].getD month 0

/-- Months are counted from 1. -/
def daysIn (leap : Bool) (month : Nat) : Nat :=
  if month = 2 ∧ leap then 29 else daysBefore month - daysBefore (month - 1)

/-- The day of the year, from 0. -/
def yearDay (leap : Bool) (month day : Nat) : Nat :=
  daysBefore (month - 1) + (if leap ∧ 2 < month then 1 else 0) + day - 1

def daysBeforeYear (year : Int) : Int :=
  let y := year - 1
  365 * y + y / 4 - y / 100 + y / 400

def dayNumber (year : Int) (month day : Nat) : Int := daysBeforeYear year + yearDay (isLeap year) month day

structure Civil where
  year : Int
  month : Nat
  day : Nat
deriving DecidableEq, Repr

/-- The year of a day and the day in it: cycles of 400, 100, 4 and 1 years are cut off in turn. The last of the four
centuries and of the four years is a day longer. -/
def yearAndDay (n : Int) : Int × Nat :=
  let n400 := n / 146097
  let d := n - 146097 * n400
  let n100 := min (d / 36524) 3
  let d := d - 36524 * n100
  let n4 := d / 1461
  let d := d - 1461 * n4
  let n1 := min (d / 365) 3
  let d := d - 365 * n1
  (400 * n400 + 100 * n100 + 4 * n4 + n1 + 1, d.toNat)

def monthAndDay (leap : Bool) (d : Nat) : Nat × Nat :=
  if leap ∧ d = 59 then (2, 29)
  else
    -- After the leap day; pretend it was not there.
    let d := if leap ∧ 59 < d then d - 1 else d
    let month := d / 31
    if daysBefore (month + 1) ≤ d then (month + 2, d - daysBefore (month + 1) + 1)
    else (month + 1, d - daysBefore month + 1)

def civil (n : Int) : Civil :=
  let (year, d) := yearAndDay n
  let (month, day) := monthAndDay (isLeap year) d
  ⟨year, month, day⟩

/-- A date that exists. -/
structure Civil.Valid (c : Civil) : Prop where
  month_pos : 1 ≤ c.month
  month_le : c.month ≤ 12
  day_pos : 1 ≤ c.day
  day_le : c.day ≤ daysIn (isLeap c.year) c.month

theorem daysIn_le : ∀ leap, ∀ month ≤ 12, daysIn leap month ≤ 31 := by decide

theorem monthAndDay_table : ∀ leap, ∀ month < 13, ∀ day < 32, 1 ≤ month ∧ 1 ≤ day ∧ day ≤ daysIn leap month →
    monthAndDay leap (yearDay leap month day) = (month, day) ∧ yearDay leap month day < if leap then 366 else 365 := by
  decide +kernel

variable {c : Civil} {s : Str} {n hour minute : Nat}

theorem monthAndDay_yearDay (h : c.Valid) :
    monthAndDay (isLeap c.year) (yearDay (isLeap c.year) c.month c.day) = (c.month, c.day) ∧
      yearDay (isLeap c.year) c.month c.day < if isLeap c.year then 366 else 365 :=
  have hd := h.day_le.trans (daysIn_le _ _ h.month_le)
  monthAndDay_table _ _ (Nat.lt_succ_of_le h.month_le) _ (Nat.lt_succ_of_le hd) ⟨h.month_pos, h.day_pos, h.day_le⟩

theorem yearAndDay_daysBeforeYear {year : Int} {d : Nat} (h : d < if isLeap year then 366 else 365) :
    yearAndDay (daysBeforeYear year + d) = (year, d) := by
  -- The year before is the `e`th of the `c`th four years of the `b`th century of cycle `a`.
  obtain ⟨a, b, c, e, hy, hb, hc, he⟩ : ∃ a b c e : Int, year = 400 * a + 100 * b + 4 * c + e + 1 ∧
      (0 ≤ b ∧ b ≤ 3) ∧ (0 ≤ c ∧ c ≤ 24) ∧ 0 ≤ e ∧ e ≤ 3 :=
    ⟨(year - 1) / 400, (year - 1) % 400 / 100, (year - 1) % 100 / 4,
      (year - 1) % 4, by omega, by omega, by omega, by omega⟩
  have hd : (d : Int) < 365 ∨ (d = 365 ∧ e = 3 ∧ (c = 24 → b = 3)) := by
    split at h
    · rename_i hl
      simp only [isLeap, Bool.and_eq_true, Bool.or_eq_true, decide_eq_true_eq] at hl
      omega
    · omega
  have hn : daysBeforeYear year + d = 146097 * a + (36524 * b + (1461 * c + (365 * e + d))) := by
    simp only [daysBeforeYear]
    omega
  have h400 : (146097 * a + (36524 * b + (1461 * c + (365 * e + d)))) / 146097 = a := by omega
  have h100 : min ((36524 * b + (1461 * c + (365 * e + (d : Int)))) / 36524) 3 = b := by omega
  have h4 : (1461 * c + (365 * e + (d : Int))) / 1461 = c := by omega
  have h1 : min ((365 * e + (d : Int)) / 365) 3 = e := by omega
  unfold yearAndDay
  simp only [hn, h400, add_sub_cancel_left, h100, h4, h1, Int.toNat_natCast, ← hy]

theorem civil_dayNumber (h : c.Valid) : civil (dayNumber c.year c.month c.day) = c := by
  obtain ⟨hm, hlt⟩ := monthAndDay_yearDay h
  simp only [civil, dayNumber, yearAndDay_daysBeforeYear hlt, hm]

theorem yearDay_table : ∀ leap, ∀ d < 366, (leap = false → d < 365) →
    yearDay leap (monthAndDay leap d).1 (monthAndDay leap d).2 = d := by
  decide +kernel

theorem exists_year (n : Int) :
    ∃ (year : Int) (d : Nat), n = daysBeforeYear year + d ∧ d < if isLeap year then 366 else 365 := by
  obtain ⟨a, b, c, e, d, hn, hb, hc, he, hd⟩ : ∃ (a b c e : Int) (d : Nat),
      n = 146097 * a + (36524 * b + (1461 * c + (365 * e + d))) ∧ (0 ≤ b ∧ b ≤ 3) ∧ (0 ≤ c ∧ c ≤ 24) ∧
      (0 ≤ e ∧ e ≤ 3) ∧ (d < 365 ∨ (d = 365 ∧ e = 3 ∧ (c = 24 → b = 3))) := by
    obtain ⟨r, hr⟩ : ∃ r, r = n % 146097 := ⟨_, rfl⟩
    obtain ⟨b, hb⟩ : ∃ b, b = min (r / 36524) 3 := ⟨_, rfl⟩
    obtain ⟨q, hq⟩ : ∃ q, q = r - 36524 * b := ⟨_, rfl⟩
    obtain ⟨e, he⟩ : ∃ e, e = min (q % 1461 / 365) 3 := ⟨_, rfl⟩
    exact ⟨n / 146097, b, q / 1461, e, (q % 1461 - 365 * e).toNat, by omega, by omega, by omega, by omega, by omega⟩
  refine ⟨400 * a + 100 * b + 4 * c + e + 1, d, ?_, ?_⟩
  · have h4 : (400 * a + 100 * b + 4 * c + e) / 4 = 100 * a + 25 * b + c := by omega
    have h100 : (400 * a + 100 * b + 4 * c + e) / 100 = 4 * a + b := by omega
    have h400 : (400 * a + 100 * b + 4 * c + e) / 400 = a := by omega
    simp only [daysBeforeYear, add_sub_cancel_right, h400]
    omega
  · split
    · omega
    · rename_i hl
      simp only [isLeap, Bool.and_eq_true, Bool.or_eq_true, decide_eq_true_eq] at hl
      omega

theorem dayNumber_civil (n : Int) : dayNumber (civil n).year (civil n).month (civil n).day = n := by
  obtain ⟨year, d, rfl, hd⟩ := exists_year n
  have ht : yearDay (isLeap year) (monthAndDay (isLeap year) d).1 (monthAndDay (isLeap year) d).2 = d := by
    apply yearDay_table
    · split at hd <;> omega
    · intro hl
      rw [hl] at hd
      exact hd
  simp only [civil, yearAndDay_daysBeforeYear hd, dayNumber, ht]

/-! ## `02-Jan-2006 1504Z` -/

def shortMonthNames : List Str :=
  ["Jan", "Feb", "Mar", "Apr", "May", "Jun", "Jul", "Aug", "Sep", "Oct", "Nov", "Dec"]

/-- `appendInt`: the number with zeros in front. -/
def appendInt (n : Int) (width : Nat) : Str :=
  let digits := itoaNat n.natAbs
  (if n < 0 then [45] else []) ++ List.replicate (width - digits.length) 48 ++ digits

/-- `time.Date` in UTC. -/
def date (c : Civil) (hour minute : Nat) : Int :=
  seconds (dayNumber c.year c.month c.day * 86400 + hour * 3600 + minute * 60)

/-- The seconds of a time since midnight. -/
def daySeconds (t : Int) : Int := t / 1000000000 % 86400

def civilOf (t : Int) : Civil := civil (t / 1000000000 / 86400)

/-- `Format("02-Jan-2006")`. -/
def formatDate (t : Int) : Str :=
  let c := civilOf t
  appendInt c.day 2 ++ [45] ++ shortMonthNames.getD (c.month - 1) [] ++ [45] ++ appendInt c.year 4

/-- `Format("1504Z")`. -/
def formatClock (t : Int) : Str :=
  appendInt (daySeconds t / 3600) 2 ++ appendInt (daySeconds t % 3600 / 60) 2 ++ [90]

/-- `getnum`: one or two digits, or two if `fixed`. -/
def getnum (fixed : Bool) : Str → Option (Nat × Str)
  | a :: b :: s =>
    if !isDigitByte a then none
    else if isDigitByte b then some (10 * digitValue a + digitValue b, s)
    else if fixed then none
    else some (digitValue a, b :: s)
  | [a] => if !isDigitByte a || fixed then none else some (digitValue a, [])
  | [] => none

/-- `lookup` in the names of the months: which one, from 1, and what follows. -/
def lookupMonth (s : Str) : Option (Nat × Str) :=
  (shortMonthNames.findIdx? fun name => (s.take 3).map lowerByte = name.map lowerByte).map fun i => (i + 1, s.drop 3)

def skipByte (b : UInt8) : Str → Option Str
  | a :: s => if a = b then some s else none
  | [] => none

/-- A space in the layout stands for any number of them. -/
def skipSpaces (s : Str) : Option Str :=
  if s.head?.any (· ≠ 32) then none else some (s.dropWhile (· = 32))

def getYear (s : Str) : Option (Int × Str) :=
  if s.length < 4 || !(s.take 4).all isDigitByte then none else some (digitsValue (s.take 4), s.drop 4)

/-- `ParseInLocation` with this layout, in UTC. -/
def parseDateTime (s : Str) : Option Int := do
  let (day, s) ← getnum true s
  let s ← skipByte 45 s
  let (month, s) ← lookupMonth s
  let s ← skipByte 45 s
  let (year, s) ← getYear s
  let s ← skipSpaces s
  let (hour, s) ← getnum false s
  guard (hour < 24)
  let (minute, s) ← getnum true s
  guard (minute < 60)
  let s ← skipByte 90 s
  guard (s = [])
  guard (1 ≤ day ∧ day ≤ daysIn (isLeap year) month)
  return date ⟨year, month, day⟩ hour minute

theorem isWord_appendInt (n : Int) (width : Nat) : IsWord (appendInt n width) := by
  unfold appendInt
  apply IsWord.append _ (isWord_itoaNat _)
  apply IsWord.append
  · split
    · exact isWord_of_all rfl
    · exact isWord_nil
  · intro b hb
    rw [eq_of_mem_replicate hb]
    decide

theorem isWord_monthName (i : Nat) : IsWord (shortMonthNames.getD i []) := by
  have ha : ∀ name ∈ shortMonthNames, name.all isWordByte := all_eq_true.1 rfl
  rw [getD_eq_getElem?_getD]
  cases hi : shortMonthNames[i]? with
  | none => exact isWord_nil
  | some name => exact isWord_of_all (ha name (mem_of_getElem? hi))

theorem isWord_formatDate (t : Int) : IsWord (formatDate t) := by
  have hd : IsWord [45] := isWord_of_all rfl
  exact ((((isWord_appendInt _ _).append hd).append (isWord_monthName _)).append hd).append (isWord_appendInt _ _)

theorem isWord_formatClock (t : Int) : IsWord (formatClock t) :=
  ((isWord_appendInt _ _).append (isWord_appendInt _ _)).append (isWord_of_all rfl)

/-! ## Reading back -/

theorem digitValue_lt {b : UInt8} (h : isDigitByte b) : digitValue b < 10 := by
  simp only [isDigitByte, Bool.and_eq_true, decide_eq_true_eq] at h
  have : b.toNat ≤ 57 := h.2
  unfold digitValue
  omega

theorem digitsValue_lt (h : s.all isDigitByte) : digitsValue s < 10 ^ s.length := by
  induction s using reverseRecOn with
  | nil => decide
  | append_singleton s b ih =>
    simp only [all_append, all_cons, all_nil, Bool.and_true, Bool.and_eq_true] at h
    have := ih h.1
    have := digitValue_lt h.2
    rw [digitsValue_append, length_append, length_singleton]
    omega

theorem lt_of_getYear {s' : Str} {year : Int} (h : getYear s = some (year, s')) : 0 ≤ year ∧ year < 10000 := by
  unfold getYear at h
  split at h
  · cases h
  · rename_i hs
    simp only [Bool.or_eq_true, Bool.not_eq_true', decide_eq_true_eq, not_or, not_lt, Bool.not_eq_false] at hs
    cases h
    have := digitsValue_lt hs.2
    rw [length_take, min_eq_left hs.1] at this
    omega

theorem month_of_lookupMonth {s' : Str} {month : Nat} (h : lookupMonth s = some (month, s')) :
    1 ≤ month ∧ month ≤ 12 := by
  obtain ⟨i, hi, heq⟩ := Option.map_eq_some_iff.1 h
  cases heq
  have := (findIdx?_eq_some_iff_findIdx_eq.1 hi).1
  simp only [shortMonthNames, length_cons, length_nil] at this
  omega

theorem of_guard {p : Prop} [Decidable p] {u : Unit} (h : (guard p : Option Unit) = some u) : p := by
  by_contra hp
  simp [hp] at h

theorem parseDateTime_some {t : Int} (h : parseDateTime s = some t) :
    ∃ (c : Civil) (hour minute : Nat), c.Valid ∧ (0 ≤ c.year ∧ c.year < 10000) ∧ hour < 24 ∧ minute < 60 ∧
      t = date c hour minute := by
  simp only [parseDateTime, Option.bind_eq_bind, Option.bind_eq_some_iff, Prod.exists, Option.pure_def,
    Option.some.injEq] at h
  obtain ⟨day, _, -, _, -, month, _, hmo, _, -, year, _, hy, _, -, hour, _, -, _, hh, minute, _, -, _, hmi, _,
    -, _, -, _, hda, rfl⟩ := h
  have hm := month_of_lookupMonth hmo
  have hd := of_guard hda
  exact ⟨⟨year, month, day⟩, hour, minute, ⟨hm.1, hm.2, hd.1, hd.2⟩, lt_of_getYear hy, of_guard hh, of_guard hmi, rfl⟩

theorem appendInt_two : ∀ n < 100, appendInt ((n : Nat) : Int) 2 =
    [UInt8.ofNat (48 + n / 10), UInt8.ofNat (48 + n % 10)] := by
  decide +kernel

theorem getnum_appendInt (h : n < 100) (fixed : Bool) (s : Str) : getnum fixed (appendInt n 2 ++ s) = some (n, s) := by
  have ha := digitByte (show n / 10 < 10 by omega)
  have hb := digitByte (show n % 10 < 10 by omega)
  rw [appendInt_two n h]
  simp only [cons_append, getnum, ha, hb, Bool.not_true, Bool.false_eq_true, if_false, if_true]
  congr 2
  omega

theorem digitsValue_replicate (k : Nat) (s : Str) : digitsValue (replicate k 48 ++ s) = digitsValue s := by
  induction k with
  | zero => rfl
  | succ k ih =>
    rw [replicate_succ, ← ih]
    simp [digitsValue, digitValue]

theorem appendInt_four (h : n < 10000) :
    (appendInt n 4).length = 4 ∧ (∀ b ∈ appendInt n 4, isDigitByte b) ∧ digitsValue (appendInt n 4) = n := by
  have hl : (itoaNat n).length ≤ 4 := by
    unfold itoaNat
    split
    · decide
    · rw [length_reverse, length_map]
      exact (Nat.digits_length_le_iff (by decide) n).2 h
  have heq : appendInt n 4 = replicate (4 - (itoaNat n).length) 48 ++ itoaNat n := by simp [appendInt]
  refine ⟨?_, ?_, ?_⟩
  · rw [heq, length_append, length_replicate]
    omega
  · intro b hb
    rcases mem_append.1 hb with hb | hb
    · rw [eq_of_mem_replicate hb]
      decide
    · exact itoaNat_digits n b hb
  · rw [heq, digitsValue_replicate, digitsValue_itoaNat]

theorem getYear_appendInt (h : n < 10000) (s : Str) : getYear (appendInt n 4 ++ s) = some ((n : Int), s) := by
  obtain ⟨hl, hd, hv⟩ := appendInt_four h
  have ht : (appendInt n 4 ++ s).take 4 = appendInt n 4 := take_left' hl
  have hdr : (appendInt n 4 ++ s).drop 4 = s := drop_left' hl
  have ha : (appendInt n 4).all isDigitByte := by simpa using hd
  simp [getYear, ha, hv, hl]

theorem lookupMonth_name {month : Nat} (h1 : 1 ≤ month) (h2 : month ≤ 12) (s : Str) :
    lookupMonth (shortMonthNames.getD (month - 1) [] ++ s) = some (month, s) := by
  interval_cases month <;> rfl

theorem civilOf_date (h : c.Valid) (hh : hour < 24) (hm : minute < 60) : civilOf (date c hour minute) = c := by
  have : date c hour minute / 1000000000 / 86400 = dayNumber c.year c.month c.day := by
    unfold date seconds
    omega
  rw [civilOf, this, civil_dayNumber h]

theorem daySeconds_date (c : Civil) (hh : hour < 24) (hm : minute < 60) :
    daySeconds (date c hour minute) / 3600 = (hour : Nat) ∧ daySeconds (date c hour minute) % 3600 / 60 =
    (minute : Nat) := by
  unfold daySeconds date seconds
  omega

theorem parseDateTime_format (h : c.Valid) (hy : 0 ≤ c.year ∧ c.year < 10000) (hh : hour < 24) (hm : minute < 60) :
    parseDateTime (formatDate (date c hour minute) ++ [32] ++ formatClock (date c hour minute)) =
      some (date c hour minute) := by
  obtain ⟨hse, hmi⟩ := daySeconds_date c hh hm
  obtain ⟨year, month, day⟩ := c
  obtain ⟨year, rfl⟩ := Int.eq_ofNat_of_zero_le hy.1
  have hd : day < 100 := by
    have := h.day_le.trans (daysIn_le _ _ h.month_le)
    dsimp only at this
    omega
  have hsk : ∀ (b : UInt8) (s : Str), skipByte b (b :: s) = some s := by simp [skipByte]
  have hs : ∀ s : Str, skipSpaces (32 :: (appendInt hour 2 ++ s)) = some (appendInt hour 2 ++ s) := by
    intro s
    have hne : UInt8.ofNat (48 + hour / 10) ≠ 32 := by
      intro hx
      have := (digitByte (show hour / 10 < 10 by omega)).1
      rw [hx] at this
      simp [isDigitByte] at this
    rw [appendInt_two hour (by omega)]
    unfold skipSpaces
    rw [dropWhile_cons_of_pos (by decide), cons_append, dropWhile_cons_of_neg (by simpa using hne)]
    rfl
  have hye : (year : Nat) < 10000 := by
    have := hy.2
    dsimp only at this
    omega
  have hg : 1 ≤ day ∧ day ≤ daysIn (isLeap year) month := ⟨h.day_pos, h.day_le⟩
  simp only [parseDateTime, formatDate, formatClock, civilOf_date h hh hm, hse, hmi, append_assoc,
    cons_append, nil_append, getnum_appendInt hd, Option.bind_eq_bind, Option.bind_some, hsk,
    lookupMonth_name h.month_pos h.month_le, getYear_appendInt hye, hs, getnum_appendInt (show hour < 100 by omega),
    getnum_appendInt (show minute < 100 by omega), hg, hh, hm, guard, and_self]
  rfl

end Golib
