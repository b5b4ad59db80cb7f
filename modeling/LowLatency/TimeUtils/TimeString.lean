import LowLatency.Library.Decimal

namespace LowLatency.TimeUtils

open Library.Decimal

abbrev Day : Type := { d : ℕ // 1 ≤ d ∧ d ≤ 31 }

/-- `std::tm` as `localtime_r` fills it: the fields that `getCurrentTimeStr`
prints, each in its range. `year` counts from 1900. -/
structure Tm where
  year : ℤ
  mon : Fin 12
  mday : Day
  hour : Fin 24
  min : Fin 60
  sec : Fin 61
  deriving DecidableEq

inductive Conversion
  | Y | m | d | H | M | S
  | text (c : Char)

def decimal (n : ℤ) : List Char :=
  if n < 0 then '-' :: Nat.toDigits 10 n.natAbs else Nat.toDigits 10 n.natAbs

def Conversion.expand (tm : Tm) : Conversion → List Char
  | .Y => decimal (tm.year + 1900)
  | .m => padded 2 (tm.mon + 1)
  | .d => padded 2 tm.mday
  | .H => padded 2 tm.hour
  | .M => padded 2 tm.min
  | .S => padded 2 tm.sec
  | .text c => [c]

/-- What `std::strftime` leaves in a buffer of `max` characters, without the
terminating null character. It is nothing if that does not fit. -/
def strftime (max : ℕ) (format : List Conversion) (tm : Tm) : List Char :=
  let written := format.flatMap (Conversion.expand tm)
  if written.length < max then written else []

/-- `"%Y-%m-%d %H:%M:%S"` -/
def timeFormat : List Conversion :=
  [.Y, .text '-', .m, .text '-', .d, .text ' ', .H, .text ':', .M, .text ':', .S]

/-- `getCurrentTimeStr`, given the nanoseconds that `system_clock` shows and what
`localtime_r` does. -/
def getCurrentTimeStr (localtime_r : ℤ → Option Tm) (now : ℤ) : List Char :=
  let time := now.tdiv 1000000000
  match localtime_r time with
  | none => []
  | some localTime =>
    let written := strftime 20 timeFormat localTime
    if written.length = 0 then [] else written

section Length

theorem decimal_length_le_iff (n : ℤ) : (decimal n).length ≤ 4 ↔ -999 ≤ n ∧ n ≤ 9999 := by
  unfold decimal
  split
  next hneg =>
    rw [List.length_cons, Nat.succ_le_succ_iff, Nat.length_toDigits_le_iff (by omega) (by omega)]
    omega
  next hpos =>
    rw [Nat.length_toDigits_le_iff (by omega) (by omega)]
    omega

theorem written_length (tm : Tm) :
    (timeFormat.flatMap (Conversion.expand tm)).length =
      (decimal (tm.year + 1900)).length + 15 := by
  simp [timeFormat, Conversion.expand]

theorem strftime_eq_nil_iff (tm : Tm) : strftime 20 timeFormat tm = [] ↔
    tm.year + 1900 < -999 ∨ 9999 < tm.year + 1900 := by
  have hlen := written_length tm
  have hfour := decimal_length_le_iff (tm.year + 1900)
  unfold strftime
  dsimp only
  split
  next hlt =>
    refine iff_of_false (fun hnil ↦ ?_) (by omega)
    rw [hnil, List.length_nil] at hlen
    omega
  next hge => exact iff_of_true rfl (by omega)

end Length

section Order

def Tm.numbers (tm : Tm) : List ℕ :=
  [(tm.year + 1900).toNat, tm.mon + 1, tm.mday, tm.hour, tm.min, tm.sec]

def timeFields : List Field :=
  [⟨[], 4⟩, ⟨['-'], 2⟩, ⟨['-'], 2⟩, ⟨[' '], 2⟩, ⟨[':'], 2⟩, ⟨[':'], 2⟩]

def Tm.FourDigits (tm : Tm) : Prop := 1000 ≤ tm.year + 1900 ∧ tm.year + 1900 ≤ 9999

instance (tm : Tm) : Decidable tm.FourDigits := inferInstanceAs (Decidable (_ ∧ _))

variable {tm tm' : Tm}

theorem Tm.FourDigits.fits (h : tm.FourDigits) : Fits timeFields tm.numbers := by
  obtain ⟨hle, hle'⟩ := h
  have hday := tm.mday.2
  have hmon := tm.mon.isLt
  have hhour := tm.hour.isLt
  have hmin := tm.min.isLt
  have hsec := tm.sec.isLt
  refine .cons ?_ (.cons ?_ (.cons ?_ (.cons ?_ (.cons ?_ (.cons ?_ .nil))))) <;> dsimp only <;>
    omega

theorem Tm.FourDigits.strftime_eq (h : tm.FourDigits) :
    strftime 20 timeFormat tm = layout timeFields tm.numbers := by
  obtain ⟨hle, hle'⟩ := h
  have hyear : decimal (tm.year + 1900) = padded 4 (tm.year + 1900).toNat := by
    have habs : (tm.year + 1900).natAbs = (tm.year + 1900).toNat := by omega
    rw [decimal, if_neg (by omega), habs]
    exact toDigits_eq_padded (w := 3) (by omega) (by omega)
  have hlen := written_length tm
  rw [hyear, padded_length] at hlen
  rw [strftime, if_pos (by omega)]
  simp [timeFormat, Conversion.expand, layout, timeFields, Tm.numbers, hyear]

theorem Tm.FourDigits.numbers_inj (h : tm.FourDigits) (h' : tm'.FourDigits) :
    tm.numbers = tm'.numbers ↔ tm = tm' := by
  refine ⟨fun heq ↦ ?_, fun heq ↦ heq ▸ rfl⟩
  obtain ⟨year, mon, mday, hour, min, sec⟩ := tm
  obtain ⟨year', mon', mday', hour', min', sec'⟩ := tm'
  have hle := h.1
  have hle' := h'.1
  dsimp only at hle hle'
  simp only [Tm.numbers, List.cons.injEq, Nat.add_right_cancel_iff, Fin.val_inj, and_true] at heq
  obtain ⟨hyear, rfl, hday, rfl, rfl, rfl⟩ := heq
  obtain rfl : year = year' := by omega
  obtain rfl : mday = mday' := Subtype.ext hday
  rfl

/-- `getCurrentTimeStr` gives up exactly when `localtime_r` does or the year
needs more than four characters. Else, with a year of four digits, it fills its
buffer with 19 characters that tell any two times apart and sort as the times
do. -/
theorem timeStr_sorts (localtime_r : ℤ → Option Tm) :
    (∀ now, getCurrentTimeStr localtime_r now = [] ↔
      ∀ tm, localtime_r (now.tdiv 1000000000) = some tm →
        tm.year + 1900 < -999 ∨ 9999 < tm.year + 1900) ∧
    ∀ now now' tm tm', localtime_r (now.tdiv 1000000000) = some tm → tm.FourDigits →
      localtime_r (now'.tdiv 1000000000) = some tm' → tm'.FourDigits →
      (getCurrentTimeStr localtime_r now).length = 19 ∧
      (getCurrentTimeStr localtime_r now = getCurrentTimeStr localtime_r now' ↔ tm = tm') ∧
      (getCurrentTimeStr localtime_r now < getCurrentTimeStr localtime_r now' ↔
        tm.numbers < tm'.numbers) := by
  have hsome {now : ℤ} {tm : Tm} (h : localtime_r (now.tdiv 1000000000) = some tm) :
      getCurrentTimeStr localtime_r now = strftime 20 timeFormat tm := by
    simp only [getCurrentTimeStr, h]
    split
    next hnil => exact (List.length_eq_zero_iff.1 hnil).symm
    next => rfl
  constructor
  · intro now
    cases htime : localtime_r (now.tdiv 1000000000) with
    | none =>
      refine iff_of_true ?_ (fun tm h ↦ by cases h)
      simp only [getCurrentTimeStr, htime]
    | some tm =>
      rw [hsome htime, strftime_eq_nil_iff]
      exact ⟨fun h tm' heq ↦ Option.some.inj heq ▸ h, fun h ↦ h tm rfl⟩
  · intro now now' tm tm' htime hy htime' hy'
    rw [hsome htime, hsome htime', hy.strftime_eq, hy'.strftime_eq]
    refine ⟨layout_length hy.fits, ?_, layout_lt_iff hy.fits hy'.fits⟩
    rw [layout_eq_iff hy.fits hy'.fits, hy.numbers_inj hy']

def utc (time : ℤ) : Option Tm :=
  if time = 1700000000 then some ⟨123, 10, ⟨14, by decide⟩, 22, 13, 20⟩
  else if time = 1735689600 then some ⟨125, 0, ⟨1, by decide⟩, 0, 0, 0⟩
  else none

example : getCurrentTimeStr utc 1700000000999999999 = "2023-11-14 22:13:20".toList := by decide

theorem timeStr_sorts_utc :
    getCurrentTimeStr utc 1700000000999999999 < getCurrentTimeStr utc 1735689600000000000 :=
  ((timeStr_sorts utc).2 1700000000999999999 1735689600000000000 _ _ rfl (by decide) rfl
    (by decide)).2.2.2 (by decide)

end Order

end LowLatency.TimeUtils
