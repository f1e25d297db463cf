import SafeCalls.Proofs.JsonText
import SafeCalls.Proofs.TextForm
import SafeCalls.Time.Timestamp

namespace SafeCalls.Time

/-!
# Reading back timestamps

The text of a moment is read as this moment, whatever the year and however fine the fraction of the
second. Each field is read to its last digit, since either its width is fixed or something follows
that is no digit.
-/

open Json (isDigit_of_mem_toDigits exists_toDigits_eq_cons)
open Text (isBlank trimStart)

theorem isBlank_of_isDigit {c : Char} (h : c.isDigit) : isBlank c = false := by
  simp only [Char.isDigit, ge_iff_le, Bool.and_eq_true, decide_eq_true_eq,
    UInt32.le_iff_toNat_le] at h
  have hlow : 48 ≤ c.toNat := h.1
  have hhigh : c.toNat ≤ 57 := h.2
  simp [isBlank]
  omega

theorem trimStart_of_isDigit {ds : List Char} (hds : ∀ c ∈ ds, c.isDigit) (hne : ds ≠ [])
    (rest : List Char) : trimStart (ds ++ rest) = ds ++ rest := by
  cases ds with
  | nil => exact absurd rfl hne
  | cons d more =>
      have hd := isBlank_of_isDigit (hds d List.mem_cons_self)
      exact List.dropWhile_cons_of_neg (by simp [hd])

/-! ### Numbers with leading zeros -/

section

variable {width n : Nat}

theorem padded_toList (width n : Nat) : (padded width n).toList =
    List.replicate (width - (Nat.toDigits 10 n).length) '0' ++ Nat.toDigits 10 n := by
  rw [padded, String.toList_ofList]

theorem isDigit_of_mem_padded {c : Char} (h : c ∈ (padded width n).toList) : c.isDigit := by
  rw [padded_toList] at h
  rcases List.mem_append.1 h with h | h
  · rw [List.eq_of_mem_replicate h]
    rfl
  · exact isDigit_of_mem_toDigits h

theorem padded_ne_nil : (padded width n).toList ≠ [] := by
  obtain ⟨d, ds, hdigits, -⟩ := exists_toDigits_eq_cons n
  rw [padded_toList, hdigits]
  simp

theorem length_padded (hwidth : 0 < width) (hn : n < Nat.pow 10 width) :
    (padded width n).toList.length = width := by
  have hlength : (Nat.toDigits 10 n).length ≤ width :=
    (Nat.length_toDigits_le_iff (by decide) hwidth).2 hn
  rw [padded_toList, List.length_append, List.length_replicate]
  omega

theorem value_padded (width n : Nat) : value (padded width n).toList = n := by
  have hvalue : ∀ ds, value ds = Nat.ofDigitChars 10 ds 0 := by
    intro ds
    simp only [value, Nat.ofDigitChars_eq_foldl, Nat.mul_comm]
  rw [padded_toList, hvalue, Nat.ofDigitChars_append, Nat.ofDigitChars_replicate_zero, Nat.mul_zero,
    Nat.ofDigitChars_ten_toDigits]

end

theorem number_digits {width : Nat} {ds rest : List Char} (hds : ∀ c ∈ ds, c.isDigit)
    (hne : ds ≠ [])
    (hend : ds.length = width ∨ ds.length ≤ width ∧ ∀ c ∈ rest.head?, c.isDigit = false) :
    number width (ds ++ rest) = .ok (value ds, rest) := by
  have hdigits : ((ds ++ rest).takeWhile Char.isDigit).take width = ds := by
    rw [List.takeWhile_append_of_pos hds]
    rcases hend with hlength | ⟨hlength, hrest⟩
    · exact List.take_left' hlength
    · cases rest with
      | nil => simpa using List.take_of_length_le hlength
      | cons c rest => simpa [hrest c rfl] using List.take_of_length_le hlength
  cases ds with
  | nil => exact absurd rfl hne
  | cons d more =>
      have hd : d.isDigit := hds d List.mem_cons_self
      rw [List.cons_append] at hdigits ⊢
      rw [number, if_pos hd]
      simp only [hdigits]
      simp

theorem number_padded {width n : Nat} (hwidth : 0 < width) (hn : n < Nat.pow 10 width)
    (rest : List Char) : number width ((padded width n).toList ++ rest) = .ok (n, rest) := by
  rw [number_digits (fun _ => isDigit_of_mem_padded) padded_ne_nil (.inl (length_padded hwidth hn)),
    value_padded]

theorem number_unlimited {width n : Nat} {rest : List Char}
    (hrest : ∀ c ∈ rest.head?, c.isDigit = false) :
    number ((padded width n).toList ++ rest).length ((padded width n).toList ++ rest) =
      .ok (n, rest) := by
  have hlength : (padded width n).toList.length ≤ ((padded width n).toList ++ rest).length := by
    rw [List.length_append]
    omega
  rw [number_digits (fun _ => isDigit_of_mem_padded) padded_ne_nil (.inr ⟨hlength, hrest⟩),
    value_padded]

theorem bounded_padded {least greatest n : Nat} (hleast : least ≤ n) (hgreatest : n ≤ greatest)
    (hn : n < 100) (rest : List Char) :
    bounded 2 least greatest ((padded 2 n).toList ++ rest) = .ok (n, rest) := by
  rw [bounded, trimStart_of_isDigit (fun _ => isDigit_of_mem_padded) padded_ne_nil,
    number_padded (by decide) hn]
  simp [bind, Except.bind, hleast, hgreatest]

theorem mark_cons {c : Char} (hc : isBlank c = false) (rest : List Char) :
    mark c (c :: rest) = .ok rest := by
  rw [mark, trimStart, List.dropWhile_cons_of_neg (by simp [hc])]
  simp

theorem year_padded {n : Nat} (hn : n < 10000) (rest : List Char) :
    year ((padded 4 n).toList ++ rest) = .ok ((n : Int), rest) := by
  have hnumber := number_padded (by decide : 0 < 4) hn rest
  have hne : (padded 4 n).toList ≠ [] := padded_ne_nil
  rw [year, trimStart_of_isDigit (fun _ => isDigit_of_mem_padded) hne]
  obtain ⟨d, more, hdigits⟩ := List.exists_cons_of_ne_nil hne
  have hd : d.isDigit := isDigit_of_mem_padded (hdigits ▸ List.mem_cons_self)
  rw [hdigits, List.cons_append] at hnumber ⊢
  split
  · next h =>
      obtain rfl := (List.cons.inj h).1
      cases hd
  · next h =>
      obtain rfl := (List.cons.inj h).1
      cases hd
  · rw [hnumber]
    rfl

section

variable {width n : Nat} {rest : List Char} (hrest : ∀ c ∈ rest.head?, c.isDigit = false)

include hrest

theorem year_minus (hn : 2 * n ≤ UInt32.size) :
    year ('-' :: ((padded width n).toList ++ rest)) = .ok (-(n : Int), rest) := by
  rw [year, trimStart, List.dropWhile_cons_of_neg (by decide)]
  simp only [number_unlimited hrest, bind, Except.bind, if_pos hn]

theorem year_plus (hn : 2 * n < UInt32.size) :
    year ('+' :: ((padded width n).toList ++ rest)) = .ok ((n : Int), rest) := by
  rw [year, trimStart, List.dropWhile_cons_of_neg (by decide)]
  simp only [number_unlimited hrest, bind, Except.bind, if_pos hn]

end

theorem year_yearText {y : Int} (hleast : leastYear ≤ y) (hgreatest : y ≤ greatestYear)
    (rest : List Char) : year ((yearText y).toList ++ '-' :: rest) = .ok (y, '-' :: rest) := by
  unfold leastYear at hleast
  unfold greatestYear at hgreatest
  have hend : ∀ c ∈ ('-' :: rest).head?, c.isDigit = false := by simp
  have hsize : 2 * y.natAbs < UInt32.size := by
    simp only [UInt32.size]
    omega
  by_cases hplain : 0 ≤ y ∧ y ≤ 9999
  · rw [yearText, if_pos hplain, year_padded (by omega), Int.toNat_of_nonneg hplain.1]
  · rw [yearText, if_neg hplain, String.toList_append, List.append_assoc]
    by_cases hnegative : y < 0
    · have hvalue : -(y.natAbs : Int) = y := by omega
      have hsign : "-".toList = ['-'] := rfl
      rw [if_pos hnegative, hsign, List.singleton_append, year_minus hend (Nat.le_of_lt hsize),
        hvalue]
    · have hvalue : (y.natAbs : Int) = y := by omega
      have hsign : "+".toList = ['+'] := rfl
      rw [if_neg hnegative, hsign, List.singleton_append, year_plus hend hsize, hvalue]

theorem fraction_padded {width n : Nat} (hwidth : 0 < width) (hnine : width ≤ 9)
    (hn : n < Nat.pow 10 width) :
    fraction ('.' :: ((padded width n).toList ++ ['Z'])) =
      .ok (n * Nat.pow 10 (9 - width), ['Z']) := by
  have hdigits : (((padded width n).toList ++ ['Z']).takeWhile Char.isDigit).take 9 =
      (padded width n).toList := by
    rw [List.takeWhile_append_of_pos fun _ => isDigit_of_mem_padded]
    simp [List.take_of_length_le, length_padded hwidth hn, hnine]
  rw [fraction, number_unlimited (by simp)]
  simp only [bind, Except.bind, hdigits, value_padded, length_padded hwidth hn]

theorem fraction_fractionText {nanosecond : Nat} (h : nanosecond < 1000000000) :
    fraction ((fractionText nanosecond).toList ++ ['Z']) = .ok (nanosecond, ['Z']) := by
  have hpoint : ∀ width n, ("." ++ padded width n).toList ++ ['Z'] =
      '.' :: ((padded width n).toList ++ ['Z']) := by
    intro width n
    rw [String.toList_append]
    rfl
  unfold fractionText
  split
  · next hzero => simp [fraction, hzero]
  · split
    · have hsmall : nanosecond / 1000000 < Nat.pow 10 3 := by
        change nanosecond / 1000000 < 1000
        omega
      rw [hpoint, fraction_padded (by decide) (by decide) hsmall]
      change Except.ok (nanosecond / 1000000 * 1000000, _) = _
      rw [Nat.div_mul_cancel (Nat.dvd_of_mod_eq_zero ‹_›)]
    · split
      · have hsmall : nanosecond / 1000 < Nat.pow 10 6 := by
          change nanosecond / 1000 < 1000000
          omega
        rw [hpoint, fraction_padded (by decide) (by decide) hsmall]
        change Except.ok (nanosecond / 1000 * 1000, _) = _
        rw [Nat.div_mul_cancel (Nat.dvd_of_mod_eq_zero ‹_›)]
      · rw [hpoint, fraction_padded (by decide) (by decide) h]
        change Except.ok (nanosecond * 1, _) = _
        rw [Nat.mul_one]

namespace Timestamp

/-- A date of the calendar and a time of day, which may be a leap second. -/
structure IsValid (t : Timestamp) : Prop where
  date : t.date.isValid
  hour : t.hour < 24
  minute : t.minute < 60
  second : t.second ≤ 60
  nanosecond : t.nanosecond < 1000000000

theorem toUniversal_zero {t : Timestamp} (h : t.IsValid) : t.toUniversal 0 = t := by
  obtain ⟨date, hour, minute, second, nanosecond⟩ := t
  have hhour : hour < 24 := h.hour
  have hminute : minute < 60 := h.minute
  have hnot : ¬ (60 * (hour : Int) + minute - 0 < 0) := by omega
  have hday : 60 * (hour : Int) + minute - 0 < 1440 := by omega
  have hminutes : ((60 * (hour : Int) + minute - 0) % 1440).toNat = 60 * hour + minute := by omega
  have hback : (60 * hour + minute) / 60 = hour ∧ (60 * hour + minute) % 60 = minute := by omega
  simp only [toUniversal, if_neg hnot, if_pos hday, hminutes, hback]

theorem parse_render_of_isValid {t : Timestamp} (h : t.IsValid) : parse t.render = .ok t := by
  have hdate := h.date
  simp only [Date.isValid, Bool.and_eq_true, decide_eq_true_eq] at hdate
  obtain ⟨⟨⟨⟨⟨hleast, hgreatest⟩, hmonth⟩, hmonth'⟩, hday⟩, hday'⟩ := hdate
  have hlong : daysInMonth t.date.year t.date.month ≤ 31 := by
    unfold daysInMonth
    split
    · split <;> omega
    · split <;> omega
  have hhour := h.hour
  have hminute := h.minute
  have hsecond := h.second
  have htext : t.render.toList = (yearText t.date.year).toList ++ '-' ::
      ((padded 2 t.date.month).toList ++ '-' :: ((padded 2 t.date.day).toList ++ 'T' ::
        ((padded 2 t.hour).toList ++ ':' :: ((padded 2 t.minute).toList ++ ':' ::
          ((padded 2 t.second).toList ++ ((fractionText t.nanosecond).toList ++ ['Z'])))))) := by
    simp [render]
  have hbetween : ∀ rest, separator ('T' :: rest) = .ok rest := fun _ => rfl
  have hend : offset (trimStart ['Z']) = .ok (0, []) := rfl
  have hempty : (trimStart []).isEmpty = true := rfl
  simp only [parse, htext, year_yearText hleast hgreatest, bind, Except.bind,
    mark_cons (by decide : isBlank '-' = false), mark_cons (by decide : isBlank ':' = false),
    bounded_padded hmonth hmonth' (by omega),
    bounded_padded hday (by omega : t.date.day ≤ 31) (by omega), hbetween,
    bounded_padded (Nat.zero_le _) (by omega : t.hour ≤ 23) (by omega),
    bounded_padded (Nat.zero_le _) (by omega : t.minute ≤ 59) (by omega),
    bounded_padded (Nat.zero_le _) hsecond (by omega), fraction_fractionText h.nanosecond, hend,
    hempty, toUniversal_zero h]
  simp [h.date]

end Timestamp

end SafeCalls.Time
