import RelationalAlgebra.Instant.Rfc3339
import RelationalAlgebra.Proofs.Stateful

/-!
# The text of an instant is read back

A year of four digits is written without a sign, and then every field of the text has the width
that the reader expects.  Each field is followed by the rest of the text, so the lemmas say what a
reader makes of a written field with anything behind it.

The main statement is `Instant.read_toText`.
-/

namespace RelationalAlgebra.Instant

variable {n width : Nat} {digits rest : List Char}

/-! ## Digits -/

theorem digit?_of_isDigit {c : Char} (h : c.isDigit) : digit? c = some (c.toNat - '0'.toNat) :=
  if_pos h

/-- Reading digits gives the number they spell. -/
theorem readDigits_append (h : ∀ c ∈ digits, c.isDigit) (before : Nat) (rest : List Char) :
    readDigits digits.length before (digits ++ rest) =
      .ok (Nat.ofDigitChars 10 digits before, rest) := by
  induction digits generalizing before with
  | nil => rw [Nat.ofDigitChars_nil]; rfl
  | cons c digits ih =>
    have hdigits := ih (fun c hc => h c (List.mem_cons_of_mem _ hc))
    rw [List.length_cons, List.cons_append, readDigits,
      digit?_of_isDigit (h c (List.mem_cons_self ..)), Nat.ofDigitChars_cons, Nat.mul_comm 10]
    exact hdigits _

/-- The digits of a fraction are read up to the first character that is none. -/
theorem readUpTo_append (h : ∀ c ∈ digits, c.isDigit) (hrest : ∀ c ∈ rest.head?, ¬ c.isDigit)
    {count : Nat} (hcount : digits.length ≤ count) (before seen : Nat) :
    readUpTo count before seen (digits ++ rest) =
      ((Nat.ofDigitChars 10 digits before, seen + digits.length), rest) := by
  induction digits generalizing count before seen with
  | nil =>
    rw [Nat.ofDigitChars_nil]
    cases count with
    | zero => rfl
    | succ count =>
      cases rest with
      | nil => rfl
      | cons c rest =>
        have hnone : digit? c = none := if_neg (hrest c rfl)
        rw [List.nil_append, readUpTo, hnone]
        rfl
  | cons c digits ih =>
    cases count with
    | zero => cases hcount
    | succ count =>
      have hdigits := ih (fun c hc => h c (List.mem_cons_of_mem _ hc))
        (Nat.le_of_succ_le_succ hcount)
      rw [List.length_cons, List.cons_append, readUpTo,
        digit?_of_isDigit (h c (List.mem_cons_self ..)), Nat.ofDigitChars_cons, Nat.mul_comm 10,
        Nat.add_comm digits.length, ← Nat.add_assoc]
      exact hdigits _ _

/-! ## Padded numbers -/

theorem isDigit_padded (width n : Nat) : ∀ c ∈ padded width n, c.isDigit := by
  intro c hc
  rcases List.mem_append.1 hc with hc | hc
  · rw [List.eq_of_mem_replicate hc]
    decide
  · exact Nat.isDigit_of_mem_toDigits (by decide) (by decide) hc

theorem ofDigitChars_padded (width n : Nat) : Nat.ofDigitChars 10 (padded width n) 0 = n := by
  rw [padded, Nat.ofDigitChars_append, Nat.ofDigitChars_replicate_zero, Nat.mul_zero,
    Nat.ofDigitChars_ten_toDigits]

theorem le_length_padded (width n : Nat) : width ≤ (padded width n).length := by
  rw [padded, List.length_append, List.length_replicate]
  omega

/-- A number that fits is written in the given width. -/
theorem length_padded (hwidth : 0 < width) (h : n < Nat.pow 10 width) :
    (padded width n).length = width := by
  have hle := (Nat.length_toDigits_le_iff (by decide) hwidth).2 h
  rw [padded, List.length_append, List.length_replicate]
  omega

/-- A field is read back. -/
theorem readDigits_padded (hwidth : 0 < width) (h : n < Nat.pow 10 width) :
    readDigits width 0 (padded width n ++ rest) = .ok (n, rest) := by
  have hread := readDigits_append (isDigit_padded width n) 0 rest
  rwa [length_padded hwidth h, ofDigitChars_padded] at hread

/-- A field of two digits is read back. -/
theorem readDigits_two (h : n < 100) : readDigits 2 0 (padded 2 n ++ rest) = .ok (n, rest) :=
  readDigits_padded (by decide) h

/-- A fraction of up to nine digits is read back as nanoseconds. -/
theorem readFraction_padded {nanosecond : Nat} (hwidth : 0 < width) (hnine : width ≤ 9)
    (h : n < Nat.pow 10 width) (hscale : n * Nat.pow 10 (9 - width) = nanosecond)
    (hrest : ∀ c ∈ rest.head?, ¬ c.isDigit) :
    readFraction (padded width n ++ rest) = .ok (nanosecond, rest) := by
  have hlength := length_padded hwidth h
  have hcount : (padded width n).length ≤ 9 := by omega
  have hread := readUpTo_append (isDigit_padded width n) hrest hcount 0 0
  have hdrop : rest.dropWhile Char.isDigit = rest := by
    cases rest with
    | nil => rfl
    | cons c rest => exact List.dropWhile_cons_of_neg (hrest c rfl)
  rw [hlength, ofDigitChars_padded, Nat.zero_add] at hread
  unfold readFraction
  split
  · next hnil =>
    rw [List.append_eq_nil_iff] at hnil
    rw [hnil.1] at hlength
    exact absurd hlength (Nat.ne_of_lt hwidth)
  · simp only [hread, if_neg (Nat.ne_of_gt hwidth), hdrop, hscale]

/-- The fraction of a second is read back, however many digits it is written with. -/
theorem readOptionalFraction_write (h : n < 1000000000) (hrest : rest.head? = some '+') :
    readOptionalFraction (writeFraction n ++ rest) = .ok (n, rest) := by
  have hnone : ∀ c ∈ rest.head?, ¬ c.isDigit := by
    intro c hc
    rw [hrest] at hc
    obtain rfl := Option.some.inj hc
    decide
  unfold writeFraction
  split
  · next hzero =>
    cases rest with
    | nil => cases hrest
    | cons c rest =>
      obtain rfl := Option.some.inj hrest
      rw [hzero]
      rfl
  · split
    · next hmilli =>
      rw [List.cons_append, readOptionalFraction]
      exact readFraction_padded (by decide) (by decide) (show n / 1000000 < 1000 by omega)
        (show n / 1000000 * 1000000 = n by omega) hnone
    · split
      · next hmicro =>
        rw [List.cons_append, readOptionalFraction]
        exact readFraction_padded (by decide) (by decide) (show n / 1000 < 1000000 by omega)
          (show n / 1000 * 1000 = n by omega) hnone
      · rw [List.cons_append, readOptionalFraction]
        exact readFraction_padded (by decide) (by decide) h (Nat.mul_one n) hnone

/-! ## Whole texts -/

theorem Date.of?_self (d : Date) : Date.of? d.year d.month d.day = some d := dif_pos d.exists_day

theorem of?_self (t : Instant) : of? t.date t.hour t.minute t.second t.nanosecond = some t :=
  dif_pos ⟨t.hour_lt, t.minute_lt, t.second_le, t.nanosecond_lt⟩

theorem writeLocal_eq (t : Instant) (hlow : 0 ≤ t.date.year) (hhigh : t.date.year ≤ 9999) :
    t.writeLocal ++ rest =
      padded 4 t.date.year.toNat ++ ('-' :: (padded 2 t.date.month ++ ('-' ::
        (padded 2 t.date.day ++ ('T' :: (padded 2 t.hour ++ (':' :: (padded 2 t.minute ++ (':' ::
          (padded 2 t.second ++ (writeFraction t.nanosecond ++ rest))))))))))) := by
  have hyear : writeYear t.date.year = padded 4 t.date.year.toNat := by
    rw [writeYear, if_pos (by simp [hlow, hhigh])]
  rw [writeLocal, hyear]
  simp only [List.append_assoc, List.cons_append]

theorem daysInMonth_le (year : Int) (month : Nat) : daysInMonth year month ≤ 31 := by
  unfold daysInMonth
  repeat' split
  all_goals decide

/-- Date, time and offset are read back one field after the other. -/
theorem readFull_write (t : Instant) (hlow : 0 ≤ t.date.year) (hhigh : t.date.year ≤ 9999) :
    readFull (t.writeLocal ++ ['+', '0', '0', ':', '0', '0']) = .ok (t, []) := by
  obtain ⟨hmonth, hmonth', hday, hday'⟩ := t.date.exists_day
  have hdays := daysInMonth_le t.date.year t.date.month
  have hhour := t.hour_lt
  have hminute := t.minute_lt
  have hsecond := t.second_le
  have hyear : (t.date.year.toNat : Int) = t.date.year := Int.toNat_of_nonneg hlow
  rw [writeLocal_eq t hlow hhigh]
  refine bind_ok_iff.2 ⟨_, readDigits_padded (by decide) (show _ < 10000 by omega), ?_⟩
  refine bind_ok_iff.2 ⟨_, rfl, ?_⟩
  refine bind_ok_iff.2 ⟨_, readDigits_two (by omega), ?_⟩
  refine bind_ok_iff.2 ⟨_, rfl, ?_⟩
  refine bind_ok_iff.2 ⟨_, readDigits_two (by omega), ?_⟩
  simp only [hyear, Date.of?_self]
  refine bind_ok_iff.2 ⟨_, rfl, ?_⟩
  refine bind_ok_iff.2 ⟨_, readDigits_two (by omega), ?_⟩
  refine bind_ok_iff.2 ⟨_, rfl, ?_⟩
  refine bind_ok_iff.2 ⟨_, readDigits_two (by omega), ?_⟩
  refine bind_ok_iff.2 ⟨_, rfl, ?_⟩
  refine bind_ok_iff.2 ⟨_, readDigits_two (by omega), ?_⟩
  refine bind_ok_iff.2 ⟨_, readOptionalFraction_write t.nanosecond_lt rfl, ?_⟩
  simp only [of?_self]
  refine bind_ok_iff.2 ⟨_, rfl, ?_⟩
  exact congrArg (fun t => Except.ok (t, [])) t.addMinutes_zero

/-- A character takes at least one byte. -/
theorem length_le_utf8ByteSize (text : List Char) :
    text.length ≤ (String.ofList text).utf8ByteSize := by
  induction text with
  | nil => exact Nat.zero_le _
  | cons c text ih =>
    rw [String.ofList_cons, String.utf8ByteSize_append, String.utf8ByteSize_singleton,
      List.length_cons]
    have hc := c.utf8Size_pos
    omega

/-- The text of an instant of a year of four digits is read back. -/
theorem read_toText (t : Instant) (hlow : 0 ≤ t.date.year) (hhigh : t.date.year ≤ 9999) :
    read t.toText = .ok t := by
  have hlist : t.toText.toList = t.writeLocal ++ ['+', '0', '0', ':', '0', '0'] := by
    rw [toText, write, String.toList_append, String.toList_ofList]
    rfl
  have hsize : ¬ t.toText.utf8ByteSize < shortestText := by
    have hle := length_le_utf8ByteSize t.toText.toList
    rw [String.ofList_toList, hlist, writeLocal_eq t hlow hhigh] at hle
    simp only [List.length_append, List.length_cons, List.length_nil] at hle
    unfold shortestText
    have hyear := le_length_padded 4 t.date.year.toNat
    have hmonth := le_length_padded 2 t.date.month
    have hday := le_length_padded 2 t.date.day
    have hhour := le_length_padded 2 t.hour
    have hminute := le_length_padded 2 t.minute
    have hsecond := le_length_padded 2 t.second
    omega
  rw [read, if_neg hsize, hlist, readFull_write t hlow hhigh]

/-- The text of an instant is only read back if its year has four digits: any other year has a
sign in front. -/
theorem fourDigits_of_read {t t' : Instant} (h : read t.toText = .ok t') :
    0 ≤ t.date.year ∧ t.date.year ≤ 9999 := by
  refine Decidable.byContradiction fun hyear => ?_
  have hsigned : ∃ sign rest, writeYear t.date.year = sign :: rest ∧ digit? sign = none := by
    rw [writeYear, if_neg (by simpa using hyear)]
    split
    · exact ⟨_, _, rfl, rfl⟩
    · exact ⟨_, _, rfl, rfl⟩
  obtain ⟨sign, rest, hwrite, hsign⟩ := hsigned
  have hlist : ∃ rest', t.toText.toList = sign :: rest' := by
    rw [toText, write, String.toList_append, String.toList_ofList, writeLocal, hwrite]
    exact ⟨_, rfl⟩
  obtain ⟨rest', hlist⟩ := hlist
  have hfault : readFull (sign :: rest') = .error .invalid := by
    rw [readFull, readDigits, hsign]
    rfl
  rw [read, hlist, hfault] at h
  split at h <;> cases h

end RelationalAlgebra.Instant
