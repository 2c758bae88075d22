import LinkFabric.Text.Blank
import LinkFabric.Text.Numeral
import Mathlib.Data.List.Forall2
import Mathlib.Data.List.TakeWhile
import Mathlib.Data.Nat.Digits.Defs

/-!
# Numerals and lists in text

Which texts are numbers, and which numbers they are, is stated here by a grammar: digits of a
radix, at least one, with at most one plus sign before them. A numeral is decimal, or hexadecimal
after its mark. A reader goes through the digits from left to right and gives up as soon as the
number so far exceeds a bound; that loses nothing, since further digits never make a number
smaller. So a reader accepts the numerals of the numbers within its bound and nothing else.

Main results:

* `digitValue?_eq_some_iff`: which characters are digits.
* `Numeral.readDigits_eq_ok_iff`: a run of digits is read as the number that it stands for.
* `Numeral.read_eq_ok_iff`, `Numeral.readPrefixed_eq_ok_iff`: the readers accept the grammar.
* `splitOnChar_eq_splitOn`, `trimBlank_iff`: pieces of a text, and what they hold.
-/

namespace LinkFabric

/-! ## Digits -/

/-- A character stands for a digit of a radix, in either case. -/
def IsDigit (radix : Nat) (c : Char) (d : Nat) : Prop :=
  d < radix ∧ (c = d.digitChar ∨ c = d.digitChar.toUpper)

theorem digitValue?_eq_some_iff_of_le {radix : Nat} (hradix : radix ≤ 16) {c : Char} {d : Nat} :
    digitValue? radix c = some d ↔ digitValue? 16 c = some d ∧ d < radix := by
  simp only [digitValue?, Option.filter_eq_some_iff, decide_eq_true_eq]
  constructor
  · rintro ⟨hvalue, hd⟩
    exact ⟨⟨hvalue, by omega⟩, hd⟩
  · rintro ⟨⟨hvalue, -⟩, hd⟩
    exact ⟨hvalue, hd⟩

theorem toNat_lt_of_digitValue? {radix d : Nat} {c : Char} (h : digitValue? radix c = some d) :
    c.toNat < 123 := by
  have hvalue := (Option.filter_eq_some_iff.mp h).1
  split_ifs at hvalue with hdigit hlower hupper
  · exact Nat.lt_of_le_of_lt (show c.toNat ≤ 57 from hdigit.2) (by decide)
  · exact Nat.lt_of_le_of_lt (show c.toNat ≤ 122 from hlower.2) (by decide)
  · exact Nat.lt_of_le_of_lt (show c.toNat ≤ 90 from hupper.2) (by decide)

theorem digitValue?_eq_some_iff {radix : Nat} (hradix : radix ≤ 16) {c : Char} {d : Nat} :
    digitValue? radix c = some d ↔ IsDigit radix c d := by
  rw [digitValue?_eq_some_iff_of_le hradix, IsDigit, and_comm]
  refine and_congr_right fun hd => ⟨fun hvalue => ?_, fun hc => ?_⟩
  · -- Of the characters, only 123 can be digits; they are gone through.
    have hall : ∀ n < 123, ∀ d < 16, digitValue? 16 (Char.ofNat n) = some d →
        Char.ofNat n = d.digitChar ∨ Char.ofNat n = d.digitChar.toUpper := by
      decide +kernel
    have hone := hall c.toNat (toNat_lt_of_digitValue? hvalue) d (by omega)
    rw [Char.ofNat_toNat] at hone
    exact hone hvalue
  · have hall : ∀ d < 16, digitValue? 16 d.digitChar = some d ∧
        digitValue? 16 d.digitChar.toUpper = some d := by
      decide +kernel
    obtain ⟨hlower, hupper⟩ := hall d (by omega)
    rcases hc with rfl | rfl
    · exact hlower
    · exact hupper

/-- Digits are not white space. -/
theorem IsDigit.not_isBlank {radix : Nat} (hradix : radix ≤ 16) {c : Char} {d : Nat}
    (h : IsDigit radix c d) : isBlank c = false := by
  have hall : ∀ d < 16, isBlank d.digitChar = false ∧ isBlank d.digitChar.toUpper = false := by
    decide +kernel
  obtain ⟨hlower, hupper⟩ := hall d (Nat.lt_of_lt_of_le h.1 hradix)
  rcases h.2 with rfl | rfl
  · exact hlower
  · exact hupper

namespace Numeral

/-! ## Runs of digits -/

/-- Digits that follow a number make another one of it. -/
def Extends (radix acc : Nat) (cs : List Char) (n : Nat) : Prop :=
  ∃ ds, List.Forall₂ (IsDigit radix) cs ds ∧ n = ds.foldl (fun a d => a * radix + d) acc

variable {radix bound acc n : Nat} {c : Char} {cs : List Char}

theorem extends_nil : Extends radix acc [] n ↔ n = acc := by
  constructor
  · rintro ⟨ds, hds, rfl⟩
    cases hds
    rfl
  · rintro rfl
    exact ⟨[], .nil, rfl⟩

theorem extends_cons :
    Extends radix acc (c :: cs) n ↔
      ∃ d, IsDigit radix c d ∧ Extends radix (acc * radix + d) cs n := by
  constructor
  · rintro ⟨_, hall, hn⟩
    obtain ⟨d, ds, hd, hds, rfl⟩ := List.forall₂_cons_left_iff.mp hall
    exact ⟨d, hd, ds, hds, hn⟩
  · rintro ⟨d, hd, ds, hds, hn⟩
    exact ⟨d :: ds, .cons hd hds, hn⟩

/-- More digits do not make a number smaller. -/
theorem Extends.le (h : Extends radix acc cs n) (hradix : 0 < radix) : acc ≤ n := by
  induction cs generalizing acc with
  | nil => exact (extends_nil.mp h).ge
  | cons c cs ih =>
    obtain ⟨d, -, hrest⟩ := extends_cons.mp h
    calc acc ≤ acc * radix := Nat.le_mul_of_pos_right acc hradix
      _ ≤ acc * radix + d := Nat.le_add_right _ _
      _ ≤ n := ih hrest

/-- Digits are taken as long as the number so far is within the bound, which it is to the end if
the whole number is. -/
theorem readDigits_eq_ok_iff (hradix : 0 < radix) (hsmall : radix ≤ 16) (hacc : acc ≤ bound) :
    readDigits radix bound acc cs = .ok n ↔ Extends radix acc cs n ∧ n ≤ bound := by
  induction cs generalizing acc with
  | nil =>
    rw [readDigits, extends_nil, Except.ok.injEq]
    constructor
    · rintro rfl
      exact ⟨rfl, hacc⟩
    · exact fun h => h.1.symm
  | cons c cs ih =>
    rw [readDigits, extends_cons]
    simp only [← digitValue?_eq_some_iff hsmall]
    cases digitValue? radix c with
    | none => simp
    | some d =>
      simp only [Option.some.injEq, exists_eq_left']
      split_ifs with hle
      · exact ih hle
      · refine iff_of_false (fun h => by cases h) fun h => ?_
        exact hle (Nat.le_trans (h.1.le hradix) h.2)

/-! ## Numerals -/

/-- A text is a numeral: digits, at least one, with at most one plus sign before them. -/
def Spells (radix : Nat) (cs : List Char) (n : Nat) : Prop :=
  ∃ body ds, (cs = body ∨ cs = '+' :: body) ∧ body ≠ [] ∧
    List.Forall₂ (IsDigit radix) body ds ∧ n = Nat.ofDigits radix ds.reverse

theorem foldl_digits (radix : Nat) (ds : List Nat) :
    ds.foldl (fun a d => a * radix + d) 0 = Nat.ofDigits radix ds.reverse := by
  rw [Nat.ofDigits_eq_foldr, List.foldr_reverse]
  have hstep : (fun a d => a * radix + d) = fun a d : Nat => d + radix * a := by
    funext a d
    rw [Nat.mul_comm, Nat.add_comm]
  rw [hstep]
  rfl

theorem spells_iff :
    Spells radix cs n ↔
      ∃ body, (cs = body ∨ cs = '+' :: body) ∧ body ≠ [] ∧ Extends radix 0 body n := by
  unfold Spells Extends
  refine exists_congr fun body => ?_
  simp only [foldl_digits, exists_and_left]

/-- Every number has a decimal numeral. -/
theorem exists_spells (n : Nat) : ∃ cs, Spells 10 cs n := by
  -- A zero in front, for the digits of zero are none.
  let ds := 0 :: (Nat.digits 10 n).reverse
  refine ⟨ds.map Nat.digitChar, ds.map Nat.digitChar, ds, .inl rfl, List.cons_ne_nil _ _, ?_, ?_⟩
  · rw [List.forall₂_map_left_iff, List.forall₂_same]
    intro d hd
    refine ⟨?_, .inl rfl⟩
    rcases List.mem_cons.mp hd with rfl | hd
    · decide
    · exact Nat.digits_lt_base (by decide) (List.mem_reverse.mp hd)
  · rw [List.reverse_cons, List.reverse_reverse, Nat.ofDigits_append, Nat.ofDigits_singleton,
      Nat.ofDigits_digits]
    rfl

theorem not_isDigit_plus (hsmall : radix ≤ 16) (d : Nat) : ¬ IsDigit radix '+' d := by
  rw [← digitValue?_eq_some_iff hsmall]
  exact fun h => by cases h

/-- After a plus sign there are digits, and no other sign. -/
theorem spells_plus (hsmall : radix ≤ 16) :
    Spells radix ('+' :: cs) n ↔ cs ≠ [] ∧ Extends radix 0 cs n := by
  rw [spells_iff]
  constructor
  · rintro ⟨body, rfl | hbody, hne, hdigits⟩
    · obtain ⟨d, hd, -⟩ := extends_cons.mp hdigits
      exact absurd hd (not_isDigit_plus hsmall d)
    · obtain rfl : cs = body := (List.cons.inj hbody).2
      exact ⟨hne, hdigits⟩
  · rintro ⟨hne, hdigits⟩
    exact ⟨cs, .inr rfl, hne, hdigits⟩

theorem spells_of_ne_plus (hc : c ≠ '+') :
    Spells radix (c :: cs) n ↔ Extends radix 0 (c :: cs) n := by
  rw [spells_iff]
  constructor
  · rintro ⟨body, rfl | hbody, -, hdigits⟩
    · exact hdigits
    · exact absurd (List.cons.inj hbody).1 hc
  · intro hdigits
    exact ⟨c :: cs, .inl rfl, List.cons_ne_nil _ _, hdigits⟩

/-- A text is read iff it is a numeral of a number within the bound. -/
theorem read_eq_ok_iff (hradix : 0 < radix) (hsmall : radix ≤ 16) :
    read radix bound cs = .ok n ↔ Spells radix cs n ∧ n ≤ bound := by
  have hdigits : ∀ cs, readDigits radix bound 0 cs = .ok n ↔ Extends radix 0 cs n ∧ n ≤ bound :=
    fun cs => readDigits_eq_ok_iff hradix hsmall (Nat.zero_le _)
  cases cs with
  | nil => simp [read, spells_iff]
  | cons c cs =>
    by_cases hc : c = '+'
    · subst hc
      rw [spells_plus hsmall]
      cases cs with
      | nil => simp [read]
      | cons c cs => simp [read, hdigits]
    · rw [spells_of_ne_plus hc, ← hdigits]
      simp [read, hc]

/-! ## Decimal and hexadecimal -/

/-- A text writes a number: in decimal digits, or in hexadecimal ones after their mark. -/
def Writes (cs : List Char) (n : Nat) : Prop :=
  Spells 10 cs n ∨ ∃ rest, (cs = '0' :: 'x' :: rest ∨ cs = '0' :: 'X' :: rest) ∧ Spells 16 rest n

/-- A mark is no decimal digit, so what follows it is hexadecimal. -/
theorem writes_marked {mark : Char} (hmark : mark = 'x' ∨ mark = 'X') :
    Writes ('0' :: mark :: cs) n ↔ Spells 16 cs n := by
  constructor
  · rintro (hdecimal | ⟨rest, hrest, hspells⟩)
    · obtain ⟨_, -, hrest⟩ := extends_cons.mp ((spells_of_ne_plus (by decide)).mp hdecimal)
      obtain ⟨d, hd, -⟩ := extends_cons.mp hrest
      have hvalue := (digitValue?_eq_some_iff (by decide)).mpr hd
      rcases hmark with rfl | rfl <;> cases hvalue
    · have hcs : cs = rest := by
        rcases hrest with h | h <;> exact (List.cons.inj (List.cons.inj h).2).2
      rw [hcs]
      exact hspells
  · intro hspells
    refine .inr ⟨cs, ?_, hspells⟩
    rcases hmark with rfl | rfl
    · exact .inl rfl
    · exact .inr rfl

theorem writes_unmarked (hlower : ∀ rest, cs ≠ '0' :: 'x' :: rest)
    (hupper : ∀ rest, cs ≠ '0' :: 'X' :: rest) : Writes cs n ↔ Spells 10 cs n := by
  refine or_iff_left ?_
  rintro ⟨rest, h | h, -⟩
  · exact hlower rest h
  · exact hupper rest h

/-- A text is read iff it writes a number within the bound. -/
theorem readPrefixed_eq_ok_iff :
    readPrefixed bound cs = .ok n ↔ Writes cs n ∧ n ≤ bound := by
  unfold readPrefixed
  split
  · rw [read_eq_ok_iff (by decide) (by decide), writes_marked (.inl rfl)]
  · rw [read_eq_ok_iff (by decide) (by decide), writes_marked (.inr rfl)]
  · rename_i hlower hupper
    rw [read_eq_ok_iff (by decide) (by decide), writes_unmarked hlower hupper]

/-! ## Numerals hold no white space -/

theorem Extends.not_isBlank (h : Extends radix acc cs n) (hsmall : radix ≤ 16) :
    ∀ c ∈ cs, isBlank c = false := by
  induction cs generalizing acc with
  | nil => exact fun c hc => absurd hc List.not_mem_nil
  | cons c cs ih =>
    obtain ⟨d, hd, hrest⟩ := extends_cons.mp h
    exact List.forall_mem_cons.mpr ⟨hd.not_isBlank hsmall, ih hrest⟩

theorem Spells.not_isBlank (h : Spells radix cs n) (hsmall : radix ≤ 16) :
    ∀ c ∈ cs, isBlank c = false := by
  obtain ⟨body, rfl | rfl, -, hdigits⟩ := spells_iff.mp h
  · exact hdigits.not_isBlank hsmall
  · exact List.forall_mem_cons.mpr ⟨by decide, hdigits.not_isBlank hsmall⟩

theorem Spells.ne_nil (h : Spells radix cs n) : cs ≠ [] := by
  obtain ⟨body, rfl | rfl, hne, -⟩ := spells_iff.mp h
  · exact hne
  · exact List.cons_ne_nil _ _

theorem Writes.not_isBlank (h : Writes cs n) : ∀ c ∈ cs, isBlank c = false := by
  rcases h with hdecimal | ⟨rest, rfl | rfl, hhex⟩
  · exact hdecimal.not_isBlank (by decide)
  all_goals
    refine List.forall_mem_cons.mpr ⟨by decide, List.forall_mem_cons.mpr ⟨by decide, ?_⟩⟩
    exact hhex.not_isBlank (by decide)

theorem Writes.ne_nil (h : Writes cs n) : cs ≠ [] := by
  rcases h with hdecimal | ⟨rest, rfl | rfl, -⟩
  · exact hdecimal.ne_nil
  · exact List.cons_ne_nil _ _
  · exact List.cons_ne_nil _ _

end Numeral

/-! ## White space around a text -/

/-- A text is what is left of it without the white space around it, and that white space. -/
theorem exists_trimBlank (cs : List Char) :
    ∃ left right, cs = left ++ trimBlank cs ++ right ∧
      (∀ c ∈ left, isBlank c = true) ∧ ∀ c ∈ right, isBlank c = true := by
  let rest := cs.dropWhile isBlank
  have hrest : rest = trimBlank cs ++ (rest.reverse.takeWhile isBlank).reverse := by
    rw [trimBlank, ← List.reverse_append, List.takeWhile_append_dropWhile, List.reverse_reverse]
  refine ⟨cs.takeWhile isBlank, (rest.reverse.takeWhile isBlank).reverse, ?_, ?_, ?_⟩
  · rw [List.append_assoc, ← hrest, List.takeWhile_append_dropWhile]
  · exact fun c hc => List.mem_takeWhile_imp hc
  · exact fun c hc => List.mem_takeWhile_imp (List.mem_reverse.mp hc)

theorem dropWhile_isBlank_append {xs ys : List Char} (hxs : ∀ c ∈ xs, isBlank c = true)
    (hys : ∀ c ∈ ys, isBlank c = false) (hne : ys ≠ []) (zs : List Char) :
    (xs ++ (ys ++ zs)).dropWhile isBlank = ys ++ zs := by
  obtain ⟨y, ys, rfl⟩ := List.exists_cons_of_ne_nil hne
  rw [List.dropWhile_append_of_pos hxs, List.cons_append, List.dropWhile_cons_of_neg]
  rw [hys y List.mem_cons_self]
  exact Bool.false_ne_true

/-- A part without white space is what is left if all around it is white space. -/
theorem trimBlank_append {left core right : List Char} (hleft : ∀ c ∈ left, isBlank c = true)
    (hcore : ∀ c ∈ core, isBlank c = false) (hright : ∀ c ∈ right, isBlank c = true) :
    trimBlank (left ++ core ++ right) = core := by
  unfold trimBlank
  by_cases hne : core = []
  · subst hne
    have hall : ∀ c ∈ left ++ [] ++ right, isBlank c = true := by
      rw [List.append_nil]
      exact List.forall_mem_append.mpr ⟨hleft, hright⟩
    rw [← List.append_nil (left ++ [] ++ right), List.dropWhile_append_of_pos hall]
    rfl
  · have hright' : ∀ c ∈ right.reverse, isBlank c = true :=
      fun c hc => hright c (List.mem_reverse.mp hc)
    have hcore' : ∀ c ∈ core.reverse, isBlank c = false :=
      fun c hc => hcore c (List.mem_reverse.mp hc)
    have hne' : core.reverse ≠ [] := fun h => hne (List.reverse_eq_nil_iff.mp h)
    have hback := dropWhile_isBlank_append hright' hcore' hne' []
    rw [List.append_nil] at hback
    rw [List.append_assoc, dropWhile_isBlank_append hleft hcore hne, List.reverse_append, hback,
      List.reverse_reverse]

/-- To ask something of a text without the white space around it is to find a part of which it
holds, with white space around, if it holds of no text with white space in it. -/
theorem trimBlank_iff {P : List Char → Prop} (hsolid : ∀ cs, P cs → ∀ c ∈ cs, isBlank c = false)
    {cs : List Char} :
    P (trimBlank cs) ↔ ∃ left core right, cs = left ++ core ++ right ∧
      (∀ c ∈ left, isBlank c = true) ∧ (∀ c ∈ right, isBlank c = true) ∧ P core := by
  constructor
  · intro hcore
    obtain ⟨left, right, hcs, hleft, hright⟩ := exists_trimBlank cs
    exact ⟨left, trimBlank cs, right, hcs, hleft, hright, hcore⟩
  · rintro ⟨left, core, right, rfl, hleft, hright, hcore⟩
    rwa [trimBlank_append hleft (hsolid core hcore) hright]

theorem trimBlank_eq_nil_iff {cs : List Char} :
    trimBlank cs = [] ↔ ∀ c ∈ cs, isBlank c = true := by
  constructor
  · intro h
    obtain ⟨left, right, hcs, hleft, hright⟩ := exists_trimBlank cs
    rw [hcs, h, List.append_nil]
    exact List.forall_mem_append.mpr ⟨hleft, hright⟩
  · intro h
    have hnil := trimBlank_append h (fun c hc => absurd hc List.not_mem_nil)
      (fun c (hc : c ∈ []) => absurd hc List.not_mem_nil)
    rwa [List.append_nil, List.append_nil] at hnil

theorem trimBlank_ne_nil_iff {cs : List Char} :
    trimBlank cs ≠ [] ↔ ∃ c ∈ cs, isBlank c = false := by
  simp [trimBlank_eq_nil_iff]

/-! ## Pieces of a text -/

theorem splitOnChar_eq_splitOn (sep : Char) (cs : List Char) :
    splitOnChar sep cs = cs.splitOn sep := by
  induction cs with
  | nil => rfl
  | cons c cs ih =>
    have hcons : (c :: cs).splitOn sep =
        if (c == sep) = true then [] :: cs.splitOn sep else (cs.splitOn sep).modifyHead (c :: ·) :=
      List.splitOnP_cons_eq_if_modifyHead c cs
    rw [splitOnChar, ih, hcons]
    by_cases hc : c = sep
    · rw [if_pos hc, if_pos (beq_iff_eq.mpr hc)]
    · rw [if_neg hc, if_neg fun h => hc (beq_iff_eq.mp h)]
      cases hrest : cs.splitOn sep with
      | nil => exact absurd hrest (List.splitOnP_ne_nil _ _)
      | cons piece pieces => rfl

end LinkFabric
