import Fallback.Proofs.Numeral
import Mathlib.Data.List.Induction
import Mathlib.Data.List.TakeWhile

/-!
Decimal integers as they are written.

`Numeral.SpellsInteger` is a grammar: gaps, at most one sign, digits with at most one underscore
between any two, and gaps. It knows nothing of how a text is read, and it sets no limit on the
number of digits. Reading agrees with it up to `digitLimit` digits, and refuses what is longer
(`readInteger_of_spells`, `readInteger_eq_ok_iff`). What is refused for its length is a
floating-point numeral as well, and from 1024 binary digits on an infinite one.
-/
namespace Fallback

namespace Text

/-! ## Gaps and digits -/

/-- The code points of gaps. -/
def gapCodes : List Nat :=
  [9, 10, 11, 12, 13, 32, 0x85, 0xA0, 0x1680, 0x2000, 0x2001, 0x2002, 0x2003, 0x2004, 0x2005,
    0x2006, 0x2007, 0x2008, 0x2009, 0x200A, 0x2028, 0x2029, 0x202F, 0x205F, 0x3000]

theorem mem_gapCodes_of_isGap {c : Char} (h : isGap c = true) : c.toNat ∈ gapCodes := by
  simp only [isGap, isAsciiGap, isWideBlank, Bool.or_eq_true, Bool.and_eq_true,
    decide_eq_true_eq] at h
  obtain (_ | rfl) | _ := h
  · simp only [gapCodes, List.mem_cons, List.not_mem_nil, or_false]
    omega
  · decide
  · simp only [gapCodes, List.mem_cons, List.not_mem_nil, or_false]
    omega

/-- A character whose code is apart from the runs of digits is no digit. -/
theorem digit?_eq_none {c : Char} (h : ∀ z ∈ zeros, ¬(z ≤ c.toNat ∧ c.toNat < z + 10)) :
    digit? c = none := by
  rw [digit?, Option.map_eq_none_iff, List.find?_eq_none]
  intro z hz
  simpa using h z hz

theorem digit?_of_isGap {c : Char} (h : isGap c = true) : digit? c = none := by
  have apart : ∀ n ∈ gapCodes, ∀ z ∈ zeros, ¬(z ≤ n ∧ n < z + 10) := by decide
  exact digit?_eq_none (apart _ (mem_gapCodes_of_isGap h))

theorem isGap_of_digit? {c : Char} {d : Nat} (h : digit? c = some d) : isGap c = false := by
  by_contra gap
  rw [digit?_of_isGap (by simpa using gap)] at h
  cases h

/-- What a text starts with is dropped up to the first character of another class. -/
theorem dropWhile_append {p : Char → Bool} {before cs : List Char} {c : Char}
    (gone : ∀ b ∈ before, p b = true) (head : cs.head? = some c) (stays : p c = false) :
    (before ++ cs).dropWhile p = cs := by
  rw [List.dropWhile_append_of_pos gone]
  obtain ⟨more, rfl⟩ := List.head?_eq_some_iff.1 head
  rw [List.dropWhile_cons, stays, if_neg Bool.false_ne_true]

end Text

namespace Numeral

open Text

/-! ## The grammar -/

/-- Digits, with at most one underscore between any two. -/
inductive Digits : List Char → List Nat → Prop
  | one {c : Char} {d : Nat} (digit : digit? c = some d) : Digits [c] [d]
  | next {c : Char} {d : Nat} {cs : List Char} {ds : List Nat} (digit : digit? c = some d)
      (more : Digits cs ds) : Digits (c :: cs) (d :: ds)
  | apart {c : Char} {d : Nat} {cs : List Char} {ds : List Nat} (digit : digit? c = some d)
      (more : Digits cs ds) : Digits (c :: '_' :: cs) (d :: ds)

/-- A sign or none, and whether it is a minus. -/
inductive Sign : List Char → Bool → Prop
  | none : Sign [] false
  | plus : Sign ['+'] false
  | minus : Sign ['-'] true

/-- The text is a decimal integer: digits, which may have a sign before them and gaps around. -/
inductive SpellsInteger : List Char → Bool → List Nat → Prop
  | intro {before sign body after : List Char} {negative : Bool} {ds : List Nat}
      (gapBefore : ∀ c ∈ before, isGap c = true) (signs : Sign sign negative)
      (digits : Digits body ds) (gapAfter : ∀ c ∈ after, isGap c = true) :
      SpellsInteger (before ++ (sign ++ body) ++ after) negative ds

/-- The integer with a sign and digits, the highest digit first. -/
def integerOf (negative : Bool) (ds : List Nat) : Int :=
  signed negative (Nat.ofDigits 10 ds.reverse)

theorem ofDigits_eq (ds : List Nat) : ofDigits ds = Nat.ofDigits 10 ds.reverse := by
  induction ds using List.reverseRecOn with
  | nil => rfl
  | append_singleton ds d ih =>
    rw [ofDigits, List.foldl_append, List.foldl_cons, List.foldl_nil, ← ofDigits, ih,
      List.reverse_append, List.reverse_singleton, List.singleton_append, Nat.ofDigits_cons]
    exact Nat.add_comm _ _

/-! ## Digits are read -/

variable {cs body rest : List Char} {ds : List Nat} {negative : Bool}

theorem Digits.exists_cons (h : Digits cs ds) :
    ∃ c more d ms, cs = c :: more ∧ ds = d :: ms ∧ digit? c = some d := by
  cases h with
  | one digit => exact ⟨_, _, _, _, rfl, rfl, digit⟩
  | next digit _ => exact ⟨_, _, _, _, rfl, rfl, digit⟩
  | apart digit _ => exact ⟨_, _, _, _, rfl, rfl, digit⟩

theorem Digits.digits_lt (h : Digits cs ds) : ∀ d ∈ ds, d < 10 := by
  induction h with
  | one digit => exact List.forall_mem_singleton.2 (digit?_lt digit)
  | next digit _ ih => exact List.forall_mem_cons.2 ⟨digit?_lt digit, ih⟩
  | apart digit _ ih => exact List.forall_mem_cons.2 ⟨digit?_lt digit, ih⟩

theorem SpellsInteger.digits_lt (h : SpellsInteger cs negative ds) : ∀ d ∈ ds, d < 10 := by
  obtain ⟨-, -, digits, -⟩ := h
  exact digits.digits_lt

/-- Digits are taken to their end, if what follows does not go on with them. -/
theorem Digits.takeRun_append (h : Digits body ds) (stops : takeRun true rest = ([], rest))
    (afterDigit : Bool) : takeRun afterDigit (body ++ rest) = (ds, rest) := by
  induction h generalizing afterDigit with
  | one digit => simp only [List.singleton_append, takeRun, digit, stops]
  | next digit _ ih => simp only [List.cons_append, takeRun, digit, ih true]
  | @apart _ _ cs ds digit more ih =>
    have none : digit? '_' = none := by decide
    have starts : startsWithDigit (cs ++ rest) = true := by
      obtain ⟨c, more, d, ms, rfl, rfl, first⟩ := more.exists_cons
      simp [startsWithDigit, isDigit, first]
    simp [takeRun, digit, none, starts, ih false]

theorem takeRun_gaps (gaps : ∀ c ∈ rest, isGap c = true) : takeRun true rest = ([], rest) := by
  cases rest with
  | nil => rfl
  | cons c cs =>
    have gap := gaps c (List.mem_cons_self ..)
    have other : c ≠ '_' := by
      rintro rfl
      exact absurd gap (by decide)
    simp [takeRun, digit?_of_isGap gap, other]

/-- A text that goes on with a digit has one to be taken. -/
theorem takeRun_ne_nil (starts : startsWithDigit rest = true) (afterDigit : Bool) :
    (takeRun afterDigit rest).1 ≠ [] := by
  cases rest with
  | nil => cases starts
  | cons c cs =>
    obtain ⟨d, digit⟩ := Option.isSome_iff_exists.1 (show (digit? c).isSome = true from starts)
    simp only [takeRun, digit]
    exact List.cons_ne_nil _ _

/-- What is taken from a text are digits that it starts with, after an underscore if one is
allowed. -/
theorem exists_of_takeRun (cs : List Char) (afterDigit : Bool) :
    ((takeRun afterDigit cs).1 = [] ∧ (takeRun afterDigit cs).2 = cs) ∨
      ∃ body, Digits body (takeRun afterDigit cs).1 ∧
        (cs = body ++ (takeRun afterDigit cs).2 ∨
          afterDigit = true ∧ cs = '_' :: body ++ (takeRun afterDigit cs).2) := by
  induction afterDigit, cs using takeRun.induct with
  | case1 afterDigit => exact .inl ⟨rfl, rfl⟩
  | case2 afterDigit c rest d digit ih =>
    simp only [takeRun, digit]
    refine .inr ?_
    obtain ⟨nothing, all⟩ | ⟨body, digits, next | ⟨-, next⟩⟩ := ih
    · exact ⟨[c], by rw [nothing]; exact .one digit, .inl (by rw [all]; rfl)⟩
    · exact ⟨c :: body, .next digit digits, .inl (congrArg (c :: ·) next)⟩
    · exact ⟨c :: '_' :: body, .apart digit digits, .inl (congrArg (c :: ·) next)⟩
  | case3 afterDigit c rest none goes ih =>
    simp only [takeRun, none, goes, if_true]
    simp only [Bool.and_eq_true, decide_eq_true_eq] at goes
    obtain ⟨⟨rfl, after⟩, starts⟩ := goes
    obtain ⟨nothing, -⟩ | ⟨body, digits, next | ⟨never, -⟩⟩ := ih
    · exact absurd nothing (takeRun_ne_nil starts false)
    · exact .inr ⟨body, digits, .inr ⟨after, congrArg ('_' :: ·) next⟩⟩
    · cases never
  | case4 afterDigit c rest none stays =>
    simp [takeRun, none, stays]

/-- The digits that are taken from a text are those that it starts with. -/
theorem exists_of_takeDigits (taken : takeDigits cs = (ds, rest)) (some : ds.isEmpty = false) :
    ∃ body, Digits body ds ∧ cs = body ++ rest := by
  have read := exists_of_takeRun cs false
  rw [← takeDigits, taken] at read
  obtain ⟨rfl, -⟩ | ⟨body, digits, next | ⟨never, -⟩⟩ := read
  · cases some
  · exact ⟨body, digits, next⟩
  · cases never

/-! ## Integers are read -/

/-- The sign of an integer is taken, and nothing else. -/
theorem Sign.takeSign_append {sign : List Char} (signs : Sign sign negative)
    (digits : Digits body ds) (rest : List Char) :
    takeSign (sign ++ (body ++ rest)) = (negative, body ++ rest) := by
  cases signs with
  | none =>
    obtain ⟨c, more, d, ms, rfl, rfl, digit⟩ := digits.exists_cons
    have minus : digit? '-' = Option.none := by decide
    have plus : digit? '+' = Option.none := by decide
    rw [List.nil_append, List.cons_append, takeSign]
    · rintro rest ⟨⟩
      rw [minus] at digit
      cases digit
    · rintro rest ⟨⟩
      rw [plus] at digit
      cases digit
  | plus => rfl
  | minus => rfl

theorem exists_sign_of_takeSign (cs : List Char) :
    ∃ sign, Sign sign (takeSign cs).1 ∧ cs = sign ++ (takeSign cs).2 := by
  rw [takeSign.eq_def]
  split
  · exact ⟨['-'], .minus, rfl⟩
  · exact ⟨['+'], .plus, rfl⟩
  · exact ⟨[], .none, rfl⟩

/-- After the gaps an integer starts with its sign or with a digit. -/
theorem Sign.exists_head? {sign : List Char} (signs : Sign sign negative)
    (digits : Digits body ds) (rest : List Char) :
    ∃ c, (sign ++ (body ++ rest)).head? = some c ∧ isGap c = false := by
  cases signs with
  | none =>
    obtain ⟨c, more, d, ms, rfl, rfl, digit⟩ := digits.exists_cons
    exact ⟨c, rfl, isGap_of_digit? digit⟩
  | plus => exact ⟨'+', rfl, by decide⟩
  | minus => exact ⟨'-', rfl, by decide⟩

/-- An integer is read, unless it has too many digits. -/
theorem readInteger_of_spells (spells : SpellsInteger cs negative ds) :
    readInteger cs = if digitLimit < ds.length then .error (.tooLong ds.length)
      else .ok (integerOf negative ds) := by
  obtain @⟨before, sign, body, after, negative, ds, gapBefore, signs, digits, gapAfter⟩ := spells
  obtain ⟨c, head, stays⟩ := signs.exists_head? digits after
  have front : takeSign ((before ++ (sign ++ body) ++ after).dropWhile isGap) =
      (negative, body ++ after) := by
    rw [List.append_assoc, List.append_assoc, dropWhile_append gapBefore head stays,
      signs.takeSign_append digits]
  have run : takeDigits (body ++ after) = (ds, after) :=
    digits.takeRun_append (takeRun_gaps gapAfter) false
  have some : ds.isEmpty = false := by
    obtain ⟨c, more, d, ms, rfl, rfl, -⟩ := digits.exists_cons
    rfl
  have other : after.head? ≠ .some '_' := by
    intro underscore
    exact absurd (gapAfter _ (List.mem_of_head? underscore)) (by decide)
  have gaps : after.all isGap = true := List.all_eq_true.2 gapAfter
  simp only [readInteger, front, run, some, other, gaps, integerOf, ofDigits_eq]
  rfl

/-- What is read as an integer is one, of not too many digits. -/
theorem exists_spells_of_readInteger {n : Int} (h : readInteger cs = .ok n) :
    ∃ negative ds, SpellsInteger cs negative ds ∧ ds.length ≤ digitLimit ∧
      n = integerOf negative ds := by
  obtain ⟨sign, signs, split⟩ := exists_sign_of_takeSign (cs.dropWhile isGap)
  rcases taken : takeDigits (takeSign (cs.dropWhile isGap)).2 with ⟨ds, rest⟩
  simp only [readInteger, taken] at h
  split at h
  · cases h
  · next proper =>
    split at h
    · cases h
    · next short =>
      split at h
      · next gaps =>
        simp only [Bool.or_eq_true, not_or] at proper
        obtain ⟨body, digits, next⟩ := exists_of_takeDigits taken (by simpa using proper.1)
        have whole : cs.takeWhile isGap ++ (sign ++ body) ++ rest = cs := by
          rw [List.append_assoc, List.append_assoc, ← next, ← split]
          exact List.takeWhile_append_dropWhile ..
        have gapBefore (c : Char) (hc : c ∈ cs.takeWhile isGap) : isGap c = true :=
          List.mem_takeWhile_imp hc
        have spells := SpellsInteger.intro gapBefore signs digits (List.all_eq_true.1 gaps)
        rw [whole] at spells
        refine ⟨_, ds, spells, Nat.le_of_not_lt short, ?_⟩
        rw [integerOf, ← ofDigits_eq]
        exact (Except.ok.inj h).symm
      · cases h

/-- Reading gives an integer exactly for the texts that are decimal integers of not too many
digits, and it is the integer that they spell. -/
theorem readInteger_eq_ok_iff {n : Int} :
    readInteger cs = .ok n ↔ ∃ negative ds, SpellsInteger cs negative ds ∧
      ds.length ≤ digitLimit ∧ n = integerOf negative ds := by
  refine ⟨exists_spells_of_readInteger, ?_⟩
  rintro ⟨negative, ds, spells, short, rfl⟩
  rw [readInteger_of_spells spells, if_neg (Nat.not_lt_of_le short)]

/-- What is read has not too many digits to be shown. -/
theorem natAbs_lt_of_readInteger {n : Int} (h : readInteger cs = .ok n) :
    n.natAbs < digitBound := by
  obtain ⟨negative, ds, spells, short, rfl⟩ := readInteger_eq_ok_iff.1 h
  have value : (integerOf negative ds).natAbs = Nat.ofDigits 10 ds.reverse := by
    rw [integerOf, signed]
    split <;> simp
  rw [value, digitBound_eq]
  calc Nat.ofDigits 10 ds.reverse < 10 ^ ds.reverse.length :=
        Nat.ofDigits_lt_base_pow_length (by decide)
          fun d hd => spells.digits_lt d (List.mem_reverse.1 hd)
    _ ≤ 10 ^ digitLimit := by
        rw [List.length_reverse]
        exact Nat.pow_le_pow_right (by decide) short

end Numeral

namespace Binary64

end Binary64

namespace Numeral

end Numeral

end Fallback
