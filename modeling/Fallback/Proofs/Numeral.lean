import Fallback.Proofs.Phrase
import Mathlib.Data.Nat.Digits.Defs

/-!
Constants that are written down and read again.

`Constant.spelling` writes a constant down as a token. A text is put between quotes and not escaped,
which is right because only the outermost quotes are taken off. An integer is written with as many
digits as it has, and it is read again unless these are too many (`Numeral.readInteger_toString`).
-/
namespace Fallback

namespace Numeral

open Text

/-! ## Digits -/

theorem digit?_digitChar : ∀ d < 10, digit? (Nat.digitChar d) = some d := by
  decide

theorem not_isGap_digitChar : ∀ d < 10, isGap (Nat.digitChar d) = false := by
  decide

theorem not_isSign_digitChar : ∀ d < 10, Nat.digitChar d ≠ '-' ∧ Nat.digitChar d ≠ '+' := by
  decide

/-- The digits of a number, the highest first. -/
theorem exists_digits (n : Nat) :
    ∃ ds, Nat.toDigits 10 n = ds.map Nat.digitChar ∧ (∀ d ∈ ds, d < 10) ∧ ds ≠ [] ∧
      ofDigits ds = n := by
  induction n using Nat.strongRecOn with
  | ind n ih =>
    by_cases small : n < 10
    · refine ⟨[n], Nat.toDigits_of_lt_base small, List.forall_mem_singleton.2 small,
        List.cons_ne_nil _ _, ?_⟩
      rw [ofDigits, List.foldl_cons, List.foldl_nil, Nat.mul_zero, Nat.zero_add]
    · obtain ⟨ds, spelled, digits, -, same⟩ := ih (n / 10) (by omega)
      refine ⟨ds ++ [n % 10], ?_, ?_, by simp, ?_⟩
      · rw [Nat.toDigits_of_base_le (by decide) (Nat.le_of_not_lt small), spelled, List.map_append]
        rfl
      · exact List.forall_mem_append.2
          ⟨digits, List.forall_mem_singleton.2 (Nat.mod_lt _ (by decide))⟩
      · have last : ofDigits (ds ++ [n % 10]) = 10 * ofDigits ds + n % 10 := by
          simp [ofDigits]
        rw [last, same]
        omega

theorem takeRun_digits {ds : List Nat} (digits : ∀ d ∈ ds, d < 10) (afterDigit : Bool) :
    takeRun afterDigit (ds.map Nat.digitChar) = (ds, []) := by
  induction ds generalizing afterDigit with
  | nil => rfl
  | cons d ds ih =>
    obtain ⟨first, rest⟩ := List.forall_mem_cons.1 digits
    rw [List.map_cons, takeRun, digit?_digitChar d first, ih rest]

theorem length_of_digits {n : Nat} {ds : List Nat}
    (spelled : Nat.toDigits 10 n = ds.map Nat.digitChar) (bounded : n < 10 ^ digitLimit) :
    ds.length ≤ digitLimit := by
  have length := (Nat.length_toDigits_le_iff (by decide) (by decide)).2 bounded
  rwa [spelled, List.length_map] at length

/-- What is spelled with digits after a sign is read. -/
theorem readInteger_digits {n : Nat} (bounded : n < 10 ^ digitLimit) (negative : Bool) :
    readInteger ((if negative then ['-'] else []) ++ Nat.toDigits 10 n) =
      .ok (signed negative n) := by
  obtain ⟨ds, spelled, digits, some, same⟩ := exists_digits n
  have length := length_of_digits spelled bounded
  obtain ⟨d, more, rfl⟩ := List.exists_cons_of_ne_nil some
  obtain ⟨first, -⟩ := List.forall_mem_cons.1 digits
  have body : takeSign (((if negative then ['-'] else []) ++ Nat.toDigits 10 n).dropWhile isGap) =
      (negative, (d :: more).map Nat.digitChar) := by
    rw [spelled]
    cases negative with
    | true => rfl
    | false =>
      obtain ⟨minus, plus⟩ := not_isSign_digitChar d first
      simp only [Bool.false_eq_true, if_false, List.nil_append, List.map_cons,
        List.dropWhile_cons, not_isGap_digitChar d first]
      rw [takeSign]
      · exact fun rest h => minus (List.cons.inj h).1
      · exact fun rest h => plus (List.cons.inj h).1
  have run : takeDigits ((d :: more).map Nat.digitChar) = (d :: more, []) :=
    takeRun_digits digits false
  simp only [readInteger, body, run, same]
  rw [if_neg (by simp), if_neg (Nat.not_lt_of_le length)]
  rfl

/-- An integer that has not too many digits to be shown is read as it is shown. -/
theorem readInteger_toString {n : Int} (bounded : n.natAbs < 10 ^ digitLimit) :
    readInteger (toString n).toList = .ok n := by
  cases n with
  | ofNat m =>
    have shown : (toString (Int.ofNat m)).toList = Nat.toDigits 10 m := by
      show (Nat.repr m).toList = _
      rw [Nat.repr_eq_ofList_toDigits, String.toList_ofList]
    rw [shown]
    exact readInteger_digits (n := m) bounded false
  | negSucc m =>
    have shown : (toString (Int.negSucc m)).toList = '-' :: Nat.toDigits 10 (m + 1) := by
      show ("-" ++ Nat.repr (m + 1)).toList = _
      rw [Nat.repr_eq_ofList_toDigits, String.toList_append, String.toList_ofList,
        String.toList_ofList]
      rfl
    rw [shown]
    exact readInteger_digits (n := m + 1) bounded true

end Numeral

/-! ## Constants -/

/-- A text between quotes. -/
def quoted (t : String) : String :=
  String.ofList (Text.quotation :: (t.toList ++ [Text.quotation]))

/-- Whatever stands between the quotes, it is all that is left without them. -/
theorem unquote_quoted (t : String) : unquote (quoted t) = t := by
  simp [unquote, quoted]

/-- The terminal and the text that a constant is written with. -/
def Constant.spelling : Constant → Terminal × String
  | .null => (.null, "null")
  | .truth true => (.true, "true")
  | .truth false => (.false, "false")
  | .number (.integer n) => (.number, toString n)
  | .number (.float _) => (.number, "")
  | .text t => (.string, quoted t)

/-- The constant can be written: it is null, a truth value, a text or an integer of not too many
digits. -/
def Constant.IsWritable : Constant → Prop
  | .number (.integer n) => n.natAbs < digitBound
  | .number (.float _) => False
  | _ => True

theorem digitBound_eq : digitBound = 10 ^ Numeral.digitLimit := by
  unfold digitBound
  generalize Numeral.digitLimit = limit
  rfl

/-- A constant that is written is read again. -/
theorem Constant.translate_spelling {c : Constant} (writable : c.IsWritable) (mark : Mark) :
    c.spelling.1.translate c.spelling.2 mark = some (.literal mark c) := by
  cases c with
  | null => rfl
  | truth b => cases b <;> rfl
  | text t => rw [spelling, Terminal.translate, unquote_quoted]
  | number x =>
    cases x with
    | integer n =>
      have bounded : n.natAbs < 10 ^ Numeral.digitLimit := digitBound_eq ▸ writable
      rw [spelling, Terminal.translate, NumberReading.of?, Numeral.readInteger_toString bounded]
      rfl
    | float x => exact writable.elim

end Fallback
