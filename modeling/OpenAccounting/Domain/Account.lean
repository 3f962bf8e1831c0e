import Mathlib.Data.List.Infix
import Mathlib.Algebra.GroupWithZero.Nat
import Mathlib.Data.Rat.Defs
import Mathlib.Data.Fin.Basic

/-!
# Accounts

The chart of accounts (`domain/account.rs`).  An account has one of five types
and a subtype that the type admits.  The constraint `chk_account_subtype` of the
schema is `AccountType.validSubtypes`, and an `Account` carries it as a field.
-/

namespace OpenAccounting

/-- A 128-bit identifier, ordered as its bytes are. -/
abbrev Uuid := Fin (2 ^ 128)

instance Uuid.neZero_card : NeZero (2 ^ 128) := ⟨by decide⟩

instance Uuid.lawfulBEq : LawfulBEq Uuid := inferInstance

/-- The text of an identifier: 32 hexadecimal digits in five groups. -/
def Uuid.hyphenated (u : Uuid) : String :=
  let digits := ((List.range 32).reverse.map fun i => Nat.digitChar (u.val / 16 ^ i % 16))
  let group (start len : ℕ) := String.ofList ((digits.drop start).take len)
  group 0 8 ++ "-" ++ group 8 4 ++ "-" ++ group 12 4 ++ "-" ++ group 16 4 ++ "-" ++ group 20 12

theorem Uuid.isAlphanum_digitChar : ∀ n < 16, (Nat.digitChar n).isAlphanum = true := by decide

theorem Uuid.mem_hyphenated {u : Uuid} {c : Char} (h : c ∈ u.hyphenated.toList) :
    c.isAlphanum = true ∨ c = '-' := by
  have hdigits : ∀ d ∈ (List.range 32).reverse.map fun i => Nat.digitChar (u.val / 16 ^ i % 16),
      d.isAlphanum = true := by
    intro d hd
    obtain ⟨i, -, rfl⟩ := List.mem_map.mp hd
    exact isAlphanum_digitChar _ (Nat.mod_lt _ (by decide))
  have hgroup : ∀ start len : ℕ, c ∈ (((List.range 32).reverse.map fun i =>
      Nat.digitChar (u.val / 16 ^ i % 16)).drop start).take len → c.isAlphanum = true :=
    fun start len hc => hdigits c (List.mem_of_mem_drop (List.mem_of_mem_take hc))
  simp only [hyphenated, String.toList_append, String.toList_ofList, List.mem_append] at h
  rcases h with (((((((h | h) | h) | h) | h) | h) | h) | h) | h
  · exact Or.inl (hgroup _ _ h)
  · exact Or.inr (by simpa using h)
  · exact Or.inl (hgroup _ _ h)
  · exact Or.inr (by simpa using h)
  · exact Or.inl (hgroup _ _ h)
  · exact Or.inr (by simpa using h)
  · exact Or.inl (hgroup _ _ h)
  · exact Or.inr (by simpa using h)
  · exact Or.inl (hgroup _ _ h)

theorem Uuid.length_hyphenated (u : Uuid) : u.hyphenated.toList.length = 36 := by
  simp [hyphenated]

/-- The hexadecimal digits, the highest one first. -/
def Uuid.digits (u : Uuid) : List Char :=
  (List.range 32).reverse.map fun i => Nat.digitChar (u.val / 16 ^ i % 16)

theorem Uuid.digits_injective : Function.Injective Uuid.digits := by
  intro u v h
  have hdigit : ∀ i < 32, u.val / 16 ^ i % 16 = v.val / 16 ^ i % 16 := by
    intro i hi
    have hchar := List.map_inj_left.mp h i (by simpa using hi)
    have hinj : ∀ m < 16, ∀ n < 16, Nat.digitChar m = Nat.digitChar n → m = n := by decide
    exact hinj _ (Nat.mod_lt _ (by decide)) _ (Nat.mod_lt _ (by decide)) hchar
  have hmod : ∀ n ≤ 32, u.val % 16 ^ n = v.val % 16 ^ n := by
    intro n
    induction n with
    | zero => simp [Nat.mod_one]
    | succ n ih =>
      intro hn
      rw [Nat.mod_pow_succ, Nat.mod_pow_succ, ih (by omega), hdigit n (by omega)]
  have hall := hmod 32 le_rfl
  have hcard : 16 ^ 32 = 2 ^ 128 := by decide
  rw [hcard, Nat.mod_eq_of_lt u.isLt, Nat.mod_eq_of_lt v.isLt] at hall
  exact Fin.ext hall

theorem Uuid.hyphenated_injective : Function.Injective Uuid.hyphenated := by
  intro u v h
  have hfilter : ∀ w : Uuid, w.hyphenated.toList.filter (· ≠ '-') = w.digits := by
    intro w
    have hplain : ∀ start len, ((w.digits.drop start).take len).filter (· ≠ '-') =
        (w.digits.drop start).take len := by
      intro start len
      refine List.filter_eq_self.mpr fun c hc => decide_eq_true ?_
      rintro rfl
      have hmem := List.mem_of_mem_drop (List.mem_of_mem_take hc)
      obtain ⟨i, -, hi⟩ := List.mem_map.mp hmem
      have halnum := isAlphanum_digitChar _ (Nat.mod_lt (w.val / 16 ^ i) (by decide : 0 < 16))
      rw [hi] at halnum
      cases halnum
    have hlist : w.hyphenated.toList = (w.digits.drop 0).take 8 ++ '-' :: ((w.digits.drop 8).take 4 ++
        '-' :: ((w.digits.drop 12).take 4 ++ '-' :: ((w.digits.drop 16).take 4 ++
          '-' :: (w.digits.drop 20).take 12))) := by
      simp [hyphenated, digits]
    have hjoin : ∀ m n, (w.digits.drop m).take n ++ w.digits.drop (m + n) = w.digits.drop m := by
      intro m n
      rw [← List.drop_drop, List.take_append_drop]
    have hlast : (w.digits.drop 20).take 12 = w.digits.drop 20 :=
      List.take_of_length_le (by simp [digits])
    have hdash : decide ('-' ≠ '-') = false := rfl
    simp only [hlist, List.filter_append, List.filter_cons, hdash, hplain, Bool.false_eq_true,
      if_false]
    rw [hlast, hjoin 16 4, hjoin 12 4, hjoin 8 4, hjoin 0 8, List.drop_zero]
  rw [← Uuid.digits_injective.eq_iff, ← hfilter, ← hfilter, h]

inductive AccountType where
  | asset
  | liability
  | equity
  | income
  | expense
deriving DecidableEq, Repr

/-- The side of a posting. -/
inductive Direction where
  | debit
  | credit
deriving DecidableEq, Repr

inductive AccountSubtype where
  | currentAsset
  | fixedAsset
  | intangibleAsset
  | otherAsset
  | employeeAdvance
  | currentLiability
  | longTermLiability
  | employeePayable
  | equity
  | retainedEarnings
  | drawing
  | operatingIncome
  | nonOperatingIncome
  | costOfGoodsSold
  | operatingExpense
  | nonOperatingExpense
  | taxExpense
deriving DecidableEq, Repr

namespace Direction

/-- The column value of a direction. -/
def asStr : Direction → String
  | .debit => "DEBIT"
  | .credit => "CREDIT"

/-- The direction of a column value.  Anything else violates the `CHECK`. -/
def fromDb (s : String) : Option Direction :=
  if s = "DEBIT" then some .debit
  else if s = "CREDIT" then some .credit
  else none

/-- The other side. -/
def flip : Direction → Direction
  | .debit => .credit
  | .credit => .debit

end Direction

namespace AccountType

/-- The column value of a type. -/
def asStr : AccountType → String
  | .asset => "ASSET"
  | .liability => "LIABILITY"
  | .equity => "EQUITY"
  | .income => "INCOME"
  | .expense => "EXPENSE"

/-- Asset and expense accounts are debit-normal, the others credit-normal. -/
def normalDirection : AccountType → Direction
  | .asset => .debit
  | .expense => .debit
  | .liability => .credit
  | .equity => .credit
  | .income => .credit

/-- The subtypes an account of this type may have. -/
def validSubtypes : AccountType → List AccountSubtype
  | .asset => [.currentAsset, .fixedAsset, .intangibleAsset, .otherAsset, .employeeAdvance]
  | .liability => [.currentLiability, .longTermLiability, .employeePayable]
  | .equity => [.equity, .retainedEarnings, .drawing]
  | .income => [.operatingIncome, .nonOperatingIncome]
  | .expense => [.costOfGoodsSold, .operatingExpense, .nonOperatingExpense, .taxExpense]

theorem currentAsset_valid : AccountSubtype.currentAsset ∈ validSubtypes .asset := by decide

theorem operatingIncome_valid : AccountSubtype.operatingIncome ∈ validSubtypes .income := by decide

theorem operatingExpense_valid : AccountSubtype.operatingExpense ∈ validSubtypes .expense := by
  decide

theorem currentLiability_valid : AccountSubtype.currentLiability ∈ validSubtypes .liability := by
  decide

theorem employeePayable_valid : AccountSubtype.employeePayable ∈ validSubtypes .liability := by
  decide

theorem employeeAdvance_valid : AccountSubtype.employeeAdvance ∈ validSubtypes .asset := by decide

theorem equity_valid : AccountSubtype.equity ∈ validSubtypes .equity := by decide

end AccountType

/-- The column value of a subtype. -/
def AccountSubtype.asStr : AccountSubtype → String
  | .currentAsset => "CURRENT_ASSET"
  | .fixedAsset => "FIXED_ASSET"
  | .intangibleAsset => "INTANGIBLE_ASSET"
  | .otherAsset => "OTHER_ASSET"
  | .employeeAdvance => "EMPLOYEE_ADVANCE"
  | .currentLiability => "CURRENT_LIABILITY"
  | .longTermLiability => "LONG_TERM_LIABILITY"
  | .employeePayable => "EMPLOYEE_PAYABLE"
  | .equity => "EQUITY"
  | .retainedEarnings => "RETAINED_EARNINGS"
  | .drawing => "DRAWING"
  | .operatingIncome => "OPERATING_INCOME"
  | .nonOperatingIncome => "NON_OPERATING_INCOME"
  | .costOfGoodsSold => "COST_OF_GOODS_SOLD"
  | .operatingExpense => "OPERATING_EXPENSE"
  | .nonOperatingExpense => "NON_OPERATING_EXPENSE"
  | .taxExpense => "TAX_EXPENSE"

structure Account where
  id : Uuid
  ledgerId : Uuid
  name : String
  code : Option String := none
  type : AccountType
  subtype : AccountSubtype
  currency : String := "USD"
  isArchived : Bool := false
  /-- The constraint `chk_account_subtype`. -/
  subtype_valid : subtype ∈ type.validSubtypes
deriving DecidableEq

/-- `LOWER(name) LIKE '%part%'`. -/
def Account.nameContains (a : Account) (part : String) : Bool :=
  part.toList <:+: a.name.toLower.toList

end OpenAccounting
