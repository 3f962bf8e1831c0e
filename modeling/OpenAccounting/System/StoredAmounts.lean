import OpenAccounting.Domain.PostingStatements
import OpenAccounting.System.JournalOps

/-!
# What `create` accepts and what is stored

`create_with_kind` compares the totals of the amounts as decimals of 28 digits, and
`NUMERIC(20,4)` then rounds every posting on its own.  The trigger that would see the rows as they
are stored is disabled for the write.

The stored debits and credits are equal exactly when the amounts gain by rounding, in all, what
the two sums dropped.
-/

namespace OpenAccounting

open Calendar Commit Rounding

namespace PostingService.Stepwise

/-- What the amounts gain when each is rounded to four decimals, credits counting negative. -/
def roundingGain (amounts : List ℚ) : ℚ := (amounts.map fun a => roundDp 4 a - a).sum

/-- What the sum of the debits dropped more than that of the credits. -/
def droppedDigits (d : Decimal.Arith) (amounts : List ℚ) : ℚ :=
  (PostingService.debitTotal amounts - debitTotal d amounts) -
    (PostingService.creditTotal amounts - creditTotal d amounts)

/-- Rounding the amounts one by one changes debits and credits alike. -/
def RoundsEvenly (d : Decimal.Arith) (amounts : List ℚ) : Prop :=
  roundingGain amounts + droppedDigits d amounts = 0

instance (d : Decimal.Arith) (amounts : List ℚ) : Decidable (RoundsEvenly d amounts) := by
  unfold RoundsEvenly
  infer_instance

/-- The postings of a transaction have equal totals. -/
def StoredEvenly (b : Books) (txn : Uuid) : Prop :=
  Posting.sumOn .debit (b.postingsOf txn) = Posting.sumOn .credit (b.postingsOf txn)

instance (b : Books) (txn : Uuid) : Decidable (StoredEvenly b txn) := by
  unfold StoredEvenly
  infer_instance

/-! ## Stored totals -/

theorem lineRows_signed (req : Request) :
    ∀ (k : ℕ) {ls : List TxnLineInput} {amounts : List ℚ}, amounts.length = ls.length →
      PostingRow.sumOn .debit (lineRows req k ls amounts) -
        PostingRow.sumOn .credit (lineRows req k ls amounts) = (amounts.map (roundDp 4)).sum
  | _, [], [], _ => by simp [lineRows, PostingRow.sumOn]
  | _, [], _ :: _, h => by simp at h
  | _, _ :: _, [], h => by simp at h
  | k, l :: ls, a :: amounts, h => by
    have ih := lineRows_signed req (k + 1) (Nat.succ.inj h)
    rw [lineRows, PostingRow.sumOn_cons, PostingRow.sumOn_cons, List.map_cons, List.sum_cons,
      ← ih]
    by_cases ha : 0 ≤ a
    · simp only [lineRow, Direction.ofSigned, ha, if_true, abs_of_nonneg ha, reduceCtorEq,
        if_false]
      ring
    · have hneg : a < 0 := not_le.mp ha
      simp only [lineRow, Direction.ofSigned, ha, if_true, abs_of_neg hneg, reduceCtorEq,
        if_false, roundDp_neg]
      ring

theorem sum_roundDp (amounts : List ℚ) :
    (amounts.map (roundDp 4)).sum = roundingGain amounts +
      (PostingService.debitTotal amounts - PostingService.creditTotal amounts) := by
  induction amounts with
  | nil => simp [roundingGain, PostingService.debitTotal, PostingService.creditTotal]
  | cons a amounts ih =>
    simp only [roundingGain, PostingService.debitTotal, PostingService.creditTotal,
      List.map_cons, List.sum_cons] at ih ⊢
    rw [ih]
    split <;> ring

/-! ## Equal totals in store -/

/-- What `create` or `create_draft` accepts is stored with equal totals exactly when its amounts
round evenly. -/
theorem storedEvenly_iff_roundsEvenly {d : Decimal.Arith} {sql : Statement → Outcome}
    {db db' : Db} {req : Request} {new : NewTransaction} {isDraft : Bool}
    {created : CreatedTransaction} {effective : List ℚ}
    (hamounts : resolveAmounts d sql db req new = .ok effective)
    (h : createWithKind d sql db req new isDraft = (.ok created, db')) :
    StoredEvenly db'.books created.id ↔ RoundsEvenly d effective := by
  obtain ⟨hbalance, hstored⟩ := createWithKind_stored hamounts h
  have hsigned := lineRows_signed req 0 (resolveAmounts_length hamounts)
  rw [sum_roundDp] at hsigned
  rw [StoredEvenly, PostingRow.Stored.sumOn_eq hstored, PostingRow.Stored.sumOn_eq hstored,
    ← sub_eq_zero, hsigned, RoundsEvenly, droppedDigits, hbalance]
  ring_nf

/-- An answered sale whose fifth decimal is rounded up on both sides. -/
theorem storedEvenly_iff_roundsEvenly_sale :
    ∃ created db', createWithKind Decimal.nearest allDone Sample.db (Sample.request 1)
        (Sample.sale 33.33335) false = (.ok created, db') ∧
      (StoredEvenly db'.books created.id ↔
        RoundsEvenly Decimal.nearest [33.33335, -33.33335]) := by
  have h : createWithKind Decimal.nearest allDone Sample.db (Sample.request 1)
      (Sample.sale 33.33335) false =
        (.ok { id := 1000, kind := .standard, number := some "2026-000001" },
          (createWithKind Decimal.nearest allDone Sample.db (Sample.request 1)
            (Sample.sale 33.33335) false).2) := Prod.ext (by decide +kernel) rfl
  exact ⟨_, _, h, storedEvenly_iff_roundsEvenly rfl h⟩

/-- Two debits of half a ten-thousandth and the credit of one. -/
def halves : NewTransaction :=
  { Sample.sale 0 with
    lines := [{ accountId := Sample.cash, signedAmount := 1 / 20000 },
      { accountId := Sample.cash, signedAmount := 1 / 20000 },
      { accountId := Sample.sales, signedAmount := -1 / 10000 }] }

/-- Both halves are rounded up, and the stored debits are twice the stored credits. -/
theorem not_storedEvenly :
    ¬ ∀ (d : Decimal.Arith), d.Lawful → ∀ (sql : Statement → Outcome) (db db' : Db)
      (req : Request) (new : NewTransaction) (isDraft : Bool) (created : CreatedTransaction),
      createWithKind d sql db req new isDraft = (.ok created, db') →
        StoredEvenly db'.books created.id := by
  intro hall
  have h : createWithKind Decimal.nearest allDone Sample.db (Sample.request 1) halves false =
      (.ok { id := 1000, kind := .standard, number := some "2026-000001" },
        (createWithKind Decimal.nearest allDone Sample.db (Sample.request 1) halves false).2) :=
    Prod.ext (by decide +kernel) rfl
  have heven := hall _ Decimal.nearest_lawful _ _ _ _ _ _ _ h
  exact absurd heven (by decide +kernel)

end PostingService.Stepwise

end OpenAccounting
