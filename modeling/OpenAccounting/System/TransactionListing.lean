import OpenAccounting.System.JournalOps

/-!
# Reading a whole ledger page by page

A client of the API lists the transactions of a ledger without a cursor and then follows
the links until there is none.  Every page is a query of its own, ordered by date and by
time of creation.  The two are no key of the table: a correction writes the reversal and the
corrected entry in one database transaction, so both have the same `created_at`, and the
database may return them in another order for the next page.

The walk always ends.  It visits every transaction once, whatever the order of equal rows,
exactly when no page ends between two rows of one date and one time.
-/

namespace OpenAccounting

open Calendar Commit

namespace Api

namespace Transactions

/-- The links followed from `params` on, with the rows of all pages.  The `k`-th request
gets its rows from the `k`-th answer.  There is no result when the fuel runs out. -/
def follow (db : Db) (secret : String) (user ledger : Uuid) (answers : ℕ → List Transaction) :
    ℕ → ℕ → PageParams → Option (Except Problem (List TransactionDto))
  | 0, _, _ => none
  | fuel + 1, k, params =>
    match list db secret user ledger (answers k) params with
    | .error e => some (.error e)
    | .ok (rows, none) => some (.ok rows)
    | .ok (rows, some link) =>
      (follow db secret user ledger answers fuel (k + 1) link.params).map fun rest =>
        rest.map (rows ++ ·)

/-- Whatever the order of rows that compare equal, the walk ends and has visited every
transaction of the ledger exactly once. -/
def Exhaustive (db : Db) (secret : String) (user ledger : Uuid) (limit : ℤ) : Prop :=
  ∀ answers : ℕ → List Transaction, (∀ k, Pages.Answer listKey (listed db ledger) (answers k)) →
    ∃ fuel visited,
      follow db secret user ledger answers fuel 0 { limit := some limit } = some (.ok visited) ∧
      visited.Perm ((listed db ledger).map TransactionDto.ofRow)

/-- Every full page ends at an offset that the cursor has room for. -/
def OffsetsFit (db : Db) (ledger : Uuid) (limit : ℕ) : Prop :=
  (((listed db ledger).length / limit * limit : ℕ) : ℤ) < 2 ^ 63

instance (db : Db) (ledger : Uuid) (limit : ℕ) : Decidable (OffsetsFit db ledger limit) := by
  unfold OffsetsFit
  infer_instance

/-! ## One page -/

section

variable {db : Db} {secret : String} {user ledger : Uuid} {answers : ℕ → List Transaction}
  {limit : ℕ}

theorem printable_path (ledger : Uuid) :
    ∀ c ∈ ("/api/v1/ledgers/" ++ Uuid.hyphenated ledger ++ "/transactions").toList, Printable c := by
  have hfront : ∀ c ∈ "/api/v1/ledgers/".toList, Printable c := RustStr.forall_chars rfl
  have hback : ∀ c ∈ "/transactions".toList, Printable c := RustStr.forall_chars rfl
  exact printable_append (printable_append hfront (printable_hyphenated ledger)) hback

theorem list_eq (howner : ∃ l ∈ db.ledgers, l.id = ledger ∧ l.ownerId = user) {params : PageParams}
    {offset : ℕ} (hparams : pageFrom secret params = .ok { limit := limit, offset := offset })
    (answer : List Transaction) :
    list db secret user ledger answer params = .ok
      ((Pages.page limit offset answer).map TransactionDto.ofRow,
        nextLink secret ("/api/v1/ledgers/" ++ Uuid.hyphenated ledger ++ "/transactions")
          { limit := limit, offset := offset } (Pages.page limit offset answer).length) := by
  rw [list, ensureOwned, ensure, if_pos howner, ok_bind, hparams, ok_bind]
  simp

theorem pageFrom_start (hlimit : 1 ≤ limit ∧ limit ≤ 200) :
    pageFrom secret { limit := some (limit : ℤ) } = .ok { limit := limit, offset := 0 } := by
  have hbounds : 1 ≤ (limit : ℤ) ∧ (limit : ℤ) ≤ Page.maxLimit := by
    unfold Page.maxLimit
    omega
  simp [pageFrom, ensure, hbounds, ok_bind]

theorem pageFrom_link (hlimit : 1 ≤ limit ∧ limit ≤ 200) {link : NextLink} {offset : ℤ}
    (hlink : link.limit = limit ∧ link.cursor = cursorOf secret offset)
    (hfits : Rounding.FitsI64 offset) :
    pageFrom secret link.params =
      if 0 ≤ offset then .ok { limit := limit, offset := offset }
      else .error (badRequest "invalid cursor signature") := by
  have hbounds : 1 ≤ (limit : ℤ) ∧ (limit : ℤ) ≤ Page.maxLimit := by
    unfold Page.maxLimit
    omega
  have hparams : link.params = { cursor := some (cursorOf secret offset), limit := some limit } := by
    rw [NextLink.params, hlink.1, hlink.2]
  rw [hparams, pageFrom]
  simp only [Option.getD_some, ensure, if_pos hbounds, ok_bind, readCursor_cursorOf secret hfits]
  split <;> rfl

/-- The offset behind a full page: the next one, or a negative number when there is no room. -/
theorem wrapI64_next {offset : ℕ} (hlimit : limit ≤ 200) (hoffset : (offset : ℤ) < 2 ^ 63) :
    Rounding.FitsI64 (Rounding.wrapI64 (offset + limit)) ∧
      (((offset + limit : ℕ) : ℤ) < 2 ^ 63 → Rounding.wrapI64 (offset + limit) = offset + limit) ∧
      (¬ ((offset + limit : ℕ) : ℤ) < 2 ^ 63 → Rounding.wrapI64 (offset + limit) < 0) := by
  unfold Rounding.FitsI64 Rounding.wrapI64
  refine ⟨?_, ?_, ?_⟩
  · omega
  · intro h
    push_cast at h
    omega
  · intro h
    push_cast at h
    omega

/-- From any page on, the links lead through the rest of the list. -/
theorem follow_eq (howner : ∃ l ∈ db.ledgers, l.id = ledger ∧ l.ownerId = user)
    (hlimit : 1 ≤ limit ∧ limit ≤ 200)
    (hall : ∀ k, Pages.Answer listKey (listed db ledger) (answers k)) (d : ℕ) :
    ∀ {k fuel : ℕ} {params : PageParams}, (listed db ledger).length / limit = k + d → d < fuel →
      pageFrom secret params = .ok { limit := limit, offset := ((k * limit : ℕ) : ℤ) } →
      ((k * limit : ℕ) : ℤ) < 2 ^ 63 →
      follow db secret user ledger answers fuel k params = some
        (if OffsetsFit db ledger limit then
          .ok (((List.range' k (d + 1)).flatMap fun j =>
            Pages.page limit (j * limit) (answers j)).map TransactionDto.ofRow)
        else .error (badRequest "invalid cursor signature")) := by
  have hdiv := Nat.div_add_mod (listed db ledger).length limit
  have hmod := Nat.mod_lt (listed db ledger).length (show limit > 0 by omega)
  induction d with
  | zero =>
    intro k fuel params hk hfuel hparams hoffset
    obtain ⟨fuel, rfl⟩ : ∃ f, fuel = f + 1 := ⟨fuel - 1, by omega⟩
    have hk : (listed db ledger).length / limit = k := by omega
    rw [hk] at hdiv
    have hshort : (Pages.page limit (k * limit) (answers k)).length < limit := by
      rw [Pages.page, List.length_take, List.length_drop, (hall k).length_eq, Nat.mul_comm k]
      omega
    have hfit : OffsetsFit db ledger limit := by
      rw [OffsetsFit, hk]
      exact hoffset
    have hlast : ((Pages.page limit (k * limit) (answers k)).length : ℤ) < limit := by
      exact_mod_cast hshort
    rw [follow, list_eq howner hparams, nextLink, if_pos hlast, if_pos hfit]
    simp
  | succ d ih =>
    intro k fuel params hk hfuel hparams hoffset
    obtain ⟨fuel, rfl⟩ : ∃ f, fuel = f + 1 := ⟨fuel - 1, by omega⟩
    have hnext : (k + 1) * limit = k * limit + limit := Nat.succ_mul k limit
    have hle : (k + 1) * limit ≤ (listed db ledger).length / limit * limit :=
      Nat.mul_le_mul_right limit (by omega)
    have hfull : (Pages.page limit (k * limit) (answers k)).length = limit := by
      rw [Pages.page, List.length_take, List.length_drop, (hall k).length_eq]
      have := Nat.div_mul_le_self (listed db ledger).length limit
      omega
    obtain ⟨link, hlink, hlinkLimit, hcursor⟩ := @nextLink_of_full secret _
      { limit := limit, offset := ((k * limit : ℕ) : ℤ) } limit (printable_path ledger)
      (le_refl (limit : ℤ))
    obtain ⟨hfits, hsame, hneg⟩ := wrapI64_next hlimit.2 hoffset
    have hparams' := pageFrom_link hlimit ⟨hlinkLimit, hcursor⟩ hfits
    rw [follow, list_eq howner hparams, hfull, hlink]
    dsimp only
    by_cases hroom : ((k * limit + limit : ℕ) : ℤ) < 2 ^ 63
    · rw [hsame hroom, if_pos (by positivity)] at hparams'
      rw [ih (k := k + 1) (by omega) (by omega) (by rw [hparams', hnext]; push_cast; rfl)
        (by rw [hnext]; exact hroom)]
      split
      · simp [List.range'_succ, Except.map]
      · rfl
    · have hnotFit : ¬ OffsetsFit db ledger limit := by
        intro hfit
        have hle' : ((k * limit + limit : ℕ) : ℤ) ≤
            ((listed db ledger).length / limit * limit : ℕ) := by
          exact_mod_cast hnext ▸ hle
        exact hroom (lt_of_le_of_lt hle' hfit)
      obtain ⟨fuel, rfl⟩ : ∃ f, fuel = f + 1 := ⟨fuel - 1, by omega⟩
      rw [if_neg (not_le.mpr (hneg hroom))] at hparams'
      rw [if_neg hnotFit, follow, list, ensureOwned, ensure, if_pos howner, ok_bind, hparams']
      rfl

/-! ## The whole walk -/

theorem follow_mono {r : Except Problem (List TransactionDto)} {fuel : ℕ} :
    ∀ {k fuel' : ℕ} {params : PageParams}, fuel ≤ fuel' →
      follow db secret user ledger answers fuel k params = some r →
      follow db secret user ledger answers fuel' k params = some r := by
  induction fuel generalizing r with
  | zero =>
    intro k fuel' params _ h
    cases h
  | succ fuel ih =>
    intro k fuel' params hle h
    obtain ⟨fuel', rfl⟩ : ∃ f, fuel' = f + 1 := ⟨fuel' - 1, by omega⟩
    rw [follow] at h ⊢
    split at h
    · exact h
    · exact h
    · obtain ⟨rest, hrest, rfl⟩ := Option.map_eq_some_iff.mp h
      exact Option.map_eq_some_iff.mpr ⟨rest, ih (by omega) hrest, rfl⟩

theorem follow_start (howner : ∃ l ∈ db.ledgers, l.id = ledger ∧ l.ownerId = user)
    (hlimit : 1 ≤ limit ∧ limit ≤ 200)
    (hall : ∀ k, Pages.Answer listKey (listed db ledger) (answers k)) {fuel : ℕ}
    (hfuel : (listed db ledger).length / limit < fuel) :
    follow db secret user ledger answers fuel 0 { limit := some (limit : ℤ) } = some
      (if OffsetsFit db ledger limit then
        .ok ((Pages.pages limit answers ((listed db ledger).length / limit + 1)).map
          TransactionDto.ofRow)
      else .error (badRequest "invalid cursor signature")) := by
  have hstart : pageFrom secret { limit := some (limit : ℤ) } =
      .ok { limit := limit, offset := ((0 * limit : ℕ) : ℤ) } := by
    rw [Nat.zero_mul]
    exact pageFrom_start hlimit
  have hwalk := follow_eq howner hlimit hall ((listed db ledger).length / limit) (k := 0)
    (by omega) hfuel hstart (by simp)
  rwa [← List.range_eq_range'] at hwalk

theorem follow_terminates (howner : ∃ l ∈ db.ledgers, l.id = ledger ∧ l.ownerId = user)
    (hlimit : 1 ≤ limit ∧ limit ≤ 200)
    (hall : ∀ k, Pages.Answer listKey (listed db ledger) (answers k)) :
    ∃ fuel, (follow db secret user ledger answers fuel 0 { limit := some (limit : ℤ) }).isSome := by
  refine ⟨(listed db ledger).length / limit + 1, ?_⟩
  rw [follow_start howner hlimit hall (Nat.lt_succ_self _)]
  rfl

theorem listed_ids_nodup (db : Db) (ledger : Uuid) :
    ((listed db ledger).map Transaction.id).Nodup :=
  db.books.txn_ids_nodup.sublist (List.filter_sublist.map _)

theorem perm_of_map_ofRow {visited : List Transaction} (hsub : visited ⊆ listed db ledger)
    (h : (visited.map TransactionDto.ofRow).Perm ((listed db ledger).map TransactionDto.ofRow)) :
    visited.Perm (listed db ledger) := by
  have hids : (visited.map Transaction.id).Perm ((listed db ledger).map Transaction.id) := by
    simpa [Function.comp_def, TransactionDto.ofRow] using h.map TransactionDto.id
  have hnodup : visited.Nodup :=
    List.Nodup.of_map _ (hids.nodup_iff.mpr (listed_ids_nodup db ledger))
  refine (hnodup.subperm hsub).perm_of_length_le ?_
  have hlen := hids.length_eq
  rw [List.length_map, List.length_map] at hlen
  exact hlen.ge

theorem pages_subset {n : ℕ}
    (hall : ∀ k, Pages.Answer listKey (listed db ledger) (answers k)) :
    Pages.pages limit answers n ⊆ listed db ledger := by
  intro t ht
  obtain ⟨k, -, ht⟩ := List.mem_flatMap.mp ht
  exact (hall k).perm.subset (List.mem_of_mem_drop (List.mem_of_mem_take ht))

/-- The walk is exhaustive exactly when the pages are the rows, whatever the answers. -/
theorem exhaustive_iff_pages (howner : ∃ l ∈ db.ledgers, l.id = ledger ∧ l.ownerId = user)
    (hlimit : 1 ≤ limit ∧ limit ≤ 200) :
    Exhaustive db secret user ledger limit ↔ OffsetsFit db ledger limit ∧
      ∀ answers : ℕ → List Transaction,
        (∀ k, Pages.Answer listKey (listed db ledger) (answers k)) →
        (Pages.pages limit answers ((listed db ledger).length / limit + 1)).Perm
          (listed db ledger) := by
  constructor
  · intro h
    have hwalk : ∀ answers : ℕ → List Transaction,
        (∀ k, Pages.Answer listKey (listed db ledger) (answers k)) →
        OffsetsFit db ledger limit ∧
          (Pages.pages limit answers ((listed db ledger).length / limit + 1)).Perm
            (listed db ledger) := by
      intro answers hall
      obtain ⟨fuel, visited, hfollow, hperm⟩ := h answers hall
      have hfuel : (listed db ledger).length / limit <
          max fuel ((listed db ledger).length / limit + 1) := by omega
      have hstart := @follow_start _ secret _ _ _ _ howner hlimit hall _ hfuel
      rw [follow_mono (Nat.le_max_left _ _) hfollow] at hstart
      split at hstart
      · next hfit =>
          cases hstart
          exact ⟨hfit, perm_of_map_ofRow (pages_subset hall) hperm⟩
      · cases hstart
    exact ⟨(hwalk _ fun _ => Pages.answer_orderBy listKey _).1, fun answers hall =>
      (hwalk answers hall).2⟩
  · rintro ⟨hfit, h⟩ answers hall
    refine ⟨(listed db ledger).length / limit + 1, _, ?_, (h answers hall).map _⟩
    rw [follow_start howner hlimit hall (Nat.lt_succ_self _), if_pos hfit]

end

/-- Following the links visits every transaction of the ledger exactly once, in any order
of the rows that compare equal, exactly when no page ends between two transactions with the
same date and the same time of creation. -/
theorem exhaustive_iff (db : Db) (secret : String) (user ledger : Uuid) (limit : ℤ)
    (howner : ∃ l ∈ db.ledgers, l.id = ledger ∧ l.ownerId = user)
    (hlimit : 1 ≤ limit ∧ limit ≤ 200) :
    Exhaustive db secret user ledger limit ↔ OffsetsFit db ledger limit.toNat ∧
      Pages.Untorn limit.toNat
        ((Relational.orderBy listKey (listed db ledger)).map listKey) := by
  lift limit to ℕ using by omega
  have hlimit' : 1 ≤ limit ∧ limit ≤ 200 := by omega
  have hdiv := Nat.lt_div_mul_add (a := (listed db ledger).length) (show 0 < limit by omega)
  have hcount : (listed db ledger).length ≤ ((listed db ledger).length / limit + 1) * limit := by
    rw [Nat.succ_mul]
    omega
  have hpages := @Pages.pages_perm_iff _ _ _ listKey _ _ ((listed_ids_nodup db ledger).of_map _)
    (show 0 < limit by omega) _ hcount
  rw [exhaustive_iff_pages howner hlimit', Int.toNat_natCast, hpages]

/-- The sample ledger after a sale and its correction, dated on the day it is made. -/
def corrected : Db :=
  (TransactionsEdit.edit
    (PostingService.create Sample.db (Sample.request 1) (Sample.sale 100)).2 (Sample.request 2)
    (some Sample.owner) Sample.ledgerId ((Sample.request 1).txnId 0)
    { Sample.editForm 90 90 with date := some (Sample.march 15) }).2

/-- The answer in which the first two rows have changed places. -/
def swapFirst : List Transaction → List Transaction
  | t :: u :: rest => u :: t :: rest
  | rows => rows

/-- The reversal and the corrected entry compare equal.  With one row on a page, one of them
comes twice and the other not at all. -/
theorem corrected_not_exhaustive :
    ¬ Exhaustive corrected "dev-secret" Sample.owner Sample.ledgerId 1 := by
  intro h
  have howner : ∃ l ∈ corrected.ledgers, l.id = Sample.ledgerId ∧ l.ownerId = Sample.owner := by
    decide +kernel
  have hlimit : 1 ≤ 1 ∧ 1 ≤ 200 := by decide
  have hpages := ((exhaustive_iff_pages howner hlimit).mp h).2
    (fun k => if k = 1 then
      swapFirst (Relational.orderBy listKey (listed corrected Sample.ledgerId))
      else Relational.orderBy listKey (listed corrected Sample.ledgerId)) fun k => by
    split
    · exact ⟨by decide +kernel, by decide +kernel⟩
    · exact Pages.answer_orderBy listKey _
  revert hpages
  decide +kernel

example : (listed corrected Sample.ledgerId).map Transaction.txnDate =
    [Sample.march 10, Sample.march 15, Sample.march 15] := by
  decide +kernel

/-- With two rows on a page, the equal ones stand on the same page. -/
theorem corrected_exhaustive :
    Exhaustive corrected "dev-secret" Sample.owner Sample.ledgerId 2 := by
  refine (exhaustive_iff corrected "dev-secret" Sample.owner Sample.ledgerId 2 (by decide +kernel)
    (by decide)).mpr ⟨by decide +kernel, ?_⟩
  obtain ⟨k, k', hne, hkeys⟩ : ∃ k k' : (NaiveDate ×ₗ ℤ)ᵒᵈ, k ≠ k' ∧
      (Relational.orderBy listKey (listed corrected Sample.ledgerId)).map listKey = [k, k, k'] :=
    ⟨.toDual (toLex (Sample.march 15, 2)), .toDual (toLex (Sample.march 10, 1)),
      by decide +kernel, by decide +kernel⟩
  rw [hkeys]
  intro front a b back hsplit hdvd
  match front, hsplit with
  | [], _ => simp at hdvd
  | [_], hsplit =>
    simp only [List.cons_append, List.nil_append, List.cons.injEq] at hsplit
    obtain ⟨-, rfl, rfl, -⟩ := hsplit
    exact hne
  | _ :: _ :: rest, hsplit =>
    have hlen := congrArg List.length hsplit
    simp at hlen
    omega

end Transactions

end Api

end OpenAccounting
