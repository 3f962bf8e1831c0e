import OpenAccounting.Lib.Relational
import Mathlib.Data.List.Flatten

/-!
# Pages of a sorted query

A listing is read in pages: each page is a query of its own with `ORDER BY`, `LIMIT` and
`OFFSET`.  Rows with equal keys may come in another order every time, so the `k`-th page is
cut from the `k`-th answer, and all that the answers share is the list of their keys.

The pages together are the rows, each of them once, exactly when no two rows with equal
keys stand on either side of the end of a page.
-/

namespace Pages

open Relational

variable {ρ κ : Type*} [LinearOrder κ] {key : ρ → κ} {rows : List ρ} {limit : ℕ}

/-- `out` is an answer to `SELECT … ORDER BY key` on the rows. -/
structure Answer (key : ρ → κ) (rows out : List ρ) : Prop where
  perm : out.Perm rows
  sorted : (out.map key).Pairwise (· ≤ ·)

def page (limit offset : ℕ) (out : List ρ) : List ρ := (out.drop offset).take limit

/-- The first `n` pages, the `k`-th cut from the `k`-th answer. -/
def pages (limit : ℕ) (answers : ℕ → List ρ) (n : ℕ) : List ρ :=
  (List.range n).flatMap fun k => page limit (k * limit) (answers k)

/-- No page ends between two equal keys. -/
def Untorn (limit : ℕ) (keys : List κ) : Prop :=
  ∀ front a b back, keys = front ++ a :: b :: back → limit ∣ front.length + 1 → a ≠ b

/-! ## Answers -/

theorem answer_orderBy (key : ρ → κ) (rows : List ρ) : Answer key rows (orderBy key rows) where
  perm := orderBy_perm key rows
  sorted := List.pairwise_map.mpr (pairwise_orderBy key rows)

namespace Answer

variable {out other : List ρ}

theorem length_eq (h : Answer key rows out) : out.length = rows.length := h.perm.length_eq

theorem map_key_eq (h : Answer key rows out) (h' : Answer key rows other) :
    out.map key = other.map key :=
  ((h.perm.trans h'.perm.symm).map key).eq_of_pairwise (fun _ _ _ _ => le_antisymm)
    h.sorted h'.sorted

theorem take_eq_filter {front back : List κ} {k : κ} (hkeys : out.map key = front ++ k :: back)
    (hfront : ∀ x ∈ front, x < k) (hback : ∀ x ∈ back, k ≤ x) :
    out.take front.length = out.filter fun r => key r < k := by
  obtain ⟨before, after, rfl, rfl, hafter⟩ := List.map_eq_append_iff.mp hkeys
  have hbefore : before.filter (fun r => decide (key r < k)) = before := by
    rw [List.filter_eq_self]
    intro r hr
    exact decide_eq_true (hfront _ (List.mem_map_of_mem hr))
  have hnone : after.filter (fun r => decide (key r < k)) = [] := by
    rw [List.filter_eq_nil_iff]
    intro r hr
    have hmem : key r ∈ k :: back := hafter ▸ List.mem_map_of_mem hr
    rcases List.mem_cons.mp hmem with heq | hmem
    · simp [heq]
    · simpa using hback _ hmem
  rw [List.filter_append, hbefore, hnone, List.append_nil, List.length_map, List.take_left]

/-- Two answers agree, up to order, on everything before the end of a page. -/
theorem take_perm (h : Answer key rows out) (h' : Answer key rows other)
    (huntorn : Untorn limit (out.map key)) {m : ℕ} (hm : limit ∣ m) :
    (out.take m).Perm (other.take m) := by
  rcases Nat.lt_or_ge m out.length with hlt | hge
  · cases m with
    | zero => simp
    | succ m =>
      obtain ⟨front, a, b, back, hkeys, hlen⟩ : ∃ front a b back,
          out.map key = front ++ a :: b :: back ∧ front.length = m := by
        have hm : m < (out.map key).length := by simp; omega
        have hnext : m + 1 < (out.map key).length := by simpa using hlt
        refine ⟨(out.map key).take m, (out.map key)[m], (out.map key)[m + 1],
          (out.map key).drop (m + 2), ?_, by simp; omega⟩
        rw [List.getElem_cons_drop, List.getElem_cons_drop, List.take_append_drop]
      have hstep : a < b := by
        have hsorted := h.sorted
        rw [hkeys] at hsorted
        have hle : a ≤ b := by
          have hpair := (List.pairwise_append.mp hsorted).2.1
          exact (List.pairwise_cons.mp hpair).1 b List.mem_cons_self
        exact lt_of_le_of_ne hle (huntorn front a b back hkeys (hlen ▸ hm))
      have hsplit : out.map key = (front ++ [a]) ++ b :: back := by simpa using hkeys
      have hfront : ∀ x ∈ front ++ [a], x < b := by
        intro x hx
        rcases List.mem_append.mp hx with hx | hx
        · have hsorted := h.sorted
          rw [hkeys] at hsorted
          exact lt_of_le_of_lt
            ((List.pairwise_append.mp hsorted).2.2 x hx a List.mem_cons_self) hstep
        · rw [List.mem_singleton.mp hx]
          exact hstep
      have hback : ∀ x ∈ back, b ≤ x := by
        have hsorted := h.sorted
        rw [hsplit] at hsorted
        exact (List.pairwise_cons.mp (List.pairwise_append.mp hsorted).2.1).1
      have hm' : m + 1 = (front ++ [a]).length := by simp [hlen]
      rw [hm', take_eq_filter hsplit hfront hback,
        take_eq_filter ((h'.map_key_eq h).trans hsplit) hfront hback]
      exact (h.perm.trans h'.perm.symm).filter _
  · rw [List.take_of_length_le hge,
      List.take_of_length_le (by rw [h'.length_eq, ← h.length_eq]; exact hge)]
    exact h.perm.trans h'.perm.symm

end Answer

/-! ## All pages -/

theorem pages_succ (limit : ℕ) (answers : ℕ → List ρ) (n : ℕ) :
    pages limit answers (n + 1) = pages limit answers n ++ page limit (n * limit) (answers n) := by
  simp [pages, List.range_succ]

theorem pages_perm {answers : ℕ → List ρ} (hall : ∀ k, Answer key rows (answers k))
    (huntorn : Untorn limit ((orderBy key rows).map key)) (n : ℕ) :
    (pages limit answers n).Perm ((orderBy key rows).take (n * limit)) := by
  have hsorted := answer_orderBy key rows
  induction n with
  | zero => simp [pages]
  | succ n ih =>
    have hagree : ∀ {m : ℕ}, limit ∣ m →
        ((orderBy key rows).take m).Perm ((answers n).take m) :=
      fun hm => hsorted.take_perm (hall n) huntorn hm
    have hpage : (answers n).take (n * limit) ++ page limit (n * limit) (answers n) =
        (answers n).take ((n + 1) * limit) := by
      rw [Nat.succ_mul, List.take_add, page]
    rw [pages_succ]
    refine ((ih.trans (hagree (Dvd.intro_left n rfl))).append_right _).trans ?_
    rw [hpage]
    exact (hagree (Dvd.intro_left (n + 1) rfl)).symm

theorem disjoint_of_nodup {answers : ℕ → List ρ} {i j n : ℕ}
    (h : (pages limit answers n).Nodup) (hij : i < j) (hj : j < n) :
    (page limit (i * limit) (answers i)).Disjoint (page limit (j * limit) (answers j)) := by
  have hpair := List.pairwise_iff_getElem.mp (List.nodup_flatMap.mp h).2 i j
    (by simp; omega) (by simpa using hj) hij
  simpa [Function.onFun] using hpair

theorem mem_page {out : List ρ} {offset i : ℕ} {r : ρ} (hi : i < limit)
    (h : out[offset + i]? = some r) : r ∈ page limit offset out := by
  refine List.mem_of_getElem? (i := i) ?_
  rw [page, List.getElem?_take_of_lt hi, List.getElem?_drop, h]

theorem untorn_of_perm (hnodup : rows.Nodup) (hlimit : 0 < limit) {n : ℕ}
    (hn : rows.length ≤ n * limit)
    (h : ∀ answers : ℕ → List ρ, (∀ k, Answer key rows (answers k)) →
      (pages limit answers n).Perm rows) :
    Untorn limit ((orderBy key rows).map key) := by
  rintro front a b back hkeys ⟨j, hj⟩ rfl
  have hsorted := answer_orderBy key rows
  obtain ⟨before, rest, hout, rfl, hrest⟩ := List.map_eq_append_iff.mp hkeys
  obtain ⟨x, rest, rfl, rfl, hrest⟩ := List.map_eq_cons_iff.mp hrest
  obtain ⟨y, after, rfl, hxy, rfl⟩ := List.map_eq_cons_iff.mp hrest
  rw [List.length_map] at hj
  have hswap : Answer key rows (before ++ y :: x :: after) := by
    constructor
    · rw [hout] at hsorted
      exact ((List.Perm.swap x y after).append_left before).trans hsorted.perm
    · have hkeys' : (before ++ y :: x :: after).map key = (orderBy key rows).map key := by
        simp [hout, hxy]
      rw [hkeys']
      exact hsorted.sorted
  have hperm := h (fun k => if k = j then before ++ y :: x :: after else orderBy key rows) fun k => by
    split
    · exact hswap
    · exact hsorted
  obtain ⟨i, rfl⟩ : ∃ i, j = i + 1 := by
    cases j with
    | zero => simp at hj
    | succ i => exact ⟨i, rfl⟩
  have hlen : before.length + 2 + after.length = rows.length := by
    rw [← hsorted.length_eq, hout]
    simp
    omega
  have hmul : limit * (i + 1) = i * limit + limit := by rw [Nat.mul_comm, Nat.succ_mul]
  have hmul' : (i + 1) * limit = i * limit + limit := Nat.succ_mul i limit
  have hlast : i + 1 < n := by
    by_contra hge
    have hle : n * limit ≤ (i + 1) * limit := Nat.mul_le_mul_right limit (by omega)
    omega
  have hdisjoint := disjoint_of_nodup ((hperm.nodup_iff).mpr hnodup) (Nat.lt_succ_self i) hlast
  rw [if_neg (by omega), if_pos rfl, hout] at hdisjoint
  -- The row in question ends the one page and starts the other.
  refine hdisjoint (a := x) ?_ ?_
  · have hpos : i * limit + (limit - 1) = before.length := by omega
    exact mem_page (i := limit - 1) (by omega) (by rw [hpos]; simp)
  · have hpos : (i + 1) * limit + 0 = before.length + 1 := by omega
    exact mem_page (i := 0) hlimit (by rw [hpos]; simp)

/-- The pages are the rows, each of them once, whatever the answers, exactly when no page
ends between two equal keys. -/
theorem pages_perm_iff (hnodup : rows.Nodup) (hlimit : 0 < limit) {n : ℕ}
    (hn : rows.length ≤ n * limit) :
    (∀ answers : ℕ → List ρ, (∀ k, Answer key rows (answers k)) →
      (pages limit answers n).Perm rows) ↔ Untorn limit ((orderBy key rows).map key) := by
  constructor
  · exact untorn_of_perm hnodup hlimit hn
  · intro huntorn answers hall
    have hperm := pages_perm hall huntorn n
    rw [List.take_of_length_le (by rw [(answer_orderBy key rows).length_eq]; exact hn)] at hperm
    exact hperm.trans (orderBy_perm key rows)

end Pages
