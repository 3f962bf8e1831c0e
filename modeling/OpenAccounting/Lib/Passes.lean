import OpenAccounting.Lib.Relational
import Mathlib.Logic.Function.Iterate

/-!
# Passes that move rows

A pass over a table chooses a value of a column, and moves every row that has this value to another
one.  Which value it chooses depends on the table, so a second pass may choose a different one.

After any number of passes the rows of some set of values are moved (`iterate_pass`).  Exactly one
row is moved if and only if the first choice is the value of one row, and the second pass, if there
is one, finds nothing to move (`movesOne_iterate_iff`).
-/

namespace Passes

open Relational

/-- A column of the rows `ρ` with values `κ`. -/
structure Column (ρ κ : Type*) where
  get : ρ → κ
  put : κ → ρ → ρ
  get_put : ∀ k r, get (put k r) = k
  put_put : ∀ k l r, put k (put l r) = put k r
  put_get : ∀ r, put (get r) r = r

attribute [simp] Column.get_put Column.put_put

variable {ρ κ : Type*} [DecidableEq κ] (col : Column ρ κ)

/-- One pass.  It moves the rows of the chosen value to `new`. -/
def pass (choose : List ρ → Option κ) (new : κ) (rows : List ρ) : List ρ :=
  match choose rows with
  | some old => updateWhere (fun r => col.get r = old) (col.put new) rows
  | none => rows

/-- The rows of the values `olds` are moved to `new`. -/
def moveAll (olds : List κ) (new : κ) (rows : List ρ) : List ρ :=
  updateWhere (fun r => col.get r ∈ olds) (col.put new) rows

/-- The rows whose value has changed, with what has become of them. -/
def changed (rows rows' : List ρ) : List (ρ × ρ) :=
  (rows.zip rows').filter fun rr => col.get rr.1 ≠ col.get rr.2

def MovesOne (rows rows' : List ρ) (old new : κ) : Prop :=
  ∃ r, changed col rows rows' = [(r, col.put new r)] ∧ col.get r = old

variable {col} {choose : List ρ → Option κ} {old new : κ} {rows : List ρ}

theorem moveAll_moveAll (olds olds' : List κ) :
    moveAll col olds new (moveAll col olds' new rows) = moveAll col (olds ++ olds') new rows := by
  rw [moveAll, moveAll, moveAll, updateWhere, updateWhere, updateWhere, List.map_map]
  refine List.map_congr_left fun r _ => ?_
  by_cases hr' : col.get r ∈ olds'
  · simp [hr']
  · by_cases hr : col.get r ∈ olds <;> simp [hr, hr']

@[simp] theorem moveAll_nil : moveAll col [] new rows = rows := by
  simp [moveAll, updateWhere]

theorem pass_of_some {c : κ} (h : choose rows = some c) :
    pass col choose new rows = moveAll col [c] new rows := by
  simp [pass, moveAll, h]

theorem pass_of_done (h : ∀ c ∈ choose rows, c = new) : pass col choose new rows = rows := by
  unfold pass
  split
  · next c hc =>
      have hnew : c = new := h c hc
      subst hnew
      refine (List.map_congr_left fun r _ => ?_).trans (List.map_id' rows)
      split
      · next hr => rw [← hr, col.put_get]
      · rfl
  · rfl

theorem iterate_pass (col : Column ρ κ) (k : ℕ) :
    ∃ olds, (pass col choose new)^[k] rows = moveAll col olds new rows := by
  induction k with
  | zero => exact ⟨[], moveAll_nil.symm⟩
  | succ k ih =>
    obtain ⟨olds, hk⟩ := ih
    rw [Function.iterate_succ_apply', hk]
    cases hchoose : choose (moveAll col olds new rows) with
    | none => exact ⟨olds, pass_of_done (by simp [hchoose])⟩
    | some c => exact ⟨[c] ++ olds, by rw [pass_of_some hchoose, moveAll_moveAll]⟩

theorem changed_moveAll (olds : List κ) :
    changed col rows (moveAll col olds new rows) =
      (rows.filter fun r => col.get r ∈ olds ∧ col.get r ≠ new).map fun r =>
        (r, col.put new r) := by
  induction rows with
  | nil => rfl
  | cons r rows ih =>
    have hcons : moveAll col olds new (r :: rows) =
        (if col.get r ∈ olds then col.put new r else r) :: moveAll col olds new rows := rfl
    rw [changed] at ih
    rw [changed, hcons, List.zip_cons_cons, List.filter_cons, List.filter_cons, ih]
    by_cases hnew : col.get r = new
    · subst hnew
      simp [col.put_get]
    · by_cases hr : col.get r ∈ olds <;> simp [hr, hnew]

theorem movesOne_moveAll_iff {olds : List κ} :
    MovesOne col rows (moveAll col olds new rows) old new ↔
      ∃ r, (rows.filter fun r => col.get r ∈ olds ∧ col.get r ≠ new) = [r] ∧ col.get r = old := by
  rw [MovesOne, changed_moveAll]
  refine exists_congr fun r => and_congr_left fun _ => ?_
  constructor
  · intro h
    obtain ⟨r', hr', heq⟩ := List.map_eq_singleton_iff.mp h
    rw [hr', (Prod.mk.injEq ..).mp heq |>.1]
  · intro h
    rw [h, List.map_singleton]

theorem not_movesOne_self (rows : List ρ) (old new : κ) : ¬ MovesOne col rows rows old new := by
  rintro ⟨r, hchanged, -⟩
  have hnone : changed col rows (moveAll col [] new rows) = [] := by
    rw [changed_moveAll]
    simp
  rw [moveAll_nil, hchanged] at hnone
  cases hnone

theorem MovesOne.get_eq {olds : List κ} (h : MovesOne col rows (moveAll col olds new rows) old new)
    {r : ρ} (hr : r ∈ rows) (holds : col.get r ∈ olds) (hnew : col.get r ≠ new) :
    col.get r = old := by
  obtain ⟨r', hmoved, hget⟩ := movesOne_moveAll_iff.mp h
  have hmem : r ∈ rows.filter fun r => col.get r ∈ olds ∧ col.get r ≠ new := by
    simp [hr, holds, hnew]
  rw [hmoved, List.mem_singleton] at hmem
  rw [hmem, hget]

theorem MovesOne.length_filter {olds : List κ}
    (h : MovesOne col rows (moveAll col olds new rows) old new) (hold : old ∈ olds)
    (hne : old ≠ new) : (rows.filter fun r => col.get r = old).length = 1 := by
  obtain ⟨r, hmoved, hget⟩ := movesOne_moveAll_iff.mp h
  have hsame : (rows.filter fun r => col.get r = old) = [r].filter fun r => col.get r = old := by
    rw [← hmoved, List.filter_filter]
    refine List.filter_congr fun x _ => ?_
    by_cases hx : col.get x = old <;> simp [hx, hold, hne]
  simp [hsame, hget]

theorem movesOne_moveAll_singleton (hne : old ≠ new)
    (h : (rows.filter fun r => col.get r = old).length = 1) :
    MovesOne col rows (moveAll col [old] new rows) old new := by
  obtain ⟨r, hr⟩ := List.length_eq_one_iff.mp h
  refine movesOne_moveAll_iff.mpr ⟨r, ?_, ?_⟩
  · rw [← hr]
    refine List.filter_congr fun x _ => ?_
    by_cases hx : col.get x = old <;> simp [hx, hne]
  · have hmem : r ∈ rows.filter fun r => col.get r = old := by simp [hr]
    simpa using (List.mem_filter.mp hmem).2

/-- Exactly one row is moved if and only if the first pass moves one, and a second has nothing left
to move. -/
theorem movesOne_iterate_iff
    (hchoose : ∀ {rows c}, choose rows = some c → ∃ r ∈ rows, col.get r = c)
    (hold : choose rows = some old) (hne : old ≠ new) {k : ℕ} (hk : 0 < k) :
    MovesOne col rows ((pass col choose new)^[k] rows) old new ↔
      (rows.filter fun r => col.get r = old).length = 1 ∧
        (k = 1 ∨ ∀ c ∈ choose (moveAll col [old] new rows), c = new) := by
  obtain ⟨n, rfl⟩ : ∃ n, k = n + 1 := ⟨k - 1, by omega⟩
  rw [Function.iterate_succ_apply, pass_of_some hold]
  constructor
  · intro hmoves
    have hone : (rows.filter fun r => col.get r = old).length = 1 := by
      obtain ⟨olds, hpasses⟩ := iterate_pass col n
      rw [hpasses, moveAll_moveAll] at hmoves
      exact hmoves.length_filter (by simp) hne
    refine ⟨hone, or_iff_not_imp_left.mpr fun hagain c hc => ?_⟩
    by_contra hmore
    obtain ⟨m, rfl⟩ : ∃ m, n = m + 1 := ⟨n - 1, by omega⟩
    -- The second pass moves a row of another value.
    obtain ⟨olds, hpasses⟩ := iterate_pass col m
    rw [Function.iterate_succ_apply, pass_of_some hc, hpasses, moveAll_moveAll,
      moveAll_moveAll] at hmoves
    obtain ⟨x, hx, hxc⟩ := hchoose hc
    obtain ⟨y, hy, rfl⟩ := List.mem_map.mp hx
    split at hxc
    · exact hmore (hxc.symm.trans (col.get_put new y))
    · next hother =>
        have hget : col.get y = old := hmoves.get_eq hy (by simp [hxc]) (by rwa [hxc])
        exact hother (by simp [hget])
  · rintro ⟨hone, hdone⟩
    have hstays : (pass col choose new)^[n] (moveAll col [old] new rows) =
        moveAll col [old] new rows := by
      rcases hdone with hone' | hdone
      · obtain rfl : n = 0 := by omega
        rfl
      · exact Function.iterate_fixed (pass_of_done hdone) n
    rw [hstays]
    exact movesOne_moveAll_singleton hne hone

end Passes
