import Mathlib.Data.List.Sort
import Mathlib.Data.List.Dedup
import Mathlib.Data.List.Induction
import Mathlib.Algebra.BigOperators.Group.List.Basic

/-!
# Queries over tables

A table is the list of its rows.  The clauses of a query become list functions, so a
query is read clause by clause and evaluates.
-/

namespace Relational

variable {ρ : Type*}

/-! ## Updates and deletes -/

/-- `UPDATE … SET … WHERE p`. -/
def updateWhere (p : ρ → Prop) [DecidablePred p] (f : ρ → ρ) (rows : List ρ) : List ρ :=
  rows.map fun row => if p row then f row else row

def deleteWhere (p : ρ → Prop) [DecidablePred p] (rows : List ρ) : List ρ :=
  rows.filter fun row => ¬ p row

section

variable {p q : ρ → Prop} [DecidablePred p] [DecidablePred q] {f : ρ → ρ}

theorem updateWhere_updateWhere {g : ρ → ρ} (hp : ∀ row, p row → p (f row)) (rows : List ρ) :
    updateWhere p g (updateWhere p f rows) = updateWhere p (fun row => g (f row)) rows := by
  rw [updateWhere, updateWhere, updateWhere, List.map_map]
  refine List.map_congr_left ?_
  intro row _
  by_cases hrow : p row
  · simp [hrow, hp row hrow]
  · simp [hrow]

theorem forall_updateWhere {P : ρ → Prop} (hf : ∀ row, p (f row) ↔ p row) {rows : List ρ} :
    (∀ row ∈ updateWhere p f rows, p row → P row) ↔ ∀ row ∈ rows, p row → P (f row) := by
  rw [updateWhere, List.forall_mem_map]
  refine forall₂_congr fun row _ => ?_
  by_cases hrow : p row
  · rw [if_pos hrow, hf]
  · rw [if_neg hrow]
    exact ⟨fun _ h => absurd h hrow, fun _ h => absurd h hrow⟩

/-- An update leaves a selection of rows alone exactly when it changes none of
them. -/
theorem filter_updateWhere_eq_iff (hf : ∀ row, q (f row) ↔ q row) (rows : List ρ) :
    (updateWhere p f rows).filter (fun row => q row) = rows.filter (fun row => q row) ↔
      ∀ row ∈ rows, q row → p row → f row = row := by
  induction rows with
  | nil => simp [updateWhere]
  | cons row rows ih =>
    rw [updateWhere] at ih ⊢
    simp only [List.map_cons, List.forall_mem_cons]
    by_cases hp : p row
    · by_cases hq : q row
      · simp [hp, hq, hf, ih]
      · simp [hp, hq, hf, ih]
    · by_cases hq : q row
      · simp [hp, hq, ih]
      · simp [hp, hq, ih]

/-- An update of rows that are neither selected before nor after leaves the selection alone. -/
theorem filter_updateWhere_of_not {rows : List ρ}
    (h : ∀ row ∈ rows, p row → ¬ q row ∧ ¬ q (f row)) :
    (updateWhere p f rows).filter (fun row => q row) = rows.filter (fun row => q row) := by
  induction rows with
  | nil => rfl
  | cons row rows ih =>
    obtain ⟨hrow, hrows⟩ := List.forall_mem_cons.mp h
    have hrest := ih hrows
    rw [updateWhere] at hrest ⊢
    rw [List.map_cons]
    by_cases hp : p row
    · rw [if_pos hp, List.filter_cons_of_neg (by simpa using (hrow hp).2),
        List.filter_cons_of_neg (by simpa using (hrow hp).1), hrest]
    · rw [if_neg hp, List.filter_cons, List.filter_cons, hrest]

/-- A delete leaves a selection of rows alone exactly when it removes none of
them. -/
theorem filter_deleteWhere_eq_iff {rows : List ρ} :
    (deleteWhere p rows).filter (fun row => q row) = rows.filter (fun row => q row) ↔
      ∀ row ∈ rows, q row → ¬ p row := by
  rw [deleteWhere, List.filter_filter]
  constructor
  · intro h row hrow hq hp
    have hmem : row ∈ rows.filter fun row => q row := by simp [hrow, hq]
    rw [← h] at hmem
    simp [hp] at hmem
  · intro h
    refine List.filter_congr ?_
    intro row hrow
    by_cases hq : q row
    · simp [hq, h row hrow hq]
    · simp [hq]

end

/-! ## Keys -/

variable {row : ρ} {rows : List ρ}

theorem updateWhere_split {κ : Type*} {key : ρ → κ} {p : ρ → Prop} [DecidablePred p] {f : ρ → ρ}
    {front back : List ρ} (hkey : ((front ++ row :: back).map key).Nodup)
    (hp : ∀ r, p r ↔ key r = key row) :
    updateWhere p f (front ++ row :: back) = front ++ f row :: back := by
  rw [List.map_append, List.map_cons, List.nodup_append, List.nodup_cons] at hkey
  obtain ⟨-, ⟨hback, -⟩, hfront⟩ := hkey
  have hsame : ∀ rows : List ρ, (∀ r ∈ rows, key r ≠ key row) →
      rows.map (fun r => if p r then f r else r) = rows := by
    intro rows hrows
    exact (List.map_congr_left fun r hr => if_neg fun h => hrows r hr ((hp r).mp h)).trans
      (List.map_id' rows)
  rw [updateWhere, List.map_append, List.map_cons, if_pos ((hp row).mpr rfl), hsame front,
    hsame back]
  · exact fun r hr heq => hback (heq ▸ List.mem_map_of_mem hr)
  · exact fun r hr => hfront _ (List.mem_map_of_mem hr) _ List.mem_cons_self

theorem filter_ne_split {κ : Type*} [DecidableEq κ] {key : ρ → κ} {front back : List ρ}
    (hkey : ((front ++ row :: back).map key).Nodup) :
    (front ++ row :: back).filter (fun r => key r ≠ key row) = front ++ back := by
  rw [List.map_append, List.map_cons, List.nodup_append, List.nodup_cons] at hkey
  obtain ⟨-, ⟨hback, -⟩, hfront⟩ := hkey
  rw [List.filter_append, List.filter_cons_of_neg (by simp), List.filter_eq_self.mpr,
    List.filter_eq_self.mpr]
  · intro r hr
    simpa using fun heq : key r = key row => hback (heq ▸ List.mem_map_of_mem hr)
  · intro r hr
    simpa using hfront _ (List.mem_map_of_mem hr) _ List.mem_cons_self

theorem length_filter_le_one {κ : Type*} {key : ρ → κ} (hkey : (rows.map key).Nodup)
    {p : ρ → Bool} {k : κ} (hp : ∀ row ∈ rows, p row → key row = k) :
    (rows.filter p).length ≤ 1 := by
  have hsub : ((rows.filter p).map key).Nodup := hkey.sublist (List.filter_sublist.map key)
  have hconst : (rows.filter p).map key = List.replicate (rows.filter p).length k := by
    rw [List.eq_replicate_iff]
    refine ⟨List.length_map key, ?_⟩
    intro x hx
    obtain ⟨row, hrow, rfl⟩ := List.mem_map.mp hx
    exact hp row (List.mem_filter.mp hrow).1 (List.mem_filter.mp hrow).2
  rw [hconst, List.nodup_replicate] at hsub
  exact hsub

theorem map_key_updateWhere {κ : Type*} {key : ρ → κ} {p : ρ → Prop} [DecidablePred p] {f : ρ → ρ}
    (hf : ∀ r, key (f r) = key r) :
    (updateWhere p f rows).map key = rows.map key := by
  rw [updateWhere, List.map_map]
  refine List.map_congr_left fun r _ => ?_
  show key (if p r then f r else r) = key r
  split
  · exact hf r
  · rfl

theorem nodup_map_concat {κ : Type*} {key : ρ → κ} :
    ((rows ++ [row]).map key).Nodup ↔ (rows.map key).Nodup ∧ ∀ r ∈ rows, key r ≠ key row := by
  rw [List.map_append, List.nodup_append]
  constructor
  · rintro ⟨hrows, -, hne⟩
    exact ⟨hrows, fun r hr => hne _ (List.mem_map_of_mem hr) _ (List.mem_singleton_self _)⟩
  · rintro ⟨hrows, hne⟩
    refine ⟨hrows, List.nodup_singleton _, ?_⟩
    rintro k hk k' hk' rfl
    obtain ⟨r, hr, rfl⟩ := List.mem_map.mp hk
    exact hne r hr (List.mem_singleton.mp hk')

section Keyed

variable {κ : Type*} [DecidableEq κ] {key : ρ → κ} {rows : List ρ} {k : κ}

theorem mem_of_find?_key {row : ρ} (h : rows.find? (fun r => key r = k) = some row) :
    row ∈ rows ∧ key row = k :=
  ⟨List.mem_of_find?_eq_some h, by simpa using List.find?_some h⟩

theorem find?_key_eq_some (hkey : (rows.map key).Nodup) {row : ρ} (h : row ∈ rows) :
    rows.find? (fun r => key r = key row) = some row := by
  cases hfind : rows.find? fun r => key r = key row with
  | none => exact absurd (decide_eq_true rfl) (List.find?_eq_none.mp hfind row h)
  | some row' =>
    obtain ⟨hmem, heq⟩ := mem_of_find?_key hfind
    rw [List.inj_on_of_nodup_map hkey hmem h heq]

theorem filter_key_eq_toList (hkey : (rows.map key).Nodup) :
    rows.filter (fun r => key r = k) = (rows.find? fun r => key r = k).toList := by
  cases hfilter : rows.filter fun r => key r = k with
  | nil =>
    rw [List.find?_eq_none.mpr fun r hr => List.filter_eq_nil_iff.mp hfilter r hr]
    rfl
  | cons row rest =>
    have hone := length_filter_le_one (p := fun r => key r = k) (k := k) hkey fun _ _ hr => by
      simpa using hr
    rw [hfilter] at hone
    have hnil : rest = [] := List.length_eq_zero_iff.mp (by simpa using hone)
    rw [← List.head?_filter, hfilter, hnil]
    rfl

theorem find?_updateWhere {p : ρ → Prop} [DecidablePred p] {f : ρ → ρ}
    (hf : ∀ r, key (f r) = key r) :
    (updateWhere p f rows).find? (fun r => key r = k) =
      (rows.find? fun r => key r = k).map fun r => if p r then f r else r := by
  rw [updateWhere, List.find?_map]
  refine congrArg (Option.map _) (congrArg (fun q => rows.find? q) (funext fun r => ?_))
  show decide (key (if p r then f r else r) = k) = decide (key r = k)
  split
  · rw [hf]
  · rfl

theorem find?_deleteWhere {p : ρ → Prop} [DecidablePred p] (hkey : (rows.map key).Nodup) :
    (deleteWhere p rows).find? (fun r => key r = k) =
      (rows.find? fun r => key r = k).filter fun r => ¬ p r := by
  have hswap : (rows.filter fun r => ¬ p r).filter (fun r => key r = k) =
      (rows.find? fun r => key r = k).toList.filter fun r => ¬ p r := by
    rw [List.filter_comm, filter_key_eq_toList hkey]
  rw [deleteWhere, ← List.head?_filter, hswap]
  cases rows.find? fun r => key r = k with
  | none => rfl
  | some row => by_cases hp : p row <;> simp [Option.filter, hp]

theorem find?_concat_of_eq {row : ρ} (hnone : rows.find? (fun r => key r = k) = none)
    (hnew : key row = k) : (rows ++ [row]).find? (fun r => key r = k) = some row := by
  rw [List.find?_append, hnone, Option.none_or]
  exact List.find?_cons_of_pos (by simpa using hnew)

theorem find?_concat_of_ne {row : ρ} (hnew : key row ≠ k) :
    (rows ++ [row]).find? (fun r => key r = k) = rows.find? fun r => key r = k := by
  rw [List.find?_append, List.find?_cons_of_neg (by simpa using hnew), List.find?_nil,
    Option.or_none]

end Keyed

/-! ## Joins -/

section Joins

variable {α β : Type*} (on : α → β → Prop) [∀ a, DecidablePred (on a)]

def innerJoin (rows : List α) (others : List β) : List (α × β) :=
  rows.flatMap fun a => (others.filter fun b => on a b).map fun b => (a, b)

/-- The rows one row becomes in a left join. -/
def leftMatches (others : List β) (a : α) : List (α × Option β) :=
  match others.filter fun b => on a b with
  | [] => [(a, none)]
  | b :: bs => (b :: bs).map fun b => (a, some b)

/-- `LEFT JOIN … ON on`: a row without a match stays, with nulls. -/
def leftJoin (rows : List α) (others : List β) : List (α × Option β) :=
  rows.flatMap (leftMatches on others)

theorem leftMatches_ne_nil (others : List β) (a : α) : leftMatches on others a ≠ [] := by
  rw [leftMatches]
  split
  · simp
  · simp

variable {on}
variable {others : List β} {rows : List α}

theorem leftMatches_fst {a : α} {r : α × Option β} (h : r ∈ leftMatches on others a) : r.1 = a := by
  rw [leftMatches] at h
  split at h
  · rw [List.mem_singleton.mp h]
  · obtain ⟨b, -, rfl⟩ := List.mem_map.mp h
    rfl

theorem filterMap_snd_leftMatches (others : List β) (a : α) :
    (leftMatches on others a).filterMap Prod.snd = others.filter fun b => on a b := by
  rw [leftMatches]
  split
  · next hnone => rw [hnone]; rfl
  · next b bs hsome =>
      rw [hsome, List.filterMap_map]
      exact List.filterMap_some

theorem mem_leftJoin_some {a : α} {b : β} :
    (a, some b) ∈ leftJoin on rows others ↔ a ∈ rows ∧ b ∈ others ∧ on a b := by
  have hpartner : (a, some b) ∈ leftMatches on others a ↔ b ∈ others ∧ on a b := by
    have hmem : b ∈ (leftMatches on others a).filterMap Prod.snd ↔ b ∈ others ∧ on a b := by
      rw [filterMap_snd_leftMatches, List.mem_filter, decide_eq_true_eq]
    rw [← hmem, List.mem_filterMap]
    constructor
    · exact fun h => ⟨_, h, rfl⟩
    · rintro ⟨r, hr, hb⟩
      have hfst := leftMatches_fst hr
      exact (Prod.ext hfst hb : r = (a, some b)) ▸ hr
  rw [leftJoin, List.mem_flatMap]
  constructor
  · rintro ⟨a', ha', hmem⟩
    obtain rfl : a = a' := leftMatches_fst hmem
    exact ⟨ha', hpartner.mp hmem⟩
  · rintro ⟨ha, hb⟩
    exact ⟨a, ha, hpartner.mpr hb⟩

theorem mem_map_fst_leftJoin {a : α} : a ∈ (leftJoin on rows others).map Prod.fst ↔ a ∈ rows := by
  constructor
  · intro h
    obtain ⟨r, hr, rfl⟩ := List.mem_map.mp h
    obtain ⟨a', ha', hr⟩ := List.mem_flatMap.mp hr
    rw [leftMatches_fst hr]
    exact ha'
  · intro ha
    obtain ⟨r, hr⟩ := List.exists_mem_of_ne_nil _ (leftMatches_ne_nil on others a)
    exact List.mem_map.mpr ⟨r, List.mem_flatMap.mpr ⟨a, ha, hr⟩, leftMatches_fst hr⟩

theorem filter_leftJoin {p : α → Prop} [DecidablePred p] (rows : List α) (others : List β) :
    (leftJoin on rows others).filter (fun r => decide (p r.1)) =
      leftJoin on (rows.filter fun a => p a) others := by
  induction rows with
  | nil => rfl
  | cons a rows ih =>
    rw [leftJoin] at ih ⊢
    rw [List.flatMap_cons, List.filter_append, ih]
    by_cases hp : p a
    · have hall : (leftMatches on others a).filter (fun r => decide (p r.1)) =
          leftMatches on others a := by
        rw [List.filter_eq_self]
        intro r hr
        rw [leftMatches_fst hr]
        simpa using hp
      rw [hall, List.filter_cons_of_pos (by simpa using hp)]
      rfl
    · have hnone : (leftMatches on others a).filter (fun r => decide (p r.1)) = [] := by
        rw [List.filter_eq_nil_iff]
        intro r hr
        rw [leftMatches_fst hr]
        simpa using hp
      rw [hnone, List.filter_cons_of_neg (by simpa using hp)]
      rfl

theorem leftJoin_map_fst (h : ∀ a ∈ rows, (others.filter fun b => on a b).length ≤ 1) :
    (leftJoin on rows others).map Prod.fst = rows := by
  induction rows with
  | nil => rfl
  | cons a rows ih =>
    have hone : (leftMatches on others a).map Prod.fst = [a] := by
      have hlen := h a List.mem_cons_self
      rw [leftMatches]
      split
      · rfl
      · next b bs hmatch =>
          rw [hmatch, List.length_cons] at hlen
          have hbs : bs = [] := List.length_eq_zero_iff.mp (by omega)
          rw [hbs]
          rfl
    have hrest := ih fun b hb => h b (List.mem_cons_of_mem _ hb)
    rw [leftJoin] at hrest ⊢
    rw [List.flatMap_cons, List.map_append, hone, hrest]
    rfl

theorem leftJoin_on_key {κ : Type*} [DecidableEq κ] {key : β → κ} {k : α → Option κ}
    (hkey : (others.map key).Nodup) (hon : ∀ a b, on a b ↔ k a = some (key b)) :
    leftJoin on rows others =
      rows.map fun a => (a, (k a).bind fun k => others.find? fun b => key b = k) := by
  have hone : ∀ a, leftMatches on others a =
      [(a, (k a).bind fun k => others.find? fun b => key b = k)] := by
    intro a
    cases hk : k a with
    | none =>
      have hnone : (others.filter fun b => on a b) = [] := by
        rw [List.filter_eq_nil_iff]
        intro b _
        simp [hon, hk]
      rw [leftMatches, hnone]
      rfl
    | some v =>
      have hfilter : (others.filter fun b => on a b) =
          (others.find? fun b => key b = v).toList := by
        rw [← filter_key_eq_toList hkey]
        refine List.filter_congr fun b _ => ?_
        simp [hon, hk, eq_comm]
      rw [leftMatches, hfilter, Option.bind_some]
      cases others.find? fun b => key b = v with
      | none => rfl
      | some b => rfl
  rw [leftJoin, ← List.flatMap_pure_eq_map]
  exact congrArg (fun f => rows.flatMap f) (funext hone)

/-- A selection by the partner may be made after the partners are taken. -/
theorem filterMap_snd_filter {rows : List (α × Option β)} {p : α × Option β → Bool} {q : β → Bool}
    (h : ∀ r ∈ rows, ∀ b, r.2 = some b → p r = q b) :
    (rows.filter p).filterMap Prod.snd = (rows.filterMap Prod.snd).filter q := by
  induction rows with
  | nil => rfl
  | cons r rows ih =>
    have hrest := ih fun r' hr' => h r' (List.mem_cons_of_mem _ hr')
    cases hb : r.2 with
    | none =>
      rw [List.filterMap_cons_none hb, ← hrest]
      cases hp : p r with
      | true => rw [List.filter_cons_of_pos hp, List.filterMap_cons_none hb]
      | false => rw [List.filter_cons_of_neg (by simp [hp])]
    | some b =>
      have hsame := h r List.mem_cons_self b hb
      rw [List.filterMap_cons_some hb]
      cases hp : p r with
      | true =>
        rw [List.filter_cons_of_pos hp, List.filterMap_cons_some hb, hrest,
          List.filter_cons_of_pos (hsame.symm.trans hp)]
      | false =>
        rw [List.filter_cons_of_neg (by simp [hp]), hrest,
          List.filter_cons_of_neg (by simp [← hsame, hp])]

end Joins

/-! ## Groups -/

def groupBy {κ : Type*} [DecidableEq κ] (key : ρ → κ) (rows : List ρ) : List (κ × List ρ) :=
  (rows.map key).dedup.map fun k => (k, rows.filter fun r => key r = k)

theorem nodup_groupBy_keys {κ : Type*} [DecidableEq κ] (key : ρ → κ) (rows : List ρ) :
    ((groupBy key rows).map Prod.fst).Nodup := by
  rw [groupBy, List.map_map]
  exact (List.map_id _).symm ▸ List.nodup_dedup _

theorem mem_groupBy {κ : Type*} [DecidableEq κ] {key : ρ → κ} {g : κ × List ρ} :
    g ∈ groupBy key rows ↔
      g.1 ∈ rows.map key ∧ g.2 = rows.filter fun r => key r = g.1 := by
  rw [groupBy, List.mem_map]
  constructor
  · rintro ⟨k, hk, rfl⟩
    exact ⟨List.mem_dedup.mp hk, rfl⟩
  · rintro ⟨hk, hrows⟩
    exact ⟨g.1, List.mem_dedup.mpr hk, Prod.ext rfl hrows.symm⟩

theorem filter_key {κ : Type*} [DecidableEq κ] {key : ρ → κ} (hkey : (rows.map key).Nodup)
    (hrow : row ∈ rows) (p : ρ → Prop) [DecidablePred p] :
    (rows.filter fun r => p r ∧ key r = key row) = if p row then [row] else [] := by
  induction rows with
  | nil => cases hrow
  | cons r rows ih =>
    rw [List.map_cons, List.nodup_cons] at hkey
    rcases List.mem_cons.mp hrow with rfl | hrow
    · have hrest : rows.filter (fun r => p r ∧ key r = key row) = [] := by
        rw [List.filter_eq_nil_iff]
        intro r hr heq
        have heq : p r ∧ key r = key row := by simpa using heq
        exact hkey.1 (heq.2 ▸ List.mem_map_of_mem hr)
      rw [List.filter_cons, hrest]
      by_cases hp : p row <;> simp [hp]
    · have hne : key r ≠ key row := fun heq => hkey.1 (heq ▸ List.mem_map_of_mem hrow)
      rw [List.filter_cons_of_neg (by simp [hne]), ih hkey.2 hrow]

/-! ## Sums -/

section Sums

variable {M : Type*} [AddCommMonoid M] {α β κ : Type*}

theorem sum_map_filter (p : ρ → Prop) [DecidablePred p] (f : ρ → M) (rows : List ρ) :
    ((rows.filter fun r => p r).map f).sum = (rows.map fun r => if p r then f r else 0).sum := by
  induction rows with
  | nil => rfl
  | cons r rows ih =>
    by_cases hp : p r
    · simp [hp, ih]
    · simp [hp, ih]

theorem measure_foldl {σ : Type*} {step : σ → ρ → σ} {m : σ → M} {f : ρ → M}
    (hstep : ∀ s r, m (step s r) = m s + f r) (rows : List ρ) (s : σ) :
    m (rows.foldl step s) = m s + (rows.map f).sum := by
  induction rows generalizing s with
  | nil => simp
  | cons r rows ih =>
    rw [List.foldl_cons, ih, hstep, List.map_cons, List.sum_cons, add_assoc]

theorem sum_map_updateWhere {key : ρ → κ} {rows : List ρ} (hkey : (rows.map key).Nodup)
    {p : ρ → Prop} [DecidablePred p] {row : ρ} (hrow : row ∈ rows)
    (hp : ∀ r, p r ↔ key r = key row) (g : ρ → ρ) (f : ρ → M) :
    ((updateWhere p g rows).map f).sum + f row = (rows.map f).sum + f (g row) := by
  induction rows with
  | nil => cases hrow
  | cons r rows ih =>
    rw [List.map_cons, List.nodup_cons] at hkey
    rw [updateWhere, List.map_cons, List.map_cons, List.map_cons, List.sum_cons, List.sum_cons]
    rcases List.mem_cons.mp hrow with rfl | hrow
    · have hrest : (rows.map fun r => if p r then g r else r) = rows := by
        refine (List.map_congr_left fun r hr => if_neg fun hpr => ?_).trans (List.map_id' rows)
        exact hkey.1 ((hp r).mp hpr ▸ List.mem_map_of_mem hr)
      rw [if_pos ((hp row).mpr rfl), hrest]
      rw [add_right_comm, add_right_comm (f row), add_comm (f (g row))]
    · have hne : ¬ p r := fun hpr => hkey.1 ((hp r).mp hpr ▸ List.mem_map_of_mem hrow)
      rw [if_neg hne, add_assoc, add_assoc]
      exact congrArg (f r + ·) (ih hkey.2 hrow)

variable [DecidableEq κ]

theorem sum_map_ite_key {key : α → κ} {rows : List α} (hkey : (rows.map key).Nodup) (k : κ)
    (p : α → Prop) [DecidablePred p] (x : M) :
    (rows.map fun a => if key a = k ∧ p a then x else 0).sum =
      if ∃ a ∈ rows, key a = k ∧ p a then x else 0 := by
  induction rows with
  | nil => simp
  | cons a rows ih =>
    rw [List.map_cons, List.nodup_cons] at hkey
    rw [List.map_cons, List.sum_cons, ih hkey.2]
    by_cases ha : key a = k ∧ p a
    · have hrest : ¬ ∃ a' ∈ rows, key a' = k ∧ p a' := by
        rintro ⟨a', ha', hk, -⟩
        exact hkey.1 (ha.1 ▸ hk ▸ List.mem_map_of_mem ha')
      rw [if_pos ha, if_neg hrest, add_zero, if_pos ⟨a, List.mem_cons_self, ha⟩]
    · simp only [ha, if_false, zero_add, List.exists_mem_cons_iff, false_or]

theorem sum_groupBy (key : ρ → κ) (f : ρ → M) (rows : List ρ) :
    ((groupBy key rows).map fun g => (g.2.map f).sum).sum = (rows.map f).sum := by
  have hkeys : ∀ (ks : List κ), ks.Nodup → ∀ (rs : List ρ), (∀ r ∈ rs, key r ∈ ks) →
      (ks.map fun k => ((rs.filter fun r => key r = k).map f).sum).sum = (rs.map f).sum := by
    intro ks hnodup rs
    induction rs with
    | nil => simp
    | cons r rs ih =>
      intro hmem
      have hrest := ih fun r' hr' => hmem r' (List.mem_cons_of_mem _ hr')
      have hone : (ks.map fun k => if key r = k then f r else 0).sum = f r := by
        have hids : (ks.map id).Nodup := by
          rw [List.map_id]
          exact hnodup
        have hhit := sum_map_ite_key hids (key r) (fun _ => True) (f r)
        rw [if_pos ⟨key r, hmem r List.mem_cons_self, rfl, trivial⟩] at hhit
        simpa [eq_comm] using hhit
      rw [List.map_cons, List.sum_cons, ← hrest, ← hone, ← List.sum_map_add]
      congr 2
      funext k
      by_cases hk : key r = k
      · simp [hk]
      · simp [hk]
  rw [groupBy, List.map_map]
  exact hkeys _ (List.nodup_dedup _) rows fun r hr => List.mem_dedup.mpr (List.mem_map_of_mem hr)

/-- When the groups of all other keys sum to zero, the sum is that of one group. -/
theorem sum_of_other_groups (key : ρ → κ) (f : ρ → M) {rows : List ρ} {k : κ}
    (h : ∀ other, other ≠ k → ((rows.filter fun r => key r = other).map f).sum = 0) :
    (rows.map f).sum = ((rows.filter fun r => key r = k).map f).sum := by
  rw [← sum_groupBy key f rows, groupBy, List.map_map,
    List.sum_map_eq_nsmul_single k _ fun other hother _ => by exact h other hother]
  by_cases hk : k ∈ rows.map key
  · rw [List.count_eq_one_of_mem (List.nodup_dedup _) (List.mem_dedup.mpr hk), one_nsmul]
    rfl
  · have hnone : (rows.filter fun r => key r = k) = [] :=
      List.filter_eq_nil_iff.mpr fun r hr heq =>
        hk (List.mem_map.mpr ⟨r, hr, of_decide_eq_true heq⟩)
    rw [List.count_eq_zero_of_not_mem (fun hmem => hk (List.mem_dedup.mp hmem)), zero_nsmul, hnone]
    rfl

theorem sum_innerJoin (on : α → β → Prop) [∀ a, DecidablePred (on a)] (f : α × β → M)
    (rows : List α) (others : List β) :
    ((innerJoin on rows others).map f).sum =
      (rows.map fun a => ((others.filter fun b => on a b).map fun b => f (a, b)).sum).sum := by
  induction rows with
  | nil => rfl
  | cons a rows ih =>
    rw [innerJoin] at ih ⊢
    rw [List.flatMap_cons, List.map_append, List.sum_append, ih, List.map_cons, List.sum_cons,
      List.map_map]
    rfl

/-- Summing the rows that refer to a key, over selected keys, is summing the rows whose
key is selected. -/
theorem sum_by_key {key : α → κ} {rows : List α} (hkey : (rows.map key).Nodup)
    (p : α → Prop) [DecidablePred p] (ref : β → κ) (f : β → M) (others : List β) :
    ((rows.filter fun a => p a).map fun a =>
        ((others.filter fun b => ref b = key a).map f).sum).sum =
      ((others.filter fun b => ∃ a ∈ rows, key a = ref b ∧ p a).map f).sum := by
  have hone : ∀ b, ((rows.filter fun a => p a).map fun a =>
      if ref b = key a then f b else 0).sum =
        if ∃ a ∈ rows, key a = ref b ∧ p a then f b else 0 := by
    intro b
    rw [← sum_map_ite_key hkey (ref b) p (f b), sum_map_filter]
    congr 2
    funext a
    by_cases hk : key a = ref b
    · simp [hk]
    · simp [hk, Ne.symm hk]
  rw [sum_map_filter (fun b => ∃ a ∈ rows, key a = ref b ∧ p a)]
  simp only [sum_map_filter (fun b => ref b = key _)]
  induction others with
  | nil => simp
  | cons b others ih =>
    simp only [List.map_cons, List.sum_cons]
    rw [List.sum_map_add, hone, ih]

end Sums

/-! ## Maps -/

section Maps

variable {κ ν : Type*} [DecidableEq κ]

/-- The map that inserting the rows in order gives: a later value replaces an earlier
one. -/
def insertAll (rows : List (κ × ν)) : κ → Option ν :=
  rows.foldl (fun m r => Function.update m r.1 (some r.2)) fun _ => none

theorem insertAll_eq_some {rows : List (κ × ν)} (hkeys : (rows.map Prod.fst).Nodup) {k : κ}
    {v : ν} : insertAll rows k = some v ↔ (k, v) ∈ rows := by
  induction rows using List.reverseRecOn with
  | nil => simp [insertAll]
  | append_singleton rows r ih =>
    rw [List.map_append, List.nodup_append] at hkeys
    have hne : ∀ s ∈ rows, s.1 ≠ r.1 := fun s hs =>
      hkeys.2.2 s.1 (List.mem_map_of_mem hs) r.1 (by simp)
    have hlast : insertAll (rows ++ [r]) k = if k = r.1 then some r.2 else insertAll rows k := by
      rw [insertAll, List.foldl_append, List.foldl_cons, List.foldl_nil, Function.update_apply,
        insertAll]
    rw [hlast, List.mem_append, List.mem_singleton]
    split
    · next hk =>
        constructor
        · intro h
          exact Or.inr (Prod.ext hk (Option.some.inj h).symm)
        · rintro (h | h)
          · exact absurd hk (hne _ h)
          · rw [← h]
    · next hk =>
        rw [ih hkeys.1]
        constructor
        · exact Or.inl
        · rintro (h | h)
          · exact h
          · exact absurd (congrArg Prod.fst h) hk

end Maps

/-! ## Order -/

variable {κ : Type*} [LinearOrder κ]

/-- `ORDER BY key ASC`. -/
def orderBy (key : ρ → κ) (rows : List ρ) : List ρ :=
  rows.insertionSort fun a b => key a ≤ key b

def orderByDesc (key : ρ → κ) (rows : List ρ) : List ρ :=
  rows.insertionSort fun a b => key b ≤ key a

variable {key : ρ → κ}

theorem orderBy_perm (key : ρ → κ) (rows : List ρ) : (orderBy key rows).Perm rows :=
  List.perm_insertionSort _ rows

theorem mem_orderBy : row ∈ orderBy key rows ↔ row ∈ rows :=
  (orderBy_perm key rows).mem_iff

theorem pairwise_orderBy (key : ρ → κ) (rows : List ρ) :
    (orderBy key rows).Pairwise fun a b => key a ≤ key b :=
  List.pairwise_insertionSort (fun a b => key a ≤ key b) rows

theorem orderBy_eq_of_perm {sorted : List ρ} (hperm : sorted.Perm rows)
    (hsorted : sorted.Pairwise fun a b => key a < key b) : orderBy key rows = sorted := by
  have hkeys : (sorted.map key).Nodup := List.pairwise_map.mpr (hsorted.imp ne_of_lt)
  refine List.Perm.eq_of_pairwise ?_ (pairwise_orderBy key rows)
    (hsorted.imp le_of_lt) ((orderBy_perm key rows).trans hperm.symm)
  intro a b ha hb hab hba
  have ha' : a ∈ sorted := hperm.mem_iff.mpr (mem_orderBy.mp ha)
  exact List.inj_on_of_nodup_map hkeys ha' hb (le_antisymm hab hba)

theorem pairwise_lt_orderBy (hkeys : (rows.map key).Nodup) :
    (orderBy key rows).Pairwise fun a b => key a < key b := by
  have hne : (orderBy key rows).Pairwise fun a b => key a ≠ key b :=
    List.pairwise_map.mp ((((orderBy_perm key rows).map key).nodup_iff).mpr hkeys)
  exact ((pairwise_orderBy key rows).and hne).imp fun h => lt_of_le_of_ne h.1 h.2

theorem split_of_pairwise (h : rows.Pairwise fun a b => key a < key b) (k : κ) :
    rows = rows.filter (fun r => key r < k) ++ rows.filter (fun r => key r = k) ++
      rows.filter (fun r => k < key r) := by
  induction rows with
  | nil => rfl
  | cons row rows ih =>
    obtain ⟨hrow, hrows⟩ := List.pairwise_cons.mp h
    have hrest := ih hrows
    rcases lt_trichotomy (key row) k with hlt | heq | hgt
    · rw [List.filter_cons_of_pos (by simpa using hlt),
        List.filter_cons_of_neg (by simp [hlt.ne]), List.filter_cons_of_neg (by simp [hlt.le]),
        List.cons_append, List.cons_append, ← hrest]
    · have hnone : rows.filter (fun r => key r < k) = [] :=
        List.filter_eq_nil_iff.mpr fun r hr => by simp [(heq ▸ hrow r hr).le]
      rw [hnone, List.nil_append] at hrest
      rw [List.filter_cons_of_neg (by simp [heq]), List.filter_cons_of_pos (by simpa using heq),
        List.filter_cons_of_neg (by simp [heq]), hnone, List.nil_append, List.cons_append,
        ← hrest]
    · have hall : ∀ r ∈ rows, k < key r := fun r hr => hgt.trans (hrow r hr)
      have hlow : rows.filter (fun r => key r < k) = [] :=
        List.filter_eq_nil_iff.mpr fun r hr => by simp [(hall r hr).le]
      have hmid : rows.filter (fun r => key r = k) = [] :=
        List.filter_eq_nil_iff.mpr fun r hr => by simp [(hall r hr).ne']
      rw [hlow, hmid, List.nil_append, List.nil_append] at hrest
      rw [List.filter_cons_of_neg (by simp [hgt.le]), List.filter_cons_of_neg (by simp [hgt.ne']),
        List.filter_cons_of_pos (by simpa using hgt), hlow, hmid, List.nil_append,
        List.nil_append, ← hrest]

section Insert

variable {rows rows' : List ρ} {row : ρ} (hperm : rows'.Perm (row :: rows))
  (hkeys : ((row :: rows).map key).Nodup)

include hkeys

theorem orderBy_eq_append : orderBy key rows =
    (orderBy key rows).filter (fun r => key r < key row) ++
    (orderBy key rows).filter (fun r => key row < key r) := by
  obtain ⟨hfresh, hrest⟩ := List.nodup_cons.mp hkeys
  have hnone : (orderBy key rows).filter (fun r => key r = key row) = [] :=
    List.filter_eq_nil_iff.mpr fun r hr => by
      have hne : key r ≠ key row := fun heq =>
        hfresh (heq ▸ List.mem_map_of_mem (mem_orderBy.mp hr))
      simpa using hne
  have hsplit := split_of_pairwise (pairwise_lt_orderBy hrest) (key row)
  rwa [hnone, List.append_nil] at hsplit

include hperm

theorem orderBy_insert : orderBy key rows' = (orderBy key rows).filter (fun r => key r < key row) ++
    row :: (orderBy key rows).filter (fun r => key row < key r) := by
  have hstrict := pairwise_lt_orderBy (List.nodup_cons.mp hkeys).2
  refine orderBy_eq_of_perm ?_ ?_
  · refine List.perm_middle.trans (List.Perm.trans (.cons row ?_) hperm.symm)
    rw [← orderBy_eq_append hkeys]
    exact orderBy_perm key rows
  · refine List.pairwise_append.mpr ⟨hstrict.filter _, List.pairwise_cons.mpr
      ⟨?_, hstrict.filter _⟩, ?_⟩
    · intro r hr
      simpa using (List.mem_filter.mp hr).2
    · intro a ha b hb
      have hlow : key a < key row := by simpa using (List.mem_filter.mp ha).2
      rcases List.mem_cons.mp hb with rfl | hb
      · exact hlow
      · exact hlow.trans (by simpa using (List.mem_filter.mp hb).2)

theorem filter_orderBy_insert :
    (orderBy key rows').filter (fun r => key r < key row) =
        (orderBy key rows).filter (fun r => key r < key row) ∧
      (orderBy key rows').filter (fun r => key row < key r) =
        (orderBy key rows).filter (fun r => key row < key r) := by
  rw [orderBy_insert hperm hkeys]
  constructor
  · have hnone : ((orderBy key rows).filter fun r => key row < key r).filter
        (fun r => key r < key row) = [] :=
      List.filter_eq_nil_iff.mpr fun r hr => by
        have hhigh : key row < key r := by simpa using (List.mem_filter.mp hr).2
        simpa using hhigh.le
    rw [List.filter_append, List.filter_cons_of_neg (by simp), hnone, List.append_nil]
    exact List.filter_eq_self.mpr fun r hr => (List.mem_filter.mp hr).2
  · have hnone : ((orderBy key rows).filter fun r => key r < key row).filter
        (fun r => key row < key r) = [] :=
      List.filter_eq_nil_iff.mpr fun r hr => by
        have hlow : key r < key row := by simpa using (List.mem_filter.mp hr).2
        simpa using hlow.le
    rw [List.filter_append, List.filter_cons_of_neg (by simp), hnone, List.nil_append]
    exact List.filter_eq_self.mpr fun r hr => (List.mem_filter.mp hr).2

end Insert

theorem orderBy_of_pairwise (h : rows.Pairwise fun a b => key a < key b) :
    orderBy key rows = rows :=
  (h.imp le_of_lt).insertionSort_eq

theorem find?_le_of_pairwise {xs : List κ} {p : κ → Bool} {first : κ} (h : xs.Pairwise (· ≤ ·))
    (hfirst : xs.find? p = some first) : ∀ x ∈ xs, p x = true → first ≤ x := by
  obtain ⟨-, front, back, rfl, hfront⟩ := List.find?_eq_some_iff_append.mp hfirst
  intro x hx hpx
  rcases List.mem_append.mp hx with hx | hx
  · have hnot := hfront x hx
    rw [hpx] at hnot
    cases hnot
  · rcases List.mem_cons.mp hx with rfl | hx
    · exact le_rfl
    · exact (List.pairwise_cons.mp (List.pairwise_append.mp h).2.1).1 x hx

theorem orderByDesc_eq_reverse (hkeys : (rows.map key).Nodup) :
    orderByDesc key rows = (orderBy key rows).reverse := by
  have hsorted := pairwise_lt_orderBy hkeys
  have hdual : orderBy (fun r => OrderDual.toDual (key r)) rows = (orderBy key rows).reverse :=
    orderBy_eq_of_perm ((List.reverse_perm _).trans (orderBy_perm key rows))
      (List.pairwise_reverse.mpr hsorted)
  exact hdual

/-- The first row in descending order is a last row that exceeds the others. -/
theorem head?_orderByDesc_concat {front : List ρ} {last : ρ}
    (h : ∀ row ∈ front, key row < key last) :
    (orderByDesc key (front ++ [last])).head? = some last := by
  induction front with
  | nil => rfl
  | cons row rows ih =>
    have hrest := ih fun r hr => h r (List.mem_cons_of_mem _ hr)
    obtain ⟨rest, hsorted⟩ := List.head?_eq_some_iff.mp hrest
    have hlt : ¬ key last ≤ key row := not_le.mpr (h row List.mem_cons_self)
    rw [orderByDesc] at hsorted ⊢
    rw [List.cons_append, List.insertionSort_cons, hsorted, List.orderedInsert_cons,
      if_neg hlt, List.head?_cons]

end Relational
