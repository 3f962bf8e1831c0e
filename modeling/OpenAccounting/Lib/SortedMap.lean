import OpenAccounting.Lib.Relational

/-!
# Sorted maps

A map as the list of its entries in the order of their keys.  `ofEntries` inserts entries one after
the other, and an entry replaces an earlier one with its key.  When no two entries have one key, the
map is the entries in order.  `entry` updates the value of a key in place.
-/

namespace SortedMap

variable {κ ν : Type*} [LinearOrder κ]

/-- Insert an entry, or replace the value of its key. -/
def insert (k : κ) (v : ν) : List (κ × ν) → List (κ × ν)
  | [] => [(k, v)]
  | e :: es => if k < e.1 then (k, v) :: e :: es else if k = e.1 then (k, v) :: es
      else e :: insert k v es

/-- Update the value of a key, which is `init` where there is none. -/
def entry (k : κ) (init : ν) (f : ν → ν) : List (κ × ν) → List (κ × ν)
  | [] => [(k, f init)]
  | e :: es => if k < e.1 then (k, f init) :: e :: es else if k = e.1 then (k, f e.2) :: es
      else e :: entry k init f es

def ofEntries (es : List (κ × ν)) : List (κ × ν) := es.foldl (fun m e => insert e.1 e.2 m) []

/-- The keys ascend. -/
def Sorted (m : List (κ × ν)) : Prop := m.Pairwise fun a b => a.1 < b.1

variable {m : List (κ × ν)}

theorem mem_insert {k : κ} {v : ν} {e : κ × ν} (h : e ∈ insert k v m) : e = (k, v) ∨ e ∈ m := by
  induction m with
  | nil => exact .inl (List.mem_singleton.mp h)
  | cons d m ih =>
    rw [insert] at h
    split at h
    · exact (List.mem_cons.mp h).imp_right id
    · split at h
      · exact (List.mem_cons.mp h).imp_right (List.mem_cons_of_mem d)
      · rcases List.mem_cons.mp h with rfl | h
        · exact .inr List.mem_cons_self
        · exact (ih h).imp_right (List.mem_cons_of_mem d)

theorem sorted_insert {k : κ} {v : ν} (h : Sorted m) : Sorted (insert k v m) := by
  induction m with
  | nil => exact List.pairwise_singleton _ _
  | cons d m ih =>
    obtain ⟨hd, hm⟩ := List.pairwise_cons.mp h
    rw [insert]
    split
    · next hlt =>
        refine List.pairwise_cons.mpr ⟨fun e he => ?_, h⟩
        rcases List.mem_cons.mp he with rfl | he
        · exact hlt
        · exact hlt.trans (hd e he)
    · next hnlt =>
        split
        · next heq => exact List.pairwise_cons.mpr ⟨fun e he => heq ▸ hd e he, hm⟩
        · next hne =>
            refine List.pairwise_cons.mpr ⟨fun e he => ?_, ih hm⟩
            rcases mem_insert he with rfl | he
            · exact lt_of_le_of_ne (not_lt.mp hnlt) (Ne.symm hne)
            · exact hd e he

theorem insert_perm {k : κ} {v : ν} (h : ∀ e ∈ m, e.1 ≠ k) : (insert k v m).Perm ((k, v) :: m) := by
  induction m with
  | nil => exact .refl _
  | cons d m ih =>
    rw [insert]
    split
    · exact .refl _
    · rw [if_neg (h d List.mem_cons_self).symm]
      exact ((ih fun e he => h e (List.mem_cons_of_mem d he)).cons d).trans (.swap _ _ m)

theorem forall_entry {P : ν → Prop} {k : κ} {init : ν} {f : ν → ν} (hinit : P init)
    (hf : ∀ v, P v → P (f v)) (h : ∀ e ∈ m, P e.2) :
    ∀ e ∈ entry k init f m, P e.2 := by
  induction m with
  | nil =>
    rw [entry, List.forall_mem_singleton]
    exact hf init hinit
  | cons d m ih =>
    obtain ⟨hd, hm⟩ := List.forall_mem_cons.mp h
    rw [entry]
    split
    · exact List.forall_mem_cons.mpr ⟨hf init hinit, h⟩
    · split
      · exact List.forall_mem_cons.mpr ⟨hf d.2 hd, hm⟩
      · exact List.forall_mem_cons.mpr ⟨hd, ih hm⟩

theorem sum_entry {M : Type*} [AddCommMonoid M] {g : ν → M} {k : κ} {init : ν} {f : ν → ν} {d : M}
    (hinit : g init = 0) (hf : ∀ v, g (f v) = g v + d) (m : List (κ × ν)) :
    ((entry k init f m).map fun e => g e.2).sum = (m.map fun e => g e.2).sum + d := by
  induction m with
  | nil => simp [entry, hf, hinit]
  | cons e m ih =>
    rw [entry]
    split
    · simp only [List.map_cons, List.sum_cons, hf, hinit, zero_add]
      exact add_comm d _
    · split
      · simp only [List.map_cons, List.sum_cons, hf]
        exact add_right_comm (g e.2) d _
      · rw [List.map_cons, List.sum_cons, ih, List.map_cons, List.sum_cons, add_assoc]

theorem ofEntries_concat (es : List (κ × ν)) (e : κ × ν) :
    ofEntries (es ++ [e]) = insert e.1 e.2 (ofEntries es) := by
  rw [ofEntries, List.foldl_append]
  rfl

theorem sorted_ofEntries (es : List (κ × ν)) : Sorted (ofEntries es) := by
  induction es using List.reverseRecOn with
  | nil => exact List.Pairwise.nil
  | append_singleton es e ih =>
    rw [ofEntries_concat]
    exact sorted_insert ih

theorem ofEntries_perm {es : List (κ × ν)} (hkeys : (es.map Prod.fst).Nodup) :
    (ofEntries es).Perm es := by
  induction es using List.reverseRecOn with
  | nil => exact .refl _
  | append_singleton es e ih =>
    obtain ⟨hkeys, hnew⟩ := Relational.nodup_map_concat.mp hkeys
    have hperm := ih hkeys
    rw [ofEntries_concat]
    refine (insert_perm fun d hd => hnew d (hperm.mem_iff.mp hd)).trans ?_
    exact (hperm.cons e).trans (List.perm_append_singleton e es).symm

theorem ofEntries_eq {es : List (κ × ν)} (h : Sorted es) : ofEntries es = es := by
  have hkeys : (es.map Prod.fst).Nodup := by
    rw [List.Nodup, List.pairwise_map]
    exact h.imp fun hlt => hlt.ne
  exact (ofEntries_perm hkeys).eq_of_pairwise (fun a b _ _ hab hba => absurd hab hba.asymm)
    (sorted_ofEntries es) h

end SortedMap
