import Mathlib.Data.List.Sort
import TeachingCpu.Assembly.Defect
/-!
# TeachingCpu.Proofs.Assembly.Diagnostics

**Diagnostics in order.** They are sorted by insertion, which keeps the order of those about one
line. So sorting commutes with leaving some of them out (`Diagnostic.filter_sort`), and with
renumbering the lines in the same order (`Diagnostic.map_sort`).
-/

set_option autoImplicit false

namespace TeachingCpu

namespace Diagnostic

theorem insert_eq (d : Diagnostic) (ds : List Diagnostic) :
    insert d ds = ds.orderedInsert (fun d e => d.line ≤ e.line) d := by
  induction ds with
  | nil => rfl
  | cons e rest ih => rw [insert, List.orderedInsert_cons, ih]

theorem sort_eq (ds : List Diagnostic) :
    sort ds = ds.insertionSort fun d e => d.line ≤ e.line := by
  induction ds with
  | nil => rfl
  | cons d ds ih => rw [List.insertionSort_cons, ← ih, ← insert_eq]; rfl

theorem sort_perm (ds : List Diagnostic) : (sort ds).Perm ds := by
  rw [sort_eq]
  exact List.perm_insertionSort _ ds

theorem map_sort {f : Diagnostic → Diagnostic} {ds : List Diagnostic}
    (h : ∀ d ∈ ds, ∀ e ∈ ds, d.line ≤ e.line ↔ (f d).line ≤ (f e).line) :
    (sort ds).map f = sort (ds.map f) := by
  rw [sort_eq, sort_eq]
  exact List.map_insertionSort _ _ f ds h

theorem sort_increasing (ds : List Diagnostic) : (sort ds).Pairwise (·.line ≤ ·.line) := by
  have htotal : Std.Total fun d e : Diagnostic => d.line ≤ e.line :=
    ⟨fun d e => Nat.le_total d.line e.line⟩
  have htrans : IsTrans Diagnostic fun d e => d.line ≤ e.line := ⟨fun _ _ _ => Nat.le_trans⟩
  rw [sort_eq]
  exact List.pairwise_insertionSort _ ds

/-! ### Leaving out -/

theorem insert_of_forall_le {d : Diagnostic} {ds : List Diagnostic}
    (h : ∀ e ∈ ds, d.line ≤ e.line) : insert d ds = d :: ds := by
  cases ds with
  | nil => rfl
  | cons e rest => rw [insert, if_pos (h e List.mem_cons_self)]

theorem filter_insert {ds : List Diagnostic} (h : ds.Pairwise (·.line ≤ ·.line))
    (p : Diagnostic → Bool) (d : Diagnostic) :
    (insert d ds).filter p = if p d then insert d (ds.filter p) else ds.filter p := by
  induction ds with
  | nil => cases hd : p d <;> simp [insert, hd]
  | cons e rest ih =>
      obtain ⟨hfirst, hrest⟩ := List.pairwise_cons.mp h
      rw [insert]
      split
      · next hle =>
          -- what is left of the rest is not before the new one either
          have hall : ∀ x ∈ (e :: rest).filter p, d.line ≤ x.line := fun x hx => by
            rcases List.mem_cons.mp (List.mem_filter.mp hx).1 with rfl | hx
            · exact hle
            · exact Nat.le_trans hle (hfirst x hx)
          rw [insert_of_forall_le hall]
          cases hd : p d <;> simp [hd]
      · next hgt =>
          cases he : p e <;> cases hd : p d <;> simp [he, hd, ih hrest, insert, hgt]

theorem filter_sort (p : Diagnostic → Bool) (ds : List Diagnostic) :
    (sort ds).filter p = sort (ds.filter p) := by
  induction ds with
  | nil => rfl
  | cons d ds ih =>
      change (insert d (sort ds)).filter p = _
      rw [filter_insert (sort_increasing ds), ih]
      cases hd : p d with
      | true => rw [if_pos rfl, List.filter_cons_of_pos hd]; rfl
      | false => rw [if_neg (by simp), List.filter_cons_of_neg (by simp [hd])]

end Diagnostic

end TeachingCpu
