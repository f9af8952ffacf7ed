/-
  StructuralEdit.Proofs.Path.ComponentOrder
  ─────────────────────────────────────────
  **PATHS ARE ORDERED BY THEIR COMPONENTS.**

  Components are compared by kind first and names of one kind by their text, so their order
  is total and only equal components are level.  Paths are compared component by component,
  which carries both facts over: two paths are level exactly if they have the same
  components (`Path.same`), and otherwise one of them stands strictly `Before` the other.

  A list that is strictly increasing is therefore settled, up to the spelling of its paths,
  by which components it holds (`Path.map_components_eq_of_before`).
-/
import Mathlib.Data.List.Pairwise
import StructuralEdit.Path

namespace StructuralEdit

/-! ## §1. The order of components. -/

namespace Component

/-- The text of a name; the other components have none. -/
def text : Component → String
  | .name s => s
  | _ => ""

/-- Components are compared by kind, and then by text. -/
theorem compare_eq_compareLex :
    Component.compare = compareLex (compareOn compare.rank) (compareOn text) := by
  funext a b
  cases a <;> cases b <;> rfl

instance : Std.TransCmp Component.compare := by
  rw [compare_eq_compareLex]
  infer_instance

instance : Std.LawfulEqCmp Component.compare where
  eq_of_compare {a b} h := by
    cases a <;> cases b
    case name.name s t => exact congrArg Component.name (Std.LawfulEqOrd.eq_of_compare h)
    all_goals first | rfl | cases h

end Component

/-! ## §2. The order of paths. -/

namespace Path

theorem compareAll_eq_compareLex : compareAll = List.compareLex Component.compare := by
  funext as bs
  induction as generalizing bs with
  | nil => cases bs <;> rfl
  | cons a as ih =>
      cases bs with
      | nil => rfl
      | cons b bs => rw [compareAll, List.compareLex_cons_cons, ih]

instance : Std.TransCmp compareAll := by
  rw [compareAll_eq_compareLex]
  infer_instance

instance : Std.LawfulEqCmp compareAll := by
  rw [compareAll_eq_compareLex]
  infer_instance

theorem le_trans (p q r : Path) (hpq : p.le q = true) (hqr : q.le r = true) : p.le r = true :=
  Std.TransCmp.isLE_trans hpq hqr

theorem le_total (p q : Path) : (p.le q || q.le p) = true := by
  have hswap : compareAll q.components p.components
      = (compareAll p.components q.components).swap := Std.OrientedCmp.eq_swap
  unfold le
  rw [hswap]
  cases compareAll p.components q.components <;> rfl

/-- `p` stands strictly before `q`. -/
def Before (p q : Path) : Prop :=
  compareAll p.components q.components = .lt

variable {p q r : Path}

theorem same_iff : p.same q = true ↔ p.components = q.components :=
  beq_iff_eq

theorem Before.trans (hpq : p.Before q) (hqr : q.Before r) : p.Before r :=
  Std.TransCmp.lt_trans hpq hqr

theorem Before.components_ne (h : p.Before q) : p.components ≠ q.components := by
  intro heq
  have hself : compareAll q.components q.components = .eq := Std.ReflCmp.compare_self
  unfold Before at h
  rw [heq, hself] at h
  cases h

/-- Of two paths in order with different components the first stands strictly before. -/
theorem before_of_le (h : p.le q = true) (hne : p.components ≠ q.components) : p.Before q := by
  unfold Before
  cases hcmp : compareAll p.components q.components with
  | lt => rfl
  | eq => exact absurd (Std.LawfulEqCmp.eq_of_compare hcmp) hne
  | gt =>
      unfold le at h
      rw [hcmp] at h
      cases h

/-! ## §3. Lists that are strictly increasing. -/

theorem nodup_map_components {ps : List Path} (h : ps.Pairwise Before) :
    (ps.map components).Nodup :=
  List.pairwise_map.mpr (h.imp Before.components_ne)

end Path

end StructuralEdit
