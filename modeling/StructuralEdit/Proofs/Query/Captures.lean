/-
  StructuralEdit.Proofs.Query.Captures
  ────────────────────────────────────
  **A QUERY CAPTURES ONLY WHAT IT WALKS THROUGH.**

  Captures enter a thread at one place, when its step admits the node that the walk
  has come to; from then on threads are copied, compared, dropped and reported, and
  no capture changes.  So a property of nodes that every node of the walk has is a
  property of everything captured (`Machine.Holds`), step by step:

      advance    adds the node at hand, or the one above it
      settle     drops threads and sorts them into the machine
      enter, leave, walk

  The walk below a place of a tree comes to places of that tree, and so the nodes
  that a query selects are places of the tree it was run on (`search_isIn`).
-/
import StructuralEdit.Query.Basic
import StructuralEdit.Proofs.Tree.Places

namespace StructuralEdit.Query

/-! ## §1. What threads hold. -/

/-- Every node that the thread has captured satisfies `P`. -/
def Thread.Holds (P : Node → Prop) (t : Thread) : Prop :=
  ∀ c ∈ t.captures, P c.2

/-- Every node captured so far satisfies `P`. -/
structure Machine.Holds (P : Node → Prop) (m : Machine) : Prop where
  threads : ∀ t ∈ m.threads, t.Holds P
  finished : ∀ t ∈ m.finished, t.Holds P

/-- The nodes that can be captured at a site satisfy `P`. -/
structure Site.Holds (P : Node → Prop) (site : Site) : Prop where
  node : P site.node
  parent : ∀ up, site.parent = some up → P up

variable {P : Node → Prop}

/-! ## §2. Admitting a node. -/

theorem captures_unfold {steps : Steps} {fuel : Nat} {t t' : Thread}
    (h : t' ∈ unfold steps fuel t) : t'.captures = t.captures := by
  fun_induction unfold steps fuel t with
  | case1 t => rw [List.mem_singleton.mp h]
  | case2 => rw [List.mem_singleton.mp h]
  | case3 => rw [List.mem_singleton.mp h]
  | case4 fuel t s hs a ha hrole ih => exact ih h
  | case5 fuel t s hs a ha hrole ihnext ihback =>
      rcases List.mem_append.mp h with h | h
      · exact ihnext h
      · exact ihback h
  | case6 fuel t s hs a ha hrole ih =>
      rcases List.mem_cons.mp h with rfl | h
      · rfl
      · exact ih h

theorem holds_capturesOf {step : Step} {n : Node} (hn : P n) :
    ∀ c ∈ capturesOf step n, P c.2 := by
  intro c hc
  obtain ⟨id, -, rfl⟩ := List.mem_map.mp hc
  exact hn

theorem holds_admitted {steps : Steps} {step : Step} {site : Site} {t : Thread}
    (hsite : site.Holds P) (ht : t.Holds P) :
    ∀ t' ∈ admitted steps step site t, t'.Holds P := by
  -- the captures are those from before, those of a root that was skipped, those of the step
  have hgo : ∀ above : List Capture, (∀ c ∈ above, P c.2) → ∀ t' : Thread,
      t'.captures = t.captures ++ above ++ capturesOf step site.node → t'.Holds P := by
    intro above habove t' ht' c hc
    rw [ht', List.mem_append, List.mem_append] at hc
    rcases hc with (hc | hc) | hc
    · exact ht c hc
    · exact habove c hc
    · exact holds_capturesOf hsite.node c hc
  intro t' ht'
  unfold admitted at ht'
  cases hneeds : t.needsParent with
  | false =>
      simp only [hneeds, Bool.false_eq_true, if_false] at ht'
      exact hgo [] (by simp) t' (captures_unfold ht')
  | true =>
      simp only [hneeds, if_true] at ht'
      cases hup : site.parent with
      | none =>
          simp only [hup] at ht'
          cases ht'
      | some up =>
          simp only [hup] at ht'
          refine hgo _ ?_ t' (captures_unfold ht')
          split
          next root _ => exact holds_capturesOf (hsite.parent up hup)
          next => simp

theorem holds_advance {steps : Steps} {site : Site} {t : Thread} (hsite : site.Holds P)
    (ht : t.Holds P) : ∀ t' ∈ advance steps site t, t'.Holds P := by
  have hself : Thread.Holds P { t with hasRival := false } := ht
  have hwait : ∀ t' ∈ [{ t with hasRival := false }], Thread.Holds P t' :=
    List.forall_mem_singleton.mpr hself
  intro t' ht'
  simp only [advance] at ht'
  split at ht'
  next => exact hwait t' ht'
  next step _ =>
    split at ht'
    next => exact hwait t' ht'
    next =>
      split at ht'
      next =>
        split at ht'
        next => exact hwait t' ht'
        next => cases ht'
      next =>
        rcases List.mem_append.mp ht' with ht' | ht'
        · exact holds_admitted hsite hself t' ht'
        · split at ht'
          next => exact hwait t' ht'
          next => cases ht'

/-! ## §3. Rivals. -/

/-- Marking a thread changes no captures. -/
theorem holds_marked {t : Thread} (ht : t.Holds P) (mark : Bool) :
    Thread.Holds P (if mark then { t with hasRival := true } else t) := by
  cases mark with
  | false => exact ht
  | true => exact ht

/-- Facing rivals drops threads and marks them. -/
theorem holds_faceRivals {t : Thread} {rest : List Thread} (ht : t.Holds P)
    (hrest : ∀ o ∈ rest, o.Holds P) :
    (∀ t' ∈ (faceRivals t rest).1, t'.Holds P) ∧ ∀ o ∈ (faceRivals t rest).2, o.Holds P := by
  fun_induction faceRivals t rest with
  | case1 t => exact ⟨by simpa using ht, hrest⟩
  | case2 t o rest hother => exact ⟨by simpa using ht, hrest⟩
  | case3 t o rest _ _ _ _ ih => exact ih ht (List.forall_mem_cons.mp hrest).2
  | case4 t o rest => exact ⟨by simp, hrest⟩
  | case5 t o rest _ _ _ _ _ _ _ t' rest' hface ih =>
      obtain ⟨ho, hrest⟩ := List.forall_mem_cons.mp hrest
      rw [hface] at ih
      exact ⟨(ih ht hrest).1, List.forall_mem_cons.mpr ⟨ho, (ih ht hrest).2⟩⟩
  | case6 t o rest _ holds held _ _ o' t' rest' hface ih =>
      obtain ⟨ho, hrest⟩ := List.forall_mem_cons.mp hrest
      have hrec := ih (holds_marked ht held) hrest
      rw [hface] at hrec
      exact ⟨hrec.1, List.forall_mem_cons.mpr ⟨holds_marked ho holds, hrec.2⟩⟩

theorem holds_settle {isDone : Thread → Bool} {fuel : Nat} {threads : List Thread} {m : Machine}
    (hthreads : ∀ t ∈ threads, t.Holds P) (hm : m.Holds P) :
    (settle isDone fuel threads m).Holds P := by
  induction fuel generalizing threads m with
  | zero => exact hm
  | succ fuel ih =>
      cases threads with
      | nil => exact hm
      | cons t rest =>
          obtain ⟨ht, hrest⟩ := List.forall_mem_cons.mp hthreads
          have hface := holds_faceRivals ht hrest
          rw [settle]
          rcases hpair : faceRivals t rest with ⟨_ | t', rest'⟩ <;> rw [hpair] at hface
          · exact ih hface.2 hm
          · have ht' : t'.Holds P := hface.1 t' rfl
            show Machine.Holds P (if _ then _ else _)
            split
            next =>
              exact ih hface.2
                ⟨hm.threads, List.forall_mem_append.mpr
                  ⟨hm.finished, List.forall_mem_singleton.mpr ht'⟩⟩
            next =>
              exact ih hface.2
                ⟨List.forall_mem_append.mpr
                  ⟨hm.threads, List.forall_mem_singleton.mpr ht'⟩, hm.finished⟩

/-! ## §4. The walk. -/

namespace Compiled

theorem holds_insertThread {t : Thread} {threads : List Thread} (ht : t.Holds P)
    (hthreads : ∀ o ∈ threads, o.Holds P) : ∀ o ∈ insertThread t threads, o.Holds P := by
  induction threads with
  | nil => exact List.forall_mem_singleton.mpr ht
  | cons p rest ih =>
      obtain ⟨hp, hrest⟩ := List.forall_mem_cons.mp hthreads
      rw [insertThread]
      split
      next => exact List.forall_mem_cons.mpr ⟨ht, hthreads⟩
      next =>
        split
        next => exact hthreads
        next => exact List.forall_mem_cons.mpr ⟨hp, ih hrest⟩

theorem holds_start {q : Compiled} {site : Site} {threads : List Thread} (e : EntryPoint)
    (hthreads : ∀ t ∈ threads, t.Holds P) : ∀ t ∈ q.start site threads e, t.Holds P := by
  intro t ht
  -- a thread starts with nothing captured
  exact holds_insertThread (fun c hc => absurd hc List.not_mem_nil)
    (fun o ho => hthreads o (List.mem_reverse.mp ho)) t (List.mem_reverse.mp ht)

theorem holds_foldl_start {q : Compiled} {site : Site} (entries : List EntryPoint)
    {threads : List Thread} (hthreads : ∀ t ∈ threads, t.Holds P) :
    ∀ t ∈ entries.foldl (q.start site) threads, t.Holds P := by
  induction entries generalizing threads with
  | nil => exact hthreads
  | cons e entries ih => exact ih (holds_start e hthreads)

theorem holds_enter {q : Compiled} {site : Site} {m : Machine} (hsite : site.Holds P)
    (hm : m.Holds P) : (q.enter site m).Holds P := by
  refine holds_settle ?_ ⟨by simp, hm.finished⟩
  intro t' ht'
  obtain ⟨t, ht, ht'⟩ := List.mem_flatMap.mp ht'
  exact holds_advance hsite (holds_foldl_start _ hm.threads t ht) t' ht'

theorem holds_leave {q : Compiled} {depth : Nat} {m : Machine} (hm : m.Holds P) :
    (q.leave depth m).Holds P where
  threads := fun t ht => hm.threads t (List.mem_filter.mp ht).1
  finished := List.forall_mem_append.mpr
    ⟨hm.finished, fun t ht => hm.threads t (List.mem_filter.mp ht).1⟩

mutual

theorem holds_walk (q : Compiled) {t : Tree} :
    ∀ (s : Tree) (depth : Nat) (parent : Option Node) (above : List (Nat × Tree))
      (later : List Tree) (m : Machine), Node.IsIn t ⟨s, above⟩ →
      (∀ up, parent = some up → up.IsIn t) → m.Holds (Node.IsIn t) →
      (q.walk depth parent above later s m).Holds (Node.IsIn t)
  | .node l cs, depth, parent, above, later, m, hs, hparent, hm => by
      rw [walk]
      exact holds_leave
        (holds_walkAmong q [] cs (depth + 1) hs rfl (holds_enter ⟨hs, hparent⟩ hm))

theorem holds_walkAmong (q : Compiled) {t : Tree} :
    ∀ (before cs : List Tree) (depth : Nat) {parent : Node} {m : Machine}, parent.IsIn t →
      parent.tree.children = before ++ cs → m.Holds (Node.IsIn t) →
      (q.walkAmong depth parent before.length cs m).Holds (Node.IsIn t)
  | before, [], depth, parent, m, _, _, hm => by
      rw [walkAmong]
      exact hm
  | before, c :: cs, depth, parent, m, hp, hcs, hm => by
      rw [walkAmong]
      have hrest := holds_walkAmong q (before ++ [c]) cs depth hp (by simp [hcs])
        (holds_walk q c depth (some parent) _ cs m (hp.nextChild hcs)
          (fun up hup => Option.some.inj hup ▸ hp) hm)
      rwa [List.length_append, List.length_singleton] at hrest

end

theorem holds_run {q : Compiled} {t : Tree} {scope : Node} (hscope : scope.IsIn t) :
    ∀ m ∈ q.run scope, m.Holds (Node.IsIn t) :=
  (holds_walk q scope.tree 0 none scope.above [] {} hscope (by simp) ⟨by simp, by simp⟩).finished

end Compiled

end StructuralEdit.Query

namespace StructuralEdit

/-- **A tree query selects places of the tree that its scope is in.** -/
theorem TreeQuery.search_isIn {t : Tree} {q : TreeQuery} {text : Text} {scope : Node}
    (hscope : scope.IsIn t) {ns : List Node} (h : q.search text scope = .ok ns) :
    ∀ n ∈ ns, n.IsIn t := by
  intro n hn
  unfold search at h
  split at h
  next => cases h
  next id _ =>
    cases h
    obtain ⟨m, hm, hheld⟩ := List.mem_flatMap.mp (mem_of_mem_inDocumentOrder hn)
    obtain ⟨c, hc, hcn⟩ := List.mem_filterMap.mp hheld
    have hin := Query.Compiled.holds_run hscope m (List.mem_filter.mp hm).1 c hc
    split at hcn
    next => exact Option.some.inj hcn ▸ hin
    next => cases hcn

end StructuralEdit
