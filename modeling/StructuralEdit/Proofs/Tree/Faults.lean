/-
  StructuralEdit.Proofs.Tree.Faults
  ─────────────────────────────────
  **WHAT THE SEARCH FOR FAULTS SKIPS HAS NONE.**

  The search goes by a mark that the parser sets: below a node without the mark it does not
  look.  All that is asked of the marks is (`Tree.Marked`)

      a fault at the node or below it   →   the node is marked

  and not the converse.  A marked node may be clean, which costs time but no fault, and faults
  may stand below faults.  Then the search finds what the full listing of the tree has
  (`Node.faults_eq`), and the verdict on a text can be told from that listing.
-/
import Mathlib.Data.List.Basic
import StructuralEdit.Template
import StructuralEdit.Proofs.Tree.Places

namespace StructuralEdit

/-! ## §1. The search, one level at a time. -/

theorem Tree.faultsAmong_eq (text : Text) (parent : Tree) (above : List (Nat × Tree))
    (cs : List Tree) (i : Nat) :
    Tree.faultsAmong text cs
      = (Tree.childrenFrom parent above i cs).flatMap fun c => c.tree.faults text := by
  induction cs generalizing i with
  | nil => rfl
  | cons c cs ih =>
      rw [Tree.faultsAmong, ih (i + 1), Tree.childrenFrom, List.flatMap_cons]

namespace Node

/-- The node is an error, or missing. -/
def isFault (n : Node) : Bool :=
  n.label.isFault

/-- **The faults of a node are itself, if it is one, then those of its children, if it is
marked.** -/
theorem faults_step (n : Node) (text : Text) :
    n.tree.faults text
      = (if n.isFault then [n.label.fault text] else [])
        ++ if n.label.hasError then n.children.flatMap fun c => c.tree.faults text else [] := by
  rw [children_eq]
  obtain ⟨⟨l, cs⟩, above⟩ := n
  show Tree.faults text (.node l cs) = _
  rw [Tree.faults, Tree.faultsAmong_eq text (.node l cs) above cs 0]
  rfl

end Node

/-! ## §2. Marks. -/

/-- Every node that is a fault, or has one below it, is marked. -/
def Tree.Marked (t : Tree) : Prop :=
  ∀ n ∈ (Node.root t).subtree, (∃ m ∈ n.subtree, m.isFault = true) → n.label.hasError = true

instance (t : Tree) : Decidable t.Marked :=
  inferInstanceAs (Decidable (∀ n ∈ (Node.root t).subtree, (∃ m ∈ n.subtree, _) → _))

/-- Below a node without the mark, itself included, there is no fault. -/
theorem Tree.Marked.isFault_eq_false {t : Tree} (h : t.Marked) {n m : Node} (hn : n.IsIn t)
    (hclean : n.label.hasError = false) (hm : m ∈ n.subtree) : m.isFault = false := by
  refine Bool.eq_false_iff.mpr fun hfault => ?_
  have hmarked := h n (Node.mem_subtree_root_iff.mpr hn) ⟨m, hm, hfault⟩
  rw [hclean] at hmarked
  cases hmarked

/-- **What the search finds below a node are the faults of its listing.** -/
theorem Node.faults_eq {t : Tree} (h : t.Marked) {n : Node} (hn : n.IsIn t) (text : Text) :
    n.tree.faults text = (n.subtree.filter isFault).map fun m => m.label.fault text := by
  induction n using childInduction with
  | h n ih =>
      rw [faults_step]
      cases hmark : n.label.hasError with
      | true =>
          -- the children are searched, and each of them finds the faults of its own listing
          have hchildren : (n.children.flatMap fun c => c.tree.faults text)
              = ((n.children.flatMap subtree).filter isFault).map fun m => m.label.fault text := by
            rw [List.filter_flatMap, List.map_flatMap]
            exact List.flatMap_congr fun c hc => ih c hc (hn.of_mem_children hc)
          rw [if_pos rfl, hchildren, subtree_eq, List.filter_cons]
          cases n.isFault <;> rfl
      | false =>
          have hnone : n.subtree.filter isFault = [] := by
            refine List.filter_eq_nil_iff.mpr fun m hm => ?_
            rw [h.isFault_eq_false hn hmark hm]
            exact Bool.false_ne_true
          have hself : n.isFault = false :=
            h.isFault_eq_false hn hmark (mem_subtree_iff.mpr .refl)
          rw [hnone, hself]
          rfl

/-! ## §3. Verdicts. -/

namespace Tree

variable {t : Tree} {text : Text}

theorem checkForm_eq_ok_iff : t.checkForm text = .ok () ↔ t.faults text = [] := by
  unfold checkForm
  split
  next hnone => simp [hnone]
  next only hone => simp [hone]
  next hnone hone => simpa using hnone

theorem checkForm_eq_single_iff {start stop : Nat} :
    t.checkForm text = .error (.single start stop)
      ↔ ∃ f, t.faults text = [f] ∧ f.start = start ∧ f.stop = stop := by
  unfold checkForm
  split
  next hnone => simp [hnone]
  next only hone => simp [hone]
  next hnone hone =>
      constructor
      · intro h
        cases h
      · rintro ⟨f, hf, -⟩
        exact absurd hf (hone f)

theorem checkForm_eq_several_iff {count : Nat} :
    t.checkForm text = .error (.several count)
      ↔ 2 ≤ (t.faults text).length ∧ count = (t.faults text).length := by
  unfold checkForm
  split
  next hnone => simp [hnone]
  next only hone => simp [hone]
  next hnone hone =>
      have htwo : 2 ≤ (t.faults text).length := by
        match hfaults : t.faults text with
        | [] => exact absurd hfaults hnone
        | [f] => exact absurd hfaults (hone f)
        | f :: g :: rest => simp
      constructor
      · intro h
        cases h
        exact ⟨htwo, rfl⟩
      · rintro ⟨-, rfl⟩
        rfl

end Tree

theorem checkForm_of_parse {parser : Parser} {lang : Language} {text : Text} {t : Tree}
    (h : parser.parse lang text = some t) : checkForm parser lang text = t.checkForm text := by
  unfold checkForm
  rw [h]

theorem checkSnippet_eq_ok_iff {parser : Parser} {lang : Language} {text : Text} :
    checkSnippet parser lang text = .ok () ↔ checkForm parser lang text = .ok () := by
  unfold checkSnippet
  cases checkForm parser lang text <;> simp [Except.mapError]

theorem checkSnippet_eq_error_iff {parser : Parser} {lang : Language} {text : Text}
    {cause : FormError} :
    checkSnippet parser lang text = .error (.malformed cause)
      ↔ checkForm parser lang text = .error cause := by
  unfold checkSnippet
  cases checkForm parser lang text <;> simp [Except.mapError]

/-- **WHAT THE SEARCH FOR FAULTS SKIPS HAS NONE.**  In a tree in which every node is marked
that is a fault or has one below it, the search finds the faults of the full listing in
pre-order, each of them once, and tells where they start and end.  So a text with such a tree is

  (1) well formed just if the tree has no fault;
  (2) refused for one fault, at its place, just if the tree has exactly one;
  (3) refused for several, with their number, just if it has that many, and two at least;

and snippets are judged in the same way. -/
theorem faults_complete (t : Tree) (hmarked : t.Marked) (text : Text) :
    let faulty := (Node.root t).subtree.filter Node.isFault
    t.faults text
        = faulty.map (fun n => ⟨n.start, n.stop, text.pointAt n.start, text.pointAt n.stop⟩)
    ∧ faulty.Pairwise (fun a b => a.id ≠ b.id)
    ∧ ∀ (parser : Parser) (lang : Language), parser.parse lang text = some t →
        (checkForm parser lang text = .ok () ↔ faulty = [])
        ∧ (∀ start stop, checkForm parser lang text = .error (.single start stop)
            ↔ ∃ n, faulty = [n] ∧ n.start = start ∧ n.stop = stop)
        ∧ (∀ count, checkForm parser lang text = .error (.several count)
            ↔ 2 ≤ faulty.length ∧ count = faulty.length)
        ∧ (checkSnippet parser lang text = .ok () ↔ faulty = [])
        ∧ (∀ start stop, checkSnippet parser lang text = .error (.malformed (.single start stop))
            ↔ ∃ n, faulty = [n] ∧ n.start = start ∧ n.stop = stop)
        ∧ (∀ count, checkSnippet parser lang text = .error (.malformed (.several count))
            ↔ 2 ≤ faulty.length ∧ count = faulty.length) := by
  intro faulty
  have hfaults : t.faults text = faulty.map fun n => n.label.fault text :=
    Node.faults_eq hmarked .root text
  refine ⟨hfaults, (Node.pairwise_id_subtree (Node.root t)).filter _, fun parser lang hparse => ?_⟩
  have hok : checkForm parser lang text = .ok () ↔ faulty = [] := by
    rw [checkForm_of_parse hparse, Tree.checkForm_eq_ok_iff, hfaults, List.map_eq_nil_iff]
  have hsingle : ∀ start stop, checkForm parser lang text = .error (.single start stop)
      ↔ ∃ n, faulty = [n] ∧ n.start = start ∧ n.stop = stop := by
    intro start stop
    rw [checkForm_of_parse hparse, Tree.checkForm_eq_single_iff, hfaults]
    simp only [List.map_eq_singleton_iff]
    constructor
    · rintro ⟨_, ⟨n, hn, rfl⟩, hspan⟩
      exact ⟨n, hn, hspan⟩
    · rintro ⟨n, hn, hspan⟩
      exact ⟨_, ⟨n, hn, rfl⟩, hspan⟩
  have hseveral : ∀ count, checkForm parser lang text = .error (.several count)
      ↔ 2 ≤ faulty.length ∧ count = faulty.length := by
    intro count
    rw [checkForm_of_parse hparse, Tree.checkForm_eq_several_iff, hfaults, List.length_map]
  exact ⟨hok, hsingle, hseveral, checkSnippet_eq_ok_iff.trans hok,
    fun start stop => checkSnippet_eq_error_iff.trans (hsingle start stop),
    fun count => checkSnippet_eq_error_iff.trans (hseveral count)⟩

/-- The tree of `a(`: a clean name, a comment that is marked for no reason, and an error in
which a bracket is missing. -/
def openCall : Tree :=
  .node { kind := "source_file", start := 0, stop := 2, hasError := true }
    [.node { kind := "expression", start := 0, stop := 1 }
      [.node { kind := "identifier", start := 0, stop := 1 } []],
     .node { kind := "comment", start := 1, stop := 1, hasError := true } [],
     .node { kind := "ERROR", start := 1, stop := 2, isError := true, hasError := true }
      [.node { kind := "(", start := 1, stop := 2, named := false } [],
       .node { kind := ")", start := 2, stop := 2, isMissing := true, hasError := true } []]]

theorem faults_complete_nested :
    let text := Text.ofString "a("
    let parser := Parser.afresh fun _ _ => some openCall
    openCall.Marked
    ∧ openCall.faults text = [⟨1, 2, ⟨0, 1⟩, ⟨0, 2⟩⟩, ⟨2, 2, ⟨0, 2⟩, ⟨0, 2⟩⟩]
    ∧ checkForm parser .rust text = .error (.several 2)
    ∧ checkSnippet parser .rust text = .error (.malformed (.several 2)) := by
  intro text parser
  have hmarked : openCall.Marked := by decide
  have htwo : 2 = ((Node.root openCall).subtree.filter Node.isFault).length := by decide
  obtain ⟨hfaults, -, hverdict⟩ := faults_complete openCall hmarked text
  obtain ⟨-, -, hseveral, -, -, hsnippet⟩ := hverdict parser .rust rfl
  exact ⟨hmarked, hfaults.trans (by decide), (hseveral 2).mpr ⟨Nat.le_of_eq htwo, htwo⟩,
    (hsnippet 2).mpr ⟨Nat.le_of_eq htwo, htwo⟩⟩

end StructuralEdit
