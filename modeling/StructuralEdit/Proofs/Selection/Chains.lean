/-
  StructuralEdit.Proofs.Selection.Chains
  ──────────────────────────────────────
  **CHAINS OF CALLS ON A SELECTION.**

  A `Selection` is many nodes or a single one, and there is no third case.  What is
  STORED of it says less: a list of nodes in either case, and a mark that promises how
  many there are.  Whoever wants the single node reads it off the list by its index, and
  nothing but the history of the list says that it is there.

      many ns     stored   ⟨many, ns⟩
      single n    stored   ⟨single, [n]⟩       the node at index 0 is `n`

  `Stored` has the calls on this form; a call that reads beyond the end of the list gives
  nothing.  On the stored form of a selection each of them does what the call on the
  selection does (`stored_call`), so what one step keeps is told once, for selections
  (`Call.isIn_of_run`), and a chain of any length comes to stored forms of selections of
  the tree only (`Stored.Reached.exists_selection`).
-/
import StructuralEdit.Proofs.Document.Scheduling
import StructuralEdit.Proofs.Pattern.Scope
import StructuralEdit.Proofs.Rule.Climbing

namespace StructuralEdit

/-! ## §1. Calls. -/

/-- One call of a chain.  Predicates, visitors and callbacks keep a state of their own; only
a root selection can be mutated. -/
inductive Call (σ : Type) : Tier → Type where
  | filter {tier : Tier} (p : Predicate σ) : Call σ tier
  | parent {tier : Tier} : Call σ tier
  | first {tier : Tier} : Call σ tier
  | last {tier : Tier} : Call σ tier
  | unique {tier : Tier} : Call σ tier
  | forEach {tier : Tier} (visit : σ → Node → σ) : Call σ tier
  | mutate (intent : Intent) (callback : Callback σ) : Call σ .root

/-- What a call makes of a selection, of the document and of the state. -/
def Call.run {σ : Type} : {tier : Tier} → Call σ tier → Selection tier → Document → σ →
    Except SelectionError (Selection tier) × Document × σ
  | _, .filter p, sel, d, state => ((sel.filterWith p state).1, d, (sel.filterWith p state).2)
  | _, .parent, sel, d, state => (sel.parent, d, state)
  | _, .first, sel, d, state => (sel.first, d, state)
  | _, .last, sel, d, state => (sel.last, d, state)
  | _, .unique, sel, d, state => (sel.unique, d, state)
  | _, .forEach visit, sel, d, state => (.ok sel, d, sel.nodes.foldl visit state)
  | _, .mutate intent callback, sel, d, state => d.mutate sel intent callback state

/-! ## §2. Stored selections. -/

/-- How many nodes a selection is said to have. -/
inductive Cardinality where
  /-- Exactly one. -/
  | single
  /-- Any number, none included. -/
  | many
  deriving DecidableEq, Repr

/-- A selection as it is stored: a list of nodes, and what is said of their number. -/
structure Stored where
  cardinality : Cardinality
  nodes : List Node

/-- How a selection is stored. -/
def Selection.stored {tier : Tier} : Selection tier → Stored
  | many ns => ⟨.many, ns⟩
  | single n => ⟨.single, [n]⟩

namespace Stored

/-- The node at index 0. -/
def node? (s : Stored) : Option Node :=
  s.nodes[0]?

/-- What a function gives for the nodes, the node of a single selection being read off by
its index. -/
def map {β : Type} (f : Node → β) (s : Stored) : Option (List β) :=
  match s.cardinality with
  | .many => some (s.nodes.map f)
  | .single => s.node?.map fun n => [f n]

/-- Many nodes are narrowed down; a single one is kept or refused. -/
def filter {σ : Type} (p : Predicate σ) (state : σ) (s : Stored) :
    Option (Except SelectionError Stored × σ) :=
  match s.cardinality with
  | .many =>
      let (kept, state) := Selection.keepNodes p s.nodes state
      some (.ok ⟨.many, kept⟩, state)
  | .single =>
      s.node?.map fun n =>
        let (keep, state) := p state n
        (if keep then .ok s else .error (.rejected n.kind n.start), state)

/-- Every node replaced by its parent. -/
def parent (s : Stored) : Except SelectionError Stored :=
  (fun ups => ⟨s.cardinality, ups⟩) <$> s.nodes.mapM Selection.parentOf

/-- The first node alone. -/
def first (s : Stored) : Except SelectionError Stored :=
  match s.cardinality with
  | .single => .ok s
  | .many =>
      match s.nodes.head? with
      | some n => .ok ⟨.single, [n]⟩
      | none => .error .isEmpty

/-- The last node alone. -/
def last (s : Stored) : Except SelectionError Stored :=
  match s.cardinality with
  | .single => .ok s
  | .many =>
      match s.nodes.getLast? with
      | some n => .ok ⟨.single, [n]⟩
      | none => .error .isEmpty

/-- The only node. -/
def unique (s : Stored) : Except SelectionError Stored :=
  match s.cardinality with
  | .single => .ok s
  | .many =>
      match s.nodes with
      | [n] => .ok ⟨.single, [n]⟩
      | ns => .error (.notExactlyOne ns.length)

/-- Queue an edit for each node; the selection is handed on. -/
def mutate {σ : Type} (s : Stored) (d : Document) (intent : Intent) (callback : Callback σ)
    (state : σ) : Except SelectionError Stored × Document × σ :=
  let r := d.mutate (.many s.nodes) intent callback state
  (r.1.map fun _ => s, r.2)

/-- A call on a stored selection; nothing if it reads a node that is not there. -/
def call {σ : Type} : {tier : Tier} → Call σ tier → Stored → Document → σ →
    Option (Except SelectionError Stored × Document × σ)
  | _, .filter p, s, d, state => (s.filter p state).map fun r => (r.1, d, r.2)
  | _, .parent, s, d, state => some (s.parent, d, state)
  | _, .first, s, d, state => some (s.first, d, state)
  | _, .last, s, d, state => some (s.last, d, state)
  | _, .unique, s, d, state => some (s.unique, d, state)
  | _, .forEach visit, s, d, state => some (.ok s, d, s.nodes.foldl visit state)
  | _, .mutate intent callback, s, d, state => some (s.mutate d intent callback state)

end Stored

/-! ## §3. What is stored mirrors the selection. -/

namespace Selection

variable {σ : Type} {tier : Tier} (sel : Selection tier)

@[simp]
theorem nodes_stored : sel.stored.nodes = sel.nodes := by
  cases sel <;> rfl

theorem stored_filter (p : Predicate σ) (state : σ) :
    sel.stored.filter p state
      = some ((sel.filterWith p state).1.map stored, (sel.filterWith p state).2) := by
  cases sel with
  | many ns => rfl
  | single n =>
      show some (if (p state n).1 then _ else _, (p state n).2)
        = some (Except.map stored (if (p state n).1 then _ else _), (p state n).2)
      cases (p state n).1 <;> rfl

theorem stored_parent : sel.stored.parent = sel.parent.map stored := by
  cases sel with
  | many ns =>
      show _ <$> ns.mapM parentOf = Except.map stored (many <$> ns.mapM parentOf)
      cases ns.mapM parentOf <;> rfl
  | single n =>
      show _ <$> [n].mapM parentOf = Except.map stored (single <$> parentOf n)
      rw [List.mapM_cons, List.mapM_nil]
      cases parentOf n <;> rfl

theorem stored_first : sel.stored.first = sel.first.map stored := by
  cases sel with
  | many ns => cases ns <;> rfl
  | single n => rfl

theorem stored_last : sel.stored.last = sel.last.map stored := by
  cases sel with
  | many ns =>
      simp only [stored, Stored.last, last]
      cases ns.getLast? <;> rfl
  | single n => rfl

theorem stored_unique : sel.stored.unique = sel.unique.map stored := by
  cases sel with
  | many ns =>
      match ns with
      | [] => rfl
      | [n] => rfl
      | n :: m :: rest => rfl
  | single n => rfl

theorem stored_mutate (sel : Selection .root) (d : Document) (intent : Intent)
    (callback : Callback σ) (state : σ) :
    sel.stored.mutate d intent callback state
      = ((d.mutate sel intent callback state).1.map stored,
          (d.mutate sel intent callback state).2) := by
  unfold Stored.mutate
  by_cases hintent : intent = .remove
  · subst hintent
    cases sel <;> rfl
  · rw [Document.mutate_eq hintent, Document.mutate_eq hintent]
    -- the loop sees the nodes and nothing else
    have hnodes : (many sel.stored.nodes : Selection .root).nodes = sel.nodes :=
      sel.nodes_stored
    rw [hnodes]
    cases (scheduleNodes intent callback sel.nodes d.queue state).error <;> rfl

/-- **A call on a stored selection does what the call on the selection does.** -/
theorem stored_call (c : Call σ tier) (d : Document) (state : σ) :
    Stored.call c sel.stored d state
      = some ((c.run sel d state).1.map stored, (c.run sel d state).2) := by
  cases c with
  | filter p =>
      show (sel.stored.filter p state).map _ = _
      rw [stored_filter]
      rfl
  | parent => exact congrArg (fun r => some (r, d, state)) sel.stored_parent
  | first => exact congrArg (fun r => some (r, d, state)) sel.stored_first
  | last => exact congrArg (fun r => some (r, d, state)) sel.stored_last
  | unique => exact congrArg (fun r => some (r, d, state)) sel.stored_unique
  | forEach visit =>
      show some (Except.ok sel.stored, d, sel.stored.nodes.foldl visit state) = _
      rw [nodes_stored]
      rfl
  | mutate intent callback => exact congrArg some (sel.stored_mutate d intent callback state)

end Selection

/-! ## §4. What a call keeps. -/

section

variable {σ : Type} {tier : Tier} {t : Tree} {sel sel' : Selection tier} {d : Document} {state : σ}

/-- A mutation hands its selection on. -/
theorem Document.eq_of_mutate {sel sel' : Selection .root} {intent : Intent}
    {callback : Callback σ} (h : (d.mutate sel intent callback state).1 = .ok sel') :
    sel' = sel := by
  by_cases hintent : intent = .remove
  · subst hintent
    exact (Except.ok.inj h).symm
  · rw [Document.mutate_eq hintent] at h
    dsimp only at h
    split at h
    next => cases h
    next => exact (Except.ok.inj h).symm

/-- **The step lemma.**  A call on nodes of a tree gives nodes of that tree. -/
theorem Call.isIn_of_run {c : Call σ tier} (h : (c.run sel d state).1 = .ok sel')
    (hsel : ∀ n ∈ sel.nodes, n.IsIn t) : ∀ n ∈ sel'.nodes, n.IsIn t := by
  intro n hn
  cases c with
  | filter p =>
      have hkept : (sel.filterWith p state).1 = .ok sel' := h
      exact hsel n (Selection.mem_of_mem_filterWith hkept n hn)
  | parent =>
      obtain ⟨m, hm, hup⟩ := Selection.exists_mem_of_mem_parent h n hn
      exact (hsel m hm).parent hup
  | first => exact hsel n (Selection.mem_of_mem_first h n hn)
  | last => exact hsel n (Selection.mem_of_mem_last h n hn)
  | unique => exact hsel n (Selection.mem_of_mem_unique h n hn)
  | forEach visit =>
      obtain rfl : sel = sel' := Except.ok.inj h
      exact hsel n hn
  | mutate intent callback =>
      obtain rfl := Document.eq_of_mutate h
      exact hsel n hn

/-- Of a document a call changes the queue at most. -/
theorem Call.run_document (c : Call σ tier) (sel : Selection tier) (d : Document) (state : σ) :
    ∃ queue, (c.run sel d state).2.1 = { d with queue := queue } := by
  cases c with
  | mutate intent callback =>
      show ∃ queue, (d.mutate sel intent callback state).2.1 = { d with queue := queue }
      by_cases hintent : intent = .remove
      · subst hintent
        exact ⟨_, rfl⟩
      · rw [Document.mutate_eq hintent]
        exact ⟨_, rfl⟩
  | filter | parent | first | last | unique | forEach => exact ⟨d.queue, rfl⟩

end

/-! ## §5. What a filter keeps. -/

/-- What the predicate says about the nodes, asked about one after the other. -/
def Predicate.verdicts {σ : Type} (p : Predicate σ) : σ → List Node → List (Node × Bool)
  | _, [] => []
  | state, n :: rest => (n, (p state n).1) :: p.verdicts (p state n).2 rest

section

variable {σ : Type} (p : Predicate σ) (state : σ) (ns : List Node)

theorem Predicate.map_fst_verdicts : (p.verdicts state ns).map Prod.fst = ns := by
  induction ns generalizing state with
  | nil => rfl
  | cons n ns ih => rw [verdicts, List.map_cons, ih]

/-- A filter keeps the nodes that the predicate is for. -/
theorem Selection.keepNodes_eq :
    (keepNodes p ns state).1 = ((p.verdicts state ns).filter Prod.snd).map Prod.fst := by
  induction ns generalizing state with
  | nil => rfl
  | cons n ns ih =>
      rw [keepNodes, Predicate.verdicts]
      dsimp only
      rw [ih]
      cases (p state n).1 <;> rfl

/-- **A filter keeps the order.** -/
theorem Selection.keepNodes_sublist : (keepNodes p ns state).1.Sublist ns := by
  have hsub := ((p.verdicts state ns).filter_sublist (p := Prod.snd)).map Prod.fst
  rwa [← keepNodes_eq, Predicate.map_fst_verdicts] at hsub

end

/-! ## §6. Why a call fails. -/

/-- The call on a stored selection of nodes of `t` fails with this error. -/
def Call.Refuses {σ : Type} (t : Tree) (e : SelectionError) :
    {tier : Tier} → Call σ tier → Stored → σ → Prop
  | _, .filter p, s, state =>
      ∃ n, s = ⟨.single, [n]⟩ ∧ (p state n).1 = false ∧ e = .rejected n.kind n.start
  | _, .parent, s, _ => Node.root t ∈ s.nodes ∧ e = .noParent t.label.kind t.label.start
  | _, .first, s, _ => s = ⟨.many, []⟩ ∧ e = .isEmpty
  | _, .last, s, _ => s = ⟨.many, []⟩ ∧ e = .isEmpty
  | _, .unique, s, _ =>
      s.cardinality = .many ∧ s.nodes.length ≠ 1 ∧ e = .notExactlyOne s.nodes.length
  | _, .forEach _, _, _ => False
  | _, .mutate intent callback, s, state =>
      -- the callback fails, and this is the first of its errors
      intent ≠ .remove ∧ ∃ before n after,
        callback.replies state s.nodes = before ++ (n, .error e) :: after
          ∧ ∀ x ∈ before, ∃ payload, x.2 = .ok payload

namespace Selection

variable {σ : Type} {tier : Tier} {t : Tree} {sel : Selection tier} {e : SelectionError}

theorem filterWith_eq_error_iff {p : Predicate σ} {state : σ} :
    (sel.filterWith p state).1 = .error e ↔
      ∃ n, sel.stored = ⟨.single, [n]⟩ ∧ (p state n).1 = false ∧ e = .rejected n.kind n.start := by
  cases sel with
  | many ns => simp [filterWith, stored]
  | single n =>
      show (if (p state n).1 then Except.ok (single n) else _) = _ ↔ _
      constructor
      · intro h
        split at h
        next => cases h
        next hverdict =>
          cases h
          exact ⟨n, rfl, Bool.eq_false_of_not_eq_true hverdict, rfl⟩
      · intro h
        obtain ⟨m, hm, hverdict, rfl⟩ := h
        cases hm
        rw [hverdict]
        rfl

theorem first_eq_error_iff :
    sel.first = .error e ↔ sel.stored = ⟨.many, []⟩ ∧ e = .isEmpty := by
  cases sel with
  | many ns => cases ns <;> simp [first, stored, eq_comm]
  | single n => simp [first, stored]

theorem last_eq_error_iff :
    sel.last = .error e ↔ sel.stored = ⟨.many, []⟩ ∧ e = .isEmpty := by
  cases sel with
  | many ns =>
      cases hlast : ns.getLast? with
      | none =>
          obtain rfl := List.getLast?_eq_none_iff.mp hlast
          simp [last, stored, eq_comm]
      | some n =>
          have hne : ns ≠ [] := by
            intro hnil
            subst hnil
            cases hlast
          simp [last, stored, hlast, hne]
  | single n => simp [last, stored]

theorem unique_eq_error_iff :
    sel.unique = .error e ↔
      sel.stored.cardinality = .many ∧ sel.stored.nodes.length ≠ 1
        ∧ e = .notExactlyOne sel.stored.nodes.length := by
  cases sel with
  | many ns =>
      match ns with
      | [] => simp [unique, stored, eq_comm]
      | [n] => simp [unique, stored]
      | n :: m :: rest => simp [unique, stored, eq_comm]
  | single n => simp [unique, stored]

/-- The one node of a tree that has no parent is its root. -/
theorem parent_eq_error_iff (hsel : ∀ n ∈ sel.nodes, n.IsIn t) :
    sel.parent = .error e ↔
      Node.root t ∈ sel.nodes ∧ e = .noParent t.label.kind t.label.start := by
  by_cases hroot : Node.root t ∈ sel.nodes
  · rw [parent_eq_error hsel ⟨_, hroot, rfl⟩]
    simp [hroot, eq_comm]
  · have hdeep : ∀ n ∈ sel.nodes, n.above ≠ [] := by
      intro n hn habove
      cases hsel n hn with
      | root => exact hroot hn
      | child => cases habove
    obtain ⟨up, hup⟩ := exists_parent hdeep
    simp [hup, hroot]

end Selection

/-- Replies without a failure, or with a first one. -/
theorem replies_ok_or_split (replies : List (Node × Except SelectionError Payload)) :
    (∀ x ∈ replies, ∃ payload, x.2 = .ok payload)
      ∨ ∃ before n e after, replies = before ++ (n, .error e) :: after
          ∧ ∀ x ∈ before, ∃ payload, x.2 = .ok payload := by
  induction replies with
  | nil => exact Or.inl (by simp)
  | cons x replies ih =>
      obtain ⟨n, reply⟩ := x
      cases reply with
      | error e => exact Or.inr ⟨[], n, e, replies, rfl, by simp⟩
      | ok payload =>
          rcases ih with hok | ⟨before, m, e, after, hsplit, hok⟩
          · exact Or.inl (List.forall_mem_cons.mpr ⟨⟨payload, rfl⟩, hok⟩)
          · refine Or.inr ⟨(n, .ok payload) :: before, m, e, after, by rw [hsplit]; rfl, ?_⟩
            exact List.forall_mem_cons.mpr ⟨⟨payload, rfl⟩, hok⟩

/-- A mutation fails with the first error of its callback. -/
theorem Document.mutate_eq_error_iff {σ : Type} {d : Document} {sel : Selection .root}
    {intent : Intent} {callback : Callback σ} {state : σ} {e : SelectionError} :
    (d.mutate sel intent callback state).1 = .error e ↔
      intent ≠ .remove ∧ ∃ before n after,
        callback.replies state sel.nodes = before ++ (n, .error e) :: after
          ∧ ∀ x ∈ before, ∃ payload, x.2 = .ok payload := by
  by_cases hintent : intent = .remove
  · subst hintent
    simp [mutate]
  · rw [mutate_eq hintent]
    constructor
    · intro h
      refine ⟨hintent, ?_⟩
      rcases replies_ok_or_split (callback.replies state sel.nodes) with hok | hsplit
      · rw [scheduleNodes_of_ok hintent hok] at h
        cases h
      · obtain ⟨before, n, e', after, hsplit, hok⟩ := hsplit
        rw [scheduleNodes_of_failure hintent hsplit hok] at h
        cases h
        exact ⟨before, n, after, hsplit, hok⟩
    · intro h
      obtain ⟨-, before, n, after, hsplit, hok⟩ := h
      rw [scheduleNodes_of_failure hintent hsplit hok]

/-- **A call fails for the reason told, and for no other.** -/
theorem Call.run_eq_error_iff {σ : Type} {tier : Tier} {t : Tree} {sel : Selection tier}
    (hsel : ∀ n ∈ sel.nodes, n.IsIn t) (c : Call σ tier) (d : Document) (state : σ)
    (e : SelectionError) :
    (c.run sel d state).1 = .error e ↔ c.Refuses t e sel.stored state := by
  cases c with
  | filter p =>
      show (sel.filterWith p state).1 = _ ↔ _
      exact Selection.filterWith_eq_error_iff
  | parent =>
      show sel.parent = _ ↔ Node.root t ∈ sel.stored.nodes ∧ _
      rw [Selection.nodes_stored]
      exact Selection.parent_eq_error_iff hsel
  | first => exact Selection.first_eq_error_iff
  | last => exact Selection.last_eq_error_iff
  | unique => exact Selection.unique_eq_error_iff
  | forEach visit =>
      show Except.ok sel = .error e ↔ False
      simp
  | mutate intent callback =>
      show (d.mutate sel intent callback state).1 = _ ↔ intent ≠ .remove ∧ ∃ before n after,
        callback.replies state sel.stored.nodes = before ++ (n, .error e) :: after ∧ _
      rw [Selection.nodes_stored]
      exact Document.mutate_eq_error_iff

/-! ## §7. Chains. -/

/-- What a chain of calls comes to.  A chain begins with a query of the document, or with one
inside a node of a selection that a chain has come to.  Selections do not outlive a commit, so
all along the chain the document has one tree `t`.  The rest of it may be another one at every
call, since predicates and callbacks may look at the document, queue edits and drop them. -/
inductive Stored.Reached (t : Tree) : Tier → Stored → Prop where
  | query (d : Document) (hd : d.tree = t) (q : QueryText) {sel : Selection .root}
      (h : (d.query q).1 = .ok sel) : Reached t .root sel.stored
  | queryInside {tier : Tier} {s : Stored} (hs : Reached t tier s) {n : Node} (hn : n ∈ s.nodes)
      (d : Document) (hd : d.tree = t) (q : QueryText) {sel : Selection .derived}
      (h : (d.queryInside n q).1 = .ok sel) : Reached t .derived sel.stored
  | call {tier : Tier} {s s' : Stored} (hs : Reached t tier s) {σ : Type} (c : Call σ tier)
      (d : Document) (hd : d.tree = t) (state : σ) {d' : Document} {state' : σ}
      (h : Stored.call c s d state = some (.ok s', d', state')) : Reached t tier s'

/-- **The run lemma.**  Every chain comes to the stored form of a selection of nodes of the
tree. -/
theorem Stored.Reached.exists_selection {t : Tree} {tier : Tier} {s : Stored}
    (h : Stored.Reached t tier s) :
    ∃ sel : Selection tier, sel.stored = s ∧ ∀ n ∈ sel.nodes, n.IsIn t := by
  induction h with
  | query d hd q hquery => exact ⟨_, rfl, hd ▸ Document.query_isIn hquery⟩
  | @queryInside tier s hs n hn d hd q sel' hquery ih =>
      obtain ⟨sel, rfl, hsel⟩ := ih
      rw [Selection.nodes_stored] at hn
      obtain ⟨ns, hns, rfl⟩ := exists_of_map_eq_ok hquery
      exact ⟨_, rfl, Document.search_isIn (hsel n hn) hns⟩
  | @call tier s s' hs σ c d hd state d' state' hcall ih =>
      obtain ⟨sel, rfl, hsel⟩ := ih
      rw [Selection.stored_call] at hcall
      obtain ⟨hrun, -⟩ := Prod.mk.inj (Option.some.inj hcall)
      cases hout : (c.run sel d state).1 with
      | error e =>
          rw [hout] at hrun
          cases hrun
      | ok sel' =>
          rw [hout] at hrun
          cases hrun
          exact ⟨sel', rfl, Call.isIn_of_run hout hsel⟩

/-- **WHATEVER CHAIN OF CALLS HAS LED TO A SELECTION, IT HOLDS WHAT IT PROMISES.**  For every
chain that begins with a query, of any length and with any predicates and callbacks:

  (1) a single selection has exactly one node, and index 0 finds it;
  (2) so what is asked for each node is answered, once for each;
  (3) the nodes are nodes of the tree of the document;
  (4) every call gives an outcome, and it is that of the call on the selection which is
      stored; of the document it changes the queue at most;
  (5) filtering many nodes keeps those that the predicate is for, in their order;
  (6) a call fails exactly for the reasons told by `Call.Refuses`: `first` and `last` of
      no node, `unique` of many nodes that are not exactly one, with their number, `filter`
      of a single node that the predicate is against, `parent` of nodes among which is the
      root, and a mutation whose callback fails, with its first error. -/
theorem selection_chains (t : Tree) (tier : Tier) (s : Stored) (h : s.Reached t tier) :
    (s.cardinality = .single → ∃ n, s.nodes = [n] ∧ s.node? = some n)
    ∧ (∀ (β : Type) (f : Node → β), s.map f = some (s.nodes.map f))
    ∧ (∀ n ∈ s.nodes, n.IsIn t)
    ∧ (∃ sel : Selection tier, sel.stored = s ∧ ∀ (σ : Type) (c : Call σ tier) d state,
        Stored.call c s d state
            = some ((c.run sel d state).1.map Selection.stored, (c.run sel d state).2)
          ∧ ∃ queue, (c.run sel d state).2.1 = { d with queue := queue })
    ∧ (s.cardinality = .many → ∀ (σ : Type) (p : Predicate σ) d state, ∃ kept state',
        Stored.call (.filter p : Call σ tier) s d state = some (.ok ⟨.many, kept⟩, d, state')
          ∧ kept.Sublist s.nodes
          ∧ kept = ((p.verdicts state s.nodes).filter Prod.snd).map Prod.fst)
    ∧ ∀ (σ : Type) (c : Call σ tier) d state e,
        (∃ after, Stored.call c s d state = some (.error e, after)) ↔ c.Refuses t e s state := by
  obtain ⟨sel, rfl, hsel⟩ := h.exists_selection
  refine ⟨?_, ?_, ?_, ⟨sel, rfl, ?_⟩, ?_, ?_⟩
  · intro hsingle
    cases sel with
    | many ns => cases hsingle
    | single n => exact ⟨n, rfl, rfl⟩
  · intro β f
    cases sel <;> rfl
  · rwa [Selection.nodes_stored]
  · intro σ c d state
    exact ⟨sel.stored_call c d state, c.run_document sel d state⟩
  · intro hmany σ p d state
    cases sel with
    | single n => cases hmany
    | many ns =>
        exact ⟨_, _, rfl, Selection.keepNodes_sublist p state ns,
          Selection.keepNodes_eq p state ns⟩
  · intro σ c d state e
    rw [← c.run_eq_error_iff hsel d state e, sel.stored_call]
    cases (c.run sel d state).1 with
    | error e' => simp [Except.map]
    | ok sel' => simp [Except.map]

/-- The name `a` in two statements: `unique` of the two fails with their number.  The first
one alone is a single node, and so is its parent's parent, the file, which has no parent.
Inside the statement that is passed on the way up, a query finds one name. -/
theorem selection_chains_two_names :
    ∃ names file inside : Stored,
      names.Reached statementsTree .root ∧ names.map Node.span = some [(0, 1), (2, 3)]
      ∧ (∃ after, Stored.call (.unique : Call Unit .root) names statementsDocument ()
          = some (.error (.notExactlyOne 2), after))
      ∧ file.Reached statementsTree .root ∧ file.node? = some (Node.root statementsTree)
      ∧ (∃ after, Stored.call (.parent : Call Unit .root) file statementsDocument ()
          = some (.error (.noParent "source_file" 0), after))
      ∧ inside.Reached statementsTree .derived ∧ inside.map Node.span = some [(0, 1)] := by
  have hnames := Stored.Reached.query (t := statementsTree) statementsDocument rfl (.pattern "a") rfl
  have hfirst := hnames.call .first statementsDocument rfl () rfl
  have hstatement := hfirst.call .parent statementsDocument rfl () rfl
  have hfile := hstatement.call .parent statementsDocument rfl () rfl
  have hinside := hstatement.queryInside (List.mem_singleton_self _) statementsDocument rfl
    (.pattern "a") rfl
  obtain ⟨-, hmap, -, -, -, hunique⟩ := selection_chains _ _ _ hnames
  obtain ⟨hone, -, -, -, -, hparent⟩ := selection_chains _ _ _ hfile
  obtain ⟨-, hread, -⟩ := selection_chains _ _ _ hinside
  obtain ⟨root, hroot, hnode⟩ := hone rfl
  obtain rfl := List.singleton_inj.mp hroot
  refine ⟨_, _, _, hnames, hmap _ _, ?_, hfile, hnode, ?_, hinside, hread _ _⟩
  · exact (hunique Unit .unique statementsDocument () _).mpr ⟨rfl, by decide, rfl⟩
  · exact (hparent Unit .parent statementsDocument () _).mpr ⟨List.mem_singleton_self _, rfl⟩

end StructuralEdit
