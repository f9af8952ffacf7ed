/-
  StructuralEdit.Proofs.Pattern.Locate
  ────────────────────────────────────
  **FROM A SPAN AND A KIND TO A NODE.**

  A wrapper and what it wraps may have one span, so a span leads to a CHAIN of nodes,
  each the child of the one before.  To locate a span in a scope is to go down to the
  inner end of the chain and to climb from there:

      scope ─ … ─ m ─ … ─ n ─ … ─ covering        all of one span from `m` on

  The way down passes every node that covers the range (`atOrAbove_covering`), since of
  the children only one has room for a byte (`find?_children`).  The way up stops at the
  first node of the kind, so at the innermost (`exists_climbFrom_kind`), and it does not
  go beyond the scope (`Node.climbFrom_between`).

  `Climb` is the climb as a loop, with the node it has come to and the first node of the
  span that it has met.  It takes at most one turn for each level between the two ends,
  and it ends with the node that is located (`Climb.exists_endsIn_locate`).
-/
import StructuralEdit.Pattern.Search
import StructuralEdit.Proofs.Tree.Spans

namespace StructuralEdit

section

variable {t : Tree} {n m k scope : Node} {start stop : Nat} {kind : String}

/-! ## §1. The way down. -/

/-- Only one child has room for a byte: the children before the one that has it end too
early to be kept. -/
theorem find?_children (hwf : t.WellFormed) (hn : n.IsIn t) {c : Node} (hc : c ∈ n.children)
    (hbyte : start < stop) (hcm : c.start ≤ start) {keep : Node → Bool}
    (hkeep : keep c = true) (hroom : ∀ b : Node, keep b = true → stop ≤ b.stop) :
    n.children.find? keep = some c := by
  obtain ⟨before, after, hsplit⟩ := List.append_of_mem hc
  rw [List.find?_eq_some_iff_append]
  refine ⟨hkeep, before, after, hsplit, ?_⟩
  intro b hb
  have hapart := hwf.children_apart hn
  rw [hsplit, List.pairwise_append] at hapart
  have hend : b.stop ≤ c.start := hapart.2.2 b hb c List.mem_cons_self
  cases hkept : keep b with
  | false => rfl
  | true =>
      have := hroom b hkept
      omega

/-- On the way down to the smallest node that covers a range, every node that covers it is
passed. -/
theorem covering_eq_of_atOrAbove (hwf : t.WellFormed) (hbyte : start < stop)
    (hstart : m.start ≤ start) (hstop : stop ≤ m.stop) (hnm : n.AtOrAbove m) (hn : n.IsIn t) :
    n.covering start stop = m.covering start stop := by
  induction hnm using Relation.ReflTransGen.head_induction_on with
  | refl => rfl
  | @head n c hc hcm ih =>
      have hinside := hwf.inside (hn.of_mem_children hc) hcm
      have hlate : ¬ start < c.start := by omega
      have hfind : n.children.find? (fun b => b.label.reaches start stop) = some c := by
        apply find?_children hwf hn hc hbyte (Nat.le_of_not_lt hlate)
        · show (decide (stop ≤ c.stop)
            && (if c.start == c.stop then decide (start ≤ c.stop) else decide (start < c.stop)))
            = true
          rw [Bool.and_eq_true, decide_eq_true_eq]
          refine ⟨by omega, ?_⟩
          split <;> rw [decide_eq_true_eq] <;> omega
        · intro b hb
          unfold Label.reaches at hb
          rw [Bool.and_eq_true, decide_eq_true_eq] at hb
          exact hb.1
      rw [Node.covering_eq, hfind, Option.bind_some, if_neg hlate, Option.getD_some]
      exact ih (hn.of_mem_children hc)

/-- **The smallest node that covers a range stands below all that cover it.** -/
theorem atOrAbove_covering (hwf : t.WellFormed) (hscope : scope.IsIn t) (hbyte : start < stop)
    (hsm : scope.AtOrAbove m) (hstart : m.start ≤ start) (hstop : stop ≤ m.stop) :
    m.AtOrAbove (scope.covering start stop) := by
  rw [covering_eq_of_atOrAbove hwf hbyte hstart hstop hsm hscope]
  exact (m.covering_below start stop).1

/-- The node stands at the scope or below it, and it has exactly this span. -/
def Node.SpansIn (m scope : Node) (start stop : Nat) : Prop :=
  scope.AtOrAbove m ∧ m.start = start ∧ m.stop = stop

theorem Node.SpansIn.hasSpan (h : m.SpansIn scope start stop) : m.hasSpan start stop = true :=
  Node.hasSpan_iff.mpr h.2

/-- **Where a node of the scope has the span, the smallest node that covers it has it too.** -/
theorem Node.SpansIn.covering (hwf : t.WellFormed) (hscope : scope.IsIn t) (hbyte : start < stop)
    (h : m.SpansIn scope start stop) :
    m.AtOrAbove (scope.covering start stop)
      ∧ (scope.covering start stop).SpansIn scope start stop := by
  obtain ⟨hsm, hstart, hstop⟩ := h
  have hbelow := atOrAbove_covering hwf hscope hbyte hsm (by omega) (by omega)
  obtain ⟨hscoped, hcovers⟩ := scope.covering_below start stop
  -- inside `m`, and around the range, which is all of `m`
  have hinside := hwf.inside (hscope.of_atOrAbove hsm) hbelow
  have hout := hwf.inside hscope hsm
  have haround := hcovers (by omega)
  exact ⟨hbelow, hscoped, by omega, by omega⟩

/-- A node between two nodes of one span has that span too. -/
theorem Tree.WellFormed.hasSpan_between (hwf : t.WellFormed) (hm : m.IsIn t)
    (hmn : m.AtOrAbove n) (hnk : n.AtOrAbove k) (hmspan : m.hasSpan start stop = true)
    (hkspan : k.hasSpan start stop = true) : n.hasSpan start stop = true := by
  have hout := hwf.inside hm hmn
  have hinn := hwf.inside (hm.of_atOrAbove hmn) hnk
  rw [Node.hasSpan_iff] at hmspan hkspan ⊢
  omega

/-! ## §2. The way up. -/

namespace Node

/-- What a climb from a node comes to. -/
abbrev climbFrom (scope : Node) (start stop : Nat) (kind : String) (k : Node) : Option Node :=
  climbSameSpan scope start stop kind k.tree k.above

theorem climbFrom_of_not_hasSpan (hspan : k.hasSpan start stop = false) :
    scope.climbFrom start stop kind k = none := by
  unfold climbFrom climbSameSpan
  show (if !k.hasSpan start stop then none else _) = _
  rw [hspan]
  rfl

theorem climbFrom_of_stops (hspan : k.hasSpan start stop = true)
    (hstops : k.kind = kind ∨ k = scope) : scope.climbFrom start stop kind k = some k := by
  unfold climbFrom climbSameSpan
  show (if !k.hasSpan start stop then none
    else if k.kind == kind || k.id == scope.id then some k else _) = _
  have hend : (k.kind == kind || k.id == scope.id) = true := by
    rcases hstops with h | h <;> simp [h]
  rw [hspan, hend]
  rfl

theorem length_id_of_mem_children {up : Node} (hk : k ∈ up.children) :
    k.id.length = up.id.length + 1 := by
  obtain ⟨i, hi⟩ := id_of_mem_children hk
  rw [hi, List.length_cons]

/-- The path of a node is longer than that of anything above it. -/
theorem id_ne_of_mem_children {up : Node} (hup : scope.AtOrAbove up) (hk : k ∈ up.children) :
    k.id ≠ scope.id := by
  intro hsame
  have hdeep := hup.length_id_le
  have hlength := length_id_of_mem_children hk
  rw [hsame] at hlength
  omega

/-- Below the scope the climb goes on from a node of another kind. -/
theorem climbFrom_child {up : Node} (hup : scope.AtOrAbove up) (hk : k ∈ up.children)
    (hspan : k.hasSpan start stop = true) (hkind : k.kind ≠ kind) :
    scope.climbFrom start stop kind k
      = ((scope.climbFrom start stop kind up).filter (·.kind == kind)).or (some k) := by
  have hbelow : (k.id == scope.id) = false :=
    beq_eq_false_iff_ne.mpr (id_ne_of_mem_children hup hk)
  obtain ⟨i, c, -, rfl⟩ := mem_children_iff.mp hk
  have hstep : scope.climbFrom start stop kind (up.child i c)
      = if !(up.child i c).hasSpan start stop then none
        else if (up.child i c).kind == kind || (up.child i c).id == scope.id then
          some (up.child i c)
        else (scope.climbFrom start stop kind up).filter (·.kind == kind)
          <|> some (up.child i c) := rfl
  rw [hstep, hspan, hbelow, beq_eq_false_iff_ne.mpr hkind, Option.orElse_eq_orElse,
    Option.orElse_eq_or]
  rfl

/-- **A climb ends between its two ends, within the span**, and where it has met no node of
the kind, it ends where it began. -/
theorem climbFrom_between (hsk : scope.AtOrAbove k)
    (h : scope.climbFrom start stop kind k = some n) :
    (scope.AtOrAbove n ∧ n.AtOrAbove k ∧ n.hasSpan start stop = true)
      ∧ (n.kind = kind ∨ n = k) := by
  -- on the way from the scope down to where the climb begins
  induction hsk generalizing n with
  | refl =>
      cases hspan : scope.hasSpan start stop with
      | false =>
          rw [climbFrom_of_not_hasSpan hspan] at h
          cases h
      | true =>
          rw [climbFrom_of_stops hspan (Or.inr rfl)] at h
          cases h
          exact ⟨⟨.refl, .refl, hspan⟩, Or.inr rfl⟩
  | @tail mid k hmid hk ih =>
      cases hspan : k.hasSpan start stop with
      | false =>
          rw [climbFrom_of_not_hasSpan hspan] at h
          cases h
      | true =>
          have hhere : (scope.AtOrAbove k ∧ k.AtOrAbove k ∧ k.hasSpan start stop = true)
              ∧ (k.kind = kind ∨ k = k) := ⟨⟨hmid.tail hk, .refl, hspan⟩, Or.inr rfl⟩
          by_cases hkind : k.kind = kind
          · rw [climbFrom_of_stops hspan (Or.inl hkind)] at h
            cases h
            exact hhere
          · rw [climbFrom_child hmid hk hspan hkind, Option.or_eq_some_iff] at h
            rcases h with h | ⟨-, h⟩
            · obtain ⟨h, hfound⟩ := Option.filter_eq_some_iff.mp h
              obtain ⟨⟨habove, hbelow, hnspan⟩, -⟩ := ih h
              exact ⟨⟨habove, hbelow.tail hk, hnspan⟩, Or.inl (beq_iff_eq.mp hfound)⟩
            · cases h
              exact hhere

/-- A climb that begins within the span comes to a node. -/
theorem exists_climbFrom (hsk : scope.AtOrAbove k) (hspan : k.hasSpan start stop = true) :
    ∃ n, scope.climbFrom start stop kind k = some n := by
  by_cases hkind : k.kind = kind
  · exact ⟨k, climbFrom_of_stops hspan (Or.inl hkind)⟩
  · rcases Relation.ReflTransGen.cases_tail hsk with hscope | ⟨up, hup, hk⟩
    · exact ⟨k, climbFrom_of_stops hspan (Or.inr hscope)⟩
    · rw [climbFrom_child hup hk hspan hkind]
      cases (scope.climbFrom start stop kind up).filter (·.kind == kind) with
      | none => exact ⟨k, rfl⟩
      | some n => exact ⟨n, rfl⟩

end Node

/-- **A climb stops at the innermost node of the kind**: every node of the kind that it could
have come to stands above the one it does come to. -/
theorem exists_climbFrom_kind (hwf : t.WellFormed) (hm : m.IsIn t) (hsm : scope.AtOrAbove m)
    (hmk : m.AtOrAbove k) (hmspan : m.hasSpan start stop = true) (hkind : m.kind = kind)
    (hkspan : k.hasSpan start stop = true) :
    ∃ n, scope.climbFrom start stop kind k = some n ∧ n.kind = kind ∧ m.AtOrAbove n := by
  -- from `m` down to where the climb begins, all of it within the span
  induction hmk with
  | refl => exact ⟨m, Node.climbFrom_of_stops hkspan (Or.inl hkind), hkind, .refl⟩
  | @tail mid k hmid hk ih =>
      by_cases hhere : k.kind = kind
      · exact ⟨k, Node.climbFrom_of_stops hkspan (Or.inl hhere), hhere, hmid.tail hk⟩
      · have hmidspan := hwf.hasSpan_between hm hmid (.single hk) hmspan hkspan
        obtain ⟨n, hn, hnkind, hmn⟩ := ih hmidspan
        refine ⟨n, ?_, hnkind, hmn⟩
        rw [Node.climbFrom_child (hsm.trans hmid) hk hkspan hhere, hn]
        simp [Option.filter, hnkind]

/-! ## §3. The climb as a loop. -/

/-- A climb under way: the node it has come to, and the first node of the span that it has
met. -/
structure Climb where
  candidate : Node
  sameSpan : Option Node := none

namespace Climb

/-- One turn: the climb ends with an answer, or it goes on. -/
def turn (scope : Node) (start stop : Nat) (kind : String) (c : Climb) : Option Node ⊕ Climb :=
  if !c.candidate.hasSpan start stop then .inl c.sameSpan
  else if c.candidate.kind == kind then .inl (some c.candidate)
  else
    let sameSpan := c.sameSpan.or (some c.candidate)
    if c.candidate.id == scope.id then .inl sameSpan
    else match c.candidate.parent? with
      | some up => .inr ⟨up, sameSpan⟩
      | none => .inl sameSpan

/-- The climb ends after so many turns, with this answer. -/
inductive EndsIn (scope : Node) (start stop : Nat) (kind : String) :
    Nat → Climb → Option Node → Prop where
  | last {c : Climb} {answer : Option Node} (h : c.turn scope start stop kind = .inl answer) :
      EndsIn scope start stop kind 1 c answer
  | next {turns : Nat} {c c' : Climb} {answer : Option Node}
      (h : c.turn scope start stop kind = .inr c')
      (hrest : EndsIn scope start stop kind turns c' answer) :
      EndsIn scope start stop kind (turns + 1) c answer

/-- What a climb ends with: a node of the kind, and without one the first node of the span
that it has met. -/
def answer (scope : Node) (start stop : Nat) (kind : String) (c : Climb) : Option Node :=
  let top := scope.climbFrom start stop kind c.candidate
  (top.filter (·.kind == kind)).or (c.sameSpan.or top)

/-- Outside the span, at a node of the kind and at the scope the climb ends. -/
theorem turn_of_stops (met : Option Node)
    (h : k.hasSpan start stop = false ∨ k.kind = kind ∨ k = scope) :
    turn scope start stop kind ⟨k, met⟩ = .inl (answer scope start stop kind ⟨k, met⟩) := by
  cases hspan : k.hasSpan start stop with
  | false => simp [turn, answer, hspan, Node.climbFrom_of_not_hasSpan hspan]
  | true =>
      have hstops : k.kind = kind ∨ k = scope := by simpa [hspan] using h
      have htop := Node.climbFrom_of_stops hspan hstops
      by_cases hkind : k.kind = kind
      · simp [turn, answer, hspan, hkind, htop, Option.filter]
      · have hend : k.id = scope.id := congrArg Node.id (hstops.resolve_left hkind)
        simp [turn, answer, hspan, hkind, hend, htop, Option.filter]

/-- Anywhere else it goes on, and what it will end with stays the same. -/
theorem turn_of_child {up : Node} (hup : scope.AtOrAbove up) (hk : k ∈ up.children)
    (met : Option Node) (hspan : k.hasSpan start stop = true) (hkind : k.kind ≠ kind) :
    turn scope start stop kind ⟨k, met⟩ = .inr ⟨up, met.or (some k)⟩
      ∧ answer scope start stop kind ⟨up, met.or (some k)⟩
          = answer scope start stop kind ⟨k, met⟩ := by
  constructor
  · simp [turn, hspan, hkind, Node.id_ne_of_mem_children hup hk, Node.parent?_of_mem_children hk]
  · unfold answer
    dsimp only
    rw [Node.climbFrom_child hup hk hspan hkind]
    -- a node of the kind further up answers both; else the first node that has been met does
    cases hfound : (scope.climbFrom start stop kind up).filter (·.kind == kind) with
    | none => cases met <;> simp [Option.filter, hkind]
    | some n =>
        have hnkind := (Option.filter_eq_some_iff.mp hfound).2
        simp [Option.filter, hnkind]

/-- **The climb ends**, after at most one turn for each level up to the scope. -/
theorem exists_endsIn (start stop : Nat) (kind : String) (hsk : scope.AtOrAbove k)
    (met : Option Node) :
    ∃ turns, turns + scope.id.length ≤ k.id.length + 1
      ∧ EndsIn scope start stop kind turns ⟨k, met⟩ (answer scope start stop kind ⟨k, met⟩) := by
  induction hsk generalizing met with
  | refl => exact ⟨1, by omega, .last (turn_of_stops met (Or.inr (Or.inr rfl)))⟩
  | @tail up k hup hk ih =>
      have hdeep := Node.AtOrAbove.length_id_le hup
      have hlength := Node.length_id_of_mem_children hk
      by_cases hstops : k.hasSpan start stop = false ∨ k.kind = kind
      · refine ⟨1, by omega, .last (turn_of_stops met ?_)⟩
        exact hstops.imp_right Or.inl
      · obtain ⟨hspan, hkind⟩ := not_or.mp hstops
        obtain ⟨hturn, hsame⟩ := turn_of_child hup hk met (Bool.of_not_eq_false hspan) hkind
        obtain ⟨turns, hturns, hends⟩ := ih (met.or (some k))
        rw [hsame] at hends
        exact ⟨turns + 1, by omega, .next hturn hends⟩

/-- Begun at the smallest node that covers the range, the climb ends with the node that is
located. -/
theorem exists_endsIn_locate (scope : Node) (start stop : Nat) (kind : String) :
    ∃ turns, turns + scope.id.length ≤ (scope.covering start stop).id.length + 1
      ∧ EndsIn scope start stop kind turns ⟨scope.covering start stop, none⟩
          (scope.locate start stop kind) := by
  have hanswer : answer scope start stop kind ⟨scope.covering start stop, none⟩
      = scope.locate start stop kind := by
    show (_ : Option Node) = scope.climbFrom start stop kind (scope.covering start stop)
    unfold answer
    cases scope.climbFrom start stop kind (scope.covering start stop) with
    | none => rfl
    | some n => by_cases hkind : n.kind = kind <;> simp [Option.filter, hkind]
  have hends := exists_endsIn start stop kind (scope.covering_below start stop).1 none
  rwa [hanswer] at hends

end Climb

/-! ## §4. What is located. -/

/-- The node has the property, and whatever else has it stands above the node. -/
def Node.Innermost (P : Node → Prop) (n : Node) : Prop :=
  P n ∧ ∀ m, P m → m.AtOrAbove n

/-- What is located is in the scope and has the span; if it is not of the kind, it is the
smallest node that covers the span. -/
theorem spansIn_of_locate (h : scope.locate start stop kind = some n) :
    n.SpansIn scope start stop ∧ (n.kind = kind ∨ n = scope.covering start stop) := by
  obtain ⟨⟨hsn, -, hspan⟩, hkind⟩ :=
    Node.climbFrom_between (scope.covering_below start stop).1 h
  exact ⟨⟨hsn, Node.hasSpan_iff.mp hspan⟩, hkind⟩

/-- **A pattern selects places of the tree that its scope is in**, whatever tree it was
compared with. -/
theorem Pattern.search_isIn {p : Pattern} {text : Text} {root : Node} (hscope : scope.IsIn t)
    (hn : n ∈ p.search text root scope) : n.IsIn t := by
  obtain ⟨m, -, hm⟩ := List.mem_filterMap.mp (mem_of_mem_inDocumentOrder hn)
  exact hscope.of_atOrAbove (spansIn_of_locate hm).1.1

/-- **A span that a node of the scope has leads to a node.** -/
theorem exists_locate (hwf : t.WellFormed) (hscope : scope.IsIn t) (hbyte : start < stop)
    (h : m.SpansIn scope start stop) (kind : String) :
    ∃ n, scope.locate start stop kind = some n := by
  obtain ⟨-, hcovering⟩ := h.covering hwf hscope hbyte
  exact Node.exists_climbFrom hcovering.1 hcovering.hasSpan

/-- **A span and a kind lead to the innermost node of the scope that has both.** -/
theorem exists_locate_kind (hwf : t.WellFormed) (hscope : scope.IsIn t) (hbyte : start < stop)
    (h : m.SpansIn scope start stop) (hkind : m.kind = kind) :
    ∃ n, scope.locate start stop kind = some n
      ∧ Node.Innermost (fun m => m.SpansIn scope start stop ∧ m.kind = kind) n := by
  -- the climb comes to one node, whichever of those above it one asks about
  have hclimb : ∀ m : Node, m.SpansIn scope start stop → m.kind = kind →
      ∃ n, scope.locate start stop kind = some n ∧ n.kind = kind ∧ m.AtOrAbove n := by
    intro m h hkind
    obtain ⟨hbelow, hcovering⟩ := h.covering hwf hscope hbyte
    exact exists_climbFrom_kind hwf (hscope.of_atOrAbove h.1) h.1 hbelow h.hasSpan hkind
      hcovering.hasSpan
  obtain ⟨n, hn, hnkind, -⟩ := hclimb m h hkind
  refine ⟨n, hn, ⟨(spansIn_of_locate hn).1, hnkind⟩, ?_⟩
  intro m' hm'
  obtain ⟨n', hn', -, habove⟩ := hclimb m' hm'.1 hm'.2
  rw [hn] at hn'
  cases hn'
  exact habove

end

/-- **A SPAN AND A KIND LEAD TO ONE NODE, AND IT IS THE RIGHT ONE.**  In a well-formed tree,
for every scope, every range of bytes and every kind:

  (1) the climb ends, with the node that is located, after at most one turn for each level
      between the scope and the smallest node that covers the range;
  (2) what is located is in the scope and has exactly the range for its span.

If the range has a byte:

  (3) where nodes of the scope have the span and the kind, the innermost of them is located;
  (4) where some have the span and none the kind, the innermost of those is located;
  (5) nothing is located exactly if no node of the scope has the span. -/
theorem locate_exact (t : Tree) (hwf : t.WellFormed) (scope : Node) (hscope : scope.IsIn t)
    (start stop : Nat) (kind : String) :
    (∃ turns, turns + scope.id.length ≤ (scope.covering start stop).id.length + 1
      ∧ Climb.EndsIn scope start stop kind turns ⟨scope.covering start stop, none⟩
          (scope.locate start stop kind))
    ∧ (∀ n, scope.locate start stop kind = some n → n.SpansIn scope start stop)
    ∧ (start < stop →
        ((∃ m : Node, m.SpansIn scope start stop ∧ m.kind = kind) →
          ∃ n, scope.locate start stop kind = some n
            ∧ Node.Innermost (fun m => m.SpansIn scope start stop ∧ m.kind = kind) n)
        ∧ ((∃ m : Node, m.SpansIn scope start stop) →
          (∀ m : Node, m.SpansIn scope start stop → m.kind ≠ kind) →
          ∃ n, scope.locate start stop kind = some n
            ∧ Node.Innermost (fun m => m.SpansIn scope start stop) n)
        ∧ (scope.locate start stop kind = none ↔ ¬ ∃ m : Node, m.SpansIn scope start stop)) := by
  refine ⟨Climb.exists_endsIn_locate scope start stop kind,
    fun n hn => (spansIn_of_locate hn).1, fun hbyte => ⟨?_, ?_, ?_, ?_⟩⟩
  · intro h
    obtain ⟨m, hm, hkind⟩ := h
    exact exists_locate_kind hwf hscope hbyte hm hkind
  · intro h hnone
    obtain ⟨m, hm⟩ := h
    obtain ⟨n, hn⟩ := exists_locate hwf hscope hbyte hm kind
    obtain ⟨hspans, hkind | rfl⟩ := spansIn_of_locate hn
    · exact absurd hkind (hnone n hspans)
    · exact ⟨_, hn, hspans, fun m hm => (hm.covering hwf hscope hbyte).1⟩
  · intro hnone h
    obtain ⟨m, hm⟩ := h
    obtain ⟨n, hn⟩ := exists_locate hwf hscope hbyte hm kind
    rw [hnone] at hn
    cases hn
  · intro hno
    cases hlocate : scope.locate start stop kind with
    | none => rfl
    | some n => exact absurd ⟨n, (spansIn_of_locate hlocate).1⟩ hno

/-- A name in two blocks and a file, all of one span. -/
def wrappedTree : Tree :=
  .node { kind := "source_file", start := 0, stop := 1 }
    [ .node { kind := "block", start := 0, stop := 1 }
        [ .node { kind := "block", start := 0, stop := 1 }
            [.node { kind := "identifier", start := 0, stop := 1 } []] ] ]

/-- The outer block. -/
def outerBlock : Node :=
  (Node.root wrappedTree).child 0
    (.node { kind := "block", start := 0, stop := 1 }
      [ .node { kind := "block", start := 0, stop := 1 }
          [.node { kind := "identifier", start := 0, stop := 1 } []] ])

/-- The inner block. -/
def innerBlock : Node :=
  outerBlock.child 0
    (.node { kind := "block", start := 0, stop := 1 }
      [.node { kind := "identifier", start := 0, stop := 1 } []])

/-- The name. -/
def wrappedName : Node :=
  innerBlock.child 0 (.node { kind := "identifier", start := 0, stop := 1 } [])

/-- In the outer block, a block leads to the inner one; a file leads to the name, since the
climb does not leave the scope; and nothing has two bytes. -/
theorem locate_exact_wrapped :
    outerBlock.locate 0 1 "block" = some innerBlock
      ∧ Node.Innermost (fun m => m.SpansIn outerBlock 0 1 ∧ m.kind = "block") innerBlock
      ∧ outerBlock.locate 0 1 "source_file" = some wrappedName
      ∧ Node.Innermost (fun m => m.SpansIn outerBlock 0 1) wrappedName
      ∧ ¬ ∃ m : Node, m.SpansIn outerBlock 0 2 := by
  have hwf : wrappedTree.WellFormed := by decide
  have hscope : outerBlock.IsIn wrappedTree := Node.IsIn.root.child rfl
  have houter : outerBlock.SpansIn outerBlock 0 1 := ⟨.refl, rfl, rfl⟩
  have hkinds : ∀ m ∈ outerBlock.subtree, m.kind ≠ "source_file" := by decide
  obtain ⟨-, -, hblock⟩ := locate_exact wrappedTree hwf outerBlock hscope 0 1 "block"
  obtain ⟨-, -, hfile⟩ := locate_exact wrappedTree hwf outerBlock hscope 0 1 "source_file"
  obtain ⟨-, -, hlong⟩ := locate_exact wrappedTree hwf outerBlock hscope 0 2 "block"
  obtain ⟨n, hn, hinner⟩ := (hblock (by decide)).1 ⟨outerBlock, houter, rfl⟩
  obtain ⟨k, hk, hname⟩ := (hfile (by decide)).2.1 ⟨outerBlock, houter⟩
    fun m hm => hkinds m (Node.mem_subtree_iff.mpr hm.1)
  obtain rfl : innerBlock = n := Option.some.inj hn
  obtain rfl : wrappedName = k := Option.some.inj hk
  exact ⟨hn, hinner, hk, hname, (hlong (by decide)).2.2.mp rfl⟩

end StructuralEdit
