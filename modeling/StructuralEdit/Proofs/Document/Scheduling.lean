/-
  StructuralEdit.Proofs.Document.Scheduling
  ─────────────────────────────────────────
  **WHAT A MUTATION QUEUES.**

  A callback may keep a state, so what it says about a node depends on the nodes that
  it has been asked about before.  `Callback.replies` are its answers when it is asked
  about a list of nodes in order, failures included, and everything is told in their
  terms: which edits are queued, which node is the last one asked about, and in what
  state the callback is left.

  A loop over nodes falls into two parts (`scheduleNodes_append`).  Over nodes without
  a failure it adds the edits of the texts to the queue and goes on with the others.
  With none left it has come to its end; with a failure next it stops there.

  How often a callback is asked cannot be seen from its answers.  `Callback.recorded`
  is the same callback with a list of the nodes it has been asked about in its state.
  The callback itself queues nothing; one that does so meanwhile takes steps of its own
  (`Session.Step`).
-/
import StructuralEdit.Proofs.Document.Outermost

namespace StructuralEdit

/-! ## §1. Callbacks and edits. -/

namespace Callback

variable {σ : Type}

/-- What the callback says about the nodes, asked about one after the other. -/
def replies (callback : Callback σ) :
    σ → List Node → List (Node × Except SelectionError Payload)
  | _, [] => []
  | state, n :: rest => (n, (callback state n).1) :: callback.replies (callback state n).2 rest

/-- The state of the callback after it has been asked about the nodes. -/
def stateAfter (callback : Callback σ) (state : σ) (ns : List Node) : σ :=
  ns.foldl (fun state n => (callback state n).2) state

/-- The callback, keeping a list of the nodes that it has been asked about. -/
def recorded (callback : Callback σ) : Callback (σ × List Node) :=
  fun (state, asked) n => ((callback state n).1, (callback state n).2, asked ++ [n])

variable (callback : Callback σ) (state : σ)

theorem map_fst_replies (ns : List Node) : (callback.replies state ns).map Prod.fst = ns := by
  induction ns generalizing state with
  | nil => rfl
  | cons n ns ih => rw [replies, List.map_cons, ih]

theorem replies_append (ns ns' : List Node) :
    callback.replies state (ns ++ ns')
      = callback.replies state ns ++ callback.replies (callback.stateAfter state ns) ns' := by
  induction ns generalizing state with
  | nil => rfl
  | cons n ns ih =>
      rw [List.cons_append, replies, ih]
      rfl

/-- What is said of a node is said after the nodes before it, in the state they leave. -/
theorem split_of_replies {ns : List Node}
    {before after : List (Node × Except SelectionError Payload)} {n : Node}
    {reply : Except SelectionError Payload}
    (h : callback.replies state ns = before ++ (n, reply) :: after) :
    ns = before.map Prod.fst ++ n :: after.map Prod.fst
      ∧ callback.replies state (before.map Prod.fst) = before
      ∧ (callback (callback.stateAfter state (before.map Prod.fst)) n).1 = reply := by
  have hns : ns = before.map Prod.fst ++ n :: after.map Prod.fst := by
    rw [← map_fst_replies callback state ns, h, List.map_append, List.map_cons]
  rw [hns, replies_append] at h
  have hlength : (callback.replies state (before.map Prod.fst)).length = before.length := by
    rw [← List.length_map Prod.fst, map_fst_replies, List.length_map]
  -- both sides are cut behind as many replies
  obtain ⟨hbefore, hrest⟩ := List.append_inj h hlength
  exact ⟨hns, hbefore, (Prod.mk.inj (List.cons.inj hrest).1).2⟩

theorem replies_recorded (asked ns : List Node) :
    callback.recorded.replies (state, asked) ns = callback.replies state ns := by
  induction ns generalizing state asked with
  | nil => rfl
  | cons n ns ih =>
      rw [replies, replies, ← ih (callback state n).2 (asked ++ [n])]
      rfl

theorem stateAfter_recorded (asked ns : List Node) :
    callback.recorded.stateAfter (state, asked) ns
      = (callback.stateAfter state ns, asked ++ ns) := by
  induction ns generalizing state asked with
  | nil => rw [List.append_nil]; rfl
  | cons n ns ih =>
      rw [List.append_cons]
      exact ih (callback state n).2 (asked ++ [n])

end Callback

namespace Intent

/-- Where the edit for a node stands. -/
def range : Intent → Node → Nat × Nat
  | .prepend, n => (n.start, n.start)
  | .append, n => (n.stop, n.stop)
  | .replace, n => (n.start, n.stop)
  | .remove, n => (n.start, n.stop)

/-- The edits that replies call for: one for each text, none for an absent payload. -/
def edits (intent : Intent) (replies : List (Node × Except SelectionError Payload)) : List Edit :=
  replies.filterMap fun
    | (n, .ok (some text)) => some ⟨(intent.range n).1, (intent.range n).2, text⟩
    | _ => none

/-- What one reply adds to the edits is what one node adds to the queue. -/
theorem edits_cons_ok {intent : Intent} (hintent : intent ≠ .remove) (n : Node) (payload : Payload)
    (replies : List (Node × Except SelectionError Payload)) :
    intent.edits ((n, .ok payload) :: replies)
      = (intent.edit? n payload).toList ++ intent.edits replies := by
  cases intent with
  | remove => exact absurd rfl hintent
  | prepend => cases payload <;> rfl
  | append => cases payload <;> rfl
  | replace => cases payload <;> rfl

end Intent

/-! ## §2. The loop over the nodes. -/

section

variable {σ : Type} {intent : Intent} {callback : Callback σ}

/-- **The run lemma.**  Nodes without a failure put their edits into the queue, and the
loop goes on with the others. -/
theorem scheduleNodes_append (hintent : intent ≠ .remove) {ns : List Node} {state : σ}
    (hok : ∀ x ∈ callback.replies state ns, ∃ payload, x.2 = .ok payload) (rest : List Node)
    (queue : List Edit) :
    scheduleNodes intent callback (ns ++ rest) queue state
      = scheduleNodes intent callback rest (queue ++ intent.edits (callback.replies state ns))
          (callback.stateAfter state ns) := by
  -- the queue and the state change from node to node
  induction ns generalizing state queue with
  | nil =>
      show _ = scheduleNodes intent callback rest (queue ++ []) state
      rw [List.append_nil]
      rfl
  | cons n ns ih =>
      rw [Callback.replies] at hok ⊢
      obtain ⟨⟨payload, hpayload⟩, hrest⟩ := List.forall_mem_cons.mp hok
      rw [List.cons_append, scheduleNodes]
      show _ = scheduleNodes intent callback rest _ (callback.stateAfter (callback state n).2 ns)
      generalize callback state n = given at hpayload hrest
      obtain ⟨reply, state'⟩ := given
      obtain rfl : reply = .ok payload := hpayload
      rw [Intent.edits_cons_ok hintent, ← List.append_assoc]
      exact ih hrest _

/-- Without a failure the loop comes to its end. -/
theorem scheduleNodes_of_ok (hintent : intent ≠ .remove) {ns : List Node} {state : σ}
    (hok : ∀ x ∈ callback.replies state ns, ∃ payload, x.2 = .ok payload) (queue : List Edit) :
    scheduleNodes intent callback ns queue state
      = { queue := queue ++ intent.edits (callback.replies state ns)
          state := callback.stateAfter state ns } := by
  have hrun := scheduleNodes_append hintent hok [] queue
  rwa [List.append_nil] at hrun

/-- The first failure ends the loop. -/
theorem scheduleNodes_of_failure (hintent : intent ≠ .remove) {ns : List Node} {state : σ}
    {before after : List (Node × Except SelectionError Payload)} {n : Node} {e : SelectionError}
    (hsplit : callback.replies state ns = before ++ (n, .error e) :: after)
    (hok : ∀ x ∈ before, ∃ payload, x.2 = .ok payload) (queue : List Edit) :
    scheduleNodes intent callback ns queue state
      = { queue := queue ++ intent.edits before
          state := callback.stateAfter state (before.map Prod.fst ++ [n])
          error := some e } := by
  obtain ⟨hns, hbefore, hfails⟩ := callback.split_of_replies state hsplit
  have hstate : callback.stateAfter state (before.map Prod.fst ++ [n])
      = (callback (callback.stateAfter state (before.map Prod.fst)) n).2 :=
    List.foldl_concat ..
  rw [← hbefore] at hok
  -- over the nodes before `n` the loop runs; `n` is next
  rw [hns, scheduleNodes_append hintent hok, hbefore, hstate, scheduleNodes]
  generalize callback (callback.stateAfter state (before.map Prod.fst)) n = given at hfails
  obtain ⟨reply, state'⟩ := given
  obtain rfl : reply = .error e := hfails
  rfl

/-- Keeping a list of the nodes asked about changes nothing else. -/
theorem scheduleNodes_recorded (ns asked : List Node) (queue : List Edit) (state : σ) :
    let r := scheduleNodes intent callback.recorded ns queue (state, asked)
    scheduleNodes intent callback ns queue state
      = { queue := r.queue, state := r.state.1, error := r.error } := by
  induction ns generalizing queue state asked with
  | nil => rfl
  | cons n ns ih =>
      have hrecorded : callback.recorded (state, asked) n
          = ((callback state n).1, (callback state n).2, asked ++ [n]) := rfl
      rw [scheduleNodes, scheduleNodes, hrecorded]
      cases callback state n with
      | mk reply state' =>
          cases reply with
          | error e => rfl
          | ok payload => exact ih _ _ _

end

/-! ## §3. Mutations. -/

namespace Document

variable {σ : Type}

/-- The outcome of a mutation with a callback, read off the loop. -/
theorem mutate_eq {intent : Intent} (hintent : intent ≠ .remove) (d : Document)
    (s : Selection .root) (callback : Callback σ) (state : σ) :
    let r := scheduleNodes intent callback s.nodes d.queue state
    d.mutate s intent callback state
      = (match r.error with | some e => .error e | none => .ok s,
          { d with queue := r.queue }, r.state) := by
  cases intent with
  | remove => exact absurd rfl hintent
  | prepend | append | replace =>
      dsimp only [mutate, schedule, Selection.schedule]
      cases (scheduleNodes _ callback s.nodes d.queue state).error <;> rfl

end Document

/-- **A MUTATION QUEUES ONE EDIT FOR EACH TEXT, IN ORDER.**  For every document, every
selection that may edit it, and every callback in any state:

  (1) to write down the nodes that the callback is asked about changes nothing else;
  (2) if the callback fails for no node, then it is asked once about each, the queue
      grows by the edits of the texts in the order of the nodes, and the selection is
      handed on;
  (3) if `n` is the first node at which it fails, then the error is the outcome, the
      callback has been asked about the nodes up to `n` and about no others, and the
      queue grows by the edits of the texts for the nodes before `n`;
  (4) removing asks nothing, never fails, and queues one edit without text for each node.

Nothing but the queue of the document changes, and what was queued before stays in front. -/
theorem mutations_queue_in_order {σ : Type} (d : Document) (s : Selection .root)
    (callback : Callback σ) (state : σ) :
    (∀ intent, intent ≠ .remove →
      let replies := callback.replies state s.nodes
      let r := d.mutate s intent callback.recorded (state, [])
      d.mutate s intent callback state = (r.1, r.2.1, r.2.2.1)
        ∧ ((∀ x ∈ replies, ∃ payload, x.2 = .ok payload) →
            r = (.ok s, { d with queue := d.queue ++ intent.edits replies },
              callback.stateAfter state s.nodes, s.nodes))
        ∧ ∀ before n e after, replies = before ++ (n, .error e) :: after →
            (∀ x ∈ before, ∃ payload, x.2 = .ok payload) →
            let asked := before.map Prod.fst ++ [n]
            r = (.error e, { d with queue := d.queue ++ intent.edits before },
              callback.stateAfter state asked, asked)
              ∧ asked = s.nodes.take (before.length + 1))
      ∧ d.mutate s .remove callback state
          = (.ok s, { d with queue := d.queue ++ s.nodes.map fun n => ⟨n.start, n.stop, []⟩ },
            state) := by
  constructor
  · intro intent hintent
    dsimp only
    -- the list that is kept makes no difference to the replies
    have hreplies := callback.replies_recorded state [] s.nodes
    rw [Document.mutate_eq hintent, Document.mutate_eq hintent]
    refine ⟨?_, fun hok => ?_, fun before n e after hsplit hok => ?_⟩
    · rw [scheduleNodes_recorded s.nodes [] d.queue state]
    · rw [← hreplies] at hok
      rw [scheduleNodes_of_ok hintent hok, hreplies, Callback.stateAfter_recorded, List.nil_append]
    · have hsplit' := hreplies.trans hsplit
      rw [scheduleNodes_of_failure hintent hsplit' hok, Callback.stateAfter_recorded,
        List.nil_append]
      obtain ⟨hns, -, -⟩ := callback.split_of_replies state hsplit
      have hasked : (before.map Prod.fst ++ [n]).length = before.length + 1 := by simp
      refine ⟨rfl, ?_⟩
      rw [hns, List.append_cons _ n (after.map _), ← hasked, List.take_left]
  · show (_, d.remove s, _) = _
    unfold Document.remove Selection.remove
    rw [← List.filterMap_eq_map]
    rfl

/-- A callback that counts: it has a text for the first node it is asked about, nothing
for the second, and fails at the third.  Appending to four nodes queues one edit behind
the one that waits already, and the fourth node is not asked about.  Replacing the first
two goes through. -/
theorem mutations_queue_in_order_until_failure :
    let callback : Callback Nat := fun count n =>
      (if count = 0 then .ok (some (Text.ofString "f"))
        else if count = 1 then .ok none
        else .error (.rejected n.kind n.start), count + 1)
    let d := callDocument.push (.inserting 6 (Text.ofString "\n"))
    let four : Selection .root := .many [callNode 2, callNode 3, callNode 4, callNode 5]
    let two : Selection .root := .many [callNode 2, callNode 3]
    d.mutate four .append callback.recorded (0, [])
        = (.error (.rejected "name" 3),
          { d with queue := [⟨6, 6, Text.ofString "\n"⟩, ⟨2, 2, Text.ofString "f"⟩] },
          3, [callNode 2, callNode 3, callNode 4])
      ∧ d.mutate two .replace callback.recorded (0, [])
        = (.ok two,
          { d with queue := [⟨6, 6, Text.ofString "\n"⟩, ⟨0, 2, Text.ofString "f"⟩] },
          2, [callNode 2, callNode 3])
      ∧ d.mutate two .remove callback 0
        = (.ok two,
          { d with queue := [⟨6, 6, Text.ofString "\n"⟩, ⟨0, 2, []⟩, ⟨2, 5, []⟩] }, 0) := by
  intro callback d four two
  obtain ⟨hfour, -⟩ := mutations_queue_in_order d four callback 0
  obtain ⟨htwo, hremove⟩ := mutations_queue_in_order d two callback 0
  obtain ⟨-, -, hfails⟩ := hfour .append (by decide)
  obtain ⟨-, hgoes, -⟩ := htwo .replace (by decide)
  refine ⟨?_, hgoes ?_, hremove⟩
  · exact (hfails [(callNode 2, .ok (some (Text.ofString "f"))), (callNode 3, .ok none)]
      (callNode 4) (.rejected "name" 3) _ rfl (by simp)).1
  · intro x hx
    have hcases : x = (callNode 2, .ok (some (Text.ofString "f")))
        ∨ x = (callNode 3, .ok none) := by
      simpa [two, callback, Callback.replies, Selection.nodes] using hx
    rcases hcases with rfl | rfl <;> exact ⟨_, rfl⟩

end StructuralEdit
