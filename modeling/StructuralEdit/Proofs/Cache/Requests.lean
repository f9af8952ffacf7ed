/-
  StructuralEdit.Proofs.Cache.Requests
  ────────────────────────────────────
  **NOBODY CAN TELL WHAT THE CACHES HOLD.**

  The two caches of a session are asked again and again: for a pattern, for a tree query,
  or to be emptied.  There are three ways for one cache to serve a request
  (`Cache.getOrElse_cases`),

      the form is there                   it is given, and nothing changes
      it is not, and can be compiled      it is given and kept
      it is not, and cannot be            the error is given, and nothing changes

  and from these follows all that is kept up from request to request (`Cache.Kept`): a
  cache stays within its bound, has no key twice, and holds under every key what the
  language and the source of that key compile to.  The main statement, over sequences of
  requests of any length, is `compilation_caches`.
-/
import StructuralEdit.Proofs.CachedCompilation

namespace StructuralEdit

/-! ## §1. One cache. -/

namespace Cache

variable {α ε : Type} {c : Cache α} {key : String}

/-- The ways in which a cache may serve a request for a key. -/
inductive Service (c : Cache α) (key : String) (compute : Unit → Except ε α) :
    Except ε α × Cache α → Prop where
  | found {value : α} (h : c.get? key = some value) : Service c key compute (.ok value, c)
  | made {value : α} (hnew : c.get? key = none) (h : compute () = .ok value) :
      Service c key compute (.ok value, c.insert key value)
  | failed {e : ε} (hnew : c.get? key = none) (h : compute () = .error e) :
      Service c key compute (.error e, c)

/-- **A request is served in one of three ways.** -/
theorem getOrElse_cases (c : Cache α) (key : String) (compute : Unit → Except ε α) :
    Service c key compute (c.getOrElse key compute) := by
  unfold getOrElse
  split
  next value h => exact .found h
  next hnew =>
      split
      next value h => exact .made hnew h
      next e h => exact .failed hnew h

theorem size_insert_le (c : Cache α) (key : String) (value : α) :
    (c.insert key value).size ≤ capacity := by
  unfold Cache.insert
  split
  next hroom => exact hroom
  next => exact Nat.le_of_ble_eq_true rfl

theorem get?_insert_self (c : Cache α) (key : String) (value : α) :
    (c.insert key value).get? key = some value := by
  unfold Cache.insert get?
  split <;> exact List.lookup_cons_self

theorem notMem_keys_of_get? (h : c.get? key = none) : key ∉ c.entries.map Prod.fst := by
  intro hmem
  obtain ⟨entry, hentry, rfl⟩ := List.mem_map.mp hmem
  simpa using List.lookup_eq_none_iff.mp h entry hentry

theorem nodup_keys_insert (hkeys : (c.entries.map Prod.fst).Nodup) (hnew : c.get? key = none)
    (value : α) : ((c.insert key value).entries.map Prod.fst).Nodup := by
  unfold Cache.insert
  split
  next => exact List.nodup_cons.mpr ⟨notMem_keys_of_get? hnew, hkeys⟩
  next => exact List.pairwise_singleton _ _

variable {compile : Language → String → Except ε α}

/-- Every key stands for one language and one source, and what is kept under it is what
these compile to. -/
def Decodes (compile : Language → String → Except ε α) (c : Cache α) : Prop :=
  ∀ key value, (key, value) ∈ c.entries →
    ∃ lang source, (∀ lang' source', cacheKey lang' source' = key ↔ lang' = lang ∧ source' = source)
      ∧ compile lang source = .ok value

theorem Holds.decodes (h : Holds compile c) : Decodes compile c := by
  intro key value hentry
  obtain ⟨lang, source, hkey, hcompile⟩ := h _ hentry
  refine ⟨lang, source, fun lang' source' => ⟨fun heq => ?_, ?_⟩, hcompile⟩
  · exact cacheKey_inj (heq.trans hkey)
  · rintro ⟨rfl, rfl⟩
    exact hkey.symm

/-- What is kept up from request to request. -/
structure Kept (compile : Language → String → Except ε α) (c : Cache α) : Prop where
  bounded : c.size ≤ capacity
  distinct : (c.entries.map Prod.fst).Nodup
  holds : c.Holds compile

theorem kept_empty : Kept compile ({} : Cache α) :=
  ⟨Nat.zero_le _, List.nodup_nil, holds_empty⟩

/-- **The step lemma for one cache.** -/
theorem Kept.getOrElse (h : Kept compile c) (lang : Language) (source : String) :
    Kept compile (c.getOrElse (cacheKey lang source) fun _ => compile lang source).2 := by
  obtain ⟨-, hholds⟩ := h.holds.getOrElse lang source
  refine ⟨?_, ?_, hholds⟩
  all_goals
    have hserved := c.getOrElse_cases (cacheKey lang source) fun _ => compile lang source
    generalize c.getOrElse (cacheKey lang source) _ = served at hserved ⊢
  · cases hserved with
    | found => exact h.bounded
    | made => exact size_insert_le ..
    | failed => exact h.bounded
  · cases hserved with
    | found => exact h.distinct
    | made hnew => exact nodup_keys_insert h.distinct hnew _
    | failed => exact h.distinct

/-- A request that fails leaves the cache alone. -/
theorem getOrElse_of_error (c : Cache α) (key : String) (compute : Unit → Except ε α) {e : ε}
    (h : (c.getOrElse key compute).1 = .error e) : (c.getOrElse key compute).2 = c := by
  have hserved := c.getOrElse_cases key compute
  generalize c.getOrElse key compute = served at h hserved ⊢
  cases hserved with
  | found => rfl
  | made => cases h
  | failed => rfl

/-- What has been given is there from now on. -/
theorem get?_of_getOrElse (c : Cache α) (key : String) (compute : Unit → Except ε α) {value : α}
    (h : (c.getOrElse key compute).1 = .ok value) :
    (c.getOrElse key compute).2.get? key = some value := by
  have hserved := c.getOrElse_cases key compute
  generalize c.getOrElse key compute = served at h hserved ⊢
  cases hserved with
  | found hget =>
      cases h
      exact hget
  | made =>
      cases h
      exact get?_insert_self ..
  | failed => cases h

end Cache

/-! ## §2. Both caches. -/

/-- What the caches of a session may be asked. -/
inductive CacheRequest where
  | pattern (lang : Language) (source : String)
  | query (lang : Language) (source : String)
  | clear
  deriving DecidableEq, Repr

/-- What the caches of a session answer. -/
inductive CacheAnswer where
  | pattern (outcome : Except PatternError Pattern)
  | query (outcome : Except QueryError TreeQuery)
  | cleared

/-- The answer is an error. -/
def CacheAnswer.isError : CacheAnswer → Bool
  | .pattern (.error _) => true
  | .query (.error _) => true
  | _ => false

/-- The answer of someone who keeps nothing. -/
def CacheRequest.afresh (parser : Parser) : CacheRequest → CacheAnswer
  | .pattern lang source => .pattern (Pattern.compile parser lang source)
  | .query lang source => .query (TreeQuery.compile lang source)
  | .clear => .cleared

namespace Compiled

/-- Serve one request. -/
def serve (parser : Parser) (c : Compiled) : CacheRequest → CacheAnswer × Compiled
  | .pattern lang source =>
      (.pattern (c.pattern parser lang source).1, (c.pattern parser lang source).2)
  | .query lang source => (.query (c.query lang source).1, (c.query lang source).2)
  | .clear => (.cleared, c.clear)

/-- Serve requests one after the other; the caches after them. -/
def serveAll (parser : Parser) (c : Compiled) (requests : List CacheRequest) : Compiled :=
  requests.foldl (fun c request => (c.serve parser request).2) c

/-- What is kept up from request to request, in both caches. -/
structure Kept (parser : Parser) (c : Compiled) : Prop where
  patterns : c.patterns.Kept (Pattern.compile parser)
  queries : c.queries.Kept TreeQuery.compile

variable {parser : Parser} {c : Compiled}

theorem kept_empty (parser : Parser) : Kept parser {} :=
  ⟨Cache.kept_empty, Cache.kept_empty⟩

theorem Kept.sound (h : Kept parser c) : Sound parser c :=
  ⟨h.patterns.holds, h.queries.holds⟩

/-- **The step lemma.** -/
theorem Kept.serve (h : Kept parser c) (request : CacheRequest) :
    Kept parser (c.serve parser request).2 := by
  cases request with
  | pattern lang source => exact ⟨h.patterns.getOrElse lang source, h.queries⟩
  | query lang source => exact ⟨h.patterns, h.queries.getOrElse lang source⟩
  | clear => exact kept_empty parser

/-- **The run lemma.** -/
theorem Kept.serveAll (h : Kept parser c) (requests : List CacheRequest) :
    Kept parser (c.serveAll parser requests) := by
  induction requests generalizing c with
  | nil => exact h
  | cons request requests ih => exact ih (h.serve request)

theorem Kept.answer (h : Kept parser c) (request : CacheRequest) :
    (c.serve parser request).1 = request.afresh parser := by
  cases request with
  | pattern lang source => exact congrArg CacheAnswer.pattern (h.sound.pattern lang source).1
  | query lang source => exact congrArg CacheAnswer.query (h.sound.query lang source).1
  | clear => rfl

theorem pattern_of_error {lang : Language} {source : String} {e : PatternError}
    (h : (c.pattern parser lang source).1 = .error e) : (c.pattern parser lang source).2 = c := by
  have hpatterns : (c.pattern parser lang source).2.patterns = c.patterns :=
    Cache.getOrElse_of_error c.patterns (cacheKey lang source)
      (fun _ => Pattern.compile parser lang source) h
  show { c with patterns := (c.pattern parser lang source).2.patterns } = c
  rw [hpatterns]

theorem query_of_error {lang : Language} {source : String} {e : QueryError}
    (h : (c.query lang source).1 = .error e) : (c.query lang source).2 = c := by
  have hqueries : (c.query lang source).2.queries = c.queries :=
    Cache.getOrElse_of_error c.queries (cacheKey lang source)
      (fun _ => TreeQuery.compile lang source) h
  show { c with queries := (c.query lang source).2.queries } = c
  rw [hqueries]

theorem serve_of_isError {request : CacheRequest}
    (h : (c.serve parser request).1.isError = true) : (c.serve parser request).2 = c := by
  cases request with
  | pattern lang source =>
      change (CacheAnswer.pattern (c.pattern parser lang source).1).isError = true at h
      cases houtcome : (c.pattern parser lang source).1 with
      | ok p =>
          rw [houtcome] at h
          cases h
      | error e => exact pattern_of_error houtcome
  | query lang source =>
      change (CacheAnswer.query (c.query lang source).1).isError = true at h
      cases houtcome : (c.query lang source).1 with
      | ok q =>
          rw [houtcome] at h
          cases h
      | error e => exact query_of_error houtcome
  | clear => cases h

end Compiled

/-! ## §3. Sequences of requests. -/

/-- **NOBODY CAN TELL WHAT THE CACHES HOLD.**  Whatever has been asked of the caches since
the session began, and whatever is asked of them next:

  (1) the answer is the one that compiling afresh gives, be it a form or an error;
  (2) if it is an error, both caches are as they were;
  (3) neither cache has more than 256 entries, nor two with the same key;
  (4) every entry is what the language and the source that its key stands for compile to;
  (5) a form that has been given is there for the next request. -/
theorem compilation_caches (parser : Parser) (earlier : List CacheRequest)
    (request : CacheRequest) :
    let c := ({} : Compiled).serveAll parser earlier
    let answer := (c.serve parser request).1
    let c' := (c.serve parser request).2
    answer = request.afresh parser
    ∧ (answer.isError = true → c' = c)
    ∧ (c'.patterns.size ≤ 256 ∧ (c'.patterns.entries.map Prod.fst).Nodup)
    ∧ (c'.queries.size ≤ 256 ∧ (c'.queries.entries.map Prod.fst).Nodup)
    ∧ (c'.patterns.Decodes (Pattern.compile parser) ∧ c'.queries.Decodes TreeQuery.compile)
    ∧ (∀ lang source p, request = .pattern lang source → answer = .pattern (.ok p) →
        c'.patterns.get? (cacheKey lang source) = some p)
    ∧ (∀ lang source q, request = .query lang source → answer = .query (.ok q) →
        c'.queries.get? (cacheKey lang source) = some q) := by
  intro c answer c'
  have hbefore : c.Kept parser := (Compiled.kept_empty parser).serveAll earlier
  have hafter : c'.Kept parser := hbefore.serve request
  refine ⟨hbefore.answer request, Compiled.serve_of_isError, ?_, ?_, ?_, ?_, ?_⟩
  · exact ⟨hafter.patterns.bounded, hafter.patterns.distinct⟩
  · exact ⟨hafter.queries.bounded, hafter.queries.distinct⟩
  · exact ⟨hafter.patterns.holds.decodes, hafter.queries.holds.decodes⟩
  · rintro lang source p rfl hanswer
    exact Cache.get?_of_getOrElse c.patterns (cacheKey lang source)
      (fun _ => Pattern.compile parser lang source) (CacheAnswer.pattern.inj hanswer)
  · rintro lang source q rfl hanswer
    exact Cache.get?_of_getOrElse c.queries (cacheKey lang source)
      (fun _ => TreeQuery.compile lang source) (CacheAnswer.query.inj hanswer)

/-- The parser that takes every text for a word, unless there is nothing to read. -/
def wordParser : Parser :=
  .afresh fun _ t =>
    if t.isEmpty then none
    else some (.node { kind := "text", start := 0, stop := t.length }
      [.node { kind := "word", start := 0, stop := t.length } []])

/-- A pattern whose source looks like a key is asked for twice, and once more in another
language: that makes two entries.  A pattern without a text is refused after that, and
both caches are as they were. -/
theorem compilation_caches_refused :
    let c := ({} : Compiled).serveAll wordParser
      [.query .json "; none", .pattern .rust "Rust:a", .pattern .rust "Rust:a",
        .pattern .javaScript "Rust:a"]
    c.patterns.size = 2 ∧ c.queries.size = 1
      ∧ (c.serve wordParser (.pattern .rust "")).1.isError = true
      ∧ (c.serve wordParser (.pattern .rust "")).2 = c
      ∧ c.patterns.Decodes (Pattern.compile wordParser) := by
  intro c
  obtain ⟨-, hunchanged, -, -, ⟨hdecodes, -⟩, -⟩ := compilation_caches wordParser
    [.query .json "; none", .pattern .rust "Rust:a", .pattern .rust "Rust:a",
      .pattern .javaScript "Rust:a"] (.pattern .rust "")
  have herror : (c.serve wordParser (.pattern .rust "")).1.isError = true := by decide +kernel
  have hsame : (c.serve wordParser (.pattern .rust "")).2 = c := hunchanged herror
  refine ⟨by decide +kernel, by decide +kernel, herror, hsame, ?_⟩
  rw [← hsame]
  exact hdecodes

end StructuralEdit
