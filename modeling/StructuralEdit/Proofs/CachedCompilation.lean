/-
  StructuralEdit.Proofs.CachedCompilation
  ───────────────────────────────────────
  **WHAT IS KEPT IS WHAT WOULD BE COMPILED.**

  A cache is asked for the compiled form of a source in a language, and the two are joined
  to a key with a colon.  Sources may hold colons and names of languages; but no name of a
  language holds a colon, so the first colon of a key tells the two apart
  (`cacheKey_inj`).

  What a cache must never hold, then, is a form under a key that is not its own
  (`Cache.Holds`).  An empty cache holds no such thing, a cache that compiles what it does
  not find comes to hold none, and a cache that is emptied has none left; and as long as
  that is so, the answer is the one that compiling afresh gives (`Cache.Holds.getOrElse`).
-/
import StructuralEdit.Cache

namespace StructuralEdit

/-! ## §1. Keys. -/

theorem Language.ofDisplayName?_name (lang : Language) : ofDisplayName? lang.name = some lang := by
  cases lang <;> rfl

theorem Language.name_inj {lang lang' : Language} (h : lang.name = lang'.name) : lang = lang' := by
  have hname : ofDisplayName? lang.name = ofDisplayName? lang'.name := by rw [h]
  rw [ofDisplayName?_name, ofDisplayName?_name] at hname
  exact Option.some.inj hname

theorem Language.colon_notMem_name (lang : Language) : ':' ∉ lang.name.toList := by
  cases lang <;> decide

/-- What stands before the first colon. -/
theorem takeWhile_of_notMem {front rest : List Char} (h : ':' ∉ front) :
    (front ++ ':' :: rest).takeWhile (· != ':') = front := by
  have hfront : ∀ c ∈ front, (c != ':') = true := by
    intro c hc
    rw [bne_iff_ne]
    rintro rfl
    exact h hc
  rw [List.takeWhile_append_of_pos hfront, List.takeWhile_cons]
  simp

/-- A key tells the language and the source. -/
theorem cacheKey_inj {lang lang' : Language} {source source' : String}
    (h : cacheKey lang source = cacheKey lang' source') : lang = lang' ∧ source = source' := by
  have hchars : lang.name.toList ++ ':' :: source.toList
      = lang'.name.toList ++ ':' :: source'.toList := by
    simpa [cacheKey] using congrArg String.toList h
  have hname : lang.name.toList = lang'.name.toList := by
    rw [← @takeWhile_of_notMem _ source.toList lang.colon_notMem_name, hchars,
      takeWhile_of_notMem lang'.colon_notMem_name]
  obtain rfl : lang = lang' := Language.name_inj (String.toList_inj.mp hname)
  refine ⟨rfl, String.toList_inj.mp ?_⟩
  exact (List.cons.inj (List.append_cancel_left hchars)).2

/-! ## §2. One cache. -/

namespace Cache

variable {α ε : Type}

/-- Every entry is what the source of its key compiles to in the language of its key. -/
def Holds (compile : Language → String → Except ε α) (c : Cache α) : Prop :=
  ∀ entry ∈ c.entries, ∃ lang source,
    entry.1 = cacheKey lang source ∧ compile lang source = .ok entry.2

variable {compile : Language → String → Except ε α} {c : Cache α}

theorem holds_empty : Holds compile ({} : Cache α) := by
  intro entry hentry
  cases hentry

theorem Holds.compile_of_get? (h : Holds compile c) {lang : Language} {source : String} {value : α}
    (hget : c.get? (cacheKey lang source) = some value) : compile lang source = .ok value := by
  obtain ⟨before, after, hentries, -⟩ := List.lookup_eq_some_iff.mp hget
  have hmem : (cacheKey lang source, value) ∈ c.entries := by
    rw [hentries]
    simp
  obtain ⟨lang', source', hkey, hcompile⟩ := h _ hmem
  obtain ⟨rfl, rfl⟩ := cacheKey_inj hkey
  exact hcompile

theorem Holds.insert (h : Holds compile c) {lang : Language} {source : String} {value : α}
    (hcompile : compile lang source = .ok value) :
    Holds compile (c.insert (cacheKey lang source) value) := by
  unfold Cache.insert
  split
  next => exact List.forall_mem_cons.mpr ⟨⟨lang, source, rfl, hcompile⟩, h⟩
  next => exact List.forall_mem_singleton.mpr ⟨lang, source, rfl, hcompile⟩

/-- **The answer is the one that compiling afresh gives**, and what is kept after it is in
order again. -/
theorem Holds.getOrElse (h : Holds compile c) (lang : Language) (source : String) :
    (c.getOrElse (cacheKey lang source) fun _ => compile lang source).1 = compile lang source
      ∧ Holds compile (c.getOrElse (cacheKey lang source) fun _ => compile lang source).2 := by
  unfold Cache.getOrElse
  split
  next value hget => exact ⟨(h.compile_of_get? hget).symm, h⟩
  next =>
      split
      next value hcompile => exact ⟨hcompile.symm, h.insert hcompile⟩
      next e hcompile => exact ⟨hcompile.symm, h⟩

end Cache

/-! ## §3. Both caches. -/

namespace Compiled

/-- Both caches hold what would be compiled. -/
structure Sound (parser : Parser) (c : Compiled) : Prop where
  patterns : c.patterns.Holds (Pattern.compile parser)
  queries : c.queries.Holds TreeQuery.compile

theorem sound_empty (parser : Parser) : Sound parser {} :=
  ⟨Cache.holds_empty, Cache.holds_empty⟩

variable {parser : Parser} {c : Compiled}

theorem Sound.pattern (h : Sound parser c) (lang : Language) (source : String) :
    (c.pattern parser lang source).1 = Pattern.compile parser lang source
      ∧ Sound parser (c.pattern parser lang source).2 := by
  obtain ⟨hanswer, hkept⟩ := h.patterns.getOrElse lang source
  exact ⟨hanswer, hkept, h.queries⟩

theorem Sound.query (h : Sound parser c) (lang : Language) (source : String) :
    (c.query lang source).1 = TreeQuery.compile lang source
      ∧ Sound parser (c.query lang source).2 := by
  obtain ⟨hanswer, hkept⟩ := h.queries.getOrElse lang source
  exact ⟨hanswer, h.patterns, hkept⟩

end Compiled

end StructuralEdit
