/-
  StructuralEdit.Cache
  ────────────────────
  **COMPILED QUERIES ARE KEPT, UP TO A BOUND.**

  The same few patterns are used on file after file, so their compiled forms are
  kept under a key that names the language and the source.  A cache holds at most
  `Cache.capacity` entries: when it is full, it is emptied as a whole before the
  next entry goes in.  A source that does not compile is not kept.
-/
import StructuralEdit.Pattern.Basic
import StructuralEdit.Query.Basic

namespace StructuralEdit

/-! ## §1. One cache. -/

/-- Values kept under keys. -/
structure Cache (α : Type) where
  entries : List (String × α) := []

namespace Cache

variable {α ε : Type}

/-- The number of entries that a cache never exceeds. -/
def capacity : Nat := 256

/-- The number of entries. -/
def size (c : Cache α) : Nat :=
  c.entries.length

/-- The value kept under a key. -/
def get? (c : Cache α) (key : String) : Option α :=
  c.entries.lookup key

/-- Keep a value; a full cache is emptied first. -/
def insert (c : Cache α) (key : String) (value : α) : Cache α :=
  if c.size < capacity then { entries := (key, value) :: c.entries }
  else { entries := [(key, value)] }

/-- The value kept under a key, or else a computed one, which is then kept.  A
computation that fails leaves the cache alone. -/
def getOrElse (c : Cache α) (key : String) (compute : Unit → Except ε α) :
    Except ε α × Cache α :=
  match c.get? key with
  | some value => (.ok value, c)
  | none =>
      match compute () with
      | .ok value => (.ok value, c.insert key value)
      | .error e => (.error e, c)

end Cache

/-- The key of a source in a language: the same text means different things in
different languages. -/
def cacheKey (lang : Language) (source : String) : String :=
  lang.name ++ ":" ++ source

/-! ## §2. The two caches of a session. -/

/-- The compiled forms kept so far. -/
structure Compiled where
  patterns : Cache Pattern := {}
  queries : Cache TreeQuery := {}

namespace Compiled

/-- The number of compiled forms. -/
def size (c : Compiled) : Nat :=
  c.patterns.size + c.queries.size

/-- A compiled pattern. -/
def pattern (c : Compiled) (parser : Parser) (lang : Language) (source : String) :
    Except PatternError Pattern × Compiled :=
  let (outcome, patterns) :=
    c.patterns.getOrElse (cacheKey lang source) fun _ => Pattern.compile parser lang source
  (outcome, { c with patterns := patterns })

/-- A compiled tree query. -/
def query (c : Compiled) (lang : Language) (source : String) :
    Except QueryError TreeQuery × Compiled :=
  let (outcome, queries) :=
    c.queries.getOrElse (cacheKey lang source) fun _ => TreeQuery.compile lang source
  (outcome, { c with queries := queries })

/-- Empty both caches. -/
def clear (_ : Compiled) : Compiled :=
  {}

end Compiled

end StructuralEdit
