/-
  StructuralEdit.Language
  ───────────────────────
  **THE LANGUAGES A SOURCE TEXT CAN BE WRITTEN IN.**

  A language has a display name, the aliases under which a user may ask for it
  (letter case does not matter), and the file extensions that give it away
  (letter case matters).  Not every language is recognised by its extension.

  Patterns are written with `$` before a metavariable.  Where `$` cannot stand
  in an identifier, a stand-in character takes its place before the pattern is
  parsed: `Language.expando`.
-/

namespace StructuralEdit

/-- A supported source language. -/
inductive Language where
  | bash | c | cpp | cSharp | css | elixir | go | haskell | hcl | html | java
  | javaScript | json | kotlin | lua | nix | php | python | ruby | rust | scala
  | solidity | swift | tsx | typeScript | yaml
  deriving DecidableEq, Repr, Inhabited

/-- No language goes by this name. -/
structure UnknownLanguage where
  name : String
  deriving DecidableEq, Repr

/-- The wording of the complaint. -/
def UnknownLanguage.message (e : UnknownLanguage) : String :=
  "unknown language: " ++ e.name

namespace Language

/-- Every language, in alphabetical order. -/
def all : List Language :=
  [bash, c, cpp, cSharp, css, elixir, go, haskell, hcl, html, java, javaScript,
    json, kotlin, lua, nix, php, python, ruby, rust, scala, solidity, swift, tsx,
    typeScript, yaml]

/-- The display name. -/
def name : Language → String
  | bash => "Bash"
  | c => "C"
  | cpp => "Cpp"
  | cSharp => "CSharp"
  | css => "Css"
  | elixir => "Elixir"
  | go => "Go"
  | haskell => "Haskell"
  | hcl => "Hcl"
  | html => "Html"
  | java => "Java"
  | javaScript => "JavaScript"
  | json => "Json"
  | kotlin => "Kotlin"
  | lua => "Lua"
  | nix => "Nix"
  | php => "Php"
  | python => "Python"
  | ruby => "Ruby"
  | rust => "Rust"
  | scala => "Scala"
  | solidity => "Solidity"
  | swift => "Swift"
  | tsx => "Tsx"
  | typeScript => "TypeScript"
  | yaml => "Yaml"

/-- The names, in lower case, under which a user may ask for the language. -/
def aliases : Language → List String
  | bash => ["bash"]
  | c => ["c"]
  | cpp => ["cc", "c++", "cpp", "cxx"]
  | cSharp => ["cs", "csharp"]
  | css => ["css"]
  | elixir => ["ex", "elixir"]
  | go => ["go", "golang"]
  | haskell => ["hs", "haskell"]
  | hcl => ["hcl"]
  | html => ["html"]
  | java => ["java"]
  | javaScript => ["javascript", "js", "jsx"]
  | json => ["json"]
  | kotlin => ["kotlin", "kt"]
  | lua => ["lua"]
  | nix => ["nix"]
  | php => ["php"]
  | python => ["py", "python"]
  | ruby => ["rb", "ruby"]
  | rust => ["rs", "rust"]
  | scala => ["scala"]
  | solidity => ["sol", "solidity"]
  | swift => ["swift"]
  | tsx => ["tsx"]
  | typeScript => ["ts", "typescript"]
  | yaml => ["yml", "yaml"]

/-- The file extensions that give the language away. -/
def extensions : Language → List String
  | c => ["c", "h"]
  | cpp => ["cc", "cpp", "cxx", "hpp", "hh"]
  | go => ["go"]
  | java => ["java"]
  | javaScript => ["js", "mjs", "cjs", "jsx"]
  | json => ["json"]
  | python => ["py", "pyi"]
  | ruby => ["rb"]
  | rust => ["rs"]
  | tsx => ["tsx"]
  | typeScript => ["ts", "mts", "cts"]
  | _ => []

/-- The language a user asks for; ASCII letter case does not matter. -/
def ofName? (name : String) : Option Language :=
  all.find? fun lang => lang.aliases.contains (name.map Char.toLower)

/-- The language a user asks for, or the complaint that there is none. -/
def ofName (name : String) : Except UnknownLanguage Language :=
  match ofName? name with
  | some lang => .ok lang
  | none => .error ⟨name⟩

/-- The language of a file with this extension. -/
def ofExtension? (extension : String) : Option Language :=
  all.find? fun lang => lang.extensions.contains extension

/-- The language with this display name. -/
def ofDisplayName? (name : String) : Option Language :=
  all.find? fun lang => lang.name == name

/-- The character that stands for `$` in a pattern of this language. -/
def expando : Language → Char
  | c | cpp => Char.ofNat 0x10000
  | cSharp | elixir | go | haskell | hcl | kotlin | php | python | ruby | rust | swift =>
      Char.ofNat 0xB5
  | css | nix => '_'
  | html => 'z'
  | bash | java | javaScript | json | lua | scala | solidity | tsx | typeScript | yaml => '$'

end Language

end StructuralEdit
