/-
  Esolang.Language
  ────────────────
  **THE FOUR LANGUAGES.**

  Languages are known by several names, in upper or lower case, and guessed from
  the extensions of file names.
-/

namespace Esolang

/-! ## §1. Languages -/

/-- The languages. -/
inductive Language where
  | brainfuck
  | cow
  | befunge
  | whitespace
  deriving DecidableEq, Repr

namespace Language

/-- Every language. -/
def all : List Language :=
  [.brainfuck, .cow, .befunge, .whitespace]

/-- The language's name. -/
def name : Language → String
  | .brainfuck => "brainfuck"
  | .cow => "cow"
  | .befunge => "befunge"
  | .whitespace => "whitespace"

/-- The name of a program that has no file. -/
def virtualFile (language : Language) : String :=
  "<" ++ language.name ++ ">"

/-! ## §2. Names and extensions -/

/-- Names of a language, in lower case. -/
def names : Language → List String
  | .brainfuck => ["brainfuck", "bf"]
  | .cow => ["cow", "moo"]
  | .befunge => ["befunge", "befunge93", "befunge-93", "b93", "bef"]
  | .whitespace => ["whitespace", "ws"]

/-- Extensions of a language's files, in lower case. -/
def extensions : Language → List String
  | .brainfuck => ["bf", "b"]
  | .cow => ["cow"]
  | .befunge => ["bef", "b93", "befunge"]
  | .whitespace => ["ws"]

/-- The language with this name. -/
def ofName? (text : String) : Option Language :=
  all.find? fun language => language.names.contains text.toLower

/-- The language whose files have this extension. -/
def ofExtension? (text : String) : Option Language :=
  all.find? fun language => language.extensions.contains text.toLower

/-- What is said about a name that no language has. -/
def unknown (text : String) : String :=
  "unknown language '" ++ text ++ "' (expected brainfuck, cow, befunge or whitespace)"

end Language

end Esolang
