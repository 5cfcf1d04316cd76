/-
  Esolang.Source.CodeFence
  ────────────────────────
  **PROGRAMS INSIDE A MARKDOWN FENCE.**

  Programs are often pasted as a fenced block: three backticks, perhaps a tag
  such as `bf`, the program, three backticks.  `unfence` takes the program out
  and leaves every other text alone.  Blanks inside the fence stay, since some
  languages are written in them.
-/
import Esolang.Text.Blank

namespace Esolang.Source.CodeFence

/-! ## §1. Parts of a fenced block -/

/-- Three backticks. -/
def fence : List Char :=
  "```".toList

/-- What stands between an opening and a closing fence, if both are there and do
not overlap. -/
def between? (text : List Char) : Option (List Char) :=
  if fence.isPrefixOf text && fence.isSuffixOf text && 6 ≤ text.length then
    some ((text.drop 3).take (text.length - 6))
  else none

/-- Characters of a tag. -/
def isTagChar (c : Char) : Bool :=
  c.isAlphanum || c == '_' || c == '+' || c == '-'

/-- Spaces and tabs. -/
def isGap (c : Char) : Bool :=
  c == ' ' || c == '\t'

/-- Drops one line that holds nothing but a tag, if the text begins with one. -/
def dropTagLine (text : List Char) : List Char :=
  match (text.dropWhile isTagChar).dropWhile isGap with
  | '\n' :: rest => rest
  | '\r' :: '\n' :: rest => rest
  | _ => text

/-- Drops the line break before the closing fence. -/
def dropLastBreak (text : List Char) : List Char :=
  match text.reverse with
  | '\n' :: '\r' :: rest => rest.reverse
  | '\n' :: rest => rest.reverse
  | '\r' :: rest => rest.reverse
  | _ => text

/-! ## §2. Taking the program out -/

/-- The program inside a fence with blanks around it, or the text itself. -/
def unfence (text : String) : String :=
  match between? (Text.trim text.toList) with
  | some inner => String.ofList (dropLastBreak (dropTagLine inner))
  | none => text

end Esolang.Source.CodeFence
