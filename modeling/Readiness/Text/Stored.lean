import Readiness.Text.Basic

/-!
# Texts in files

`unwritable?` is the complaint about a text that no file can hold; `lines` and `asRead`
give what reading a stored text gives.
-/

namespace Readiness.Text

def isSurrogate : Point → Bool
  | .char _ => false
  | .surrogate _ => true

/-- The complaint about a text that no file can hold; none when a file can. -/
def unwritable? (t : Text) : Option String :=
  let start := (t.points.takeWhile fun p => !isSurrogate p).length
  match (t.points.drop start).takeWhile isSurrogate with
  | [] => none
  | [p] =>
    some ("'utf-8' codec can't encode character '\\u"
      ++ String.ofList (Nat.toDigits 16 p.code) ++ "' in position " ++ toString start
      ++ ": surrogates not allowed")
  | run =>
    some ("'utf-8' codec can't encode characters in position " ++ toString start ++ "-"
      ++ toString (start + run.length - 1) ++ ": surrogates not allowed")

def linesFrom : List Point → List Point → List Text
  | [], [] => []
  | done, [] => [⟨done.reverse⟩]
  | done, .char '\r' :: .char '\n' :: rest =>
    ⟨(.char '\n' :: done).reverse⟩ :: linesFrom [] rest
  | done, p :: rest =>
    if p.isChar '\n' || p.isChar '\r' then ⟨(.char '\n' :: done).reverse⟩ :: linesFrom [] rest
    else linesFrom (p :: done) rest

def lines (t : Text) : List Text := linesFrom [] t.points

def asRead (t : Text) : Text := .join .empty t.lines

end Readiness.Text
