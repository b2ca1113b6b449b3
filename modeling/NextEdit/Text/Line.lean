import NextEdit.Text.Basic

/-! Lines. `splitLines` keeps every line break with the line it ends, so joining the lines gives
the text back; `unifyNewlines` turns the carriage-return forms into a single newline. -/
namespace NextEdit.Text

/-- The characters that end a line by themselves. -/
def isLineBreak (char : Char) : Bool :=
  let code := char.toNat
  (10 ≤ code && code ≤ 13) || (0x1C ≤ code && code ≤ 0x1E) || code == 0x85 ||
    code == 0x2028 || code == 0x2029

def splitLines : Text → List Text
  | [] => []
  | '\r' :: '\n' :: rest => ['\r', '\n'] :: splitLines rest
  | char :: rest =>
    if isLineBreak char then [char] :: splitLines rest
    else
      match splitLines rest with
      | [] => [[char]]
      | line :: lines => (char :: line) :: lines

theorem flatten_splitLines (text : Text) : (splitLines text).flatten = text := by
  fun_induction splitLines text with
  | case1 => rfl
  | case2 rest ih => simp [ih]
  | case3 char rest _ isBreak ih => simp [ih]
  | case4 char rest _ _ split ih => simp_all
  | case5 char rest _ _ line lines split ih => simp_all

/-- A carriage return, with or without a newline after it, becomes one newline. -/
def unifyNewlines : Text → Text
  | [] => []
  | '\r' :: '\n' :: rest => '\n' :: unifyNewlines rest
  | char :: rest => (if char = '\r' then '\n' else char) :: unifyNewlines rest

end NextEdit.Text
