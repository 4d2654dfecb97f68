import ClassOutline.Failure
import ClassOutline.Member.Declaration
import ClassOutline.Reserved
/-!
# Pointers to functions

A member such as `bool (*filter)(Event) = accept;` is named inside the first pair of parentheses.
Its type is the declaration without the name, here `bool (*)(Event)`, without `static` and without
an initial value.
-/

namespace ClassOutline.FunctionPointer

/--
The text from the end of the name on without an initial value: what follows an equals sign behind
the last closing parenthesis.
-/
def withoutValue (tail : Text) : Text :=
  match tail.cutAtLast? ['='] with
  | some (before, after) => if after.contains ')' then tail else before
  | none => tail

/--
The member that a line declares as a pointer or reference to a function.  It fails if the first
parentheses do not enclose a mark and a name.
-/
def member (line : Text) : Except Failure DataMember :=
  let line := line.trim
  let line := (line.dropEnding? [';']).getD line
  let front := line.takeWhile (· ≠ '(')
  let arguments := line.dropWhile (· ≠ '(')
  let opening := arguments.takeWhile Reserved.isDelimiter
  match arguments.dropWhile Reserved.isDelimiter with
  | [] => .error (.unresolvedDeclaration line)
  | mark :: rest =>
    let name := Text.trim (rest.takeWhile (· ≠ ')'))
    let tail := rest.dropWhile (· ≠ ')')
    if front.contains ')' ∨ mark = ')' ∨ tail = [] ∨ name = [] then
      .error (.unresolvedDeclaration line)
    else
      let words := Text.words (front ++ opening ++ [mark] ++ withoutValue tail)
      .ok
        { name
          declaredType := Text.unwords (words.filter (· ≠ Declaration.staticWord))
          isStatic := words.contains Declaration.staticWord
          byValue := true }

end ClassOutline.FunctionPointer
