import ClassOutline.Reserved
/-!
# Shapes of statements

What a statement in the body of a class looks like.  A statement without an opening parenthesis is
a plain declaration.  Otherwise the first character behind the parenthesis that is no delimiter
decides first, then the text in front of the parenthesis:

* behind it stands `&` or `*`: a pointer or reference to a function;
* in front of it stands `function<`: a callable object;
* in front of it stands `=`, and the word `operator` nowhere: a declaration whose initial value
  holds parentheses;
* none of these: a member function.
-/

namespace ClassOutline

/-- The shape of a statement in the body of a class. -/
inductive Shape where
  /-- A declaration without parentheses. -/
  | plain
  /-- A pointer or reference to a function. -/
  | functionPointer
  /-- A callable object of a class type. -/
  | callable
  /-- A declaration whose initial value holds parentheses. -/
  | initialized
  /-- A member function. -/
  | function
deriving DecidableEq, Repr

namespace Shape

/-- Whether a statement of the shape declares data members. -/
def isData (shape : Shape) : Bool :=
  shape ≠ .function

/-- The shape of a text. -/
def ofText (text : Text) : Shape :=
  let front := text.takeWhile (· ≠ '(')
  match text.dropWhile (· ≠ '(') with
  | [] => .plain
  | arguments =>
    match (arguments.dropWhile Reserved.isDelimiter).head? with
    | some '&' => .functionPointer
    | some '*' => .functionPointer
    | _ =>
      if Text.mentions front "function<".toList then .callable
      else if front.contains '=' && !text.mentions "operator".toList then .initialized
      else .function

/-- The statements that consist of punctuation alone. -/
def punctuation : List Text :=
  ["".toList, "\x7b".toList, "\x7d".toList, "\x7d;".toList, "(".toList, ")".toList]

/-- The keywords that introduce something other than a data member. -/
def otherKeywords : List Text :=
  ["class".toList, "struct".toList, "public".toList, "protected".toList, "friend".toList,
    "private".toList, "template".toList, "typename".toList, "using".toList, "typedef".toList]

/--
The shape of a statement.  Punctuation has none, and neither has a statement in which the first
occurrence of one of the other keywords stands alone.
-/
def ofStatement? (statement : Text) : Option Shape :=
  if punctuation.contains statement
      || otherKeywords.any fun keyword => (Reserved.first? keyword statement).isSome
  then none
  else some (ofText statement)

end Shape

end ClassOutline
