import ClassOutline.Failure
import ClassOutline.Outline
import ClassOutline.Text.Blank
import ClassOutline.Text.Bracket
/-!
# Declarations of data members

A declaration is a type followed by declarators, as in `unsigned width = 8, *rows, cells[9];`.  It
is cut into tokens at blanks, fragments of bracketed constructs and strings are put together again,
and initial values are taken out.  The commas that end tokens then tell the declarators from the
type: a token that ends with the only comma in it is a declarator, and so is the token behind it.
-/

namespace ClassOutline.Declaration

/-! ## Tokens -/

/-- Whether a token was cut in the middle of a construct. -/
def isFragment (token : Text) : Bool :=
  ¬ Text.Balanced token
    || token.count '"' % 2 = 1
    || token = "_STD".toList
    || 1 < token.length && "::".toList.isSuffixOf token

/-- The tokens of a declaration. -/
def tokens (declaration : Text) : List Text :=
  Text.regroup [] isFragment declaration.words

/-! ## Initial values -/

/-- Whether a token ends with a comma. -/
def endsWithComma (token : Text) : Bool :=
  token.getLast? = some ','

/--
The declarator in front of a value that is taken out.  A comma at either end of the value is one
that follows the declarator.
-/
def withCommaOf (rest : List Text) (token : Text) : Text :=
  match rest with
  | sign :: value :: _ =>
    if sign = ['='] ∧ (value.head? = some ',' ∨ endsWithComma value) ∧ ¬ endsWithComma token then
      token ++ [',']
    else token
  | _ => token

/--
The tokens without each equals sign and the value behind it.  `isValue` tells whether the first
token is such a value.
-/
def withoutValues (isValue : Bool) : List Text → List Text
  | [] => []
  | token :: rest =>
    if token = ['='] then withoutValues true rest
    else if isValue then withoutValues false rest
    else withCommaOf rest token :: withoutValues false rest

/-- A declarator without a value in braces; a comma at its end stays. -/
def withoutBraces (token : Text) : Text :=
  if token.contains '{' then
    token.takeWhile (· ≠ '{') ++ if endsWithComma token then [','] else []
  else token

/-! ## Type and declarators -/

/-- Whether the only comma of a token is its last character. -/
def isListed (token : Text) : Bool :=
  endsWithComma token && token.count ',' = 1

/--
The declarators of the tokens behind the type.  `isDeclarator` tells whether the first token follows
a listed one.
-/
def declaratorsFrom (isDeclarator : Bool) : List Text → List Text
  | [] => []
  | token :: rest =>
    if isListed token then token.dropLast :: declaratorsFrom true rest
    else if isDeclarator then token :: declaratorsFrom false rest
    else declaratorsFrom false rest

/-- The tokens of the type and the declarators, if there is any token. -/
def typeAndDeclarators (tokens : List Text) : List Text × List Text :=
  if tokens.any isListed then
    let isType := fun token => !isListed token
    (tokens.takeWhile isType, declaratorsFrom false (tokens.dropWhile isType))
  else (tokens.dropLast, tokens.getLast?.toList)

/-- The words that make up the built-in arithmetic types, and their qualifiers. -/
def builtinWords : List Text :=
  ["unsigned".toList, "bool".toList, "char".toList, "short".toList, "int".toList, "long".toList,
    "float".toList, "double".toList, "".toList, "const".toList, "volatile".toList,
    "mutable".toList, "static".toList, "uint8_t".toList, "uint16_t".toList, "uint32_t".toList,
    "uint64_t".toList, "int8_t".toList, "int16_t".toList, "int32_t".toList, "int64_t".toList]

/-- Whether a type is made of words of the built-in arithmetic types, with or without stars. -/
def isBuiltinType (type : Text) : Bool :=
  (Text.splitWhere (fun character => character = ' ' || character = '*') type).all
    builtinWords.contains

/-- The member that a declarator declares with a given type. -/
def memberOf (type declarator : Text) : DataMember :=
  match declarator with
  | '*' :: name => { name, declaredType := type ++ ['*'], byValue := true }
  | '&' :: '&' :: name => { name, declaredType := type ++ ['&', '&'], byValue := true }
  | '&' :: name => { name, declaredType := type ++ ['&'], byValue := true }
  | name =>
    if name.contains '[' then
      { name := name.takeWhile (· ≠ '[')
        declaredType := type ++ ['*']
        byValue := isBuiltinType type
        isArray := true }
    else { name, declaredType := type, byValue := isBuiltinType type }

/-- The word that declares a member of the class and not of its objects. -/
def staticWord : Text :=
  "static".toList

/-! ## Members -/

/--
The members that a line declares.  A line that does not end with a semicolon declares none.  It
fails if no type, or one with brackets that do not match, stands in front of the declarators.
-/
def members (line : Text) : Except Failure (List DataMember) :=
  let line := line.trim
  match line.dropEnding? [';'] with
  | none => .ok []
  | some body =>
    match (withoutValues false (tokens body)).map withoutBraces with
    | [] => .ok []
    | tokens =>
      let (typeTokens, declarators) := typeAndDeclarators tokens
      let type := Text.unwords (typeTokens.filter (· ≠ staticWord))
      if type = [] ∨ ¬ Text.Balanced type then .error (.unresolvedDeclaration line)
      else
        .ok <| (declarators.filter (· ≠ [])).map fun declarator =>
          { memberOf type declarator with isStatic := typeTokens.contains staticWord }

end ClassOutline.Declaration
