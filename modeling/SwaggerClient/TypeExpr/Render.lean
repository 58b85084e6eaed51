import SwaggerClient.Name.Identifier
import SwaggerClient.Text.Comment
import SwaggerClient.TypeExpr.Basic

/-!
# The text of a type

Types are written without blanks, and an object type puts every member on a line
of its own.  Where a type stands decides whether it needs parentheses.
-/

namespace SwaggerClient

/-- The name of a primitive type. -/
def Primitive.name : Primitive → String
  | .string => "string"
  | .number => "number"
  | .boolean => "boolean"
  | .unknown => "unknown"

/-- The spelling of a literal. -/
def Literal.spelling : Literal → String
  | .number digits => digits
  | .text value => Text.quote value

/-- Where a type is written. -/
inductive Position where
  /-- By itself or behind the equals sign of an alias. -/
  | top
  /-- Behind the name of a member. -/
  | member
  /-- As the item of an array or an operand of a union or intersection. -/
  | operand
  deriving DecidableEq, Repr

/-- Text in parentheses where a condition asks for them. -/
def parenthesized (needed : Bool) (cs : List Char) : List Char :=
  if needed then '(' :: cs ++ [')'] else cs

/-- A key in front of a type, below a comment line for its documentation. -/
def keyHead (doc : Option String) (key : String) : List Char :=
  (match doc with
   | none => []
   | some doc => "/** ".toList ++ Text.escapeCommentChars doc.toList ++ " */\n".toList)
    ++ key.toList ++ [':']

/-- The key of a member, with a mark if it is optional. -/
def memberKey (name : String) (optional : Bool) : String :=
  if optional then propertyKey name ++ "?" else propertyKey name

namespace TypeExpr

mutual

/-- The text of a type at a position. -/
def chars (position : Position) : TypeExpr String → List Char
  | .primitive kind => kind.name.toList
  | .reference name => name.toList
  | .array item => item.chars .operand ++ "[]".toList
  | .map value => "\x7b[key:string]:".toList ++ value.chars .member ++ "\x7d".toList
  | .object members index =>
    if members.isEmpty && index.isNone then Primitive.unknown.name.toList
    else
      "\x7b".toList ++ memberLines members
        ++ (match index with
            | none => []
            | some value => "\n[key:string]:".toList ++ value.chars .member)
        ++ "\n\x7d".toList
  | .union items =>
    parenthesized (position != .top) (Text.joinWith ['|'] (operandChars items))
  | .intersection items =>
    parenthesized true (Text.joinWith ['&'] (operandChars items))
  | .literals values =>
    parenthesized (position == .operand && decide (1 < values.length))
      (Text.joinWith ['|'] (values.map fun value => value.spelling.toList))

/-- The texts of the operands of a union or intersection. -/
def operandChars : List (TypeExpr String) → List (List Char)
  | [] => []
  | item :: items => item.chars .operand :: operandChars items

/-- The members of an object type, each on a line of its own. -/
def memberLines : List (Member (TypeExpr String)) → List Char
  | [] => []
  | ⟨name, optional, doc, type⟩ :: members =>
    '\n' :: keyHead doc (memberKey name optional) ++ type.chars .member ++ memberLines members

end

/-- The text of a type at a position. -/
def renderAt (position : Position) (type : TypeExpr String) : String :=
  String.ofList (type.chars position)

/-- The text of a type that stands by itself. -/
def render (type : TypeExpr String) : String :=
  type.renderAt .top

end TypeExpr

/-- The text of a member. -/
def Member.render (m : Member (TypeExpr String)) : String :=
  String.ofList (keyHead m.doc (memberKey m.name m.optional) ++ m.type.chars .member)

end SwaggerClient
