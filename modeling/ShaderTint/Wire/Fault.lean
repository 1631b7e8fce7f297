import ShaderTint.Decimal.Layout
import ShaderTint.Json.Lexeme
import ShaderTint.Span
import ShaderTint.Text.Quoted

namespace ShaderTint.Wire

/-!
# Why something does not decode

A `DataFault` is JSON that stands for no tree or highlight. Decoding a text can
also fail because the text is not JSON, or ends too early.
-/

/-- What was found where something else was wanted. -/
inductive Found where
  | null
  | bool (value : Bool)
  | integer (value : Int)
  | real (value : Decimal)
  | string (value : String)
  | sequence
  | map
  deriving DecidableEq

/-- What was wanted. -/
inductive Wanted where
  | node
  | nodeElements
  | highlight
  | highlightElements
  | children
  | pair
  | offset
  | unit
  | nameOrMap
  | oneKeyMap
  | fewerElements
  deriving DecidableEq

/-- A known field of a node or a highlight. -/
inductive Field where
  | kind
  | range
  | children
  | tag
  deriving DecidableEq

/-- JSON that does not decode. -/
inductive DataFault where
  | invalidType (found : Found) (wanted : Wanted)
  | invalidValue (found : Found) (wanted : Wanted)
  | invalidLength (length : Nat) (wanted : Wanted)
  | unknownVariant (name : String) (known : List String)
  | missingField (field : Field)
  | duplicateField (field : Field)
  | invertedRange (start stop : Nat)
  deriving DecidableEq

/-- A text that does not decode. -/
inductive TextFault where
  | data (fault : DataFault)
  | flawed (flaw : Json.Flaw)
  deriving DecidableEq

/--
Real numbers in messages: in full from `0.00001` to sixteen digits before the
point, otherwise with a signed exponent.
-/
def realLayout : Decimal.Layout where
  leadingZeros := 4
  wholeDigits := 16

/-- What was found, in words. -/
def Found.text : Found → String
  | .null => "null"
  | .bool true => "boolean `true`"
  | .bool false => "boolean `false`"
  | .integer value => "integer `" ++ toString value ++ "`"
  | .real value => "floating point `" ++ realLayout.text value ++ "`"
  | .string value => "string " ++ Text.quoted value
  | .sequence => "sequence"
  | .map => "map"

/-- What was wanted, in words. -/
def Wanted.text : Wanted → String
  | .node => "struct SyntaxNode"
  | .nodeElements => "struct SyntaxNode with 3 elements"
  | .highlight => "struct Highlight"
  | .highlightElements => "struct Highlight with 2 elements"
  | .children => "a sequence"
  | .pair => "a tuple of size 2"
  | .offset => "u32"
  | .unit => "unit"
  | .nameOrMap => "string or map"
  | .oneKeyMap => "map with a single key"
  | .fewerElements => "fewer elements in array"

/-- The name of a field. -/
def Field.name : Field → String
  | .kind => "kind"
  | .range => "range"
  | .children => "children"
  | .tag => "tag"

/-- A name between back quotes. -/
def backQuoted
    (name : String) :
    String :=
  "`" ++ name ++ "`"

/-- The fault in words. -/
def DataFault.message : DataFault → String
  | .invalidType found wanted =>
      "invalid type: " ++ found.text ++ ", expected " ++ wanted.text
  | .invalidValue found wanted =>
      "invalid value: " ++ found.text ++ ", expected " ++ wanted.text
  | .invalidLength length wanted =>
      "invalid length " ++ toString length ++ ", expected " ++ wanted.text
  | .unknownVariant name known =>
      "unknown variant " ++ backQuoted name ++ ", expected one of " ++
        String.intercalate ", " (known.map backQuoted)
  | .missingField field => "missing field " ++ backQuoted field.name
  | .duplicateField field => "duplicate field " ++ backQuoted field.name
  | .invertedRange start stop =>
      "invalid range: " ++ rangeText start stop

end ShaderTint.Wire
