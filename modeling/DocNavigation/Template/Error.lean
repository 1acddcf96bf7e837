import DocNavigation.Json.Shown
import DocNavigation.Number.Integer

/-!
What can be wrong with a template or with its use. Some faults are taken for a template that is
better shown as it is; the others are the caller's.
-/

namespace DocNavigation

inductive TemplateError where
  | loneBrace (c : Char)
  | braceInName
  | noConversion
  | afterConversion
  | openSpec
  | openField
  | unknownConversion (c : Char)
  | tooManyDigits
  | tooLong
  | emptyPart
  | afterBracket
  | tooDeep
  | badSpec (spec kind : String)
  | unknownCode (c : Char) (kind : String)
  | noPrecision
  | bothSeparators
  | separatorWith (separator code : Char)
  | precisionOfInteger
  | negativeZero (kind : String)
  | signOfChar
  | alternateChar
  | spaceInText
  | signOfText
  | alternateText
  | equalsInText
  | noArgument (name : String)
  | noPosition (index : Nat)
  | indexOutOfRange (kind : String)
  | noKey (key : Json)
  | noAttribute (kind name : String)
  | noItems (kind : String)
  | textIndex (kind : String)
  | noSpec (kind : String)
  | charTooLarge
  | charOutOfRange
  | floatTooLarge
deriving DecidableEq, Repr

namespace TemplateError

/-- The kinds of the faults that are the caller's. -/
inductive Blame where
  | member
  | type
  | overflow
deriving DecidableEq, Repr

def blame? : TemplateError → Option Blame
  | .noAttribute .. => some .member
  | .noItems _ | .textIndex _ | .noSpec _ => some .type
  | .charTooLarge | .charOutOfRange | .floatTooLarge => some .overflow
  | _ => none

def codeText (c : Char) : String :=
  if 32 < c.toNat ∧ c.toNat < 127 then String.singleton c
  else "\\x" ++ String.ofList (Nat.toDigits 16 c.toNat)

def message : TemplateError → String
  | .loneBrace c => s!"Single '{c}' encountered in format string"
  | .braceInName => "unexpected '\x7b' in field name"
  | .noConversion => "end of string while looking for conversion specifier"
  | .afterConversion => "expected ':' after conversion specifier"
  | .openSpec => "unmatched '\x7b' in format spec"
  | .openField => "expected '\x7d' before end of string"
  | .unknownConversion c => s!"Unknown conversion specifier {codeText c}"
  | .tooManyDigits => "Too many decimal digits in format string"
  | .tooLong =>
    s!"Exceeds the limit ({Number.maxDigits} digits) for integer string conversion; "
      ++ "use sys.set_int_max_str_digits() to increase the limit"
  | .emptyPart => "Empty attribute in format string"
  | .afterBracket => "Only '.' or '[' may follow ']' in format field specifier"
  | .tooDeep => "Max string recursion exceeded"
  | .badSpec spec kind => s!"Invalid format specifier '{spec}' for object of type '{kind}'"
  | .unknownCode c kind => s!"Unknown format code '{codeText c}' for object of type '{kind}'"
  | .noPrecision => "Format specifier missing precision"
  | .bothSeparators => "Cannot specify both ',' and '_'."
  | .separatorWith separator code =>
    s!"Cannot specify '{separator}' with '{codeText code}'."
  | .precisionOfInteger => "Precision not allowed in integer format specifier"
  | .negativeZero kind => s!"Negative zero coercion (z) not allowed in {kind} format specifier"
  | .signOfChar => "Sign not allowed with integer format specifier 'c'"
  | .alternateChar => "Alternate form (#) not allowed with integer format specifier 'c'"
  | .spaceInText => "Space not allowed in string format specifier"
  | .signOfText => "Sign not allowed in string format specifier"
  | .alternateText => "Alternate form (#) not allowed in string format specifier"
  | .equalsInText => "'=' alignment not allowed in string format specifier"
  | .noArgument argument => Text.quoted argument
  | .noPosition index => s!"Replacement index {index} out of range for positional args tuple"
  | .indexOutOfRange kind => s!"{kind} index out of range"
  | .noKey key => key.shown
  | .noAttribute kind member => s!"'{kind}' object has no attribute '{member}'"
  | .noItems kind => s!"'{kind}' object is not subscriptable"
  | .textIndex "str" => "string indices must be integers, not 'str'"
  | .textIndex kind => s!"{kind} indices must be integers or slices, not str"
  | .noSpec kind => s!"unsupported format string passed to {kind}.__format__"
  | .charTooLarge => "Python int too large to convert to C long"
  | .charOutOfRange => "%c arg not in range(0x110000)"
  | .floatTooLarge => "int too large to convert to float"

end TemplateError

end DocNavigation
