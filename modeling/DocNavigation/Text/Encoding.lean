import DocNavigation.Number.Power
import DocNavigation.Text.Blank
import DocNavigation.Text.Case
import DocNavigation.Text.Letter
import DocNavigation.Text.Lines
import DocNavigation.Text.Quoted

/-!
Text encodings by name. Names are compared without regard to capitals and to the signs between
their parts; most encodings go by several names.
-/

namespace DocNavigation.Text

inductive ByteOrder where
  | little
  | big
deriving DecidableEq, Repr

/-- Text as bytes: in units of a size, after a byte order mark or not, or one byte for a character
of a small repertoire. -/
inductive Encoding where
  | utf8 (marked : Bool)
  | utf16 (order : ByteOrder) (marked : Bool)
  | utf32 (order : ByteOrder) (marked : Bool)
  | ascii
  | latin1
  | western
deriving DecidableEq, Repr

inductive EncodingError where
  | unknown (name : String)
  | notText (name : String)
  | nullInName
  | unencodable (e : Encoding) (char : Char) (first count : Nat)
deriving DecidableEq, Repr

namespace Encoding

/-- Letters, digits and dots count in a name; whatever stands between them is one sign. -/
def plainName : (gap : Bool) → List Char → List Char
  | _, [] => []
  | gap, c :: cs =>
    if isAlphanumeric c ∨ c = '.' then
      (if gap then ['_'] else []) ++ (if c.toNat < 128 then [c] else []) ++ plainName false cs
    else plainName true cs

def normalName (name : String) : String :=
  String.ofList (plainName false
    ((lowerAscii name).toList.dropWhile fun c => !(isAlphanumeric c || c = '.')))

def names : List (String × Encoding) :=
  let of := fun (e : Encoding) (words : String) => (split ' ' words).map fun w => (w, e)
  of (.utf8 false) "utf_8 u8 utf utf8 utf8_ucs2 utf8_ucs4 cp65001" ++ of (.utf8 true) "utf_8_sig"
    ++ of .ascii "ascii 646 us us_ascii cp367 csascii ibm367 iso646_us iso_ir_6"
    ++ of .ascii "ansi_x3.4_1968 ansi_x3_4_1968 ansi_x3.4_1986 iso_646.irv_1991"
    ++ of .latin1 "latin_1 latin latin1 l1 8859 iso8859 iso8859_1 iso_8859_1 iso_8859_1_1987"
    ++ of .latin1 "iso_ir_100 cp819 csisolatin1 ibm819"
    ++ of .western "cp1252 1252 windows_1252"
    ++ of (.utf16 .little true) "utf_16 u16 utf16"
    ++ of (.utf16 .little false) "utf_16_le utf_16le unicodelittleunmarked"
    ++ of (.utf16 .big false) "utf_16_be utf_16be unicodebigunmarked"
    ++ of (.utf32 .little true) "utf_32 u32 utf32"
    ++ of (.utf32 .little false) "utf_32_le utf_32le" ++ of (.utf32 .big false) "utf_32_be utf_32be"

/-- Names of encodings of other things than text. -/
def otherNames : List String :=
  split ' ' "rot13 rot_13 hex hex_codec base64 base_64 base64_codec bz2 bz2_codec zip zlib"
    ++ split ' ' "zlib_codec uu uu_codec quopri quopri_codec quoted_printable quotedprintable"

def ofName (name : String) : Except EncodingError Encoding :=
  let plain := normalName name
  if name.toList.contains '\x00' then .error .nullInName
  else match names.find? (·.1 = plain) with
    | some (_, e) => .ok e
    | none => .error (if otherNames.contains plain then .notText name else .unknown name)

def unitBytes (order : ByteOrder) (size n : Nat) : List UInt8 :=
  let low := (List.range size).map fun i => UInt8.ofNat (n / Number.twoTo (8 * i))
  match order with
  | .little => low
  | .big => low.reverse

/-- The two units of a character above U+FFFF, or the one of another. -/
def units16 (n : Nat) : List Nat :=
  if n < 0x10000 then [n]
  else [0xd800 + (n - 0x10000) / 0x400, 0xdc00 + (n - 0x10000) % 0x400]

/-- The characters of the Western repertoire whose bytes are from 0x80 on, in the order of their
bytes; a zero marks a byte without one. -/
def westernExtras : List Nat :=
  [0x20ac, 0, 0x201a, 0x0192, 0x201e, 0x2026, 0x2020, 0x2021, 0x02c6, 0x2030, 0x0160, 0x2039,
   0x0152, 0, 0x017d, 0, 0, 0x2018, 0x2019, 0x201c, 0x201d, 0x2022, 0x2013, 0x2014, 0x02dc, 0x2122,
   0x0161, 0x203a, 0x0153, 0, 0x017e, 0x0178]

def mark : Nat := 0xfeff

/-- The bytes of a character, if the encoding has it. -/
def charBytes? (e : Encoding) (c : Char) : Option (List UInt8) :=
  let n := c.toNat
  match e with
  | .utf8 _ => some (String.singleton c).toUTF8.toList
  | .utf16 order _ => some ((units16 n).flatMap (unitBytes order 2))
  | .utf32 order _ => some (unitBytes order 4 n)
  | .ascii => if n < 0x80 then some [UInt8.ofNat n] else none
  | .latin1 => if n < 0x100 then some [UInt8.ofNat n] else none
  | .western =>
    if n < 0x80 ∨ (0xa0 ≤ n ∧ n < 0x100) then some [UInt8.ofNat n]
    else if n = 0 then none
    else (westernExtras.findIdx? (· = n)).map fun i => [UInt8.ofNat (0x80 + i)]

def markBytes : Encoding → List UInt8
  | .utf8 true => [0xef, 0xbb, 0xbf]
  | .utf16 order true => unitBytes order 2 mark
  | .utf32 order true => unitBytes order 4 mark
  | _ => []

/-- Encodes characters up to the first run of those that the encoding lacks. -/
def encodeList (e : Encoding) :
    List Char → (position : Nat) → List UInt8 → Except EncodingError (List UInt8)
  | [], _, acc => .ok acc.reverse
  | c :: cs, position, acc =>
    match e.charBytes? c with
    | some bytes => encodeList e cs (position + 1) (bytes.reverse ++ acc)
    | none =>
      let more := cs.takeWhile fun d => (e.charBytes? d).isNone
      .error (.unencodable e c position (more.length + 1))

def encode (e : Encoding) (text : String) : Except EncodingError ByteArray :=
  match e with
  | .utf8 false => .ok text.toUTF8
  | e => (e.encodeList text.toList 0 []).map fun bytes => ⟨(e.markBytes ++ bytes).toArray⟩

/-- The name in messages about characters that are missing. -/
def codec : Encoding → String
  | .ascii => "ascii"
  | .latin1 => "latin-1"
  | .western => "charmap"
  | .utf8 _ => "utf-8"
  | .utf16 .. => "utf-16"
  | .utf32 .. => "utf-32"

def lack : Encoding → String
  | .ascii => "ordinal not in range(128)"
  | .latin1 => "ordinal not in range(256)"
  | _ => "character maps to <undefined>"

end Encoding

def EncodingError.message : EncodingError → String
  | .unknown name => s!"unknown encoding: {name}"
  | .notText name =>
    s!"'{name}' is not a text encoding; use codecs.open() to handle arbitrary codecs"
  | .nullInName => "embedded null character"
  | .unencodable e c first count =>
    if count = 1 then
      s!"'{e.codec}' codec can't encode character '"
        ++ String.ofList (escapedCode c) ++ s!"' in position {first}: {e.lack}"
    else
      s!"'{e.codec}' codec can't encode characters in position {first}-{first + count - 1}: "
        ++ e.lack

end DocNavigation.Text
