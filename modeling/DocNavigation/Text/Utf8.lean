import DocNavigation.Text.Hex

/-!
Bytes, the contents of files and of replies, and the text in them. UTF-8: strict decoding with the
position and reason of the first fault, decoding in chunks as a reader meets the bytes, and lenient
decoding with replacement characters.
-/

namespace DocNavigation

instance decidableEqBytes : DecidableEq ByteArray :=
  ByteArray.instDecidableEq

end DocNavigation

namespace DocNavigation.Text.Utf8

inductive Reason where
  | invalidStart
  | invalidContinuation
  | unexpectedEnd
deriving DecidableEq, Repr

/-- The bytes from `first` up to `first + count`, the earliest of them being `byte`. -/
structure Fault where
  byte : UInt8
  first : Nat
  count : Nat
  reason : Reason
deriving DecidableEq, Repr

inductive Step where
  | char (c : Char) (size : Nat)
  | bad (count : Nat) (reason : Reason)
deriving DecidableEq, Repr

def isContinuation (b : UInt8) : Bool :=
  0x80 ≤ b && b ≤ 0xbf

/-- The bytes that may follow a lead byte: overlong forms, surrogates and code points above
U+10FFFF are ruled out here. -/
def secondInRange (lead b : UInt8) : Bool :=
  if lead = 0xe0 then 0xa0 ≤ b && b ≤ 0xbf
  else if lead = 0xed then 0x80 ≤ b && b ≤ 0x9f
  else if lead = 0xf0 then 0x90 ≤ b && b ≤ 0xbf
  else if lead = 0xf4 then 0x80 ≤ b && b ≤ 0x8f
  else isContinuation b

def low6 (b : UInt8) : Nat :=
  b.toNat % 64

/-- What stands at the front of a nonempty sequence of bytes. -/
def step (lead : UInt8) (rest : List UInt8) : Step :=
  if lead < 0x80 then .char (Char.ofNat lead.toNat) 1
  else if lead < 0xc2 || 0xf4 < lead then .bad 1 .invalidStart
  else match rest with
    | [] => .bad 1 .unexpectedEnd
    | b :: rest =>
      if !secondInRange lead b then .bad 1 .invalidContinuation
      else if lead < 0xe0 then .char (Char.ofNat (lead.toNat % 32 * 64 + low6 b)) 2
      else match rest with
        | [] => .bad 2 .unexpectedEnd
        | c :: rest =>
          if !isContinuation c then .bad 2 .invalidContinuation
          else if lead < 0xf0 then
            .char (Char.ofNat (lead.toNat % 16 * 4096 + low6 b * 64 + low6 c)) 3
          else match rest with
            | [] => .bad 3 .unexpectedEnd
            | d :: _ =>
              if !isContinuation d then .bad 3 .invalidContinuation
              else .char
                (Char.ofNat (lead.toNat % 8 * 262144 + low6 b * 4096 + low6 c * 64 + low6 d)) 4

/-- The characters before the first fault, last one first, and that fault. The number says how many
bytes of the list belong to the character just read. -/
def scan : List UInt8 → (skip position : Nat) → List Char → List Char × Option Fault
  | [], _, _, acc => (acc, none)
  | _ :: rest, skip + 1, position, acc => scan rest skip (position + 1) acc
  | b :: rest, 0, position, acc =>
    match step b rest with
    | .char c size => scan rest (size - 1) (position + 1) (c :: acc)
    | .bad count reason => (acc, some ⟨b, position, count, reason⟩)

def decodeList (bytes : List UInt8) : Except Fault (List Char) :=
  match scan bytes 0 0 [] with
  | (acc, none) => .ok acc.reverse
  | (_, some fault) => .error fault

/-- Valid text is read at once; otherwise the first fault is looked for. -/
def decode (bytes : ByteArray) : Except Fault String :=
  match String.fromUTF8? bytes with
  | some s => .ok s
  | none => (decodeList bytes.toList).map String.ofList

def encode (s : String) : ByteArray :=
  s.toUTF8

/-- Every maximal ill-formed run becomes one replacement character. -/
def lenientScan : List UInt8 → (skip : Nat) → List Char → List Char
  | [], _, acc => acc
  | _ :: rest, skip + 1, acc => lenientScan rest skip acc
  | b :: rest, 0, acc =>
    match step b rest with
    | .char c size => lenientScan rest (size - 1) (c :: acc)
    | .bad count _ => lenientScan rest (count - 1) ('\ufffd' :: acc)

def decodeLenient (bytes : ByteArray) : List Char :=
  (lenientScan bytes.toList 0 []).reverse

/-- What a reader that takes `size` bytes at a time has delivered, and the fault that stopped it. A
chunk with a fault delivers nothing; an unfinished character is carried to the next chunk, and one
left over at the end is a fault counted from its own first byte. -/
def decodeChunks (size : Nat) (carry : List UInt8) :
    (chunks : List (List UInt8)) → List Char → List Char × Option Fault
  | [], acc =>
    match carry with
    | [] => (acc.reverse, none)
    | b :: _ => (acc.reverse, some ⟨b, 0, carry.length, .unexpectedEnd⟩)
  | chunk :: chunks, acc =>
    let bytes := carry ++ chunk
    match scan bytes 0 0 [] with
    | (cs, none) => decodeChunks size [] chunks (cs ++ acc)
    | (cs, some fault) =>
      if fault.reason = .unexpectedEnd then
        decodeChunks size (bytes.drop fault.first) chunks (cs ++ acc)
      else (acc.reverse, some fault)

def chunksOf (size : Nat) : (fuel : Nat) → List UInt8 → List (List UInt8)
  | 0, _ => []
  | _ + 1, [] => []
  | fuel + 1, bytes => bytes.take size :: chunksOf size fuel (bytes.drop size)

def chunkSize : Nat := 8192

def decodeStream (bytes : ByteArray) : List Char × Option Fault :=
  decodeChunks chunkSize [] (chunksOf chunkSize bytes.size bytes.toList) []

def Reason.message : Reason → String
  | .invalidStart => "invalid start byte"
  | .invalidContinuation => "invalid continuation byte"
  | .unexpectedEnd => "unexpected end of data"

def hexByte (b : UInt8) : String :=
  String.ofList (hexDigits 2 b.toNat)

def Fault.message (f : Fault) : String :=
  if f.count = 1 then
    s!"'utf-8' codec can't decode byte 0x{hexByte f.byte} in position {f.first}: "
      ++ f.reason.message
  else
    s!"'utf-8' codec can't decode bytes in position {f.first}-{f.first + f.count - 1}: "
      ++ f.reason.message

end DocNavigation.Text.Utf8
