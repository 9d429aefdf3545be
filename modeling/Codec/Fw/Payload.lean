import Codec.Ems.Buffer

set_option autoImplicit false

namespace Codec.Fw

open Codec.Ems

variable (char : UInt8) (mem : List UInt8) (start : Nat)

-- s_addr in the order it is written down: 10.0.0.1 is 0x0a000001.
abbrev Addr := UInt32

def headerSize : Nat := 12
def itemSize : Nat := 10

def dnsGetShort : Option Nat := do
  let high ← mem[start]?
  let low ← mem[start + 1]?
  return high.toNat * 256 + low.toNat

-- dns_get_name with the text it writes and where the payload goes on. A
-- compression pointer ends the name, and only ten bits of it are read. Fuel
-- that runs out stands for a chain of pointers that never ends.
def nameFrom (mem : List UInt8) : Nat → Nat → Option (Str × Nat)
  | 0, _ => none
  | fuel + 1, start => do
      let len ← mem[start]?
      if len = 0 then return ([], start + 1)
      else if len &&& 0xc0 ≠ 0 then
        let low ← mem[start + 1]?
        let pointed ← nameFrom mem fuel ((len &&& 3).toNat * 256 + low.toNat)
        return (pointed.1, start + 2)
      else
        let behind := start + 1 + len.toNat
        let next ← mem[behind]?
        let rest ← nameFrom mem fuel behind
        let label := (mem.drop (start + 1)).take len.toNat
        return (if next = 0 then label else label ++ 46 :: rest.1, rest.2)

def nameRoom : Nat := 512

-- The caller's array has room for 511 characters and the NUL, and the text in
-- it ends at the first NUL.
@[irreducible] def dnsGetName : Option (Str × Nat) :=
  match nameFrom mem (nameRoom * 1024) start with
  | none => none
  | some (text, behind) => if text.length < nameRoom then some (text.takeWhile (· ≠ 0), behind) else none

-- fw_dns_get_question; nothing uses the type and the class.
def fwDnsGetQuestion : Option (Str × Nat) := do
  let (qname, behind) ← dnsGetName mem headerSize
  let _ ← dnsGetShort mem behind
  let _ ← dnsGetShort mem (behind + 2)
  return (qname, behind + 4)

def dnsGetAddr : Option Addr := do
  let high ← dnsGetShort mem start
  let low ← dnsGetShort mem (start + 2)
  return UInt32.ofNat (high * 65536 + low)

-- dns_get_all_address: the A records of class IN among the next `total`.
def dnsGetAllAddress (mem : List UInt8) : Nat → Nat → Option (List Addr)
  | 0, _ => some []
  | total + 1, start => do
      let (_, item) ← dnsGetName mem start
      let ty ← dnsGetShort mem item
      let cls ← dnsGetShort mem (item + 2)
      let len ← dnsGetShort mem (item + 8)
      if ty = 1 ∧ cls = 1 then
        let addr ← dnsGetAddr mem (item + itemSize)
        let rest ← dnsGetAllAddress mem total (item + itemSize + len)
        return addr :: rest
      else dnsGetAllAddress mem total (item + itemSize + len)

-- The fields of dns_header, always inside of the buffer.
def headerField : Nat := (dnsGetShort mem start).getD 0

def dnsId : UInt16 := UInt16.ofNat (headerField mem 0)
def dnsRcode : Nat := headerField mem 2 % 16
def qdcount : Nat := headerField mem 4
def ancount : Nat := headerField mem 6
def nscount : Nat := headerField mem 8
def arcount : Nat := headerField mem 10

def storeShort (val : UInt16) : List UInt8 := [(val >>> 8).toUInt8, val.toUInt8]

-- dns_set_question; a dot at the end of the name adds no label.
def dnsSetQuestion (url : Str) : List UInt8 :=
  let labels := url.splitOn 46
  let labels := if labels.getLast? = some [] then labels.dropLast else labels
  labels.flatMap (fun label => UInt8.ofNat label.length :: label) ++ [0]

-- What fw_dns_create_user sends, before the buffer of 1 KB cuts it.
def selfQuery (url : Str) (id : UInt16) : List UInt8 :=
  storeShort id ++ storeShort 0x0100 ++ storeShort 1 ++ storeShort 0 ++ storeShort 0 ++ storeShort 0 ++
    dnsSetQuestion url ++ storeShort 1 ++ storeShort 1

def isSpace : Bool := char = 32 || (9 ≤ char && char ≤ 13)

def digitsFrom (base : Nat) (value : UInt8 → Option Nat) : Str → Nat → Nat × Str
  | [], sum => (sum, [])
  | char :: rest, sum => match value char with
      | some digit => digitsFrom base value rest (sum * base + digit)
      | none => (sum, char :: rest)

def decimalDigit : Option Nat := if 48 ≤ char ∧ char ≤ 57 then some (char.toNat - 48) else none

def octalDigit : Option Nat := if 48 ≤ char ∧ char ≤ 55 then some (char.toNat - 48) else none

def hexadecimalDigit : Option Nat :=
  if 48 ≤ char ∧ char ≤ 57 then some (char.toNat - 48)
  else if 97 ≤ char ∧ char ≤ 102 then some (char.toNat - 87)
  else if 65 ≤ char ∧ char ≤ 70 then some (char.toNat - 55)
  else none

-- ems_atoi: strtol in base 10, which saturates at the ends of a long of 64
-- bits, cut down to an int.
def emsAtoi (text : Str) : Int :=
  let clamp (value : Int) : Int := Int.bmod (max (-2 ^ 63) (min value (2 ^ 63 - 1))) (2 ^ 32)
  match text.dropWhile isSpace with
  | [] => 0
  | sign :: rest =>
    if sign = 45 then clamp (-(digitsFrom 10 decimalDigit rest 0).1)
    else if sign = 43 then clamp (digitsFrom 10 decimalDigit rest 0).1
    else clamp (digitsFrom 10 decimalDigit (sign :: rest) 0).1

-- One number of inet_addr: hexadecimal after 0x, octal after 0, else decimal.
def inetPart : Str → Option (Nat × Str)
  | 48 :: mark :: rest =>
    if mark = 120 ∨ mark = 88 then
      if (rest.head?.bind hexadecimalDigit).isSome then some (digitsFrom 16 hexadecimalDigit rest 0) else none
    else some (digitsFrom 8 octalDigit (mark :: rest) 0)
  | char :: rest =>
    if (decimalDigit char).isSome then some (digitsFrom 10 decimalDigit (char :: rest) 0) else none
  | [] => none

def inetParts : Nat → Nat → Str → Option Nat
  | 0, _, _ => none
  | left + 1, prior, text => do
      let (number, rest) ← inetPart text
      match rest with
      | 46 :: more => if number < 256 then inetParts left (prior * 256 + number) more else none
      | [] => if number < 256 ^ (left + 1) then some (prior * 256 ^ (left + 1) + number) else none
      | char :: _ => if isSpace char ∧ number < 256 ^ (left + 1) then some (prior * 256 ^ (left + 1) + number) else none

-- inet_addr; none is INADDR_NONE, which 255.255.255.255 is too.
def inetAddr (text : Str) : Option Addr :=
  (inetParts 4 0 text).bind fun value => if value = 0xffffffff then none else some (UInt32.ofNat value)

def strstr (text part : Str) : Bool := text.tails.any part.isPrefixOf

end Codec.Fw
