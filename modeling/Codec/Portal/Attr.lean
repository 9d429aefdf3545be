import Codec.Ems.Buffer

set_option autoImplicit false

namespace Codec.Portal

open Codec.Ems

variable (bytes : List UInt8)

-- Loads and stores of a little-endian host, and what ntohs and ntohl, which
-- are their own inverses, do there.
def load16 (off : Nat) : UInt16 := (bytes.getD off 0).toUInt16 + (bytes.getD (off + 1) 0).toUInt16 * 256

def load32 : UInt32 :=
  (bytes.getD 0 0).toUInt32 + (bytes.getD 1 0).toUInt32 * 256 + (bytes.getD 2 0).toUInt32 * 65536 +
    (bytes.getD 3 0).toUInt32 * 16777216

def store16 (word : UInt16) : List UInt8 := [word.toUInt8, (word / 256).toUInt8]

def store32 (word : UInt32) : List UInt8 :=
  [word.toUInt8, (word / 256).toUInt8, (word / 65536).toUInt8, (word / 16777216).toUInt8]

def htons (word : UInt16) : UInt16 := word / 256 + word * 256

def htonl (word : UInt32) : UInt32 := word / 16777216 + word / 65536 % 256 * 256 + word / 256 % 256 * 65536 + word * 16777216

def cString : Str := bytes.takeWhile (· ≠ 0)

def readBytes (mem : List UInt8) (count : Nat) : List UInt8 := mem.take count ++ List.replicate (count - mem.length) 0

-- portal_auth_hdr. `ip` is four bytes in the order of the wire.
structure AuthHdr where
  ver : UInt8
  ty : UInt8
  authTy : UInt8
  rsrv : UInt8
  serial : UInt16
  reqid : UInt16
  ip : List UInt8
  port : UInt16
  err : UInt8
  nAttr : UInt8
  deriving DecidableEq, Repr

def hdrLen : Nat := 16

def AuthHdr.load : AuthHdr where
  ver := bytes.getD 0 0
  ty := bytes.getD 1 0
  authTy := bytes.getD 2 0
  rsrv := bytes.getD 3 0
  serial := load16 bytes 4
  reqid := load16 bytes 6
  ip := readBytes (bytes.drop 8) 4
  port := load16 bytes 12
  err := bytes.getD 14 0
  nAttr := bytes.getD 15 0

def AuthHdr.val (hdr : AuthHdr) : List UInt8 :=
  [hdr.ver, hdr.ty, hdr.authTy, hdr.rsrv] ++ store16 hdr.serial ++ store16 hdr.reqid ++ hdr.ip ++
    store16 hdr.port ++ [hdr.err, hdr.nAttr]

def AuthHdr.received : AuthHdr :=
  { AuthHdr.load bytes with
    serial := htons (AuthHdr.load bytes).serial
    reqid := htons (AuthHdr.load bytes).reqid }

inductive Attr where
  | pkgtype | authtype | nasname | response | username | password | challenge | chappass | usermac | online
  deriving DecidableEq, Repr

inductive ValueType where
  | int | string
  deriving DecidableEq, Repr

def Attr.id : Attr → UInt8
  | .pkgtype => 0x0b
  | .authtype => 0x02
  | .nasname => 0x03
  | .response => 0x12
  | .username => 0x01
  | .password => 0x02
  | .challenge => 0x03
  | .chappass => 0x04
  | .usermac => 0xc9
  | .online => 0x09

def Attr.ty : Attr → ValueType
  | .pkgtype => .int
  | _ => .string

-- portal_value_pair: lval is the number of an int attribute and the length of
-- a string one, and only a string one has a val.
structure ValuePair where
  attr : Attr
  lval : UInt32
  val : Option (List UInt8)
  deriving DecidableEq, Repr

-- ptl_vp_append on the memory that starts at `val`; none is the NULL of a
-- value that is too long.
def ptlVpNew (attr : Attr) (val : List UInt8) (lval : Int) : Option ValuePair :=
  match attr.ty with
  | .string =>
    let length := if lval < 0 then (cString val).length else lval.toNat
    if length > 253 then none else some ⟨attr, UInt32.ofNat length, some (readBytes val length)⟩
  | .int => some ⟨attr, load32 val, none⟩

def ptlVpAppend (list : List ValuePair) (attr : Attr) (val : List UInt8) (lval : Int) : List ValuePair :=
  list ++ (ptlVpNew attr val lval).toList

def ptlVpFind (list : List ValuePair) (attr : Attr) : Option ValuePair := list.find? fun vp => vp.attr = attr

-- vp && vp->val, and the text there.
def ptlVpText (list : List ValuePair) (attr : Attr) : Option Str := ((ptlVpFind list attr).bind ValuePair.val).map cString

-- One turn of ptl_pack_list: the bytes, and the pair as it is left behind.
def ValuePair.pack (vp : ValuePair) : ValuePair × List UInt8 :=
  match vp.attr.ty with
  | .string => (vp, vp.attr.id :: (vp.lval + 2).toUInt8 :: vp.val.getD [])
  | .int => ({ vp with lval := htonl vp.lval }, vp.attr.id :: 6 :: store32 (htonl vp.lval))

-- ptl_pack_list with `lbuf` bytes left. EMS_BUFFER_INSUFFICIENT is none: wr of
-- the buffer stays where it was.
def ptlPackList : List ValuePair → Nat → List ValuePair × Option (List UInt8)
  | [], _ => ([], some [])
  | vp :: rest, lbuf =>
    if lbuf ≤ vp.pack.2.length then (vp :: rest, none)
    else
      let packed := ptlPackList rest (lbuf - vp.pack.2.length)
      (vp.pack.1 :: packed.1, packed.2.map (vp.pack.2 ++ ·))

-- The switch of ptl_parse_ctx.
def attrOf (evt : Bool) (ty : UInt8) : Option Attr :=
  if ty = 0x01 then some .username
  else if ty = 0x0b then some .pkgtype
  else if ty = 0x02 then some (if evt then .password else .authtype)
  else if ty = 0x03 then some (if evt then .challenge else .nasname)
  else if ty = 0x04 then some .chappass
  else if ty = 0xc9 then some .usermac
  else if ty = 0x12 then some .response
  else if ty = 0x09 then some .online
  else none

-- EMS_CONTINUE, a return with the number of bytes taken, or a loop that no
-- longer moves.
inductive Parsed where
  | again
  | used (list : List ValuePair) (count : Nat)
  | spin
  deriving DecidableEq, Repr

def Parsed.after (front : List ValuePair) (len : Nat) : Parsed → Parsed
  | .again => .again
  | .used list count => .used (front ++ list) (len + count)
  | .spin => .spin

def ValuePair.ntohl (vp : ValuePair) : ValuePair :=
  match vp.attr.ty with
  | .string => vp
  | .int => { vp with lval := htonl vp.lval }

-- The loop of ptl_parse_ctx over the memory from buf on, of which lbuf bytes
-- were received. The length byte and a value may lie behind these; a missing
-- n is the -1 of a caller that wants all attributes.
def parseLoop (evt : Bool) : Nat → List UInt8 → Nat → Option Nat → Parsed
  | 0, _, _, _ => .spin
  | fuel + 1, mem, lbuf, n =>
    let len := (mem.getD 1 0).toNat
    if n = some 0 ∨ lbuf = 0 then .used [] 0
    else if lbuf < len then .again
    else match attrOf evt (mem.getD 0 0) with
      | none =>
        if len = 0 then .used [] 0
        else (parseLoop evt fuel (mem.drop len) (lbuf - len) (n.map (· - 1))).after [] len
      | some attr =>
        (parseLoop evt fuel (mem.drop len) (lbuf - len) (n.map (· - 1))).after
          ((ptlVpNew attr (mem.drop 2) (len - 2)).map ValuePair.ntohl).toList len

-- With n given the loop takes n turns at most; without, every turn that moves
-- takes a byte, and the loop goes round for ever once it does not.
def ptlParseCtx (evt : Bool) (mem : List UInt8) (lbuf : Nat) (n : Option Nat) : Parsed :=
  parseLoop evt (n.getD lbuf + 1) mem lbuf n

def decimal (byte : UInt8) : Str :=
  if byte < 10 then [48 + byte]
  else if byte < 100 then [48 + byte / 10, 48 + byte % 10]
  else [48 + byte / 100, 48 + byte / 10 % 10, 48 + byte % 10]

def inetNtoa (ip : List UInt8) : Str :=
  decimal (ip.getD 0 0) ++ 46 :: decimal (ip.getD 1 0) ++ 46 :: decimal (ip.getD 2 0) ++ 46 :: decimal (ip.getD 3 0)

def inetAddr : Str → UInt8 → List UInt8
  | [], part => [part]
  | char :: rest, part => if char = 46 then part :: inetAddr rest 0 else inetAddr rest (part * 10 + (char - 48))

def hexDigit (nibble : UInt8) : UInt8 := if nibble < 10 then 48 + nibble else 87 + nibble

-- ems_bin2str into the 32 bytes of a buffer that holds `old`.
def emsBin2str (val : List UInt8) (old : Str) : Str :=
  if val = [] then old else (val.flatMap fun byte => [hexDigit (byte / 16), hexDigit (byte % 16)]).take 31

def hexValue (char : UInt8) : Option UInt8 :=
  if 48 ≤ char ∧ char ≤ 57 then some (char - 48)
  else if 97 ≤ char ∧ char ≤ 102 then some (char - 87)
  else if 65 ≤ char ∧ char ≤ 70 then some (char - 55)
  else none

def strtol16 (first second : UInt8) : UInt8 :=
  match hexValue first with
  | some high => (hexValue second).elim high fun low => high * 16 + low
  | none =>
    if first = 45 then (hexValue second).elim 0 fun low => 0 - low
    else if first = 43 ∨ first = 32 ∨ 9 ≤ first ∧ first ≤ 13 then (hexValue second).getD 0
    else 0

def emsStr2bin : Str → List UInt8
  | first :: second :: rest => strtol16 first second :: emsStr2bin rest
  | _ => []

def colons : Str → Str
  | first :: second :: rest => first :: second :: 58 :: colons rest
  | rest => rest

-- ptl_mac_to_radius. It takes the last character off again, so the text must
-- not be empty, and everything has to fit into the 32 bytes of its buffer.
-- None is a step outside of memory, by way of a NULL text as well.
def ptlMacToRadius (mac : Option Str) : Option Str :=
  mac.bind fun text => if text = [] ∨ (colons text).length > 32 then none else some (colons text).dropLast

-- radius_mac_to_ptl, with the same limit and room for the NUL.
def radiusMacToPtl (mac : Option Str) : Option Str :=
  mac.bind fun text => if (text.filter (· ≠ 58)).length > 31 then none else some (text.filter (· ≠ 58))

example : ptlMacToRadius (some (emsBin2str [0x00, 0x1a, 0x2b] [])) = some [48, 48, 58, 49, 97, 58, 50, 98] := by decide

end Codec.Portal
