import Codec.Http.Captive
import Codec.Lib.Decimal

set_option autoImplicit false

namespace Codec.Http

open Codec.Ems Codec.Lib List

def hexChars : Str := ascii "0123456789abcdef"

def toHex (code : UInt8) : UInt8 := hexChars.getD (code &&& 15).toNat 0

def isalnum (char : UInt8) : Bool := (48 ≤ char && char ≤ 57) || (65 ≤ char && char ≤ 90) || (97 ≤ char && char ≤ 122)

def stays (char : UInt8) : Bool := isalnum char || char = 45 || char = 95 || char = 46 || char = 126

-- A char is signed there, but only the low four bits of the shifted one count.
def encodeChar (char : UInt8) : Str :=
  if stays char then [char] else if char = 32 then [43] else [37, toHex (char >>> 4), toHex (char &&& 15)]

def urlEncode (str : Str) : Str := (cstr str).flatMap encodeChar

def fromHex (char : UInt8) : Option UInt8 :=
  if 48 ≤ char ∧ char ≤ 57 then some (char - 48)
  else if 97 ≤ char ||| 32 ∧ char ||| 32 ≤ 102 then some ((char ||| 32) - 87)
  else none

def urlDecode : Str → Option Str
  | [] => some []
  | char :: rest =>
    if char = 37 then
      match rest with
      | high :: low :: behind =>
        (fromHex high).bind fun high => (fromHex low).bind fun low =>
          (urlDecode behind).map fun text => (high * 16 + low) :: text
      | _ => none
    else (urlDecode rest).map fun text => (if char = 43 then 32 else char) :: text

def takesThree (char : UInt8) : Bool := !stays char && char != 32

def encodedLength (text : Str) : Nat := text.length + 2 * text.countP takesThree

theorem every_byte (holds : UInt8 → Prop) (all : ∀ code < 256, holds (UInt8.ofNat code)) (char : UInt8) : holds char := by
  have here := all _ char.toNat_lt
  rwa [UInt8.ofNat_toNat] at here

variable (char : UInt8) (buf : Buffer) (size : Nat) (text : Str)

theorem hex_pair : fromHex (toHex (char >>> 4)) = some (char >>> 4) ∧ fromHex (toHex (char &&& 15)) = some (char &&& 15) ∧
      (char >>> 4) * 16 + (char &&& 15) = char :=
  every_byte (fun char => fromHex (toHex (char >>> 4)) = some (char >>> 4) ∧
    fromHex (toHex (char &&& 15)) = some (char &&& 15) ∧ (char >>> 4) * 16 + (char &&& 15) = char)
    (by decide +kernel) char

theorem stays_plain : stays char = true → char ≠ 37 ∧ char ≠ 43 :=
  every_byte (fun char => stays char = true → char ≠ 37 ∧ char ≠ 43) (by decide +kernel) char

theorem encode_char_solid : char ≠ 0 → 0 ∉ encodeChar char :=
  every_byte (fun char => char ≠ 0 → 0 ∉ encodeChar char) (by decide +kernel) char

theorem url_decode_plain (rest : Str) (other : char ≠ 37) :
    urlDecode (char :: rest) = (urlDecode rest).map fun text => (if char = 43 then 32 else char) :: text := by
  rw [urlDecode.eq_def]
  simp [other]

theorem decode_char (rest : Str) : urlDecode (encodeChar char ++ rest) = (urlDecode rest).map fun text => char :: text := by
  rw [encodeChar]
  cases kept : stays char with
  | true =>
    obtain ⟨escape, plus⟩ := stays_plain char kept
    rw [if_pos rfl, singleton_append, url_decode_plain char rest escape, if_neg plus]
  | false =>
    by_cases space : char = 32
    · rw [if_neg Bool.false_ne_true, if_pos space, singleton_append, url_decode_plain 43 rest (by decide), space]
      rfl
    · obtain ⟨high, low, whole⟩ := hex_pair char
      simp [urlDecode, space, high, low, whole]

theorem decode_chars (text rest : Str) :
    urlDecode (text.flatMap encodeChar ++ rest) = (urlDecode rest).map fun more => text ++ more := by
  induction text with
  | nil => simp
  | cons char text ih =>
    rw [flatMap_cons, append_assoc, decode_char, ih, Option.map_map]
    rfl

theorem url_decode_encode (text rest : Str) (clean : 0 ∉ text) :
    urlDecode (urlEncode text ++ rest) = (urlDecode rest).map fun more => text ++ more := by
  rw [urlEncode, cstr_clean text clean, decode_chars]

theorem url_encode_solid : 0 ∉ urlEncode text := by
  intro member
  obtain ⟨char, inside, there⟩ := mem_flatMap.mp member
  exact encode_char_solid char (fun none => zero_not_mem_cstr text (none ▸ inside)) there

theorem url_encode_length (clean : 0 ∉ text) : (urlEncode text).length = encodedLength text := by
  rw [urlEncode, cstr_clean text clean, encodedLength]
  clear clean
  induction text with
  | nil => rfl
  | cons char text ih =>
    rw [flatMap_cons, length_append, ih, countP_cons, length_cons, encodeChar, takesThree]
    cases stays char with
    | true => simp; omega
    | false =>
      by_cases space : char = 32
      · simp [space]; omega
      · simp [space]; omega

theorem url_encode_bound : (urlEncode text).length ≤ 3 * text.length := by
  have escapes := countP_le_length (p := takesThree) (l := cstr text)
  have part := (List.takeWhile_prefix (l := text) fun byte => decide (byte ≠ 0)).length_le
  have size := url_encode_length _ (zero_not_mem_cstr text)
  rw [urlEncode, cstr_clean _ (zero_not_mem_cstr text), encodedLength] at size
  rw [urlEncode, size]
  rw [cstr] at escapes ⊢
  omega

def snprintf (buf : Buffer) (text : Str) : Buffer :=
  if buf.left = 0 then buf else buf.poke buf.wr (text.take (buf.left - 1) ++ [0])

def printed (buf : Buffer) (text : Str) : Buffer := ((snprintf buf text).seekWr text.length .cur).getD (snprintf buf text)

def emsUrlencode (dst src : Buffer) : Buffer :=
  let buf := urlEncode src.content
  let dst := if dst.left ≤ buf.length then dst.increase buf.length else dst
  if dst.left ≤ buf.length then dst
  else
    let dst := dst.write buf
    dst.poke dst.wr [0]

structure Holds (buf : Buffer) (size : Nat) (text : Str) : Prop where
  rd : buf.rd = 0
  wr : buf.wr = min text.length size
  mem : buf.mem = text.take size ++ List.replicate (size - text.length) 0

theorem holds_init : Holds (Buffer.init size) size [] where
  rd := rfl
  wr := (Nat.zero_min size).symm
  mem := by simp [Buffer.init]

theorem overwrite_zeroed (text bytes : Str) (room : Nat) : overwrite (text ++ List.replicate room 0) text.length bytes =
      text ++ bytes ++ List.replicate (room - bytes.length) 0 := by
  rw [overwrite, take_left, drop_append, drop_eq_nil_of_le (Nat.le_add_right _ _), nil_append,
    drop_replicate, Nat.add_sub_cancel_left]

theorem Holds.left (holds : Holds buf size text) : buf.left = size - text.length := by
  rw [Buffer.left, holds.wr, holds.mem, length_append, length_take, length_replicate]
  omega

theorem Holds.place (holds : Holds buf size text) : buf.wr = (text.take size).length := by
  rw [holds.wr, length_take, Nat.min_comm]

theorem Holds.store (text bytes : Str) (holds : Holds buf size text) : overwrite buf.mem buf.wr bytes =
      text.take size ++ bytes ++ List.replicate (size - text.length - bytes.length) 0 := by
  rw [holds.place, holds.mem, overwrite_zeroed]

theorem Holds.content (holds : Holds buf size text) : buf.content = text.take size := by
  rw [Buffer.content, holds.rd, drop_zero, holds.place, holds.mem, take_left]

theorem holds_write (text more : Str) (holds : Holds buf size text) : Holds (buf.write more) size (text ++ more) where
  rd := holds.rd
  wr := by
    have left := holds.left
    simp only [Buffer.write, left, holds.wr, length_take, length_append]
    omega
  mem := by
    show overwrite _ _ _ = _
    rw [holds.left, holds.store, take_append, length_append, length_take]
    congr 2
    omega

theorem holds_printed (text more : Str) (holds : Holds buf size text)
    (fits : text.length + more.length < size) : Holds (printed buf more) size (text ++ more) := by
  have left := holds.left
  have whole : more.take (buf.left - 1) = more := take_of_length_le (by omega)
  have written : snprintf buf more = buf.poke buf.wr (more ++ [0]) := by rw [snprintf, if_neg (by omega), whole]
  have mem : (snprintf buf more).mem = text ++ more ++ replicate (size - (text ++ more).length) 0 := by
    rw [written]
    show overwrite _ _ _ = _
    rw [holds.store, take_of_length_le (by omega), ← append_assoc, append_assoc _,
      ← replicate_one, ← replicate_add]
    congr 2
    simp only [length_append, length_replicate]
    omega
  have start : (snprintf buf more).rd = 0 ∧ (snprintf buf more).wr = text.length := by
    rw [written]
    exact ⟨holds.rd, by rw [← Nat.min_eq_left (show text.length ≤ size by omega)]; exact holds.wr⟩
  have behind : ∃ moved, (snprintf buf more).seekWr more.length .cur = some moved ∧
      moved.rd = 0 ∧ moved.wr = text.length + more.length ∧ moved.mem = (snprintf buf more).mem := by
    have room : ¬ ((more.length : Int) < -(snprintf buf more).len ∨
        (more.length : Int) > (snprintf buf more).left) := by
      have total := congrArg length mem
      simp only [length_append, length_replicate] at total
      have bound : (snprintf buf more).left = size - text.length := by
        rw [Buffer.left, start.2]
        omega
      omega
    refine ⟨_, dif_neg room, start.1, ?_, rfl⟩
    show (((snprintf buf more).wr : Int) + more.length).toNat = _
    rw [start.2]
    omega
  obtain ⟨moved, there, rd, wr, same⟩ := behind
  rw [printed, there, Option.getD_some]
  exact {
    rd := rd
    wr := by rw [wr, length_append]; omega
    mem := by rw [same, mem, take_of_length_le (by rw [length_append]; omega)] }

theorem Holds.cstr (behind : List UInt8) (holds : Holds buf size text)
    (clean : 0 ∉ text) (short : text.length < size) : Ems.cstr (buf.mem ++ behind) = text := by
  obtain ⟨room, more⟩ : ∃ room, size - text.length = room + 1 := ⟨size - text.length - 1, by omega⟩
  rw [holds.mem, more, take_of_length_le (by omega), append_assoc, cstr_append text _ clean,
    replicate_succ, cons_append]
  simp [Ems.cstr]

def decimal (number : Int32) : Str :=
  if number.toInt < 0 then 45 :: digitText number.toInt.natAbs else digitText number.toInt.natAbs

-- What http_web_do_redirect reads besides the request: the settings with what
-- the firewall and the CNA machine answer, the texts it prints, and `behind`,
-- the memory behind the argument buffer.
structure Web where
  nasgetinfo : Bool
  nas : Str
  subdomain : Str → Bool
  url : List Str
  cna : Str → Str → Option Bool
  configReady : Bool
  weixin : Bool
  srcPort : Int32
  redirectPort : Int32
  userip : Str
  sn : Str
  ssid : Str
  usermac : Str
  bssid : Str
  devicetype : Str
  addr : Str
  gwAddr : Str
  date : Str
  ctx : Str
  behind : List UInt8
  clean : ∀ text ∈ [userip, sn, ssid, usermac, bssid], 0 ∉ text

inductive Answer where
  | nasinfo
  | samePage
  | cna (success : Bool)
  | portal
  | error
  deriving DecidableEq, Repr

def macUpdate (src : Str) : Str := src.map fun char => if char = 58 then 45 else char

-- http_web_callback cuts the parameter behind the name.
def callback (param : Str) : Option Str :=
  (strstr (ascii "callback=") param).map fun found => found.2.takeWhile fun char => decide (char ≠ 38)

section Redirect

variable (web : Web)

def tryNasgetinfo (param host : Str) : Bool :=
  decide (9 < param.length) && (ascii "/portal/?").isPrefixOf param && decide (web.nas.length ≤ host.length) &&
    web.nas.isPrefixOf host

def tryUrlwhitelist (param : Str) : Bool :=
  web.url.any fun key => decide (key.length ≤ param.length) && (strstr key param).isSome

def answers (param host : Str) : Answer :=
  if web.nasgetinfo && tryNasgetinfo web param host then .nasinfo
  else if web.subdomain host then .samePage
  else if tryUrlwhitelist web param then .samePage
  else
    match web.cna host param with
    | some success => .cna success
    | none => if web.configReady then .portal else .error

def urlText (param host : Str) : Str := ascii "http://" ++ host ++ ascii ":" ++ decimal web.srcPort ++ param

def urlBuffer (param host : Str) : Buffer := printed (Buffer.init (param.length + host.length + 1024)) (urlText web param host)

-- The url is encoded into the buffer the request was read from.
def srcurlBuffer (bufIn : Buffer) (param host : Str) : Buffer := emsUrlencode bufIn.clear (urlBuffer web param host)

def srcurl (bufIn : Buffer) (param host : Str) : Option Str :=
  let bufIn := srcurlBuffer web bufIn param host
  if 0 < bufIn.len then some (cstr (bufIn.mem.drop bufIn.rd)) else none

def argText : Str :=
  ascii "wlanuserip=" ++ web.userip ++ ascii "&wlanacname=" ++ web.sn ++ ascii "&ssid=" ++ web.ssid ++
    ascii "&wlanusermac=" ++ macUpdate web.usermac ++ ascii "&wlanapmac=" ++ macUpdate web.bssid ++ ascii "&apsn=" ++
    web.sn

def portalArg (srcurl : Option Str) : Buffer :=
  let arg := printed (Buffer.init 2048) (argText web)
  let arg := (arg.write (ascii "&devicetype=")).write (urlEncode web.devicetype)
  let arg :=
    match srcurl with
    | some srcurl => (arg.write (ascii "&srcurl=")).write srcurl
    | none => arg
  if web.weixin then (arg.write (ascii "&auth=")).write (urlEncode arg.content) else arg

def versionText (version : Option Str) : Str := version.getD (ascii "(null)")

def portalHead (version : Option Str) : Str :=
  versionText version ++ ascii " 302 Found\r\nDate: " ++ web.date ++
    ascii " GMT\r\nServer: yingkewifi\r\nConnection: close\r\nLocation: http://" ++ web.addr ++ ascii ":" ++
    decimal web.redirectPort ++ ascii "/portal/Login.do?"

def portalTail : Str := ascii "\r\nContent-Type: text/plain;charset=utf-8\r\n\r\n<html></html>\r\n"

def portalText (version srcurl : Option Str) : Str :=
  let arg := portalArg web srcurl
  portalHead web version ++ cstr (arg.mem.drop arg.rd ++ web.behind) ++ portalTail

def contentLength (func : Str) : Nat := web.ctx.length + func.length + 3

def nasinfoHead (version : Option Str) (length : Nat) : Str :=
  versionText version ++ ascii " 200 OK\r\nDate: " ++ web.date ++
    ascii " GMT\r\nServer: yingkewifi\r\nConnection: close\r\nContent-Length: " ++
    decimal (Int32.ofNat length) ++ ascii "\r\nContent-Type: text/plain;charset=utf-8\r\n\r\n"

def nasinfoText (version : Option Str) (func : Str) : Str :=
  nasinfoHead web version (contentLength web func) ++ func ++ ascii "(" ++ web.ctx ++ ascii ");"

def movedText (version : Option Str) (location : Str) : Str :=
  versionText version ++ ascii " 302 Moved Temporarily\r\nServer: yingkewifi\r\nConnection: close\r\nDate: " ++
    web.date ++ ascii " GMT\r\nLocation: " ++ location ++
    ascii "\r\nContent-Type: text/plain\r\n\r\n<html></html>\r\n"

def cnaText (version : Option Str) (page : Str) : Str :=
  versionText version ++ ascii " 200 OK\r\nDate: " ++ web.date ++
    ascii " GMT\r\nServer: yingkewifi\r\nConnection: close\r\nContent-Type: text/plain;charset=utf-8\r\n\r\n" ++
    ascii "<HTML><HEAD><TITLE>" ++ page ++ ascii "</TITLE></HEAD><BODY>" ++ page ++ ascii "</BODY></HTML>"

def doRedirect (bufIn : Buffer) (hdr : Header) : Reply :=
  let param := hdr.param.getD []
  let host := hdr.host.getD []
  match answers web param host with
  | .nasinfo => ⟨nasinfoText web hdr.version ((callback param).getD (ascii "afunc")), false⟩
  | .samePage => ⟨movedText web hdr.version (cstr (urlBuffer web param host).mem), false⟩
  | .cna success => ⟨cnaText web hdr.version (ascii (if success then "Success" else "Failed")), false⟩
  | .portal => ⟨portalText web hdr.version (srcurl web bufIn param host), true⟩
  | .error => ⟨movedText web hdr.version (ascii "http://" ++ web.gwAddr ++ ascii "/cgi-bin/luci/guide_fail"), false⟩

def argHead : Str := argText web ++ ascii "&devicetype=" ++ urlEncode web.devicetype ++ ascii "&srcurl="

structure Carried (bufIn : Buffer) (hdr : Header) (param host : Str) : Prop where
  response : ∃ value, (doRedirect web bufIn hdr).filled =
      portalHead web hdr.version ++ argHead web ++ value ++ portalTail ∧ urlDecode value = some (urlText web param host)
  argument : 0 ∈ (portalArg web (srcurl web bufIn param host)).mem.drop
      (portalArg web (srcurl web bufIn param host)).rd
  macs : web.usermac.length < 32 ∧ web.bssid.length < 32
  encoded : ∀ text ∈ [(urlBuffer web param host).content, web.devicetype], (urlEncode text).length ≤ 3 * text.length
  stored : (srcurlBuffer web bufIn param host).wr < (srcurlBuffer web bufIn param host).size

def Counted (bufIn : Buffer) (hdr : Header) : Prop :=
  ∃ body, (doRedirect web bufIn hdr).filled = nasinfoHead web hdr.version body.length ++ body

def Right (bufIn : Buffer) (hdr : Header) (param host : Str) : Prop :=
  match answers web param host with
  | .portal => Carried web bufIn hdr param host
  | .nasinfo => Counted web bufIn hdr
  | _ => True

structure PortalFits (version : Option Str) (param host : Str) : Prop where
  weixin : web.weixin = false
  macs : web.usermac.length < 32 ∧ web.bssid.length < 32
  argument : (argHead web).length + encodedLength (urlText web param host) < 2048
  response : (portalHead web version).length + (argHead web).length + encodedLength (urlText web param host) +
    portalTail.length < 8192

def NasinfoFits (version : Option Str) (func : Str) : Prop :=
  (nasinfoHead web version (contentLength web func)).length + contentLength web func ≤ 8192

def RedirectFits (version : Option Str) (param host : Str) : Prop :=
  match answers web param host with
  | .portal => PortalFits web version param host
  | .nasinfo => NasinfoFits web version ((callback param).getD (ascii "afunc"))
  | _ => True

theorem decimal_length (number : Int32) : (decimal number).length ≤ 11 := by
  have bound : number.toInt.natAbs < 10 ^ 10 := by
    have low := number.le_toInt
    have high := number.toInt_lt
    omega
  have digits := (Nat.length_toDigits_le_iff (by decide) (by decide)).mpr bound
  rw [← digit_text_length] at digits
  rw [decimal]
  split
  · rw [length_cons]
    omega
  · omega

theorem decimal_clean (number : Int32) : 0 ∉ decimal number := by
  have digits : 0 ∉ digitText number.toInt.natAbs := fun member =>
    absurd (digit_text_low _ 0 member) (by decide)
  rw [decimal]
  split
  · simp [digits]
  · exact digits

variable (buf : Buffer) (bufIn : Buffer) (hdr : Header) (param host : Str)

theorem url_text_length : (urlText web param host).length < param.length + host.length + 1024 := by
  have digits := decimal_length web.srcPort
  have scheme : (ascii "http://").length = 7 := rfl
  have colon : (ascii ":").length = 1 := rfl
  simp only [urlText, length_append]
  omega

theorem url_text_clean (clean : 0 ∉ param ∧ 0 ∉ host) : 0 ∉ urlText web param host := by
  have scheme : 0 ∉ ascii "http://" := by decide
  have colon : 0 ∉ ascii ":" := by decide
  have digits := decimal_clean web.srcPort
  simp [urlText, clean, scheme, colon, digits]

theorem holds_url : Holds (urlBuffer web param host) (param.length + host.length + 1024) (urlText web param host) := by
  have bound := url_text_length web param host
  have holds := holds_printed _ _ [] (urlText web param host) (holds_init (param.length + host.length + 1024))
    (by rw [length_nil]; omega)
  rwa [nil_append] at holds

theorem url_content : (urlBuffer web param host).content = urlText web param host := by
  have bound := url_text_length web param host
  rw [(holds_url web _ host).content, take_of_length_le (by omega)]

theorem ems_urlencode_stored (dst src : Buffer) (room : 0 < dst.size) :
    ∃ more, (emsUrlencode dst.clear src).mem = urlEncode src.content ++ 0 :: more ∧
      (emsUrlencode dst.clear src).rd = 0 ∧ (emsUrlencode dst.clear src).wr = (urlEncode src.content).length := by
  generalize encoded : urlEncode _ = buf
  have grown : ∃ next : Buffer,
      (if dst.clear.left ≤ buf.length then dst.clear.increase buf.length else dst.clear) = next ∧
        next.rd = 0 ∧ next.wr = 0 ∧ buf.length < next.mem.length := by
    by_cases small : dst.clear.left ≤ buf.length
    · refine ⟨_, if_pos small, ?_⟩
      have kept : dst.clear.refresh = dst.clear := by simp [Buffer.refresh, Buffer.trash, Buffer.clear]
      have short : ¬ dst.clear.left > buf.length := by omega
      simp only [Buffer.increase, kept, if_neg short]
      refine ⟨rfl, rfl, ?_⟩
      rw [length_append, length_replicate]
      exact Nat.lt_add_of_pos_left room
    · refine ⟨_, if_neg small, rfl, rfl, ?_⟩
      rw [Buffer.left] at small
      omega
  obtain ⟨next, same, rd, wr, fits⟩ := grown
  have left : ¬ next.left ≤ buf.length := by
    rw [Buffer.left, wr]
    omega
  have written : (next.write buf).mem = buf ++ next.mem.drop buf.length ∧ (next.write buf).wr = buf.length := by
    have whole : buf.take next.left = buf := take_of_length_le (by omega)
    constructor
    · show overwrite _ _ _ = _
      rw [whole, wr, overwrite, take_zero, nil_append, Nat.zero_add]
    · show next.wr + (buf.take _).length = _
      rw [whole, wr, Nat.zero_add]
  have done : emsUrlencode dst.clear src = (next.write buf).poke (next.write buf).wr [0] := by
    simp only [emsUrlencode, encoded, same, if_neg left]
  rw [done]
  refine ⟨next.mem.drop (buf.length + 1), ?_, rd, written.2⟩
  show overwrite _ _ [0] = _
  rw [written.1, written.2, overwrite, take_left, drop_append, drop_eq_nil_of_le (Nat.le_add_right _ _),
    nil_append, drop_drop, length_singleton, Nat.add_sub_cancel_left, append_assoc,
    singleton_append]

theorem srcurl_eq (room : 0 < bufIn.size) (clean : 0 ∉ param ∧ 0 ∉ host) :
    srcurl web bufIn param host = some (urlEncode (urlText web param host)) ∧
      (srcurlBuffer web bufIn param host).wr < (srcurlBuffer web bufIn param host).size := by
  obtain ⟨more, mem, rd, wr⟩ := ems_urlencode_stored _ _ room
  rw [url_content] at mem wr
  constructor
  · have some_ : 0 < (srcurlBuffer web bufIn param host).len := by
      have scheme : (ascii "http://").length = 7 := rfl
      rw [srcurlBuffer, Buffer.len, rd, wr, url_encode_length _ (url_text_clean web _ host clean), encodedLength]
      simp only [urlText, length_append]
      omega
    simp only [srcurl, some_, if_true, Option.some.injEq]
    rw [srcurlBuffer, rd, mem, drop_zero, cstr_append _ _ (url_encode_solid _)]
    simp [cstr]
  · rw [srcurlBuffer, Buffer.size, wr, mem, length_append, length_cons]
    omega

def argWhole (value : Str) : Str :=
  argHead web ++ value ++
    if web.weixin then ascii "&auth=" ++ urlEncode ((argHead web ++ value).take 2048) else []

theorem holds_arg (value : Str) (short : (argText web).length < 2048) :
    Holds (portalArg web (some value)) 2048 (argWhole web value) := by
  have start := holds_printed _ 2048 [] (argText web) (holds_init 2048) (by rw [length_nil]; omega)
  have device := holds_write _ 2048 _ (urlEncode web.devicetype) (holds_write _ 2048 _ (ascii "&devicetype=") start)
  have url := holds_write _ 2048 _ value (holds_write _ 2048 _ (ascii "&srcurl=") device)
  rw [nil_append] at url
  cases kind : web.weixin with
  | false => simpa only [portalArg, argWhole, argHead, kind, Bool.false_eq_true, if_false, append_nil] using url
  | true =>
    have content := url.content
    have auth := holds_write _ 2048 _ (urlEncode ((argHead web ++ value).take 2048))
      (holds_write _ 2048 _ (ascii "&auth=") url)
    rw [append_assoc _ _] at auth
    simp only [portalArg, argWhole, kind, if_true]
    rw [content]
    exact auth

theorem mac_update_clean (src : Str) (clean : 0 ∉ src) : 0 ∉ macUpdate src := by
  intro member
  obtain ⟨char, inside, same⟩ := mem_map.mp member
  split at same
  · cases same
  · exact clean (same ▸ inside)

theorem arg_text_clean : 0 ∉ argText web := by
  have userip := web.clean web.userip (by simp)
  have sn := web.clean web.sn (by simp)
  have ssid := web.clean web.ssid (by simp)
  have usermac := mac_update_clean _ (web.clean web.usermac (by simp))
  have bssid := mac_update_clean _ (web.clean web.bssid (by simp))
  have names : ∀ name ∈ ["wlanuserip=", "&wlanacname=", "&ssid=", "&wlanusermac=", "&wlanapmac=", "&apsn="],
      0 ∉ ascii name := by decide
  simp [argText, userip, sn, ssid, usermac, bssid, names]

theorem arg_head_clean : 0 ∉ argHead web := by
  have names : 0 ∉ ascii "&devicetype=" ∧ 0 ∉ ascii "&srcurl=" := by decide
  simp [argHead, arg_text_clean, url_encode_solid, names]

theorem arg_whole_clean (value : Str) (clean : 0 ∉ value) : 0 ∉ argWhole web value := by
  have name : 0 ∉ ascii "&auth=" := by decide
  rw [argWhole]
  split
  · simp [arg_head_clean, url_encode_solid, name, clean]
  · simp [arg_head_clean, clean]

theorem filled_whole (reply : Reply) (front : Str) (clamped : reply.clamped = true)
    (ends : reply.filled = front ++ portalTail) : reply.filled = reply.text ∧ reply.text.length < 8192 := by
  by_cases whole : reply.text.length < 8192
  · exact ⟨if_pos whole, whole⟩
  · rw [Reply.filled, if_neg whole, if_pos (.inr clamped)] at ends
    have last := congrArg getLast? ends
    have bytes : [(0 : UInt8)].getLast? = some 0 ∧ portalTail.getLast? = some 10 := by decide
    rw [getLast?_append, getLast?_append, bytes.1, bytes.2] at last
    cases last

theorem write_length (src : List UInt8) : (buf.write src).mem.length = buf.mem.length := by
  apply overwrite_length
  have bounded := buf.bounded
  rw [length_take, Buffer.left]
  omega

theorem snprintf_length (text : Str) : (snprintf buf text).mem.length = buf.mem.length := by
  rw [snprintf]
  split
  · rfl
  · rename_i room
    apply overwrite_length
    rw [Buffer.left] at room ⊢
    rw [length_append, length_take, length_singleton]
    omega

theorem printed_length (text : Str) : (printed buf text).mem.length = buf.mem.length := by
  rw [printed]
  cases moved : (snprintf buf text).seekWr _ .cur with
  | none => exact snprintf_length buf text
  | some next =>
    simp only [Buffer.seekWr] at moved
    split at moved
    · cases moved
    · cases moved
      exact snprintf_length buf text

theorem portal_arg_length (srcurl : Option Str) : (portalArg web srcurl).mem.length = 2048 := by
  have start : (printed (Buffer.init 2048) (argText web)).mem.length = 2048 := by
    rw [printed_length, Buffer.init, length_replicate]
  cases srcurl with
  | none => simp only [portalArg]; split <;> simp only [write_length, start]
  | some srcurl => simp only [portalArg]; split <;> simp only [write_length, start]

theorem cstr_inside (mem behind : List UInt8) (ends : 0 ∈ mem) : (cstr (mem ++ behind)).length < mem.length := by
  induction mem with
  | nil => cases ends
  | cons byte mem ih =>
    by_cases none : byte = 0
    · simp [cstr, none]
    · have later : 0 ∈ mem := (mem_cons.mp ends).resolve_left fun same => none same.symm
      have bound := ih later
      rw [cstr] at bound ⊢
      rw [cons_append, takeWhile_cons_of_pos (by simp [none]), length_cons, length_cons]
      omega

theorem portal_reply (parsed : hdr.param = some param ∧ hdr.host = some host) (answer : answers web param host = .portal) :
    doRedirect web bufIn hdr = ⟨portalText web hdr.version (srcurl web bufIn param host), true⟩ := by
  simp only [doRedirect, parsed.1, parsed.2, Option.getD_some, answer]

theorem portal_text_whole (version : Option Str) (param host : Str) (clean : 0 ∉ param ∧ 0 ∉ host)
    (fits : PortalFits web version param host) : Holds (portalArg web (some (urlEncode (urlText web param host)))) 2048
        (argHead web ++ urlEncode (urlText web param host)) ∧
      portalText web version (some (urlEncode (urlText web param host))) =
        portalHead web version ++ argHead web ++ urlEncode (urlText web param host) ++ portalTail := by
  have argument := fits.argument
  rw [← url_encode_length _ (url_text_clean web _ host clean)] at argument
  have short : (argText web).length < 2048 := by
    simp only [argHead, length_append] at argument
    omega
  have holds := holds_arg web (urlEncode (urlText web param host)) short
  have whole : argWhole web (urlEncode (urlText web param host)) =
      argHead web ++ urlEncode (urlText web param host) := by
    simp [argWhole, fits.weixin]
  have solid := arg_whole_clean web _ (url_encode_solid (urlText web param host))
  rw [whole] at holds solid
  have read := holds.cstr _ 2048 _ web.behind solid (by rw [length_append]; omega)
  refine ⟨holds, ?_⟩
  simp only [portalText]
  rw [holds.rd, drop_zero, read, ← append_assoc _]

theorem portal_fits_carried
    (parsed : hdr.param = some param ∧ hdr.host = some host) (clean : 0 ∉ param ∧ 0 ∉ host) (room : 0 < bufIn.size)
    (answer : answers web param host = .portal) (fits : PortalFits web hdr.version param host) :
    Carried web bufIn hdr param host := by
  obtain ⟨url, stored⟩ := srcurl_eq web _ _ host room clean
  obtain ⟨holds, text⟩ := portal_text_whole web _ _ host clean fits
  have solid := url_text_clean web _ host clean
  have size := url_encode_length _ solid
  have argument := fits.argument
  have response := fits.response
  exact {
    response := by
      refine ⟨urlEncode (urlText web param host), ?_, ?_⟩
      · rw [portal_reply web _ hdr _ host parsed answer, url, text, Reply.filled, if_pos]
        simp only [length_append, size]
        omega
      · have decoded := url_decode_encode _ [] solid
        rw [append_nil] at decoded
        rw [decoded, urlDecode, Option.map_some, append_nil]
    argument := by
      have spare : 2048 - (argHead web ++ urlEncode (urlText web param host)).length ≠ 0 := by
        rw [length_append, size]
        omega
      rw [url, holds.rd, drop_zero, holds.mem, mem_append]
      exact .inr (mem_replicate.mpr ⟨spare, rfl⟩)
    macs := fits.macs
    encoded := fun text _ => url_encode_bound text
    stored := stored }

theorem portal_carried_fits
    (parsed : hdr.param = some param ∧ hdr.host = some host) (clean : 0 ∉ param ∧ 0 ∉ host) (room : 0 < bufIn.size)
    (answer : answers web param host = .portal) (carried : Carried web bufIn hdr param host) :
    PortalFits web hdr.version param host := by
  obtain ⟨url, _⟩ := srcurl_eq web _ _ host room clean
  have solid := url_text_clean web _ host clean
  have size := url_encode_length _ solid
  obtain ⟨value, filled, decoded⟩ := carried.response
  have inside := carried.argument
  have reply := portal_reply web bufIn hdr _ host parsed answer
  obtain ⟨text, bound⟩ := filled_whole _ _ (by rw [reply]) filled
  rw [text] at filled
  rw [reply, url] at filled bound
  rw [url] at inside
  simp only [portalText] at filled bound
  rw [append_assoc _ _ value] at filled
  -- What %s reads is the argument text with the value.
  have read := append_cancel_left (append_cancel_right filled)
  generalize coded : urlEncode _ = encoded at *
  have limit := cstr_inside _ web.behind inside
  have room := portal_arg_length web (some encoded)
  have readSize := congrArg length read
  rw [length_drop] at limit
  rw [length_append] at readSize
  have short : (argText web).length < 2048 := by
    have part : (argText web).length ≤ (argHead web).length := by
      simp only [argHead, length_append]
      omega
    omega
  have holds := holds_arg web encoded short
  have bytes := arg_whole_clean web _ (coded ▸ url_encode_solid _)
  have whole : (argWhole web encoded).length < 2048 := by
    by_contra long
    rw [holds.rd, drop_zero, holds.mem, Nat.sub_eq_zero_of_le (by omega), replicate_zero,
      append_nil] at inside
    exact bytes (mem_of_mem_take inside)
  have print := holds.cstr _ 2048 _ web.behind bytes whole
  rw [holds.rd, drop_zero, print] at read bound
  cases kind : web.weixin with
  | true =>
    -- The text goes on behind the url, and so does what it decodes to.
    simp only [argWhole, kind, if_true, append_assoc] at read
    have tail := append_cancel_left read
    have undone := url_decode_encode _
      (ascii "&auth=" ++ urlEncode ((argHead web ++ encoded).take 2048)) solid
    rw [coded, tail, decoded, show ascii _ = 38 :: ascii "auth=" from rfl, cons_append,
      url_decode_plain 38 _ (by decide), Option.map_map] at undone
    obtain ⟨more, _, longer⟩ := Option.map_eq_some_iff.mp undone.symm
    simp at longer
  | false =>
    have plain : argWhole web encoded = argHead web ++ encoded := by simp [argWhole, kind]
    rw [plain, length_append, size] at whole
    rw [plain] at bound
    simp only [length_append, size] at bound
    exact {
      weixin := kind
      macs := carried.macs
      argument := whole
      response := by omega }

theorem nasinfo_text_eq (version : Option Str) (func : Str) : nasinfoText web version func =
      nasinfoHead web version (contentLength web func) ++ (func ++ (ascii "(" ++ (web.ctx ++ ascii ");"))) := by
  simp only [nasinfoText, append_assoc]

theorem nasinfo_counted_iff
    (parsed : hdr.param = some param ∧ hdr.host = some host) (answer : answers web param host = .nasinfo) :
    Counted web bufIn hdr ↔ NasinfoFits web hdr.version ((callback param).getD (ascii "afunc")) := by
  generalize called : (callback _).getD _ = func
  have reply : doRedirect web bufIn hdr = ⟨nasinfoText web hdr.version func, false⟩ := by
    simp only [doRedirect, parsed.1, parsed.2, Option.getD_some, answer, called]
  have body : (func ++ (ascii "(" ++ (web.ctx ++ ascii ");"))).length = contentLength web func := by
    have quotes : (ascii "(").length = 1 ∧ (ascii ");").length = 2 := ⟨rfl, rfl⟩
    simp only [length_append, quotes, contentLength]
    omega
  have total : (nasinfoText web hdr.version func).length =
      (nasinfoHead web hdr.version (contentLength web func)).length + contentLength web func := by
    rw [nasinfo_text_eq, length_append, body]
  rw [Counted, NasinfoFits, reply, ← total]
  constructor
  · rintro ⟨sent, filled⟩
    by_contra long
    have above : ¬ (nasinfoText web hdr.version func).length < 8192 := by omega
    have other : ¬ ((nasinfoText web hdr.version func).length = 8192 ∨ false = true) := by simp; omega
    rw [Reply.filled, if_neg above, if_neg other] at filled
    have head := (append_eq_nil_iff.mp filled.symm).1
    have size := congrArg length head
    simp [nasinfoHead, ascii] at size
  · intro fits
    by_cases whole : (nasinfoText web hdr.version func).length < 8192
    · exact ⟨_, by rw [Reply.filled, if_pos whole, nasinfo_text_eq, body]⟩
    · -- The NUL stands in the place of the last byte.
      have full : (nasinfoText web hdr.version func).length = 8192 := by omega
      generalize rest : func ++ (ascii "(" ++ (web.ctx ++ ascii ");")) = sent at body
      have some_ : 0 < contentLength web func := by
        rw [contentLength]
        omega
      refine ⟨sent.take (sent.length - 1) ++ [0], ?_⟩
      have size : (sent.take (sent.length - 1) ++ [(0 : UInt8)]).length = contentLength web func := by
        rw [length_append, length_take, length_singleton]
        omega
      rw [Reply.filled, if_neg whole, if_pos (.inl full), size]
      rw [nasinfo_text_eq, rest, take_append, take_of_length_le (by omega), ← append_assoc]
      congr 3
      omega

theorem do_redirect_iff (bufIn : Buffer) (hdr : Header) (param host : Str)
    (parsed : hdr.param = some param ∧ hdr.host = some host) (clean : 0 ∉ param ∧ 0 ∉ host) (room : 0 < bufIn.size) :
    Right web bufIn hdr param host ↔ RedirectFits web hdr.version param host := by
  cases answer : answers web param host with
  | nasinfo => 
    simp only [Right, RedirectFits, answer]
    exact nasinfo_counted_iff web _ hdr _ host parsed answer
  | portal =>
    simp only [Right, RedirectFits, answer]
    exact ⟨portal_carried_fits web _ hdr _ host parsed clean room answer,
      portal_fits_carried web _ hdr _ host parsed clean room answer⟩
  | samePage => simp only [Right, RedirectFits, answer]
  | cna success => simp only [Right, RedirectFits, answer]
  | error => simp only [Right, RedirectFits, answer]

end Redirect

def sampleWeb : Web where
  nasgetinfo := true
  nas := ascii "10.0.0.1"
  subdomain := fun _ => false
  url := []
  cna := fun _ _ => none
  configReady := true
  weixin := false
  srcPort := 80
  redirectPort := 8080
  userip := ascii "192.168.1.2"
  sn := ascii "sn1"
  ssid := ascii "wifi"
  usermac := ascii "00:11:22:33:44:55"
  bssid := ascii "00:11:22:33:44:66"
  devicetype := ascii "ap 1"
  addr := ascii "10.0.0.2"
  gwAddr := ascii "192.168.1.1"
  date := ascii "Mon Jan 1"
  ctx := ascii "\x7b\x7d"
  behind := []
  clean := by decide

def sampleHeader (param host : Str) : Header where
  method := some (ascii "GET")
  param := some param
  version := some (ascii "HTTP/1.1")
  host := some host
  userAgent := none

theorem sample_room : 0 < (Buffer.init 1024).size := by
  rw [Buffer.size, Buffer.init, length_replicate]
  decide

theorem do_redirect_sample : answers sampleWeb (ascii "/a b?c") (ascii "x.y") = .portal ∧
    Right sampleWeb (Buffer.init 1024) (sampleHeader (ascii "/a b?c") (ascii "x.y")) (ascii "/a b?c") (ascii "x.y") := by
  have answer : answers sampleWeb (ascii "/a b?c") (ascii "x.y") = .portal := by decide
  refine ⟨answer, (do_redirect_iff _ _ _ _ _ ⟨rfl, rfl⟩
    (by decide) sample_room).mpr ?_⟩
  rw [RedirectFits, answer]
  exact { weixin := rfl, macs := by decide, argument := by decide +kernel, response := by decide +kernel }

theorem long_host_lost : ¬ Right sampleWeb (Buffer.init 1024) (sampleHeader (ascii "/") (List.replicate 2048 97))
    (ascii "/") (List.replicate 2048 97) := by
  have clean : (0 : UInt8) ∉ replicate 2048 97 := fun member =>
    absurd (eq_of_mem_replicate member) (by decide)
  generalize long : replicate 2048 _ = host at clean ⊢
  have size := congrArg length long
  rw [length_replicate] at size
  have answer : answers sampleWeb (ascii "/") host = .portal := rfl
  intro right
  have fits := portal_carried_fits _ _ _ _ host ⟨rfl, rfl⟩ ⟨by decide, clean⟩
    sample_room answer right
  have short := fits.argument
  simp only [encodedLength, urlText, length_append] at short
  omega

end Codec.Http
