import Codec.Ctrl.Msg

set_option autoImplicit false

namespace Codec.Ctrl

open Codec.Ems
open Codec.Http (msgIsWeb)
open Codec.Tunnel (htonl ntohl ntohl_htonl)

def TakesRequest (frame : Str) (tag : UInt32) (ctx : Option Context) : Prop :=
  ∀ (input : Buffer) (rest : Str), input.size = 1024 → input.content = (frame ++ rest).take 1024 →
    (ctrlCmdProcess false input).ret = .ok ∧
      (ctrlCmdProcess false input).handled = some (tag, ctx.map (·.text)) ∧
      (ctrlCmdProcess false input).buf.content = input.content.drop frame.length

variable (input : Buffer) (tag : UInt32) (ctx : Option Context)

theorem tag_back (rest : Str) : UInt32.ofNat (ntohl (htonl tag.toNat ++ rest)) = tag := by
  have small := tag.toNat_lt
  rw [ntohl_htonl, Nat.mod_eq_of_lt small, UInt32.ofNat_toNat]

theorem word_back (word : Nat) (rest : Str) (small : word < 4294967296) : ntohl (htonl word ++ rest) = word := by
  rw [ntohl_htonl, Nat.mod_eq_of_lt small]

theorem web_by_tag (rest : Str) : msgIsWeb (htonl tag.toNat ++ rest) = msgIsWeb (htonl tag.toNat) := by
  have get : Codec.Http.httpGet = [71, 69, 84] := by decide
  have post : Codec.Http.httpPost = [80, 79, 83, 84] := by decide
  simp [msgIsWeb, get, post, htonl, Codec.Tunnel.htons, List.isPrefixOf]

theorem total_small (size : Nat) (ctx : Option Context) (few : size ≤ 12) : total size ctx < 2147483648 := by
  cases ctx with
  | none => exact Nat.lt_of_le_of_lt few (by decide)
  | some ctx =>
    have counts := ctx.counts
    have aligned := align_len ctx.text.length
    simp only [total, intsize]
    omega

theorem header_found (len : Nat) (behind : Str) (small : len < 4294967296)
    (headed : input.content = htonl tag.toNat ++ (htonl len ++ behind)) :
    declaredLen input = len ∧ UInt32.ofNat (ntohl (input.prefetch sizeRequest)) = tag ∧
      msgIsWeb (input.mem.drop input.rd) = msgIsWeb (htonl tag.toNat) := by
  have head : input.prefetch sizeRequest = htonl tag.toNat ++ htonl len := by
    rw [Buffer.prefetch, headed]
    rfl
  have word : (input.prefetch sizeRequest).drop intsize = htonl len ++ [] := by
    rw [head, List.append_nil]
    rfl
  refine ⟨?_, ?_, ?_⟩
  · rw [declaredLen, word, word_back _ _ small]
  · rw [head, tag_back]
  · rw [content_drop, headed, List.append_assoc, web_by_tag]

theorem image_headed : ∃ behind, image (requestHeader tag) sizeRequest ctx =
    htonl tag.toNat ++ (htonl (total sizeRequest ctx) ++ behind) := by
  cases ctx with
  | none => exact ⟨[], by simp only [image, requestHeader, total, List.append_nil]⟩
  | some ctx => exact ⟨htonl ctx.text.length ++ ctx.text, by simp only [image, requestHeader, List.append_assoc]⟩

theorem request_found (pad more : Str) (whole : input.content = image (requestHeader tag) sizeRequest ctx ++ pad ++ more) :
    declaredLen input = total sizeRequest ctx ∧ UInt32.ofNat (ntohl (input.prefetch sizeRequest)) = tag ∧
      msgIsWeb (input.mem.drop input.rd) = msgIsWeb (htonl tag.toNat) := by
  have small := total_small sizeRequest ctx (by decide)
  obtain ⟨behind, headed⟩ := image_headed tag ctx
  apply header_found _ tag _ (behind ++ (pad ++ more)) (by omega)
  rw [whole, headed]
  simp only [List.append_assoc]

theorem context_found (ctx : Context) (pad more : Str)
    (whole : input.content = image (requestHeader tag) sizeRequest (some ctx) ++ pad ++ more) :
    innerLen input = ctx.text.length ∧
      cstr ((input.mem.drop (input.rd + sizeRequest + intsize)).take (innerLen input)) = ctx.text := by
  have small := ctx.counts
  have behind : input.mem.drop (input.rd + sizeRequest) =
      htonl ctx.text.length ++ (ctx.text ++ (pad ++ (more ++ input.mem.drop input.wr))) := by
    rw [← List.drop_drop, content_drop, whole]
    simp only [image, requestHeader, List.append_assoc]
    rfl
  have inner : innerLen input = ctx.text.length := by rw [innerLen, behind, word_back _ _ (by omega)]
  refine ⟨inner, ?_⟩
  have text : input.mem.drop (input.rd + sizeRequest + intsize) =
      ctx.text ++ (pad ++ (more ++ input.mem.drop input.wr)) := by
    rw [← List.drop_drop, behind]
    rfl
  rw [inner, text, List.take_left' rfl, cstr_clean _ ctx.clean]

theorem request_taken (pad : Str) (framed : (image (requestHeader tag) sizeRequest ctx ++ pad).length = total sizeRequest ctx)
    (fits : total sizeRequest ctx < 1024) (other : msgIsWeb (htonl tag.toNat) = false) :
    TakesRequest (image (requestHeader tag) sizeRequest ctx ++ pad) tag ctx := by
  intro input rest size content
  rw [List.take_append, List.take_of_length_le (by omega)] at content
  obtain ⟨declared, named, web⟩ := request_found _ tag ctx pad _ content
  have head : sizeRequest ≤ total sizeRequest ctx := by
    cases ctx with
    | none => exact Nat.le_refl _
    | some ctx =>
      simp only [total]
      omega
  have there : total sizeRequest ctx ≤ input.len := by
    rw [← Buffer.content_length, content, List.length_append]
    omega
  have taken : (consume _ _).content = input.content.drop _ := consume_content _ _ there
  have one : ctrlCmdProcess false input = ctrlCmdProcessOne input tag (total sizeRequest ctx) := by
    rw [ctrlCmdProcess, if_neg (Bool.false_ne_true), web, other, if_neg (Bool.false_ne_true), if_neg (by omega), declared,
      named, if_neg (by omega), if_neg (by omega)]
  rw [one, framed, ← taken]
  cases ctx with
  | none =>
    rw [ctrlCmdProcessOne, if_neg (by decide)]
    exact ⟨rfl, rfl, rfl⟩
  | some ctx =>
    obtain ⟨inner, text⟩ := context_found _ tag ctx pad _ content
    have aligned := align_len ctx.text.length
    have long : sizeRequest + intsize ≤ total _ (some ctx) := Nat.le_add_right _ _
    have inside : ¬ total sizeRequest (some ctx) < innerLen input := by
      rw [inner]
      simp only [total]
      omega
    rw [ctrlCmdProcessOne, if_pos long, if_neg inside]
    rw [text]
    exact ⟨rfl, rfl, rfl⟩

def loaded (bytes : Str) : Buffer where
  mem := bytes ++ List.replicate (1024 - bytes.length) 0
  rd := 0
  wr := bytes.length
  ordered := Nat.zero_le _
  bounded := by simp

theorem loaded_spec (bytes : Str) (fits : bytes.length ≤ 1024) :
    (loaded bytes).size = 1024 ∧ (loaded bytes).content = bytes := by
  constructor
  · simp only [loaded, Buffer.size, List.length_append, List.length_replicate]
    omega
  · simp [loaded, Buffer.content]

theorem web_not_handled (web : msgIsWeb (input.mem.drop input.rd) = true) : (ctrlCmdProcess false input).handled = none := by
  rw [ctrlCmdProcess, if_neg (Bool.false_ne_true), if_pos web]

theorem request_refused (pad : Str) (framed : (image (requestHeader tag) sizeRequest ctx ++ pad).length = total sizeRequest ctx)
    (bad : 1024 ≤ total sizeRequest ctx ∨ msgIsWeb (htonl tag.toNat) = true) :
    ¬ TakesRequest (image (requestHeader tag) sizeRequest ctx ++ pad) tag ctx := by
  intro takes
  have small := total_small sizeRequest ctx (by decide)
  obtain ⟨behind, headed⟩ := image_headed tag ctx
  obtain ⟨size, content⟩ := loaded_spec _
    (List.length_take_le _ _)
  have handled := (takes _ [] size (by rw [content, List.append_nil])).2.1
  have front : (image (requestHeader tag) sizeRequest ctx ++ pad).take 1024 =
      htonl tag.toNat ++ (htonl (total sizeRequest ctx) ++ (behind ++ pad).take 1016) := by
    rw [headed]
    rfl
  obtain ⟨declared, _, web⟩ := header_found _ tag _ _ (by omega) (content.trans front)
  have none : (ctrlCmdProcess false (loaded ((image (requestHeader tag) sizeRequest ctx ++ pad).take 1024))).handled = none := by
    by_cases same : msgIsWeb (htonl tag.toNat) = true
    · exact web_not_handled _ (web.trans same)
    · have long := bad.resolve_right same
      have len : (loaded ((image (requestHeader tag) sizeRequest ctx ++ pad).take 1024)).len = 1024 := by
        rw [← Buffer.content_length, content, List.length_take]
        omega
      rw [ctrlCmdProcess, if_neg (Bool.false_ne_true), web, if_neg same, if_neg (by rw [len]; decide), if_pos (by omega)]
  rw [none] at handled
  cases handled

theorem nothing_taken : ¬ TakesRequest [] tag ctx := by
  intro takes
  have none : (ctrlCmdProcess false (Buffer.init 1024)).handled = none := by decide +kernel
  have handled := (takes (Buffer.init 1024) [] List.length_replicate (Buffer.content_init 1024)).2.1
  rw [none] at handled
  cases handled

end Codec.Ctrl
