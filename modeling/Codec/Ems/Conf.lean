import Codec.Ems.Text
import Codec.Lib.Assoc
import Codec.Lib.Decimal

set_option autoImplicit false

namespace Codec.Ems

open Codec.Lib

-- ems_cfg: what kv_entry holds, in the order of the queue. cfg_set keeps the
-- keys apart and leaves no value empty.
@[ext] structure Config where
  entries : List (Str × Str)
  distinct : (entries.map Prod.fst).Nodup
  valued : ∀ entry ∈ entries, entry.2 ≠ []

namespace Config

def empty : Config := ⟨[], List.nodup_nil, fun _ inside => nomatch inside⟩

theorem drop_valued (cfg : Config) (k : Str) (entry : Str × Str) (there : entry ∈ dropEntry k cfg.entries) : entry.2 ≠ [] :=
  cfg.valued _ ((List.eraseP_sublist).subset there)

theorem put_valued (cfg : Config) (k v : Str) (filled : v ≠ []) (entry : Str × Str) (there : entry ∈ putEntry k v cfg.entries) :
    entry.2 ≠ [] := by
  rcases put_mem k v _ _ there with new | old
  · rw [new]
    exact filled
  · exact cfg.valued _ old

end Config

variable (cfg : Config) (key : Str)

def cfgGet : Option Str := cfg.entries.lookup key

-- A NULL value is an empty one.
def cfgSet (k v : Str) : Config :=
  if filled : v ≠ [] then ⟨putEntry k v cfg.entries, put_distinct k v _ cfg.distinct, cfg.put_valued k v filled⟩
  else ⟨dropEntry k cfg.entries, drop_distinct k _ cfg.distinct, cfg.drop_valued k⟩

theorem cfg_set_get (k v : Str) (filled : v ≠ []) (key : Str) :
    cfgGet (cfgSet cfg k v) key = if key = k then some v else cfgGet cfg key := by
  rw [cfgSet, dif_pos filled]
  exact lookup_put k v _ key

theorem cfg_set_entries (k v : Str) (filled : v ≠ []) : (cfgSet cfg k v).entries = putEntry k v cfg.entries := by
  rw [cfgSet, dif_pos filled]

theorem cfg_get_mem (key value : Str) : cfgGet cfg key = some value ↔ (key, value) ∈ cfg.entries :=
  lookup_mem _ cfg.distinct key _

section File

-- The bytes that ems_trim takes off.
def blank (byte : UInt8) : Bool := byte = 32 || byte = 9 || byte = 10 || byte = 13

def trimLoop : Nat → Str → Str
  | fuel + 1, first :: second :: rest =>
    if blank first then trimLoop fuel (second :: rest)
    else if blank ((second :: rest).getLast (List.cons_ne_nil _ _)) then trimLoop fuel (first :: (second :: rest).dropLast)
    else first :: second :: rest
  | _, text => text

-- The loop ends before it has looked at a last single byte; only a blank is
-- taken off behind it.
def emsTrim (src : Str) : Str :=
  let kept := trimLoop src.length src
  if kept = [32] then [] else kept

def fgets : Nat → Str → Str × Str
  | room + 1, byte :: rest =>
    if byte = 10 then ([byte], rest) else ((byte :: (fgets room rest).1), (fgets room rest).2)
  | _, file => ([], file)

def cfgParseLine (buf : Str) : Config :=
  match buf.span (· ≠ 61) with
  | (_, []) => cfg
  | (left, _ :: right) =>
    let k := emsTrim left
    let v := emsTrim right
    if k = [] ∨ v = [] then cfg else cfgSet cfg k v

-- fgets gets sizeof(buf) - 1, so a line has 1022 bytes at most.
def cfgReadLoop : Nat → Str → Config → Config
  | 0, _, cfg => cfg
  | fuel + 1, file, cfg =>
    if file = [] then cfg
    else
      let buf := emsTrim (cstr (fgets 1022 file).1)
      cfgReadLoop fuel (fgets 1022 file).2 (if buf = [] then cfg else cfgParseLine cfg buf)

def cfgRead (file : Option Str) (cfg : Config) : Int × Config :=
  match file with
  | none => (-1, cfg)
  | some text => (0, cfgReadLoop text.length text cfg)

def cfgLine (entry : Str × Str) : Str :=
  if entry.1 = [] ∨ entry.2 = [] then [] else (entry.1 ++ 61 :: entry.2 ++ [10]).take 1023

def cfgWrite : Str := cfg.entries.flatMap cfgLine

def cfgFlush (file : Option Str) (_ : Config) : Int × Config := cfgRead file Config.empty

end File

section Lists

-- strncmp over the shorter of the two.
def alike (like key : Str) : Bool :=
  let n := if like.length ≤ key.length then like.length else key.length
  key.take n = like.take n

def selectLoop {σ : Type} (like : Str) (cb : σ → Str → Str → Int × σ) : List (Str × Str) → σ → Int × σ
  | [], arg => (0, arg)
  | kv :: rest, arg =>
    if alike like kv.1 then
      match cb arg kv.1 kv.2 with
      | (0, arg) => selectLoop like cb rest arg
      | (rtn, arg) => (rtn, arg)
    else selectLoop like cb rest arg

def cfgSelect {σ : Type} (cfg : Config) (like : Str) (arg : σ) (cb : σ → Str → Str → Int × σ) : Int × σ :=
  selectLoop like cb cfg.entries arg

def cfgDelJson (like : Str) : Config where
  entries := cfg.entries.filter fun kv => !alike like kv.1
  distinct := List.Nodup.sublist (List.filter_sublist.map _) cfg.distinct
  valued := fun entry inside => cfg.valued entry (List.mem_filter.mp inside).1

-- snprintf(buf, 128, "%s.%d", key, i)
def listName (i : Nat) : Str := (key ++ 46 :: digitText i).take 127

def setJsonLoop (key : Str) : Nat → List (Option Str) → Config → Config
  | _, [], cfg => cfg
  | i, none :: rest, cfg => setJsonLoop key (i + 1) rest cfg
  | i, some text :: rest, cfg => setJsonLoop key (i + 1) rest (cfgSet cfg (listName key i) text)

-- An element of the array that is not a string is none.
def cfgSetJson (rules : Option (List (Option Str))) : Config :=
  match rules with
  | none => cfgDelJson cfg key
  | some array => setJsonLoop key 0 array (cfgDelJson cfg key)

def cfgGetJsonCb (ary : List Str) (_ val : Str) : Int × List Str := (0, ary ++ [val])

def cfgGetJson : List Str := (cfgSelect cfg key [] cfgGetJsonCb).2

end Lists

end Codec.Ems
