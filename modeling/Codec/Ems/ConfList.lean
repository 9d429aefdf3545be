import Codec.Ems.Conf
import Mathlib.Data.List.Perm.Subperm

set_option autoImplicit false

namespace Codec.Ems

open Codec.Lib List

def elementKey (key : Str) (i : Nat) : Str := key ++ 46 :: digitText i

def Foreign (key other : Str) : Prop := other ≠ key ∧ ∀ i, other ≠ elementKey key i

def NamesApart (key : Str) (count : Nat) : Prop := count ≤ 1 ∨ key.length + 1 + (digitText (count - 1)).length ≤ 127

section Names

variable (key : Str)

theorem list_name_whole (i : Nat) (fits : key.length + 1 + (digitText i).length ≤ 127) : listName key i = elementKey key i := by
  rw [listName, take_of_length_le]
  · rfl
  · rw [length_append, length_cons]
    omega

theorem element_key_injective (i j : Nat) (same : elementKey key i = elementKey key j) : i = j :=
  digit_text_injective i j (cons.inj (append_cancel_left same)).2

theorem list_name_cut (i : Nat) (room : key.length ≤ 126) : listName key i = key ++ 46 :: (digitText i).take (126 - key.length) := by
  rw [listName, take_append, take_of_length_le (by omega), show 127 - key.length = 126 - key.length + 1 by omega]
  rfl

theorem list_name_long (i j : Nat) (long : 126 ≤ key.length) : listName key i = listName key j := by
  rw [listName, listName, take_append, take_append]
  have room : 127 - key.length = 0 ∨ 127 - key.length = 1 := by omega
  rcases room with none | one
  · rw [none]
    rfl
  · rw [one]
    rfl

theorem names_clash (count : Nat) (clash : ¬ NamesApart key count) : ∃ i j, i < j ∧ j < count ∧ listName key i = listName key j := by
  rw [NamesApart, not_or, Nat.not_le, Nat.not_le] at clash
  obtain ⟨many, long⟩ := clash
  by_cases wide : 126 ≤ key.length
  · exact ⟨0, 1, by omega, many, list_name_long key 0 1 wide⟩
  · have cut := digit_text_cut (count - 1) ((digitText (count - 1)).length - (126 - key.length)) (by omega)
    rw [show (digitText _).length - ((digitText _).length - (126 - key.length)) = 126 - key.length by omega] at cut
    have smaller : (count - 1) / 10 ^ ((digitText (count - 1)).length - (126 - key.length)) < count - 1 :=
      Nat.div_lt_self (by omega) (Nat.one_lt_pow (by omega) (by decide))
    refine ⟨_, count - 1, smaller, by omega, ?_⟩
    rw [list_name_cut key _ (by omega), list_name_cut key _ (by omega), cut, take_take, Nat.min_self]

theorem names_apart (count i j : Nat) (apart : NamesApart key count) (below : i < count) (other : j < count)
    (same : listName key i = listName key j) : i = j := by
  rcases apart with single | fits
  · omega
  · have one := digit_text_short i (count - 1) (by omega)
    have two := digit_text_short j (count - 1) (by omega)
    rw [list_name_whole key i (by omega), list_name_whole key j (by omega)] at same
    exact element_key_injective key i j same

theorem alike_prefix (left right : Str) (near : left <+: right ∨ right <+: left) : alike left right = true := by
  rw [alike]
  apply decide_eq_true
  rcases near with front | front
  · rw [if_pos front.length_le, take_length]
    exact (prefix_iff_eq_take.mp front).symm
  · by_cases short : left.length ≤ right.length
    · rw [if_pos short, front.eq_of_length_le short]
    · rw [if_neg short, take_length]
      exact prefix_iff_eq_take.mp front

theorem alike_name (i : Nat) : alike key (listName key i) = true := by
  apply alike_prefix
  have whole : key <+: elementKey key i := prefix_append _ _
  exact prefix_or_prefix_of_prefix whole (List.take_prefix _ _)

end Names

def listEntries (key : Str) : Nat → List Str → List (Str × Str)
  | _, [] => []
  | i, text :: rest => (listName key i, text) :: listEntries key (i + 1) rest

section Entries

variable (cfg : Config) (key : Str)

theorem list_entries_names (i : Nat) (texts : List Str) :
    (listEntries key i texts).map Prod.fst = (List.range' i texts.length).map (listName key) := by
  induction texts generalizing i with
  | nil => rfl
  | cons text rest ih =>
    rw [listEntries, map_cons, ih]
    rfl

theorem list_entries_texts (i : Nat) (texts : List Str) : (listEntries key i texts).map Prod.snd = texts := by
  induction texts generalizing i with
  | nil => rfl
  | cons text rest ih => rw [listEntries, map_cons, ih]

theorem list_entries_alike (texts : List Str) (entry : Str × Str) (there : entry ∈ listEntries key 0 texts) :
    ∃ i < texts.length, entry.1 = listName key i := by
  have named := mem_map_of_mem (f := Prod.fst) there
  rw [list_entries_names] at named
  obtain ⟨i, below, same⟩ := mem_map.mp named
  rw [mem_range'_1] at below
  exact ⟨i, by omega, same.symm⟩

theorem set_json_loop_entries (i : Nat) (texts : List Str) (filled : ∀ text ∈ texts, text ≠ []) :
    (setJsonLoop key i (texts.map some) cfg).entries =
      (listEntries key i texts).foldl (fun entries pair => putEntry pair.1 pair.2 entries) cfg.entries := by
  induction texts generalizing i cfg with
  | nil => rfl
  | cons text rest ih =>
    rw [map_cons, setJsonLoop, ih _ _ fun other there => filled _ (mem_cons_of_mem _ there),
      cfg_set_entries _ _ _ (filled text mem_cons_self)]
    rfl

theorem select_values (entries : List (Str × Str)) (ary : List Str) :
    selectLoop key cfgGetJsonCb entries ary = (0, ary ++ (entries.filter fun kv => alike key kv.1).map Prod.snd) := by
  induction entries generalizing ary with
  | nil => rw [selectLoop, filter_nil, map_nil, append_nil]
  | cons kv rest ih =>
    rw [selectLoop, filter_cons]
    by_cases near : alike key kv.1 = true
    · rw [if_pos near, if_pos near, cfgGetJsonCb]
      simp only [ih, map_cons, append_assoc, singleton_append]
    · rw [if_neg near, if_neg near, ih]

theorem get_json_values : cfgGetJson cfg key = (cfg.entries.filter fun kv => alike key kv.1).map Prod.snd := by
  rw [cfgGetJson, cfgSelect, select_values, nil_append]

theorem del_json_get (other : Str) : cfgGet (cfgDelJson cfg key) other = if alike key other then none else cfgGet cfg other := by
  have kept := lookup_filter (fun name => !alike key name) cfg.entries other
  rw [cfgGet, cfgDelJson, kept, cfgGet]
  cases alike key _ <;> rfl

variable (texts : List Str) (filled : ∀ text ∈ texts, text ≠ [])

include filled

theorem set_json_entries (apart : NamesApart key texts.length) :
    (cfgSetJson cfg key (some (texts.map some))).entries = (cfgDelJson cfg key).entries ++ listEntries key 0 texts := by
  rw [cfgSetJson, set_json_loop_entries _ key 0 _ filled, put_all]
  rw [map_append, nodup_append]
  refine ⟨(cfgDelJson cfg key).distinct, ?_, ?_⟩
  · rw [list_entries_names]
    refine Nodup.map_on ?_ (nodup_range' ..)
    intro i inside j other same
    rw [mem_range'_1] at inside other
    exact names_apart key _ i j apart (by omega) (by omega) same
  · intro left here right there same
    obtain ⟨entry, inside, named⟩ := mem_map.mp here
    obtain ⟨new, listed, other⟩ := mem_map.mp there
    have far : (!alike key _) = true := (mem_filter.mp inside).2
    obtain ⟨i, _, name⟩ := list_entries_alike key _ new listed
    rw [named, same, ← other, name, alike_name] at far
    cases far

theorem set_json_get (apart : NamesApart key texts.length) (other : Str) :
    cfgGet (cfgSetJson cfg key (some (texts.map some))) other =
      if alike key other then (listEntries key 0 texts).lookup other else cfgGet cfg other := by
  have kept := del_json_get cfg key other
  rw [cfgGet] at kept
  rw [cfgGet, set_json_entries cfg key _ filled apart, lookup_append, kept]
  by_cases near : alike key other = true
  · rw [if_pos near, if_pos near, Option.none_or]
  · have absent : (listEntries key 0 texts).lookup other = none := by
      rw [lookup_absent]
      intro there
      obtain ⟨entry, listed, same⟩ := mem_map.mp there
      obtain ⟨i, _, name⟩ := list_entries_alike key _ _ listed
      exact near (by rw [← same, name, alike_name])
    rw [if_neg near, if_neg near, absent, Option.or_none]

theorem get_json_apart (restored : cfgGetJson (cfgSetJson cfg key (some (texts.map some))) key = texts) :
    NamesApart key texts.length := by
  by_contra clash
  obtain ⟨i, j, before, below, same⟩ := names_clash key _ clash
  rw [get_json_values] at restored
  have names : ((cfgSetJson cfg key (some (texts.map some))).entries.filter fun kv => alike key kv.1).map Prod.fst ⊆
      ((range texts.length).erase j).map (listName key) := by
    intro name there
    obtain ⟨entry, inside, named⟩ := mem_map.mp there
    obtain ⟨stored, near⟩ := mem_filter.mp inside
    rw [cfgSetJson, set_json_loop_entries _ key 0 _ filled] at stored
    rw [← named]
    rcases puts_mem _ _ _ stored with old | new
    · have far : (!alike key _) = true := (mem_filter.mp old).2
      rw [near] at far
      cases far
    · obtain ⟨k, listed, name⟩ := list_entries_alike key _ _ new
      rw [name]
      by_cases last : k = j
      · rw [last, ← same]
        exact mem_map_of_mem ((mem_erase_of_ne (by omega)).mpr (mem_range.mpr (by omega)))
      · exact mem_map_of_mem ((mem_erase_of_ne last).mpr (mem_range.mpr listed))
  have distinct := (cfgSetJson cfg key (some (texts.map some))).distinct
  have size := (subperm_of_subset ((filter_sublist.map _).nodup distinct) names).length_le
  have all := congrArg length restored
  rw [length_map] at all
  rw [length_map, all, length_map, length_erase_of_mem (mem_range.mpr below), length_range] at size
  omega

theorem list_entries_foreign (apart : NamesApart key texts.length) (other : Str) (foreign : Foreign key other) :
    (listEntries key 0 texts).lookup other = if other = listName key 0 then texts.head? else none := by
  match texts with
  | [] => rw [head?_nil, ite_self]; rfl
  | [text] => rw [listEntries, lookup_entry]; rfl
  | first :: second :: rest =>
    rcases apart with few | fits
    · exact absurd few (by simp)
    · have whole (i : Nat) (below : i < (first :: second :: rest).length) : other ≠ listName key i := by
        have short := digit_text_short i ((first :: second :: rest).length - 1) (by omega)
        rw [list_name_whole key i (by omega)]
        exact foreign.2 i
      rw [if_neg (whole 0 (by simp)), lookup_absent]
      intro there
      obtain ⟨entry, listed, same⟩ := mem_map.mp there
      obtain ⟨i, below, name⟩ := list_entries_alike key _ _ listed
      exact whole i below (by rw [← same, name])

end Entries

structure ListKept (cfg : Config) (key : Str) (texts : List Str) : Prop where
  restored : cfgGetJson (cfgSetJson cfg key (some (texts.map some))) key = texts
  spared : ∀ other, Foreign key other → cfgGet (cfgSetJson cfg key (some (texts.map some))) other = cfgGet cfg other
  removed : ∀ i < texts.length, cfgGet (cfgDelJson (cfgSetJson cfg key (some (texts.map some))) key) (listName key i) = none
  left : ∀ other, (∀ i < texts.length, other ≠ listName key i) →
    cfgGet (cfgDelJson (cfgSetJson cfg key (some (texts.map some))) key) other =
      cfgGet (cfgSetJson cfg key (some (texts.map some))) other

theorem list_kept_iff (cfg : Config) (key : Str) (texts : List Str) (filled : ∀ text ∈ texts, text ≠ []) :
    ListKept cfg key texts ↔ NamesApart key texts.length ∧ ∀ other, Foreign key other → alike key other = true →
          cfgGet cfg other = if other = listName key 0 then texts.head? else none := by
  constructor
  · intro kept
    have apart := get_json_apart cfg key _ filled kept.restored
    refine ⟨apart, fun other foreign near => ?_⟩
    rw [← kept.spared _ foreign, set_json_get cfg key _ filled apart, if_pos near,
      list_entries_foreign key _ filled apart _ foreign]
  · rintro ⟨apart, free⟩
    constructor
    · have near : (listEntries key 0 _).filter (fun kv => alike key kv.1) = listEntries key 0 _ :=
        filter_eq_self.mpr fun entry there => by
          obtain ⟨i, _, name⟩ := list_entries_alike key texts _ there
          rw [name, alike_name]
      have far : (cfgDelJson cfg key).entries.filter (fun kv => alike key kv.1) = [] := by
        rw [filter_eq_nil_iff]
        intro entry there near
        have apart : (!alike key _) = true := (mem_filter.mp there).2
        rw [near] at apart
        cases apart
      rw [get_json_values, set_json_entries cfg key _ filled apart, filter_append, far, near, nil_append,
        list_entries_texts]
    · intro other foreign
      rw [set_json_get cfg key _ filled apart]
      by_cases near : alike key other = true
      · rw [if_pos near, list_entries_foreign key _ filled apart _ foreign, free _ foreign near]
      · rw [if_neg near]
    · intro i _
      rw [del_json_get, if_pos (alike_name key i)]
    · intro other apartNames
      rw [del_json_get]
      by_cases near : alike key other = true
      · rw [if_pos near, set_json_get cfg key _ filled apart, if_pos near, eq_comm, lookup_absent]
        intro there
        obtain ⟨entry, listed, same⟩ := mem_map.mp there
        obtain ⟨i, below, name⟩ := list_entries_alike key _ _ listed
        exact apartNames i below (by rw [← same, name])
      · rw [if_neg near]

theorem list_kept_iff_sample :
    ListKept (cfgSet Config.empty (ascii "user.ip") (ascii "x")) (ascii "user.mac") [ascii "00:11", ascii "00:22"] ↔
      NamesApart (ascii "user.mac") 2 ∧ ∀ other, Foreign (ascii "user.mac") other → alike (ascii "user.mac") other = true →
          cfgGet (cfgSet Config.empty (ascii "user.ip") (ascii "x")) other =
            if other = listName (ascii "user.mac") 0 then some (ascii "00:11") else none :=
  list_kept_iff _ _ _ (by decide)

-- The key "user" is a prefix of "user.mac".
theorem prefix_key_removed :
    ¬ ∀ (cfg : Config) (key : Str) (texts : List Str), (∀ text ∈ texts, text ≠ []) → ListKept cfg key texts := by
  intro claim
  have kept := claim (cfgSet Config.empty (ascii "user") (ascii "root")) (ascii "user.mac") [ascii "00:11"] (by decide)
  have foreign : Foreign (ascii "user.mac") (ascii "user") := by
    refine ⟨by decide, fun i same => ?_⟩
    have size := congrArg length same
    rw [elementKey, length_append] at size
    have short : (ascii "user").length < (ascii "user.mac").length := by decide
    omega
  have spared := kept.spared _ foreign
  have lost : cfgGet (cfgSetJson (cfgSet Config.empty (ascii "user") (ascii "root")) (ascii "user.mac") (some [some (ascii "00:11")]))
      (ascii "user") = none := by decide +kernel
  have before : cfgGet (cfgSet Config.empty (ascii "user") (ascii "root")) (ascii "user") = some (ascii "root") := by decide +kernel
  rw [before] at spared
  exact absurd (spared.symm.trans lost) (Option.some_ne_none _)

end Codec.Ems
