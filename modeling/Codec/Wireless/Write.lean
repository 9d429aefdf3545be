import Codec.Wireless.Update

set_option autoImplicit false

namespace Codec.Wireless

open Codec.Ems Codec.Lib List

section Names

variable (uci : LibUci)

structure Known (file : List UciSection) : Prop where
  distinct : (file.filterMap UciSection.declared).Nodup
  proper : ∀ s ∈ file, ∀ name, s.declared = some name →
    name ≠ [] ∧ name.length ≤ 502 ∧ ∀ n type options, name ≠ uci.generated n type options

def Belongs (count : Nat) (name : Str) (s : UciSection) : Prop :=
  match s.declared with
  | some declared => name = declared
  | none => ∃ type options, name = uci.generated (count + 1) type options

def BelongAll : Nat → Package → Prop
  | _, [] => True
  | count, (name, s) :: rest => Belongs uci count name s ∧ BelongAll (count + anonymous [s]) rest

theorem anonymous_append (before after : List UciSection) : anonymous (before ++ after) = anonymous before + anonymous after :=
  countP_append

variable (count : Nat) (s : UciSection) (file : List UciSection)

theorem anonymous_cons (rest : List UciSection) : anonymous (s :: rest) = anonymous [s] + anonymous rest :=
  anonymous_append [s] rest

theorem anonymous_one : anonymous [s] = if s.declared = none then 1 else 0 := by
  rw [anonymous, countP_singleton]
  cases s.declared <;> rfl

theorem anonymous_small : anonymous file ≤ file.length := countP_le_length

theorem load_append (before after : List UciSection) :
    uciLoadFrom uci count (before ++ after) = uciLoadFrom uci count before ++ uciLoadFrom uci (count + anonymous before) after := by
  induction before generalizing count with
  | nil => rfl
  | cons s rest ih =>
    rw [cons_append, uciLoadFrom, uciLoadFrom, ih, anonymous_cons s rest, Nat.add_assoc]
    rfl

theorem load_sections : (uciLoadFrom uci count file).map Prod.snd = file := by
  induction file generalizing count with
  | nil => rfl
  | cons s rest ih => rw [uciLoadFrom, map_cons, ih]

theorem load_length : (uciLoadFrom uci count file).length = file.length := by
  have same := congrArg length (load_sections uci count file)
  rwa [length_map] at same

theorem name_belongs : Belongs uci count (sectionName uci count s) s := by
  rw [Belongs, sectionName]
  cases s.declared with
  | none => exact ⟨_, _, rfl⟩
  | some declared => exact rfl

theorem load_belongs : BelongAll uci count (uciLoadFrom uci count file) := by
  induction file generalizing count with
  | nil => trivial
  | cons s rest ih => exact ⟨name_belongs uci _ s, ih _⟩

theorem belong_append (before after : Package) : BelongAll uci count (before ++ after) ↔
      BelongAll uci count before ∧ BelongAll uci (count + anonymous (before.map Prod.snd)) after := by
  induction before generalizing count with
  | nil => exact (and_iff_right trivial).symm
  | cons entry rest ih =>
    obtain ⟨name, s⟩ := entry
    rw [cons_append, BelongAll, BelongAll, ih, map_cons, anonymous_cons s (rest.map _), Nat.add_assoc, and_assoc]

variable {uci}

theorem belongs_named (known : Known uci file) (count : Nat) (name : Str) (s : UciSection) (there : s ∈ file)
    (belongs : Belongs uci count name s) : name ≠ [] ∧ name.length ≤ 502 := by
  rw [Belongs] at belongs
  split at belongs
  · rename_i declared found
    have own := known.proper s there _ found
    exact belongs ▸ ⟨own.1, own.2.1⟩
  · obtain ⟨type, options, rfl⟩ := belongs
    exact ⟨uci.proper _ _ _, (uci.short _ _ _).trans (by decide)⟩

theorem belongs_apart (known : Known uci file) (first second : UciSection) (here : first ∈ file) (there : second ∈ file)
    (m n : Nat) (left right : Str) (one : Belongs uci m left first) (two : Belongs uci n right second)
    (counts : first.declared = none → second.declared = none → m ≠ n ∧ m + 1 < 2 ^ 31 ∧ n + 1 < 2 ^ 31)
    (names : ∀ name, first.declared = some name → second.declared ≠ some name) : left ≠ right := by
  rw [Belongs] at one two
  cases declared : first.declared with
  | some name =>
    rw [declared] at one
    cases other : second.declared with
    | some second_ =>
      rw [other] at two
      intro same
      refine names name declared ?_
      rw [other, ← two, ← same, one]
    | none =>
      rw [other] at two
      obtain ⟨type, options, made⟩ := two
      rw [made, one]
      exact (known.proper _ here name declared).2.2 _ _ _
  | none =>
    rw [declared] at one
    obtain ⟨type, options, made⟩ := one
    cases other : second.declared with
    | some second_ =>
      rw [other] at two
      rw [made, two]
      exact ((known.proper _ there _ other).2.2 _ _ _).symm
    | none =>
      rw [other] at two
      obtain ⟨more, left_, made_⟩ := two
      obtain ⟨apart, small, below⟩ := counts declared other
      rw [made, made_]
      exact fun same => apart (Nat.succ.inj (uci.numbered _ _ _ _ _ _ small below same))

theorem belongs_absent (known : Known uci file) (s : UciSection) (here : s ∈ file) (count from_ : Nat) (name : Str)
    (belongs : Belongs uci count name s) (pkg : Package) (all : BelongAll uci from_ pkg) (inside : ∀ entry ∈ pkg, entry.2 ∈ file)
    (counts : from_ + anonymous (pkg.map Prod.snd) ≤ count ∨ count + anonymous [s] ≤ from_)
    (small : count + 1 < 2 ^ 31) (bound : from_ + pkg.length < 2 ^ 31)
    (names : ∀ entry ∈ pkg, ∀ declared, s.declared = some declared → entry.2.declared ≠ some declared) : name ∉ pkg.map Prod.fst := by
  induction pkg generalizing from_ with
  | nil => exact not_mem_nil
  | cons entry rest ih =>
    obtain ⟨other, t⟩ := entry
    obtain ⟨first, later⟩ := all
    rw [map_cons, anonymous_cons t _] at counts
    rw [length_cons] at bound
    have one := anonymous_one t
    rw [map_cons, mem_cons, not_or]
    constructor
    · refine belongs_apart file known s t here (inside _ mem_cons_self) _ _ name _ belongs first ?_
        (names _ mem_cons_self)
      intro plain none_there
      rw [if_pos none_there] at one
      have own := anonymous_one s
      rw [if_pos plain] at own
      omega
    · refine ih _ later (fun entry there => inside _ (mem_cons_of_mem _ there)) ?_ ?_
        (fun entry there => names _ (mem_cons_of_mem _ there))
      · omega
      · split at one <;> omega

end Names

section Apart

variable {uci : LibUci} (before after : List UciSection) (s : UciSection) (known : Known uci (before ++ s :: after))

include known

theorem known_apart : (∀ t ∈ before, ∀ name, s.declared = some name → t.declared ≠ some name) ∧
    ∀ t ∈ after, ∀ name, s.declared = some name → t.declared ≠ some name := by
  have distinct := known.distinct
  rw [filterMap_append, nodup_append] at distinct
  constructor
  · intro t there name own same
    have left : name ∈ before.filterMap _ := mem_filterMap.mpr ⟨t, there, same⟩
    have right : name ∈ (s :: after).filterMap _ := mem_filterMap.mpr ⟨s, mem_cons_self, own⟩
    exact distinct.2.2 name left name right rfl
  · intro t there name own same
    have tail := distinct.2.1
    rw [filterMap_cons, own] at tail
    exact (nodup_cons.mp tail).1 (mem_filterMap.mpr ⟨t, there, same⟩)

end Apart

section Package

variable {uci : LibUci} (pkg : Package) (known : Known uci (pkg.map Prod.snd)) (small : pkg.length + 1 < 2 ^ 31)
  (all : BelongAll uci 0 pkg)

include known small all

theorem package_split (before after : Package) (name : Str) (s : UciSection) (split_ : pkg = before ++ (name, s) :: after) :
    name ∉ before.map Prod.fst ∧ name ∉ after.map Prod.fst ∧ name ≠ [] := by
  subst split_
  have here : s ∈ (before ++ (name, s) :: after).map Prod.snd := by simp
  rw [length_append, length_cons] at small
  have few := anonymous_small (before.map Prod.snd)
  rw [length_map] at few
  have parts := (belong_append uci 0 _ _).mp all
  rw [BelongAll, Nat.zero_add] at parts
  obtain ⟨front, belongs, back⟩ := parts
  have apart := known
  rw [map_append, map_cons] at apart
  obtain ⟨left, right⟩ := known_apart _ _ s apart
  have one := anonymous_one s
  refine ⟨?_, ?_, (belongs_named _ known _ name s here belongs).1⟩
  · refine belongs_absent _ known s here _ 0 name belongs _ front ?_ (.inl (by omega)) (by omega)
      (by omega) fun entry there => left _ (mem_map_of_mem there)
    intro entry there
    exact mem_map_of_mem (mem_append_left _ there)
  · refine belongs_absent _ known s here _ _ name belongs _ back ?_ (.inr (Nat.le_refl _)) (by omega)
      (by split at one <;> omega) fun entry there => right _ (mem_map_of_mem there)
    intro entry there
    exact mem_map_of_mem (mem_append_right _ (mem_cons_of_mem _ there))

end Package

section Written

variable (uci : LibUci) (room : Nat)

def Fits (obj : Json) : Prop :=
  ∀ key value, key ∉ reserved → (key, some value) ∈ obj → uci.accepts key value = true ∧
    uciCfgWireless.length + max (jsonText obj uciSectionName).length 15 + key.length + value.length + 3 < room

theorem set_at (before after : Package) (name key value : Str) (s : UciSection) (absent : name ∉ before.map Prod.fst) :
    uciSet (before ++ (name, s) :: after) name key value =
      before ++ (name, { s with options := setOption s.options key value }) :: after := by
  induction before with
  | nil => rw [nil_append, uciSet, if_pos rfl, nil_append]
  | cons entry rest ih =>
    rw [map_cons, mem_cons, not_or] at absent
    rw [cons_append, uciSet, if_neg (Ne.symm absent.1), ih absent.2, cons_append]

theorem options_written (name : Str) (obj : Json) (before after : Package) (s : UciSection) (absent : name ∉ before.map Prod.fst)
    (fits : ∀ key value, key ∉ reserved → (key, some value) ∈ obj →
      uci.accepts key value = true ∧ (uciTuple name key value).length < room) :
    emsUciUpdateSectionOption uci room name obj (before ++ (name, s) :: after) =
      before ++ (name, { s with options := writeOptions obj s.options }) :: after := by
  induction obj generalizing s with
  | nil => rfl
  | cons entry rest ih =>
    have later (key value : Str) (free : key ∉ reserved) (there : (key, some _) ∈ rest) :=
      fits key value free (mem_cons_of_mem _ there)
    obtain ⟨key, value⟩ := entry
    cases value with
    | none => exact ih s later
    | some value =>
      rw [emsUciUpdateSectionOption, writeOptions]
      by_cases own : key ∈ reserved
      · have kept : key = uciSectionName ∨ key = uciSectionType := by
          rwa [reserved, mem_cons, mem_singleton] at own
        rw [if_pos kept, if_pos own]
        exact ih s later
      · have kept : ¬ (key = uciSectionName ∨ key = uciSectionType) := by
          rwa [reserved, mem_cons, mem_singleton] at own
        obtain ⟨accepted, short⟩ := fits key _ own mem_cons_self
        rw [if_neg kept, if_neg own, emsUciSetOption, if_pos short, if_pos accepted, set_at _ _ name key _ s absent]
        exact ih _ later

theorem tuple_length (name key value : Str) :
    (uciTuple name key value).length = uciCfgWireless.length + name.length + key.length + value.length + 3 := by
  simp only [uciTuple, length_append, length_cons]
  omega

variable {uci room}

theorem section_written (obj : Json) (name : Str) (before after : Package) (s : UciSection) (absent : name ∉ before.map Prod.fst)
    (filled : name ≠ []) (named : jsonText obj uciSectionName = name) (typed : jsonText obj uciSectionType ≠ []) (fits : Fits uci room obj) :
    emsUciUpdateSection uci room obj (before ++ (name, s) :: after) =
      (obj, before ++ (name, { s with options := writeOptions obj s.options }) :: after) := by
  have written := options_written uci room name obj _ after s absent fun key value own there => by
    obtain ⟨accepted, short⟩ := fits key _ own there
    rw [named] at short
    rw [tuple_length]
    exact ⟨accepted, by omega⟩
  rw [emsUciUpdateSection, if_neg typed, named, if_neg filled]
  dsimp only
  rw [named, if_neg filled, written]

theorem write_loaded (todo before : Package) (change : Str × UciSection → Json) (rest : List Json)
    (distinct : ((before ++ todo).map Prod.fst).Nodup) (filled : ∀ entry ∈ todo, entry.1 ≠ [])
    (named : ∀ entry ∈ todo, jsonText (change entry) uciSectionName = entry.1)
    (typed : ∀ entry ∈ todo, jsonText (change entry) uciSectionType ≠ []) (fits : ∀ entry ∈ todo, Fits uci room (change entry)) :
    emsUciUpdateCfg uci room (todo.map change ++ rest) (before ++ todo) = (todo.map change ++ (emsUciUpdateCfg uci room rest
          (before ++ todo.map fun entry => (entry.1, { entry.2 with options := writeOptions (change entry) entry.2.options }))).1,
        (emsUciUpdateCfg uci room rest
          (before ++ todo.map fun entry => (entry.1, { entry.2 with options := writeOptions (change entry) entry.2.options }))).2) := by
  induction todo generalizing before with
  | nil => simp
  | cons entry later ih =>
    obtain ⟨name, s⟩ := entry
    have absent : name ∉ before.map Prod.fst := by
      rw [map_append, map_cons, nodup_append] at distinct
      exact fun there => distinct.2.2 name there name mem_cons_self rfl
    have first := section_written _ name _ later s absent (filled _ mem_cons_self)
      (named _ mem_cons_self) (typed _ mem_cons_self) (fits _ mem_cons_self)
    have names : ((before ++ [(name, { s with options := writeOptions (change (name, s)) s.options })] ++ later).map Prod.fst).Nodup := by
      rw [append_assoc, map_append, map_append]
      rwa [map_append, map_cons] at distinct
    have next := ih _ names
      (fun entry there => filled _ (mem_cons_of_mem _ there)) (fun entry there => named _ (mem_cons_of_mem _ there))
      (fun entry there => typed _ (mem_cons_of_mem _ there)) fun entry there => fits _ (mem_cons_of_mem _ there)
    rw [append_assoc, append_assoc] at next
    rw [map_cons, cons_append, emsUciUpdateCfg, first]
    rw [singleton_append] at next
    rw [next]
    rfl

end Written

section New

variable {uci : LibUci} {room : Nat}

def appended (uci : LibUci) : Nat → List Json → Package
  | _, [] => []
  | count, obj :: rest =>
    (uci.generated (count + 1) wifiIface [], ⟨none, wifiIface, writeOptions obj []⟩) :: appended uci (count + 1) rest

theorem write_reserved (obj : Json) (key : Str) (value : Option Str) (options : List (Str × UciValue)) (own : key ∈ reserved) :
    writeOptions (obj ++ [(key, value)]) options = writeOptions obj options := by
  induction obj generalizing options with
  | nil =>
    cases value with
    | none => rfl
    | some value => exact if_pos own
  | cons entry rest ih =>
    obtain ⟨first, text⟩ := entry
    cases text with
    | none => exact ih _
    | some text => exact ih _

theorem known_anonymous (file : List UciSection) (known : Known uci file) (s : UciSection) (plain : s.declared = none) :
    Known uci (file ++ [s]) := by
  constructor
  · rw [filterMap_append, filterMap_cons, plain, filterMap_nil, append_nil]
    exact known.distinct
  · intro t there name own
    rcases mem_append.mp there with old | new
    · exact known.proper t old name own
    · rw [mem_singleton.mp new, plain] at own
      exact nomatch own

theorem appended_belong (pkg : Package) (all : BelongAll uci 0 pkg) (news : List Json) :
    BelongAll uci 0 (pkg ++ appended uci (anonymous (pkg.map Prod.snd)) news) := by
  rw [belong_append, Nat.zero_add]
  refine ⟨all, ?_⟩
  generalize anonymous _ = count
  induction news generalizing count with
  | nil => trivial
  | cons obj rest ih => exact ⟨⟨_, _, rfl⟩, ih _⟩

theorem section_new (obj : Json) (pkg : Package) (known : Known uci (pkg.map Prod.snd)) (small : pkg.length + 2 < 2 ^ 31)
    (all : BelongAll uci 0 pkg) (plain : obj.lookup uciSectionName = none) (typed : jsonText obj uciSectionType = wifiIface)
    (fits : Fits uci room obj) : emsUciUpdateSection uci room obj pkg =
      (putEntry uciSectionName (some (uci.generated (anonymous (pkg.map Prod.snd) + 1) wifiIface [])) obj,
        pkg ++ appended uci (anonymous (pkg.map Prod.snd)) [obj]) := by
  generalize made : uci.generated _ _ [] = name
  have filled : name ≠ [] := made ▸ uci.proper _ _ _
  have short : name.length ≤ 15 := made ▸ uci.short _ _ _
  have no_type : ¬ wifiIface = [] := by decide
  have unnamed : jsonText obj uciSectionName = [] := by rw [jsonText, plain]; rfl
  have named : jsonText (putEntry uciSectionName (some name) obj) uciSectionName = name := by
    rw [jsonText, lookup_put, if_pos rfl]
    rfl
  have belong : BelongAll uci 0 (pkg ++ [(name, ⟨none, wifiIface, []⟩)]) := by
    rw [belong_append, Nat.zero_add]
    exact ⟨all, ⟨_, _, made.symm⟩, trivial⟩
  have longer : Known uci ((pkg ++ [(name, (⟨none, wifiIface, []⟩ : UciSection))]).map Prod.snd) := by
    rw [map_append]
    exact known_anonymous _ known _ rfl
  have absent := (package_split _ longer
    (by rw [length_append, length_singleton]; omega) belong pkg [] name _ rfl).1
  have added : putEntry _ _ obj = obj ++ [(uciSectionName, some name)] := put_new _ _ obj ((lookup_absent obj _).mp plain)
  have written := options_written uci room name (putEntry _ _ obj) pkg [] ⟨none, wifiIface, []⟩ absent
    fun key value own there => by
      rw [added, mem_append] at there
      rcases there with old | new
      · obtain ⟨accepted, room_⟩ := fits key _ own old
        rw [unnamed] at room_
        rw [tuple_length]
        exact ⟨accepted, by rw [length_nil] at room_; omega⟩
      · have same := (Prod.mk.inj (mem_singleton.mp new)).1
        exact absurd (same ▸ mem_cons_self) own
  rw [emsUciUpdateSection, typed, if_neg no_type, if_pos unnamed, emsUciAppendSection, made]
  dsimp only
  rw [named, if_neg filled, written, added, write_reserved obj _ _ _ mem_cons_self, appended, made]
  rfl

theorem write_new (news : List Json) (pkg : Package) (known : Known uci (pkg.map Prod.snd))
    (small : pkg.length + news.length + 1 < 2 ^ 31) (all : BelongAll uci 0 pkg)
    (plain : ∀ obj ∈ news, obj.lookup uciSectionName = none) (typed : ∀ obj ∈ news, jsonText obj uciSectionType = wifiIface)
    (fits : ∀ obj ∈ news, Fits uci room obj) :
    (emsUciUpdateCfg uci room news pkg).2 = pkg ++ appended uci (anonymous (pkg.map Prod.snd)) news ∧
      (emsUciUpdateCfg uci room news pkg).1.map (fun obj => jsonText obj uciSectionName) =
        (appended uci (anonymous (pkg.map Prod.snd)) news).map Prod.fst := by
  induction news generalizing pkg with
  | nil => exact ⟨(append_nil pkg).symm, rfl⟩
  | cons obj rest ih =>
    rw [length_cons] at small
    have first := section_new obj pkg known (by omega) all (plain obj mem_cons_self) (typed obj mem_cons_self)
      (fits obj mem_cons_self)
    have count : anonymous ((pkg ++ appended uci (anonymous (pkg.map Prod.snd)) [obj]).map Prod.snd) =
        anonymous (pkg.map Prod.snd) + 1 := by
      rw [map_append, anonymous_append]
      rfl
    have longer : Known uci ((pkg ++ appended uci (anonymous (pkg.map Prod.snd)) [obj]).map Prod.snd) := by
      rw [map_append]
      exact known_anonymous _ known _ rfl
    have next := ih _ longer
      (by rw [length_append, appended, appended, length_singleton]; omega) (appended_belong pkg all _)
      (fun obj there => plain obj (mem_cons_of_mem _ there)) (fun obj there => typed obj (mem_cons_of_mem _ there))
      fun obj there => fits obj (mem_cons_of_mem _ there)
    rw [count] at next
    rw [emsUciUpdateCfg, first]
    constructor
    · rw [next.1, append_assoc]
      rfl
    · rw [map_cons, next.2, jsonText, lookup_put, if_pos rfl]
      rfl

end New

theorem Known.sublist {uci : LibUci} {file part : List UciSection} (known : Known uci file) (sub : part.Sublist file) : Known uci part :=
  ⟨known.distinct.sublist (sub.filterMap _), fun s there => known.proper s (sub.subset there)⟩

end Codec.Wireless
