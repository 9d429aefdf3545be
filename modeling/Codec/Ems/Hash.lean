import Codec.Ems.Buffer
import Codec.Lib.Ring
import Codec.Lib.Runs

set_option autoImplicit false

namespace Codec.Ems

-- ems_hash: entries of key and pointer. Each bucket is searched by strcmp on
-- the key, so the buckets make no difference to what is found.
section Hash

variable {α : Type} [DecidableEq α]

def hashFind (hash : List (α × Nat)) (key : α) : Option Nat := (hash.find? (·.1 = key)).map (·.2)

def hashInsert (hash : List (α × Nat)) (key : α) (id : Nat) : List (α × Nat) :=
  if (hashFind hash key).isSome then hash else (key, id) :: hash

-- ems_hash_remove; an entry that was never inserted is linked to itself and
-- nothing happens.
def hashRemove (hash : List (α × Nat)) (id : Nat) : List (α × Nat) := hash.filter (·.2 ≠ id)

def DistinctKeys (hash : List (α × Nat)) : Prop := (hash.map (·.1)).Nodup

variable (hash : List (α × Nat)) (key : α) (id : Nat)

theorem hash_find_mem (found : hashFind hash key = some id) : (key, id) ∈ hash := by
  simp only [hashFind, Option.map_eq_some_iff] at found
  obtain ⟨entry, hit, same⟩ := found
  have here := List.mem_of_find?_eq_some hit
  have keyed := List.find?_some hit
  simp only [decide_eq_true_eq] at keyed
  rw [← keyed, ← same]
  exact here

theorem hash_find_none : hashFind hash key = none ↔ ∀ id, (key, id) ∉ hash := by
  simp only [hashFind, Option.map_eq_none_iff, List.find?_eq_none, decide_eq_true_eq]
  constructor
  · intro absent id there
    exact absent _ there rfl
  · intro absent entry there same
    exact absent entry.2 (same ▸ there)

theorem hash_find_of_mem (distinct : DistinctKeys hash) (key : α) (id : Nat)
    (there : (key, id) ∈ hash) : hashFind hash key = some id := by
  cases found : hashFind hash key with
  | none => exact absurd there ((hash_find_none hash key).mp found id)
  | some other =>
    have entry := hash_find_mem hash key _ found
    have same := List.inj_on_of_nodup_map distinct entry there rfl
    exact congrArg some (congrArg Prod.snd same)

theorem hash_insert_old (id other : Nat) (taken : hashFind hash key = some other) : hashInsert hash key id = hash := by
  rw [hashInsert, taken]
  rfl

theorem hash_insert_new (absent : hashFind hash key = none) : hashInsert hash key id = (key, id) :: hash := by
  rw [hashInsert, absent]
  rfl

theorem hash_insert_find (key other : α) (id : Nat) : hashFind (hashInsert hash key id) other =
      if other = key then some ((hashFind hash key).getD id) else hashFind hash other := by
  cases taken : hashFind hash key with
  | some old =>
    rw [hash_insert_old hash key id old taken]
    by_cases same : other = key
    · rw [if_pos same, same, taken]
      rfl
    · rw [if_neg same]
  | none =>
    rw [hash_insert_new hash key id taken]
    by_cases same : other = key
    · simp [hashFind, same]
    · simp [hashFind, same, Ne.symm same]

theorem hash_insert_mem (entry : α × Nat)
    (there : entry ∈ hashInsert hash key id) : entry = (key, id) ∧ hashFind hash key = none ∨ entry ∈ hash := by
  cases taken : hashFind hash key with
  | some old =>
    rw [hash_insert_old hash key id old taken] at there
    exact .inr there
  | none =>
    rw [hash_insert_new hash key id taken] at there
    cases there with
    | head => exact .inl ⟨rfl, rfl⟩
    | tail _ later => exact .inr later

theorem hash_insert_distinct (distinct : DistinctKeys hash) : DistinctKeys (hashInsert hash key id) := by
  cases taken : hashFind hash key with
  | some old => rwa [hash_insert_old hash key id old taken]
  | none =>
    rw [hash_insert_new hash key id taken]
    refine List.nodup_cons.mpr ⟨?_, distinct⟩
    intro there
    obtain ⟨⟨name, other⟩, here, same⟩ := List.mem_map.mp there
    change name = key at same
    subst name
    exact (hash_find_none hash key).mp taken _ here

omit [DecidableEq α] in
theorem hash_remove_mem (hash : List (α × Nat)) (id : Nat) (entry : α × Nat) :
    entry ∈ hashRemove hash id ↔ entry ∈ hash ∧ entry.2 ≠ id := by
  simp [hashRemove]

omit [DecidableEq α] in
theorem hash_remove_distinct (hash : List (α × Nat)) (id : Nat) (distinct : DistinctKeys hash) :
    DistinctKeys (hashRemove hash id) :=
  distinct.sublist (List.filter_sublist.map _)

theorem hash_remove_find (distinct : DistinctKeys hash) (id other : Nat) (key : α)
    (apart : other ≠ id) : hashFind hash key = some other → hashFind (hashRemove hash id) key = some other := by
  intro found
  apply hash_find_of_mem _ (hash_remove_distinct hash id distinct)
  exact (hash_remove_mem hash id _).mpr ⟨hash_find_mem hash key _ found, apart⟩

end Hash

open Codec.Lib

-- ch << 8 ^ ch of a signed char, as an ems_int.
def crcChar (ch : UInt8) : BitVec 32 :=
  let wide := ch.toBitVec.signExtend 32
  (wide <<< 8) ^^^ wide

def hashCrc (src : Str) : BitVec 32 := src.foldl (fun crc ch => crc ^^^ crcChar ch) 0

inductive HashNode where
  | bucket (crc : Int)
  | entry (id : Nat)
  deriving DecidableEq, Repr

-- ems_hash with the ems_hash_fd that have ever been made: the links of buckets
-- and entries, and what each entry has in `crc`.
structure EmsHash where
  links : Links HashNode
  crc : Nat → Int

inductive HashOp where
  | insert (id : Nat)
  | find (key : Str)
  | remove (id : Nat)
  | walk (removes stops : Nat → Bool)

inductive HashReply where
  | status (ret : Int)
  | fd (id : Option Nat)
  | walked (ids : List Nat) (stopped : Bool)
  | endless
  deriving DecidableEq

def onEntry (test : Nat → Bool) : HashNode → Bool
  | .entry id => test id
  | .bucket _ => false

def entryId : HashNode → Option Nat
  | .entry id => some id
  | .bucket _ => none

section Calls

-- n_base and the key that ems_hash_fd_set_key has stored in each entry.
variable (base : Nat) (key : Nat → Str)

-- ems_hash_init, and ems_hash_fd_init and ems_hash_fd_set_key for each entry.
def EmsHash.init : EmsHash := ⟨Links.alone, fun id => (hashCrc (key id)).toInt⟩

section Table

variable (fuel : Nat) (hash : EmsHash)

def hashSearch (crc : Int) (wanted : Str) : Option (Option HashNode) :=
  hash.links.search (onEntry fun id => key id = wanted) (.bucket crc) fuel (hash.links.next (.bucket crc))

def emsHashInsert (id : Nat) : HashReply × EmsHash :=
  let crc := (hash.crc id).tmod base
  let hash := { hash with crc := Function.update hash.crc id crc }
  match hashSearch key fuel hash crc (key id) with
  | none => (.endless, hash)
  | some (some _) => (.status (-2), hash)
  | some none => (.status 0, { hash with links := hash.links.insertHead (.bucket crc) (.entry id) })

def emsHashFind (wanted : Str) : HashReply :=
  match hashSearch key fuel hash ((hashCrc wanted).toInt.tmod base) wanted with
  | none => .endless
  | some found => .fd (found.bind entryId)

-- ems_queue_remove leaves the links of the entry itself as they are.
def emsHashRemove (id : Nat) : HashReply × EmsHash := (.fd (some id), { hash with links := hash.links.remove (.entry id) })

end Table

def walkFrom (fuel : Nat) (removes stops : Nat → Bool) : Nat → Nat → Links HashNode →
    Option (List Nat × Bool × Links HashNode)
  | 0, _, links => some ([], false, links)
  | count + 1, place, links =>
    let head := HashNode.bucket place
    let first := links.next head
    match Links.sweep (onEntry removes) (onEntry stops) head fuel links first (links.next first) with
    | none => none
    | some (seen, true, links) => some (seen.filterMap entryId, true, links)
    | some (seen, false, links) =>
      (walkFrom fuel removes stops count (place + 1) links).map fun done => (seen.filterMap entryId ++ done.1, done.2)

def emsHashWalk (fuel : Nat) (hash : EmsHash) (removes stops : Nat → Bool) : HashReply × EmsHash :=
  match walkFrom fuel removes stops base 0 hash.links with
  | none => (.endless, hash)
  | some (ids, stopped, links) => (.walked ids stopped, { hash with links := links })

def EmsHash.call (fuel : Nat) (hash : EmsHash) : HashOp → HashReply × EmsHash
  | .insert id => emsHashInsert base key fuel hash id
  | .find wanted => (emsHashFind base key fuel hash wanted, hash)
  | .remove id => emsHashRemove hash id
  | .walk removes stops => emsHashWalk base fuel hash removes stops

end Calls

theorem crc_char_small (ch : UInt8) : (crcChar ch).toNat < 2 ^ 16 := by
  have every : ∀ bits : BitVec 8, (((bits.signExtend 32) <<< 8) ^^^ bits.signExtend 32).toNat < 2 ^ 16 := by decide
  exact every _

theorem hash_crc_small (src : Str) : (hashCrc src).toNat < 2 ^ 16 := by
  have go (crc : BitVec 32) (small : crc.toNat < 2 ^ 16) :
      (src.foldl (fun crc ch => crc ^^^ crcChar ch) crc).toNat < 2 ^ 16 := by
    induction src generalizing crc with
    | nil => exact small
    | cons ch rest ih =>
      apply ih
      rw [BitVec.toNat_xor]
      exact Nat.xor_lt_two_pow small (crc_char_small ch)
  exact go 0 (by decide)

theorem hash_crc_int (src : Str) : (hashCrc src).toInt = (hashCrc src).toNat := by
  have small := hash_crc_small src
  rw [BitVec.toInt_eq_toNat_of_lt]
  omega

def bucketOf (base : Nat) (key : Str) : Int := (hashCrc key).toInt.tmod base

theorem bucket_of_range (base : Nat) (some : 0 < base) (key : Str) : 0 ≤ bucketOf base key ∧ bucketOf base key < base := by
  rw [bucketOf, hash_crc_int]
  exact ⟨Int.tmod_nonneg _ (Int.natCast_nonneg _), Int.tmod_lt_of_pos _ (by exact_mod_cast some)⟩

end Codec.Ems
