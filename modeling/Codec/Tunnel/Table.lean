import Codec.Tunnel.Session
import Codec.Lib.Decimal

set_option autoImplicit false

namespace Codec.Tunnel

open Codec.Ems Codec.Lib
open Codec.Ssid (emsItoa)

theorem emsItoa_eq (number : Int) :
    emsItoa number = if number < 0 then 45 :: digitText number.natAbs else digitText number.natAbs := rfl

theorem emsItoa_injective (left right : Int) (same : emsItoa left = emsItoa right) : left = right := by
  rw [emsItoa_eq, emsItoa_eq] at same
  split at same <;> split at same
  · have digits := digit_text_injective _ _ (List.cons.inj same).2
    omega
  · exact absurd same.symm (digit_text_unsigned _ _)
  · exact absurd same (digit_text_unsigned _ _)
  · have digits := digit_text_injective _ _ same
    omega

theorem session_key_injective (left right : UInt32) (same : sessionKey left = sessionKey right) : left = right := by
  have numbers := emsItoa_injective _ _ same
  have signed := Int32.toInt_inj.mp numbers
  exact congrArg Int32.toUInt32 signed

structure TableSound (table : Table) : Prop where
  keyed : ∀ key addr, (key, addr) ∈ table.hash → ∃ tsess, table.heap addr = some tsess ∧ key = sessionKey tsess.id
  hashed : ∀ addr tsess, table.heap addr = some tsess → (sessionKey tsess.id, addr) ∈ table.hash
  distinct : DistinctKeys table.hash
  listed : ∀ addr, addr ∈ table.list ↔ ∃ tsess, table.heap addr = some tsess
  once : table.list.Nodup
  below : ∀ addr tsess, table.heap addr = some tsess → addr < table.next
  asserted : table.asserted = true

theorem table_sound_init : TableSound Table.init := by
  constructor
  · exact fun _ _ there => absurd there List.not_mem_nil
  · exact fun _ _ live => nomatch live
  · exact List.nodup_nil
  · exact fun _ => ⟨fun there => absurd there List.not_mem_nil, fun ⟨_, live⟩ => nomatch live⟩
  · exact List.nodup_nil
  · exact fun _ _ live => nomatch live
  · rfl

variable (tunnel : EmsTunnel) (addrs : List Nat) (table : Table) (addr other : Nat) (change : Tsess → Tsess)

theorem session_find_live (sound : TableSound table) (id : UInt32) (addr : Nat)
    (found : tunnelSessionFind table id = some addr) : ∃ tsess, table.heap addr = some tsess ∧ tsess.id = id := by
  obtain ⟨tsess, live, key⟩ := sound.keyed _ _ (hash_find_mem _ _ _ found)
  exact ⟨tsess, live, (session_key_injective _ _ key).symm⟩

theorem session_find_here (sound : TableSound table) (addr : Nat) (tsess : Tsess)
    (live : table.heap addr = some tsess) : tunnelSessionFind table tsess.id = some addr :=
  hash_find_of_mem _ sound.distinct _ _ (sound.hashed addr _ live)

theorem session_single (sound : TableSound table) (left right : Nat) (one other : Tsess)
    (first : table.heap left = some one) (second : table.heap right = some other) (same : one.id = other.id) :
    left = right := by
  have here := session_find_here _ sound left one first
  rw [same, session_find_here _ sound _ _ second] at here
  exact (Option.some.inj here).symm

@[simp] theorem modify_here (addr : Nat) (change : Tsess → Tsess) :
    (table.modify addr change).heap addr = (table.heap addr).map change :=
  if_pos rfl

theorem modify_other (apart : other ≠ addr) : (table.modify addr change).heap other = table.heap other := if_neg apart

theorem modify_live (tsess : Tsess) (live : (table.modify addr change).heap other = some tsess) :
    ∃ old, table.heap other = some old ∧ tsess = if other = addr then change old else old := by
  by_cases here : other = addr
  · rw [here, modify_here] at live
    obtain ⟨old, was, changed⟩ := Option.map_eq_some_iff.mp live
    exact ⟨old, here ▸ was, by rw [if_pos here, changed]⟩
  · rw [modify_other _ addr _ _ here] at live
    exact ⟨tsess, live, (if_neg here).symm⟩

theorem modify_twice (addr : Nat) (first second : Tsess → Tsess) :
    (table.modify addr first).modify addr second = table.modify addr fun tsess => second (first tsess) := by
  have heaps : ((table.modify addr first).modify addr second).heap =
      (table.modify addr fun tsess => second (first tsess)).heap := by
    funext other
    by_cases here : other = addr
    · rw [here, modify_here, modify_here, modify_here, Option.map_map]
      rfl
    · rw [modify_other _ _ _ _ here, modify_other _ _ _ _ here, modify_other _ _ _ _ here]
  exact congrArg (fun heap => { table with heap := heap }) heaps

theorem table_modify_sound (sound : TableSound table) (addr : Nat) (change : Tsess → Tsess)
    (same : ∀ tsess, table.heap addr = some tsess → (change tsess).id = tsess.id) : TableSound (table.modify addr change) := by
  have forth (other : Nat) (old : Tsess) (was : table.heap other = some old) :
      ∃ tsess, (table.modify addr change).heap other = some tsess ∧ tsess.id = old.id := by
    by_cases here : other = addr
    · subst other
      exact ⟨change old, by rw [modify_here, was, Option.map_some], same old was⟩
    · exact ⟨old, by rw [modify_other _ addr _ _ here, was], rfl⟩
  have back (other : Nat) (tsess : Tsess) (live : (table.modify addr change).heap other = some tsess) :
      ∃ old, table.heap other = some old ∧ tsess.id = old.id := by
    obtain ⟨old, was, made⟩ := modify_live _ addr _ _ _ live
    refine ⟨old, was, ?_⟩
    rw [made]
    split
    · rename_i here
      exact same old (here ▸ was)
    · rfl
  constructor
  · intro key other there
    obtain ⟨old, was, named⟩ := sound.keyed key _ there
    obtain ⟨tsess, live, kept⟩ := forth _ old was
    exact ⟨tsess, live, kept ▸ named⟩
  · intro other tsess live
    obtain ⟨old, was, kept⟩ := back _ _ live
    exact kept ▸ sound.hashed _ old was
  · exact sound.distinct
  · intro other
    refine (sound.listed _).trans ⟨?_, ?_⟩
    · rintro ⟨old, was⟩
      obtain ⟨tsess, live, _⟩ := forth _ old was
      exact ⟨tsess, live⟩
    · rintro ⟨tsess, live⟩
      obtain ⟨old, was, _⟩ := back _ _ live
      exact ⟨old, was⟩
  · exact sound.once
  · intro other tsess live
    obtain ⟨old, was, _⟩ := back _ _ live
    exact sound.below _ old was
  · exact sound.asserted

theorem remove_live (tsess : Tsess) :
    (table.remove addr).heap other = some tsess ↔ other ≠ addr ∧ table.heap other = some tsess := by
  by_cases here : other = addr <;> simp [Table.remove, here]

theorem table_remove_sound (sound : TableSound table) (addr : Nat) : TableSound (table.remove addr) := by
  constructor
  · intro key other there
    obtain ⟨old, apart⟩ := (hash_remove_mem _ _ _).mp there
    obtain ⟨tsess, live, named⟩ := sound.keyed key _ old
    exact ⟨tsess, (remove_live _ addr _ _).mpr ⟨apart, live⟩, named⟩
  · intro other tsess live
    obtain ⟨apart, was⟩ := (remove_live _ addr _ _).mp live
    exact (hash_remove_mem _ _ _).mpr ⟨sound.hashed _ _ was, apart⟩
  · exact hash_remove_distinct _ _ sound.distinct
  · intro other
    simp only [remove_live, exists_and_left, ← sound.listed _]
    simp [Table.remove, and_comm]
  · exact sound.once.filter _
  · exact fun other tsess live => sound.below _ _ ((remove_live _ addr _ _).mp live).2
  · exact sound.asserted

theorem insert_live (sound : TableSound table) (pkg : Pkg) (since addr : Nat) (tsess : Tsess) :
    (table.insert pkg since).heap addr = some tsess ↔
      addr = table.next ∧ tsess = ⟨pkg.id, .stopped, false, false, none, none, Buffer.init 1024, [], since⟩ ∨
        table.heap addr = some tsess := by
  by_cases here : addr = table.next
  · have free : table.heap _ ≠ some _ := fun live =>
      Nat.lt_irrefl _ (sound.below _ tsess live)
    simp [Table.insert, here, free, eq_comm]
  · simp [Table.insert, here]

theorem table_insert_sound (sound : TableSound table) (pkg : Pkg) (since : Nat)
    (absent : tunnelSessionFind table pkg.id = none) : TableSound (table.insert pkg since) := by
  have entries : (table.insert pkg since).hash = (sessionKey _, table.next) :: table.hash := hash_insert_new _ _ _ absent
  have fresh : table.next ∉ table.list := by
    intro there
    obtain ⟨tsess, live⟩ := (sound.listed _).mp there
    exact Nat.lt_irrefl _ (sound.below _ _ live)
  constructor
  · intro key addr there
    rw [entries] at there
    rcases List.mem_cons.mp there with new | old
    · cases new
      exact ⟨_, (insert_live _ sound pkg _ _ _).mpr (.inl ⟨rfl, rfl⟩), rfl⟩
    · obtain ⟨tsess, live, named⟩ := sound.keyed key addr old
      exact ⟨tsess, (insert_live _ sound pkg _ addr _).mpr (.inr live), named⟩
  · intro addr tsess live
    rw [entries]
    rcases (insert_live _ sound pkg _ addr _).mp live with ⟨rfl, rfl⟩ | old
    · exact List.mem_cons_self
    · exact List.mem_cons_of_mem _ (sound.hashed addr _ old)
  · exact hash_insert_distinct _ _ _ sound.distinct
  · intro addr
    simp only [insert_live _ sound, exists_or, ← sound.listed addr]
    simp [Table.insert, or_comm]
  · exact List.nodup_append.mpr ⟨sound.once, List.nodup_singleton _, fun addr there other last =>
      fun same => fresh (List.mem_singleton.mp last ▸ same ▸ there)⟩
  · intro addr tsess live
    rcases (insert_live _ sound pkg _ addr _).mp live with ⟨rfl, _⟩ | old
    · exact Nat.lt_succ_self _
    · exact Nat.lt_succ_of_lt (sound.below addr _ old)
  · exact sound.asserted

theorem stop_rounds_sound (sound : TableSound table) : TableSound (addrs.foldl Table.remove table) := by
  induction addrs generalizing table with
  | nil => exact sound
  | cons addr rest ih => exact ih _ (table_remove_sound _ sound addr)

theorem stop_rounds_live (other : Nat) (tsess : Tsess) :
    (addrs.foldl Table.remove table).heap other = some tsess ↔ other ∉ addrs ∧ table.heap other = some tsess := by
  induction addrs generalizing table with
  | nil => simp
  | cons addr rest ih =>
    rw [List.foldl_cons, ih, remove_live, List.mem_cons, not_or]
    exact ⟨fun ⟨left, apart, live⟩ => ⟨⟨apart, left⟩, live⟩, fun ⟨⟨apart, left⟩, live⟩ => ⟨left, apart, live⟩⟩

theorem stop_rounds_books : (addrs.foldl Table.remove table).births = table.births ∧
      (addrs.foldl Table.remove table).asserted = table.asserted := by
  induction addrs generalizing table with
  | nil => exact ⟨rfl, rfl⟩
  | cons addr rest ih => exact ih _

theorem table_empty (sound : TableSound table) (dead : ∀ addr tsess, table.heap addr ≠ some tsess) :
    table.hash = [] ∧ table.list = [] := by
  constructor
  · apply List.eq_nil_iff_forall_not_mem.mpr
    rintro ⟨key, addr⟩ there
    obtain ⟨tsess, live, _⟩ := sound.keyed key addr there
    exact dead addr _ live
  · apply List.eq_nil_iff_forall_not_mem.mpr
    intro addr there
    obtain ⟨tsess, live⟩ := (sound.listed addr).mp there
    exact dead addr _ live

theorem stop_all_live (sound : TableSound tunnel.table) (addr : Nat) (tsess : Tsess) :
    (tunnelStopAll tunnel).table.heap addr ≠ some tsess := by
  intro live
  obtain ⟨left, was⟩ := (stop_rounds_live _ _ addr _).mp live
  exact left ((sound.listed addr).mpr ⟨tsess, was⟩)

theorem stop_all_empty (sound : TableSound tunnel.table) :
    (tunnelStopAll tunnel).table.hash = [] ∧ (tunnelStopAll tunnel).table.list = [] := by
  apply table_empty _ (stop_rounds_sound _ _ sound)
  exact stop_all_live _ sound

theorem stop_all_sound (sound : TableSound tunnel.table) : TableSound (tunnelStopAll tunnel).table := by
  have rounds := stop_rounds_sound tunnel.table.list _ sound
  have empty := stop_all_empty _ sound
  refine ⟨rounds.keyed, rounds.hashed, rounds.distinct, rounds.listed, rounds.once, rounds.below, ?_⟩
  have always : (tunnel.table.list.foldl _ tunnel.table).asserted = true := rounds.asserted
  simp only [tunnelStopAll, always, Bool.true_and, decide_eq_true_eq]
  exact empty

theorem stop_all_births : (tunnelStopAll tunnel).table.births = tunnel.table.births := (stop_rounds_books _ _).1

end Codec.Tunnel
