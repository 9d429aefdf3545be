import Codec.Fw.HandleSpec

set_option autoImplicit false

namespace Codec.Fw

open Codec.Ems Codec.Lib

def PendingTable (fw : EmsFw) : Prop :=
  (∀ user ∈ fw.users, fw.fwd.count user.id + fw.wait.count user.id + fw.out.count user.id = 1) ∧
  (∀ id ∈ fw.fwd ++ fw.wait ++ fw.out, ∃ user ∈ fw.users, user.id = id) ∧
  (∀ user ∈ fw.users, user.id ∈ fw.fwd ++ fw.wait →
    user.timer = some fwdTimeout ∧ dnsFindUser fw user.key = some user) ∧
  (∀ user ∈ fw.users, user.id ∈ fw.out → user.timer = none ∧ ∀ entry ∈ fw.hashMsg, entry.2 ≠ user.id) ∧
  DistinctKeys fw.hashMsg ∧
  (∀ entry ∈ fw.hashMsg, ∃ user ∈ fw.users, user.key = entry.1 ∧ user.id = entry.2 ∧ user.id ∈ fw.fwd ++ fw.wait)

def FreshIds (book : Ledger) (ids : List UInt16) : Prop := ids.Nodup ∧ ∀ id ∈ ids, Unused book id

def SelfIdsFresh (fw : EmsFw) (event : Event) : Prop := Allows FreshIds (fun _ _ => True) (fun _ _ _ => True) fw event

instance (book : Ledger) (ids : List UInt16) : Decidable (FreshIds book ids) :=
  inferInstanceAs (Decidable (ids.Nodup ∧ ∀ id ∈ ids, hashFind book.hashMsg id = none))

instance decidableAllows (all : Ledger → List UInt16 → Prop) (heeds : DnsUser → Asker → Prop)
    (hears : DnsUser → List UInt8 → Option Answer → Prop) [∀ book ids, Decidable (all book ids)] [∀ user asker, Decidable (heeds user asker)]
    [∀ user data answer, Decidable (hears user data answer)] (fw : EmsFw) (event : Event) :
    Decidable (Allows all heeds hears fw event) := by
  rw [Allows.eq_def]
  split <;> infer_instance

instance (fw : EmsFw) (event : Event) : Decidable (SelfIdsFresh fw event) :=
  inferInstanceAs (Decidable (Allows FreshIds (fun _ _ => True) (fun _ _ _ => True) fw event))

theorem fresh_ids_give : Gives Unused FreshIds where
  first := fun _ _ _ fresh => fresh.2 _ List.mem_cons_self
  later := by
    intro book user rest _ fresh
    obtain ⟨absent, distinct⟩ := List.nodup_cons.mp fresh.1
    refine ⟨distinct, ?_⟩
    intro id there
    have apart : id ≠ user.key := fun same => absent (same ▸ there)
    change hashFind (hashInsert _ _ _) id = none
    rw [hash_insert_find, if_neg apart]
    exact fresh.2 id (List.mem_cons_of_mem _ there)

theorem table_init : Table EmsFw.init.ledger := table_reset EmsFw.init.ledger

theorem table_pending (fw : EmsFw) (table : Table fw.ledger) (hashed : Hashed fw.ledger) : PendingTable fw := by
  have nodup := queues_nodup _ table
  have apart (id : Nat) (waits : id ∈ fw.fwd ++ fw.wait) : id ∉ fw.out := by
    intro out
    rw [Ledger.queues, List.nodup_append] at nodup
    exact nodup.2.2 id waits id out rfl
  have either (user : DnsUser) (there : user ∈ fw.users) : user.id ∈ fw.fwd ++ fw.wait ∨ user.id ∈ fw.out :=
    List.mem_append.mp ((queued_iff _ table _).mpr ⟨user, there, rfl⟩)
  refine ⟨?_, ?_, ?_, ?_, table.keys, ?_⟩
  · intro user there
    have queued : user.id ∈ fw.ledger.queues := (queued_iff _ table _).mpr ⟨user, there, rfl⟩
    have once := List.count_eq_one_of_mem nodup queued
    rw [Ledger.queues, List.count_append, List.count_append] at once
    exact once
  · exact fun id queued => (queued_iff _ table id).mp queued
  · intro user there waits
    have outside := apart _ waits
    constructor
    · rw [table.timers user there]
      exact if_neg outside
    · have hit := hashed user there outside
      have live := user_of_mem _ table.distinct user there
      change fw.ledger.find _ = some user
      rw [Ledger.find, hit, Option.bind_some, live]
  · intro user there out
    constructor
    · rw [table.timers user there]
      exact if_pos out
    · intro entry inside same
      obtain ⟨owner, _, _, owns, waits⟩ := table.entries _ inside
      exact waits (owns.trans same ▸ out)
  · intro entry inside
    obtain ⟨owner, there, keyed, owns, waits⟩ := table.entries _ inside
    exact ⟨owner, there, keyed, owns, (either _ there).resolve_right waits⟩

theorem pending_table_sound (events : List Event) (steps : AllSteps step SelfIdsFresh EmsFw.init events)
    (alive : (run step EmsFw.init events).fault = none) : PendingTable (run step EmsFw.init events) := by
  have kept := run_keeps_ledger _ (fun _ _ => True) (fun _ _ _ => True) _ fresh_ids_give
    (fun book => Table book ∧ Hashed book) ⟨table_init, fun _ absent => nomatch absent⟩
  have both := kept (fun book next good effect =>
    ⟨effect_table book good.1 _ _ _ next effect, effect_hashed book good.1 good.2 _ _ next effect⟩) _ steps alive
  exact table_pending _ both.1 both.2

def sampleName : Str := [119, 119, 119, 46, 97]

def clientThenSelf (client self : UInt16) : List Event :=
  [.start (some 9300) true, .addressAdd [sampleName], .request 0x0a000002 4000 (selfQuery sampleName client), .schedule self]

theorem pending_table_sound_sample : PendingTable (run step EmsFw.init (clientThenSelf 5 6)) := by
  have asked : (run step EmsFw.init ((clientThenSelf 5 6).take 3)).asked 6 = [6] := by decide +kernel
  have free : hashFind (run step EmsFw.init ((clientThenSelf 5 6).take 3)).ledger.hashMsg 6 = none := by decide +kernel
  have fresh : FreshIds (run step EmsFw.init ((clientThenSelf 5 6).take 3)).ledger
      ((run step EmsFw.init ((clientThenSelf 5 6).take 3)).asked 6) := by
    rw [asked]
    exact ⟨List.nodup_singleton 6, fun id there => List.mem_singleton.mp there ▸ free⟩
  apply pending_table_sound
  · exact ⟨by decide +kernel, by decide +kernel, by decide +kernel, fun _ => fresh, trivial⟩
  · decide +kernel

theorem self_query_not_hashed : ¬∀ events, (run step EmsFw.init events).fault = none →
    PendingTable (run step EmsFw.init events) := by
  intro sound
  have waiting := (sound (clientThenSelf 5 5) (by decide +kernel)).2.2.1
  exact absurd waiting (by decide +kernel)

end Codec.Fw
