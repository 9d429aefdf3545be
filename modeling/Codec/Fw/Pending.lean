import Mathlib.Data.List.Perm.Basic
import Codec.Fw.Ledger

set_option autoImplicit false

namespace Codec.Fw

open Codec.Ems List

structure Table (book : Ledger) : Prop where
  distinct : (book.users.map (·.id)).Nodup
  below : ∀ user ∈ book.users, user.id < book.nextUser
  queued : (book.fwd ++ book.wait ++ book.out).Perm (book.users.map (·.id))
  timers : ∀ user ∈ book.users, user.timer = if user.id ∈ book.out then none else some fwdTimeout
  keys : DistinctKeys book.hashMsg
  entries : ∀ entry ∈ book.hashMsg, ∃ user ∈ book.users, user.key = entry.1 ∧ user.id = entry.2 ∧ user.id ∉ book.out

section Queues

variable (book : Ledger)

def Ledger.queues : List Nat := book.fwd ++ book.wait ++ book.out

theorem queues_nodup (table : Table book) : book.queues.Nodup := table.queued.nodup_iff.mpr table.distinct

theorem queues_dequeue (table : Table book) (id : Nat) : (book.dequeue id).queues = book.queues.filter (· ≠ id) := by
  have nodup := queues_nodup book table
  simp only [Ledger.queues, nodup_append] at nodup
  simp only [Ledger.queues, Ledger.dequeue, filter_append]
  rw [nodup.1.1.erase_eq_filter, nodup.1.2.1.erase_eq_filter, nodup.2.1.erase_eq_filter]
  simp only [ne_eq, decide_not, bne]
  rfl

theorem out_dequeue (table : Table book) (id other : Nat) : other ∈ (book.dequeue id).out ↔ other ∈ book.out ∧ other ≠ id := by
  have nodup := queues_nodup book table
  simp only [Ledger.queues, nodup_append] at nodup
  change other ∈ book.out.erase id ↔ _
  rw [nodup.2.1.mem_erase_iff]
  exact and_comm

theorem user_mem (id : Nat) (user : DnsUser) (found : book.user? id = some user) : user ∈ book.users ∧ user.id = id := by
  have same := find?_some found
  exact ⟨mem_of_find?_eq_some found, of_decide_eq_true same⟩

theorem user_of_mem (distinct : (book.users.map (·.id)).Nodup) (user : DnsUser) (there : user ∈ book.users) :
    book.user? user.id = some user := by
  cases found : book.user? _ with
  | none => exact absurd rfl (of_decide_eq_false (eq_false_of_ne_true (find?_eq_none.mp found user there)))
  | some other =>
    obtain ⟨member, same⟩ := user_mem book _ _ found
    exact congrArg some (inj_on_of_nodup_map distinct member there same)

theorem find_mem (table : Table book) (key : UInt16) (user : DnsUser) (found : book.find key = some user) :
    user ∈ book.users ∧ user.key = key ∧ user.id ∉ book.out := by
  obtain ⟨id, hit, pointed⟩ := Option.bind_eq_some_iff.mp found
  obtain ⟨there, same⟩ := user_mem book id user pointed
  obtain ⟨owner, member, keyed, owns, inside⟩ := table.entries _ (hash_find_mem _ key id hit)
  have both : owner = user := inj_on_of_nodup_map table.distinct member there (owns.trans same.symm)
  rw [← both]
  exact ⟨member, keyed, inside⟩

theorem queued_iff (table : Table book) (id : Nat) : id ∈ book.queues ↔ ∃ user ∈ book.users, user.id = id := by
  rw [Ledger.queues, table.queued.mem_iff, mem_map]

end Queues

theorem table_move (book next : Ledger) (id : Nat) (change : DnsUser → DnsUser) (table : Table book) (there : id ∈ book.queues)
    (users : next.users = book.users.map fun user => if user.id = id then change user else user)
    (same : ∀ user, (change user).id = user.id ∧ (change user).key = user.key)
    (timer : ∀ user, user.id = id → user ∈ book.users → (change user).timer = if id ∈ next.out then none else some fwdTimeout)
    (queues : next.queues.Perm (id :: book.queues.filter (· ≠ id)))
    (outs : ∀ other, other ≠ id → (other ∈ next.out ↔ other ∈ book.out)) (counter : next.nextUser = book.nextUser)
    (keys : DistinctKeys next.hashMsg)
    (entries : ∀ entry ∈ next.hashMsg, entry ∈ book.hashMsg ∧ (entry.2 = id → id ∉ next.out)) : Table next := by
  have ids : next.users.map (·.id) = book.users.map (·.id) := by
    rw [users, map_map]
    apply map_congr_left
    intro user _
    by_cases own : user.id = id
    · simp [own, (same user).1]
    · simp [own]
  have member (user : DnsUser) (here : user ∈ next.users) :
      ∃ old ∈ book.users, user = if old.id = id then change old else old := by
    rw [users] at here
    obtain ⟨old, old_there, edited⟩ := mem_map.mp here
    exact ⟨old, old_there, edited.symm⟩
  constructor
  · rw [ids]
    exact table.distinct
  · intro user here
    obtain ⟨old, old_there, edited⟩ := member user here
    rw [counter, edited]
    by_cases own : old.id = id
    · rw [if_pos own, (same old).1]
      exact table.below old old_there
    · rw [if_neg own]
      exact table.below old old_there
  · rw [ids]
    have back : (id :: book.queues.filter (· ≠ id)).Perm book.queues := by
      have nodup := queues_nodup book table
      have erased : book.queues.filter (· ≠ id) = book.queues.erase id := by
        rw [nodup.erase_eq_filter]
        simp only [ne_eq, decide_not, bne]
        rfl
      rw [erased]
      exact (perm_cons_erase there).symm
    exact (queues.trans back).trans table.queued
  · intro user here
    obtain ⟨old, old_there, edited⟩ := member user here
    rw [edited]
    by_cases own : old.id = id
    · rw [if_pos own, (same old).1, own]
      exact timer old own old_there
    · rw [if_neg own, table.timers old old_there]
      simp only [outs _ own]
  · exact keys
  · intro entry here
    obtain ⟨before, inside⟩ := entries _ here
    obtain ⟨old, old_there, keyed, owns, waits⟩ := table.entries _ before
    refine ⟨if old.id = id then change old else old, ?_, ?_⟩
    · rw [users]
      exact mem_map_of_mem old_there
    · by_cases own : old.id = id
      · rw [if_pos own, (same old).1, (same old).2]
        refine ⟨keyed, owns, ?_⟩
        rw [own]
        exact inside (owns.symm.trans own)
      · rw [if_neg own]
        exact ⟨keyed, owns, fun out => waits ((outs _ own).mp out)⟩

theorem table_drop (book next : Ledger) (id : Nat) (table : Table book)
    (users : next.users = book.users.filter (·.id ≠ id)) (queues : next.queues = book.queues.filter (· ≠ id))
    (outs : ∀ other, other ∈ next.out ↔ other ∈ book.out ∧ other ≠ id) (counter : next.nextUser = book.nextUser)
    (keys : DistinctKeys next.hashMsg) (entries : ∀ entry ∈ next.hashMsg, entry ∈ book.hashMsg ∧ entry.2 ≠ id) :
    Table next := by
  have member (user : DnsUser) : user ∈ next.users ↔ user ∈ book.users ∧ user.id ≠ id := by
    rw [users, mem_filter, decide_eq_true_eq]
  have ids : next.users.map (·.id) = (book.users.map (·.id)).filter (· ≠ id) := by
    rw [users, filter_map]
    rfl
  constructor
  · rw [ids]
    exact table.distinct.filter _
  · intro user here
    rw [counter]
    exact table.below user ((member user).mp here).1
  · rw [ids]
    change next.queues.Perm _
    rw [queues]
    exact table.queued.filter _
  · intro user here
    obtain ⟨before, other⟩ := (member user).mp here
    rw [table.timers user before]
    simp only [outs _, other, ne_eq, not_false_eq_true, and_true]
  · exact keys
  · intro entry here
    obtain ⟨before, other⟩ := entries _ here
    obtain ⟨user, there, keyed, owns, waits⟩ := table.entries _ before
    exact ⟨user, (member user).mpr ⟨there, owns ▸ other⟩, keyed, owns, fun out => waits ((outs _).mp out).1⟩

variable (book : Ledger)

theorem detach_users (id : Nat) (data : List UInt8) (answer : Option Answer) :
    (book.detach id data answer).users = book.users.map fun user =>
      if user.id = id then { user with timer := none, data := data, answer := answer } else user := by
  simp only [Ledger.detach, Ledger.edit, Ledger.dequeue, Ledger.unhash, map_map]
  apply map_congr_left
  intro user _
  by_cases own : user.id = id
  · simp [own]
  · simp [own]

theorem filter_edited (users : List DnsUser) (id : Nat) (change : DnsUser → DnsUser)
    (same : ∀ user, (change user).id = user.id) :
    (users.map fun user => if user.id = id then change user else user).filter (·.id ≠ id) = users.filter (·.id ≠ id) := by
  induction users with
  | nil => rfl
  | cons user rest ih =>
    by_cases own : user.id = id
    · simpa [own, same] using ih
    · simpa [own] using ih

theorem table_reset : Table book.reset where
  distinct := nodup_nil
  below := fun _ absent => nomatch absent
  queued := Perm.refl []
  timers := fun _ absent => nomatch absent
  keys := nodup_nil
  entries := fun _ absent => nomatch absent

theorem resend_users (user : DnsUser) (origin : Asker) (data : List UInt8) :
    (book.resend user origin data).users = book.users.map fun old =>
      if old.id = user.id then { old with data := data, timer := some fwdTimeout, origin := origin } else old := by
  simp only [Ledger.resend, Ledger.push, Ledger.edit, Ledger.dequeue, map_map]
  apply map_congr_left
  intro old _
  by_cases own : old.id = user.id
  · simp [own]
  · simp [own]

section Steps

variable (book : Ledger) (table : Table book)

include table

variable (key : UInt16) (user : DnsUser)

theorem push_add (new : user.id = book.nextUser) : (book.add user).push user = { book with
      users := book.users ++ [{ user with timer := some fwdTimeout }]
      fwd := book.fwd ++ [user.id]
      hashMsg := hashInsert book.hashMsg user.key user.id
      nextUser := book.nextUser + 1 } := by
  have others : book.users.map (fun old => if old.id = user.id then { old with timer := some fwdTimeout } else old) =
      book.users := by
    refine (map_congr_left ?_).trans (map_id _)
    intro old there
    have below := table.below old there
    exact if_neg (by omega)
  simp only [Ledger.push, Ledger.add, Ledger.edit, map_append, map_cons, map_nil, others, if_true]

theorem table_fresh (new : user.id = book.nextUser) : Table ((book.add user).push user) := by
  rw [push_add book table user new]
  have apart (old : DnsUser) (there : old ∈ book.users) : old.id ≠ user.id := by
    have below := table.below old there
    omega
  have unqueued : user.id ∉ book.queues := by
    intro queued
    obtain ⟨old, there, same⟩ := (queued_iff book table _).mp queued
    exact apart old there same
  have outside : user.id ∉ book.out := fun out => unqueued (mem_append_right _ out)
  constructor
  · rw [map_append]
    apply nodup_append.mpr
    refine ⟨table.distinct, nodup_singleton _, ?_⟩
    intro id there other single
    obtain ⟨old, member, same⟩ := mem_map.mp there
    rw [map_singleton, mem_singleton] at single
    rw [← same, single]
    exact apart old member
  · intro other there
    rcases mem_append.mp there with old | single
    · exact Nat.lt_succ_of_lt (table.below _ old)
    · rw [mem_singleton.mp single]
      exact new ▸ Nat.lt_succ_self _
  · simp only [map_append, map_cons, map_nil]
    have moved : (book.fwd ++ [user.id] ++ book.wait ++ book.out).Perm (user.id :: book.queues) := by
      simp only [Ledger.queues, append_assoc, singleton_append]
      exact perm_middle
    exact (moved.trans (table.queued.cons _)).trans (perm_append_singleton _ _).symm
  · intro other there
    rcases mem_append.mp there with old | single
    · exact table.timers _ old
    · rw [mem_singleton.mp single, if_neg outside]
  · exact hash_insert_distinct _ _ _ table.keys
  · intro entry there
    rcases hash_insert_mem _ _ _ _ there with ⟨same, _⟩ | before
    · rw [same]
      exact ⟨_, mem_append_right _ (mem_singleton.mpr rfl), rfl, rfl, outside⟩
    · obtain ⟨old, member, keyed, owns, waits⟩ := table.entries _ before
      exact ⟨old, mem_append_left _ member, keyed, owns, waits⟩

theorem resend_hash (found : book.find key = some user) (origin : Asker)
    (data : List UInt8) : (book.resend user origin data).hashMsg = book.hashMsg := by
  obtain ⟨_, keyed, _⟩ := find_mem book table key user found
  obtain ⟨id, hit, pointed⟩ := Option.bind_eq_some_iff.mp found
  apply hash_insert_old _ _ _ id
  rw [keyed]
  exact hit

theorem table_resend (found : book.find key = some user) (origin : Asker)
    (data : List UInt8) : Table (book.resend user origin data) := by
  obtain ⟨there, keyed, waits⟩ := find_mem book table key user found
  have queued : user.id ∈ book.queues := (queued_iff book table _).mpr ⟨user, there, rfl⟩
  have outs (other : Nat) (apart : other ≠ user.id) :
      other ∈ (book.resend user origin data).out ↔ other ∈ book.out := by
    change other ∈ (book.dequeue _).out ↔ _
    rw [out_dequeue book table _ _]
    exact and_iff_left apart
  have gone : user.id ∉ (book.resend user origin data).out := fun out => ((out_dequeue book table _ _).mp out).2 rfl
  have kept := resend_hash book table key user found origin data
  apply table_move book _ _ _ table queued (resend_users book user _ data)
  · exact fun _ => ⟨rfl, rfl⟩
  · intro old _ _
    rw [if_neg gone]
  · change (book.dequeue _).fwd ++ [user.id] ++ (book.dequeue _).wait ++ (book.dequeue _).out |>.Perm _
    rw [← queues_dequeue book table _]
    simp only [Ledger.queues, append_assoc, singleton_append]
    exact perm_middle
  · exact outs
  · rfl
  · rw [kept]
    exact table.keys
  · intro entry inside
    rw [kept] at inside
    exact ⟨inside, fun _ => gone⟩

theorem table_forward (queued : user.id ∈ book.fwd) : Table (book.forward user) := by
  have member : user.id ∈ book.queues := mem_append_left _ (mem_append_left _ queued)
  have nodup := queues_nodup book table
  have outside : user.id ∉ book.out := by
    intro out
    rw [Ledger.queues, nodup_append] at nodup
    exact nodup.2.2 _ (mem_append_left _ queued) _ out rfl
  have gone : user.id ∉ (book.forward user).out := fun out => ((out_dequeue book table _ _).mp out).2 rfl
  apply table_move book _ _ _ table member rfl
  · exact fun _ => ⟨rfl, rfl⟩
  · intro old own old_there
    rw [if_neg gone]
    rw [table.timers old old_there, own, if_neg outside]
  · change (book.dequeue _).fwd ++ ((book.dequeue _).wait ++ [user.id]) ++ (book.dequeue _).out |>.Perm _
    rw [← queues_dequeue book table _]
    simp only [Ledger.queues, append_assoc, singleton_append]
    rw [← append_assoc, ← append_assoc]
    exact perm_middle
  · intro other apart
    change other ∈ (book.dequeue _).out ↔ _
    rw [out_dequeue book table _ _]
    exact and_iff_left apart
  · rfl
  · exact table.keys
  · exact fun entry inside => ⟨inside, fun _ => gone⟩

theorem table_answered (found : book.find key = some user) (data : List UInt8)
    (answer : Option Answer) : Table (book.answered user data answer) := by
  obtain ⟨there, _, _⟩ := find_mem book table key user found
  have queued : user.id ∈ book.queues := (queued_iff book table _).mpr ⟨user, there, rfl⟩
  have inside : user.id ∈ (book.answered user data answer).out := mem_append_right _ (mem_singleton.mpr rfl)
  apply table_move book (book.answered user data _) _ _ table queued (detach_users book _ data _)
  · exact fun _ => ⟨rfl, rfl⟩
  · intro old _ _
    rw [if_pos inside]
  · change (book.dequeue _).fwd ++ (book.dequeue _).wait ++ ((book.dequeue _).out ++ [user.id]) |>.Perm _
    rw [← append_assoc, ← queues_dequeue book table _]
    exact perm_append_singleton _ _
  · intro other apart
    change other ∈ (book.dequeue _).out ++ [user.id] ↔ _
    rw [mem_append, out_dequeue book table _ _, mem_singleton]
    constructor
    · rintro (out | same)
      · exact out.1
      · exact absurd same apart
    · exact fun out => .inl ⟨out, apart⟩
  · rfl
  · exact hash_remove_distinct _ _ table.keys
  · intro entry kept
    obtain ⟨before, other⟩ := (hash_remove_mem _ _ _).mp kept
    exact ⟨before, fun same => absurd same other⟩

theorem table_dropped (id : Nat) (data : List UInt8) (answer : Option Answer) :
    Table ((book.detach id data answer).free id) := by
  apply table_drop book _ id table
  · change (book.detach id data _).users.filter _ = _
    rw [detach_users book id data _]
    exact filter_edited _ id _ fun _ => rfl
  · exact queues_dequeue book table id
  · exact out_dequeue book table id
  · rfl
  · exact hash_remove_distinct _ _ table.keys
  · exact fun entry kept => (hash_remove_mem _ _ _).mp kept

theorem table_expire (id : Nat) : Table (book.expire id) := by
  apply table_drop book _ id table
  · exact filter_edited _ id _ fun _ => rfl
  · exact queues_dequeue book table id
  · exact out_dequeue book table id
  · rfl
  · exact hash_remove_distinct _ _ table.keys
  · exact fun entry kept => (hash_remove_mem _ _ _).mp kept

theorem table_deliver (queued : user.id ∈ book.out) : Table (book.deliver user) := by
  apply table_drop book _ _ table
  · rfl
  · exact queues_dequeue book table _
  · exact out_dequeue book table _
  · rfl
  · exact table.keys
  · intro entry inside
    refine ⟨inside, ?_⟩
    intro same
    obtain ⟨owner, _, _, owns, waits⟩ := table.entries _ inside
    exact waits (owns.trans same ▸ queued)

theorem effect_table (admits : Ledger → UInt16 → Prop) (heeds : DnsUser → Asker → Prop)
    (hears : DnsUser → List UInt8 → Option Answer → Prop) (next : Ledger)
    (effect : Effect admits heeds hears book next) : Table next := by
  cases effect with
  | fresh user new _ _ _ => exact table_fresh book table user new
  | resend key user found origin data _ => exact table_resend book table key user found _ data
  | forward user _ queued => exact table_forward book table user queued
  | answered key user found data answer _ _ => exact table_answered book table key user found data _
  | dropped key user found data answer => exact table_dropped book table _ data _
  | deliver user _ queued => exact table_deliver book table user queued
  | expire user _ _ => exact table_expire book table _
  | reset => exact table_reset book

end Steps

def Hashed (book : Ledger) : Prop := ∀ user ∈ book.users, user.id ∉ book.out → hashFind book.hashMsg user.key = some user.id

def Unused (book : Ledger) (key : UInt16) : Prop := hashFind book.hashMsg key = none

theorem find_none (table : Table book) (key : UInt16) (absent : book.find key = none) : Unused book key := by
  cases hit : hashFind _ key with
  | none => exact hit
  | some id =>
    obtain ⟨user, there, _, owns, _⟩ := table.entries _ (hash_find_mem _ key id hit)
    have live := user_of_mem book table.distinct user there
    rw [owns] at live
    rw [Ledger.find, hit, Option.bind_some, live] at absent
    cases absent

theorem hashed_carry (book next : Ledger) (hashed : Hashed book)
    (carry : ∀ user ∈ next.users, user.id ∉ next.out → ∃ old ∈ book.users, old.id = user.id ∧ old.key = user.key ∧
      old.id ∉ book.out ∧ (hashFind book.hashMsg old.key = some old.id → hashFind next.hashMsg old.key = some old.id)) :
    Hashed next := by
  intro user there waits
  obtain ⟨old, before, same, keyed, waited, kept⟩ := carry user there waits
  rw [← same, ← keyed]
  exact kept (hashed old before waited)

theorem hashed_edit (hashed : Hashed book) (next : Ledger) (id : Nat) (change : DnsUser → DnsUser)
    (users : next.users = book.users.map fun user => if user.id = id then change user else user)
    (same : ∀ user, (change user).id = user.id ∧ (change user).key = user.key)
    (outs : ∀ other, other ∉ next.out → other ∉ book.out)
    (hash : ∀ key other, other ∉ next.out → hashFind book.hashMsg key = some other →
      hashFind next.hashMsg key = some other) : Hashed next := by
  apply hashed_carry book next hashed
  intro user there waits
  rw [users] at there
  obtain ⟨old, before, edited⟩ := mem_map.mp there
  have kept : old.id = user.id ∧ old.key = user.key := by
    rw [← edited]
    by_cases own : old.id = id
    · rw [if_pos own]
      exact ⟨(same old).1.symm, (same old).2.symm⟩
    · rw [if_neg own]
      exact ⟨rfl, rfl⟩
  rw [← kept.1] at waits
  exact ⟨old, before, kept.1, kept.2, outs _ waits, hash _ _ waits⟩

theorem hashed_free (hashed : Hashed book) (next : Ledger) (id : Nat) (users : next.users = book.users.filter (·.id ≠ id))
    (outs : ∀ other, other ∈ next.out ↔ other ∈ book.out ∧ other ≠ id)
    (hash : ∀ key other, other ≠ id → hashFind book.hashMsg key = some other →
      hashFind next.hashMsg key = some other) : Hashed next := by
  apply hashed_carry book next hashed
  intro user there waits
  rw [users, mem_filter, decide_eq_true_eq] at there
  refine ⟨user, there.1, rfl, rfl, ?_, hash _ _ there.2⟩
  exact fun out => waits ((outs _).mpr ⟨out, there.2⟩)

section Hash

variable (book : Ledger) (table : Table book) (hashed : Hashed book)

include table hashed

theorem hashed_fresh (user : DnsUser) (new : user.id = book.nextUser) (unused : Unused book user.key) :
    Hashed ((book.add user).push user) := by
  rw [push_add book table user new]
  intro other there waits
  rw [hash_insert_find]
  rcases mem_append.mp there with old | single
  · have found := hashed _ old waits
    by_cases same : other.key = user.key
    · rw [same, unused] at found
      cases found
    · rw [if_neg same]
      exact found
  · rw [mem_singleton.mp single, if_pos rfl, unused]
    rfl

theorem effect_hashed (heeds : DnsUser → Asker → Prop)
    (hears : DnsUser → List UInt8 → Option Answer → Prop) (next : Ledger) (effect : Effect Unused heeds hears book next) :
    Hashed next := by
  have removed (id : Nat) (key : UInt16) (other : Nat) (apart : other ≠ id)
      (found : hashFind _ key = some _) : hashFind _ key = some _ :=
    hash_remove_find _ table.keys id _ key apart found
  cases effect with
  | fresh user new own unanswered admitted =>
    apply hashed_fresh book table hashed user new
    by_cases self : user.querySelf = true
    · rwa [if_pos self] at admitted
    · rw [if_neg self] at admitted
      exact find_none book table _ admitted
  | resend key user found origin data _ =>
    have waits := (find_mem book table key user found).2.2
    apply hashed_edit book hashed _ _ _ (resend_users book user _ data)
    · exact fun _ => ⟨rfl, rfl⟩
    · intro other outside inside
      have apart : other ≠ user.id := fun same => waits (same ▸ inside)
      exact outside ((out_dequeue book table _ _).mpr ⟨inside, apart⟩)
    · intro other_key other _ hit
      rw [resend_hash book table key user found _ data]
      exact hit
  | forward user there queued =>
    have gone : user.id ∉ book.out := by
      have nodup := queues_nodup book table
      rw [Ledger.queues, nodup_append] at nodup
      exact fun out => nodup.2.2 _ (mem_append_left _ queued) _ out rfl
    apply hashed_edit book hashed _ _ _ rfl
    · exact fun _ => ⟨rfl, rfl⟩
    · intro other outside inside
      have apart : other ≠ user.id := fun same => gone (same ▸ inside)
      exact outside ((out_dequeue book table _ _).mpr ⟨inside, apart⟩)
    · exact fun _ _ _ found => found
  | answered key user found data answer _ _ =>
    apply hashed_edit book hashed (book.answered user data _) _ _ (detach_users book _ data _)
    · exact fun _ => ⟨rfl, rfl⟩
    · intro other outside inside
      have apart : other ≠ user.id := fun same => outside (mem_append_right _ (mem_singleton.mpr same))
      exact outside (mem_append_left _ ((out_dequeue book table _ _).mpr ⟨inside, apart⟩))
    · intro other_key other outside
      exact removed _ _ _ fun same =>
        outside (mem_append_right _ (mem_singleton.mpr same))
  | dropped key user found data answer =>
    apply hashed_free book hashed ((book.detach _ data _).free _) _ _ (out_dequeue book table _)
    · exact fun _ _ apart => removed _ _ _ apart
    · change (book.detach _ data _).users.filter _ = _
      rw [detach_users book _ data _]
      exact filter_edited _ _ _ fun _ => rfl
  | deliver user there queued =>
    apply hashed_free book hashed (book.deliver user) _ rfl (out_dequeue book table _)
    exact fun _ _ _ found => found
  | expire user there pending =>
    apply hashed_free book hashed (book.expire _) _ _ (out_dequeue book table _)
    · exact fun _ _ apart => removed _ _ _ apart
    · exact filter_edited _ _ _ fun _ => rfl
  | reset => exact fun _ absent => nomatch absent

end Hash

end Codec.Fw
