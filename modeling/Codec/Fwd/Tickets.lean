import Codec.Ems.HashRefine

set_option autoImplicit false

namespace Codec.Fwd.Tickets

open Codec.Lib Codec.Ems

-- fwd_hash is ems_hash again. The ticket of an entry may change.
structure FwdHash where
  table : EmsHash
  key : Nat → Str

inductive TicketOp where
  | setTicket (id : Nat) (ticket : Str)
  | on (op : HashOp)

section Calls

variable (base fuel : Nat) (hash : FwdHash)

-- fwd_hash_init, and fwd_hash_fd_init and a first fwd_hash_fd_set_ticket for
-- each entry.
def fwdHashInit (key : Nat → Str) : FwdHash := ⟨EmsHash.init key, key⟩

def fwdHashFdSetTicket (id : Nat) (ticket : Str) : HashReply × FwdHash :=
  (.status 0, ⟨{ hash.table with crc := Function.update hash.table.crc id (hashCrc ticket).toInt }, Function.update hash.key id ticket⟩)

def fwdHashInsert (id : Nat) : HashReply × FwdHash :=
  let done := emsHashInsert base hash.key fuel hash.table id
  (done.1, { hash with table := done.2 })

def fwdHashFind (wanted : Str) : HashReply := emsHashFind base hash.key fuel hash.table wanted

def fwdHashRemove (id : Nat) : HashReply × FwdHash :=
  let done := emsHashRemove hash.table id
  (done.1, { hash with table := done.2 })

def fwdHashWalk (removes stops : Nat → Bool) : HashReply × FwdHash :=
  let done := emsHashWalk base fuel hash.table removes stops
  (done.1, { hash with table := done.2 })

def FwdHash.call : TicketOp → HashReply × FwdHash
  | .setTicket id ticket => fwdHashFdSetTicket hash id ticket
  | .on (.insert id) => fwdHashInsert base fuel hash id
  | .on (.find wanted) => (fwdHashFind base fuel hash wanted, hash)
  | .on (.remove id) => fwdHashRemove hash id
  | .on (.walk removes stops) => fwdHashWalk base fuel hash removes stops

theorem call_on (op : HashOp) : FwdHash.call base fuel hash (.on op) =
    ((EmsHash.call base hash.key fuel hash.table op).1, { hash with table := (EmsHash.call base hash.key fuel hash.table op).2 }) := by
  cases op <;> rfl

def FwdHash.Fine : TicketOp → Prop
  | .setTicket id ticket => ticket = hash.key id ∨ fwdHashFind base fuel hash (hash.key id) ≠ .fd (some id)
  | .on op => hash.table.Fine op

instance FwdHash.decidableFine (op : TicketOp) : Decidable (hash.Fine base fuel op) := by
  cases op <;> unfold FwdHash.Fine <;> infer_instance

end Calls

structure TicketMap where
  ticket : Nat → Str
  entries : List (Str × Nat)

namespace TicketMap

variable (map : TicketMap)

def Answers : TicketOp → HashReply → Prop
  | .setTicket _ _, reply => reply = .status 0
  | .on op, reply => Answered map.ticket map.entries op reply

def next : TicketOp → HashReply → TicketMap
  | .setTicket id ticket, _ => { map with ticket := Function.update map.ticket id ticket }
  | .on op, reply => { map with entries := mapAfter map.ticket map.entries op reply }

end TicketMap

def AsTicketMap (map : TicketMap) : List TicketOp → List HashReply → Prop
  | [], [] => True
  | op :: ops, reply :: replies => map.Answers op reply ∧ AsTicketMap (map.next op reply) ops replies
  | _, _ => False

section Index

variable (base fuel : Nat)

def Counted (hash : FwdHash) : Prop := ∀ id, 0 ≤ hash.table.crc id

theorem crc_kept (hash : EmsHash) (key : Nat → Str) (op : HashOp) (counted : ∀ id, 0 ≤ hash.crc id) (id : Nat) :
    0 ≤ (EmsHash.call base key fuel hash op).2.crc id := by
  cases op with
  | insert entry =>
    have reduced : 0 ≤ Function.update hash.crc entry ((hash.crc entry).tmod base) id := by
      rw [Function.update_apply]
      split
      · exact Int.tmod_nonneg _ (counted _)
      · exact counted id
    rw [EmsHash.call, emsHashInsert]
    split <;> exact reduced
  | find wanted => exact counted id
  | remove entry => exact counted id
  | walk removes stops =>
    rw [EmsHash.call, emsHashWalk]
    split <;> exact counted id

theorem counted_call (hash : FwdHash) (counted : Counted hash) (op : TicketOp) : Counted (FwdHash.call base fuel hash op).2 := by
  intro id
  cases op with
  | setTicket entry ticket =>
    show 0 ≤ Function.update hash.table.crc _ _ id
    rw [Function.update_apply]
    split
    · rw [hash_crc_int]
      exact Int.natCast_nonneg _
    · exact counted id
  | on op =>
    rw [call_on]
    exact crc_kept base fuel _ _ op counted id

theorem counted_run (hash : FwdHash) (counted : Counted hash) (ops : List TicketOp) :
    Counted (run (after (FwdHash.call base fuel)) hash ops) := by
  induction ops generalizing hash with
  | nil => exact counted
  | cons op rest ih => exact ih _ (counted_call base fuel hash counted op)

theorem counted_init (key : Nat → Str) : Counted (fwdHashInit key) := by
  intro id
  show 0 ≤ (hashCrc _).toInt
  rw [hash_crc_int]
  exact Int.natCast_nonneg _

end Index

section Refine

variable {base : Nat} {key : Nat → Str} {hash : EmsHash} {entries : List (Str × Nat)} {buckets : Int → List Nat}

theorem rep_renamed (rep : Rep base key hash entries buckets) (id : Nat) (ticket : Str) (out : (key id, id) ∉ entries) :
    Rep base (Function.update key id ticket) { hash with crc := Function.update hash.crc id (hashCrc ticket).toInt } entries buckets := by
  have absent (crc : Int) : id ∉ buckets crc := fun there => out (rep.listed id crc there)
  have other (entry : Nat) (crc : Int) (there : entry ∈ buckets crc) : Function.update key id ticket _ = key _ :=
    Function.update_of_ne (ne_of_mem_of_not_mem there (absent crc)) _ _
  refine ⟨rep.ring, ?_, rep.nodup, ?_, ?_, rep.distinct, ?_⟩
  · intro crc entry there
    rw [other _ crc there]
    exact rep.own crc _ there
  · intro entry
    by_cases same : entry = id
    · rw [same]
      refine iff_of_false (absent _) ?_
      intro there
      have keyed := rep.keyed _ there
      exact out (keyed ▸ there)
    · rw [Function.update_of_ne same]
      exact rep.mem _
  · intro entry there
    have apart : entry.2 ≠ id := by
      intro same
      have keyed := rep.keyed _ there
      rw [same] at keyed
      exact out (keyed ▸ same ▸ there)
    rw [Function.update_of_ne apart]
    exact rep.keyed _ there
  · intro entry
    dsimp only
    by_cases same : entry = id
    · rw [same, Function.update_self, Function.update_self]
      rfl
    · rw [Function.update_of_ne same, Function.update_of_ne same]
      exact rep.crc _

theorem rep_again (rep : Rep base key hash entries buckets) (id : Nat) :
    Rep base key { hash with crc := Function.update hash.crc id (hashCrc (key id)).toInt } entries buckets := by
  refine { rep with crc := ?_ }
  intro entry
  dsimp only
  rw [Function.update_apply]
  split
  · rename_i same
    rw [same]
    rfl
  · exact rep.crc _

end Refine

section Run

variable {base : Nat}

def Stands (base : Nat) (hash : FwdHash) (map : TicketMap) : Prop :=
  map.ticket = hash.key ∧ ∃ buckets, Rep base hash.key hash.table map.entries buckets

theorem stands_call (positive : 0 < base) (fuel : Nat) (hash : FwdHash) (map : TicketMap) (stands : Stands base hash map)
    (enough : map.entries.length < fuel) (op : TicketOp) (fine : hash.Fine base fuel op) :
    map.Answers op (FwdHash.call base fuel hash op).1 ∧
      Stands base (FwdHash.call base fuel hash op).2 (map.next op (FwdHash.call base fuel hash op).1) := by
  obtain ⟨same, buckets, rep⟩ := stands
  cases op with
  | setTicket id ticket =>
    have renamed : Function.update map.ticket id ticket = Function.update hash.key id ticket := by rw [same]
    refine ⟨rfl, renamed, buckets, ?_⟩
    rcases fine with old | lost
    · show Rep base (Function.update _ id _) _ _ _
      rw [old, Function.update_eq_self]
      exact rep_again rep id
    · refine rep_renamed rep id _ ?_
      intro there
      refine lost ?_
      rw [fwdHashFind, rep.found fuel _ enough, hash_find_of_mem _ rep.distinct _ _ there]
  | on op =>
    obtain ⟨answered, next⟩ := rep.call positive fuel enough op fine
    rw [call_on, TicketMap.Answers, TicketMap.next, same]
    exact ⟨answered, rfl, next⟩

theorem next_length (map : TicketMap) (op : TicketOp) (reply : HashReply) : (map.next op reply).entries.length ≤ map.entries.length + 1 := by
  cases op with
  | setTicket id ticket => exact Nat.le_succ _
  | on op => exact map_after_length _ _ op _

theorem stands_run (positive : 0 < base) (fuel : Nat) (ops : List TicketOp) (hash : FwdHash) (map : TicketMap) (stands : Stands base hash map)
    (enough : map.entries.length + ops.length ≤ fuel)
    (fine : AllSteps (after (FwdHash.call base fuel)) (fun hash op => hash.Fine base fuel op) hash ops) :
    AsTicketMap map ops (replies (FwdHash.call base fuel) hash ops) := by
  induction ops generalizing hash map with
  | nil => trivial
  | cons op rest ih =>
    rw [List.length_cons] at enough
    obtain ⟨answered, next⟩ := stands_call positive fuel hash map stands (by omega) op fine.1
    have longer := next_length map op (FwdHash.call base fuel hash op).1
    exact ⟨answered, ih _ _ next (by omega) fine.2⟩

theorem tickets_refine_map (base : Nat) (size : 2 < base) (key : Nat → Str) (ops : List TicketOp) (fuel : Nat) (enough : ops.length ≤ fuel) :
    (∀ wanted, 0 ≤ bucketOf base wanted ∧ bucketOf base wanted < base) ∧
      (∀ id, 0 ≤ ((run (after (FwdHash.call base fuel)) (fwdHashInit key) ops).table.crc id).tmod base ∧
        ((run (after (FwdHash.call base fuel)) (fwdHashInit key) ops).table.crc id).tmod base < base) ∧
      (AllSteps (after (FwdHash.call base fuel)) (fun hash op => hash.Fine base fuel op) (fwdHashInit key) ops →
        AsTicketMap ⟨key, []⟩ ops (replies (FwdHash.call base fuel) (fwdHashInit key) ops)) := by
  have positive : 0 < base := Nat.lt_trans Nat.two_pos size
  refine ⟨bucket_of_range base positive, ?_, ?_⟩
  · intro id
    have counted := counted_run base fuel _ (counted_init key) ops id
    exact ⟨Int.tmod_nonneg _ counted, Int.tmod_lt_of_pos _ (by exact_mod_cast positive)⟩
  · intro fine
    refine stands_run positive fuel ops _ _ ⟨rfl, _, rep_init⟩ ?_ fine
    show 0 + ops.length ≤ fuel
    omega

theorem tickets_refine_map_sample : AsTicketMap ⟨fun id => [0xe4, UInt8.ofNat id], []⟩
      [.on (.insert 1), .on (.insert 5), .on (.remove 1), .setTicket 1 [0xe4, 5], .on (.insert 1), .on (.find [0xe4, 5])]
      (replies (FwdHash.call 4 6) (fwdHashInit fun id => [0xe4, UInt8.ofNat id])
        [.on (.insert 1), .on (.insert 5), .on (.remove 1), .setTicket 1 [0xe4, 5], .on (.insert 1), .on (.find [0xe4, 5])]) :=
  (tickets_refine_map 4 (by decide) _ _ 6 (by decide)).2.2 (by decide +kernel)

-- The session 2 stands behind the head where 1 stood; the second removal of 1
-- links the head to itself.
theorem ticket_lost : ¬ ∀ base, 2 < base → ∀ key : Nat → Str, ∀ ops : List TicketOp, ∀ fuel, ops.length ≤ fuel →
      AsTicketMap ⟨key, []⟩ ops (replies (FwdHash.call base fuel) (fwdHashInit key) ops) := by
  intro claim
  have all := claim 4 (by decide) (fun id => [UInt8.ofNat (4 * id)])
    [.on (.insert 1), .on (.remove 1), .on (.insert 2), .on (.remove 1), .on (.find [8])] 5 (by decide)
  have last : replies (FwdHash.call 4 5) (fwdHashInit fun id => [UInt8.ofNat (4 * id)])
      [.on (.insert 1), .on (.remove 1), .on (.insert 2), .on (.remove 1), .on (.find [8])] =
      [.status 0, .fd (some 1), .status 0, .fd (some 1), .fd none] := by decide +kernel
  rw [last] at all
  obtain ⟨-, -, -, -, found, -⟩ := all
  have entry : HashReply.fd none ≠ .fd (some 2) := by decide
  exact entry found

end Run

end Codec.Fwd.Tickets
