import Codec.Fw.State

set_option autoImplicit false

namespace Codec.Fw

open Codec.Ems Relation

-- The pending queries by themselves: the users, the three queues, the hash
-- and what has left through the two sockets.
structure Ledger where
  users : List DnsUser
  fwd : List Nat
  wait : List Nat
  out : List Nat
  hashMsg : List (UInt16 × Nat)
  nextUser : Nat
  upstream : List Query
  sent : List Sent

def EmsFw.ledger (fw : EmsFw) : Ledger where
  users := fw.users
  fwd := fw.fwd
  wait := fw.wait
  out := fw.out
  hashMsg := fw.hashMsg
  nextUser := fw.nextUser
  upstream := fw.upstream
  sent := fw.sent

namespace Ledger

variable (book : Ledger)

def user? (id : Nat) : Option DnsUser := book.users.find? (·.id = id)

def find (key : UInt16) : Option DnsUser := (hashFind book.hashMsg key).bind book.user?

def edit (id : Nat) (change : DnsUser → DnsUser) : Ledger :=
  { book with users := book.users.map fun user => if user.id = id then change user else user }

def dequeue (id : Nat) : Ledger := { book with fwd := book.fwd.erase id, wait := book.wait.erase id, out := book.out.erase id }

def unhash (id : Nat) : Ledger := { book with hashMsg := hashRemove book.hashMsg id }

def free (id : Nat) : Ledger := { book with users := book.users.filter (·.id ≠ id) }

def add (user : DnsUser) : Ledger := { book with users := book.users ++ [user], nextUser := book.nextUser + 1 }

def push (user : DnsUser) : Ledger :=
  { book with
    fwd := book.fwd ++ [user.id]
    hashMsg := hashInsert book.hashMsg user.key user.id }.edit user.id fun user => { user with timer := some fwdTimeout }

def detach (id : Nat) (data : List UInt8) (answer : Option Answer) : Ledger :=
  (((book.dequeue id).edit id fun user => { user with timer := none }).unhash id).edit id
    fun user => { user with data := data, answer := answer }

def resend (user : DnsUser) (origin : Asker) (data : List UInt8) : Ledger :=
  ((book.dequeue user.id).edit user.id fun user =>
    { user with data := data, timer := none, origin := origin }).push user

def forward (user : DnsUser) : Ledger :=
  let book := { book with upstream := book.upstream ++ [Query.mk user.origin user.data] }
  let book := (book.edit user.id fun user => { user with data := [] }).dequeue user.id
  { book with wait := book.wait ++ [user.id] }

def answered (user : DnsUser) (data : List UInt8) (answer : Option Answer) : Ledger :=
  let book := book.detach user.id data answer
  { book with out := book.out ++ [user.id] }

def deliver (user : DnsUser) : Ledger :=
  ({ book with sent := book.sent ++ [Sent.mk user.addr user.port user.data user.answer] }.dequeue user.id).free user.id

def expire (id : Nat) : Ledger := (((book.edit id fun user => { user with timer := none }).dequeue id).unhash id).free id

def reset : Ledger := { book with users := [], fwd := [], wait := [], out := [], hashMsg := [] }

end Ledger

-- Everything that can happen to the pending queries. A query of the proxy
-- itself is entered under an id that `admits` lets in, a request finds only
-- queries that `heeds` lets it find and a reply only those that `hears` does.
section Effects

variable (admits : Ledger → UInt16 → Prop) (heeds : DnsUser → Asker → Prop)
  (hears : DnsUser → List UInt8 → Option Answer → Prop)

inductive Effect (book : Ledger) : Ledger → Prop where
  | fresh (user : DnsUser) (new : user.id = book.nextUser) (own : user.origin = user.asker)
      (unanswered : user.answer = none)
      (admitted : if user.querySelf then admits book user.key else book.find user.key = none) : Effect book ((book.add user).push user)
  | resend (key : UInt16) (user : DnsUser) (found : book.find key = some user) (origin : Asker) (data : List UInt8)
      (heeded : heeds user origin) : Effect book (book.resend user origin data)
  | forward (user : DnsUser) (there : book.user? user.id = some user) (queued : user.id ∈ book.fwd) :
      Effect book (book.forward user)
  | answered (key : UInt16) (user : DnsUser) (found : book.find key = some user) (data : List UInt8)
      (answer : Option Answer) (client : user.querySelf = false)
      (heard : hears user data answer) : Effect book (book.answered user data answer)
  | dropped (key : UInt16) (user : DnsUser) (found : book.find key = some user) (data : List UInt8)
      (answer : Option Answer) : Effect book ((book.detach user.id data answer).free user.id)
  | deliver (user : DnsUser) (there : book.user? user.id = some user) (queued : user.id ∈ book.out) :
      Effect book (book.deliver user)
  | expire (user : DnsUser) (there : book.user? user.id = some user) (pending : user.timer ≠ none) :
      Effect book (book.expire user.id)
  | reset : Effect book book.reset

def Effects : Ledger → Ledger → Prop := ReflTransGen (Effect admits heeds hears)

theorem effects_keep (keeps : Ledger → Prop)
    (preserved : ∀ book next, keeps book → Effect admits heeds hears book next → keeps next) (book next : Ledger)
    (effects : Effects admits heeds hears book next) (good : keeps book) : keeps next := by
  induction effects with
  | refl => exact good
  | tail _ last ih => exact preserved _ _ ih last

end Effects

end Codec.Fw
