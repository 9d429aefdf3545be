import Codec.Ems.Hash
import Mathlib.Data.List.Perm.Subperm

set_option autoImplicit false

namespace Codec.Ems

open Codec.Lib List

variable (base : Nat) (key : Nat → Str)

structure Rep (hash : EmsHash) (entries : List (Str × Nat)) (buckets : Int → List Nat) : Prop where
  ring : ∀ crc, hash.links.Ring (.bucket crc) ((buckets crc).map .entry)
  own : ∀ crc, ∀ id ∈ buckets crc, bucketOf base (key id) = crc
  nodup : ∀ crc, (buckets crc).Nodup
  mem : ∀ id, id ∈ buckets (bucketOf base (key id)) ↔ (key id, id) ∈ entries
  keyed : ∀ entry ∈ entries, entry.1 = key entry.2
  distinct : DistinctKeys entries
  crc : ∀ id, (hash.crc id).tmod base = bucketOf base (key id)

def bucketNodes (buckets : Int → List Nat) (crc : Int) : List HashNode := .bucket crc :: (buckets crc).map .entry

theorem bucket_nodes_entry (buckets : Int → List Nat) (crc : Int) (id : Nat) :
    HashNode.entry id ∈ bucketNodes buckets crc ↔ id ∈ buckets crc := by
  simp [bucketNodes]

theorem bucket_nodes_bucket (buckets : Int → List Nat) (crc other : Int) :
    HashNode.bucket other ∈ bucketNodes buckets crc ↔ other = crc := by
  simp [bucketNodes]

variable {base key} {hash : EmsHash} {entries : List (Str × Nat)} {buckets : Int → List Nat}

theorem rep_init : Rep base key (EmsHash.init key) [] (fun _ => []) where
  ring := fun crc => Links.ring_alone _
  own := fun _ _ inside => nomatch inside
  nodup := fun _ => nodup_nil
  mem := fun _ => by simp
  keyed := fun _ inside => nomatch inside
  distinct := nodup_nil
  crc := fun _ => rfl

section Rep

variable (rep : Rep base key hash entries buckets)

include rep

theorem Rep.nodes_nodup (crc : Int) : (bucketNodes buckets crc).Nodup := by
  refine nodup_cons.mpr ⟨by simp, (rep.nodup crc).map ?_⟩
  intro one other same
  exact HashNode.entry.inj same

theorem Rep.apart (node : HashNode) (crc other : Int) (here : node ∈ bucketNodes buckets crc)
    (there : node ∈ bucketNodes buckets other) : crc = other := by
  cases node with
  | bucket own => rw [← (bucket_nodes_bucket _ crc own).mp here, ← (bucket_nodes_bucket _ _ own).mp there]
  | entry id =>
    rw [bucket_nodes_entry] at here there
    rw [← rep.own crc id here, ← rep.own _ id there]

theorem Rep.listed (id : Nat) (crc : Int) (inside : id ∈ buckets crc) : (key id, id) ∈ entries :=
  (rep.mem id).mp ((rep.own crc id inside).symm ▸ inside)

theorem Rep.length (crc : Int) : (buckets crc).length ≤ entries.length := by
  have inside : buckets crc ⊆ entries.map Prod.snd := fun id there =>
    mem_map.mpr ⟨(key id, id), rep.listed id crc there, rfl⟩
  exact (subperm_of_subset (rep.nodup crc) inside).length_le.trans_eq (length_map _)

theorem Rep.find (wanted : Str) :
    (buckets (bucketOf base wanted)).find? (fun id => key id = wanted) = hashFind entries wanted := by
  cases found : hashFind _ wanted with
  | none =>
    rw [find?_eq_none]
    intro id there
    rw [decide_eq_true_eq]
    intro same
    exact (hash_find_none _ _).mp found id (same ▸ rep.listed id _ there)
  | some id =>
    have entry := hash_find_mem _ _ id found
    have own : wanted = key id := rep.keyed _ entry
    have there : id ∈ buckets _ := own ▸ (rep.mem id).mpr (own ▸ entry)
    cases hit : (buckets _).find? _ with
    | none => exact absurd own.symm (by simpa using find?_eq_none.mp hit id there)
    | some other =>
      have same : key other = wanted := by simpa using find?_some hit
      have listed := rep.listed _ _ (mem_of_find?_eq_some hit)
      rw [same] at listed
      rw [← found, hash_find_of_mem _ rep.distinct _ _ listed]

theorem Rep.search (wanted : Str) (fuel : Nat) (enough : entries.length < fuel) :
    hashSearch key fuel hash (bucketOf base wanted) wanted = some ((hashFind entries wanted).map .entry) := by
  have found := Links.search_ring _ (onEntry fun id => key id = wanted) (.bucket (bucketOf base wanted)) _
    (rep.ring _) (rep.nodes_nodup _) fuel (by rw [length_map]; exact (rep.length _).trans_lt enough)
  rw [hashSearch, found, find?_map, ← rep.find _]
  rfl

end Rep

section Calls

variable (fuel : Nat)

def Detached (links : Links HashNode) (node : HashNode) : Prop :=
  links.prev (links.next node) = links.prev node ∧ links.next (links.prev node) = links.next node

def InPlace (links : Links HashNode) (node : HashNode) : Prop :=
  links.prev (links.next node) = node ∧ links.next (links.prev node) = node

instance (links : Links HashNode) (node : HashNode) : Decidable (Detached links node) := inferInstanceAs (Decidable (_ ∧ _))

instance (links : Links HashNode) (node : HashNode) : Decidable (InPlace links node) := inferInstanceAs (Decidable (_ ∧ _))

def EmsHash.Fine (hash : EmsHash) : HashOp → Prop
  | .remove id => InPlace hash.links (.entry id) ∨ Detached hash.links (.entry id)
  | _ => True

instance EmsHash.decidableFine (hash : EmsHash) (op : HashOp) : Decidable (hash.Fine op) := by
  cases op <;> unfold EmsHash.Fine <;> infer_instance

theorem crc_update (hash : EmsHash) (crc : ∀ id, (hash.crc id).tmod base = bucketOf base (key id)) (id other : Nat) :
    (Function.update hash.crc id ((hash.crc id).tmod base) other).tmod base = bucketOf base (key other) := by
  rw [Function.update_apply]
  split
  · rename_i same
    rw [Int.tmod_tmod, same, crc id]
  · exact crc _

section Rep

variable (rep : Rep base key hash entries buckets)

include rep

theorem Rep.counted (id : Nat) :
    Rep base key { hash with crc := Function.update hash.crc id ((hash.crc id).tmod base) } entries buckets :=
  { rep with crc := crc_update hash rep.crc id }

theorem Rep.linked (id : Nat) (absent : hashFind entries (key id) = none) :
    Rep base key { hash with links := hash.links.insertHead (.bucket (bucketOf base (key id))) (.entry id) }
      (hashInsert entries (key id) id)
      (Function.update buckets (bucketOf base (key id)) (id :: buckets (bucketOf base (key id)))) := by
  have out (crc : Int) : id ∉ buckets crc := fun there => (hash_find_none _ _).mp absent id (rep.listed id crc there)
  have fresh (crc : Int) : HashNode.entry id ∉ bucketNodes _ crc := fun there => out crc ((bucket_nodes_entry _ crc id).mp there)
  have next := (Links.ring_closed _ _ _ _ (rep.ring (bucketOf base (key id))) mem_cons_self).1
  refine ⟨?_, ?_, ?_, ?_, ?_, ?_, rep.crc⟩
  · intro crc
    rw [Function.update_apply]
    by_cases here : crc = bucketOf base (key id)
    · rw [if_pos here, here]
      exact Links.ring_insert _ _ _ _ (rep.ring _) (rep.nodes_nodup _) (fresh _)
    · rw [if_neg here]
      apply Links.ring_insert_other _ _ _ _ _ (rep.ring crc) (fresh crc)
      · exact fun there => here (((bucket_nodes_bucket _ crc _).mp there).symm)
      · exact fun there => here (rep.apart _ crc _ there next)
  · intro crc other there
    rw [Function.update_apply] at there
    split at there
    · rename_i here
      rcases mem_cons.mp there with same | old
      · rw [same, here]
      · rw [here]
        exact rep.own _ _ old
    · exact rep.own crc _ there
  · intro crc
    rw [Function.update_apply]
    split
    · exact nodup_cons.mpr ⟨out _, rep.nodup _⟩
    · exact rep.nodup crc
  · intro other
    rw [hash_insert_new _ _ id absent, Function.update_apply, mem_cons, ← rep.mem _]
    split
    · rename_i same
      rw [mem_cons, same]
      refine or_congr ⟨?_, ?_⟩ Iff.rfl
      · intro here
        rw [here]
      · intro here
        exact congrArg Prod.snd here
    · rename_i differ
      refine ⟨.inr, fun there => there.resolve_left ?_⟩
      intro here
      exact differ (congrArg _ (congrArg Prod.fst here))
  · intro entry there
    rcases hash_insert_mem _ _ id _ there with ⟨new, _⟩ | old
    · rw [new]
    · exact rep.keyed _ old
  · exact hash_insert_distinct _ _ id rep.distinct

theorem Rep.insert (id : Nat) (enough : entries.length < fuel) :
    (emsHashInsert base key fuel hash id).1 = .status (if (hashFind entries (key id)).isSome then -2 else 0) ∧
      ∃ buckets, Rep base key (emsHashInsert base key fuel hash id).2 (hashInsert entries (key id) id) buckets := by
  have counted := rep.counted id
  have found := counted.search (key id) fuel enough
  rw [← rep.crc id] at found
  simp only [emsHashInsert, found]
  cases hit : hashFind _ (key id) with
  | some other =>
    rw [hash_insert_old _ _ id _ hit]
    exact ⟨rfl, buckets, counted⟩
  | none =>
    have linked := counted.linked id hit
    rw [← rep.crc id] at linked
    exact ⟨rfl, _, linked⟩

theorem Rep.found (wanted : Str) (enough : entries.length < fuel) :
    emsHashFind base key fuel hash wanted = .fd (hashFind entries wanted) := by
  have found := rep.search wanted fuel enough
  rw [bucketOf] at found
  rw [emsHashFind, found]
  cases hashFind _ wanted <;> rfl

theorem Rep.without (gone : Nat → Bool) (links : Links HashNode)
    (rings : ∀ crc, links.Ring (.bucket crc) (((buckets crc).filter fun id => !gone id).map .entry)) :
    Rep base key { hash with links := links } (entries.filter fun entry => !gone entry.2)
      (fun crc => (buckets crc).filter fun id => !gone id) where
  ring := rings
  own := fun crc id there => rep.own crc id (mem_filter.mp there).1
  nodup := fun crc => (rep.nodup crc).filter _
  mem := fun id => by rw [mem_filter, mem_filter, rep.mem id]
  keyed := fun entry there => rep.keyed _ (mem_filter.mp there).1
  distinct := Nodup.sublist (filter_sublist.map _) rep.distinct
  crc := rep.crc

theorem Rep.remove (id : Nat) (fine : hash.Fine (.remove id)) :
    Rep base key (emsHashRemove hash id).2 (hashRemove entries id) (fun crc => (buckets crc).filter (· ≠ id)) := by
  have rings (crc : Int) : (hash.links.remove (.entry id)).Ring (.bucket crc) (((buckets crc).filter (· ≠ id)).map .entry) := by
    by_cases inside : id ∈ buckets crc
    · obtain ⟨before, behind, split⟩ := append_of_mem inside
      have distinct := rep.nodup crc
      have ring := rep.ring crc
      have nodes := rep.nodes_nodup crc
      rw [bucketNodes] at nodes
      rw [split] at distinct ring nodes ⊢
      obtain ⟨_, second, across⟩ := nodup_append.mp distinct
      have earlier : before.filter _ = before :=
        filter_eq_self.mpr fun other there => decide_eq_true (across _ there id mem_cons_self)
      have later : behind.filter (· ≠ id) = behind :=
        filter_eq_self.mpr fun other there => decide_eq_true fun same => (nodup_cons.mp second).1 (same ▸ there)
      rw [map_append, map_cons] at ring nodes
      rw [filter_append, earlier, filter_cons_of_neg (by simp), later, map_append]
      exact Links.ring_remove _ _ _ _ _ ring nodes
    · have all : (buckets crc).filter _ = buckets crc :=
        filter_eq_self.mpr fun other there => decide_eq_true (ne_of_mem_of_not_mem there inside)
      have outside : HashNode.entry id ∉ bucketNodes _ crc := fun there => inside ((bucket_nodes_entry _ crc id).mp there)
      rw [all]
      by_cases listed : id ∈ buckets (bucketOf base (key id))
      · have apart (node : HashNode) (there : node ∈ bucketNodes _ _) :
            node ∉ bucketNodes _ crc := fun here => by
          have same := rep.apart node crc _ here there
          exact inside (same ▸ listed)
        have closed := Links.ring_closed _ _ _ _ (rep.ring _)
          ((bucket_nodes_entry _ _ id).mpr listed)
        exact Links.ring_remove_other _ _ _ _ (rep.ring crc) (apart _ closed.1) (apart _ closed.2)
      · rcases fine with here | detached
        · apply Links.ring_remove_other _ _ _ _ (rep.ring crc)
          · intro there
            have back := (Links.ring_closed _ _ _ _ (rep.ring crc) there).2
            rw [here.1] at back
            exact outside back
          · intro there
            have forth := (Links.ring_closed _ _ _ _ (rep.ring crc) there).1
            rw [here.2] at forth
            exact outside forth
        · rw [Links.remove_adjacent _ _ detached.1 detached.2]
          exact rep.ring crc
  have gone := rep.without _ _ (by simpa using rings)
  simpa [emsHashRemove, hashRemove] using gone

end Rep

end Calls

def walkOrder (buckets : Int → List Nat) (place count : Nat) : List Nat :=
  (List.range' place count).flatMap fun (crc : Nat) => buckets crc

def walkGone (removes stops : Nat → Bool) (order : List Nat) (id : Nat) : Bool :=
  decide (id ∈ Links.upTo stops order) && removes id

theorem walk_gone_append (removes stops : Nat → Bool) (first second : List Nat) (none : first.any stops = false) (id : Nat) :
    walkGone removes stops (first ++ second) id = (walkGone removes stops first id || walkGone removes stops second id) := by
  simp only [walkGone, Links.up_to_append, none, Bool.false_eq_true, if_false, Links.up_to_all _ _ none,
    mem_append, Bool.decide_or, Bool.and_or_distrib_right]

section Walk

variable (removes stops : Nat → Bool) (fuel : Nat) (rep : Rep base key hash entries buckets)

include rep

theorem Rep.swept (place : Nat) (enough : entries.length < fuel) :
    let head := HashNode.bucket place
    ∃ final, Links.sweep (onEntry removes) (onEntry stops) head fuel hash.links (hash.links.next head)
        (hash.links.next (hash.links.next head)) =
        some ((Links.upTo stops (buckets place)).map .entry, (buckets place).any stops, final) ∧
      Rep base key { hash with links := final } (entries.filter fun entry => !walkGone removes stops (buckets place) entry.2)
        (fun crc => (buckets crc).filter fun id => !walkGone removes stops (buckets place) id) := by
  intro head
  have start : (((buckets place).map HashNode.entry) ++ [head]).head? = some (hash.links.next head) := by
    rw [Links.ring_next _ head _ (rep.ring _), head?_eq_some_head]
  obtain ⟨final, done, shape, frame⟩ := Links.sweep_ring _ _ _ head [] _
    (rep.ring _) (rep.nodes_nodup _) fuel (by rw [length_map]; exact (rep.length _).trans_lt enough) _ start
  refine ⟨final, ?_, rep.without _ _ ?_⟩
  · rw [done, Links.up_to_map, any_map]
    rfl
  · intro crc
    by_cases here : crc = place
    · rw [here]
      rw [nil_append, Links.left_map, Links.left_filter _ _ _ (rep.nodup _)] at shape
      exact shape
    · have all : ((buckets crc).filter fun id => !walkGone removes stops (buckets place) id) = buckets crc := by
        refine filter_eq_self.mpr fun id there => ?_
        have outside : id ∉ Links.upTo _ _ := fun seen =>
          here ((rep.own crc id there).symm.trans (rep.own _ id (Links.up_to_subset stops _ seen)))
        simp [walkGone, outside]
      rw [all]
      apply Links.ring_congr _ _ _ _ _ (rep.ring crc)
      intro node there
      exact frame node fun inside => here (rep.apart node crc _ there inside)

theorem Rep.walk_from (count place : Nat) (enough : entries.length < fuel) :
    ∃ final, walkFrom fuel removes stops count place hash.links =
        some (Links.upTo stops (walkOrder buckets place count), (walkOrder buckets place count).any stops, final) ∧
      ∃ left, Rep base key { hash with links := final }
        (entries.filter fun entry => !walkGone removes stops (walkOrder buckets place count) entry.2) left := by
  induction count generalizing place hash entries buckets with
  | zero =>
    refine ⟨hash.links, rfl, buckets, ?_⟩
    have all : (entries.filter fun entry => !walkGone removes stops (walkOrder buckets place 0) entry.2) = entries :=
      filter_eq_self.mpr fun _ _ => rfl
    rw [all]
    exact rep
  | succ count ih =>
    obtain ⟨final, done, next⟩ := rep.swept removes stops fuel place enough
    have order : walkOrder _ _ (count + 1) = buckets place ++ walkOrder _ _ _ := rfl
    have ids : ((Links.upTo stops (buckets place)).map HashNode.entry).filterMap entryId = Links.upTo stops (buckets place) := by
      rw [filterMap_map]
      exact filterMap_some
    rw [walkFrom, order]
    simp only [done]
    cases stop : (buckets _).any _ with
    | true =>
      refine ⟨final, ?_, fun crc => (buckets crc).filter fun id => !walkGone removes stops (buckets place) id, ?_⟩
      · simp only [ids, Links.up_to_append, stop, if_true, any_append, Bool.true_or]
      · have same : walkGone removes stops (buckets place ++ walkOrder buckets (place + 1) count) =
            walkGone removes stops (buckets place) := by
          funext id
          simp only [walkGone, Links.up_to_append, stop, if_true]
        rw [same]
        exact next
    | false =>
      have later : walkOrder (fun crc => (buckets crc).filter fun id => !walkGone removes stops (buckets place) id)
          (place + 1) count = walkOrder buckets (place + 1) count := by
        apply flatMap_congr
        intro crc there
        refine filter_eq_self.mpr fun id inside => ?_
        have outside : id ∉ Links.upTo _ _ := fun seen => by
          have same := (rep.own crc id inside).symm.trans (rep.own place id (Links.up_to_subset stops _ seen))
          have after := (mem_range'_1.mp there).1
          omega
        simp [walkGone, outside]
      obtain ⟨last, rest, left, final⟩ := ih next _ ((length_filter_le _ _).trans_lt enough)
      rw [later] at rest final
      refine ⟨last, ?_, left, ?_⟩
      · rw [Links.up_to_all _ _ stop] at ids ⊢
        simp only [ids, rest, Option.map_some, Links.up_to_append, stop, Bool.false_eq_true, if_false,
          any_append, Bool.false_or]
      · have same : (entries.filter fun entry =>
            !walkGone removes stops (buckets place ++ walkOrder buckets (place + 1) count) entry.2) =
            (entries.filter fun entry => !walkGone removes stops (buckets place) entry.2).filter fun entry =>
              !walkGone removes stops (walkOrder buckets (place + 1) count) entry.2 := by
          rw [filter_filter]
          apply filter_congr
          intro entry _
          rw [walk_gone_append _ _ _ _ stop, Bool.not_or, Bool.and_comm]
        rw [same]
        exact final

end Walk

section Map

variable (key : Nat → Str)

def Answered (entries : List (Str × Nat)) : HashOp → HashReply → Prop
  | .insert id, reply => reply = .status (if (hashFind entries (key id)).isSome then -2 else 0)
  | .find wanted, reply => reply = .fd (hashFind entries wanted)
  | .remove id, reply => reply = .fd (some id)
  | .walk _ stops, reply =>
    ∃ order : List Nat, order.Perm (entries.map Prod.snd) ∧ reply = .walked (Links.upTo stops order) (order.any stops)

def walkedIds : HashReply → List Nat
  | .walked ids _ => ids
  | _ => []

def mapAfter (entries : List (Str × Nat)) : HashOp → HashReply → List (Str × Nat)
  | .insert id, _ => hashInsert entries (key id) id
  | .find _, _ => entries
  | .remove id, _ => hashRemove entries id
  | .walk removes _, reply => entries.filter fun entry => !(decide (entry.2 ∈ walkedIds reply) && removes entry.2)

def AsMap (entries : List (Str × Nat)) : List HashOp → List HashReply → Prop
  | [], [] => True
  | op :: ops, reply :: replies => Answered key entries op reply ∧ AsMap (mapAfter key entries op reply) ops replies
  | _, _ => False

end Map

section Calls

variable (rep : Rep base key hash entries buckets)

include rep

theorem Rep.order_perm (some : 0 < base) : (walkOrder buckets 0 base).Perm (entries.map Prod.snd) := by
  have inner : (walkOrder buckets 0 base).Nodup := by
    refine nodup_flatMap.mpr ⟨fun crc _ => rep.nodup crc, ?_⟩
    refine Nodup.pairwise_of_forall_ne (nodup_range' _ Nat.one_pos) ?_
    intro one _ other _ apart id here there
    exact apart (by exact_mod_cast (rep.own one id here).symm.trans (rep.own _ id there))
  have outer : (entries.map Prod.snd).Nodup := by
    refine Nodup.of_map key ?_
    rw [map_map]
    have same : entries.map (key ∘ Prod.snd) = entries.map _ := map_congr_left fun entry there => (rep.keyed _ there).symm
    rw [same]
    exact rep.distinct
  refine (perm_ext_iff_of_nodup inner outer).mpr fun id => ?_
  rw [walkOrder, mem_flatMap, mem_map]
  constructor
  · intro ⟨crc, _, inside⟩
    exact ⟨(key id, id), rep.listed id crc inside, rfl⟩
  · intro ⟨entry, there, same⟩
    have listed : (key id, id) ∈ entries := by
      have own := rep.keyed _ there
      rw [same] at own
      rw [← own, ← same]
      exact there
    obtain ⟨low, high⟩ := bucket_of_range base some (key id)
    refine ⟨(bucketOf base (key id)).toNat, mem_range'_1.mpr ⟨Nat.zero_le _, by omega⟩, ?_⟩
    rw [Int.toNat_of_nonneg low]
    exact (rep.mem id).mpr listed

theorem Rep.call (some : 0 < base) (fuel : Nat) (enough : entries.length < fuel) (op : HashOp) (fine : hash.Fine op) :
    Answered key entries op (EmsHash.call base key fuel hash op).1 ∧ ∃ left, Rep base key (EmsHash.call base key fuel hash op).2
        (mapAfter key entries op (EmsHash.call base key fuel hash op).1) left := by
  cases op with
  | insert id => exact rep.insert fuel id enough
  | find wanted => exact ⟨rep.found fuel _ enough, buckets, rep⟩
  | remove id => exact ⟨rfl, _, rep.remove id fine⟩
  | walk removes stops =>
    obtain ⟨final, done, left, next⟩ := rep.walk_from _ _ fuel base 0 enough
    rw [EmsHash.call, emsHashWalk, done]
    exact ⟨⟨_, rep.order_perm some, rfl⟩, left, next⟩

end Calls

theorem map_after_length (key : Nat → Str) (entries : List (Str × Nat)) (op : HashOp) (reply : HashReply) :
    (mapAfter key entries op reply).length ≤ entries.length + 1 := by
  cases op with
  | insert id =>
    rw [mapAfter, hashInsert]
    split
    · exact Nat.le_succ _
    · exact Nat.le_refl _
  | find wanted => exact Nat.le_succ _
  | remove id => exact (length_filter_le _ _).trans (Nat.le_succ _)
  | walk removes stops => exact (length_filter_le _ _).trans (Nat.le_succ _)

theorem Rep.run (some : 0 < base) (fuel : Nat) (ops : List HashOp) (rep : Rep base key hash entries buckets)
    (enough : entries.length + ops.length ≤ fuel) (fine : AllSteps (after (EmsHash.call base key fuel)) EmsHash.Fine hash ops) :
    AsMap key entries ops (replies (EmsHash.call base key fuel) hash ops) := by
  induction ops generalizing hash entries buckets with
  | nil => trivial
  | cons op rest ih =>
    rw [length_cons] at enough
    obtain ⟨answered, left, next⟩ := rep.call some fuel (by omega) op fine.1
    have longer := map_after_length key entries op (EmsHash.call base key fuel hash op).1
    exact ⟨answered, ih next (by omega) fine.2⟩

theorem hash_refines_map (base : Nat) (some : 0 < base) (key : Nat → Str) (ops : List HashOp) (fuel : Nat)
    (enough : ops.length ≤ fuel) (fine : AllSteps (after (EmsHash.call base key fuel)) EmsHash.Fine (EmsHash.init key) ops) :
    (∀ wanted, 0 ≤ bucketOf base wanted ∧ bucketOf base wanted < base) ∧
      AsMap key [] ops (replies (EmsHash.call base key fuel) (EmsHash.init key) ops) :=
  ⟨bucket_of_range base some, rep_init.run some fuel ops (by rwa [length_nil, Nat.zero_add]) fine⟩

theorem hash_refines_map_sample : (∀ wanted, 0 ≤ bucketOf 4 wanted ∧ bucketOf 4 wanted < 4) ∧
      AsMap (fun id => [0xe4, UInt8.ofNat id]) []
        [.insert 1, .insert 5, .insert 1, .remove 1, .remove 1, .find [0xe4, 1], .insert 1,
          .walk (fun id => id = 5) (fun _ => false)]
        (replies (EmsHash.call 4 (fun id => [0xe4, UInt8.ofNat id]) 8) (EmsHash.init fun id => [0xe4, UInt8.ofNat id])
          [.insert 1, .insert 5, .insert 1, .remove 1, .remove 1, .find [0xe4, 1], .insert 1,
            .walk (fun id => id = 5) (fun _ => false)]) :=
  hash_refines_map 4 (by decide) _ _ 8 (by decide) (by decide +kernel)

-- The entry 2 stands behind the head when 1 is inserted again in front of it;
-- the second removal of 1 links the head to what stood behind 1 before.
theorem removed_twice_loses_entry : ¬ ∀ base, 0 < base → ∀ key : Nat → Str, ∀ ops : List HashOp, ∀ fuel, ops.length ≤ fuel →
      AsMap key [] ops (replies (EmsHash.call base key fuel) (EmsHash.init key) ops) := by
  intro claim
  have all := claim 4 (by decide) (fun id => [UInt8.ofNat (4 * id)]) [.insert 1, .remove 1, .insert 2, .remove 1, .find [8]] 5
    (by decide)
  have last : (replies (EmsHash.call 4 (fun id => [UInt8.ofNat (4 * id)]) 5) (EmsHash.init fun id => [UInt8.ofNat (4 * id)])
      [.insert 1, .remove 1, .insert 2, .remove 1, .find [8]]) =
      [.status 0, .fd (some 1), .status 0, .fd (some 1), .fd none] := by decide +kernel
  rw [last] at all
  obtain ⟨-, -, -, -, found, -⟩ := all
  have entry : HashReply.fd none ≠ .fd (some 2) := by decide
  exact entry found

end Codec.Ems
