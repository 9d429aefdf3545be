import Mathlib.Data.List.Chain
import Mathlib.Data.List.Nodup

set_option autoImplicit false

namespace Codec.Lib

open List

-- Circular lists whose links are fields of their elements. The head is a node
-- like the others; a node that is in no list has links all the same.
structure Links (ν : Type) where
  next : ν → ν
  prev : ν → ν

namespace Links

section Edits

variable {ν : Type} [DecidableEq ν] (links : Links ν)

def alone : Links ν := ⟨id, id⟩

def setNext (node value : ν) : Links ν := { links with next := Function.update links.next node value }

def setPrev (node value : ν) : Links ν := { links with prev := Function.update links.prev node value }

-- The four stores of an insertion behind the head or in front of it and the two
-- of a removal, each one reading what the ones before it have left.
def insertHead (head node : ν) : Links ν :=
  let first := links.setNext node (links.next head)
  let second := first.setPrev (first.next node) node
  let third := second.setPrev node head
  third.setNext head node

def insertTail (head node : ν) : Links ν :=
  let first := links.setPrev node (links.prev head)
  let second := first.setNext (first.prev node) node
  let third := second.setNext node head
  third.setPrev head node

-- The same list read backwards.
def flip : Links ν := ⟨links.prev, links.next⟩

def remove (node : ν) : Links ν :=
  let first := links.setPrev (links.next node) (links.prev node)
  first.setNext (first.prev node) (first.next node)

-- From a node to the head, as long as the fuel lasts.
def search (wanted : ν → Bool) (head : ν) : Nat → ν → Option (Option ν)
  | 0, _ => none
  | fuel + 1, node =>
    if node = head then some none
    else if wanted node then some (some node)
    else search wanted head fuel (links.next node)

-- A loop that looks up the node behind before it handles the one in front:
-- some nodes are removed, some end the loop.
def sweep (removes stops : ν → Bool) (head : ν) : Nat → Links ν → ν → ν → Option (List ν × Bool × Links ν)
  | 0, _, _, _ => none
  | fuel + 1, links, node, behind =>
    if node = head then some ([], false, links)
    else
      let left := if removes node then links.remove node else links
      if stops node then some ([node], true, left)
      else (sweep removes stops head fuel left behind (left.next behind)).map fun done => (node :: done.1, done.2)

def upTo (stops : ν → Bool) : List ν → List ν
  | [] => []
  | node :: rest => if stops node then [node] else node :: upTo stops rest

def left (removes stops : ν → Bool) : List ν → List ν
  | [] => []
  | node :: rest => (if removes node then [] else [node]) ++ (if stops node then rest else left removes stops rest)

end Edits

section Loops

variable {ν μ : Type} (removes stops : ν → Bool)

theorem up_to_append (first second : List ν) :
    upTo stops (first ++ second) = if first.any stops then upTo stops first else first ++ upTo stops second := by
  induction first with
  | nil => rfl
  | cons node rest ih =>
    by_cases stop : stops node = true
    · simp [upTo, stop]
    · rw [cons_append, upTo, if_neg stop, ih, any_cons, upTo, if_neg stop]
      cases rest.any _ <;> simp [stop]

theorem up_to_all (items : List ν) (none : items.any stops = false) : upTo stops items = items := by
  have whole := up_to_append stops items []
  rwa [append_nil, none, if_neg Bool.false_ne_true, upTo, append_nil] at whole

theorem up_to_map (image : ν → μ) (stops : μ → Bool) (items : List ν) :
    upTo stops (items.map image) = (upTo (stops ∘ image) items).map image := by
  induction items with
  | nil => rfl
  | cons node rest ih =>
    simp only [map_cons, upTo, Function.comp_apply, ih]
    split <;> rfl

theorem up_to_subset (items : List ν) : upTo stops items ⊆ items := by
  induction items with
  | nil => exact fun _ there => there
  | cons node rest ih =>
    rw [upTo]
    split
    · exact cons_subset_cons node (nil_subset rest)
    · exact cons_subset_cons node ih

theorem left_map (image : ν → μ) (removes stops : μ → Bool) (items : List ν) :
    left removes stops (items.map image) = (left (removes ∘ image) (stops ∘ image) items).map image := by
  induction items with
  | nil => rfl
  | cons node rest ih =>
    simp only [map_cons, left, Function.comp_apply, ih]
    split <;> split <;> rfl

theorem left_filter [DecidableEq ν] (items : List ν) (distinct : items.Nodup) :
    left removes stops items = items.filter fun node => !(decide (node ∈ upTo stops items) && removes node) := by
  induction items with
  | nil => rfl
  | cons node rest ih =>
    obtain ⟨outside, distinct⟩ := nodup_cons.mp distinct
    have later : ∀ other ∈ rest, other ≠ node := fun other there same => outside (same ▸ there)
    rw [left, upTo]
    by_cases stop : stops node = true
    · have all : rest.filter (fun other => !(decide (other ∈ [node]) && removes other)) = rest :=
        filter_eq_self.mpr fun other there => by simp [later _ there]
      rw [if_pos stop, if_pos stop, filter_cons, all]
      cases removes node <;> simp
    · have same : rest.filter (fun other => !(decide (other ∈ node :: upTo stops rest) && removes other)) =
          rest.filter fun other => !(decide (other ∈ upTo stops rest) && removes other) :=
        filter_congr fun other there => by simp [later _ there]
      rw [if_neg stop, if_neg stop, filter_cons, same, ← ih distinct]
      cases removes node <;> simp

end Loops

section Ring

variable {ν : Type} (links : Links ν)

def Joined (node behind : ν) : Prop := links.next node = behind ∧ links.prev behind = node

-- The head, the items in their order, and the head again.
def Ring (head : ν) (items : List ν) : Prop := List.IsChain links.Joined (head :: (items ++ [head]))

theorem joined_congr (other : Links ν) (nodes : List ν) (nexts : ∀ node ∈ nodes.dropLast, other.next node = links.next node)
    (prevs : ∀ node ∈ nodes.tail, other.prev node = links.prev node) (chain : List.IsChain links.Joined nodes) :
    List.IsChain other.Joined nodes := by
  induction nodes with
  | nil => exact .nil
  | cons first rest ih =>
    cases rest with
    | nil => exact .singleton _
    | cons second rest =>
      obtain ⟨joined, tail⟩ := isChain_cons_cons.mp chain
      refine isChain_cons_cons.mpr ⟨⟨?_, ?_⟩, ?_⟩
      · rw [nexts _ mem_cons_self, joined.1]
      · rw [prevs _ mem_cons_self, joined.2]
      · apply ih _ _ tail
        · exact fun node there => nexts node (mem_cons_of_mem _ there)
        · exact fun node there => prevs node (mem_cons_of_mem _ there)

theorem ring_congr (other : Links ν) (head : ν) (items : List ν)
    (same : ∀ node ∈ head :: items, other.next node = links.next node ∧ other.prev node = links.prev node)
    (ring : links.Ring head items) : other.Ring head items := by
  apply joined_congr _ _ _ _ _ ring
  · intro node there
    rw [← cons_append, dropLast_concat] at there
    exact (same node there).1
  · intro node there
    apply (same node _).2
    simpa [or_comm] using there

theorem ring_alone (head : ν) : (alone : Links ν).Ring head [] := .cons_cons ⟨rfl, rfl⟩ (.singleton head)

theorem ring_around (head node : ν) (before behind : List ν) (ring : links.Ring head (before ++ node :: behind)) :
    links.Joined ((head :: before).getLast (List.cons_ne_nil _ _)) node ∧
      links.Joined node ((behind ++ [head]).head (by simp)) := by
  have whole : List.IsChain links.Joined ((head :: before) ++ ([node] ++ (behind ++ [head]))) := by simpa [Ring] using ring
  obtain ⟨_, inner, across⟩ := isChain_append.mp whole
  obtain ⟨_, _, joins⟩ := isChain_append.mp inner
  constructor
  · exact across _ (getLast?_eq_some_getLast _) node rfl
  · exact joins node rfl _ (head?_eq_some_head _)

theorem ring_next (head : ν) (items : List ν) (ring : links.Ring head items) :
    links.next head = (items ++ [head]).head (by simp) := by
  cases items with
  | nil => exact (isChain_cons_cons.mp ring).1.1
  | cons first rest => exact (isChain_cons_cons.mp ring).1.1

theorem ring_flip (head : ν) (items : List ν) (ring : links.Ring head items) : links.flip.Ring head items.reverse := by
  have whole : (head :: (items ++ [head])).reverse = head :: (items.reverse ++ [head]) := by simp
  rw [Ring, ← whole, isChain_reverse]
  exact List.IsChain.imp (fun _ _ joined => And.symm joined) ring

theorem ring_empty (head : ν) (items : List ν) (ring : links.Ring head items) (distinct : (head :: items).Nodup) :
    links.prev head = head ↔ items = [] := by
  have last := ring_next _ head _ (ring_flip _ head _ ring)
  rw [show links.flip.next head = links.prev head from rfl] at last
  rw [last]
  constructor
  · intro same
    by_contra solid
    have reversed : items.reverse ≠ [] := by simpa using solid
    have inside := head_mem reversed
    rw [head_append_of_ne_nil reversed] at same
    rw [same] at inside
    exact (nodup_cons.mp distinct).1 (mem_reverse.mp inside)
  · rintro rfl
    rfl

theorem mem_around (head node : ν) (items : List ν) : node ∈ items ++ [head] ↔ node ∈ head :: items := by
  rw [mem_append, mem_singleton, mem_cons, or_comm]

theorem ring_closed (head node : ν) (items : List ν) (ring : links.Ring head items) (there : node ∈ head :: items) :
    links.next node ∈ head :: items ∧ links.prev node ∈ head :: items := by
  rcases mem_cons.mp there with same | inside
  · subst same
    constructor
    · rw [ring_next _ node _ ring]
      exact (mem_around node _ _).mp (head_mem _)
    · have whole : List.IsChain _ ((node :: items) ++ [node]) := ring
      obtain ⟨_, _, across⟩ := isChain_append.mp whole
      rw [(across _ (getLast?_eq_some_getLast (cons_ne_nil _ _)) node rfl).2]
      exact getLast_mem _
  · obtain ⟨before, behind, split⟩ := append_of_mem inside
    subst split
    obtain ⟨left, right⟩ := ring_around _ head node _ _ ring
    constructor
    · have first := head_mem (l := behind ++ [head]) (by simp)
      rw [right.1]
      rcases mem_append.mp first with later | around
      · exact mem_cons_of_mem _ (mem_append_right _ (mem_cons_of_mem _ later))
      · rw [mem_singleton.mp around]
        exact mem_cons_self
    · rw [left.2]
      rcases mem_cons.mp (getLast_mem _) with same | earlier
      · rw [same]
        exact mem_cons_self
      · exact mem_cons_of_mem _ (mem_append_left _ earlier)

end Ring

section Calls

variable {ν : Type} [DecidableEq ν] (links : Links ν)

theorem insert_next (head node other : ν) : (links.insertHead head node).next other =
    if other = head then node else if other = node then links.next head else links.next other := by
  simp only [insertHead, setNext, setPrev, Function.update_apply]

theorem insert_prev (head node other : ν) : (links.insertHead head node).prev other =
    if other = node then head else if other = links.next head then node else links.prev other := by
  simp only [insertHead, setNext, setPrev, Function.update_apply, if_true]

theorem remove_next (node other : ν) :
    (links.remove node).next other = if other = links.prev node then links.next node else links.next other := by
  simp only [remove, setNext, setPrev, Function.update_apply, ite_self]

theorem remove_prev (node other : ν) :
    (links.remove node).prev other = if other = links.next node then links.prev node else links.prev other := by
  simp only [remove, setNext, setPrev, Function.update_apply]

theorem ring_insert (head node : ν) (items : List ν) (ring : links.Ring head items) (distinct : (head :: items).Nodup)
    (fresh : node ∉ head :: items) : (links.insertHead head node).Ring head (node :: items) := by
  obtain ⟨apart, absent⟩ := ne_and_not_mem_of_not_mem_cons fresh
  have next := ring_next _ head _ ring
  have chain : List.IsChain _ _ := (isChain_cons.mp ring).2
  refine isChain_cons_cons.mpr ⟨⟨?_, ?_⟩, isChain_cons.mpr ⟨?_, ?_⟩⟩
  · rw [insert_next, if_pos rfl]
  · rw [insert_prev, if_pos rfl]
  · intro behind there
    have first : links.next head = behind := by
      rw [next]
      exact Option.some.inj ((head?_eq_some_head _).symm.trans there)
    have other : behind ≠ node := by
      intro same
      subst same
      exact fresh ((mem_around head _ _).mp (mem_of_mem_head? there))
    constructor
    · rw [insert_next, if_neg apart, if_pos rfl, first]
    · rw [insert_prev, if_neg other, if_pos first.symm]
  · apply joined_congr _ _ _ _ _ chain
    · intro other there
      rw [dropLast_concat] at there
      rw [insert_next, if_neg, if_neg]
      · exact fun same => absent (same ▸ there)
      · exact fun same => (nodup_cons.mp distinct).1 (same ▸ there)
    · intro other there
      rw [insert_prev, if_neg, if_neg]
      · intro same
        cases items with
        | nil => cases there
        | cons first rest =>
          have last : other ∈ head :: rest := (mem_around head _ rest).mp there
          have here : other = first := same.trans next
          subst here
          obtain ⟨outside, nodup⟩ := nodup_cons.mp distinct
          rcases mem_cons.mp last with around | later
          · exact outside (around ▸ mem_cons_self)
          · exact (nodup_cons.mp nodup).1 later
      · intro same
        exact fresh ((mem_around head node _).mp (same ▸ mem_of_mem_tail there))

theorem ring_insert_tail (head node : ν) (items : List ν) (ring : links.Ring head items) (distinct : (head :: items).Nodup)
    (fresh : node ∉ head :: items) : (links.insertTail head node).Ring head (items ++ [node]) := by
  have backwards : (head :: items.reverse).Nodup := by simpa using distinct
  have inserted := ring_insert _ head node _ (ring_flip _ head _ ring) backwards (by simpa using fresh)
  have again := ring_flip _ head _ inserted
  rwa [reverse_cons, reverse_reverse] at again

theorem ring_remove (head node : ν) (before behind : List ν) (ring : links.Ring head (before ++ node :: behind))
    (distinct : (head :: (before ++ node :: behind)).Nodup) : (links.remove node).Ring head (before ++ behind) := by
  obtain ⟨left, right⟩ := ring_around _ head node _ _ ring
  have whole : List.IsChain links.Joined ((head :: before) ++ (node :: (behind ++ [head]))) := by simpa [Ring] using ring
  obtain ⟨front, rest, _⟩ := isChain_append.mp whole
  have back : List.IsChain _ _ := (isChain_cons.mp rest).2
  have split : ((head :: before) ++ node :: behind).Nodup := by simpa using distinct
  obtain ⟨first, second, apart⟩ := nodup_append.mp split
  have last : (head :: before).getLast (cons_ne_nil _ _) ∈ head :: before := getLast_mem _
  have goal : List.IsChain (links.remove node).Joined ((head :: before) ++ (behind ++ [head])) := by
    refine isChain_append.mpr ⟨?_, ?_, ?_⟩
    · apply joined_congr _ _ _ _ _ front
      · intro other there
        rw [remove_next, left.2, if_neg]
        intro same
        rw [← dropLast_append_getLast (cons_ne_nil head _)] at first
        exact (nodup_append.mp first).2.2 _ there _ mem_cons_self same
      · intro other there
        rw [remove_prev, right.1, if_neg]
        intro same
        rcases mem_append.mp (head_mem (l := behind ++ [head]) _) with later | around
        · exact apart _ (mem_cons_of_mem _ there) _ (mem_cons_of_mem _ later) same
        · exact (nodup_cons.mp first).1 (mem_singleton.mp around ▸ same ▸ there)
    · apply joined_congr _ _ _ _ _ back
      · intro other there
        rw [dropLast_concat] at there
        rw [remove_next, left.2, if_neg]
        exact fun same => apart _ last _ (mem_cons_of_mem _ there) same.symm
      · intro other there
        rw [remove_prev, right.1, if_neg]
        intro same
        cases behind with
        | nil => cases there
        | cons item rest =>
          rcases mem_append.mp there with later | around
          · have here : other = item := same
            exact (nodup_cons.mp (nodup_cons.mp second).2).1 (here ▸ later)
          · have here : item = head := same.symm.trans (mem_singleton.mp around)
            exact apart head mem_cons_self item (mem_cons_of_mem _ mem_cons_self) here.symm
    · intro one there other here
      have one_ : one = (head :: before).getLast (cons_ne_nil _ _) :=
        Option.some.inj (there.symm.trans (getLast?_eq_some_getLast _))
      have other_ : other = (behind ++ [head]).head (by simp) :=
        Option.some.inj (Eq.trans (Eq.symm here) (head?_eq_some_head _))
      exact ⟨by rw [remove_next, left.2, if_pos one_, right.1, other_], by rw [remove_prev, right.1, if_pos other_, left.2, one_]⟩
  simpa [Ring] using goal

theorem ring_remove_other (head node : ν) (items : List ν) (ring : links.Ring head items)
    (next : links.next node ∉ head :: items) (prev : links.prev node ∉ head :: items) :
    (links.remove node).Ring head items := by
  apply ring_congr _ _ head _ _ ring
  intro other there
  rw [remove_next, remove_prev, if_neg (ne_of_mem_of_not_mem there prev), if_neg (ne_of_mem_of_not_mem there next)]
  exact ⟨rfl, rfl⟩

theorem ring_insert_other (head node lead : ν) (items : List ν) (ring : links.Ring head items)
    (fresh : node ∉ head :: items) (apart : lead ∉ head :: items) (next : links.next lead ∉ head :: items) :
    (links.insertHead lead node).Ring head items := by
  apply ring_congr _ _ head _ _ ring
  intro other there
  rw [insert_next, insert_prev, if_neg (ne_of_mem_of_not_mem there apart), if_neg (ne_of_mem_of_not_mem there fresh),
    if_neg (ne_of_mem_of_not_mem there fresh), if_neg (ne_of_mem_of_not_mem there next)]
  exact ⟨rfl, rfl⟩

theorem ring_insert_tail_other (head node lead : ν) (items : List ν) (ring : links.Ring head items)
    (fresh : node ∉ head :: items) (apart : lead ∉ head :: items) (prev : links.prev lead ∉ head :: items) :
    (links.insertTail lead node).Ring head items := by
  have kept := ring_insert_other _ head node lead _ (ring_flip _ head _ ring)
    (by simpa using fresh) (by simpa using apart) (by simpa [flip] using prev)
  have again := ring_flip _ head _ kept
  rwa [reverse_reverse] at again

theorem remove_adjacent (node : ν) (prev : links.prev (links.next node) = links.prev node)
    (next : links.next (links.prev node) = links.next node) : links.remove node = links := by
  have nexts : (links.remove node).next = links.next := by
    funext other
    rw [remove_next]
    split
    · rename_i same
      rw [same, next]
    · rfl
  have prevs : (links.remove node).prev = links.prev := by
    funext other
    rw [remove_prev]
    split
    · rename_i same
      rw [same, prev]
    · rfl
  cases made : links.remove node with
  | mk left right =>
    rw [made] at nexts prevs
    cases links
    exact congrArg₂ _ nexts prevs

theorem search_ring (wanted : ν → Bool) (head : ν) (items : List ν) (ring : links.Ring head items)
    (distinct : (head :: items).Nodup) (fuel : Nat) (enough : items.length < fuel) :
    links.search wanted head fuel (links.next head) = some (items.find? wanted) := by
  have go (before rest : List ν) (node : ν) (whole : before ++ rest = items) (start : (rest ++ [head]).head? = some node)
      (fuel : Nat) (enough : rest.length < fuel) : links.search wanted head fuel node = some (rest.find? wanted) := by
    induction rest generalizing before node fuel with
    | nil =>
      obtain ⟨fuel, rfl⟩ := Nat.exists_eq_succ_of_ne_zero (Nat.ne_of_gt enough)
      rw [search, if_pos (Option.some.inj start).symm]
      rfl
    | cons item rest ih =>
      obtain ⟨fuel, rfl⟩ := Nat.exists_eq_succ_of_ne_zero (Nat.ne_of_gt (Nat.zero_lt_of_lt enough))
      have same : item = node := Option.some.inj start
      subst same
      have inside : item ∈ items := whole ▸ mem_append_right _ mem_cons_self
      rw [search, if_neg (ne_of_mem_of_not_mem inside (nodup_cons.mp distinct).1)]
      by_cases found : wanted item = true
      · rw [if_pos found, find?_cons_of_pos found]
      · have behind := (ring_around _ head item _ rest (whole ▸ ring)).2.1
        rw [if_neg found, find?_cons_of_neg found]
        apply ih (before ++ [item]) _ (by rw [append_assoc, singleton_append, whole])
        · rw [behind, head?_eq_some_head]
        · exact Nat.lt_of_succ_lt_succ enough
  apply go [] _ _ rfl _ fuel enough
  rw [ring_next _ head _ ring, head?_eq_some_head]

theorem ring_swept (head node : ν) (removes : Bool) (before rest : List ν) (ring : links.Ring head (before ++ node :: rest))
    (distinct : (head :: (before ++ node :: rest)).Nodup) :
    (if removes then links.remove node else links).Ring head (before ++ (if removes then [] else [node]) ++ rest) := by
  cases removes with
  | false => simpa using ring
  | true => simpa using ring_remove _ head node _ rest ring distinct

theorem sweep_ring (removes stops : ν → Bool) (head : ν) (before rest : List ν) (ring : links.Ring head (before ++ rest))
    (distinct : (head :: (before ++ rest)).Nodup) (fuel : Nat) (enough : rest.length < fuel) (node : ν)
    (start : (rest ++ [head]).head? = some node) :
    ∃ final, sweep removes stops head fuel links node (links.next node) = some (upTo stops rest, rest.any stops, final) ∧
      final.Ring head (before ++ left removes stops rest) ∧
      ∀ other ∉ head :: (before ++ rest), final.next other = links.next other ∧ final.prev other = links.prev other := by
  induction rest generalizing before node fuel links with
  | nil =>
    obtain ⟨fuel, rfl⟩ := Nat.exists_eq_succ_of_ne_zero (Nat.ne_of_gt enough)
    refine ⟨links, ?_, ring, fun _ _ => ⟨rfl, rfl⟩⟩
    rw [sweep, if_pos (Option.some.inj start).symm]
    rfl
  | cons item rest ih =>
    obtain ⟨fuel, rfl⟩ := Nat.exists_eq_succ_of_ne_zero (Nat.ne_of_gt (Nat.zero_lt_of_lt enough))
    have same : item = node := Option.some.inj start
    subst same
    have inside : item ∈ before ++ item :: rest := mem_append_right _ mem_cons_self
    obtain ⟨around, behind⟩ := ring_around _ head item _ rest ring
    have swept := ring_swept _ head item (removes item) _ rest ring distinct
    have outside : ∀ other ∉ head :: (before ++ item :: rest),
        (if removes item then links.remove item else links).next other = links.next other ∧
          (if removes item then links.remove item else links).prev other = links.prev other := by
      intro other absent
      have closed := ring_closed _ head item _ ring (mem_cons_of_mem _ inside)
      split
      · rw [remove_next, remove_prev, if_neg (ne_of_mem_of_not_mem closed.2 absent).symm,
          if_neg (ne_of_mem_of_not_mem closed.1 absent).symm]
        exact ⟨rfl, rfl⟩
      · exact ⟨rfl, rfl⟩
    rw [sweep, if_neg (ne_of_mem_of_not_mem inside (nodup_cons.mp distinct).1)]
    by_cases stop : stops item = true
    · refine ⟨_, ?_, ?_, outside⟩
      · simp only [stop, if_true, upTo, any_cons, Bool.true_or]
      · simpa [left, stop] using swept
    · have fewer : (head :: (before ++ (if removes item then [] else [item]) ++ rest)).Nodup := by
        refine Nodup.sublist (Sublist.cons_cons head ?_) distinct
        cases removes item <;> simp
      obtain ⟨final, done, shape, frame⟩ := ih _ _ swept fewer fuel (Nat.lt_of_succ_lt_succ enough)
        (links.next item) (by rw [behind.1, head?_eq_some_head])
      refine ⟨final, ?_, ?_, ?_⟩
      · simp only [stop, upTo, any_cons, Bool.false_or]
        rw [done]
        simp
      · simpa [left, stop] using shape
      · intro other absent
        have lost : other ∉ head :: (before ++ (if removes item then [] else [item]) ++ rest) := by
          intro there
          apply absent
          cases removes item <;> simp_all
        rw [(frame _ lost).1, (frame _ lost).2]
        exact outside _ absent

end Calls

end Links

end Codec.Lib
