import Mathlib.Algebra.Group.Nat.Defs
import Codec.Lib.Ring
import Mathlib.Data.List.Basic

set_option autoImplicit false

namespace Codec.Lib

-- Memory by the byte. A word is eight bytes, the lowest one first.
abbrev Memory := Nat → UInt8

namespace Memory

def bytes : Nat → Nat → List UInt8
  | 0, _ => []
  | count + 1, value => UInt8.ofNat (value % 256) :: bytes count (value / 256)

def number : List UInt8 → Nat
  | [] => 0
  | byte :: rest => byte.toNat + 256 * number rest

def put (mem : Memory) (addr : Nat) (text : List UInt8) : Memory := fun place =>
  if addr ≤ place then (text[place - addr]?).getD (mem place) else mem place

def get (mem : Memory) (addr count : Nat) : List UInt8 := (List.range count).map fun i => mem (addr + i)

def load (mem : Memory) (addr : Nat) : Nat := number (mem.get addr 8)

def store (mem : Memory) (addr value : Nat) : Memory := mem.put addr (bytes 8 value)

theorem bytes_length (count value : Nat) : (bytes count value).length = count := by
  induction count generalizing value with
  | zero => rfl
  | succ count ih => rw [bytes, List.length_cons, ih]

theorem number_bytes (count value : Nat) (fits : value < 256 ^ count) : number (bytes count value) = value := by
  induction count generalizing value with
  | zero =>
    rw [Nat.pow_zero] at fits
    rw [bytes, number]
    omega
  | succ count ih =>
    have high : value / 256 < 256 ^ count := by
      rw [Nat.pow_succ] at fits
      omega
    have low : value % 256 < 256 := Nat.mod_lt _ (by decide)
    rw [bytes, number, ih _ high, UInt8.toNat_ofNat_of_lt' low]
    omega

section Bytes

variable (mem : Memory)

theorem get_length (addr count : Nat) : (mem.get addr count).length = count := by rw [get, List.length_map, List.length_range]

theorem get_put (addr : Nat) (text : List UInt8) : (mem.put addr text).get addr text.length = text := by
  apply List.ext_getElem
  · rw [get_length]
  · intro i _ inside
    simp [get, put, List.getElem?_eq_getElem inside]

theorem get_put_apart (addr place count : Nat) (text : List UInt8)
    (apart : addr + text.length ≤ place ∨ place + count ≤ addr) : (mem.put addr text).get place count = mem.get place count := by
  apply List.map_congr_left
  intro i inside
  have bound := List.mem_range.mp inside
  rw [put]
  by_cases behind : addr ≤ place + i
  · rw [if_pos behind, List.getElem?_eq_none (by omega), Option.getD_none]
  · rw [if_neg behind]

theorem load_store (addr value : Nat) (word : value < 2 ^ 64) : (mem.store addr value).load addr = value := by
  have text := get_put mem addr (bytes 8 value)
  rw [bytes_length] at text
  rw [load, store, text, number_bytes 8 _ (by simpa using word)]

theorem load_put_apart (addr place : Nat) (text : List UInt8) (apart : addr + text.length ≤ place ∨ place + 8 ≤ addr) :
    (mem.put addr text).load place = mem.load place := by
  rw [load, load, get_put_apart mem addr _ 8 text apart]

theorem load_store_apart (addr place value : Nat) (apart : addr + 8 ≤ place ∨ place + 8 ≤ addr) :
    (mem.store addr value).load place = mem.load place :=
  load_put_apart mem addr _ _ (by rwa [bytes_length])

end Bytes

-- Circular lists threaded through memory: at the address of a node stand its
-- two links, prev and eight bytes on next.
def links (mem : Memory) : Links Nat := ⟨fun node => mem.load (node + 8), fun node => mem.load node⟩

section Edits

variable (mem : Memory) (head node : Nat)

def queueInit : Memory := (mem.store head head).store (head + 8) head

def queueEmpty : Bool := mem.load head = head

def insertTail : Memory :=
  let first := mem.store node (mem.load head)
  let second := first.store (first.load node + 8) node
  let third := second.store (node + 8) head
  third.store head node

def remove : Memory :=
  let first := mem.store (mem.load (node + 8)) (mem.load node)
  first.store (first.load node + 8) (first.load (node + 8))

end Edits

-- Places of nodes: their links do not overlap.
structure Places (cells : Set Nat) : Prop where
  apart : ∀ one ∈ cells, ∀ other ∈ cells, one ≠ other → one + 16 ≤ other ∨ other + 16 ≤ one
  word : ∀ node ∈ cells, node < 2 ^ 64

-- On the places the memory has the links.
def Follows (cells : Set Nat) (mem : Memory) (links : Links Nat) : Prop :=
  ∀ node ∈ cells, mem.load (node + 8) = links.next node ∧ mem.load node = links.prev node

section Follows

variable (cells : Set Nat) (places : Places cells) (mem : Memory) (links : Links Nat) (follows : Follows cells mem links)
include places follows

theorem store_prev (node value : Nat) (there : node ∈ cells) (word : value < 2 ^ 64) :
    Follows cells (mem.store node value) (links.setPrev node value) := by
  intro other inside
  obtain ⟨next, prev⟩ := follows _ inside
  simp only [Links.setPrev, Function.update_apply]
  by_cases same : other = node
  · rw [same] at next ⊢
    rw [if_pos rfl, load_store mem node _ word, load_store_apart mem node _ _ (.inl (Nat.le_refl _))]
    exact ⟨next, rfl⟩
  · have away := places.apart _ inside node there same
    rw [if_neg same, load_store_apart mem node _ _ (by omega), load_store_apart mem node _ _ (by omega)]
    exact ⟨next, prev⟩

theorem store_next (node value : Nat) (there : node ∈ cells) (word : value < 2 ^ 64) :
    Follows cells (mem.store (node + 8) value) (links.setNext node value) := by
  intro other inside
  obtain ⟨next, prev⟩ := follows _ inside
  simp only [Links.setNext, Function.update_apply]
  by_cases same : other = node
  · rw [same] at prev ⊢
    rw [if_pos rfl, load_store mem _ _ word, load_store_apart mem _ node _ (.inr (Nat.le_refl _))]
    exact ⟨rfl, prev⟩
  · have away := places.apart _ inside node there same
    rw [if_neg same, load_store_apart mem _ _ _ (by omega), load_store_apart mem _ _ _ (by omega)]
    exact ⟨next, prev⟩

theorem insert_tail_follows (head node : Nat) (lead : head ∈ cells) (there : node ∈ cells) (last : links.prev head ∈ cells) :
    Follows cells (mem.insertTail head node) (links.insertTail head node) := by
  have first : Follows cells (mem.store node (mem.load head)) (links.setPrev node (links.prev head)) := by
    rw [(follows head lead).2]
    exact store_prev _ places mem _ follows node _ there (places.word _ last)
  have behind : (links.setPrev node (links.prev head)).prev node ∈ cells := by
    rw [show (links.setPrev node _).prev node = links.prev head from Function.update_self ..]
    exact last
  have second : Follows cells
      ((mem.store node (mem.load head)).store ((mem.store node (mem.load head)).load node + 8) node)
      ((links.setPrev node (links.prev head)).setNext ((links.setPrev node (links.prev head)).prev node) node) := by
    rw [(first node there).2]
    exact store_next _ places _ _ first _ node behind (places.word node there)
  have third := store_next _ places _ _ second node head there (places.word head lead)
  exact store_prev _ places _ _ third head node lead (places.word node there)

theorem remove_follows (node : Nat) (there : node ∈ cells) (next : links.next node ∈ cells) (prev : links.prev node ∈ cells) :
    Follows cells (mem.remove node) (links.remove node) := by
  have first : Follows cells (mem.store (mem.load (node + 8)) (mem.load node)) (links.setPrev (links.next node) (links.prev node)) := by
    rw [(follows node there).1, (follows node there).2]
    exact store_prev _ places mem _ follows _ _ next (places.word _ prev)
  have back : (links.setPrev (links.next node) (links.prev node)).prev node ∈ cells := by
    simp only [Links.setPrev, Function.update_apply]
    split <;> exact prev
  have second := store_next _ places _ _ first _ _ back (places.word _ next)
  rw [remove, Links.remove, (first node there).1, (first node there).2]
  exact second

omit places in
theorem ring_follows (head : Nat) (items : List Nat) (inside : ∀ node ∈ head :: items, node ∈ cells)
    (ring : links.Ring head items) : mem.links.Ring head items :=
  Links.ring_congr _ _ head _ (fun node there => follows node (inside node there)) ring

end Follows

section Rings

variable (cells : Set Nat) (places : Places cells) (mem : Memory)

theorem follows_self : Follows cells mem mem.links := fun _ _ => ⟨rfl, rfl⟩

include places

theorem insert_tail_ring (head node : Nat) (items : List Nat) (inside : ∀ other ∈ head :: items, other ∈ cells) (there : node ∈ cells)
    (ring : mem.links.Ring head items) (distinct : (head :: items).Nodup) (fresh : node ∉ head :: items) :
    (mem.insertTail head node).links.Ring head (items ++ [node]) := by
  have last := inside _ (Links.ring_closed _ head head _ ring List.mem_cons_self).2
  have follows := insert_tail_follows _ places mem _ (follows_self _ mem) head node
    (inside head List.mem_cons_self) there last
  apply ring_follows _ _ _ follows
  · intro other member
    rcases List.mem_cons.mp member with same | later
    · exact inside _ (same ▸ List.mem_cons_self)
    · rcases List.mem_append.mp later with earlier | here
      · exact inside _ (List.mem_cons_of_mem head earlier)
      · exact List.mem_singleton.mp here ▸ there
  · exact Links.ring_insert_tail _ head node _ ring distinct fresh

theorem insert_tail_other (head node lead : Nat) (items own : List Nat) (inside : ∀ other ∈ head :: items, other ∈ cells)
    (there : node ∈ cells) (leads : ∀ other ∈ lead :: own, other ∈ cells) (ring : mem.links.Ring head items)
    (others : mem.links.Ring lead own) (fresh : node ∉ head :: items) (apart : ∀ other ∈ lead :: own, other ∉ head :: items) :
    (mem.insertTail lead node).links.Ring head items := by
  have last := (Links.ring_closed _ lead lead own others List.mem_cons_self).2
  have follows := insert_tail_follows _ places mem _ (follows_self _ mem) lead node
    (leads lead List.mem_cons_self) there (leads _ last)
  apply ring_follows _ _ _ follows head _ inside
  exact Links.ring_insert_tail_other _ head node lead _ ring fresh (apart lead List.mem_cons_self) (apart _ last)

theorem remove_ring (head node : Nat) (before behind : List Nat) (inside : ∀ other ∈ head :: (before ++ node :: behind), other ∈ cells)
    (ring : mem.links.Ring head (before ++ node :: behind)) (distinct : (head :: (before ++ node :: behind)).Nodup) :
    (mem.remove node).links.Ring head (before ++ behind) := by
  have member : node ∈ head :: (before ++ node :: behind) :=
    List.mem_cons_of_mem head (List.mem_append_right _ List.mem_cons_self)
  have closed := Links.ring_closed _ head node _ ring member
  have follows := remove_follows _ places mem _ (follows_self _ mem) node (inside node member)
    (inside _ closed.1) (inside _ closed.2)
  apply ring_follows _ _ _ follows head
  · intro other there
    have fewer := List.Sublist.cons_cons head ((List.sublist_cons_self node behind).append_left before)
    exact inside _ (fewer.subset there)
  · exact Links.ring_remove _ head node _ _ ring distinct

theorem remove_other (head node lead : Nat) (items own : List Nat) (inside : ∀ other ∈ head :: items, other ∈ cells)
    (leads : ∀ other ∈ lead :: own, other ∈ cells) (there : node ∈ lead :: own) (ring : mem.links.Ring head items)
    (others : mem.links.Ring lead own) (apart : ∀ other ∈ lead :: own, other ∉ head :: items) :
    (mem.remove node).links.Ring head items := by
  have closed := Links.ring_closed _ lead node own others there
  have follows := remove_follows _ places mem _ (follows_self _ mem) node (leads node there)
    (leads _ closed.1) (leads _ closed.2)
  apply ring_follows _ _ _ follows head _ inside
  exact Links.ring_remove_other _ head node _ ring (apart _ closed.1) (apart _ closed.2)

omit places

theorem queue_init_ring (head : Nat) (word : head < 2 ^ 64) : (mem.queueInit head).links.Ring head [] := by
  have next : (mem.queueInit head).load _ = head := load_store _ _ head word
  have prev : (mem.queueInit head).load head = head := by
    rw [queueInit, load_store_apart _ _ head head (.inr (Nat.le_refl _)), load_store mem head head word]
  exact .cons_cons ⟨next, prev⟩ (.singleton head)

theorem queue_empty_iff (head : Nat) (items : List Nat) (ring : mem.links.Ring head items) (distinct : (head :: items).Nodup) :
    mem.queueEmpty head = true ↔ items = [] := by
  rw [queueEmpty, decide_eq_true_iff]
  exact Links.ring_empty mem.links head _ ring distinct

-- A store beside the links of a ring.
theorem put_ring (addr : Nat) (text : List UInt8) (head : Nat) (items : List Nat) (ring : mem.links.Ring head items)
    (apart : ∀ node ∈ head :: items, addr + text.length ≤ node ∨ node + 16 ≤ addr) :
    (mem.put addr text).links.Ring head items := by
  apply Links.ring_congr _ _ head _ _ ring
  intro node there
  have away := apart node there
  exact ⟨load_put_apart mem addr _ text (by omega), load_put_apart mem addr node text (by omega)⟩

theorem store_ring (addr value : Nat) (head : Nat) (items : List Nat) (ring : mem.links.Ring head items)
    (apart : ∀ node ∈ head :: items, addr + 8 ≤ node ∨ node + 16 ≤ addr) : (mem.store addr value).links.Ring head items :=
  put_ring mem addr _ head _ ring (by rwa [bytes_length])

end Rings

section Frame

variable (mem : Memory) (place : Nat)

theorem put_beside (addr : Nat) (text : List UInt8) (apart : place < addr ∨ addr + text.length ≤ place) :
    mem.put addr text place = mem place := by
  rw [put]
  by_cases behind : addr ≤ place
  · rw [if_pos behind, List.getElem?_eq_none (by omega), Option.getD_none]
  · rw [if_neg behind]

theorem store_beside (addr value : Nat) (apart : place < addr ∨ addr + 8 ≤ place) : mem.store addr value place = mem place :=
  put_beside mem _ addr _ (by rwa [bytes_length])

def Beside (nodes : List Nat) : Prop := ∀ node ∈ nodes, place < node ∨ node + 16 ≤ place

variable (cells : Set Nat) (places : Places cells) (head node : Nat) (items : List Nat) (ring : mem.links.Ring head items)
  (inside : ∀ other ∈ head :: items, other ∈ cells) (beside : Beside place (head :: items))
include places ring inside beside

theorem insert_tail_beside (apart : place < node ∨ node + 16 ≤ place) : mem.insertTail head node place = mem place := by
  have last := (Links.ring_closed _ head head _ ring List.mem_cons_self).2
  have first : (mem.store node (mem.load head)).load node = mem.load head := load_store mem node _ (places.word _ (inside _ last))
  have front := beside head List.mem_cons_self
  have back : place < mem.load head ∨ mem.load head + 16 ≤ place := beside _ last
  rw [insertTail, first, store_beside _ _ head _ (by omega), store_beside _ _ (node + 8) _ (by omega),
    store_beside _ _ (mem.load head + 8) _ (by omega), store_beside _ _ node _ (by omega)]

theorem remove_beside (there : node ∈ head :: items) : mem.remove node place = mem place := by
  obtain ⟨next, prev⟩ := Links.ring_closed _ head node _ ring there
  have first : (mem.store (mem.load (node + 8)) (mem.load node)).load node = mem.load node := by
    by_cases alone : mem.load (node + 8) = node
    · rw [alone]
      exact load_store mem node _ (places.word _ (inside _ prev))
    · have apart : mem.load (node + 8) + 16 ≤ node ∨ node + 16 ≤ mem.load (node + 8) :=
        places.apart _ (inside _ next) node (inside node there) alone
      exact load_store_apart mem _ node _ (by omega)
  have front : place < mem.load node ∨ mem.load node + 16 ≤ place := beside _ prev
  have back : place < mem.load (node + 8) ∨ mem.load (node + 8) + 16 ≤ place := beside _ next
  rw [remove, first, store_beside _ _ (mem.load node + 8) _ (by omega), store_beside _ _ (mem.load (node + 8)) _ (by omega)]

end Frame

end Memory

end Codec.Lib
