import Codec.Tunnel.Moves
import Mathlib.Data.List.Perm.Basic

set_option autoImplicit false

namespace Codec.Tunnel

open Codec.Ems Codec.Lib

structure TablesAgree (table : Table) : Prop where
  same : (table.hash.map (·.2)).Perm table.list
  live : ∀ addr, addr ∈ table.list ↔ ∃ tsess, table.heap addr = some tsess
  once : table.list.Nodup
  keyed : ∀ key addr, (key, addr) ∈ table.hash → ∃ tsess, table.heap addr = some tsess ∧ key = sessionKey tsess.id
  single : ∀ left right one other, table.heap left = some one → table.heap right = some other → one.id = other.id →
    left = right
  born : ∀ birth ∈ table.births, birth.1.isRst = false ∧ birth.2 = false
  emptied : table.asserted = true

def Known (site : Site) (tunnel : EmsTunnel) : Event → Prop
  | .frame pkg => tunnel.line.talking = true → pkg.isWeb = true → pkg.isRst = true →
      (tunnelSessionFind tunnel.table pkg.id).isSome = true ∨ site.connects tunnel.table.next = .noTsess
  | _ => True

instance (site : Site) (tunnel : EmsTunnel) (event : Event) : Decidable (Known site tunnel event) := by
  cases event <;> unfold Known <;> infer_instance

variable (born : Pkg → Prop) (loses : Prop) (site : Site) (tunnel : EmsTunnel) (event : Event)

theorem births_known (pkg : Pkg) (known : Known site tunnel event)
    (born : Births site tunnel event pkg) : pkg.isRst = false := by
  obtain ⟨rfl, talking, web, absent, able⟩ := born
  cases rst : pkg.isRst with
  | false => rfl
  | true =>
    rcases known talking web rst with there | none
    · rw [absent] at there
      cases there
    · exact absurd none able

theorem move_sound (before after : EmsTunnel) (sound : TableSound before.table)
    (move : Move born loses before after) : TableSound after.table := by
  cases move with
  | line => exact sound
  | change addr change quiet => exact table_modify_sound _ sound addr _ fun tsess live => (quiet _ live).id
  | ends addr tsess change line pkgs live log id =>
    refine table_modify_sound _ sound addr _ fun other there => ?_
    cases Option.some.inj (live.symm.trans there)
    exact id
  | data => exact table_modify_sound _ sound _ _ fun _ _ => rfl
  | lost => exact table_modify_sound _ sound _ _ fun _ _ => rfl
  | insert pkg able absent => exact table_insert_sound _ sound pkg _ absent
  | skip =>
    exact ⟨sound.keyed, sound.hashed, sound.distinct, sound.listed, sound.once,
      fun addr tsess live => Nat.lt_succ_of_lt (sound.below addr _ live), sound.asserted⟩
  | remove addr => exact table_remove_sound _ sound addr
  | wipe => exact stop_all_sound _ sound

theorem step_sound (sound : TableSound tunnel.table) : TableSound (step site tunnel event).table :=
  moves_keep _ _ _ (move_sound _ _) _ _ (step_moves site _ _ sound) sound

theorem run_sound (events : List Event) : TableSound (run (step site) EmsTunnel.init events).table := by
  have every := all_steps_of_all (step site) _ EmsTunnel.init events fun _ _ => trivial
  exact run_keeps _ _ _ EmsTunnel.init _ table_sound_init
    (fun tunnel event sound _ => step_sound site tunnel _ sound) every

def Proper (table : Table) : Prop := ∀ birth ∈ table.births, birth.1.isRst = false ∧ birth.2 = false

theorem move_proper (right : ∀ pkg, born pkg → pkg.isRst = false)
    (before after : EmsTunnel) (proper : Proper before.table) (move : Move born loses before after) : Proper after.table := by
  cases move with
  | line => exact proper
  | change => exact proper
  | ends => exact proper
  | data => exact proper
  | lost => exact proper
  | insert pkg able absent =>
    intro birth there
    rcases List.mem_append.mp there with old | new
    · exact proper _ old
    · rw [List.mem_singleton.mp new, absent]
      exact ⟨right pkg able, rfl⟩
  | skip => exact proper
  | remove => exact proper
  | wipe =>
    rw [Proper, stop_all_births]
    exact proper

theorem step_proper (sound : TableSound tunnel.table)
    (known : Known site tunnel event) (proper : Proper tunnel.table) : Proper (step site tunnel event).table := by
  have moves := step_moves site _ event sound
  have right (pkg : Pkg) (born : Births site _ _ pkg) := births_known site _ _ pkg known born
  exact moves_keep _ _ _ (move_proper _ _ right) _ _ moves proper

theorem tables_agree (table : Table) (sound : TableSound table) (proper : Proper table) : TablesAgree table := by
  have pairs : table.hash.Nodup := List.Nodup.of_map _ sound.distinct
  have apart : (table.hash.map (·.2)).Nodup := by
    refine List.Nodup.map_on ?_ pairs
    rintro ⟨left, addr⟩ first ⟨right, other⟩ second same
    change addr = other at same
    subst other
    obtain ⟨one, live, named⟩ := sound.keyed left addr first
    obtain ⟨two, again, called⟩ := sound.keyed _ addr second
    cases Option.some.inj (live.symm.trans again)
    rw [named, called]
  constructor
  · refine (List.perm_ext_iff_of_nodup apart sound.once).mpr fun addr => ?_
    rw [sound.listed addr, List.mem_map]
    constructor
    · rintro ⟨⟨key, other⟩, there, rfl⟩
      obtain ⟨tsess, live, _⟩ := sound.keyed key _ there
      exact ⟨tsess, live⟩
    · rintro ⟨tsess, live⟩
      exact ⟨_, sound.hashed addr _ live, rfl⟩
  · exact sound.listed
  · exact sound.once
  · exact sound.keyed
  · exact session_single _ sound
  · exact proper
  · exact sound.asserted

theorem moves_created (start tunnel : EmsTunnel) (moves : Moves born loses start tunnel)
    (addr : Nat) (tsess : Tsess) (live : tunnel.table.heap addr = some tsess) :
    (∃ old, start.table.heap addr = some old) ∨ ∃ pkg, born pkg := by
  refine moves_keep born _ (fun tunnel => ∀ addr tsess, tunnel.table.heap addr = some tsess →
    (∃ old, start.table.heap addr = some old) ∨ ∃ pkg, born pkg) ?_ _ _ moves ?_ addr _ live
  · intro before after from_start move addr tsess live
    cases move with
    | line => exact from_start addr _ live
    | change other change =>
      obtain ⟨old, was, _⟩ := modify_live _ _ addr _ _ live
      exact from_start addr old was
    | ends other item change =>
      obtain ⟨old, was, _⟩ := modify_live _ _ addr _ _ live
      exact from_start addr old was
    | data other =>
      obtain ⟨old, was, _⟩ := modify_live _ _ addr _ _ live
      exact from_start addr old was
    | lost other =>
      obtain ⟨old, was, _⟩ := modify_live _ _ addr _ _ live
      exact from_start addr old was
    | insert pkg able => exact .inr ⟨pkg, able⟩
    | skip => exact from_start addr _ live
    | remove other => exact from_start addr _ ((remove_live _ _ addr _).mp live).2
    | wipe => exact from_start addr _ ((stop_rounds_live _ _ addr _).mp live).2
  · exact fun addr tsess live => .inl ⟨tsess, live⟩

theorem step_created (sound : TableSound tunnel.table)
    (known : Known site tunnel event) (addr : Nat) (tsess : Tsess) (free : tunnel.table.heap addr = none)
    (live : (step site tunnel event).table.heap addr = some tsess) :
    ∃ pkg, event = .frame pkg ∧ tunnelSessionFind tunnel.table pkg.id = none ∧ pkg.isRst = false := by
  rcases moves_created _ _ _ _ (step_moves site _ _ sound) addr _ live with ⟨old, was⟩ | ⟨pkg, born⟩
  · rw [free] at was
    cases was
  · exact ⟨pkg, born.1, born.2.2.2.1, births_known site _ _ pkg known born⟩

theorem session_table_agrees (site : Site) (events : List Event)
    (known : AllSteps (step site) (Known site) EmsTunnel.init events) :
    let tunnel := run (step site) EmsTunnel.init events
    TablesAgree tunnel.table ∧
      ((tunnelStopAll tunnel).table.hash = [] ∧ (tunnelStopAll tunnel).table.list = []) ∧
      ∀ event addr tsess, Known site tunnel event → tunnel.table.heap addr = none →
        (step site tunnel event).table.heap addr = some tsess →
        ∃ pkg, event = .frame pkg ∧ tunnelSessionFind tunnel.table pkg.id = none ∧ pkg.isRst = false := by
  have sound := run_sound site events
  have proper : TableSound _ ∧
      Proper _ :=
    run_keeps (step site) _ (fun tunnel => TableSound tunnel.table ∧ Proper tunnel.table) EmsTunnel.init _
      ⟨table_sound_init, List.forall_mem_nil _⟩
      (fun tunnel event both allowed => ⟨step_sound site _ _ both.1,
        step_proper site _ _ both.1 allowed both.2⟩) known
  refine ⟨tables_agree _ sound proper.2, stop_all_empty _ sound, ?_⟩
  intro event addr tsess allowed free live
  exact step_created site _ _ sound allowed addr _ free live

-- A site whose web server accepts each connection after a while.
def plainSite : Site where
  register := ascii "\x7b \"method\": \"register\", \"sn\": \"10010\" \x7d"
  heartbeat := ascii "\x7b \"method\": \"heartbeat\" \x7d"
  accepts := fun _ => true
  hb := 60
  connects := fun _ => .progress

theorem session_table_agrees_reset : TablesAgree (run (step plainSite) EmsTunnel.init
      [.start .online 1, .frame ⟨msgTypeWeb, 7, ascii "GET /"⟩, .frame ⟨msgWebDown, 7, []⟩]).table :=
  (session_table_agrees _ _ (by decide +kernel)).1

theorem reset_creates_session :
    let tunnel := run (step plainSite) EmsTunnel.init [.start .online 1]
    let next := step plainSite tunnel (.frame ⟨msgWebDown, 7, []⟩)
    tunnelSessionFind tunnel.table 7 = none ∧ tunnelSessionFind next.table 7 = some 0 ∧ ¬ TablesAgree next.table := by
  have born : (⟨msgWebDown, 7, []⟩, false) ∈
      (step plainSite (run (step plainSite) EmsTunnel.init [.start .online 1]) (.frame ⟨msgWebDown, 7, []⟩)).table.births := by
    decide +kernel
  refine ⟨by decide +kernel, by decide +kernel, fun agree => ?_⟩
  have rst := (agree.born _ born).1
  cases rst

end Codec.Tunnel
