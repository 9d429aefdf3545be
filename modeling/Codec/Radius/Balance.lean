import Codec.Radius.StepSpec

set_option autoImplicit false

namespace Codec.Radius

open Codec.Ems Codec.Lib

-- One of the two chains, with what -A, -D and -F of this module do to it.
structure Chain where
  rules : Firewall → List Rule
  key : Str → Str → Rule
  flushes : Bool
  opens : ∀ fw ip mac, rules (fwDeviceFree fw ip mac true) = rules fw ++ [key ip mac]
  closes : ∀ fw ip mac, rules (fwDeviceFree fw ip mac false) = (rules fw).erase (key ip mac)
  flush : ∀ fw, rules (fwFlushAuthed fw) = if flushes then [] else rules fw
  running : ∀ fw run, rules { fw with run := run } = rules fw
  empty : rules ⟨false, [], []⟩ = []

def authedChain : Chain where
  rules := Firewall.authed
  key := acceptRule
  flushes := true
  opens := fun _ _ _ => rfl
  closes := fun _ _ _ => rfl
  flush := fun _ => rfl
  running := fun _ _ => rfl
  empty := rfl

def accountChain : Chain where
  rules := Firewall.account
  key := accountRule
  flushes := false
  opens := fun _ _ _ => rfl
  closes := fun _ _ _ => rfl
  flush := fun _ => rfl
  running := fun _ _ => rfl
  empty := rfl

def Chain.rule (chain : Chain) (dev : Device) : Rule := chain.key dev.ip dev.mac

def Chain.owners (chain : Chain) (devs : List Device) : List Rule := (devs.filter Device.accepted).map chain.rule

structure Ledger (chain : Chain) (devs : List Device) (sh : Shared) : Prop where
  base : Base devs sh
  covers : Covers (chain.owners devs) (chain.rules sh.fw)
  stopped : sh.fw.run = false → chain.rules sh.fw = []

variable (chain : Chain) (before behind : List Device) (dev : Device)

theorem owners_around (entry : Option Device) : chain.owners (before ++ (entry.toList ++ behind)) =
      chain.owners before ++ (chain.owners entry.toList ++ chain.owners behind) := by
  simp only [Chain.owners, List.filter_append, List.map_append]

theorem owners_none : chain.owners (none : Option Device).toList = [] := rfl

theorem owners_some : chain.owners (some dev).toList = if dev.accepted then [chain.rule dev] else [] := by
  cases accepted : dev.accepted <;> simp [Chain.owners, accepted]

theorem same_rule (dev next : Device) (ip : next.ip = dev.ip) (mac : next.mac = dev.mac) :
    chain.rule next = chain.rule dev := by
  rw [Chain.rule, Chain.rule, ip, mac]

theorem fw_set_rules (fw : Firewall) (set : Bool) (named : dev.ip ≠ [] ∧ dev.mac ≠ []) : chain.rules (dev.fwSet fw set) =
      if fw.run then (if set then chain.rules fw ++ [chain.rule dev] else (chain.rules fw).erase (chain.rule dev))
      else chain.rules fw := by
  rw [Device.fwSet, fw_process_complete fw _ _ set named.1 named.2]
  cases fw.run with
  | false => rfl
  | true =>
    cases set with
    | false => exact chain.closes fw _ _
    | true => exact chain.opens fw _ _

theorem fw_set_run (fw : Firewall) (set : Bool) : (dev.fwSet fw set).run = fw.run := fw_process_device_free_run fw _ _ set

theorem covers_silent (dev next : Device) (grants : List Rule)
    (ip : next.ip = dev.ip) (mac : next.mac = dev.mac) (accepted : next.accepted = dev.accepted)
    (covers : Covers (chain.owners (before ++ ((some dev).toList ++ behind))) grants) :
    Covers (chain.owners (before ++ ((some next).toList ++ behind))) grants := by
  rw [owners_around, owners_some, accepted, same_rule _ dev next ip mac, ← owners_some, ← owners_around]
  exact covers

theorem covers_closed (entry : Option Device)
    (fw after : Firewall) (named : dev.ip ≠ [] ∧ dev.mac ≠ []) (closed : after = dev.fwSet fw false)
    (gone : chain.owners entry.toList = []) (stopped : fw.run = false → chain.rules fw = [])
    (covers : Covers (chain.owners (before ++ ((some dev).toList ++ behind))) (chain.rules fw)) :
    Covers (chain.owners (before ++ (entry.toList ++ behind))) (chain.rules after) := by
  rw [closed, fw_set_rules _ dev fw _ named, owners_around, gone]
  rw [owners_around, owners_some] at covers
  cases run : fw.run with
  | false =>
    simp only [stopped run]
    exact covers_nil _
  | true =>
    cases accepted : dev.accepted with
    | false =>
      rw [accepted] at covers
      exact covers_erase _ _ _ covers
    | true =>
      rw [accepted] at covers
      exact covers_loss _ _ _ _ covers

theorem covers_opened (dev next : Device) (fw after : Firewall)
    (named : dev.ip ≠ [] ∧ dev.mac ≠ []) (ip : next.ip = dev.ip) (mac : next.mac = dev.mac)
    (accepted : next.accepted = true) (opened : after = dev.fwSet fw true)
    (once : dev.accepted = true → fw.run = true → chain.rule dev ∉ chain.rules fw)
    (covers : Covers (chain.owners (before ++ ((some dev).toList ++ behind))) (chain.rules fw)) :
    Covers (chain.owners (before ++ ((some next).toList ++ behind))) (chain.rules after) := by
  rw [opened, fw_set_rules _ dev fw true named, owners_around, owners_some, accepted, same_rule _ dev next ip mac]
  rw [owners_around, owners_some] at covers
  cases run : fw.run with
  | false =>
    cases old : dev.accepted with
    | false =>
      rw [old] at covers
      exact covers_more _ _ _ _ covers
    | true =>
      rw [old] at covers
      exact covers
  | true =>
    cases old : dev.accepted with
    | false =>
      rw [old] at covers
      exact covers_gain _ _ _ _ covers
    | true =>
      rw [old] at covers
      refine covers_absent _ _ _ ?_ ?_ covers
      · intro grant member
        rw [List.mem_singleton.mp member]
        exact once old run
      · exact covers_gain _ _ [] _ (covers_nil _)

theorem stopped_set (fw after : Firewall) (set : Bool) (named : dev.ip ≠ [] ∧ dev.mac ≠ []) (result : after = dev.fwSet fw set)
    (stopped : fw.run = false → chain.rules fw = []) (run : after.run = false) : chain.rules after = [] := by
  subst result
  rw [fw_set_run] at run
  rw [fw_set_rules _ dev fw set named, run]
  exact stopped run

theorem ledger_move (label : Label) (cell next : Cell) (move : Move label cell next)
    (once : ∀ dev, cell.dev = some dev → label = .accept → dev.accepted = true → cell.sh.fw.run = true →
      chain.rule dev ∉ chain.rules cell.sh.fw) (ledger : Ledger chain (before ++ (cell.dev.toList ++ behind)) cell.sh) :
    Ledger chain (before ++ (next.dev.toList ++ behind)) next.sh := by
  have base := base_move _ _ _ cell next move ledger.base
  have named : ∀ dev, cell.dev = some dev → dev.ip ≠ [] ∧ dev.mac ≠ [] := fun dev same =>
    ledger.base.named dev ((mem_around _ _ _ dev).mpr (.inr (.inl same)))
  have covers := ledger.covers
  have stopped := ledger.stopped
  have silent : ∀ dev changed sh after, cell = ⟨some dev, sh⟩ → next = ⟨some changed, after⟩ →
      changed.ip = dev.ip → changed.mac = dev.mac → changed.accepted = dev.accepted → after.fw = sh.fw →
      Ledger chain (before ++ (next.dev.toList ++ behind)) next.sh := by
    intro dev changed sh after start result ip mac accepted fw
    subst start
    subst result
    refine ⟨base, ?_, ?_⟩
    · rw [fw]
      exact covers_silent _ _ _ dev _ _ ip mac accepted covers
    · rw [fw]
      exact stopped
  have closed : ∀ dev sh, cell = ⟨some dev, sh⟩ → next.sh.fw = dev.fwSet sh.fw false →
      chain.owners next.dev.toList = [] → Ledger chain (before ++ (next.dev.toList ++ behind)) next.sh := by
    intro dev sh start fw gone
    subst start
    exact ⟨base, covers_closed _ _ _ dev _ _ _ (named dev rfl) fw gone stopped covers,
      stopped_set _ dev _ _ _ (named dev rfl) fw stopped⟩
  cases move with
  | keep dev changed sh after same st frame => exact silent dev _ sh _ rfl rfl same.ip same.mac same.accepted frame.fw
  | send dev changed sh after same st result =>
    exact silent dev _ sh _ rfl rfl same.ip same.mac same.accepted (result ▸ transmit_fw sh _)
  | settle dev changed sh after same was new frame => exact silent dev _ sh _ rfl rfl same.ip same.mac same.accepted frame.fw
  | revive dev changed sh after same was fine new frame =>
    exact silent dev _ sh _ rfl rfl same.ip same.mac same.accepted frame.fw
  | probe dev changed sh after same was new frame => exact silent dev _ sh _ rfl rfl same.ip same.mac same.accepted frame.fw
  | interim dev changed sh after request was new accepted begins fw =>
    exact silent dev _ sh _ rfl rfl begins.ip begins.mac accepted fw
  | renew dev changed sh after request new same code serial reason fw wire clock nextSerial =>
    exact silent dev _ sh _ rfl rfl same.ip same.mac same.accepted fw
  | accept dev changed sh after request was new accepted begins fw =>
    refine ⟨base, ?_, stopped_set _ dev _ _ true (named dev rfl) fw stopped⟩
    exact covers_opened _ _ _ dev _ _ _ (named dev rfl) begins.ip begins.mac accepted fw
      (once dev rfl rfl) covers
  | leave dev changed sh after request was new accepted begins fw =>
    exact closed dev sh rfl fw (by rw [owners_some, accepted]; rfl)
  | abandon dev changed sh after was new accepted same frame =>
    exact closed dev sh rfl frame.fw (by rw [owners_some, accepted]; rfl)
  | drop dev sh after frame => exact closed dev sh rfl frame.fw (owners_none _)

def Balanced (chain : Chain) (w : World) (event : Event) : Prop :=
  match event with
  | .device env id _ (.read _) =>
    ∀ dev ∈ w.devs, dev.id = id → dev.st = .auth → env.connect = true → Replies env dev w.sh pwAccessAccept →
      dev.accepted = true → w.sh.fw.run = true → chain.rule dev ∉ chain.rules w.sh.fw
  | .radiusReload =>
    w.run = true → w.reloads ≠ 0 → w.sh.fw.run = true →
      ∀ dev ∈ w.devs, dev.accepted = true ∧ chain.rule dev ∉ chain.rules w.sh.fw
  | .fwStop => chain.flushes = false → w.sh.fw.run = true → chain.rules w.sh.fw = []
  | _ => True

theorem reload_rules (devs : List Device) (fw : Firewall) (named : ∀ dev ∈ devs, dev.ip ≠ [] ∧ dev.mac ≠ []) :
    chain.rules (devs.foldl (fun fw dev => fwProcessDeviceFree fw dev.ip dev.mac true) fw) =
        (if fw.run then chain.rules fw ++ devs.map chain.rule else chain.rules fw) ∧
      (devs.foldl (fun fw dev => fwProcessDeviceFree fw dev.ip dev.mac true) fw).run = fw.run := by
  induction devs generalizing fw with
  | nil => cases run : fw.run <;> simp [run]
  | cons dev rest ih =>
    have here := fw_set_rules chain dev fw true (named dev List.mem_cons_self)
    obtain ⟨rules, run⟩ := ih _ fun other member =>
      named _ (List.mem_cons_of_mem dev member)
    rw [fw_set_run] at rules run
    refine ⟨?_, run⟩
    rw [List.foldl_cons]
    refine rules.trans ?_
    cases running : fw.run with
    | false => simpa [running] using here
    | true =>
      rw [running] at here
      simp only [if_true] at here ⊢
      rw [here, List.append_assoc]
      rfl

theorem ledger_reload (w : World)
    (clear : w.sh.fw.run = true → ∀ dev ∈ w.devs, dev.accepted = true ∧ chain.rule dev ∉ chain.rules w.sh.fw)
    (ledger : Ledger chain w.devs w.sh) : Ledger chain w.devs (radiusEvtFwReload w).sh := by
  obtain ⟨rules, run⟩ := reload_rules chain _ w.sh.fw ledger.base.named
  refine ⟨{ ledger.base with }, ?_, ?_⟩
  · simp only [radiusEvtFwReload, rules]
    cases running : w.sh.fw.run with
    | false => exact ledger.covers
    | true =>
      have all : chain.owners w.devs = w.devs.map chain.rule := by
        rw [Chain.owners, List.filter_eq_self.mpr fun dev member => (clear running dev member).1]
      refine covers_absent _ _ _ ?_ (fun grant => by rw [all]) ledger.covers
      intro grant member
      obtain ⟨dev, listed, same⟩ := List.mem_map.mp member
      exact same ▸ (clear running dev listed).2
  · simp only [radiusEvtFwReload, run, rules]
    intro stopped
    simp only [stopped]
    exact ledger.stopped stopped

theorem ledger_preserves (ok : World → Event → Prop)
    (balanced : ∀ w event, ok w event → Balanced chain w event) : Preserves ok (Ledger chain) where
  base devs sh ledger := ledger.base
  ra devs sh ra ledger :=
    ⟨{ ledger.base with }, ledger.covers, ledger.stopped⟩
  clock w clock _ ledger :=
    ⟨{ ledger.base with }, ledger.covers, ledger.stopped⟩
  fwStarts devs sh ledger := by
    refine ⟨{ ledger.base with }, ?_, ?_⟩
    · simpa only [fwStart, chain.running] using ledger.covers
    · intro run
      simp [fwStart] at run
  fwStops w allowed ledger := by
    have clear := balanced w _ allowed
    refine ⟨{ ledger.base with }, ?_, ?_⟩
    · cases run : w.sh.fw.run with
      | false => simpa [fwStop, run] using ledger.covers
      | true =>
        simp only [fwStop, run, if_true, chain.running, chain.flush]
        cases flushes : chain.flushes with
        | true => exact covers_nil _
        | false =>
          simp only [Bool.false_eq_true, if_false, clear flushes run]
          exact covers_nil _
    · intro _
      cases run : w.sh.fw.run with
      | false => simpa [fwStop, run] using ledger.stopped run
      | true =>
        simp only [fwStop, run, if_true, chain.running, chain.flush]
        cases flushes : chain.flushes with
        | true => rfl
        | false => exact clear flushes run
  flush devs sh ledger := by
    refine ⟨{ ledger.base with }, ?_, ?_⟩
    · simp only [chain.flush]
      split
      · exact covers_nil _
      · exact ledger.covers
    · intro run
      simp only [chain.flush]
      split
      · rfl
      · exact ledger.stopped run
  reload w allowed run queued ledger := ledger_reload _ w (balanced w _ allowed run queued) ledger
  leave w event _ ledger := by
    refine ⟨Ledger _, ⟨fun _ _ ledger => ledger.base.sound, ?_, ?_⟩, ledger, fun _ _ ledger => ledger⟩
    · exact fun devs sh ra ledger => ⟨{ ledger.base with },
        ledger.covers, ledger.stopped⟩
    · intro before behind label dev sh next kind _ move ledger
      refine ledger_move _ _ _ _ _ next move ?_ ledger
      intro now _ accept
      subst accept
      rcases kind with bad | bad <;> cases bad
  renew before behind label dev sh next kind move ledger := by
    refine ledger_move _ _ _ _ _ next move ?_ ledger
    intro now _ accept
    subst accept
    rcases kind with bad | bad <;> cases bad
  join devs sh id name pass ip mac rounds label next ledger hasIp hasMac kind move := by
    have base := base_join devs sh id name pass ip mac _ _ next ledger.base hasIp hasMac kind move
    have covers : Covers (chain.owners (devs ++ ((some (emsDeviceNew id name pass ip mac rounds)).toList ++ [])))
        (chain.rules sh.fw) := by
      rw [owners_around]
      simpa [Chain.owners, emsDeviceNew] using ledger.covers
    rw [← List.append_nil next.dev.toList] at base ⊢
    cases move with
    | renew dev changed _ after request new same code serial reason fw wire clock nextSerial =>
      refine ⟨base, ?_, ?_⟩
      · rw [fw]
        exact covers_silent _ devs [] (emsDeviceNew id name pass ip mac _) _ _ same.ip same.mac
          same.accepted covers
      · rw [fw]
        exact ledger.stopped
    | drop dev _ after frame =>
      exact ⟨base, covers_closed _ devs [] _ none _ _ ⟨hasIp, hasMac⟩ frame.fw (owners_none _)
        ledger.stopped covers, stopped_set _ _ _ _ _
        ⟨hasIp, hasMac⟩ frame.fw ledger.stopped⟩
    | _ => rcases kind with bad | bad <;> cases bad
  device w env id which event dev before behind allowed split same ledger := by
    have fine := balanced w _ allowed
    refine ⟨fun cell => Ledger _ _ _ ∧
      ∀ now, cell.dev = some now → now.st = .auth →
        dev.st = .auth ∧ now.accepted = dev.accepted ∧ chain.rule now = chain.rule dev ∧ cell.sh.fw = w.sh.fw,
      ⟨?_, ?_⟩, fun cell both => both.1, ?_⟩
    · rw [split] at ledger
      exact ledger
    · intro now here st
      cases here
      exact ⟨st, rfl, rfl, rfl⟩
    · intro label cell next kind move both
      refine ⟨ledger_move _ _ _ _ cell next move ?_ both.1, ?_⟩
      · intro now here accept accepted run
        subst accept
        cases move with
        | accept _ changed sh after request was new _ begins fw =>
          cases here
          obtain ⟨st, same, rule, start⟩ := both.2 now rfl was
          have begun : sh.fw = w.sh.fw := start
          rw [begun] at run ⊢
          rw [rule]
          cases event with
          | read stream =>
            simp only [Allowed, st, reduceCtorEq, false_or, true_and] at kind
            exact fine dev (by simp [split]) (by assumption) st kind.1 kind.2 (same ▸ accepted) run
          | error => simp [Allowed] at kind
          | write result => simp [Allowed, st] at kind
          | timeout => simp [Allowed, st] at kind
      · intro now here auth
        rcases move_into_auth _ cell next move now here auth with renewed | ⟨prior, found, st, kept, fw, _⟩
        · subst renewed
          exact absurd kind (allowed_not_renew env _ _ dev w.sh)
        · obtain ⟨old, accepted, rule, begun⟩ := both.2 _ found st
          exact ⟨old, kept.accepted.trans accepted, (same_rule _ _ now kept.ip kept.mac).trans rule, fw.trans begun⟩

def AcceptSound (w : World) : Prop :=
  ∀ rule ∈ w.sh.fw.authed, ∃ dev ∈ w.devs, acceptRule dev.ip dev.mac = rule ∧ dev.accepted = true

instance (w : World) : Decidable (AcceptSound w) :=
  inferInstanceAs (Decidable (∀ rule ∈ w.sh.fw.authed, ∃ dev ∈ w.devs,
    acceptRule dev.ip dev.mac = rule ∧ dev.accepted = true))

theorem ledger_owner (devs : List Device) (sh : Shared) (ledger : Ledger chain devs sh) (rule : Rule)
    (installed : rule ∈ chain.rules sh.fw) : ∃ dev ∈ devs, chain.rule dev = rule ∧ dev.accepted = true := by
  have owned := covers_mem _ _ ledger.covers rule installed
  obtain ⟨dev, member, same⟩ := List.mem_map.mp owned
  obtain ⟨listed, accepted⟩ := List.mem_filter.mp member
  exact ⟨dev, listed, same, accepted⟩

theorem ledger_run (ok : World → Event → Prop) (balanced : ∀ w event, ok w event → Balanced chain w event)
    (iface : Iface) (events : List Event) (steps : AllSteps step ok (World.init iface) events) :
    Ledger chain (run step (World.init iface) events).devs (run step (World.init iface) events).sh := by
  refine (run_listed ok _ (ledger_preserves _ ok balanced) _ _ ?_ steps).holds
  exact ⟨⟨by simp, by simp, by simp [World.init], by simp⟩, chain.empty ▸ covers_nil _, fun _ => chain.empty⟩

theorem accept_rule_sound (iface : Iface) (events : List Event)
    (steps : AllSteps step (Balanced authedChain) (World.init iface) events) :
    AcceptSound (run step (World.init iface) events) :=
  ledger_owner _ _ _ (ledger_run _ _ (fun _ _ fine => fine) _ _ steps)

theorem login_balanced : AllSteps step (Balanced chain) (World.init sampleIface) loginRun := by
  refine ⟨trivial, trivial, trivial, trivial, ?_, trivial⟩
  intro dev member _ _ _ _ accepted
  have fresh : ∀ dev ∈ (run step (World.init sampleIface) (loginRun.take 4)).devs, dev.accepted = false := by decide +kernel
  exact absurd accepted (by rw [fresh dev member]; decide)

theorem accept_rule_sound_login : AcceptSound (run step (World.init sampleIface) loginRun) :=
  accept_rule_sound _ _ (login_balanced _)

theorem reload_opens_unanswered : ¬∀ iface events, AcceptSound (run step (World.init iface) events) := by
  intro sound
  have opened := sound sampleIface [.start, .fwStart, .auth sampleEnv [117] [112] [105] [109], .fwReload, .radiusReload]
  exact absurd opened (by decide +kernel)

def RulesGone (early late : World) : Prop :=
  ∀ dev ∈ early.devs, (∀ now ∈ late.devs, now.id ≠ dev.id) →
    (acceptRule dev.ip dev.mac ∈ late.sh.fw.authed →
      ∃ now ∈ late.devs, now.accepted = true ∧ now.ip = dev.ip ∧ fwMacUpdate now.mac = fwMacUpdate dev.mac) ∧
    (accountRule dev.ip dev.mac ∈ late.sh.fw.account →
      ∃ now ∈ late.devs, now.accepted = true ∧ now.ip = dev.ip ∧ now.mac = dev.mac)

instance (early late : World) : Decidable (RulesGone early late) :=
  inferInstanceAs (Decidable (∀ dev ∈ early.devs, (∀ now ∈ late.devs, now.id ≠ dev.id) →
    (acceptRule dev.ip dev.mac ∈ late.sh.fw.authed →
      ∃ now ∈ late.devs, now.accepted = true ∧ now.ip = dev.ip ∧ fwMacUpdate now.mac = fwMacUpdate dev.mac) ∧
    (accountRule dev.ip dev.mac ∈ late.sh.fw.account →
      ∃ now ∈ late.devs, now.accepted = true ∧ now.ip = dev.ip ∧ now.mac = dev.mac)))

theorem rules_gone_with_device (iface : Iface) (first second : List Event)
    (steps : AllSteps step (fun w event => Balanced authedChain w event ∧ Balanced accountChain w event)
      (World.init iface) (first ++ second)) :
    RulesGone (run step (World.init iface) first) (run step (World.init iface) (first ++ second)) := by
  intro dev _ _
  refine ⟨?_, ?_⟩
  · intro installed
    obtain ⟨now, listed, same, accepted⟩ := ledger_owner _ _ _
      (ledger_run _ _ (fun _ _ fine => fine.1) _ _ steps) _ installed
    have parts := Rule.mk.inj same
    exact ⟨now, listed, accepted, parts.1, parts.2⟩
  · intro installed
    obtain ⟨now, listed, same, accepted⟩ := ledger_owner _ _ _
      (ledger_run _ _ (fun _ _ fine => fine.2) _ _ steps) _ installed
    have parts := Rule.mk.inj same
    exact ⟨now, listed, accepted, parts.1, parts.2⟩

theorem rules_gone_login_error : RulesGone (run step (World.init sampleIface) loginRun)
      (run step (World.init sampleIface) (loginRun ++ [.device sampleEnv 0 .radius .error])) :=
  rules_gone_with_device _ _ _
    ((all_steps_append step _ _ _ _).mpr
      ⟨all_steps_and _ _ _ _ _ (login_balanced _) (login_balanced _), ⟨trivial, trivial⟩, trivial⟩)

theorem reload_leaves_account_rule :
    ¬∀ iface first second, RulesGone (run step (World.init iface) first) (run step (World.init iface) (first ++ second)) := by
  intro gone
  have left := gone sampleIface loginRun [.fwReload, .radiusReload, .fwReload, .radiusReload, .logout [117] [105] [109],
    .device sampleEnv 0 .radius .error]
  exact absurd left (by decide +kernel)

end Codec.Radius
