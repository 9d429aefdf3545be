import Codec.Ssid.RedirectSpec

set_option autoImplicit false

namespace Codec.Ssid

open Codec.Ems Codec.Lib List
open Codec.Fw (emsAtoi)

section Servers

variable (rule : HttpRules)

theorem grey_list_spec (http : EmsHttp) (grey : List (Option Str)) : emsHttpGetUrlGreylist http grey = { http with
        grey := http.grey ++ ownAddresses http.srcPort grey
        greyList := http.greyList || !(ownAddresses http.srcPort grey).isEmpty } := by
  induction grey generalizing http with
  | nil => simp [emsHttpGetUrlGreylist, ownAddresses]
  | cons obj rest ih =>
    rw [emsHttpGetUrlGreylist]
    cases own : obj.bind _ with
    | none =>
      have same : ownAddresses _ _ = ownAddresses _ rest := filterMap_cons_none own
      rw [same]
      exact ih http
    | some key =>
      have more : ownAddresses _ _ = key :: ownAddresses _ rest := filterMap_cons_some own
      rw [more]
      dsimp only
      rw [ih]
      simp

theorem create_fine (port : Str) (bind : Option (Fin 21)) (sound : PortSound rule port) :
    Fine (emsHttpCreate rule (emsAtoi port) bind) := by
  have dst (http : EmsHttp) : 0 < (httpStart http bind).dstPort := by
    cases bind with
    | none => exact Int.ofNat_lt.mpr (by decide)
    | some found =>
      show (0 : Int) < 9200 + found.val
      omega
  have others (http : EmsHttp) (same : http.srcPort = emsAtoi port) (nas : http.nasGetInfo = false → http.nas = [])
      (grey : http.greyList = false → http.grey = []) (distinct : (greyAddresses http).Nodup) :
      Fine (httpStart http bind) := by
    cases bind with
    | none => exact ⟨same ▸ sound.1, dst http, nas, grey, distinct⟩
    | some found => exact ⟨same ▸ sound.1, dst http, nas, grey, distinct⟩
  rw [emsHttpCreate, grey_list_spec]
  cases own : rule.nas.bind _ with
  | none =>
    have nas : emsHttpGetNas (emsHttpNew (emsAtoi port)) rule.nas = emsHttpNew (emsAtoi port) := by
      rw [emsHttpGetNas, emsHttpNew, own]
    rw [nas]
    apply others
    · rfl
    · exact fun _ => rfl
    · simp [emsHttpNew]
    · exact sound.2
  | some address =>
    have nas : emsHttpGetNas (emsHttpNew (emsAtoi port)) rule.nas =
        { emsHttpNew (emsAtoi port) with nas := address, nasGetInfo := true } := by
      rw [emsHttpGetNas, emsHttpNew, own]
    rw [nas]
    apply others
    · rfl
    · exact fun off => Bool.noConfusion off
    · simp [emsHttpNew]
    · exact sound.2

structure Created (ports : List Str) (binds : List (Option (Fin 21))) (state made : HttpMgmt × EmsFw) : Prop where
  run : made.1.run = state.1.run
  fine : (∀ http ∈ state.1.list, Fine http) → ∀ http ∈ made.1.list, Fine http
  none : openedPorts ports binds = [] → made.1.list = state.1.list
  fwRun : made.2.run = state.2.run
  bare : Bare state.2 → made.2 = state.2

theorem create_failed (port : Str) (state : HttpMgmt × EmsFw) :
    Created [] [] state (emsHttpCreateNew rule (emsAtoi port) none state) where
  run := rfl
  fine := id
  none _ := rfl
  fwRun := set_free_run _ _ _
  bare := stopped_bare _ _

theorem create_all_spec (ports : List Str) (binds : List (Option (Fin 21))) (state : HttpMgmt × EmsFw)
    (sound : ∀ port ∈ openedPorts ports binds, PortSound rule port) :
    Created ports binds state (createAll rule ports binds state) := by
  induction ports generalizing binds state with
  | nil => exact ⟨rfl, id, fun _ => rfl, rfl, fun _ => rfl⟩
  | cons port rest ih =>
    rw [createAll]
    have failed (tail : List _) (same : openedPorts (port :: rest) binds = openedPorts rest tail) :
        Created (port :: rest) binds state
          (createAll rule rest tail (emsHttpCreateNew rule (emsAtoi port) none state)) := by
      have first := create_failed rule port state
      have later := ih tail (emsHttpCreateNew rule (emsAtoi port) none state) (same ▸ sound)
      constructor
      · exact later.run
      · exact fun fine => later.fine (first.fine fine)
      · exact fun empty => later.none (same ▸ empty)
      · exact later.fwRun.trans first.fwRun
      · intro bare
        have kept := first.bare bare
        exact (later.bare (kept ▸ bare)).trans kept
    cases binds with
    | nil => exact failed [] (by simp [openedPorts])
    | cons bind more =>
      cases bind with
      | none => exact failed more rfl
      | some found =>
        have here : openedPorts (port :: rest) (some found :: more) = port :: openedPorts rest more := rfl
        have fineOne := create_fine rule port (some found) (sound port (here ▸ mem_cons_self))
        have later := ih more (emsHttpCreateNew rule (emsAtoi port) (some found) state)
          fun other there => sound _ (here ▸ mem_cons_of_mem port there)
        constructor
        · exact later.run
        · intro fine
          apply later.fine
          intro http there
          obtain old | new := mem_append.mp there
          · exact fine http old
          · exact mem_singleton.mp new ▸ fineOne
        · intro empty
          rw [here] at empty
          cases empty
        · exact later.fwRun
        · exact later.bare

end Servers

def Clean (queue : List Msg) (fw : EmsFw) : Prop := fw.run = true → .fw .evtFwReload ∈ queue ∨ Bare fw

section Chains

variable (queue : List Msg) (list : List EmsHttp) (fw : EmsFw)

theorem idle_clean (chains : ChainsSound queue [] fw) : Clean queue fw := by
  intro run
  cases chains with
  | stopped stop => exact absurd (run.symm.trans stop) (by decide)
  | flushed later => exact .inl later
  | waiting bare _ => exact .inr bare
  | filled pre post preRules postRules preSame postSame =>
    cases preSame.eq_nil
    cases postSame.eq_nil
    exact .inr ⟨preRules, postRules⟩

theorem clean_sound (clean : Clean queue fw) : ChainsSound queue [] fw := by
  cases run : fw.run with
  | false => exact .stopped run
  | true =>
    obtain later | bare := clean run
    · exact .flushed later
    · exact .filled [] [] bare.pre bare.post .nil .nil

theorem stopped_clean (chains : ChainsSound queue list fw) (fine : ∀ http ∈ list, Fine http) :
    Clean queue (list.foldl httpStopped fw) := by
  have same : (list.foldl httpStopped fw).run = fw.run := all_free_run fw list _
  intro run
  rw [same] at run
  cases chains with
  | stopped stop => exact absurd (run.symm.trans stop) (by decide)
  | flushed later => exact .inl later
  | waiting bare _ =>
    rw [all_stopped_bare fw list bare]
    exact .inr bare
  | filled pre post preRules postRules preSame postSame =>
    have all : list.foldl httpStopped fw = edited _ fw _ _ := all_free_spec fw list _ run fine
    rw [← append_nil (list.flatMap _)] at preSame
    rw [← append_nil (list.map _)] at postSame
    obtain ⟨preLeft, preEnd, preNone⟩ := ipt_delete pre _ [] preSame
    obtain ⟨postLeft, postEnd, postNone⟩ := ipt_delete post _ [] postSame
    cases preNone.eq_nil
    cases postNone.eq_nil
    right
    rw [all, edited, preRules, postRules]
    exact ⟨preEnd, postEnd⟩

theorem reload_fills (run : fw.run = true) (bare : Bare fw) (fine : ∀ http ∈ list, Fine http) :
    ChainsSound queue list (list.foldl (httpSetFree true) fw) := by
  rw [all_free_spec fw list true run fine]
  apply ChainsSound.filled _ _
  · rw [edited, bare.pre, ipt_insert, append_nil]
  · rw [edited, bare.post, ipt_insert, append_nil]
  · exact reverse_perm _
  · exact reverse_perm _

theorem chains_append (more : List Msg) (chains : ChainsSound queue list fw) : ChainsSound (queue ++ more) list fw := by
  cases chains with
  | stopped stop => exact .stopped stop
  | flushed later => exact .flushed (mem_append_left more later)
  | waiting bare later => exact .waiting bare (mem_append_left more later)
  | filled pre post preRules postRules preSame postSame => exact .filled pre post preRules postRules preSame postSame

theorem chains_tail (msg : Msg) (noFlush : msg ≠ .fw .evtFwReload) (noFill : msg ≠ .http .evtFwReload)
    (chains : ChainsSound (msg :: queue) list fw) : ChainsSound queue list fw := by
  cases chains with
  | stopped stop => exact .stopped stop
  | flushed later => exact .flushed (mem_of_ne_of_mem noFlush.symm later)
  | waiting bare later => exact .waiting bare (mem_of_ne_of_mem noFill.symm later)
  | filled pre post preRules postRules preSame postSame => exact .filled pre post preRules postRules preSame postSame

end Chains

section Messages

variable (binds : List (Option (Fin 21))) (mgmt : HttpMgmt) (fw : EmsFw) (queue : List Msg)

structure HttpSound (queue : List Msg) (state : HttpMgmt × EmsFw) : Prop where
  idle : state.1.run = false → state.1.list = []
  fine : ∀ http ∈ state.1.list, Fine http
  chains : ChainsSound queue state.1.list state.2

structure StartSound (queue : List Msg) (mgmt : HttpMgmt) (started : Bool × HttpMgmt × EmsFw) : Prop where
  failed : started.1 = false → started.2.1.list = []
  run : started.2.1.run = mgmt.run
  fine : ∀ http ∈ started.2.1.list, Fine http
  chains : ChainsSound queue started.2.1.list started.2.2

theorem start_all_spec (rule : HttpRules) (which : mgmt.rule.getD emsHttpDefaultRules = rule) (idle : mgmt.list = [])
    (clean : Clean queue fw) (ports : ∀ port ∈ opened rule binds, PortSound rule port)
    (behind : fw.run = true → .fw .evtFwReload ∉ queue → opened rule binds ≠ [] → .http .evtFwReload ∈ queue) :
    StartSound queue mgmt (httpStartAll binds (mgmt, fw)) := by
  have made := create_all_spec rule _ _ ({ mgmt with rule := some rule }, fw) ports
  have result : httpStartAll binds (mgmt, fw) =
      (rule.port.isSome, createAll rule rule.ports binds ({ mgmt with rule := some rule }, fw)) := by
    rw [httpStartAll, which]
  rw [result]
  generalize createAll rule _ _ _ = started at made
  constructor
  · intro failed
    have missing : rule.port = none := Option.isSome_eq_false_iff.mp failed |> Option.isNone_iff_eq_none.mp
    have empty : rule.ports = [] := by
      rw [HttpRules.ports, missing]
      rfl
    rw [made.none (by rw [openedPorts, empty]; rfl)]
    exact idle
  · exact made.run
  · apply made.fine
    intro http there
    rw [idle] at there
    exact absurd there not_mem_nil
  · cases run : fw.run with
    | false => exact .stopped (made.fwRun.trans run)
    | true =>
      obtain later | bare := clean run
      · exact .flushed later
      · have kept : started.2 = fw := made.bare bare
        rw [kept]
        by_cases closed : opened rule binds = []
        · rw [made.none closed, idle]
          exact clean_sound _ fw clean
        · by_cases later : .fw .evtFwReload ∈ queue
          · exact .flushed later
          · exact .waiting bare (behind run later closed)

theorem http_tail (msg : HttpMsg) (noFill : msg ≠ .evtFwReload) (sound : HttpSound (.http msg :: queue) (mgmt, fw)) :
    HttpSound queue (mgmt, fw) where
  idle := sound.idle
  fine := sound.fine
  chains := by
    apply chains_tail _ _ fw (.http msg)
    · exact fun same => Msg.noConfusion same
    · exact fun same => noFill (Msg.http.inj same)
    · exact sound.chains

theorem run_start_spec (sound : HttpSound queue (mgmt, fw))
    (ports : ∀ rule ∈ startsFrom mgmt .start, ∀ port ∈ opened rule binds, PortSound rule port)
    (behind : fw.run = true → .fw .evtFwReload ∉ queue →
      ∀ rule ∈ startsFrom mgmt .start, opened rule binds ≠ [] → .http .evtFwReload ∈ queue) :
    HttpSound queue (httpRun true binds (mgmt, fw)) := by
  rw [httpRun, if_pos rfl]
  by_cases run : mgmt.run = true
  · rw [if_pos run]
    exact sound
  · rw [if_neg run]
    have idle := sound.idle (Bool.eq_false_iff.mpr run)
    have clean : Clean queue fw := by
      apply idle_clean
      rw [← idle]
      exact sound.chains
    have starts : mgmt.rule.getD emsHttpDefaultRules ∈ startsFrom mgmt .start := by
      rw [startsFrom, if_neg run]
      rfl
    have started := start_all_spec _ mgmt fw _ _ rfl idle clean (ports _ starts) fun busy none =>
      behind busy none _ starts
    exact ⟨started.failed, started.fine, started.chains⟩

theorem run_stop_spec (sound : HttpSound queue (mgmt, fw)) : HttpSound queue (httpRun false binds (mgmt, fw)) := by
  rw [httpRun, if_neg Bool.false_ne_true]
  by_cases run : mgmt.run = true
  · rw [if_pos run]
    have clean := stopped_clean _ _ fw sound.chains sound.fine
    exact ⟨fun _ => rfl, fun http there => absurd there not_mem_nil, clean_sound _ _ clean⟩
  · rw [if_neg run]
    exact sound

theorem rules_update_spec (root : Option HttpRules) (sound : HttpSound queue (mgmt, fw))
    (ports : ∀ rule ∈ startsFrom mgmt (.serverRulesUpdate root), ∀ port ∈ opened rule binds, PortSound rule port)
    (behind : fw.run = true → .fw .evtFwReload ∉ queue →
      ∀ rule ∈ startsFrom mgmt (.serverRulesUpdate root), opened rule binds ≠ [] → .http .evtFwReload ∈ queue) :
    HttpSound queue (httpServerRulesUpdate root binds (mgmt, fw)) := by
  cases root with
  | none => exact sound
  | some rule =>
    rw [httpServerRulesUpdate]
    by_cases same : rule.text = mgmt.ruleText
    · rw [if_pos same]
      exact sound
    · rw [if_neg same, httpStopAll]
      dsimp only
      have clean := stopped_clean _ _ fw sound.chains sound.fine
      by_cases run : mgmt.run = true
      · have starts : rule ∈ startsFrom mgmt (.serverRulesUpdate (some rule)) := by
          rw [startsFrom]
          simp [Option.filter, run, same]
        have still : (mgmt.list.foldl _ fw).run = fw.run := all_free_run fw _ false
        have started := start_all_spec _ { mgmt with list := [], rule := some rule }
          _ _ rule rfl rfl clean (ports rule starts)
          fun busy none => behind (still ▸ busy) none rule starts
        rw [if_pos run]
        refine ⟨?_, started.fine, started.chains⟩
        intro off
        rw [started.run] at off
        exact absurd run (Bool.eq_false_iff.mp off)
      · rw [if_neg run]
        exact ⟨fun _ => rfl, fun http there => absurd there not_mem_nil, clean_sound _ _ clean⟩

theorem fw_reload_spec (sound : HttpSound (.http .evtFwReload :: queue) (mgmt, fw))
    (empty : fw.run = true → .fw .evtFwReload ∉ queue → fw.preDefault.getD [] = [] ∧ fw.postDefault.getD [] = []) :
    HttpSound queue (httpFwReload (mgmt, fw)) where
  idle := sound.idle
  fine := sound.fine
  chains := by
    have same : (mgmt.list.foldl _ fw).run = fw.run := all_free_run fw _ true
    cases run : fw.run with
    | false => exact .stopped (same.trans run)
    | true =>
      by_cases later : .fw .evtFwReload ∈ queue
      · exact .flushed later
      · obtain ⟨preEmpty, postEmpty⟩ := empty run later
        have bare : Bare fw := by
          cases sound.chains with
          | stopped stop => exact absurd (run.symm.trans stop) (by decide)
          | flushed there => exact absurd (mem_of_ne_of_mem (fun same => Msg.noConfusion same) there) later
          | waiting bare _ => exact bare
          | filled pre post preRules postRules _ _ =>
            rw [preRules] at preEmpty
            rw [postRules] at postEmpty
            exact ⟨preRules.trans (congrArg some preEmpty), postRules.trans (congrArg some postEmpty)⟩
        exact reload_fills _ _ fw run bare sound.fine

theorem http_process_spec (msg : HttpMsg) (sound : HttpSound (.http msg :: queue) (mgmt, fw))
    (ports : ∀ rule ∈ startsFrom mgmt msg, ∀ port ∈ opened rule binds, PortSound rule port)
    (guarded : fw.run = true → .fw .evtFwReload ∉ queue →
      (∀ rule ∈ startsFrom mgmt msg, opened rule binds ≠ [] → .http .evtFwReload ∈ queue) ∧
        (msg = .evtFwReload → fw.preDefault.getD [] = [] ∧ fw.postDefault.getD [] = [])) :
    HttpSound queue (httpProcess binds (mgmt, fw) msg) := by
  cases msg with
  | start =>
    have kept := http_tail mgmt fw _ _ (fun same => HttpMsg.noConfusion same) sound
    exact run_start_spec _ mgmt fw _ kept ports fun run none => (guarded run none).1
  | stop =>
    have kept := http_tail mgmt fw _ _ (fun same => HttpMsg.noConfusion same) sound
    exact run_stop_spec _ mgmt fw _ kept
  | serverRulesUpdate root =>
    have kept := http_tail mgmt fw _ _ (fun same => HttpMsg.noConfusion same) sound
    exact rules_update_spec _ mgmt fw _ root kept ports fun run none => (guarded run none).1
  | evtFwReload => exact fw_reload_spec mgmt fw _ sound fun run none => (guarded run none).2 rfl

end Messages

def Renewed : List Msg → Prop
  | [] => True
  | msg :: rest => (msg = .fw .fwClear → .fw .evtFwReload ∈ rest) ∧ Renewed rest

structure SsidSound (ssid : NicWireless) : Prop where
  renewed : Renewed ssid.msgEntry
  http : HttpSound ssid.msgEntry (ssid.http, ssid.fw)

theorem renewed_append (queue more : List Msg) (first : Renewed queue) (second : Renewed more) : Renewed (queue ++ more) := by
  induction queue with
  | nil => exact second
  | cons msg rest ih =>
    constructor
    · exact fun clear => mem_append_left more (first.1 clear)
    · exact ih first.2

theorem sent_sound (ssid : NicWireless) (sent : List Msg) (renewed : Renewed sent) (sound : SsidSound ssid) :
    SsidSound { ssid with msgEntry := ssid.msgEntry ++ sent } where
  renewed := renewed_append _ sent sound.renewed renewed
  http :=
    { idle := sound.http.idle
      fine := sound.http.fine
      chains := chains_append _ _ _ sent sound.http.chains }

theorem renewed_plain (msg : Msg) (other : msg ≠ .fw .fwClear) : Renewed [msg] := ⟨fun clear => absurd clear other, trivial⟩

section Firewall

variable (fw : EmsFw) (queue : List Msg) (list : List EmsHttp)

theorem fw_start_spec (chains : ChainsSound (.fw .start :: queue) list fw) :
    ChainsSound (queue ++ (fwProcess fw .start).2) list (fwProcess fw .start).1 := by
  rw [fwProcess, fwRun, if_pos rfl]
  by_cases run : fw.run = true
  · rw [if_pos run]
    apply chains_append
    apply chains_tail _ list fw (.fw .start)
    · exact fun same => FwMsg.noConfusion (Msg.fw.inj same)
    · exact fun same => Msg.noConfusion same
    · exact chains
  · rw [if_neg run]
    exact .flushed (mem_append_right _ mem_cons_self)

theorem fw_stop_run : (fwProcess fw .stop).1.run = false := by
  rw [fwProcess, fwRun, if_neg Bool.false_ne_true]
  by_cases run : fw.run = true
  · rw [if_pos run]
    rfl
  · rw [if_neg run]
    exact Bool.eq_false_iff.mpr run

theorem fw_reload_bare (run : fw.run = true) :
    Bare (fwProcess fw .evtFwReload).1 ∧ (fwProcess fw .evtFwReload).2 = [.http .evtFwReload] := by
  rw [fwProcess, if_pos run]
  exact ⟨⟨rfl, rfl⟩, rfl⟩

theorem fw_process_spec (msg : FwMsg) (clears : msg = .fwClear → .fw .evtFwReload ∈ queue)
    (chains : ChainsSound (.fw msg :: queue) list fw) :
    ChainsSound (queue ++ (fwProcess fw msg).2) list (fwProcess fw msg).1 := by
  cases msg with
  | start => exact fw_start_spec fw _ list chains
  | stop => exact .stopped (fw_stop_run fw)
  | fwClear => exact .flushed (mem_append_left _ (clears rfl))
  | evtFwReload =>
    cases run : fw.run with
    | false => exact .stopped (by rw [fwProcess, run]; exact run)
    | true =>
      obtain ⟨bare, sent⟩ := fw_reload_bare fw run
      apply ChainsSound.waiting bare
      rw [sent]
      exact mem_append_right _ mem_cons_self

theorem fw_process_renewed (msg : FwMsg) : Renewed (fwProcess fw msg).2 := by
  cases msg with
  | start =>
    rw [fwProcess, fwRun, if_pos rfl]
    split
    · trivial
    · exact renewed_plain _ fun same => FwMsg.noConfusion (Msg.fw.inj same)
  | stop =>
    rw [fwProcess, fwRun, if_neg Bool.false_ne_true]
    split <;> trivial
  | fwClear => trivial
  | evtFwReload =>
    rw [fwProcess]
    split
    · exact renewed_plain _ fun same => Msg.noConfusion same
    · trivial

end Firewall

theorem deliver_sound (ssid : NicWireless) (binds : List (Option (Fin 21))) (sound : SsidSound ssid)
    (allowed : StepSound ssid (.deliver binds)) : SsidSound (nicHandleSsidMsg ssid binds) := by
  obtain ⟨queue, fw, mgmt⟩ := ssid
  cases queue with
  | nil => exact sound
  | cons msg rest =>
    have behind := sound.renewed.1
    cases msg with
    | fw msg =>
      constructor
      · exact renewed_append rest _ sound.renewed.2 (fw_process_renewed fw msg)
      · constructor
        · exact sound.http.idle
        · exact sound.http.fine
        · exact fw_process_spec fw rest _ msg (fun clear => behind (congrArg _ clear)) sound.http.chains
    | http msg =>
      constructor
      · exact sound.renewed.2
      · exact http_process_spec _ mgmt fw rest msg sound.http allowed.1 allowed.2

theorem step_sound (ssid : NicWireless) (event : Event) (sound : SsidSound ssid) (allowed : StepSound ssid event) :
    SsidSound (step ssid event) := by
  cases event with
  | http run =>
    apply sent_sound _ _ _ sound
    exact renewed_plain _ fun same => Msg.noConfusion same
  | httpRules root =>
    apply sent_sound _ _ _ sound
    exact renewed_plain _ fun same => Msg.noConfusion same
  | fw run =>
    apply sent_sound _ _ _ sound
    cases run <;> exact renewed_plain _ fun same => FwMsg.noConfusion (Msg.fw.inj same)
  | fwReload disabled =>
    rw [step, nicSsidFwReload]
    split
    · apply sent_sound _ _ _ sound
      exact renewed_plain _ fun same => FwMsg.noConfusion (Msg.fw.inj same)
    · split
      · apply sent_sound _ _ _ sound
        exact ⟨fun _ => mem_cons_self, renewed_plain _ fun same => FwMsg.noConfusion (Msg.fw.inj same)⟩
      · exact sound
  | ssidStop =>
    have stopped := run_stop_spec [] _ _ _ sound.http
    constructor
    · trivial
    · exact ⟨stopped.idle, stopped.fine, .stopped (fw_stop_run _)⟩
  | deliver binds => exact deliver_sound ssid _ sound allowed

theorem loaded_sound : SsidSound loaded where
  renewed := trivial
  http :=
    { idle := fun _ => rfl
      fine := fun _ there => absurd there not_mem_nil
      chains := .stopped rfl }

theorem drained_follow (ssid : NicWireless) (sound : SsidSound ssid) (drained : ssid.msgEntry = [])
    (run : ssid.fw.run = true) : RulesFollow ssid := by
  have chains := sound.http.chains
  rw [drained] at chains
  cases chains with
  | stopped stop => exact absurd (run.symm.trans stop) (by decide)
  | flushed later => exact absurd later not_mem_nil
  | waiting _ later => exact absurd later not_mem_nil
  | filled pre post preRules postRules preSame postSame =>
    constructor
    · exact ⟨post, postRules, postSame⟩
    · have distinct : ssid.http.list.flatMap addressRules = ssid.http.list.flatMap calledRules := by
        apply flatMap_congr
        exact fun http there => address_rules_distinct http (sound.http.fine http there)
      exact ⟨pre, preRules, distinct ▸ preSame⟩

theorem redirects_follow_servers (events : List Event) (steps : AllSteps step StepSound loaded events)
    (drained : (run step loaded events).msgEntry = []) (running : (run step loaded events).fw.run = true) :
    RulesFollow (run step loaded events) := by
  have sound : SsidSound (run step loaded events) := by
    apply run_keeps step _ _
    · exact loaded_sound
    · exact step_sound
    · exact steps
  exact drained_follow _ sound drained running

def sampleRules : HttpRules where
  text := ascii "\x7b \"port\": [ \"80\", \"8080\" ], \"nas\": \"10.0.0.1\", \"grey\": [ \"10.0.0.2:80\" ] \x7d"
  port := some [some (ascii "80"), some (ascii "8080")]
  nas := some (ascii "10.0.0.1")
  grey := [some (ascii "10.0.0.2:80")]

-- Deliveries in which the first port that is free is 9200, for the second
-- server 9201.
def drain (count : Nat) : List Event := List.replicate count (.deliver [some 0, some 1])

def sampleEvents : List Event :=
  [.fw true, .http true] ++ drain 4 ++ [.httpRules (some sampleRules), .fwReload false] ++ drain 4

theorem redirects_follow_servers_sample :
    (run step loaded sampleEvents).http.list.length = 2 ∧ RulesFollow (run step loaded sampleEvents) :=
  ⟨by decide +kernel, redirects_follow_servers _ (by decide +kernel) (by decide +kernel) (by decide +kernel)⟩

-- Two reloads in one queue: both flushes come before both insertions.
def reloadedTwice : List Event := [.fw true, .http true] ++ drain 4 ++ [.fwReload false, .fwReload false] ++ drain 6

theorem reload_twice_doubles : ¬ ∀ events, (run step loaded events).msgEntry = [] →
    (run step loaded events).fw.run = true → (run step loaded events).http.run = true →
    RulesFollow (run step loaded events) := by
  intro claim
  obtain ⟨rules, held, same⟩ := (claim reloadedTwice (by decide +kernel) (by decide +kernel) (by decide +kernel)).post
  have twice : ((run step loaded reloadedTwice).fw.postDefault.map length) = some 2 := by decide +kernel
  have once : (run step loaded reloadedTwice).http.list.length = 1 := by decide +kernel
  rw [held, Option.map_some, same.length_eq, length_map, once] at twice
  exact absurd twice (by decide)

end Codec.Ssid
