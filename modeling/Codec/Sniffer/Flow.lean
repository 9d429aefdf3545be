import Codec.Sniffer.Budget

set_option autoImplicit false

namespace Codec.Sniffer

open List

def closedIn (log : List Entry) : List File := log.filterMap fun
  | .closed file => some file
  | _ => none

def handedIn (log : List Entry) : List File := log.filterMap fun
  | .handed file => some file
  | _ => none

def StopOf (id : Nat) (errcode : Int) (entry : Entry) : Prop :=
  ∃ ctype wlanid radioid interface, entry = .event .stop (some id) ctype wlanid radioid interface errcode

def ToldFailure (log : List Entry) (id : Nat) : Prop := ∃ errcode, errcode ≠ 0 ∧ ∃ entry ∈ log, StopOf id errcode entry

structure Flow (s : Core) (spare : Option File) : Prop where
  live : Connected s
  up : s.out.st ≠ .stopped
  numbered : Numbered s
  order : (handedIn s.log ++ s.out.listFiles).Sublist (closedIn s.log)
  once : (closedIn s.log).Nodup
  below : ∀ file ∈ closedIn s.log, file.id < s.written ∧ file.inf < s.started
  accounted : ∀ file ∈ closedIn s.log, file ∈ s.out.listFiles ∨ file ∈ handedIn s.log ∨ spare = some file ∨
    (ToldFailure s.log file.inf ∧ file.inf ∉ s.caps.map Cap.id)
  ended : ∀ before entry after id, s.log = before ++ entry :: after → StopOf id 0 entry →
    id ∉ s.caps.map Cap.id ∧ id < s.started ∧ ∀ file ∈ closedIn s.log, file.inf = id → file ∈ handedIn before

structure Chatter (more : List Entry) : Prop where
  closed : closedIn more = []
  handed : handedIn more = []
  stop : ∀ entry ∈ more, ∀ id, ¬ StopOf id 0 entry

theorem chatter_nil : Chatter [] := ⟨rfl, rfl, fun _ there => (nomatch there)⟩

theorem Chatter.append {first second : List Entry} (one : Chatter first) (two : Chatter second) : Chatter (first ++ second) := by
  refine ⟨?_, ?_, fun entry there => ?_⟩
  · rw [closedIn, filterMap_append]
    exact append_eq_nil_iff.mpr ⟨one.closed, two.closed⟩
  · rw [handedIn, filterMap_append]
    exact append_eq_nil_iff.mpr ⟨one.handed, two.handed⟩
  · rcases mem_append.mp there with old | new
    · exact one.stop _ old
    · exact two.stop _ new

theorem closedIn_append (log more : List Entry) : closedIn (log ++ more) = closedIn log ++ closedIn more := filterMap_append

theorem handedIn_append (log more : List Entry) : handedIn (log ++ more) = handedIn log ++ handedIn more := filterMap_append

theorem ToldFailure.later {log : List Entry} {id : Nat} (told : ToldFailure log id) (more : List Entry) : ToldFailure (log ++ more) id := by
  obtain ⟨errcode, failed, entry, there, stop⟩ := told
  exact ⟨errcode, failed, entry, mem_append_left _ there, stop⟩

theorem split_grown {log more before after : List Entry} {entry : Entry} (shape : log ++ more = before ++ entry :: after) (other : entry ∉ more) :
    ∃ rest, log = before ++ entry :: rest := by
  rcases append_eq_append_iff.mp shape with ⟨between, _, late⟩ | ⟨between, early, late⟩
  · exact absurd (late ▸ mem_append_right _ mem_cons_self) other
  · cases between with
    | nil =>
      have first : entry ∈ more := by
        rw [nil_append] at late
        rw [← late]
        exact mem_cons_self
      exact absurd first other
    | cons head rest =>
      obtain ⟨rfl, _⟩ := cons.inj late
      exact ⟨rest, early⟩

theorem Flow.same {s t : Core} {spare : Option File} (flow : Flow s spare) {more : List Entry} (chatter : Chatter more)
    (log : t.log = s.log ++ more) (ctrl : t.ctrl = s.ctrl) (queue : t.out.listFiles = s.out.listFiles) (up : t.out.st ≠ .stopped)
    (ids : ∀ id ∈ t.caps.map Cap.id, id ∈ s.caps.map Cap.id) (written : t.written = s.written) (started : t.started = s.started) : Flow t spare := by
  have closed : closedIn t.log = closedIn s.log := by rw [log, closedIn_append, chatter.closed, append_nil]
  have handed : handedIn t.log = handedIn s.log := by rw [log, handedIn_append, chatter.handed, append_nil]
  refine ⟨?_, up, fun cap there => ?_, ?_, ?_, ?_, ?_, ?_⟩
  · rw [Connected, ctrl]
    exact flow.live
  · obtain ⟨old, member, same⟩ := mem_map.mp (ids _ (mem_map_of_mem there))
    rw [started, ← same]
    exact flow.numbered old member
  · rw [closed, handed, queue]
    exact flow.order
  · rw [closed]
    exact flow.once
  · rw [closed, written, started]
    exact flow.below
  · rw [closed, handed, queue]
    intro file there
    refine (flow.accounted file there).imp_right (Or.imp_right (Or.imp_right ?_))
    rintro ⟨told, gone⟩
    rw [log]
    exact ⟨told.later more, fun still => gone (ids _ still)⟩
  · intro before entry after id shape stop
    rw [log] at shape
    obtain ⟨rest, early⟩ := split_grown shape fun new => chatter.stop _ new id stop
    obtain ⟨gone, older, all⟩ := flow.ended _ _ rest id early stop
    rw [closed, started]
    exact ⟨fun still => gone (ids _ still), older, all⟩

variable {s : Core} {spare : Option File}

theorem flow_onCap (flow : Flow s spare) (id : Nat) {change : Cap → Cap} (keeps : ∀ cap, (change cap).id = cap.id) :
    Flow (onCap s id change) spare := by
  refine flow.same chatter_nil (append_nil _).symm rfl rfl flow.up (fun other there => ?_) rfl rfl
  rw [← ids_modify id _ keeps _]
  exact there

theorem Flow.changed {id : Nat} {change : Cap → Cap} (flow : Flow s spare) (keeps : ∀ cap, (change cap).id = cap.id) :
    Flow (onCap s id change) spare := flow_onCap flow id keeps

theorem Flow.frame {s t : Core} {spare : Option File} (flow : Flow s spare) (log : t.log = s.log) (ctrl : t.ctrl = s.ctrl)
    (queue : t.out.listFiles = s.out.listFiles) (up : t.out.st ≠ .stopped) (caps : t.caps = s.caps) (written : t.written = s.written)
    (started : t.started = s.started) : Flow t spare :=
  flow.same chatter_nil (log.trans (append_nil _).symm) ctrl queue up (fun _ there => caps ▸ there) written started

theorem chatter_event (kind : WtpEvt) (answers : Option Nat) (ctype wlanid radioid : Int) (interface : Str) (errcode : Int)
    (other : kind ≠ .stop ∨ answers = none ∨ errcode ≠ 0) : Chatter [.event kind answers ctype wlanid radioid interface errcode] := by
  refine ⟨rfl, rfl, fun entry there id => ?_⟩
  rw [mem_singleton.mp there]
  rintro ⟨_, _, _, _, same⟩
  cases same
  rcases other with kind | answers | failed
  · exact kind rfl
  · exact nomatch answers
  · exact failed rfl

theorem chatter_capturing (cap : Cap) : Chatter [capturingEvent cap] := by
  refine chatter_event _ _ _ _ _ _ _ (.inl ?_)
  split <;> exact nofun

theorem sent_log (live : Connected s) (entry : Entry) : (ctrlSendMsg s entry).log = s.log ++ [entry] := by
  unfold ctrlSendMsg
  rw [if_neg (not_or.mpr live)]

theorem send_started (s : Core) (entry : Entry) : (ctrlSendMsg s entry).started = s.started := by
  unfold ctrlSendMsg
  split <;> rfl

theorem flow_send (flow : Flow s spare) {entry : Entry} (chatter : Chatter [entry]) : Flow (ctrlSendMsg s entry) spare := by
  have told := same_send s entry
  refine flow.same chatter (sent_log flow.live _) told.ctrl ?_ ?_ (fun _ there => told.caps ▸ there) told.written (send_started s _)
  · rw [told.out]
  · rw [told.out]
    exact flow.up

theorem sends_log (caps : List Cap) {s : Core} (live : Connected s) :
    ∃ more, Chatter more ∧ (caps.foldl (fun s cap => ctrlSendMsg s (capturingEvent cap)) s).log = s.log ++ more := by
  induction caps generalizing s with
  | nil => exact ⟨[], chatter_nil, (append_nil _).symm⟩
  | cons cap rest ih =>
    have still : Connected (ctrlSendMsg s (capturingEvent cap)) := by
      rw [Connected, (same_send s _).ctrl]
      exact live
    obtain ⟨more, chatter, log⟩ := ih still
    refine ⟨[capturingEvent cap] ++ more, (chatter_capturing cap).append chatter, ?_⟩
    rw [foldl_cons, log, sent_log live, append_assoc]

theorem continue_log (live : Connected s) : ∃ more, Chatter more ∧ (captureContinueCapturing s).log = s.log ++ more := by
  rw [captureContinueCapturing]
  split
  · exact ⟨[], chatter_nil, (append_nil _).symm⟩
  · exact sends_log _ live

theorem flow_continue (flow : Flow s spare) : Flow (captureContinueCapturing s) spare := by
  obtain ⟨more, chatter, log⟩ := continue_log flow.live
  have rest := continue_rest s
  have quiet := quiet_captureContinueCapturing s
  refine flow.same chatter log quiet.ctrl ?_ ?_ (fun id there => ?_) rest.written quiet.started
  · rw [rest.out]
  · rw [rest.out]
    exact flow.up
  · rw [← ids_eq, quiet.rows, ids_eq] at there
    exact there

theorem touchFiles_log (files : List File) (s : Core) : (touchFiles s files).log = s.log := by
  induction files generalizing s with
  | nil => rfl
  | cons file rest ih => exact ih _

theorem drop_log (s : Core) (id : Nat) (file : File) : (capDropFile s id file).log = s.log := by
  unfold capDropFile outputIntoStopped outputRemove
  dsimp only
  split
  · split <;> rfl
  · split
    · exact touchFiles_log _ _
    · exact touchFiles_log _ _

theorem drops_log (id : Nat) (files : List File) (s : Core) : (files.foldl (fun s file => capDropFile s id file) s).log = s.log := by
  induction files generalizing s with
  | nil => rfl
  | cons file rest ih => exact (ih _).trans (drop_log s id file)

theorem exit_log (s : Core) (id : Nat) : (captureCapExit s id).log = s.log := by
  unfold captureCapExit captureIntoPaused sendApcfg
  dsimp only
  split
  · split
    · rfl
    · split <;> rfl
  · rfl

theorem capStop_log (live : Connected s) {id : Nat} {cap : Cap} (found : cap? s id = some cap) (up : cap.st ≠ .stopped) :
    ∃ more, Chatter more ∧ (capStop s id).log = s.log ++ capEvent .stop cap cap.lasterr :: more := by
  have marked : cap? (onCap s id fun cap => { cap with st := .stopped }) id = some _ := changed_found found fun _ => rfl
  unfold capStop capChangeStatus
  rw [found]
  dsimp only
  rw [if_neg up]
  unfold capStatusIntoStop
  rw [marked]
  dsimp only
  have same := (drops_same id cap.list (onCap (onCap s id fun cap => { cap with st := .stopped }) id
    fun cap => { cap with timer := false, evt := false, fp := false })).1
  have quiet := drops_log id cap.list (onCap (onCap s id fun cap => { cap with st := .stopped }) id
    fun cap => { cap with timer := false, evt := false, fp := false })
  generalize cap.list.foldl _ _ = t at same quiet
  have still : Connected t := by
    rw [Connected, same.ctrl]
    exact live
  have told := sent_log still (capEvent .stop { cap with st := .stopped } cap.lasterr)
  have kept := (same_send t (capEvent .stop { cap with st := .stopped } cap.lasterr)).ctrl
  have left := exit_log (ctrlSendMsg t (capEvent .stop { cap with st := .stopped } cap.lasterr)) id
  have exited := (exit_same (ctrlSendMsg t (capEvent .stop { cap with st := .stopped } cap.lasterr)) id).ctrl
  have last : Connected (captureCapExit (ctrlSendMsg t (capEvent .stop { cap with st := .stopped } cap.lasterr)) id) := by
    rw [Connected, exited]
    show Connected _
    rw [Connected, kept]
    exact still
  obtain ⟨more, chatter, log⟩ := continue_log last
  refine ⟨more, chatter, ?_⟩
  rw [log, left, told, quiet, append_assoc]
  rfl

theorem capStop_gone {current : Option File} (wired : Wired s current) (id : Nat) : id ∉ (capStop s id).caps.map Cap.id := by
  cases found : cap? s id with
  | none =>
    rw [capStop_absent found]
    intro there
    obtain ⟨cap, member, same⟩ := mem_map.mp there
    exact find?_eq_none.mp found cap member (by simpa using same)
  | some cap =>
    have stopped := capStop_spec s id cap found (wired.up cap (found_mem found).1) wired.awake
    rw [stopped.caps]
    intro there
    obtain ⟨last, woke, same⟩ := mem_map.mp there
    obtain ⟨old, kept, rfl⟩ := woken_mem woke
    have kind : (woken old).id = old.id := congrArg Prod.fst (woken_anchored old)
    exact ((mem_removeCap wired.ids old).mp kept).2 (kind.symm.trans same)

theorem flow_capStop (flow : Flow s spare) {current : Option File} (wired : Wired s current) {id : Nat} {cap : Cap}
    (found : cap? s id = some cap) (quiet : ¬ Halts s.out cap.list) (clean : cap.lasterr = 0 → cap.list = [] ∧ spare = none)
    (owned : ∀ file, spare = some file → file.inf = id) : Flow (capStop s id) none := by
  obtain ⟨member, named⟩ := found_mem found
  have up := wired.up cap member
  have stopped := capStop_spec s id cap found up wired.awake
  have ends := ends_capStop s id
  obtain ⟨more, chatter, log⟩ := capStop_log flow.live found up
  have out := stopped.out.trans (dropped_goes _ _ quiet (away_marked wired found))
  have queue : (capStop s id).out.listFiles = s.out.listFiles.diff cap.list := by rw [out]
  have stop : StopOf id _ (capEvent _ cap cap.lasterr) := ⟨cap.type, cap.wlanid, cap.radioid, cap.inf, by rw [← named]; rfl⟩
  have closed : closedIn (capStop s id).log = closedIn s.log := by
    rw [log, closedIn_append]
    show closedIn _ ++ closedIn more = _
    rw [chatter.closed, append_nil]
  have handed : handedIn (capStop s id).log = handedIn s.log := by
    rw [log, handedIn_append]
    show handedIn _ ++ handedIn more = _
    rw [chatter.handed, append_nil]
  have fewer : ∀ other ∈ (capStop s id).caps.map Cap.id, other ∈ s.caps.map Cap.id := by
    intro other there
    rw [← ids_eq] at there ⊢
    exact (ends.fewer.map _).subset there
  have gone := capStop_gone wired id
  have listed : id ∈ s.caps.map _ := mem_map.mpr ⟨cap, member, named⟩
  -- a capture that stops well has handed over every file
  have all : cap.lasterr = 0 → ∀ file ∈ closedIn s.log, file.inf = id → file ∈ handedIn s.log := by
    intro well file there inf
    obtain ⟨empty, unspared⟩ := clean well
    rcases flow.accounted file there with queued | handed | spare | ⟨_, away⟩
    · have kept := (list_of_held wired found (wired.queued file queued)).mpr inf
      rw [empty] at kept
      exact nomatch kept
    · exact handed
    · exact nomatch unspared.symm.trans spare
    · exact absurd listed (inf ▸ away)
  refine ⟨?_, ?_, ends.numbered flow.numbered, ?_, ?_, ?_, ?_, ?_⟩
  · rw [Connected, ends.ctrl]
    exact flow.live
  · rw [out]
    exact flow.up
  · rw [closed, handed, queue]
    exact ((Sublist.refl _).append (diff_sublist _ _)).trans flow.order
  · rw [closed]
    exact flow.once
  · rw [closed, stopped.written, ends.started]
    exact flow.below
  · rw [closed, handed, queue]
    intro file there
    have told : cap.lasterr ≠ 0 → file.inf = id → ToldFailure (capStop s id).log file.inf ∧ file.inf ∉ (capStop s id).caps.map Cap.id := by
      intro failed inf
      rw [inf]
      refine ⟨⟨cap.lasterr, failed, _, ?_, stop⟩, gone⟩
      rw [log]
      exact mem_append_right _ mem_cons_self
    by_cases inf : file.inf = id
    · by_cases well : cap.lasterr = 0
      · exact .inr (.inl (all well file there inf))
      · exact .inr (.inr (.inr (told well inf)))
    · rcases flow.accounted file there with queued | handed | spared | ⟨failed, away⟩
      · refine .inl (mem_diff_of_mem queued fun kept => inf ?_)
        exact (list_of_held wired found (wired.queued file queued)).mp kept
      · exact .inr (.inl handed)
      · exact absurd (owned file spared) inf
      · refine .inr (.inr (.inr ⟨?_, fun still => away (fewer _ still)⟩))
        rw [log]
        exact failed.later _
  · intro before entry after other shape ending
    rw [closed, ends.started]
    rw [log] at shape
    by_cases new : entry ∈ capEvent .stop cap cap.lasterr :: more
    · rcases mem_cons.mp new with rfl | late
      · obtain ⟨_, _, _, _, same⟩ := ending
        injection same with _ answers _ _ _ _ errcode
        have kind : other = id := (Option.some.inj answers).symm.trans named
        rw [kind]
        refine ⟨gone, named ▸ flow.numbered cap member, fun file there inf => ?_⟩
        have early := all errcode file there inf
        rcases append_eq_append_iff.mp shape with ⟨between, prior, _⟩ | ⟨between, prior, late⟩
        · rw [prior, handedIn_append]
          exact mem_append_left _ early
        · cases between with
          | nil =>
            rw [append_nil] at prior
            rw [← prior]
            exact early
          | cons head rest =>
            obtain ⟨rfl, _⟩ := cons.inj late
            have past := flow.ended _ _ rest other prior ⟨_, _, _, _, by rw [capEvent, errcode, answers]⟩
            exact absurd (kind ▸ listed) past.1
      · exact absurd ending (chatter.stop _ late _)
    · obtain ⟨rest, early⟩ := split_grown shape new
      obtain ⟨away, older, handed⟩ := flow.ended _ _ rest _ early ending
      exact ⟨fun still => away (fewer _ still), older, handed⟩

theorem flow_dead (flow : Flow s spare) : Flow { s with dead := true } spare := flow.frame rfl rfl rfl flow.up rfl rfl rfl

theorem flow_taken (flow : Flow s spare) (file : File) (cap : Cap) (errcode : Int) :
    Flow (capFileTaken s file cap errcode) spare := by
  have given : Flow { touchFile s file with out := { (touchFile s file).out with flg := none },
                                            memLeft := (touchFile s file).memLeft + file.filesize } _ :=
    flow.frame rfl rfl rfl flow.up rfl rfl rfl
  refine Flow.changed ?_ fun _ => rfl
  exact flow_send given (chatter_event _ _ _ _ _ _ _ (.inl nofun))

theorem flow_capFileUploadFinished (flow : Flow s spare) {file : File} (wired : Wired s (some file)) {code : Int}
    (spared : ∀ other, spare = some other → other = file ∧ code ≠ 0) : Flow (capFileUploadFinished s file code) none := by
  obtain ⟨cap, found, listed⟩ := held_found wired (wired.apart file rfl).1
  have quiet : ∀ (t : Core) (files : List File), t.out.flg = none → ¬ Halts t.out files := by
    rintro t files unflagged ⟨_, other, _, flagged⟩
    exact nomatch unflagged.symm.trans flagged
  unfold capFileUploadFinished
  rw [found]
  dsimp only
  by_cases failed : code ≠ 0
  · rw [if_pos failed]
    have flg := congrArg Output.flg (same_taken s file cap errUploadFailed).out
    have noted : Flow (uploadFailed s file cap) _ := (flow_taken flow file cap _).changed fun _ => rfl
    refine flow_capStop noted (failed_wired wired found) (failed_found found) (quiet _ _ flg) (fun well => absurd (show errUploadFailed = 0 from well) (by decide)) fun other same => ?_
    rw [(spared _ same).1]
  · rw [if_neg failed]
    have still := taken_found found 0
    have flg := congrArg Output.flg (same_taken s file cap 0).out
    have unspared : spare = none := by
      cases spare with
      | none => rfl
      | some other => exact absurd (spared _ rfl).2 failed
    have taken := flow_taken flow file cap 0
    split
    · rename_i emptied
      have empty : cap.list.erase file = [] := isEmpty_iff.mp emptied.2
      refine flow_capStop taken (wired_taken wired found 0) still (quiet _ _ flg) (fun _ => ⟨empty, unspared⟩) fun other same => ?_
      exact nomatch unspared.symm.trans same
    · rw [← unspared]
      exact flow_continue taken

theorem finished_gone {file : File} (wired : Wired s (some file)) {code : Int} (failed : code ≠ 0) :
    file.inf ∉ (capFileUploadFinished s file code).caps.map Cap.id := by
  obtain ⟨cap, found, _⟩ := held_found wired (wired.apart file rfl).1
  unfold capFileUploadFinished
  rw [found]
  dsimp only
  rw [if_pos failed]
  exact capStop_gone (failed_wired wired found) _

theorem stop_unhanded {id : Nat} {file : File} {entry : Entry} (stop : StopOf id 0 entry) : entry ∉ [Entry.handed file] ∧ entry ∉ [Entry.closed file] := by
  obtain ⟨_, _, _, _, rfl⟩ := stop
  exact ⟨by simp, by simp⟩

theorem flow_handed (flow : Flow s none) {file : File} {rest : List File} (queue : s.out.listFiles = file :: rest) (forks : List Bool) :
    Flow (outputIntoProcess (outputTake s file rest) file forks) none := by
  have closed : closedIn (s.log ++ [.handed file]) = closedIn s.log := by
    rw [closedIn_append]
    exact append_nil _
  have handed : handedIn (s.log ++ [.handed file]) = handedIn _ ++ [file] := handedIn_append _ _
  refine ⟨flow.live, nofun, flow.numbered, ?_, ?_, ?_, ?_, ?_⟩
  · show (handedIn (s.log ++ [.handed file]) ++ rest).Sublist (closedIn (s.log ++ [.handed file]))
    have order := flow.order
    rw [queue] at order
    rw [closed, handed, append_assoc]
    exact order
  · show (closedIn (s.log ++ [.handed file])).Nodup
    rw [closed]
    exact flow.once
  · show ∀ other ∈ closedIn (s.log ++ [.handed file]), _
    rw [closed]
    exact flow.below
  · show ∀ other ∈ closedIn (s.log ++ [.handed file]), other ∈ rest ∨ other ∈ handedIn (s.log ++ [.handed file]) ∨ _ ∨
      (ToldFailure _ _ ∧ _)
    rw [closed, handed]
    intro other there
    rcases flow.accounted _ there with queued | past | spared | ⟨failed, away⟩
    · rw [queue] at queued
      rcases mem_cons.mp queued with rfl | later
      · exact .inr (.inl (mem_append_right _ mem_cons_self))
      · exact .inl later
    · exact .inr (.inl (mem_append_left _ past))
    · exact nomatch spared
    · exact .inr (.inr (.inr ⟨failed.later _, away⟩))
  · show ∀ before entry after id, s.log ++ [.handed file] = before ++ entry :: after → StopOf id 0 _ →
      _ ∧ _ ∧ ∀ other ∈ closedIn (s.log ++ [.handed file]), _
    rw [closed]
    intro before entry after id shape stop
    obtain ⟨rest, early⟩ := split_grown shape (stop_unhanded stop).1
    exact flow.ended _ _ rest id early stop

theorem flow_take (flow : Flow s none) {file : File} {rest : List File} (queue : s.out.listFiles = file :: rest) :
    Flow (outputTake s file rest) (some file) := by
  refine ⟨flow.live, nofun, flow.numbered, ?_, flow.once, flow.below, fun other there => ?_, flow.ended⟩
  · have order := flow.order
    rw [queue] at order
    exact ((Sublist.refl _).append (sublist_cons_self file rest)).trans order
  · rcases flow.accounted _ there with queued | past | spared | failed
    · rw [queue] at queued
      rcases mem_cons.mp queued with rfl | later
      · exact .inr (.inr (.inl rfl))
      · exact .inl later
    · exact .inr (.inl past)
    · exact nomatch spared
    · exact .inr (.inr (.inr failed))

theorem fewer_ids {s t : Core} (ends : Ends s t) {id : Nat} (there : id ∈ t.caps.map Cap.id) : id ∈ s.caps.map Cap.id := by
  rw [← ids_eq] at there ⊢
  exact (ends.fewer.map _).subset there

theorem flow_outputContinue (forks : List Bool) {s : Core} (flow : Flow s none) (wired : Wired s none) : Flow (outputContinue forks s) none := by
  refine continue_keeps (fun t => Flow t none ∧ Wired t none) (Flow · none) ?_ ?_ ?_ forks s ⟨flow, wired⟩
  · rintro t forks ⟨flow, _⟩ _
    exact flow.frame rfl rfl rfl nofun rfl rfl rfl
  · rintro t file rest forks ⟨flow, _⟩ queue
    exact flow_handed flow queue forks
  · rintro t file rest ⟨flow, wired⟩ queue
    have taken := wired_take wired queue
    have given : Flow { outputTake t file rest with out := { (outputTake t file rest).out with lasterr := errMemoryError, st := .reg } } _ :=
      (flow_take flow queue).frame rfl rfl rfl nofun rfl rfl rfl
    refine ⟨?_, (forkFailed_spec taken).wired⟩
    exact flow_capFileUploadFinished given (wired_failing taken) fun other same => ⟨(Option.some.inj same).symm, by decide⟩

theorem continue_gone (wired : Wired s none) {forks : List Bool} (first : forks.head? = some false) {file : File} {rest : List File}
    (queue : s.out.listFiles = file :: rest) : file.inf ∉ (outputContinue forks s).caps.map Cap.id := by
  cases forks with
  | nil => exact nomatch first
  | cons ok forks =>
    obtain rfl := Option.some.inj first
    have failing := wired_failing (wired_take wired queue)
    have gone : file.inf ∉ (outputForkFailed _ file).caps.map _ := finished_gone failing (show errMemoryError ≠ 0 by decide)
    unfold outputContinue
    rw [queue]
    exact fun still => gone (fewer_ids (ends_outputContinue _ _) still)

theorem flow_queued (flow : Flow s none) {id : Nat} {cap : Cap} (found : cap? s id = some cap) (size : Int) :
    Flow { capFileAdded s id ⟨s.written, id, size⟩ with
      out := { (capFileAdded s id ⟨s.written, id, size⟩).out with listFiles := s.out.listFiles ++ [⟨s.written, id, size⟩] } } none := by
  obtain ⟨member, named⟩ := found_mem found
  have ids : (capFileAdded s id _).caps.map _ = s.caps.map _ :=
    (ids_modify id (fileListed ⟨s.written, id, size⟩) (fun _ => rfl) _).trans (ids_modify id fileClosed (fun _ => rfl) _)
  have closed : closedIn (s.log ++ [Entry.closed _]) = closedIn _ ++ [⟨s.written, id, size⟩] := closedIn_append _ _
  have handed : handedIn (s.log ++ [Entry.closed ⟨s.written, id, size⟩]) = handedIn s.log := by
    rw [handedIn_append]
    exact append_nil _
  refine ⟨flow.live, flow.up, fun other there => ?_, ?_, ?_, ?_, ?_, ?_⟩
  · obtain ⟨old, before, same⟩ := mem_map.mp (ids ▸ mem_map_of_mem there : other.id ∈ s.caps.map _)
    rw [← same]
    exact flow.numbered old before
  · show (handedIn (s.log ++ [Entry.closed _]) ++ (s.out.listFiles ++ [(⟨s.written, id, size⟩ : File)])).Sublist
      (closedIn (s.log ++ [Entry.closed _]))
    rw [closed, handed, ← append_assoc]
    exact flow.order.append (Sublist.refl _)
  · show (closedIn (s.log ++ [Entry.closed _])).Nodup
    rw [closed]
    refine nodup_append.mpr ⟨flow.once, by simp, fun old there new added equal => ?_⟩
    have early := (flow.below old there).1
    rw [equal, mem_singleton.mp added] at early
    exact Nat.lt_irrefl _ early
  · show ∀ file ∈ closedIn (s.log ++ [Entry.closed _]), file.id < s.written + 1 ∧ file.inf < s.started
    rw [closed]
    intro file there
    rcases mem_append.mp there with old | new
    · exact ⟨Nat.lt_succ_of_lt (flow.below file old).1, (flow.below file old).2⟩
    · rw [mem_singleton.mp new]
      exact ⟨Nat.lt_succ_self _, named ▸ flow.numbered cap member⟩
  · show ∀ file ∈ closedIn (s.log ++ [Entry.closed _]), file ∈ s.out.listFiles ++ [⟨s.written, id, size⟩] ∨
      file ∈ handedIn (s.log ++ [Entry.closed _]) ∨ _ ∨
        (ToldFailure _ _ ∧ file.inf ∉ (capFileAdded s id _).caps.map _)
    rw [closed, handed, ids]
    intro file there
    rcases mem_append.mp there with old | new
    · rcases flow.accounted file old with queued | past | spared | ⟨failed, away⟩
      · exact .inl (mem_append_left _ queued)
      · exact .inr (.inl past)
      · exact nomatch spared
      · exact .inr (.inr (.inr ⟨failed.later _, away⟩))
    · exact .inl (mem_append_right _ new)
  · show ∀ before entry after other, s.log ++ [Entry.closed _] = before ++ entry :: after → StopOf _ 0 _ →
      other ∉ (capFileAdded s id _).caps.map _ ∧ other < s.started ∧
        ∀ file ∈ closedIn (s.log ++ [Entry.closed _]), _
    rw [closed, ids]
    intro before entry after other shape stop
    obtain ⟨rest, early⟩ := split_grown shape (stop_unhanded stop).2
    obtain ⟨gone, older, all⟩ := flow.ended _ _ rest _ early stop
    refine ⟨gone, older, fun file there inf => ?_⟩
    rcases mem_append.mp there with old | new
    · exact all file old inf
    · rw [mem_singleton.mp new] at inf
      exact absurd (mem_map.mpr ⟨cap, member, named.trans inf⟩) gone

theorem absent_found {id : Nat} (absent : id ∉ s.caps.map Cap.id) : cap? s id = none := by
  refine find?_eq_none.mpr fun cap there same => absent ?_
  exact mem_map.mpr ⟨cap, there, by simpa using same⟩

theorem flow_capFileFinished (flow : Flow s none) (settled : Settled s) (alloc : s.mallocs.head? ≠ some false) (id : Nat) :
    Flow (capFileFinished s id).1 none := by
  unfold capFileFinished
  cases found : cap? s id with
  | none => exact flow_dead flow
  | some cap =>
    dsimp only
    split
    · exact flow_onCap flow id fun _ => rfl
    obtain ⟨current, wired, serving⟩ := settled
    obtain ⟨added, there, unqueued, other⟩ := wired_added wired found _
    have queued := flow_queued flow found cap.size
    have wiring := wired_queued added there unqueued other
    unfold outputUploadFile
    dsimp only
    split
    · rename_i idle
      obtain ⟨rfl, _, _⟩ := serving.idle idle
      exact flow_outputContinue _ queued wiring
    · exact queued

theorem finished_fails (settled : Settled s) (alloc : s.mallocs.head? ≠ some false) {id : Nat} (failed : (capFileFinished s id).2 = false) :
    ∀ cap, cap? (capFileFinished s id).1 id = some cap → ∃ old, cap? s id = some old ∧ old.fp = false ∧ cap.list = old.list := by
  unfold capFileFinished at failed ⊢
  cases found : cap? s id with
  | none => exact fun cap there => (nomatch found.symm.trans there)
  | some cap =>
    rw [found] at failed
    dsimp only at failed ⊢
    by_cases shut : cap.fp = false
    · rw [if_pos (by simp [shut])]
      intro last there
      have marked : cap? (onCap s id fun cap => { cap with lasterr := 0 }) id = some _ := changed_found found fun _ => rfl
      rw [← Option.some.inj (marked.symm.trans there)]
      exact ⟨cap, rfl, shut, rfl⟩
    rw [if_neg (by simpa using shut), if_neg alloc] at failed ⊢
    obtain ⟨current, wired, serving⟩ := settled
    obtain ⟨added, there, unqueued, other⟩ := wired_added wired found _
    have wiring := wired_queued added there unqueued other
    unfold outputUploadFile at failed ⊢
    dsimp only at failed ⊢
    split at failed
    · rename_i idle
      rw [if_pos idle]
      obtain ⟨rfl, _, empty⟩ := serving.idle idle
      intro last still
      have first : s.forks.head? = some _ := not_not.mp (of_decide_eq_false failed)
      have queue : s.out.listFiles ++ [(⟨s.written, id, cap.size⟩ : File)] = [⟨s.written, id, cap.size⟩] := by rw [empty]; rfl
      exact nomatch (absent_found (continue_gone wiring first queue)).symm.trans still
    · exact nomatch failed

def Bare (cap : Cap) : Prop := cap.st ≠ .reg ∧ cap.fp = false ∧ cap.list ≠ []

instance (cap : Cap) : Decidable (Bare cap) := inferInstanceAs (Decidable (_ ∧ _ ∧ _))

theorem flow_capUploading (flow : Flow s none) (settled : Settled s) (alloc : AllocOk s) (id : Nat)
    (clean : ∀ cap, cap? s id = some cap → ¬ Bare cap) : Flow (capUploading s id) none := by
  unfold capUploading capChangeStatus
  cases found : cap? s id with
  | none => exact flow_dead flow
  | some cap =>
    dsimp only
    split
    · exact flow
    rename_i up
    have marked := settled_ending settled id
    have still : cap? _ id = some (ending cap) := changed_found found fun _ => rfl
    have going : Flow (onCap s id ending) none := flow_onCap flow id fun _ => rfl
    have finished := flow_capFileFinished going marked alloc.head id
    have after := (goes_capFileFinished marked id).settled
    unfold capStatusIntoUploading
    rw [ending_twice]
    dsimp only
    split
    · have touched : Flow (touchCap _ id) none := finished.frame rfl rfl rfl finished.up rfl rfl rfl
      exact flow_onCap touched id fun _ => rfl
    · rename_i failed
      cases last : cap? _ id with
      | none =>
        rw [capStop_absent last]
        exact flow_dead finished
      | some ended =>
        obtain ⟨current, wired, _⟩ := after
        obtain ⟨old, there, shut, list⟩ := finished_fails marked alloc.head (by simpa using failed) _ last
        obtain rfl := Option.some.inj (there.symm.trans still)
        have empty : ended.list = [] := by
          rw [list]
          by_contra some
          exact clean cap found ⟨up, shut, some⟩
        refine flow_capStop finished wired last ?_ (fun _ => ⟨empty, rfl⟩) nofun
        rintro ⟨_, file, listed, _⟩
        rw [empty] at listed
        exact nomatch listed

end Codec.Sniffer
