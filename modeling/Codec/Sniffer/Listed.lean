import Codec.Sniffer.Core
import Codec.Lib.Runs

set_option autoImplicit false

namespace Codec.Sniffer

def row (cap : Cap) : Nat × Str × Int := (cap.id, cap.inf, cap.type)

def rows (s : Core) : List (Nat × Str × Int) := s.caps.map row

def stops (s : Core) : List Nat := s.log.filterMap fun
  | .event .stop answers _ _ _ _ _ => answers
  | _ => none

def accounts (s : Core) (id : Nat) : Nat := ((rows s).map Prod.fst).count id + (stops s).count id

def Connected (s : Core) : Prop := s.ctrl ≠ .err ∧ s.ctrl ≠ .stopped

def RunningIffListed (s : Core) : Prop := s.st = .normal ↔ s.caps ≠ []

structure Quiet (s t : Core) : Prop where
  ctrl : t.ctrl = s.ctrl
  started : t.started = s.started
  type : t.type = s.type
  most : t.maxCaptureNumber = s.maxCaptureNumber
  st : t.st = s.st
  rows : rows t = rows s
  told : stops t = stops s
  mallocs : t.mallocs = s.mallocs

variable (s : Core) (id : Nat) (change : Cap → Cap) (req : Request) (file : File)

theorem Quiet.refl : Quiet s s := ⟨rfl, rfl, rfl, rfl, rfl, rfl, rfl, rfl⟩

theorem Quiet.trans {s t u : Core} (first : Quiet s t) (second : Quiet t u) : Quiet s u :=
  ⟨second.ctrl.trans first.ctrl, second.started.trans first.started, second.type.trans first.type, second.most.trans first.most,
    second.st.trans first.st, second.rows.trans first.rows, second.told.trans first.told,
    second.mallocs.trans first.mallocs⟩

theorem rows_modify (keeps : ∀ cap, row (change cap) = row cap) (caps : List Cap) :
    (modifyCap id change caps).map row = caps.map row := by
  induction caps with
  | nil => rfl
  | cons cap rest ih =>
    by_cases found : cap.id = id
    · simp [modifyCap, found, keeps]
    · simp [modifyCap, found, ih]

theorem quiet_onCap (keeps : ∀ cap, row (change cap) = row cap) : Quiet s (onCap s id change) :=
  ⟨rfl, rfl, rfl, rfl, rfl, rows_modify id _ keeps _, rfl, rfl⟩

theorem quiet_touchFile : Quiet s (touchFile s file) := ⟨rfl, rfl, rfl, rfl, rfl, rfl, rfl, rfl⟩

theorem quiet_touchFiles (files : List File) (s : Core) : Quiet s (touchFiles s files) := by
  induction files generalizing s with
  | nil => exact Quiet.refl s
  | cons file rest ih => exact (quiet_touchFile s file).trans (ih _)

theorem quiet_send (entry : Entry) (other : ∀ answers ctype wlanid radioid interface errcode,
    entry ≠ .event .stop answers ctype wlanid radioid interface errcode) : Quiet s (ctrlSendMsg s entry) := by
  unfold ctrlSendMsg
  split
  · exact Quiet.refl s
  · refine ⟨rfl, rfl, rfl, rfl, rfl, rfl, ?_, rfl⟩
    rw [stops, stops, List.filterMap_append]
    cases entry with
    | event kind answers ctype wlanid radioid interface errcode =>
      cases kind with
      | stop => exact absurd rfl (other _ _ _ _ _ _)
      | start => simp
      | uploading => simp
      | paused => simp
      | «continue» => simp
    | closed file => simp
    | handed file => simp

theorem quiet_event (kind : WtpEvt) (cap : Cap) (errcode : Int) (other : kind ≠ .stop) :
    Quiet s (ctrlSendMsg s (capEvent kind cap errcode)) := by
  refine quiet_send s _ fun answers ctype wlanid radioid interface code same => other ?_
  exact (Entry.event.inj same).1

theorem quiet_capturing (cap : Cap) : Quiet s (ctrlSendMsg s (capturingEvent cap)) := by
  refine quiet_event s _ cap 0 ?_
  split <;> exact nofun

theorem quiet_captureContinueCapturing : Quiet s (captureContinueCapturing s) := by
  rw [captureContinueCapturing]
  split
  · exact Quiet.refl s
  · have sent : ∀ (caps : List Cap) (s : Core), Quiet s (caps.foldl (fun s cap => ctrlSendMsg s (capturingEvent cap)) s) ∧
        (caps.foldl (fun s cap => ctrlSendMsg s (capturingEvent cap)) s).caps = s.caps := by
      intro caps
      induction caps with
      | nil => exact fun s => ⟨Quiet.refl s, rfl⟩
      | cons cap rest ih =>
        intro s
        have same : (ctrlSendMsg s (capturingEvent cap)).caps = s.caps := by
          unfold ctrlSendMsg
          split <;> rfl
        exact ⟨(quiet_capturing s cap).trans (ih _).1, (ih _).2.trans same⟩
    obtain ⟨events, kept⟩ := sent _ s
    refine events.trans (⟨rfl, rfl, rfl, rfl, rfl, ?_, rfl, rfl⟩)
    rw [rows, rows, kept, List.map_map]
    refine List.map_congr_left fun cap there => ?_
    show row (if cap.st = .paused then resumed cap else cap) = row cap
    split <;> rfl

theorem quiet_outputIntoStopped : Quiet s (outputIntoStopped s) := by
  unfold outputIntoStopped
  split
  · exact Quiet.refl s
  · exact ⟨rfl, rfl, rfl, rfl, rfl, rfl, rfl, rfl⟩

theorem quiet_outputRemove : Quiet s (outputRemove s file) := by
  rw [outputRemove]
  split
  · exact (quiet_touchFiles _ s).trans (⟨rfl, rfl, rfl, rfl, rfl, rfl, rfl, rfl⟩)
  · exact quiet_touchFiles _ s

theorem quiet_capDropFile : Quiet s (capDropFile s id file) := by
  have unlinked : Quiet (touchFile s file)
      (if (touchFile s file).out.flg = some file.id then outputIntoStopped (touchFile s file) else outputRemove (touchFile s file) file) := by
    split
    · exact quiet_outputIntoStopped _
    · exact quiet_outputRemove _ file
  have dropped := quiet_onCap (if (touchFile s file).out.flg = some file.id then outputIntoStopped (touchFile s file)
      else outputRemove (touchFile s file) file) id (fun cap => { cap with list := cap.list.erase file }) fun _ => rfl
  exact (((quiet_touchFile s file).trans unlinked).trans dropped).trans (⟨rfl, rfl, rfl, rfl, rfl, rfl, rfl, rfl⟩)

theorem quiet_drops (files : List File) (s : Core) : Quiet s (files.foldl (fun s file => capDropFile s id file) s) := by
  induction files generalizing s with
  | nil => exact Quiet.refl s
  | cons file rest ih => exact (quiet_capDropFile s id file).trans (ih _)

structure Ends (s t : Core) : Prop where
  ctrl : t.ctrl = s.ctrl
  started : t.started = s.started
  type : t.type = s.type
  most : t.maxCaptureNumber = s.maxCaptureNumber
  fewer : (rows t).Sublist (rows s)
  account : Connected s → ∀ id, accounts t id = accounts s id
  running : RunningIffListed s → RunningIffListed t
  st : t.st = s.st ∨ t.st = .paused
  mallocs : ∀ ok ∈ t.mallocs, ok ∈ s.mallocs

theorem Ends.trans {s t u : Core} (first : Ends s t) (second : Ends t u) : Ends s u where
  ctrl := second.ctrl.trans first.ctrl
  started := second.started.trans first.started
  type := second.type.trans first.type
  most := second.most.trans first.most
  fewer := second.fewer.trans first.fewer
  account live id := by
    have kept : Connected t := by
      rw [Connected, first.ctrl]
      exact live
    exact (second.account kept id).trans (first.account live id)
  running before := second.running (first.running before)
  st := by
    rcases second.st with same | paused
    · rw [same]
      exact first.st
    · exact .inr paused
  mallocs ok there := first.mallocs ok (second.mallocs ok there)

theorem Ends.after {s t u : Core} (second : Ends t u) (first : Ends s t) : Ends s u := first.trans second

theorem rows_nil : rows s = [] ↔ s.caps = [] := List.map_eq_nil_iff

theorem Quiet.ends {s t : Core} (quiet : Quiet s t) : Ends s t := by
  refine ⟨quiet.ctrl, quiet.started, quiet.type, quiet.most, quiet.rows ▸ List.Sublist.refl _, fun _ id => ?_, fun before => ?_,
    .inl quiet.st, fun ok there => quiet.mallocs ▸ there⟩
  · rw [accounts, accounts, quiet.rows, quiet.told]
  · rw [RunningIffListed, quiet.st, ne_eq, ← rows_nil, quiet.rows, rows_nil]
    exact before

theorem Ends.refl : Ends s s := (Quiet.refl s).ends

theorem Ends.same {s t u : Core} (first : Ends s t) (ctrl : u.ctrl = t.ctrl) (started : u.started = t.started) (type : u.type = t.type)
    (most : u.maxCaptureNumber = t.maxCaptureNumber) (st : u.st = t.st) (listed : rows u = rows t) (told : stops u = stops t)
    (mallocs : u.mallocs = t.mallocs) : Ends s u :=
  first.trans (Quiet.ends ⟨ctrl, started, type, most, st, listed, told, mallocs⟩)

theorem Ends.changed {s t : Core} {id : Nat} {change : Cap → Cap} (first : Ends s t) (keeps : ∀ cap, row (change cap) = row cap) :
    Ends s (onCap t id change) :=
  first.trans (quiet_onCap t id _ keeps).ends

theorem removeCap_sublist (caps : List Cap) : (removeCap id caps).Sublist caps := by
  induction caps with
  | nil => exact List.Sublist.refl _
  | cons cap rest ih =>
    by_cases found : cap.id = id
    · simp [removeCap, found]
    · simpa [removeCap, found] using ih

theorem removeCap_count (id other : Nat) (caps : List Cap) (listed : id ∈ caps.map Cap.id) :
    ((removeCap id caps).map Cap.id).count other + [id].count other = (caps.map Cap.id).count other := by
  induction caps with
  | nil => exact nomatch listed
  | cons cap rest ih =>
    by_cases found : cap.id = id
    · simp [removeCap, found, List.count_cons]
    · have below : id ∈ rest.map Cap.id := by
        rcases List.mem_cons.mp listed with same | there
        · exact absurd same.symm found
        · exact there
      have counted := ih below
      simp only [removeCap, found, if_false, List.map_cons, List.count_cons] at counted ⊢
      omega

theorem ids_eq : (rows s).map Prod.fst = s.caps.map Cap.id := by
  rw [rows, List.map_map]
  rfl

theorem cap_listed {s : Core} {id : Nat} {cap : Cap} (found : cap? s id = some cap) : id ∈ s.caps.map Cap.id ∧ cap.id = id := by
  have same : cap.id = id := by simpa using List.find?_some found
  exact ⟨same ▸ List.mem_map_of_mem (List.mem_of_find?_eq_some found), same⟩

theorem find_modified (keeps : ∀ cap, (change cap).id = cap.id) (caps : List Cap) :
    (modifyCap id change caps).find? (fun cap => cap.id == id) = (caps.find? fun cap => cap.id == id).map change := by
  induction caps with
  | nil => rfl
  | cons cap rest ih =>
    by_cases found : cap.id = id
    · simp [modifyCap, found, keeps]
    · simp [modifyCap, found, ih]

theorem changed_found {s : Core} {id : Nat} {cap : Cap} {change : Cap → Cap} (found : cap? s id = some cap)
    (keeps : ∀ cap, (change cap).id = cap.id) : cap? (onCap s id change) id = some (change cap) := by
  have modified := find_modified id _ keeps s.caps
  rw [show (s.caps.find? fun cap => cap.id == id) = some cap from found] at modified
  exact modified

theorem changed_back {s : Core} {id : Nat} {last : Cap} {change : Cap → Cap} (there : cap? (onCap s id change) id = some last)
    (keeps : ∀ cap, (change cap).id = cap.id) : ∃ old, cap? s id = some old ∧ last = change old := by
  have named : (modifyCap id _ _).find? _ = some last := there
  rw [find_modified id _ keeps _] at named
  obtain ⟨old, found, same⟩ := Option.map_eq_some_iff.mp named
  exact ⟨old, found, same.symm⟩

theorem ends_exit (cap : Cap) (errcode : Int) (listed : cap.id ∈ s.caps.map Cap.id) :
    Ends s (captureCapExit (ctrlSendMsg s (capEvent .stop cap errcode)) cap.id) := by
  have sent : ∀ t : Core, t.ctrl = s.ctrl → t.started = s.started → t.type = s.type → t.maxCaptureNumber = s.maxCaptureNumber →
      t.st = s.st → t.caps = s.caps → t.mallocs = s.mallocs → (Connected s → stops t = stops s ++ [cap.id]) →
      Ends s (captureCapExit t cap.id) := by
    intro t ctrl started type most st caps mallocs told
    have allocs : ∀ ok ∈ t.mallocs, ok ∈ s.mallocs := fun ok there => mallocs ▸ there
    have counted : Connected s → ∀ other, ((removeCap cap.id s.caps).map Cap.id).count other + (stops t).count other =
        accounts s other := by
      intro live other
      have removed := removeCap_count _ other _ listed
      rw [accounts, ids_eq, told live, List.count_append]
      omega
    have fewer : ((removeCap _ _).map row).Sublist _ := (removeCap_sublist cap.id s.caps).map row
    rw [captureCapExit]
    simp only [caps]
    split
    · rename_i last
      have empty : removeCap _ _ = [] := List.isEmpty_iff.mp last.1
      rw [captureIntoPaused]
      split
      · rename_i paused
        refine ⟨ctrl, started, type, most, fewer, fun live other => ?_, fun _ => ?_, .inr paused, allocs⟩
        · rw [accounts, ids_eq]
          exact counted live _
        · rw [RunningIffListed]
          simp only [empty, ne_eq, not_true_eq_false, iff_false]
          rw [paused]
          decide
      · refine ⟨?_, ?_, ?_, ?_, ?_, fun live other => ?_, fun _ => ?_, .inr ?_, ?_⟩
        all_goals unfold sendApcfg
        · split <;> exact ctrl
        · split <;> exact started
        · split <;> exact type
        · split <;> exact most
        · split <;> exact fewer
        · split <;> (rw [accounts, ids_eq]; exact counted live _)
        · split <;> simp [RunningIffListed, touchSess, empty]
        · split <;> rfl
        · split <;> exact allocs
    · rename_i more
      refine ⟨ctrl, started, type, most, fewer, fun live other => ?_, fun before => ?_, .inl st, allocs⟩
      · rw [accounts, ids_eq]
        exact counted live _
      · have some : s.caps ≠ [] := by
          intro none
          rw [none] at listed
          exact nomatch listed
        rw [RunningIffListed] at before ⊢
        simp only [st]
        rw [before]
        by_cases empty : removeCap cap.id s.caps = []
        · have halted : s.st = .stopped := by simpa [empty, st] using more
          have running := before.mpr some
          exact absurd (running.symm.trans halted) (by decide)
        · exact ⟨fun _ => empty, fun _ => some⟩
  unfold ctrlSendMsg
  split
  · rename_i failed
    refine sent s rfl rfl rfl rfl rfl rfl rfl fun live => ?_
    exact absurd failed (not_or.mpr live)
  · refine sent _ rfl rfl rfl rfl rfl rfl rfl fun _ => ?_
    rw [stops, stops, List.filterMap_append]
    rfl

theorem ends_capStatusIntoStop : Ends s (capStatusIntoStop s id) := by
  unfold capStatusIntoStop
  split
  · exact (Ends.refl s).same rfl rfl rfl rfl rfl rfl rfl rfl
  · rename_i cap found
    have closed : Quiet s (onCap s id fun cap => { cap with timer := false, evt := false, fp := false }) := quiet_onCap s id _ fun _ => rfl
    have dropped := closed.trans (quiet_drops id cap.list _)
    obtain ⟨listed, same⟩ := cap_listed found
    have still : cap.id ∈ (cap.list.foldl (fun s file => capDropFile s id file)
        (onCap s id fun cap => { cap with timer := false, evt := false, fp := false })).caps.map Cap.id := by
      rw [← ids_eq, dropped.rows, ids_eq, same]
      exact listed
    have left := ends_exit _ cap cap.lasterr still
    rw [same] at left
    exact (dropped.ends.trans left).trans (quiet_captureContinueCapturing _).ends

theorem Ends.modified {s t : Core} (first : Ends s t) (id : Nat) (change : Cap → Cap) (keeps : ∀ cap, row (change cap) = row cap) :
    Ends s (onCap t id change) :=
  first.changed keeps

theorem ends_change (st : Status) (into : Nat → Core → Core) (each : ∀ t, Ends t (into id t)) :
    Ends s (capChangeStatus s id st into) := by
  unfold capChangeStatus
  split
  · exact (Ends.refl s).same rfl rfl rfl rfl rfl rfl rfl rfl
  · split
    · exact Ends.refl s
    · refine Ends.trans ?_ (each _)
      exact (Ends.refl s).changed fun _ => rfl

theorem ends_capStop : Ends s (capStop s id) := ends_change s id _ _ fun t => ends_capStatusIntoStop t id

theorem quiet_capFileTaken (cap : Cap) (errcode : Int) : Quiet s (capFileTaken s file cap errcode) := by
  have given : Quiet s { touchFile s file with
      out := { (touchFile s file).out with flg := none }, memLeft := (touchFile s file).memLeft + file.filesize } :=
    ⟨rfl, rfl, rfl, rfl, rfl, rfl, rfl, rfl⟩
  exact (given.trans (quiet_event _ .uploading cap _ nofun)).trans (quiet_onCap _ _ _ fun _ => rfl)

theorem ends_capFileUploadFinished (st : Int) : Ends s (capFileUploadFinished s file st) := by
  unfold capFileUploadFinished
  split
  · exact (Ends.refl s).same rfl rfl rfl rfl rfl rfl rfl rfl
  · rename_i cap found
    split
    · refine Ends.trans ?_ (ends_capStop _ _)
      exact (quiet_capFileTaken s file cap _).ends.changed fun _ => rfl
    split
    · exact (quiet_capFileTaken s file cap 0).ends.trans (ends_capStop _ _)
    · exact ((quiet_capFileTaken s file cap 0).trans (quiet_captureContinueCapturing _)).ends

theorem quiet_process (forks : List Bool) : Quiet s (outputIntoProcess s file forks) := by
  refine ⟨rfl, rfl, rfl, rfl, rfl, rfl, ?_, rfl⟩
  show stops { s with log := s.log ++ [.handed file] } = stops s
  rw [stops, stops, List.filterMap_append]
  simp

theorem ends_outputForkFailed : Ends s (outputForkFailed s file) := by
  refine (ends_capFileUploadFinished _ file _).after ?_
  exact (Ends.refl s).same rfl rfl rfl rfl rfl rfl rfl rfl

-- The loop through st_notify: what every failing fork keeps holds when a fork
-- succeeds or the queue is empty.
theorem continue_keeps (keeps ends : Core → Prop)
    (paused : ∀ s forks, keeps s → s.out.listFiles = [] → ends (outputIntoPaused s forks))
    (handed : ∀ s file rest forks, keeps s → s.out.listFiles = file :: rest → ends (outputIntoProcess (outputTake s file rest) file forks))
    (failed : ∀ s file rest, keeps s → s.out.listFiles = file :: rest → keeps (outputForkFailed (outputTake s file rest) file))
    (forks : List Bool) (s : Core) (kept : keeps s) : ends (outputContinue forks s) := by
  induction forks generalizing s with
  | nil =>
    unfold outputContinue
    cases queue : s.out.listFiles with
    | nil => exact paused s [] kept queue
    | cons file rest => exact handed s file rest [] kept queue
  | cons ok forks ih =>
    unfold outputContinue
    cases queue : s.out.listFiles with
    | nil => exact paused s _ kept queue
    | cons file rest =>
      cases ok with
      | true => exact handed s file rest forks kept queue
      | false => exact ih _ (failed s file rest kept queue)

theorem ends_outputContinue (forks : List Bool) (s : Core) : Ends s (outputContinue forks s) := by
  have taken (t : Core) (file : File) (rest : List File) (ends : Ends s t) : Ends s (outputTake t file rest) :=
    ends.same rfl rfl rfl rfl rfl rfl rfl rfl
  refine continue_keeps (Ends s) (Ends s) ?_ ?_ ?_ forks s (Ends.refl s)
  · intro t forks ends _
    exact ends.same rfl rfl rfl rfl rfl rfl rfl rfl
  · intro t file rest forks ends _
    exact (taken t file rest ends).trans (quiet_process _ file forks).ends
  · intro t file rest ends _
    exact (taken t file rest ends).trans (ends_outputForkFailed _ file)

theorem ends_outputNotify : Ends s (outputNotify s) := by
  unfold outputNotify
  split
  · exact (Ends.refl s).same rfl rfl rfl rfl rfl rfl rfl rfl
  · rename_i file current
    refine Ends.trans ?_ ((ends_capFileUploadFinished _ file _).trans (ends_outputContinue _ _))
    exact (Ends.refl s).same rfl rfl rfl rfl rfl rfl rfl rfl

theorem ends_outputUploadFile : Ends s (outputUploadFile s file).1 := by
  have queued : Ends s { s with out := { s.out with listFiles := s.out.listFiles ++ [file] } } :=
    (Ends.refl s).same rfl rfl rfl rfl rfl rfl rfl rfl
  unfold outputUploadFile
  simp only
  split
  · exact queued.trans (ends_outputContinue _ _)
  · exact queued

theorem ends_closed : Ends s { onCap s id fileClosed with mallocs := s.mallocs.tail } := by
  have changed := (quiet_onCap s id fileClosed fun _ => rfl).ends
  exact ⟨changed.ctrl, changed.started, changed.type, changed.most, changed.fewer, changed.account, changed.running, changed.st,
    fun ok there => List.mem_of_mem_tail there⟩

theorem ends_capFileAdded : Ends s (capFileAdded s id file) := by
  refine Ends.same ((ends_closed s id).modified id (fileListed file) fun _ => rfl) rfl rfl rfl rfl rfl rfl ?_ rfl
  show stops { s with log := s.log ++ [.closed file] } = stops s
  rw [stops, stops, List.filterMap_append]
  simp

theorem ends_capFileFinished : Ends s (capFileFinished s id).1 := by
  unfold capFileFinished
  split
  · exact (Ends.refl s).same rfl rfl rfl rfl rfl rfl rfl rfl
  split
  · exact (Ends.refl s).changed fun _ => rfl
  split
  · exact (ends_closed s id).changed fun _ => rfl
  · exact (ends_capFileAdded s id _).trans (ends_outputUploadFile _ _)

theorem ends_capStatusIntoUploading : Ends s (capStatusIntoUploading s id) := by
  have cancelled := quiet_onCap s id (fun cap => { cap with timer := false, evt := false }) fun _ => rfl
  have finished := cancelled.ends.trans (ends_capFileFinished _ id)
  unfold capStatusIntoUploading
  simp only
  split
  · refine Ends.changed ?_ fun _ => rfl
    exact finished.same rfl rfl rfl rfl rfl rfl rfl rfl
  · exact finished.trans (ends_capStop _ id)

theorem ends_capUploading : Ends s (capUploading s id) := ends_change s id .reg _ fun t => ends_capStatusIntoUploading t id

theorem ends_endCapture : Ends s (endCapture s id) :=
  ((Ends.refl s).same rfl rfl rfl rfl rfl rfl rfl rfl : Ends s (touchCap s id)).changed fun _ => rfl

theorem ends_capSpend (len : Int) : Ends s (capSpend s id len) := by
  have spent : Ends s { touchCap s id with memLeft := s.memLeft - len } := (Ends.refl s).same rfl rfl rfl rfl rfl rfl rfl rfl
  unfold capSpend
  dsimp only
  split
  · exact spent.changed fun _ => rfl
  · exact spent

-- The fields that cap_packages sets are none of these.
structure Own (change : Cap → Cap) : Prop where
  row : ∀ cap, row (change cap) = row cap
  list : ∀ cap, (change cap).list = cap.list
  st : ∀ cap, (change cap).st = cap.st

theorem Own.ident {change : Cap → Cap} (own : Own change) (cap : Cap) : (change cap).id = cap.id := congrArg Prod.fst (own.row cap)

abbrev packetCounted (fsize : Int) : Core :=
  onCap (onCap (onCap s id fun cap => { cap with fp := true }) id fun cap => { cap with size := fsize }) id fun cap => { cap with pkgs := cap.pkgs + 1 }

theorem packages_keep {P : Core → Prop} (packet : Packet) (holds : P s) (lost : cap? s id = none → P { s with dead := true })
    (sets : ∀ t change, Own change → P t → P (onCap t id change)) (ends : ∀ t, P t → P (endCapture t id))
    (spends : ∀ t len, P t → P (capSpend t id len)) (rotates : ∀ cap, cap? s id = some cap → P (packetCounted s id packet.fsize) →
      P (capFileFinished (packetCounted s id packet.fsize) id).1) : P (capPackages s id packet) := by
  unfold capPackages
  split
  · exact lost ‹_›
  rename_i cap found
  split
  · exact holds
  have failed (t : Core) (error : Int) (before : P t) : P (endCapture (onCap t id fun cap => { cap with lasterr := error }) id) :=
    ends _ (sets _ _ ⟨fun _ => rfl, fun _ => rfl, fun _ => rfl⟩ before)
  split
  · exact failed s _ holds
  have opened : P (onCap s id fun cap => { cap with fp := true }) := sets _ _ ⟨fun _ => rfl, fun _ => rfl, fun _ => rfl⟩ holds
  dsimp only
  split
  · exact failed _ _ opened
  have sized : P (onCap _ id fun cap => { cap with size := packet.fsize }) := sets _ _ ⟨fun _ => rfl, fun _ => rfl, fun _ => rfl⟩ opened
  split
  · exact failed _ _ sized
  have counted : P (packetCounted s id packet.fsize) := sets _ _ ⟨fun _ => rfl, fun _ => rfl, fun _ => rfl⟩ sized
  split
  · exact failed _ _ counted
  by_cases full : cap.maxFilesize ≤ packet.fsize
  · rw [if_pos full]
    split
    · exact ends _ (rotates cap found counted)
    · exact spends _ _ (rotates cap found counted)
  · rw [if_neg full]
    exact spends _ _ counted

theorem ends_capPackages (packet : Packet) : Ends s (capPackages s id packet) :=
  packages_keep s id packet (Ends.refl s) (fun _ => (Ends.refl s).same rfl rfl rfl rfl rfl rfl rfl rfl)
    (fun _ _ own before => before.changed own.row) (fun t before => before.trans (ends_endCapture t id))
    (fun t len before => before.trans (ends_capSpend t id len)) fun _ _ counted => counted.trans (ends_capFileFinished _ id)

theorem ends_capEvtCb (error : Bool) (packets : List Packet) (failed : Bool) : Ends s (capEvtCb s id error packets failed) := by
  have arrived : ∀ (packets : List _) (s : Core), Ends s (packets.foldl (fun s packet => capPackages s id packet) s) := by
    intro packets
    induction packets with
    | nil => exact Ends.refl
    | cons packet rest ih => exact fun s => (ends_capPackages s id _).trans (ih _)
  unfold capEvtCb
  split
  · exact Ends.refl s
  split
  · exact Ends.refl s
  split
  · exact (ends_capUploading _ id).after ((Ends.refl s).changed fun _ => rfl)
  split
  · exact Ends.refl s
  extract_lets dispatched checked touched
  have before : Ends s touched := by
    refine Ends.same (t := checked) ?_ rfl rfl rfl rfl rfl rfl rfl rfl
    simp only [checked]
    split
    · exact (ends_endCapture _ id).after ((arrived _ s).changed fun _ => rfl)
    · exact arrived _ s
  split
  · exact before
  split
  · exact before.trans (ends_capUploading _ id)
  split
  · refine before.trans (ends_change _ id _ _ fun t => ?_)
    unfold capStatusIntoPaused
    split
    · exact (Ends.refl t).same rfl rfl rfl rfl rfl rfl rfl rfl
    · rename_i paused _
      exact (quiet_event t .paused _ 0 nofun).ends.changed fun _ => rfl
  · exact before

theorem ends_capTimeoutCb : Ends s (capTimeoutCb s id) := by
  unfold capTimeoutCb
  split
  · exact Ends.refl s
  split
  · exact Ends.refl s
  split
  · exact (ends_capUploading _ id).after ((Ends.refl s).changed fun _ => rfl)
  · exact (Ends.refl s).changed fun _ => rfl

theorem ends_outTimeoutCb (exited : Option Int) : Ends s (outTimeoutCb s exited) := by
  unfold outTimeoutCb
  split
  · exact Ends.refl s
  · cases exited with
    | none => exact Ends.refl s
    | some code =>
      refine Ends.trans ?_ (ends_outputNotify _)
      exact (Ends.refl s).same rfl rfl rfl rfl rfl rfl rfl rfl

theorem ends_capStatusIntoStart : Ends s (capStatusIntoStart s id req) := by
  unfold capStatusIntoStart
  split
  · exact (ends_capStop _ id).after ((Ends.refl s).changed fun _ => rfl)
  split
  · exact (ends_capStop _ id).after ((Ends.refl s).changed fun _ => rfl)
  · refine (ends_change _ id _ _ fun t => ?_).after ((Ends.refl s).changed fun cap => ?_)
    rotate_left
    · split <;> rfl
    · unfold capStatusIntoCapturing
      split
      · exact (Ends.refl t).same rfl rfl rfl rfl rfl rfl rfl rfl
      · rename_i cap _
        exact (quiet_capturing t cap).ends.changed fun _ => rfl

theorem quiet_stopAnswer (errcode : Int) : Quiet s (stopAnswer s none req errcode) := by
  unfold stopAnswer ctrlSendMsg
  split
  · exact Quiet.refl s
  · refine ⟨rfl, rfl, rfl, rfl, rfl, rfl, ?_, rfl⟩
    rw [stops, stops, List.filterMap_append]
    simp

theorem ends_captureHandleMsgStop : Ends s (captureHandleMsgStop s req) := by
  unfold captureHandleMsgStop
  split
  · exact (quiet_stopAnswer s req _).ends
  split
  · exact (quiet_stopAnswer s req 0).ends
  split
  · exact (quiet_stopAnswer s req 0).ends
  · exact ends_capUploading s _

theorem ends_captureHandleMsgStopall : Ends s (captureHandleMsgStopall s req) := by
  have all : ∀ (ids : List Nat) (s : Core), Ends s (ids.foldl (fun s id => capUploading s id) s) := by
    intro ids
    induction ids with
    | nil => exact Ends.refl
    | cons id rest ih => exact fun s => (ends_capUploading s id).trans (ih _)
  unfold captureHandleMsgStopall
  split
  · exact (quiet_stopAnswer s req 0).ends
  · exact all _ s

end Codec.Sniffer
