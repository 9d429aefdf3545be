import Codec.Sniffer.Flow

set_option autoImplicit false

namespace Codec.Sniffer

open Codec.Lib

variable (id : Nat) (packets : List Packet) {s : Core}

theorem flow_endCapture (flow : Flow s none) (id : Nat) : Flow (endCapture s id) none := by
  have touched : Flow (touchCap s id) none := flow.frame rfl rfl rfl flow.up rfl rfl rfl
  exact flow_onCap touched id fun _ => rfl

theorem flow_capSpend (flow : Flow s none) (id : Nat) (len : Int) : Flow (capSpend s id len) none := by
  have spent : Flow { touchCap s id with memLeft := s.memLeft - len } none := flow.frame rfl rfl rfl flow.up rfl rfl rfl
  unfold capSpend
  dsimp only
  split
  · exact flow_onCap spent id fun _ => rfl
  · exact spent

theorem flow_capPackages (flow : Flow s none) (settled : Settled s) (alloc : AllocOk s) (id : Nat) (packet : Packet) :
    Flow (capPackages s id packet) none :=
  packages_keep s id packet (P := fun t => Flow t none) flow (fun _ => flow_dead flow)
    (fun _ _ own before => flow_onCap before id own.ident) (fun _ before => flow_endCapture before id)
    (fun _ len before => flow_capSpend before id len)
    fun _ _ counted => flow_capFileFinished counted (goes_counted settled id _).settled alloc.head id

theorem flow_packets (flow : Flow s none) (settled : Settled s) (alloc : AllocOk s) :
    Flow (packets.foldl (fun s packet => capPackages s id packet) s) none := by
  induction packets generalizing s with
  | nil => exact flow
  | cons packet rest ih =>
    exact ih (flow_capPackages flow settled alloc id _) (goes_capPackages settled id _).settled
      ((ends_capPackages s id _).alloc alloc)

def EndsBare (ready failed : Bool) : Bool → Cap → List Packet → Bool
  | closed, cap, [] => failed && !cap.fp && closed
  | closed, cap, packet :: rest =>
    if ¬ cap.fp ∧ ¬ packet.opens then closed
    else if EndsCapture cap packet then false
    else if cap.maxFilesize ≤ packet.fsize then ready && EndsBare ready failed true (rotated (grown cap packet)) rest
    else EndsBare ready failed closed (grown cap packet) rest

def Closes (s : Core) (id : Nat) : Prop := ∀ cap, cap? s id = some cap → cap.uploading = true ∧ (cap.fp = false → cap.list = [])

theorem closes_endCapture {id : Nat} (closes : ∀ cap, cap? s id = some cap → cap.fp = false → cap.list = []) : Closes (endCapture s id) id := by
  intro cap found
  have ended : cap? _ id = some cap := found
  obtain ⟨old, there, same⟩ := changed_back ended fun _ => rfl
  rw [same]
  exact ⟨rfl, closes old there⟩

theorem closes_packages {id : Nat} (packet : Packet) (closes : Closes s id) : Closes (capPackages s id packet) id := by
  unfold capPackages
  split
  · rename_i none
    exact fun cap found => (nomatch none.symm.trans found)
  · rename_i cap found
    rw [if_pos (closes cap found).1]
    exact closes

theorem closes_fold (id : Nat) {s : Core} (closes : Closes s id) :
    Closes (packets.foldl (fun s packet => capPackages s id packet) s) id := by
  induction packets generalizing s with
  | nil => exact closes
  | cons packet rest ih => exact ih (closes_packages _ closes)

theorem rotates_fails (s : Core) (id : Nat) (cap : Cap) (found : cap? s id = some cap) (opened : cap.fp = true)
    (alloc : s.mallocs.head? ≠ some false) (unable : ready s = false) : (capFileFinished s id).2 = false := by
  obtain ⟨idle, first⟩ : s.out.st = .paused ∧ s.forks.head? = some _ := by simpa [ready] using unable
  rw [finished_kept found opened alloc]
  unfold outputUploadFile
  rw [if_pos (show (capFileAdded s id _).out.st = .paused from idle)]
  exact decide_eq_false (not_not.mpr first)

theorem packages_closes (settled : Settled s) (alloc : AllocOk s) {id : Nat} {packet : Packet} {rest : List Packet}
    {failed closed paused : Bool} {cap : Cap} {files : List File} (found : cap? s id = some { cap with list := files, pause := paused })
    (live : cap.uploading = false) (bare : EndsBare (ready s) failed closed cap (packet :: rest) = false) (unlisted : closed = false → files = []) :
    Closes (capPackages s id packet) id ∨ ∃ next files paused closed,
      cap? (capPackages s id packet) id = some { next with list := files, pause := paused } ∧ next.uploading = false ∧ (closed = false → files = []) ∧
        EndsBare (ready (capPackages s id packet)) failed closed next rest = false := by
  have unshut : ∀ (t : Core) (last : Cap), cap? t id = some last → last.fp = true → ∀ lasterr : Int,
      Closes (endCapture (onCap t id fun cap => { cap with lasterr := lasterr }) id) id := by
    intro t last there opened lasterr
    refine closes_endCapture fun other same shut => ?_
    have marked : cap? (onCap t id fun cap => { cap with lasterr := lasterr }) id = some _ := changed_found there fun _ => rfl
    rw [← Option.some.inj (marked.symm.trans same)] at shut
    cases opened.symm.trans shut
  rw [EndsBare] at bare
  by_cases goes : EndsCapture cap packet
  · obtain ⟨t, lasterr, same, ⟨shut, rfl⟩ | ⟨_, ⟨_, rfl⟩ | ⟨_, last, there, opened⟩⟩⟩ := packages_ends found live goes
    · rw [if_pos shut] at bare
      rw [same]
      refine .inl (closes_endCapture fun other marked _ => ?_)
      obtain ⟨old, there, rfl⟩ := changed_back marked fun _ => rfl
      obtain rfl := Option.some.inj (found.symm.trans there)
      exact unlisted bare
    · have opened : cap? (onCap s id fun cap => { cap with fp := true }) id = some _ := changed_found found fun _ => rfl
      exact .inl (same ▸ unshut _ _ opened rfl _)
    · exact .inl (same ▸ unshut _ last there opened _)
  rw [if_neg fun shut => goes (.inl shut), if_neg goes] at bare
  rw [packages_goes found live goes]
  have counted : cap? _ id = some _ := grown_found found packet
  have spent (t : Core) (next : Cap) (files : List File) (paused closed : Bool) (live : next.uploading = false) (unlisted : closed = false → files = [])
      (there : cap? t id = some { next with list := files, pause := paused }) (bare : EndsBare (ready t) failed closed next rest = false) :
      ∃ next files paused closed, cap? (capSpend t id (packet.fsize - cap.size)) id = some { next with list := files, pause := paused } ∧
        next.uploading = false ∧ (closed = false → files = []) ∧
        EndsBare (ready (capSpend t id (packet.fsize - cap.size))) failed closed next rest = false := by
    obtain ⟨same, after, last⟩ := capSpend_kept (packet.fsize - cap.size) there
    exact ⟨next, files, after, closed, last, live, unlisted, same ▸ bare⟩
  by_cases full : cap.maxFilesize ≤ packet.fsize
  · rw [if_pos full] at bare
    rw [if_pos full]
    have counting := goes_counted settled id packet.fsize
    by_cases able : ready s = true
    · obtain ⟨done, busy, more, there⟩ := rotates_done _ counting.settled id (grown cap _) _ _ counted rfl alloc.head able
      rw [if_pos done]
      rw [able, Bool.true_and] at bare
      refine .inr (spent _ (rotated (grown cap _)) more _ true live (by rintro ⟨⟩) there ?_)
      have after : ready (capFileFinished (packetCounted s id packet.fsize) id).1 = true := by
        simp [ready, busy]
      rw [after]
      exact bare
    · have unable : ready s = false := by simpa using able
      have lost := rotates_fails _ id _ counted rfl alloc.head unable
      rw [if_neg (by rw [lost]; exact Bool.false_ne_true)]
      refine .inl (closes_endCapture fun other same _ => ?_)
      obtain ⟨old, there, closedOld, _⟩ := finished_fails counting.settled alloc.head lost _ same
      rw [← Option.some.inj (counted.symm.trans there)] at closedOld
      cases closedOld
  · rw [if_neg full] at bare
    rw [if_neg full]
    exact .inr (spent _ (grown cap _) _ _ _ live unlisted counted bare)

theorem dispatch_closes (settled : Settled s) (alloc : AllocOk s) {id : Nat}
    {failed closed paused : Bool} {cap : Cap} {files : List File} (found : cap? s id = some { cap with list := files, pause := paused })
    (live : cap.uploading = false) (bare : EndsBare (ready s) failed closed cap packets = false) (unlisted : closed = false → files = []) :
    ∀ last, cap? (packets.foldl (fun s packet => capPackages s id packet) s) id = some last → (last.uploading = true ∨ failed = true) →
      last.fp = false → last.list = [] := by
  induction packets generalizing s closed paused cap files with
  | nil =>
    intro last there ends shut
    obtain rfl := Option.some.inj (found.symm.trans there)
    rcases ends with closing | ends
    · exact nomatch live.symm.trans closing
    · rw [EndsBare, ends, show cap.fp = false from shut] at bare
      exact unlisted (by simpa using bare)
  | cons packet rest ih =>
    rcases packages_closes settled alloc found live bare unlisted with closes | ⟨next, files, paused, closed, there, live, unlisted, bare⟩
    · exact fun last there _ => (closes_fold rest id closes last there).2
    · exact ih (goes_capPackages settled id _).settled ((ends_capPackages s id _).alloc alloc) there live bare unlisted

theorem flow_emptied (flow : Flow s none) (settled : Settled s) (id : Nat) (empty : ∀ cap, cap? s id = some cap → cap.list = []) :
    Flow (capStop s id) none := by
  cases found : cap? s id with
  | none =>
    rw [capStop_absent found]
    exact flow_dead flow
  | some cap =>
    obtain ⟨current, wired, _⟩ := settled
    have none := empty cap found
    refine flow_capStop flow wired found ?_ (fun _ => ⟨none, rfl⟩) nofun
    rintro ⟨_, file, listed, _⟩
    rw [none] at listed
    exact nomatch listed

theorem flow_paused (flow : Flow s none) (id : Nat) : Flow (capChangeStatus s id .paused fun id s => capStatusIntoPaused s id) none := by
  unfold capChangeStatus
  split
  · exact flow_dead flow
  split
  · exact flow
  have marked : Flow (onCap s id fun cap => { cap with st := .paused }) none := flow_onCap flow id fun _ => rfl
  unfold capStatusIntoPaused
  dsimp only
  split
  · exact flow_dead marked
  · exact flow_onCap (flow_send marked (chatter_event .paused _ _ _ _ _ _ (.inl nofun))) id fun _ => rfl

def DispatchCloses (s : Core) (id : Nat) (error : Bool) (arrived : List Packet) (failed : Bool) : Prop :=
  ∀ cap, cap? s id = some cap → cap.evt = true →
    if error = true ∨ cap.uploading = true then ¬ Bare cap
    else cap.st = .normal → EndsBare (ready s) failed (!cap.list.isEmpty) cap arrived = false

theorem flow_capEvtCb (flow : Flow s none) (settled : Settled s) (alloc : AllocOk s) (id : Nat) (error : Bool) (arrived : List Packet)
    (failed : Bool) (safe : DispatchCloses s id error arrived failed) : Flow (capEvtCb s id error arrived failed) none := by
  unfold capEvtCb
  split
  · exact flow
  rename_i cap found
  split
  · exact flow
  rename_i set
  have closing := safe cap found (by simpa using set)
  split
  · rename_i wrong
    rw [if_pos (.inl wrong)] at closing
    have goes : Goes s (onCap s id fun cap => { cap with lasterr := errPcapError }) := (goes_refl settled).changed (fun _ => rfl) fun _ => rfl
    have marked : Flow (onCap s id fun cap => { cap with lasterr := errPcapError }) none := flow_onCap flow id fun _ => rfl
    refine flow_capUploading marked goes.settled alloc id fun last there => ?_
    have still : cap? (onCap s id fun cap => { cap with lasterr := errPcapError }) id = some _ :=
      changed_found found fun _ => rfl
    rw [← Option.some.inj (still.symm.trans there)]
    exact closing
  rename_i right
  split
  · exact flow
  rename_i capturing
  have read := flow_packets id arrived flow settled alloc
  have goes := goes_packets id arrived settled
  have ends := ends_packets id arrived s
  have closes : ∀ last, cap? (arrived.foldl (fun s packet => capPackages s id packet) s) id = some last → (last.uploading = true ∨ failed = true) →
      last.fp = false → last.list = [] := by
    by_cases live : cap.uploading = true
    · rw [if_pos (.inr live)] at closing
      have ended : Closes s id := by
        intro other same
        rw [Option.some.inj (same.symm.trans found)]
        refine ⟨live, fun shut => ?_⟩
        by_contra some
        have running : cap.st = .normal := by simpa using capturing
        exact closing ⟨by rw [running]; exact nofun, shut, some⟩
      exact fun last there _ => (closes_fold _ id ended last there).2
    · rw [if_neg (by rintro (one | two); exacts [right one, live two])] at closing
      have there : cap? s id = some _ := found
      refine dispatch_closes _ settled alloc there (by simpa using live) (closing (by simpa using capturing)) fun unlisted => ?_
      exact List.isEmpty_iff.mp (by simpa using unlisted)
  extract_lets dispatched checked touched
  have checking : Flow checked none ∧ Goes s checked ∧ Ends s checked ∧
      ∀ last, cap? checked id = some last → last.uploading = true → last.fp = false → last.list = [] := by
    simp only [checked]
    split
    · rename_i failing
      have marked : Flow (onCap _ id fun cap => { cap with lasterr := errPcapError }) none := flow_onCap read id fun _ => rfl
      refine ⟨flow_endCapture marked id, Goes.ends ?_ id, (ends_endCapture _ id).after ?_, fun last there _ => (closes_endCapture ?_ last there).2⟩
      · exact goes.changed (fun _ => rfl) fun _ => rfl
      · exact ends.changed fun _ => rfl
      · intro other same shut
        obtain ⟨old, early, rfl⟩ := changed_back same fun _ => rfl
        exact closes old early (.inr failing) shut
    · exact ⟨read, goes, ends, fun last there ended => closes last there (.inl ended)⟩
  have before : Flow touched none := checking.1.frame rfl rfl rfl checking.1.up rfl rfl rfl
  split
  · exact before
  rename_i last final
  split
  · rename_i ended
    refine flow_capUploading before (goes_touchCap checking.2.1.settled id).settled (checking.2.2.1.alloc alloc) id fun other same bare => ?_
    have equal : other = last := Option.some.inj (same.symm.trans final)
    rw [equal] at bare
    exact bare.2.2 (checking.2.2.2 last final ended bare.2.1)
  split
  · exact flow_paused before id
  · exact before

theorem flow_capTimeoutCb (flow : Flow s none) (settled : Settled s) (alloc : AllocOk s) (id : Nat)
    (safe : ∀ cap, cap? s id = some cap → cap.timer = true → cap.limitTimeuse ≤ 0 → ¬ Bare cap) : Flow (capTimeoutCb s id) none := by
  unfold capTimeoutCb
  split
  · exact flow
  rename_i cap found
  split
  · exact flow
  rename_i set
  split
  · rename_i spent
    have fired : Flow (onCap s id fun cap => { cap with timer := false, lasterr := 0 }) none := flow_onCap flow id fun _ => rfl
    have goes : Goes s (onCap s id fun cap => { cap with timer := false, lasterr := 0 }) := (goes_refl settled).changed (fun _ => rfl) fun _ => rfl
    refine flow_capUploading fired goes.settled alloc id fun last there => ?_
    have still : cap? (onCap s id fun cap => { cap with timer := false, lasterr := 0 }) id = some _ :=
      changed_found found fun _ => rfl
    rw [← Option.some.inj (still.symm.trans there)]
    exact safe cap found (by simpa using set) spent
  · exact flow_onCap flow id fun _ => rfl

theorem flow_stopAnswer (flow : Flow s none) (answers : Option Nat) (req : Request) (errcode : Int) (told : answers = none ∨ errcode ≠ 0) :
    Flow (stopAnswer s answers req errcode) none :=
  flow_send flow (chatter_event _ _ _ _ _ _ _ (.inr told))

theorem flow_captureHandleMsgStop (flow : Flow s none) (settled : Settled s) (alloc : AllocOk s) (req : Request)
    (safe : requestError req = 0 → ∀ cap, captureGetCap s req.interface = some cap → ¬ Bare cap) : Flow (captureHandleMsgStop s req) none := by
  obtain ⟨_, wired, _⟩ := id settled
  unfold captureHandleMsgStop
  split
  · exact flow_stopAnswer flow none req _ (.inl rfl)
  rename_i sound
  split
  · exact flow_stopAnswer flow none req 0 (.inl rfl)
  split
  · exact flow_stopAnswer flow none req 0 (.inl rfl)
  · rename_i cap named
    refine flow_capUploading flow settled alloc _ fun other same => ?_
    have equal := found_unique wired same (List.mem_of_find?_eq_some named) rfl
    rw [← equal]
    exact safe (not_not.mp sound) cap named

def NoneBare (s : Core) : Prop := ∀ cap ∈ s.caps, ¬ Bare cap

theorem NoneBare.caps {s t : Core} (none : NoneBare s) (caps : t.caps = s.caps) : NoneBare t := by
  unfold NoneBare
  rw [caps]
  exact none

theorem bare_onCap (none : NoneBare s) {id : Nat} {change : Cap → Cap}
    (keeps : ∀ cap ∈ s.caps, cap.id = id → Bare (change cap) → Bare cap) : NoneBare (onCap s id change) := by
  intro cap there bare
  rcases mem_modify there with old | ⟨old, member, named, rfl⟩
  · exact none cap old bare
  · exact none old member (keeps old member named bare)

theorem bare_woken {caps : List Cap} (none : ∀ cap ∈ caps, ¬ Bare cap) : ∀ cap ∈ caps.map woken, ¬ Bare cap := by
  intro cap there bare
  obtain ⟨old, member, rfl⟩ := woken_mem there
  refine none old member ?_
  unfold woken at bare
  split at bare
  · rename_i paused
    exact ⟨by rw [paused]; exact nofun, bare.2⟩
  · exact bare

theorem bare_capStop {current : Option File} (wired : Wired s current) (none : NoneBare s) (id : Nat) : NoneBare (capStop s id) := by
  cases found : cap? s id with
  | none =>
    rw [capStop_absent found]
    exact none
  | some cap =>
    have stopped := capStop_spec s id cap found (wired.up cap (found_mem found).1) wired.awake
    unfold NoneBare
    rw [stopped.caps]
    exact bare_woken fun other there => none _ ((removeCap_sublist id _).subset there)

theorem bare_capFileUploadFinished {file : File} (wired : Wired s (some file)) (none : NoneBare s) (code : Int) :
    NoneBare (capFileUploadFinished s file code) := by
  obtain ⟨cap, found, _⟩ := held_found wired (wired.apart file rfl).1
  have taken : ∀ errcode, NoneBare (capFileTaken s file cap errcode) := by
    intro errcode
    have erased : NoneBare (onCap s file.inf fun cap => { cap with list := cap.list.erase file }) := by
      refine bare_onCap none fun other _ _ bare => ⟨bare.1, bare.2.1, fun empty => bare.2.2 ?_⟩
      rw [empty]
      rfl
    exact erased.caps (same_taken s file cap _).caps
  unfold capFileUploadFinished
  rw [found]
  dsimp only
  split
  · exact bare_capStop (failed_wired wired found) (bare_onCap (taken _) fun _ _ _ bare => bare) _
  split
  · exact bare_capStop (wired_taken wired found 0) (taken 0) _
  · unfold captureContinueCapturing
    split
    · exact taken 0
    · exact bare_woken (taken 0)

theorem bare_outputContinue (forks : List Bool) {s : Core} (wired : Wired s none) (none : NoneBare s) : NoneBare (outputContinue forks s) := by
  refine continue_keeps (fun t => Wired t .none ∧ NoneBare t) NoneBare ?_ ?_ ?_ forks s ⟨wired, none⟩
  · exact fun t forks kept _ => kept.2
  · exact fun t file rest forks kept _ => kept.2
  · rintro t file rest ⟨wired, none⟩ queue
    have taken := wired_take wired queue
    exact ⟨(forkFailed_spec taken).wired, bare_capFileUploadFinished (wired_failing taken) none _⟩

theorem bare_capFileFinished (settled : Settled s) (none : NoneBare s) (id : Nat) (ended : ∀ cap ∈ s.caps, cap.id = id → cap.st = .reg) :
    NoneBare (capFileFinished s id).1 := by
  unfold capFileFinished
  split
  · exact none
  rename_i cap found
  split
  · exact bare_onCap none fun _ _ _ bare => bare
  have shut : NoneBare { onCap s id fileClosed with mallocs := s.mallocs.tail } := by
    have closed : NoneBare (onCap s id fileClosed) := bare_onCap none fun other there named bare => absurd (ended _ there named) bare.1
    exact closed
  have kept : ∀ cap ∈ (onCap s id fileClosed).caps, cap.id = id → cap.st = .reg := by
    intro cap there named
    rcases mem_modify there with old | ⟨old, member, same, rfl⟩
    · exact ended cap old named
    · exact ended old member same
  split
  · exact bare_onCap shut fun other there named bare => absurd (kept _ there named) bare.1
  obtain ⟨current, wired, serving⟩ := settled
  obtain ⟨added, there, unqueued, other⟩ := wired_added wired found _
  have listed : NoneBare (capFileAdded s id ⟨s.written, id, cap.size⟩) := by
    have listing : NoneBare (onCap _ id (fileListed ⟨s.written, id, cap.size⟩)) :=
      bare_onCap shut fun other there named bare => absurd (kept _ there named) bare.1
    exact listing
  have wiring := wired_queued added there unqueued other
  unfold outputUploadFile
  dsimp only
  split
  · rename_i idle
    obtain ⟨rfl, _, _⟩ := serving.idle idle
    exact bare_outputContinue _ wiring listed
  · exact listed

theorem bare_capUploading (settled : Settled s) (none : NoneBare s) (id : Nat) : NoneBare (capUploading s id) := by
  unfold capUploading capChangeStatus
  cases found : cap? s id with
  | none => exact none
  | some cap =>
    dsimp only
    split
    · exact none
    have marked := settled_ending settled id
    have still : cap? _ id = some (ending cap) := changed_found found fun _ => rfl
    have closing : NoneBare (onCap s id ending) := bare_onCap none fun _ _ _ bare => absurd rfl bare.1
    obtain ⟨current, wired, serving⟩ := marked
    have finished := bare_capFileFinished ⟨current, wired, serving⟩ closing id fun other there named => by
      rw [found_unique wired still there named]
      rfl
    obtain ⟨_, after, _⟩ := (goes_capFileFinished ⟨current, wired, serving⟩ id).settled
    unfold capStatusIntoUploading
    rw [ending_twice]
    dsimp only
    split
    · exact bare_onCap (s := touchCap _ id) finished fun _ _ _ bare => bare
    · exact bare_capStop after finished id

theorem flow_all (ids : List Nat) {s : Core} (flow : Flow s none) (settled : Settled s) (alloc : AllocOk s) (clean : NoneBare s) :
    Flow (ids.foldl (fun s id => capUploading s id) s) none := by
  induction ids generalizing s with
  | nil => exact flow
  | cons id rest ih =>
    have first := flow_capUploading flow settled alloc id fun cap found => clean cap (found_mem found).1
    exact ih first (goes_capUploading settled id).settled ((ends_capUploading s id).alloc alloc) (bare_capUploading settled clean id)

theorem flow_captureHandleMsgStopall (flow : Flow s none) (settled : Settled s) (alloc : AllocOk s) (req : Request) (clean : NoneBare s) :
    Flow (captureHandleMsgStopall s req) none := by
  unfold captureHandleMsgStopall
  split
  · exact flow_stopAnswer flow none req 0 (.inl rfl)
  · exact flow_all _ flow settled alloc clean

theorem flow_outTimeoutCb (flow : Flow s none) (settled : Settled s) (exited : Option Int) : Flow (outTimeoutCb s exited) none := by
  unfold outTimeoutCb
  split
  · exact flow
  rename_i running
  cases exited with
  | none => exact flow
  | some code =>
    have polling : s.out.timer = true := by simpa using running
    obtain ⟨current, wired, serving⟩ := settled
    obtain ⟨file, rfl, _, curfl⟩ := serving.polls polling
    have polled := wired_polled wired code
    have noted : Flow { touchFile s file with out := { s.out with lasterr := code, timer := false, st := .reg } } none :=
      flow.frame rfl rfl rfl nofun rfl rfl rfl
    have finished : Flow (capFileUploadFinished _ file code)
        none := flow_capFileUploadFinished noted polled nofun
    dsimp only
    rw [outputNotify_eq s file code curfl]
    exact flow_outputContinue _ finished (finished_spec polled code).wired

theorem apcfg_log (s : Core) : (sendApcfg s).log = s.log ∧ (sendApcfg s).started = s.started := by
  unfold sendApcfg
  split
  · exact ⟨rfl, rfl⟩
  · exact ⟨rfl, rfl⟩

theorem flow_numbered {s t : Core} (flow : Flow s none) (log : t.log = s.log) (ctrl : t.ctrl = s.ctrl) (out : t.out = s.out)
    (written : t.written = s.written) (started : t.started = s.started + 1)
    (caps : ∀ cap ∈ t.caps, cap ∈ s.caps ∨ cap.id = s.started) : Flow t none := by
  have ids : ∀ id ∈ t.caps.map Cap.id, id ∈ s.caps.map Cap.id ∨ id = s.started := by
    intro id there
    obtain ⟨cap, member, rfl⟩ := List.mem_map.mp there
    exact (caps cap member).imp_left List.mem_map_of_mem
  refine ⟨?_, ?_, fun cap there => ?_, ?_, ?_, ?_, ?_, ?_⟩
  · rw [Connected, ctrl]
    exact flow.live
  · rw [out]
    exact flow.up
  · rw [started]
    rcases caps cap there with old | new
    · exact Nat.lt_succ_of_lt (flow.numbered cap old)
    · rw [new]
      exact Nat.lt_succ_self _
  · rw [log, out]
    exact flow.order
  · rw [log]
    exact flow.once
  · rw [log, written, started]
    exact fun file there => ⟨(flow.below file there).1, Nat.lt_succ_of_lt (flow.below file there).2⟩
  · rw [log, out]
    intro file there
    refine (flow.accounted file there).imp_right (Or.imp_right (Or.imp_right ?_))
    rintro ⟨told, gone⟩
    refine ⟨told, fun still => ?_⟩
    rcases ids _ still with old | new
    · exact gone old
    · exact Nat.lt_irrefl _ (new ▸ (flow.below file there).2)
  · rw [log, started]
    intro before entry after id shape stop
    obtain ⟨gone, older, all⟩ := flow.ended _ entry _ id shape stop
    refine ⟨fun still => ?_, Nat.lt_succ_of_lt older, all⟩
    rcases ids _ still with old | new
    · exact gone old
    · exact Nat.lt_irrefl _ (new ▸ older)

theorem flow_capStatusIntoStart (flow : Flow s none) (settled : Settled s) (id : Nat) (req : Request)
    (empty : ∀ cap, cap? s id = some cap → cap.list = []) : Flow (capStatusIntoStart s id req) none := by
  have refused : ∀ lasterr : Int, Flow (capStop (onCap s id fun cap => { cap with lasterr := lasterr }) id) none := by
    intro lasterr
    have marked : Flow (onCap s id fun cap => { cap with lasterr := lasterr }) none := flow_onCap flow id fun _ => rfl
    have goes : Goes s (onCap s id fun cap => { cap with lasterr := lasterr }) := (goes_refl settled).changed (fun _ => rfl) fun _ => rfl
    refine flow_emptied marked goes.settled id fun cap there => ?_
    obtain ⟨old, early, rfl⟩ := changed_back there fun _ => rfl
    exact empty old early
  unfold capStatusIntoStart
  split
  · exact refused _
  split
  · exact refused _
  · have timed : Flow (onCap s id fun cap => if cap.limitTimeuse > 0 then capTimeoutSet cap else cap) none :=
      flow_onCap flow id fun cap => by split <;> rfl
    unfold capChangeStatus
    dsimp only
    split
    · exact flow_dead timed
    split
    · exact timed
    have marked : Flow (onCap _ id fun cap => { cap with st := .normal }) none := flow_onCap timed id fun _ => rfl
    unfold capStatusIntoCapturing
    split
    · exact flow_dead marked
    · rename_i cap _
      exact flow_onCap (flow_send marked (chatter_capturing cap)) id fun _ => rfl

theorem flow_captureStartCapturing {s t : Core} (flow : Flow s none) (next : Flow t none) (settled : Settled t) (req : Request) (log : t.log = s.log)
    (ctrl : t.ctrl = s.ctrl) (out : t.out = s.out) (written : t.written = s.written) (started : t.started = s.started + 1) (caps : t.caps = s.caps)
    (running : t.st = .normal) : Flow (captureStartCapturing t s.started req) none := by
  have fresh : ∀ cap ∈ t.caps, cap.id ≠ s.started := fun cap there => Nat.ne_of_lt (flow.numbered cap (caps ▸ there))
  have absent : s.started ∉ t.caps.map Cap.id := by
    intro there
    obtain ⟨cap, member, same⟩ := List.mem_map.mp there
    exact fresh cap member same
  have found : cap? { t with caps := t.caps ++ [newCap t _ req] } _ = some _ := listed_found t _ req absent
  unfold captureStartCapturing
  dsimp only
  rw [removeCap_listed t _ req absent]
  split
  · rename_i refused
    exact flow_stopAnswer next _ req _ (.inr refused)
  · have listing : Flow { t with caps := t.caps ++ [newCap t s.started req] } none := by
      refine flow_numbered flow log ctrl out written started fun cap there => ?_
      rcases List.mem_append.mp there with old | new
      · exact .inl (caps ▸ old)
      · rw [List.mem_singleton.mp new]
        exact .inr rfl
    unfold capChangeStatus
    rw [found]
    dsimp only
    rw [if_neg (show ¬ (newCap t _ req).st = .start from nofun)]
    have added := goes_added settled _ req fresh running
    have marked : Flow (onCap _ _ fun cap => { cap with st := .start }) none := flow_onCap listing s.started fun _ => rfl
    refine flow_capStatusIntoStart marked added.settled _ req fun cap there => ?_
    have begun : cap? (onCap _ _ fun cap => { cap with st := .start }) _ =
        some _ := changed_found found fun _ => rfl
    rw [← Option.some.inj (begun.symm.trans there)]
    rfl

theorem flow_captureHandleMsgStart (tidy : Tidy s) (flow : Flow s none) (req : Request) : Flow (captureHandleMsgStart s req) none := by
  have numbered : ∀ t : Core, t.log = s.log → t.ctrl = s.ctrl → t.out = s.out → t.written = s.written → t.started = s.started + 1 → t.caps = s.caps →
      Flow t none := fun t log ctrl out written started caps => flow_numbered flow log ctrl out written started fun _ there => .inl (caps ▸ there)
  have next : Flow (noted s) none := numbered _ rfl rfl rfl rfl rfl rfl
  have turns (st : Status) : Flow (turned s req st) none := by
    have sent := same_turned s req st
    obtain ⟨log, started⟩ := apcfg_log _
    exact numbered _ log sent.ctrl sent.out sent.written started sent.caps
  have ended := handle_start_started s req
  generalize captureHandleMsgStart s req = after at ended ⊢
  cases ended with
  | answered errcode wrong => exact flow_stopAnswer next _ req _ (.inr wrong)
  | slept => exact flow_stopAnswer (turns _) _ req _ (.inr (by decide))
  | woken => exact flow_stopAnswer (turns _) _ req _ (.inr (by decide))
  | wakes _ paused =>
    have sent := same_turned s req .normal
    obtain ⟨log, started⟩ := apcfg_log _
    have woke := goes_turned tidy.settled paused req .normal
    exact flow_captureStartCapturing flow (turns _) woke.settled req log sent.ctrl sent.out sent.written started sent.caps sent.st
  | starts _ running =>
    exact flow_captureStartCapturing flow next (goes_noted tidy.settled).settled req rfl rfl rfl rfl rfl rfl
      (tidy.known.resolve_left running)

def UploadSafe (s : Core) (h : Happening) : Prop :=
  (∀ ok ∈ h.mallocs, ok = true) ∧
    match h.event with
    | .stop req => requestError req = 0 → ∀ cap, captureGetCap s req.interface = some cap → ¬ Bare cap
    | .stopall _ => NoneBare s
    | .packets id error arrived failed => DispatchCloses { s with forks := h.forks } id error arrived failed
    | .timeout id => ∀ cap, cap? s id = some cap → cap.timer = true → cap.limitTimeuse ≤ 0 → ¬ Bare cap
    | _ => True

theorem flow_ctrl {s t : Core} (flow : Flow s none) (live : Connected t) (log : t.log = s.log) (out : t.out = s.out) (caps : t.caps = s.caps)
    (written : t.written = s.written) (started : t.started = s.started) : Flow t none := by
  refine ⟨live, ?_, fun cap there => ?_, ?_, ?_, ?_, ?_, ?_⟩
  · rw [out]
    exact flow.up
  · rw [started]
    exact flow.numbered cap (caps ▸ there)
  · rw [log, out]
    exact flow.order
  · rw [log]
    exact flow.once
  · rw [log, written, started]
    exact flow.below
  · rw [log, out, caps]
    exact flow.accounted
  · rw [log, caps, started]
    exact flow.ended

theorem flow_handled (flow : Flow s none) : Flow (handled s) none := flow.frame rfl rfl rfl flow.up rfl rfl rfl

theorem react_flow (s : Core) (event : Event) (tidy : Tidy s) (flow : Flow s none) (safe : UploadSafe s ⟨event, s.forks, s.mallocs⟩) :
    (react s event).ctrl = .stopped ∨ Flow (react s event) none := by
  obtain ⟨alloc, given⟩ := safe
  cases event with
  | start req =>
    rw [react]
    split
    · exact .inr flow
    · exact .inr (flow_handled (flow_captureHandleMsgStart tidy flow req))
  | stop req =>
    rw [react]
    split
    · exact .inr flow
    · exact .inr (flow_handled (flow_captureHandleMsgStop flow tidy.settled alloc req given))
  | stopall req =>
    rw [react]
    split
    · exact .inr flow
    · exact .inr (flow_handled (flow_captureHandleMsgStopall flow tidy.settled alloc req given))
  | packets id error arrived failed => exact .inr (flow_capEvtCb flow tidy.settled alloc id _ _ _ given)
  | timeout id => exact .inr (flow_capTimeoutCb flow tidy.settled alloc id given)
  | uploaded exited => exact .inr (flow_outTimeoutCb flow tidy.settled _)
  | connected =>
    rw [react]
    split
    · refine .inr (flow_ctrl flow ?_ rfl rfl rfl rfl rfl)
      exact show Status.reg ≠ .err ∧ Status.reg ≠ .stopped by decide
    · exact .inr flow
  | registered status =>
    rw [react]
    split
    · exact .inr flow
    by_cases taken : status = 0
    · rw [if_pos taken]
      refine .inr (flow_handled (flow_ctrl flow ?_ rfl rfl rfl rfl rfl))
      exact show Status.normal ≠ .err ∧ Status.normal ≠ .stopped by decide
    · rw [if_neg taken]
      exact .inl rfl
  | lost => exact .inl rfl

def FlowKept (s : Core) : Prop := s.ctrl = .stopped ∨ (Tidy s ∧ Flow s none)

theorem flow_step (s : Core) (h : Happening) (kept : FlowKept s) (safe : UploadSafe s h) : FlowKept (sniffer s h) := by
  have next := tidy_step s h (kept.imp_right And.left)
  unfold sniffer at next ⊢
  split
  · rename_i ended
    exact .inl ended
  · rename_i going
    rw [if_neg going] at next
    obtain ⟨tidy, flow⟩ := kept.resolve_left going
    have given := (tidy_given tidy h.forks h.mallocs).1
    have same : Flow { s with forks := h.forks, mallocs := h.mallocs } none := flow.frame rfl rfl rfl flow.up rfl rfl rfl
    rcases next with ended | after
    · exact .inl ended
    · exact (react_flow _ _ given same safe).imp_right fun done => ⟨after, done⟩

structure Conserved (s : Core) : Prop where
  up : s.out.st ≠ .stopped
  order : (handedIn s.log ++ s.out.listFiles).Sublist (closedIn s.log)
  once : (handedIn s.log ++ s.out.listFiles).Nodup
  kept : ∀ file ∈ closedIn s.log, file ∈ s.out.listFiles ∨ file ∈ handedIn s.log ∨ ToldFailure s.log file.inf
  ended : ∀ before entry after id, s.log = before ++ entry :: after → StopOf id 0 entry →
    ∀ file ∈ closedIn s.log, file.inf = id → file ∈ handedIn before

theorem flow_conserved (flow : Flow s none) : Conserved s := by
  refine ⟨flow.up, flow.order, flow.once.sublist flow.order, fun file there => ?_, fun before entry after id shape stop => ?_⟩
  · rcases flow.accounted file there with queued | handed | spared | failed
    · exact .inl queued
    · exact .inr (.inl handed)
    · exact nomatch spared
    · exact .inr (.inr failed.1)
  · exact (flow.ended _ _ _ id shape stop).2.2

theorem uploads_conserved (online : Bool) (memTotal memMaxsingle : Int) (happenings : List Happening)
    (safe : AllSteps sniffer UploadSafe (boot online memTotal memMaxsingle) happenings)
    (going : (run sniffer (boot online memTotal memMaxsingle) happenings).ctrl ≠ .stopped) :
    Conserved (run sniffer (boot online memTotal memMaxsingle) happenings) := by
  have begun : FlowKept (boot online memTotal memMaxsingle) := by
    refine .inr ⟨boot_tidy _ _ _, ⟨?_, nofun, fun cap there => (nomatch there), List.nil_sublist _, List.nodup_nil,
      fun file there => (nomatch there), fun file there => (nomatch there), fun before entry after id shape => ?_⟩⟩
    · cases online
      · exact show Status.connect ≠ .err ∧ Status.connect ≠ .stopped by decide
      · exact show Status.reg ≠ .err ∧ Status.reg ≠ .stopped by decide
    · exact absurd shape.symm (by simp [boot])
  have kept := run_keeps _ _ _ _ _ begun (fun s h inv ok => flow_step s h inv ok) safe
  exact flow_conserved (kept.resolve_left going).2

-- A rotation, a second file, a stop and the uploads of both files.
theorem uploads_conserved_sample :
    Conserved (run sniffer (boot true 1000 100) [calm (.registered 0), calm (.start plainRequest),
      calm (.packets 0 false [⟨true, 50⟩, ⟨true, 120⟩] false), calm (.packets 0 false [⟨true, 30⟩] false), calm (.stop plainRequest),
      calm (.uploaded (some 0)), calm (.uploaded (some 0))]) := by
  have given : ∀ ok ∈ ([] : List Bool), ok = true := fun _ there => (nomatch there)
  refine uploads_conserved true 1000 100 _ ⟨⟨given, trivial⟩, ⟨given, trivial⟩, ⟨given, fun cap found _ => ?_⟩,
    ⟨given, fun cap found _ => ?_⟩, ⟨given, fun _ cap found => ?_⟩, ⟨given, trivial⟩, ⟨given, trivial⟩, trivial⟩ (by decide)
  · obtain rfl := Option.some.inj found
    decide
  · obtain rfl := Option.some.inj found
    decide
  · obtain rfl := Option.some.inj found
    decide

-- The stop message arrives just after a rotation, while that file is being uploaded.
theorem uploads_stopped : ¬ ∀ (online : Bool) (memTotal memMaxsingle : Int) (happenings : List Happening),
      (run sniffer (boot online memTotal memMaxsingle) happenings).ctrl ≠ .stopped →
        Conserved (run sniffer (boot online memTotal memMaxsingle) happenings) := by
  intro claim
  have conserved := claim true 1000 100 [calm (.registered 0), calm (.start plainRequest), calm (.packets 0 false [⟨true, 50⟩, ⟨true, 120⟩] false),
    calm (.stop plainRequest)] (by decide)
  exact absurd conserved.up (by decide)

end Codec.Sniffer
