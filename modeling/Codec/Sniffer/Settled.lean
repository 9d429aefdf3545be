import Codec.Sniffer.Wired

set_option autoImplicit false

namespace Codec.Sniffer

inductive Serving (out : Output) : Option File → Prop
  | process (file : File) (st : out.st = .normal) (timer : out.timer = true) (current : out.curfl = some file) : Serving out (some file)
  | paused (st : out.st = .paused) (timer : out.timer = false) (empty : out.listFiles = []) : Serving out none
  | stopped (st : out.st = .stopped) (timer : out.timer = false) : Serving out none

theorem Serving.idle {out : Output} {current : Option File} (serving : Serving out current) (paused : out.st = .paused) :
    current = none ∧ out.timer = false ∧ out.listFiles = [] := by
  cases serving with
  | process _ st _ _ => exact nomatch st.symm.trans paused
  | paused _ timer empty => exact ⟨rfl, timer, empty⟩
  | stopped st _ => exact nomatch st.symm.trans paused

theorem Serving.polls {out : Output} {current : Option File} (serving : Serving out current) (polling : out.timer = true) :
    ∃ file, current = some file ∧ out.st = .normal ∧ out.curfl = some file := by
  cases serving with
  | process file st _ curfl => exact ⟨file, rfl, st, curfl⟩
  | paused _ timer _ => exact nomatch timer.symm.trans polling
  | stopped _ timer => exact nomatch timer.symm.trans polling

def Settled (s : Core) : Prop := ∃ current, Wired s current ∧ Serving s.out current

def PausedServed (s : Core) : Prop := NonePaused s ∨ s.out.st = .normal

structure Goes (s t : Core) : Prop where
  settled : Settled t
  served : PausedServed s → PausedServed t

theorem Goes.trans {s t u : Core} (first : Goes s t) (second : Goes t u) : Goes s u :=
  ⟨second.settled, fun served => second.served (first.served served)⟩

variable {s : Core} {file : File} {current : Option File}

theorem goes_refl (settled : Settled s) : Goes s s := ⟨settled, id⟩

theorem NonePaused.caps {s t : Core} (none : NonePaused s) (caps : t.caps = s.caps) : NonePaused t := by
  unfold NonePaused
  rw [caps]
  exact none

theorem SameStore.goes {s t : Core} (same : SameStore s t) (settled : Settled s) : Goes s t := by
  obtain ⟨current, wired, serving⟩ := settled
  refine ⟨⟨current, same.wired wired, ?_⟩, fun served => ?_⟩
  · rw [same.out]
    exact serving
  · rw [PausedServed, same.out]
    exact served.imp_left fun none => none.caps same.caps

theorem goes_onCap (settled : Settled s) {id : Nat} {change : Cap → Cap} (keeps : ∀ cap, anchored (change cap) = anchored cap)
    (up : ∀ cap, cap.st ≠ .stopped → (change cap).st ≠ .stopped) (on : ∀ cap, cap.st ≠ .paused → (change cap).st ≠ .paused) :
    Goes s (onCap s id change) := by
  obtain ⟨current, wired, serving⟩ := settled
  refine ⟨⟨current, wired_onCap wired keeps up, serving⟩, fun served => served.imp_left fun none cap there => ?_⟩
  rcases mem_modify there with old | ⟨old, member, _, rfl⟩
  · exact none cap old
  · exact on old (none old member)

theorem Goes.changed {s t : Core} (first : Goes s t) {id : Nat} {change : Cap → Cap} (keeps : ∀ cap, anchored (change cap) = anchored cap)
    (st : ∀ cap, (change cap).st = cap.st) : Goes s (onCap t id change) := by
  refine first.trans (goes_onCap first.settled keeps (fun cap up => ?_) fun cap on => ?_)
  · rw [st]
    exact up
  · rw [st]
    exact on

theorem stopped_serving {s t : Core} {current : Option File} (wired : Wired s current) (serving : Serving s.out current) {id : Nat} {cap : Cap}
    (found : cap? s id = some cap) (stopped : Stopped s id cap t) : Serving t.out (remaining id current) := by
  rw [stopped.out]
  by_cases halts : Halts s.out cap.list
  · obtain ⟨up, file, listed, flagged⟩ := halts
    have there : file ∈ held s := mem_held.mpr ⟨cap, (found_mem found).1, listed⟩
    have named : current = some file := (wired.marked file there).mp flagged
    have gone : remaining id current = none := by
      rw [named, remaining]
      simp [(list_of_held wired found there).mp listed]
    obtain ⟨waiting, -, same⟩ := dropped_halts _ _ ⟨up, file, listed, flagged⟩
    rw [gone, same]
    exact Serving.stopped rfl rfl
  · rw [dropped_goes _ _ halts (away_marked wired found)]
    cases serving with
    | process file st timer current =>
      have kept : remaining id (some file) = some file := by
        refine remaining_some.mpr ⟨rfl, fun same => halts ⟨fun halted => (by cases halted.symm.trans st), file, ?_, ?_⟩⟩
        · exact (list_of_held wired found (wired.apart file rfl).1).mpr same
        · exact (wired.marked file (wired.apart file rfl).1).mpr rfl
      rw [kept]
      exact Serving.process file st timer current
    | paused st timer empty =>
      refine Serving.paused st timer ?_
      rw [empty, List.nil_diff]
    | stopped st timer => exact Serving.stopped st timer

theorem goes_capStop (settled : Settled s) (id : Nat) : Goes s (capStop s id) := by
  obtain ⟨current, wired, serving⟩ := settled
  cases found : cap? s id with
  | none =>
    rw [capStop_absent found]
    exact ⟨⟨current, wired_same wired rfl wired.up wired.awake rfl rfl rfl, serving⟩, fun served => served⟩
  | some cap =>
    have up := wired.up cap (found_mem found).1
    have stopped := capStop_spec s id cap found up wired.awake
    exact ⟨⟨_, wired_stopped wired found stopped, stopped_serving wired serving found stopped⟩,
      fun _ => .inl (none_paused_stopped wired stopped)⟩

structure Finished (s t : Core) : Prop where
  wired : Wired t none
  awake : NonePaused t
  timer : t.out.timer = s.out.timer
  forks : t.forks = s.forks

theorem finished_spec (wired : Wired s (some file)) (st : Int) : Finished s (capFileUploadFinished s file st) := by
  obtain ⟨cap, found, listed⟩ := held_found wired (wired.apart file rfl).1
  have taken : ∀ errcode, Wired _ none := fun errcode => wired_taken wired found errcode
  have rest : ∀ errcode, (capFileTaken s file cap _).out = { s.out with flg := none } ∧ (capFileTaken s file cap _).forks = s.forks :=
    fun errcode => ⟨(same_taken s file cap errcode).out, (same_taken s file cap errcode).forks⟩
  have still : ∀ errcode, cap? _ _ = some _ := fun errcode => taken_found found errcode
  -- the owner is stopped from here on
  have ended : ∀ t : Core, Wired t none → t.out = { s.out with flg := none } → t.forks = s.forks → (∃ cap, cap? t file.inf = some cap) →
      Finished s (capStop t file.inf) := by
    rintro t wired out forks ⟨cap, found⟩
    have stopped := capStop_spec t _ cap found (wired.up cap (found_mem found).1) wired.awake
    have quiet : ¬ Halts t.out cap.list := by
      rintro ⟨_, other, _, flagged⟩
      rw [out] at flagged
      exact nomatch flagged
    have kept := stopped.out.trans (dropped_goes _ _ quiet (away_marked wired found))
    refine ⟨wired_stopped wired found stopped, none_paused_stopped wired stopped, ?_, stopped.forks.trans forks⟩
    rw [kept, out]
  unfold capFileUploadFinished
  rw [found]
  dsimp only
  split
  · refine ended _ ?_ (rest _).1 (rest _).2 ⟨_, changed_found (still _) fun _ => rfl⟩
    exact wired_onCap (taken _) (fun _ => rfl) fun _ up => up
  split
  · exact ended _ (taken 0) (rest 0).1 (rest 0).2 ⟨_, still 0⟩
  · have woke := continue_rest (capFileTaken s file cap 0)
    refine ⟨wired_continue (taken 0), none_paused_continue (taken 0), ?_, woke.forks.trans (rest 0).2⟩
    rw [woke.out, show ({ capFileTaken s file cap 0 with caps := (captureContinueCapturing _).caps } : Core).out =
        (capFileTaken s file cap 0).out from rfl, (rest 0).1]

theorem wired_take {rest : List File} (wired : Wired s none) (queue : s.out.listFiles = file :: rest) :
    Wired (outputTake s file rest) (some file) := by
  have there : file ∈ held s := wired.queued file (queue ▸ List.mem_cons_self)
  have once := wired.once
  rw [queue] at once
  obtain ⟨unqueued, distinct⟩ := List.nodup_cons.mp once
  refine ⟨wired.ids, wired.owner, wired.unique, wired.below, fun other queued => ?_, distinct, fun other held => ?_, fun other same => ?_,
    wired.up, wired.awake, fun id same => ?_⟩
  · exact wired.queued _ (queue ▸ List.mem_cons_of_mem _ queued)
  · constructor
    · intro same
      rw [file_unique wired there held (Option.some.inj same)]
    · intro same
      rw [Option.some.inj same]
      rfl
  · rw [← Option.some.inj same]
    exact ⟨there, unqueued⟩
  · rw [← Option.some.inj same]
    exact wired.below file there

theorem wired_failing (wired : Wired s (some file)) :
    Wired { s with out := { s.out with lasterr := errMemoryError, st := .reg } } (some file) :=
  wired_same wired rfl wired.up wired.awake rfl rfl rfl

theorem wired_polled (wired : Wired s (some file)) (code : Int) :
    Wired { touchFile s file with out := { s.out with lasterr := code, timer := false, st := .reg } } (some file) :=
  wired_same wired rfl wired.up wired.awake rfl rfl rfl

theorem forkFailed_spec (wired : Wired s (some file)) : Finished s (outputForkFailed s file) := by
  have finished := finished_spec (wired_failing wired) errMemoryError
  exact { finished with }

theorem goes_outputContinue (forks : List Bool) {s : Core} (wired : Wired s none) (timer : s.out.timer = false) :
    Settled (outputContinue forks s) ∧ ((NonePaused s ∨ s.out.listFiles ≠ []) → PausedServed (outputContinue forks s)) := by
  let keeps (t : Core) : Prop := Wired t none ∧ t.out.timer = false ∧ ((NonePaused s ∨ s.out.listFiles ≠ []) → NonePaused t ∨ t.out.listFiles ≠ [])
  let ends (t : Core) : Prop := Settled t ∧ ((NonePaused s ∨ s.out.listFiles ≠ []) → PausedServed t)
  refine continue_keeps keeps ends ?_ ?_ ?_ forks s ⟨wired, timer, id⟩
  · rintro t forks ⟨wired, timer, served⟩ empty
    refine ⟨⟨none, wired_same wired rfl wired.up wired.awake rfl rfl rfl, Serving.paused rfl timer empty⟩, fun start => ?_⟩
    exact .inl ((served start).resolve_right fun some => some empty)
  · rintro t file rest forks ⟨wired, _⟩ queue
    have taken := wired_take wired queue
    exact ⟨⟨some file, wired_same taken rfl taken.up taken.awake rfl rfl rfl, Serving.process file rfl rfl rfl⟩, fun _ => .inr rfl⟩
  · rintro t file rest ⟨wired, timer, _⟩ queue
    have failed := forkFailed_spec (wired_take wired queue)
    exact ⟨failed.wired, failed.timer.trans timer, fun _ => .inl failed.awake⟩

theorem outputNotify_eq (s : Core) (file : File) (code : Int) (curfl : s.out.curfl = some file) :
    outputNotify { s with out := { s.out with lasterr := code, timer := false } } =
      outputContinue (capFileUploadFinished { touchFile s file with out := { s.out with lasterr := code, timer := false, st := .reg } } file code).forks
        (capFileUploadFinished { touchFile s file with out := { s.out with lasterr := code, timer := false, st := .reg } } file code) := by
  unfold outputNotify
  rw [curfl]
  rfl

theorem goes_outTimeoutCb (settled : Settled s) (exited : Option Int) : Goes s (outTimeoutCb s exited) := by
  unfold outTimeoutCb
  split
  · exact goes_refl settled
  rename_i running
  cases exited with
  | none => exact goes_refl settled
  | some code =>
    obtain ⟨current, wired, serving⟩ := settled
    obtain ⟨file, rfl, _, curfl⟩ := serving.polls (by simpa using running)
    dsimp only
    rw [outputNotify_eq s file code curfl]
    have finished := finished_spec (wired_polled wired code) code
    obtain ⟨after, served⟩ := goes_outputContinue _ finished.wired finished.timer
    exact ⟨after, fun _ => served (.inl finished.awake)⟩

theorem wired_queued (wired : Wired s current) {file : File} (there : file ∈ held s)
    (unqueued : file ∉ s.out.listFiles) (other : current ≠ some file) :
    Wired { s with out := { s.out with listFiles := s.out.listFiles ++ [file] } } current := by
  refine ⟨wired.ids, wired.owner, wired.unique, wired.below, fun listed queued => ?_, ?_, wired.marked, fun listed same => ?_, wired.up, wired.awake,
    wired.past⟩
  · rcases List.mem_append.mp queued with old | new
    · exact wired.queued _ old
    · rw [List.mem_singleton.mp new]
      exact there
  · refine List.nodup_append.mpr ⟨wired.once, by simp, fun listed old added new equal => unqueued ?_⟩
    rw [← List.mem_singleton.mp new, ← equal]
    exact old
  · refine ⟨(wired.apart _ same).1, fun queued => ?_⟩
    rcases List.mem_append.mp queued with old | new
    · exact (wired.apart _ same).2 old
    · exact other (List.mem_singleton.mp new ▸ same)

theorem goes_outputUploadFile (wired : Wired s current) (serving : Serving s.out current) {file : File}
    (there : file ∈ held s) (unqueued : file ∉ s.out.listFiles) (other : current ≠ some file) : Goes s (outputUploadFile s file).1 := by
  have queued := wired_queued wired there unqueued other
  unfold outputUploadFile
  dsimp only
  split
  · rename_i idle
    obtain ⟨rfl, timer, _⟩ := serving.idle idle
    obtain ⟨settled, served⟩ := goes_outputContinue _ queued timer
    exact ⟨settled, fun _ => served (.inr (List.append_ne_nil_of_right_ne_nil _ (List.cons_ne_nil _ _)))⟩
  · rename_i busy
    refine ⟨⟨current, queued, ?_⟩, fun served => served⟩
    cases serving with
    | process file st timer curfl => exact Serving.process file st timer curfl
    | paused st _ _ => exact absurd st busy
    | stopped st timer => exact Serving.stopped st timer

theorem held_listed {id : Nat} {cap : Cap} (found : cap? s id = some cap) (file : File) :
    (held (onCap s id (fileListed file))).Perm (file :: held s) := by
  obtain ⟨before, after, shape, changed⟩ := modify_split id _ _ cap found
  have old : held s = before.flatMap Cap.list ++ (cap.list ++ after.flatMap Cap.list) := by
    rw [held, shape, List.flatMap_append, List.flatMap_cons]
  have new : held (onCap s id (fileListed file)) = before.flatMap Cap.list ++ ((cap.list ++ [file]) ++ after.flatMap Cap.list) := by
    show (modifyCap id _ _).flatMap _ = _
    rw [changed, List.flatMap_append, List.flatMap_cons]
    rfl
  rw [old, new, List.append_assoc, List.singleton_append]
  exact ((List.perm_middle.append_left _).trans List.perm_middle)

theorem wired_listed (wired : Wired s current) {id : Nat} {cap : Cap} (found : cap? s id = some cap)
    (size : Int) (log : List Entry) :
    Wired { onCap s id (fileListed ⟨s.written, id, size⟩) with written := s.written + 1, log := log } current := by
  have files := held_listed found ⟨s.written, id, size⟩
  have fresh : ∀ file ∈ held s, file.id ≠ s.written := fun file there => Nat.ne_of_lt (wired.below file there)
  refine ⟨?_, fun other there file listed => ?_, ?_, fun file there => ?_, fun file queued => ?_, wired.once, fun file there => ?_,
    fun file same => ?_, fun other there => ?_, fun some => wired.awake (modify_nil some), fun id same => Nat.lt_succ_of_lt (wired.past id same)⟩
  · show ((modifyCap id _ _).map _).Nodup
    rw [ids_modify]
    · exact wired.ids
    · exact fun _ => rfl
  · rcases mem_modify there with old | ⟨old, member, named, rfl⟩
    · exact wired.owner _ old file listed
    · rcases List.mem_append.mp listed with kept | new
      · exact wired.owner old member file kept
      · rw [List.mem_singleton.mp new]
        exact named.symm
  · refine (files.map _).nodup_iff.mpr (List.nodup_cons.mpr ⟨fun there => ?_, wired.unique⟩)
    obtain ⟨file, member, same⟩ := List.mem_map.mp there
    exact fresh file member same
  · rcases List.mem_cons.mp (files.mem_iff.mp there) with rfl | old
    · exact Nat.lt_succ_self _
    · exact Nat.lt_succ_of_lt (wired.below file old)
  · exact files.mem_iff.mpr (List.mem_cons_of_mem _ (wired.queued file queued))
  · rcases List.mem_cons.mp (files.mem_iff.mp there) with rfl | old
    · refine iff_of_false (fun same => Nat.lt_irrefl _ (wired.past _ same)) fun same => ?_
      exact fresh _ (wired.apart _ same).1 rfl
    · exact wired.marked file old
  · exact ⟨files.mem_iff.mpr (List.mem_cons_of_mem _ (wired.apart file same).1), (wired.apart file same).2⟩
  · rcases mem_modify there with old | ⟨old, member, _, rfl⟩
    · exact wired.up _ old
    · exact wired.up old member

theorem goes_dead (settled : Settled s) : Goes s { s with dead := true } := by
  obtain ⟨current, wired, serving⟩ := settled
  exact ⟨⟨current, wired_same wired rfl wired.up wired.awake rfl rfl rfl, serving⟩, fun served => served⟩

theorem Goes.after {s t u : Core} (second : Goes t u) (first : Goes s t) : Goes s u := first.trans second

theorem goes_closed (settled : Settled s) (id : Nat) : Goes s { onCap s id fileClosed with mallocs := s.mallocs.tail } := by
  have changed : Goes s (onCap s id fileClosed) := goes_onCap settled (fun _ => rfl) (fun _ up => up) fun _ on => on
  obtain ⟨current, wired, serving⟩ := changed.settled
  exact ⟨⟨current, wired_same wired rfl wired.up wired.awake rfl rfl rfl, serving⟩, changed.served⟩

theorem closed_found {id : Nat} {cap : Cap} (found : cap? s id = some cap) :
    cap? { onCap s id fileClosed with mallocs := s.mallocs.tail } id = some (fileClosed cap) := changed_found found fun _ => rfl

theorem wired_added (wired : Wired s current) {id : Nat} {cap : Cap} (found : cap? s id = some cap) (size : Int) :
    Wired (capFileAdded s id ⟨s.written, id, size⟩) current ∧ ⟨s.written, id, size⟩ ∈ held (capFileAdded s id ⟨s.written, id, size⟩) ∧
      (⟨s.written, id, size⟩ : File) ∉ s.out.listFiles ∧ current ≠ some ⟨s.written, id, size⟩ := by
  have changed : Wired { onCap s id fileClosed with mallocs := s.mallocs.tail } current := by
    have closed : Wired (onCap s id fileClosed) _ := wired_onCap wired (fun _ => rfl) fun _ up => up
    exact wired_same closed rfl closed.up closed.awake rfl rfl rfl
  have absent : (⟨s.written, id, size⟩ : File) ∉ held s := fun there => Nat.lt_irrefl _ (wired.below _ there)
  refine ⟨wired_listed changed (closed_found found) size _, ?_, fun queued => absent (wired.queued _ queued),
    fun same => absent (wired.apart _ same).1⟩
  exact (held_listed (closed_found found) _).mem_iff.mpr List.mem_cons_self

theorem goes_capFileFinished (settled : Settled s) (id : Nat) : Goes s (capFileFinished s id).1 := by
  unfold capFileFinished
  split
  · exact goes_dead settled
  rename_i cap found
  split
  · exact (goes_refl settled).changed (fun _ => rfl) fun _ => rfl
  split
  · exact (goes_closed settled id).changed (fun _ => rfl) fun _ => rfl
  obtain ⟨current, wired, serving⟩ := settled
  obtain ⟨added, there, unqueued, other⟩ := wired_added wired found _
  have uploaded := goes_outputUploadFile added serving there unqueued other
  refine uploaded.after ⟨⟨current, added, serving⟩, fun served => served.imp_left fun none other there => ?_⟩
  rcases mem_modify there with before | ⟨kept, before, _, rfl⟩
  · rcases mem_modify before with member | ⟨old, member, _, rfl⟩
    · exact none _ member
    · exact none old member
  · rcases mem_modify before with member | ⟨old, member, _, rfl⟩
    · exact none kept member
    · exact none old member

theorem goes_capStatusIntoUploading (settled : Settled s) (id : Nat) : Goes s (capStatusIntoUploading s id) := by
  have cancelled : Goes s (onCap s id fun cap => { cap with timer := false, evt := false }) :=
    (goes_refl settled).changed (fun _ => rfl) fun _ => rfl
  have finished := cancelled.trans (goes_capFileFinished cancelled.settled id)
  unfold capStatusIntoUploading
  dsimp only
  split
  · refine Goes.changed ?_ (fun _ => rfl) fun _ => rfl
    exact finished.trans (SameStore.goes ⟨rfl, rfl, rfl, rfl, rfl, rfl, rfl, rfl⟩ finished.settled)
  · exact finished.trans (goes_capStop finished.settled id)

theorem goes_change (settled : Settled s) (id : Nat) (st : Status) (on : st ≠ .stopped ∧ st ≠ .paused)
    (into : Nat → Core → Core) (each : ∀ t, Settled t → Goes t (into id t)) : Goes s (capChangeStatus s id st into) := by
  unfold capChangeStatus
  split
  · exact goes_dead settled
  split
  · exact goes_refl settled
  · have changed : Goes s (onCap s id fun cap => { cap with st := st }) :=
      goes_onCap settled (fun _ => rfl) (fun _ _ => on.1) fun _ _ => on.2
    exact changed.trans (each _ changed.settled)

theorem goes_capUploading (settled : Settled s) (id : Nat) : Goes s (capUploading s id) :=
  goes_change settled id .reg (by decide) _ fun _ settled => goes_capStatusIntoUploading settled id

theorem goes_touchCap (settled : Settled s) (id : Nat) : Goes s (touchCap s id) :=
  SameStore.goes ⟨rfl, rfl, rfl, rfl, rfl, rfl, rfl, rfl⟩ settled

theorem Goes.ends {s t : Core} (first : Goes s t) (id : Nat) : Goes s (endCapture t id) := by
  refine Goes.changed ?_ (fun _ => rfl) fun _ => rfl
  exact first.trans (goes_touchCap first.settled id)

theorem goes_capSpend (settled : Settled s) (id : Nat) (len : Int) : Goes s (capSpend s id len) := by
  have spent : Goes s { touchCap s id with memLeft := s.memLeft - len } := by
    obtain ⟨current, wired, serving⟩ := settled
    exact ⟨⟨current, wired_same wired rfl wired.up wired.awake rfl rfl rfl, serving⟩, fun served => served⟩
  unfold capSpend
  dsimp only
  split
  · exact spent.changed (fun _ => rfl) fun _ => rfl
  · exact spent

theorem Own.anchored {change : Cap → Cap} (own : Own change) (cap : Cap) : anchored (change cap) = Sniffer.anchored cap :=
  Prod.ext (own.ident cap) (own.list cap)

theorem goes_counted (settled : Settled s) (id : Nat) (fsize : Int) : Goes s (packetCounted s id fsize) := by
  have opened : Goes s (onCap s id fun cap => { cap with fp := true }) := (goes_refl settled).changed (fun _ => rfl) fun _ => rfl
  have sized : Goes s (onCap _ id fun cap => { cap with size := fsize }) := opened.changed (fun _ => rfl) fun _ => rfl
  exact sized.changed (fun _ => rfl) fun _ => rfl

theorem goes_capPackages (settled : Settled s) (id : Nat) (packet : Packet) : Goes s (capPackages s id packet) :=
  packages_keep s id packet (goes_refl settled) (fun _ => goes_dead settled) (fun _ _ own before => before.changed own.anchored own.st)
    (fun _ before => before.ends id) (fun _ len before => before.trans (goes_capSpend before.settled id len))
    fun _ _ counted => counted.trans (goes_capFileFinished counted.settled id)

theorem goes_packets (id : Nat) (packets : List Packet) {s : Core} (settled : Settled s) :
    Goes s (packets.foldl (fun s packet => capPackages s id packet) s) := by
  induction packets generalizing s with
  | nil => exact goes_refl settled
  | cons packet rest ih =>
    have first := goes_capPackages settled id packet
    exact first.trans (ih first.settled)

theorem goes_capTimeoutCb (settled : Settled s) (id : Nat) : Goes s (capTimeoutCb s id) := by
  unfold capTimeoutCb
  split
  · exact goes_refl settled
  split
  · exact goes_refl settled
  split
  · have fired : Goes s (onCap s id fun cap => { cap with timer := false, lasterr := 0 }) := (goes_refl settled).changed (fun _ => rfl) fun _ => rfl
    exact fired.trans (goes_capUploading fired.settled id)
  · exact (goes_refl settled).changed (fun _ => rfl) fun _ => rfl

theorem goes_stopAnswer (settled : Settled s) (answers : Option Nat) (req : Request) (errcode : Int) :
    Goes s (stopAnswer s answers req errcode) := (same_send s _).goes settled

theorem goes_captureHandleMsgStop (settled : Settled s) (req : Request) : Goes s (captureHandleMsgStop s req) := by
  unfold captureHandleMsgStop
  split
  · exact goes_stopAnswer settled none req _
  split
  · exact goes_stopAnswer settled none req 0
  split
  · exact goes_stopAnswer settled none req 0
  · exact goes_capUploading settled _

theorem goes_captureHandleMsgStopall (settled : Settled s) (req : Request) : Goes s (captureHandleMsgStopall s req) := by
  have all : ∀ (ids : List Nat) {s : Core}, Settled s → Goes s (ids.foldl (fun s id => capUploading s id) s) := by
    intro ids
    induction ids with
    | nil => exact goes_refl
    | cons id rest ih =>
      intro s settled
      have first := goes_capUploading settled id
      exact first.trans (ih first.settled)
  unfold captureHandleMsgStopall
  split
  · exact goes_stopAnswer settled none req 0
  · exact all _ settled

end Codec.Sniffer
