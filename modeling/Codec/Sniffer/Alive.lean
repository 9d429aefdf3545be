import Codec.Sniffer.Uploads

set_option autoImplicit false

namespace Codec.Sniffer

open List

def Rising (files : List File) : Prop := files.Pairwise fun one two => one.id < two.id

theorem rising_nodup {files : List File} (rising : Rising files) : files.Nodup := by
  refine Pairwise.imp ?_ rising
  intro one two less same
  rw [same] at less
  exact Nat.lt_irrefl _ less

structure Alive (s : Core) : Prop where
  alive : s.dead = false
  sess : s.sess = true
  queue : Rising s.out.listFiles
  lists : ∀ cap ∈ s.caps, Rising cap.list
  gone : ∀ link ∈ s.out.unlinked, link.1 ∉ held s ∧ link.1.id < s.written

variable (files : List File) {s : Core} {id : Nat} {change : Cap → Cap}

theorem live_held (owner : ∀ cap ∈ s.caps, ∀ file ∈ cap.list, file.inf = cap.id) {file : File} (there : file ∈ held s) :
    liveFile s file = true := by
  obtain ⟨cap, member, listed⟩ := mem_held.mp there
  refine any_eq_true.mpr ⟨cap, member, ?_⟩
  simp [owner cap member file _, listed]

theorem touchFile_alive (alive : s.dead = false) {file : File} (live : liveFile s file = true) : (touchFile s file).dead = false := by
  show (s.dead || !liveFile s file) = false
  rw [alive, live]
  rfl

theorem touchFiles_alive (alive : s.dead = false) (live : ∀ file ∈ files, liveFile s file = true) :
    (touchFiles s files).dead = false := by
  induction files generalizing s with
  | nil => exact alive
  | cons file rest ih =>
    exact ih (touchFile_alive alive (live file mem_cons_self)) fun other there => live _ (mem_cons_of_mem _ there)

theorem neighbours_mem (file : File) (queue : List File) : ∀ other ∈ neighbours file queue, other ∈ queue := by
  induction queue with
  | nil => exact fun other there => (nomatch there)
  | cons first rest ih =>
    cases rest with
    | nil => exact fun other there => (nomatch there)
    | cons second rest =>
      intro other there
      rw [neighbours] at there
      split at there
      · rw [mem_singleton.mp there]
        exact mem_cons_of_mem _ mem_cons_self
      split at there
      · rcases mem_cons.mp there with rfl | later
        · exact mem_cons_self
        · exact mem_cons_of_mem _ (mem_cons_of_mem _ (mem_of_mem_take later))
      · exact mem_cons_of_mem _ (ih _ there)

theorem links_mem (queue : List File) (rising : Rising queue) : ∀ link ∈ links queue, link.1 ∈ queue ∧
    ∀ next, link.2 = some next → next ∈ queue ∧ link.1.id < next.id := by
  induction queue with
  | nil => exact fun link there => (nomatch there)
  | cons file rest ih =>
    intro link there
    obtain ⟨first, later⟩ := pairwise_cons.mp rising
    rcases mem_cons.mp there with rfl | below
    · refine ⟨mem_cons_self, fun next same => ?_⟩
      have follows : next ∈ rest := mem_of_mem_head? (show next ∈ rest.head? from same)
      exact ⟨mem_cons_of_mem _ follows, first next follows⟩
    · obtain ⟨member, points⟩ := ih later link below
      exact ⟨mem_cons_of_mem _ member, fun next same => ⟨mem_cons_of_mem _ (points next same).1, (points next same).2⟩⟩

theorem modify_mem {caps : List Cap} {cap : Cap} (there : cap ∈ caps) :
    cap ∈ modifyCap id change caps ∨ change cap ∈ modifyCap id change caps := by
  induction caps with
  | nil => exact nomatch there
  | cons first rest ih =>
    rw [modifyCap]
    split
    · rcases mem_cons.mp there with rfl | below
      · exact .inr mem_cons_self
      · exact .inl (mem_cons_of_mem _ below)
    · rcases mem_cons.mp there with rfl | below
      · exact .inl mem_cons_self
      · exact (ih below).imp (mem_cons_of_mem _) (mem_cons_of_mem _)

structure Dropping (s : Core) (id : Nat) (files : List File) : Prop where
  alive : s.dead = false
  listed : ∃ cap, cap? s id = some cap ∧ cap.list = files
  owner : ∀ cap ∈ s.caps, ∀ file ∈ cap.list, file.inf = cap.id
  rising : Rising files
  queue : Rising s.out.listFiles
  queued : ∀ file ∈ s.out.listFiles, file ∈ held s
  away : ∀ file ∈ files, s.out.flg = some file.id → file ∉ s.out.listFiles
  stale : ∀ link ∈ s.out.unlinked, ∀ next, link.2 = some next → link.1 ∈ files → next ∈ held s ∧ link.1.id < next.id

theorem dropFile_alive {file : File} {rest : List File} (dropping : Dropping s id (file :: rest)) :
    (capDropFile s id file).dead = false := by
  obtain ⟨cap, found, list⟩ := dropping.listed
  have here : file ∈ held s := mem_held.mpr ⟨cap, (found_mem found).1, by rw [list]; exact mem_cons_self⟩
  have touched := touchFile_alive dropping.alive (live_held dropping.owner here)
  unfold capDropFile
  dsimp only
  split
  · unfold outputIntoStopped
    split
    · exact touched
    · exact touched
  · unfold outputRemove
    split
    · refine touchFiles_alive _ touched fun other there => ?_
      exact live_held dropping.owner (dropping.queued _ (neighbours_mem file _ _ there))
    · refine touchFiles_alive _ touched fun other there => ?_
      obtain ⟨link, member, same⟩ := mem_filterMap.mp there
      split at same
      · rename_i named
        exact live_held dropping.owner (dropping.stale link member _ same (named ▸ mem_cons_self)).1
      · exact nomatch same

theorem drop_step {file : File} {rest : List File} (dropping : Dropping s id (file :: rest)) :
    Dropping (capDropFile s id file) id rest := by
  have same := drop_same s id file
  obtain ⟨cap, found, list⟩ := dropping.listed
  obtain ⟨first, later⟩ := pairwise_cons.mp dropping.rising
  have out : (capDropFile s id file).out = dropOne _ file := same.out
  have kept : ∀ other ∈ held s, other ≠ file → other ∈ held (capDropFile s id file) := by
    intro other there apart
    obtain ⟨holder, member, listed⟩ := mem_held.mp there
    rw [mem_held, same.caps]
    have moved : holder ∈ modifyCap id _ _ ∨
        { holder with list := holder.list.erase file } ∈ modifyCap id (fun cap => { cap with list := cap.list.erase file }) _ := modify_mem member
    rcases moved with old | new
    · exact ⟨holder, old, listed⟩
    · exact ⟨_, new, (mem_erase_of_ne apart).mpr listed⟩
  have flg : (dropOne s.out file).flg = s.out.flg := by
    unfold dropOne
    split
    · split <;> rfl
    · rfl
  have fewer : (dropOne s.out file).listFiles.Sublist s.out.listFiles ∧ file ∉ (dropOne s.out file).listFiles := by
    unfold dropOne
    split
    · rename_i flagged
      split
      · exact ⟨Sublist.refl _, dropping.away file mem_cons_self flagged⟩
      · exact ⟨nil_sublist _, fun there => (nomatch there)⟩
    · exact ⟨erase_sublist, fun there => ((rising_nodup dropping.queue).mem_erase_iff.mp there).1 rfl⟩
  refine ⟨dropFile_alive dropping, ⟨{ cap with list := cap.list.erase file }, ?_, ?_⟩, fun holder member other listed => ?_, later, ?_, ?_, ?_, ?_⟩
  · rw [cap?, same.caps]
    exact changed_found found fun _ => rfl
  · rw [list, erase_cons_head]
  · rw [same.caps] at member
    rcases mem_modify member with old | ⟨old, before, _, rfl⟩
    · exact dropping.owner _ old _ listed
    · exact dropping.owner old before _ (mem_of_mem_erase listed)
  · rw [out]
    exact dropping.queue.sublist fewer.1
  · rw [out]
    intro other there
    exact kept _ (dropping.queued _ (fewer.1.subset there)) fun equal => fewer.2 (equal ▸ there)
  · rw [out, flg]
    exact fun other there flagged queued => dropping.away _ (mem_cons_of_mem _ there) flagged (fewer.1.subset queued)
  · rw [out]
    intro link there next points member
    have above : ∀ other : File, link.1.id < other.id → other ≠ file := by
      intro other less equal
      have order := first _ member
      rw [equal] at less
      exact Nat.lt_asymm less order
    have old : link ∈ s.out.unlinked → next ∈ held (capDropFile s id file) ∧ link.1.id < next.id := by
      intro before
      obtain ⟨live, less⟩ := dropping.stale link before next points (mem_cons_of_mem _ member)
      exact ⟨kept next live (above next less), less⟩
    unfold dropOne at there
    split at there
    · split at there
      · exact old there
      · rcases mem_append.mp there with before | new
        · exact old before
        · obtain ⟨queued, less⟩ := (links_mem _ dropping.queue link new).2 next points
          exact ⟨kept next (dropping.queued next queued) (above next less), less⟩
    · exact old there

theorem drops_alive (id : Nat) (files : List File) {s : Core} (dropping : Dropping s id files) :
    (files.foldl (fun s file => capDropFile s id file) s).dead = false := by
  induction files generalizing s with
  | nil => exact dropping.alive
  | cons file rest ih => exact ih (drop_step dropping)

theorem send_alive (alive : s.dead = false) (sess : s.sess = true) (entry : Entry) :
    (ctrlSendMsg s entry).dead = false ∧ (ctrlSendMsg s entry).sess = true := by
  unfold ctrlSendMsg
  split
  · exact ⟨alive, sess⟩
  · refine ⟨?_, sess⟩
    show (s.dead || !s.sess) = false
    rw [alive, sess]
    rfl

theorem apcfg_alive (alive : s.dead = false) (sess : s.sess = true) : (sendApcfg s).dead = false ∧ (sendApcfg s).sess = true := by
  unfold sendApcfg
  split
  · exact ⟨alive, sess⟩
  · refine ⟨?_, sess⟩
    show (s.dead || !s.sess) = false
    rw [alive, sess]
    rfl

theorem exit_alive (alive : s.dead = false) (sess : s.sess = true) (id : Nat) :
    (captureCapExit s id).dead = false ∧ (captureCapExit s id).sess = true := by
  unfold captureCapExit captureIntoPaused
  dsimp only
  split
  · split
    · exact ⟨alive, sess⟩
    · exact apcfg_alive alive sess
  · exact ⟨alive, sess⟩

theorem sends_alive (caps : List Cap) {s : Core} (alive : s.dead = false) (sess : s.sess = true) :
    (caps.foldl (fun s cap => ctrlSendMsg s (capturingEvent cap)) s).dead = false ∧
      (caps.foldl (fun s cap => ctrlSendMsg s (capturingEvent cap)) s).sess = true := by
  induction caps generalizing s with
  | nil => exact ⟨alive, sess⟩
  | cons cap rest ih =>
    obtain ⟨still, session⟩ := send_alive alive sess _
    exact ih still session

theorem continue_alive (alive : s.dead = false) (sess : s.sess = true) :
    (captureContinueCapturing s).dead = false ∧ (captureContinueCapturing s).sess = true := by
  rw [captureContinueCapturing]
  split
  · exact ⟨alive, sess⟩
  · exact sends_alive _ alive sess

theorem drop_sess (s : Core) (id : Nat) (file : File) : (capDropFile s id file).sess = s.sess := by
  have touched : ∀ (files : List File) (s : Core), (touchFiles s files).sess = s.sess := by
    intro files
    induction files with
    | nil => exact fun _ => rfl
    | cons file rest ih => exact fun s => ih _
  unfold capDropFile outputIntoStopped outputRemove
  dsimp only
  split
  · split <;> rfl
  · split
    · exact touched _ _
    · exact touched _ _

theorem drops_sess (id : Nat) (files : List File) (s : Core) : (files.foldl (fun s file => capDropFile s id file) s).sess = s.sess := by
  induction files generalizing s with
  | nil => rfl
  | cons file rest ih => exact (ih _).trans (drop_sess s id file)

theorem capStop_alive (sess : s.sess = true) {id : Nat} {cap : Cap} (found : cap? s id = some cap) (up : cap.st ≠ .stopped)
    (dropping : Dropping s id cap.list) : (capStop s id).dead = false ∧ (capStop s id).sess = true := by
  have marked : cap? (onCap s id fun cap => { cap with st := .stopped }) id = some _ := changed_found found fun _ => rfl
  have begun : Dropping (onCap (onCap s id fun cap => { cap with st := .stopped }) id fun cap => { cap with timer := false, evt := false, fp := false })
      id cap.list := by
    have merged : onCap (onCap s id fun cap => { cap with st := .stopped }) id (fun cap => { cap with timer := false, evt := false, fp := false }) =
        onCap s id fun cap => { cap with st := .stopped, timer := false, evt := false, fp := false } := onCap_twice s id _ _ fun _ => rfl
    have files : held (onCap s id fun cap => { cap with st := .stopped, timer := false, evt := false, fp := false }) = held s := by
      rw [held_anchored, held_anchored]
      refine congrArg _ (anchored_modify id _ ?_ _)
      exact fun _ => rfl
    rw [merged]
    refine ⟨dropping.alive, ⟨_, changed_found found fun _ => rfl, rfl⟩, fun holder member => ?_, dropping.rising, dropping.queue, ?_, dropping.away, ?_⟩
    · rcases mem_modify member with old | ⟨old, before, _, rfl⟩
      · exact dropping.owner _ old
      · exact dropping.owner old before
    · rw [files]
      exact dropping.queued
    · rw [files]
      exact dropping.stale
  unfold capStop capChangeStatus
  rw [found]
  dsimp only
  rw [if_neg up]
  unfold capStatusIntoStop
  rw [marked]
  have dropped := drops_alive id _ begun
  have kept : (cap.list.foldl _ (onCap (onCap s id fun cap => { cap with st := .stopped }) id
      fun cap => { cap with timer := false, evt := false, fp := false })).sess = true := (drops_sess id _ _).trans sess
  obtain ⟨told, session⟩ := send_alive dropped kept _
  obtain ⟨left, still⟩ := exit_alive told session id
  exact continue_alive left still

theorem Alive.fewer {s t : Core} (alive : Alive s) (dead : t.dead = false) (sess : t.sess = true) (queue : t.out.listFiles.Sublist s.out.listFiles)
    (lists : ∀ cap ∈ t.caps, ∃ old ∈ s.caps, cap.list.Sublist old.list) (unlinked : t.out.unlinked = s.out.unlinked)
    (written : t.written = s.written) : Alive t := by
  refine ⟨dead, sess, alive.queue.sublist queue, fun cap there => ?_, fun link there => ?_⟩
  · obtain ⟨old, member, sublist⟩ := lists cap there
    exact (alive.lists old member).sublist sublist
  · rw [unlinked] at there
    rw [written]
    refine ⟨fun still => (alive.gone link there).1 ?_, (alive.gone link there).2⟩
    obtain ⟨cap, member, listed⟩ := mem_held.mp still
    obtain ⟨old, before, sublist⟩ := lists cap member
    exact mem_held.mpr ⟨old, before, sublist.subset listed⟩

theorem Alive.frame {s t : Core} (alive : Alive s) (dead : t.dead = false) (sess : t.sess = true) (queue : t.out.listFiles = s.out.listFiles)
    (caps : t.caps = s.caps) (unlinked : t.out.unlinked = s.out.unlinked) (written : t.written = s.written) : Alive t :=
  alive.fewer dead sess (queue ▸ Sublist.refl _) (fun cap there => ⟨cap, caps ▸ there, Sublist.refl _⟩) unlinked written

theorem alive_onCap (alive : Alive s) (id : Nat) {change : Cap → Cap} (keeps : ∀ cap, (change cap).list = cap.list) :
    Alive (onCap s id change) := by
  refine alive.fewer alive.alive alive.sess (Sublist.refl _) (fun cap there => ?_) rfl rfl
  rcases mem_modify there with old | ⟨old, member, _, rfl⟩
  · exact ⟨cap, old, Sublist.refl _⟩
  · exact ⟨old, member, keeps old ▸ Sublist.refl _⟩

theorem alive_send (alive : Alive s) (entry : Entry) : Alive (ctrlSendMsg s entry) := by
  obtain ⟨dead, sess⟩ := send_alive alive.alive alive.sess _
  have same := same_send s entry
  refine alive.frame dead sess ?_ same.caps ?_ same.written
  · rw [same.out]
  · rw [same.out]

theorem woken_list (cap : Cap) : (woken cap).list = cap.list := congrArg Prod.snd (woken_anchored cap)

theorem alive_continue (alive : Alive s) : Alive (captureContinueCapturing s) := by
  obtain ⟨dead, sess⟩ := continue_alive alive.alive alive.sess
  have rest := continue_rest s
  refine alive.fewer dead sess ?_ (fun cap there => ?_) ?_ rest.written
  · rw [rest.out]
  · by_cases running : s.st = .normal
    · rw [continue_caps s running] at there
      obtain ⟨old, member, rfl⟩ := woken_mem there
      exact ⟨old, member, woken_list old ▸ Sublist.refl _⟩
    · rw [captureContinueCapturing, if_pos running] at there
      exact ⟨cap, there, Sublist.refl _⟩
  · rw [rest.out]

theorem dropping_begun (alive : Alive s) {current : Option File} (wired : Wired s current) {id : Nat} {cap : Cap}
    (found : cap? s id = some cap) : Dropping s id cap.list := by
  obtain ⟨member, _⟩ := found_mem found
  refine ⟨alive.alive, ⟨cap, found, rfl⟩, wired.owner, alive.lists cap member, alive.queue, wired.queued, away_marked wired found, ?_⟩
  intro link there next _ listed
  exact absurd (mem_held.mpr ⟨cap, member, listed⟩) (alive.gone link there).1

def Spares (s : Core) (cap : Cap) : Prop := Halts s.out cap.list → ∀ file ∈ s.out.listFiles, file.inf = cap.id

theorem alive_capStop (alive : Alive s) {current : Option File} (wired : Wired s current) {id : Nat} {cap : Cap}
    (found : cap? s id = some cap) (spares : Spares s cap) : Alive (capStop s id) := by
  obtain ⟨member, named⟩ := found_mem found
  have up := wired.up cap member
  have stopped := capStop_spec s id cap found up wired.awake
  obtain ⟨dead, sess⟩ := capStop_alive alive.sess found up (dropping_begun alive wired found)
  obtain ⟨_, queue, _⟩ := stopped_queue wired found stopped
  refine ⟨dead, sess, alive.queue.sublist queue, fun other there => ?_, fun link there => ?_⟩
  · rw [stopped.caps] at there
    obtain ⟨old, kept, rfl⟩ := woken_mem there
    rw [woken_list]
    exact alive.lists old ((removeCap_sublist id _).subset kept)
  · rw [stopped.out] at there
    rw [held_stopped wired stopped, stopped.written]
    by_cases halts : Halts s.out cap.list
    · obtain ⟨waiting, sublist, same⟩ := dropped_halts _ _ halts
      rw [same] at there
      rcases mem_append.mp there with old | new
      · exact ⟨fun still => (alive.gone link old).1 still.1, (alive.gone link old).2⟩
      · have queued := sublist.subset (links_mem _ (alive.queue.sublist sublist) link new).1
        refine ⟨fun still => still.2 ((spares halts _ queued).trans named), wired.below _ (wired.queued _ queued)⟩
    · rw [dropped_goes _ _ halts (away_marked wired found)] at there
      exact ⟨fun still => (alive.gone link there).1 still.1, (alive.gone link there).2⟩

theorem alive_taken (alive : Alive s) {file : File} (wired : Wired s (some file)) (cap : Cap) (errcode : Int) :
    Alive (capFileTaken s file cap errcode) := by
  have touched := touchFile_alive alive.alive (live_held wired.owner (wired.apart file rfl).1)
  have given : Alive { touchFile s file with out := { (touchFile s file).out with flg := none },
                                             memLeft := (touchFile s file).memLeft + file.filesize } :=
    alive.frame touched alive.sess rfl rfl rfl rfl
  have told := alive_send given (capEvent .uploading cap errcode)
  refine told.fewer told.alive told.sess (Sublist.refl _) (fun other there => ?_) rfl rfl
  rcases mem_modify there with old | ⟨old, member, _, rfl⟩
  · exact ⟨other, old, Sublist.refl _⟩
  · exact ⟨old, member, erase_sublist⟩

theorem alive_capFileUploadFinished (alive : Alive s) {file : File} (wired : Wired s (some file)) (code : Int) :
    Alive (capFileUploadFinished s file code) := by
  obtain ⟨cap, found, listed⟩ := held_found wired (wired.apart file rfl).1
  have spares : ∀ (t : Core) (other : Cap), t.out.flg = none → Spares t other := by
    rintro t other unflagged ⟨_, last, _, flagged⟩
    exact nomatch unflagged.symm.trans flagged
  unfold capFileUploadFinished
  rw [found]
  dsimp only
  split
  · have flg := congrArg Output.flg (same_taken s file cap errUploadFailed).out
    have noted : Alive (uploadFailed s file cap) := alive_onCap (alive_taken alive wired cap _) _ fun _ => rfl
    exact alive_capStop noted (failed_wired wired found) (failed_found found) (spares _ _ flg)
  have still := taken_found found 0
  have flg := congrArg Output.flg (same_taken s file cap 0).out
  have taken := alive_taken alive wired cap 0
  split
  · exact alive_capStop taken (wired_taken wired found 0) still (spares _ _ flg)
  · exact alive_continue taken

theorem alive_take (alive : Alive s) (wired : Wired s none) {file : File} {rest : List File} (queue : s.out.listFiles = file :: rest) :
    Alive (outputTake s file rest) := by
  have there := wired.queued file (queue ▸ mem_cons_self)
  refine alive.fewer (touchFile_alive alive.alive (live_held wired.owner there)) alive.sess ?_ (fun cap there => ⟨cap, there, Sublist.refl _⟩) rfl rfl
  rw [queue]
  exact sublist_cons_self file rest

theorem alive_outputContinue (forks : List Bool) {s : Core} (alive : Alive s) (wired : Wired s none) : Alive (outputContinue forks s) := by
  refine continue_keeps (fun t => Alive t ∧ Wired t none) Alive ?_ ?_ ?_ forks s ⟨alive, wired⟩
  · rintro t forks ⟨alive, _⟩ _
    exact alive.frame alive.alive alive.sess rfl rfl rfl rfl
  · rintro t file rest forks ⟨alive, wired⟩ queue
    have taken := alive_take alive wired queue
    exact taken.frame taken.alive taken.sess rfl rfl rfl rfl
  · rintro t file rest ⟨alive, wired⟩ queue
    have taken := alive_take alive wired queue
    have taking := wired_take wired queue
    have given : Alive { outputTake t file rest with out := { (outputTake t file rest).out with lasterr := errMemoryError, st := .reg } } :=
      taken.frame taken.alive taken.sess rfl rfl rfl rfl
    exact ⟨alive_capFileUploadFinished given (wired_failing taking) _, (forkFailed_spec taking).wired⟩

theorem alive_queued (alive : Alive s) {current : Option File} (wired : Wired s current) (id : Nat) (size : Int) :
    Alive { capFileAdded s id ⟨s.written, id, size⟩ with
      out := { (capFileAdded s id ⟨s.written, id, size⟩).out with listFiles := s.out.listFiles ++ [⟨s.written, id, size⟩] } } := by
  have rises : ∀ files : List File, Rising files → (∀ file ∈ files, file ∈ held s) → Rising (files ++ [(⟨s.written, id, size⟩ : File)]) := by
    intro files rising old
    refine pairwise_append.mpr ⟨rising, pairwise_singleton _ _, fun one there two new => ?_⟩
    rw [mem_singleton.mp new]
    exact wired.below one (old one there)
  have lists : ∀ cap ∈ (capFileAdded s id ⟨s.written, id, size⟩).caps, ∃ old ∈ s.caps, cap.list = old.list ∨ cap.list = old.list ++ [⟨s.written, id, size⟩] := by
    intro cap there
    rcases mem_modify there with before | ⟨kept, before, _, rfl⟩
    · rcases mem_modify before with member | ⟨old, member, _, rfl⟩
      · exact ⟨cap, member, .inl rfl⟩
      · exact ⟨old, member, .inl rfl⟩
    · rcases mem_modify before with member | ⟨old, member, _, rfl⟩
      · exact ⟨kept, member, .inr rfl⟩
      · exact ⟨old, member, .inr rfl⟩
  refine ⟨alive.alive, alive.sess, rises _ alive.queue wired.queued, fun cap there => ?_, fun link there => ?_⟩
  · obtain ⟨old, member, same | grown⟩ := lists cap there
    · rw [same]
      exact alive.lists old member
    · rw [grown]
      exact rises _ (alive.lists old member) fun file listed => mem_held.mpr ⟨old, member, listed⟩
  · obtain ⟨away, early⟩ := alive.gone link there
    refine ⟨fun still => ?_, Nat.lt_succ_of_lt early⟩
    obtain ⟨cap, member, listed⟩ := mem_held.mp still
    obtain ⟨old, before, same | grown⟩ := lists cap member
    · exact away (mem_held.mpr ⟨old, before, same ▸ listed⟩)
    · rw [grown] at listed
      rcases mem_append.mp listed with here | new
      · exact away (mem_held.mpr ⟨old, before, here⟩)
      · rw [mem_singleton.mp new] at early
        exact Nat.lt_irrefl _ early

theorem alive_capFileFinished (alive : Alive s) (settled : Settled s) {id : Nat} {cap : Cap} (found : cap? s id = some cap) :
    Alive (capFileFinished s id).1 := by
  unfold capFileFinished
  rw [found]
  dsimp only
  split
  · exact alive_onCap alive id fun _ => rfl
  split
  · have closed : Alive (onCap s id fileClosed) := alive_onCap alive id fun _ => rfl
    have spent : Alive { onCap s id _ with mallocs := s.mallocs.tail } := closed.frame closed.alive closed.sess rfl rfl rfl rfl
    exact alive_onCap spent id fun _ => rfl
  obtain ⟨current, wired, serving⟩ := settled
  obtain ⟨added, there, unqueued, other⟩ := wired_added wired found _
  have queued := alive_queued alive wired id cap.size
  have wiring := wired_queued added there unqueued other
  unfold outputUploadFile
  dsimp only
  split
  · rename_i idle
    obtain ⟨rfl, _, _⟩ := serving.idle idle
    exact alive_outputContinue _ queued wiring
  · exact queued

theorem finished_present (settled : Settled s) {id : Nat} {cap : Cap} (found : cap? s id = some cap)
    (able : cap.fp = true → s.mallocs.head? ≠ some false → ready s = true) :
    (∃ last, cap? (capFileFinished s id).1 id = some last) ∧ (ready s = true → ready (capFileFinished s id).1 = true) ∧
      ((capFileFinished s id).2 = false → (cap.fp = false ∨ s.mallocs.head? = some false) ∧ (capFileFinished s id).1.out = s.out ∧
        ∀ last, cap? (capFileFinished s id).1 id = some last → last.list = cap.list) := by
  by_cases shut : cap.fp = false
  · have marked : cap? (onCap s id fun cap => { cap with lasterr := 0 }) id = some _ := changed_found found fun _ => rfl
    rw [finished_shut found shut]
    exact ⟨⟨_, marked⟩, fun able => able, fun _ => ⟨.inl shut, rfl, fun last there => by rw [← Option.some.inj (marked.symm.trans there)]⟩⟩
  have opened : cap.fp = true := by simpa using shut
  by_cases short : s.mallocs.head? = some false
  · have marked : cap? (onCap _ id fun cap => { cap with lasterr := errMemoryError }) id =
        some _ := changed_found (closed_found found) fun _ => rfl
    rw [finished_short found opened short]
    exact ⟨⟨_, marked⟩, fun able => able, fun _ => ⟨.inr short, rfl, fun last there => by rw [← Option.some.inj (marked.symm.trans there)]; rfl⟩⟩
  have there : cap? s id = some _ := found
  obtain ⟨done, busy, files, still⟩ := rotates_done s settled id cap _ _ there opened short (able opened short)
  refine ⟨⟨_, still⟩, fun _ => ?_, fun failed => ?_⟩
  · simp [ready, busy]
  · cases done.symm.trans failed

def EndClear (s : Core) (cap : Cap) : Prop :=
  (cap.fp = true → s.mallocs.head? ≠ some false → ready s = true) ∧ ((cap.fp = false ∨ s.mallocs.head? = some false) → Spares s cap)

theorem alive_touchCap (alive : Alive s) {id : Nat} {cap : Cap} (found : cap? s id = some cap) : Alive (touchCap s id) := by
  refine alive.frame ?_ alive.sess rfl rfl rfl rfl
  show (s.dead || (cap? s id).isNone) = false
  rw [alive.alive, found]
  rfl

theorem alive_capUploading (alive : Alive s) (settled : Settled s) {id : Nat} {cap : Cap} (found : cap? s id = some cap)
    (clear : cap.st ≠ .reg → EndClear s cap) : Alive (capUploading s id) := by
  unfold capUploading capChangeStatus
  rw [found]
  dsimp only
  split
  · exact alive
  rename_i up
  obtain ⟨able, spares⟩ := clear up
  have marked := settled_ending settled id
  have still : cap? _ id = some (ending cap) := changed_found found fun _ => rfl
  have going : Alive (onCap s id ending) := alive_onCap alive id fun _ => rfl
  have finished := alive_capFileFinished going marked still
  obtain ⟨⟨last, there⟩, _, fails⟩ := finished_present marked still able
  obtain ⟨_, after, _⟩ := (goes_capFileFinished marked id).settled
  unfold capStatusIntoUploading
  rw [ending_twice]
  dsimp only
  split
  · exact alive_onCap (alive_touchCap finished there) id fun _ => rfl
  · rename_i failed
    obtain ⟨why, out, list⟩ := fails (by simpa using failed)
    refine alive_capStop finished after there ?_
    have owner : last.id = cap.id := (found_mem there).2.trans (found_mem found).2.symm
    unfold Spares
    rw [out, list last there, owner]
    exact spares why

structure Steady (s : Core) (id : Nat) : Prop where
  alive : Alive s
  able : ready s = true
  present : ∃ cap, cap? s id = some cap

theorem Steady.changed (steady : Steady s id) (keeps : ∀ cap, anchored (change cap) = anchored cap) :
    Steady (onCap s id change) id := by
  obtain ⟨cap, found⟩ := steady.present
  refine ⟨alive_onCap steady.alive id fun cap => congrArg Prod.snd (keeps cap), steady.able, change cap, ?_⟩
  exact changed_found found fun cap => congrArg Prod.fst (keeps cap)

theorem steady_endCapture (steady : Steady s id) : Steady (endCapture s id) id := by
  obtain ⟨cap, found⟩ := steady.present
  have touched : Steady _ id := ⟨alive_touchCap steady.alive found, steady.able, cap, found⟩
  exact touched.changed fun _ => rfl

theorem steady_capSpend (steady : Steady s id) (len : Int) : Steady (capSpend s id len) id := by
  obtain ⟨cap, found⟩ := steady.present
  have touched := alive_touchCap steady.alive found
  have spent : Steady { touchCap s id with memLeft := s.memLeft - len } id :=
    ⟨touched.frame touched.alive touched.sess rfl rfl rfl rfl, steady.able, cap, found⟩
  unfold capSpend
  dsimp only
  split
  · exact spent.changed fun _ => rfl
  · exact spent

theorem steady_capFileFinished (steady : Steady s id) (settled : Settled s) : Steady (capFileFinished s id).1 id := by
  obtain ⟨cap, found⟩ := steady.present
  obtain ⟨present, able, _⟩ := finished_present settled found fun _ _ => steady.able
  exact ⟨alive_capFileFinished steady.alive settled found, able steady.able, present⟩

theorem steady_capPackages (steady : Steady s id) (settled : Settled s) (packet : Packet) : Steady (capPackages s id packet) id :=
  packages_keep s id packet (P := fun t => Steady t id) steady (fun none => steady.present.elim fun _ found => nomatch none.symm.trans found)
    (fun _ _ own before => before.changed own.anchored) (fun _ before => steady_endCapture before)
    (fun _ len before => steady_capSpend before len) fun _ _ counted => steady_capFileFinished counted (goes_counted settled id _).settled

theorem steady_packets (packets : List Packet) {s : Core} {id : Nat} (steady : Steady s id) (settled : Settled s) :
    Steady (packets.foldl (fun s packet => capPackages s id packet) s) id := by
  induction packets generalizing s with
  | nil => exact steady
  | cons packet rest ih => exact ih (steady_capPackages steady settled _) (goes_capPackages settled id _).settled

def SparesOwn (s : Core) (id : Nat) : Prop := ∀ cap, cap? s id = some cap → Spares s cap

theorem SparesOwn.changed (spares : SparesOwn s id) (keeps : ∀ cap, anchored (change cap) = anchored cap) :
    SparesOwn (onCap s id change) id := by
  intro last there
  have ids : ∀ cap, (change cap).id = cap.id := fun cap => congrArg Prod.fst (keeps cap)
  obtain ⟨old, found, rfl⟩ := changed_back there ids
  unfold Spares
  rw [show (change old).list = old.list from congrArg Prod.snd (keeps old), ids]
  exact spares old found

theorem spares_endCapture (spares : SparesOwn s id) : SparesOwn (endCapture s id) id := by
  have touched : SparesOwn _ id := spares
  exact touched.changed fun _ => rfl

theorem spares_capSpend (spares : SparesOwn s id) (len : Int) : SparesOwn (capSpend s id len) id := by
  have spent : SparesOwn _ id := spares
  unfold capSpend
  dsimp only
  split
  · exact spent.changed fun _ => rfl
  · exact spent

theorem spares_capFileFinished (spares : SparesOwn s id) (settled : Settled s) {cap : Cap} (found : cap? s id = some cap)
    (able : ready s = true) : SparesOwn (capFileFinished s id).1 id := by
  obtain ⟨current, wired, serving⟩ := settled
  by_cases shut : cap.fp = false
  · rw [finished_shut found shut]
    exact spares.changed fun _ => rfl
  have opened : cap.fp = true := by simpa using shut
  by_cases short : s.mallocs.head? = some false
  · rw [finished_short found opened short]
    have closed : SparesOwn (onCap s id fileClosed) id := spares.changed fun _ => rfl
    have spent : SparesOwn _ id := closed
    exact spent.changed fun _ => rfl
  rw [finished_kept found opened short]
  by_cases idle : s.out.st = .paused
  · have first : s.forks.head? ≠ some false := by simpa [ready, idle] using able
    have empty : s.out.listFiles = [] := by exact (serving.idle idle).2.2
    rw [upload_started (capFileAdded s id _) _ idle empty first]
    exact fun last _ _ file there => by cases there
  · rw [upload_busy (capFileAdded s id _) _ idle]
    intro last there
    have listed : cap? _ id = some (fileListed ⟨s.written, id, cap.size⟩ _) := changed_found (closed_found found) fun _ => rfl
    rw [← Option.some.inj (listed.symm.trans there)]
    rintro ⟨up, file, member, flagged⟩ other queued
    have owned : cap.id = id := (found_mem found).2
    have old : Halts s.out cap.list := by
      refine ⟨up, file, ?_, flagged⟩
      rcases mem_append.mp member with old | new
      · exact old
      · rw [mem_singleton.mp new] at flagged
        exact absurd (wired.past _ flagged) (Nat.lt_irrefl _)
    rcases mem_append.mp queued with before | new
    · exact spares cap found old _ before
    · rw [mem_singleton.mp new]
      exact owned.symm

theorem spares_capPackages (spares : SparesOwn s id) (steady : Steady s id) (settled : Settled s) (packet : Packet) :
    SparesOwn (capPackages s id packet) id :=
  packages_keep s id packet (P := fun t => SparesOwn t id) spares (fun none => steady.present.elim fun _ found => nomatch none.symm.trans found)
    (fun _ _ own before => before.changed own.anchored) (fun _ before => spares_endCapture before)
    (fun _ len before => spares_capSpend before len)
    fun _ found counted => spares_capFileFinished counted (goes_counted settled id _).settled (grown_found found _) steady.able

theorem spares_packets (packets : List Packet) {s : Core} {id : Nat} (spares : SparesOwn s id) (steady : Steady s id) (settled : Settled s) :
    SparesOwn (packets.foldl (fun s packet => capPackages s id packet) s) id := by
  induction packets generalizing s with
  | nil => exact spares
  | cons packet rest ih =>
    exact ih (spares_capPackages spares steady settled _) (steady_capPackages steady settled _)
      (goes_capPackages settled id _).settled

end Codec.Sniffer
