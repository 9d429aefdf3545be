import Codec.Sniffer.Alive

set_option autoImplicit false

namespace Codec.Sniffer

open Codec.Lib List

variable {s : Core}

theorem alive_paused (alive : Alive s) {id : Nat} {cap : Cap} (found : cap? s id = some cap) :
    Alive (capChangeStatus s id .paused fun id s => capStatusIntoPaused s id) := by
  unfold capChangeStatus
  rw [found]
  dsimp only
  split
  · exact alive
  have marked : Alive (onCap s id fun cap => { cap with st := .paused }) := alive_onCap alive id fun _ => rfl
  have there : cap? (onCap s id fun cap => { cap with st := .paused }) id = some _ := changed_found found fun _ => rfl
  unfold capStatusIntoPaused
  rw [there]
  exact alive_onCap (alive_send marked _) id fun _ => rfl

def DispatchClear (s : Core) (id : Nat) (error : Bool) (arrived : List Packet) (failed : Bool) : Prop :=
  ∀ cap, cap? s id = some cap → cap.evt = true →
    if error = true ∨ cap.uploading = true then cap.st ≠ .reg → ready s = true ∧ EndClear s cap
    else cap.st = .normal → ready s = true ∧ ((EndsBare true failed true cap arrived = true ∨ ¬ AllocOk s) → Spares s cap)

theorem packets_skipped (packets : List Packet) {s : Core} {id : Nat} {cap : Cap} (found : cap? s id = some cap) (closing : cap.uploading = true) :
    packets.foldl (fun s packet => capPackages s id packet) s = s := by
  induction packets with
  | nil => rfl
  | cons packet rest ih =>
    have same : capPackages s id packet = s := by
      unfold capPackages
      rw [found]
      exact if_pos closing
    rw [foldl_cons, same]
    exact ih

def Final (s : Core) (id : Nat) (failed : Bool) : Prop :=
  ∀ last, cap? s id = some last → (last.uploading = true ∨ failed = true) → (last.fp = false ∨ s.mallocs.head? = some false) → Spares s last

theorem alive_capEvtCb (alive : Alive s) (settled : Settled s) (id : Nat) (error : Bool) (arrived : List Packet) (failed : Bool)
    (clear : DispatchClear s id error arrived failed) : Alive (capEvtCb s id error arrived failed) := by
  unfold capEvtCb
  split
  · exact alive
  rename_i cap found
  split
  · exact alive
  rename_i set
  have cleared := clear cap found (by simpa using set)
  split
  · rename_i wrong
    rw [if_pos (.inl wrong)] at cleared
    have goes : Goes s (onCap s id fun cap => { cap with lasterr := errPcapError }) := (goes_refl settled).changed (fun _ => rfl) fun _ => rfl
    have marked : Alive (onCap s id fun cap => { cap with lasterr := errPcapError }) := alive_onCap alive id fun _ => rfl
    have there : cap? (onCap s id fun cap => { cap with lasterr := errPcapError }) id = some _ :=
      changed_found found fun _ => rfl
    exact alive_capUploading marked goes.settled there fun up => (cleared up).2
  rename_i right
  split
  · exact alive
  rename_i capturing
  have running : cap.st = .normal := by simpa using capturing
  have able : ready s = true := by
    split at cleared
    · exact (cleared (by rw [running]; exact nofun)).1
    · exact (cleared running).1
  have steady : Steady s id := ⟨alive, able, cap, found⟩
  have reading := steady_packets arrived steady settled
  have goes := goes_packets id arrived settled
  have ends := ends_packets id arrived s
  have final : Final (arrived.foldl (fun s packet => capPackages s id packet) s) id failed := by
    by_cases live : cap.uploading = true
    · rw [if_pos (.inr live)] at cleared
      rw [packets_skipped _ found live]
      intro last there _ why
      rw [Option.some.inj (there.symm.trans found)] at why ⊢
      exact (cleared (by rw [running]; exact nofun)).2.2 why
    · rw [if_neg (by rintro (one | two); exacts [right one, live two])] at cleared
      obtain ⟨_, spared⟩ := cleared running
      by_cases own : Spares s cap
      · intro last there _ _
        exact spares_packets _ (fun other same => by rw [Option.some.inj (same.symm.trans found)]; exact own) steady settled last there
      · have alloc : AllocOk s := by
          by_contra short
          exact own (spared (.inr short))
        have closed : EndsBare (ready s) failed true cap arrived = false := by
          rw [able]
          exact Bool.eq_false_iff.mpr fun bare => own (spared (.inl bare))
        have there : cap? s id = some _ := found
        intro last final ended why
        have shut : last.fp = false := by
          rcases why with shut | short
          · exact shut
          · exact absurd short (ends.alloc alloc).head
        have none := dispatch_closes _ settled alloc there (by simpa using live) closed nofun last final ended shut
        rintro ⟨_, file, listed, _⟩
        rw [none] at listed
        exact nomatch listed
  extract_lets dispatched checked touched
  have checking : Steady checked id ∧ Goes s checked ∧ Final checked id false := by
    simp only [checked]
    split
    · rename_i failing
      have marked : Steady (onCap _ id fun cap => { cap with lasterr := errPcapError }) id := reading.changed fun _ => rfl
      refine ⟨steady_endCapture marked, Goes.ends ?_ id, fun last there _ why => ?_⟩
      · exact goes.changed (fun _ => rfl) fun _ => rfl
      · have ended : cap? _ id = some last := there
        obtain ⟨before, noted, rfl⟩ := changed_back ended fun _ => rfl
        have marking : cap? _ id = some _ := noted
        obtain ⟨old, early, rfl⟩ := changed_back marking fun _ => rfl
        exact final old early (.inr failing) why
    · exact ⟨reading, goes, fun last there ended why => final last there (.inl (ended.resolve_right nofun)) why⟩
  obtain ⟨checkedSteady, checkedGoes, checkedFinal⟩ := checking
  obtain ⟨last, there⟩ := checkedSteady.present
  have before : Alive _ := alive_touchCap checkedSteady.alive there
  have still : cap? touched id = some last := there
  rw [still]
  dsimp only
  split
  · rename_i ended
    exact alive_capUploading before (goes_touchCap checkedGoes.settled id).settled still fun _ =>
      ⟨fun _ _ => checkedSteady.able, checkedFinal last there (.inl ended)⟩
  split
  · exact alive_paused before still
  · exact before

theorem alive_capTimeoutCb (alive : Alive s) (settled : Settled s) (id : Nat)
    (clear : ∀ cap, cap? s id = some cap → cap.timer = true → cap.limitTimeuse ≤ 0 → cap.st ≠ .reg → EndClear s cap) : Alive (capTimeoutCb s id) := by
  unfold capTimeoutCb
  split
  · exact alive
  rename_i cap found
  split
  · exact alive
  rename_i set
  split
  · rename_i spent
    have fired : Alive (onCap s id fun cap => { cap with timer := false, lasterr := 0 }) := alive_onCap alive id fun _ => rfl
    have goes : Goes s (onCap s id fun cap => { cap with timer := false, lasterr := 0 }) := (goes_refl settled).changed (fun _ => rfl) fun _ => rfl
    have there : cap? (onCap s id fun cap => { cap with timer := false, lasterr := 0 }) id = some _ :=
      changed_found found fun _ => rfl
    exact alive_capUploading fired goes.settled there fun up => clear cap found (by simpa using set) spent up
  · exact alive_onCap alive id fun _ => rfl

theorem alive_captureHandleMsgStop (alive : Alive s) (settled : Settled s) (req : Request)
    (clear : requestError req = 0 → ∀ cap, captureGetCap s req.interface = some cap → cap.st ≠ .reg → EndClear s cap) :
    Alive (captureHandleMsgStop s req) := by
  obtain ⟨current, wired, serving⟩ := settled
  unfold captureHandleMsgStop
  split
  · exact alive_send alive _
  rename_i sound
  split
  · exact alive_send alive _
  split
  · exact alive_send alive _
  · rename_i cap named
    have member := mem_of_find?_eq_some named
    have present : (s.caps.find? fun other => other.id == cap.id).isSome := find?_isSome.mpr ⟨cap, member, by simp⟩
    obtain ⟨other, found⟩ := Option.isSome_iff_exists.mp present
    have same := found_unique wired (show cap? s _ = some _ from found) member rfl
    exact alive_capUploading alive ⟨current, wired, serving⟩ (show cap? s _ = some cap by rw [same]; exact same ▸ found)
      (clear (not_not.mp sound) cap named)

structure Ended (s : Core) (id : Nat) (t : Core) : Prop where
  caps : ∀ cap ∈ t.caps, cap.st = .reg ∨
    ∃ old ∈ s.caps, old.id = cap.id ∧ old.st ≠ .reg ∧ cap.fp = old.fp ∧ cap.list = old.list ∧ old.id ≠ id
  present : ∀ cap ∈ s.caps, cap.id ≠ id → cap.id ∈ t.caps.map Cap.id
  halts : ∀ cap ∈ s.caps, cap.id ≠ id → Halts t.out cap.list → Halts s.out cap.list
  queue : ∀ file ∈ t.out.listFiles, file ∈ s.out.listFiles ∨ ∃ cap ∈ s.caps, cap.id = id ∧ cap.st ≠ .reg ∧ cap.fp = true
  ready : ready s = true → ready t = true
  alloc : AllocOk s → AllocOk t

theorem modify_other {id : Nat} {change : Cap → Cap} {caps : List Cap} {cap : Cap} (there : cap ∈ caps) (other : cap.id ≠ id) :
    cap ∈ modifyCap id change caps := by
  induction caps with
  | nil => exact nomatch there
  | cons first rest ih =>
    rw [modifyCap]
    split
    · rename_i here
      rcases mem_cons.mp there with rfl | below
      · exact absurd here other
      · exact mem_cons_of_mem _ below
    · rcases mem_cons.mp there with rfl | below
      · exact mem_cons_self
      · exact mem_cons_of_mem _ (ih below)

theorem modify_strict {id : Nat} {change : Cap → Cap} {caps : List Cap} (ids : (caps.map Cap.id).Nodup) {cap : Cap}
    (there : cap ∈ modifyCap id change caps) : (cap ∈ caps ∧ cap.id ≠ id) ∨ ∃ old ∈ caps, cap = change old := by
  induction caps with
  | nil => exact nomatch there
  | cons first rest ih =>
    obtain ⟨fresh, others⟩ := nodup_cons.mp ids
    rw [modifyCap] at there
    split at there
    · rename_i here
      rcases mem_cons.mp there with rfl | below
      · exact .inr ⟨first, mem_cons_self, rfl⟩
      · refine .inl ⟨mem_cons_of_mem _ below, fun same => fresh ?_⟩
        rw [here, ← same]
        exact mem_map_of_mem below
    · rename_i other
      rcases mem_cons.mp there with rfl | below
      · exact .inl ⟨mem_cons_self, other⟩
      · rcases ih others below with ⟨old, apart⟩ | ⟨old, member, same⟩
        · exact .inl ⟨mem_cons_of_mem _ old, apart⟩
        · exact .inr ⟨old, mem_cons_of_mem _ member, same⟩

theorem unchanged_ended {current : Option File} (wired : Wired s current) {id : Nat} {cap : Cap} (found : cap? s id = some cap)
    (ending : cap.st = .reg) : Ended s id s := by
  refine ⟨fun other there => ?_, fun _ there _ => mem_map_of_mem there, fun _ _ _ => fun halts => halts, fun _ there => .inl there,
    fun able => able, fun alloc => alloc⟩
  by_cases shut : other.st = .reg
  · exact .inl shut
  · refine .inr ⟨other, there, rfl, shut, rfl, rfl, fun same => shut ?_⟩
    rw [found_unique wired found there same]
    exact ending

theorem woken_reg (cap : Cap) : (woken cap).st ≠ .reg → cap.st ≠ .reg := by
  unfold woken
  split
  · rename_i paused
    intro _
    rw [paused]
    exact nofun
  · exact fun up => up

theorem stopped_ended {s t : Core} {current : Option File} (wired : Wired t current) {id : Nat} {change : Cap → Cap}
    (caps : t.caps = modifyCap id change s.caps) (ids : ∀ cap, (change cap).id = cap.id) (out : t.out = s.out) (forks : t.forks = s.forks) (mallocs : ∀ ok ∈ t.mallocs, ok ∈ s.mallocs)
    {cap : Cap} (found : cap? t id = some cap) : Ended s id (capStop t id) := by
  have stopped := capStop_spec t id cap found (wired.up cap (found_mem found).1) wired.awake
  have ends := ends_capStop t id
  refine ⟨fun other there => ?_, fun other there apart => ?_, fun other _ _ halts => ?_, fun file there => ?_, fun able => ?_,
    fun alloc => ends.alloc fun ok member => alloc ok (mallocs ok member)⟩
  · rw [stopped.caps] at there
    obtain ⟨old, kept, rfl⟩ := woken_mem there
    obtain ⟨member, apart⟩ := (mem_removeCap wired.ids old).mp kept
    rw [caps] at member
    have before : old ∈ s.caps := by
      rcases mem_modify member with here | ⟨former, _, named, rfl⟩
      · exact here
      · exact absurd ((ids _).trans named) apart
    by_cases shut : (woken old).st = .reg
    · exact .inl shut
    · exact .inr ⟨old, before, (congrArg Prod.fst (woken_anchored old)).symm, woken_reg old shut, woken_fp old, woken_list old, apart⟩
  · have member : other ∈ removeCap id _ := (mem_removeCap wired.ids _).mpr ⟨caps ▸ modify_other there apart, apart⟩
    rw [stopped.caps]
    refine mem_map.mpr ⟨woken _, mem_map_of_mem member, ?_⟩
    exact congrArg Prod.fst (woken_anchored _)
  · rw [stopped.out] at halts
    by_cases halted : Halts t.out cap.list
    · obtain ⟨waiting, -, same⟩ := dropped_halts _ _ halted
      exact absurd (congrArg Output.st same) halts.1
    · rw [dropped_goes _ _ halted (away_marked wired found)] at halts
      rw [← out]
      exact halts
  · have sublist := (stopped_queue wired found stopped).2.1
    rw [out] at sublist
    exact .inl (sublist.subset there)
  · have same : ready t = true := by
      rw [ready, out, forks]
      exact able
    unfold ready at same ⊢
    rw [stopped.forks, stopped.out]
    by_cases halted : Halts t.out cap.list
    · obtain ⟨waiting, -, same⟩ := dropped_halts _ _ halted
      rw [same]
      rfl
    · rw [dropped_goes _ _ halted (away_marked wired found)]
      exact same

theorem closed_ended {current : Option File} (wired : Wired s current) {id : Nat} {cap : Cap}
    (found : cap? s id = some cap) (up : cap.st ≠ .reg) (opened : cap.fp = true) {change : Cap → Cap} {t : Core}
    (caps : t.caps = modifyCap id change s.caps) (reg : ∀ cap, (change cap).st = .reg) {file : File} (new : file.id = s.written)
    (mallocs : ∀ ok ∈ t.mallocs, ok ∈ s.mallocs)
    (out : (s.out.st ≠ .paused ∧ t.out = { s.out with listFiles := s.out.listFiles ++ [file] }) ∨
      (t.out.st = .normal ∧ t.out.listFiles = [] ∧ t.out.flg = some file.id)) : Ended s id t := by
  refine ⟨fun other there => ?_, fun other there apart => ?_, fun other there apart halts => ?_, fun waiting there => ?_, fun _ => ?_,
    fun alloc ok member => alloc ok (mallocs ok member)⟩
  · rw [caps] at there
    rcases modify_strict wired.ids there with ⟨old, apart⟩ | ⟨old, _, rfl⟩
    · by_cases shut : other.st = .reg
      · exact .inl shut
      · exact .inr ⟨other, old, rfl, shut, rfl, rfl, apart⟩
    · exact .inl (reg old)
  · rw [caps]
    exact mem_map_of_mem (modify_other there apart)
  · rcases out with ⟨_, same⟩ | ⟨_, _, flg⟩
    · rw [same] at halts
      exact halts
    · obtain ⟨_, last, listed, flagged⟩ := halts
      have equal : file.id = last.id := Option.some.inj (flg.symm.trans flagged)
      have early := wired.below last (mem_held.mpr ⟨other, there, listed⟩)
      rw [← equal, new] at early
      exact absurd early (Nat.lt_irrefl _)
  · rcases out with ⟨_, same⟩ | ⟨_, empty, _⟩
    · rw [same] at there
      rcases mem_append.mp there with old | _
      · exact .inl old
      · exact .inr ⟨cap, (found_mem found).1, (found_mem found).2, up, opened⟩
    · rw [empty] at there
      exact nomatch there
  · rcases out with ⟨busy, same⟩ | ⟨process, _, _⟩
    · simp [ready, same, busy]
    · simp [ready, process]

theorem ended_capUploading (settled : Settled s) {id : Nat} {cap : Cap} (found : cap? s id = some cap)
    (able : cap.st ≠ .reg → cap.fp = true → ready s = true) : Ended s id (capUploading s id) := by
  obtain ⟨current, wired, serving⟩ := settled
  unfold capUploading capChangeStatus
  rw [found]
  dsimp only
  split
  · rename_i shut
    exact unchanged_ended wired found shut
  rename_i up
  have marked := settled_ending ⟨current, wired, serving⟩ id
  have still : cap? _ id = some (ending cap) := changed_found found fun _ => rfl
  obtain ⟨_, after, _⟩ := (goes_capFileFinished marked id).settled
  unfold capStatusIntoUploading
  rw [ending_twice]
  dsimp only
  by_cases closed : cap.fp = false
  · rw [finished_shut still closed] at after ⊢
    rw [if_neg Bool.false_ne_true]
    have last : cap? (onCap _ id fun cap => { cap with lasterr := 0 }) id = some _ := changed_found still fun _ => rfl
    have shape : (onCap (onCap s id _) id fun cap => { cap with lasterr := 0 }).caps = modifyCap id _ _ :=
      modify_twice id ending _ (fun _ => rfl) _
    exact stopped_ended after shape (fun _ => rfl) rfl rfl (fun ok there => there) last
  have opened : cap.fp = true := by simpa using closed
  by_cases short : (onCap s id ending).mallocs.head? = some false
  · rw [finished_short still opened short] at after ⊢
    rw [if_neg Bool.false_ne_true]
    have last : cap? (onCap _ id
        fun cap => { cap with lasterr := errMemoryError }) id = some _ :=
      changed_found (closed_found still) fun _ => rfl
    have shape : (onCap { onCap (onCap s id ending) id fileClosed with mallocs := (onCap s id ending).mallocs.tail } id
        fun cap => { cap with lasterr := errMemoryError }).caps = modifyCap id (fun cap => { fileClosed (ending cap) with lasterr := errMemoryError }) s.caps := by
      show modifyCap id _ (modifyCap id _ (modifyCap id _ _)) = _
      rw [modify_twice id ending _ fun _ => rfl]
      exact modify_twice id (fun cap => fileClosed (ending cap)) _ (fun _ => rfl) _
    exact stopped_ended after shape (fun _ => rfl) rfl rfl (fun ok there => mem_of_mem_tail there) last
  rw [finished_kept still opened short]
  have shape : ∀ file : File, modifyCap id (fun cap => { cap with lasterr := 0 }) (modifyCap id (fileListed file) (modifyCap id fileClosed
      (modifyCap id ending s.caps))) = modifyCap id (fun cap => { fileListed file (fileClosed (ending cap)) with lasterr := 0 }) s.caps := by
    intro file
    rw [modify_twice id ending _ fun _ => rfl]
    rw [modify_twice id (fun cap => fileClosed (ending cap)) _ fun _ => rfl]
    exact modify_twice id (fun cap => fileListed file (fileClosed (ending cap))) _ (fun _ => rfl) _
  have tail : ∀ ok ∈ s.mallocs.tail, ok ∈ s.mallocs := fun ok there => mem_of_mem_tail there
  by_cases idle : s.out.st = .paused
  · have first : s.forks.head? ≠ some false := by simpa [ready, idle] using able up opened
    have empty : s.out.listFiles = [] := by exact (serving.idle idle).2.2
    rw [upload_started (capFileAdded (onCap s id ending) id _) _ idle empty first]
    rw [if_pos rfl]
    have new : (⟨s.written, id, (ending cap).size⟩ : File).id = s.written := rfl
    exact closed_ended wired found up opened (shape _) (fun _ => rfl) new tail (.inr ⟨rfl, rfl, rfl⟩)
  · rw [upload_busy (capFileAdded (onCap s id ending) id _) _ idle]
    rw [if_pos rfl]
    have new : (⟨s.written, id, (ending cap).size⟩ : File).id = s.written := rfl
    exact closed_ended wired found up opened (shape _) (fun _ => rfl) new tail (.inl ⟨idle, rfl⟩)

def AllClear (s : Core) : Prop := ∀ cap ∈ s.caps, cap.st ≠ .reg → (cap.fp = true → ready s = true) ∧
  ((cap.fp = false ∨ ¬ AllocOk s) → Halts s.out cap.list →
    (∀ file ∈ s.out.listFiles, file.inf = cap.id) ∧ ∀ other ∈ s.caps, other.id ≠ cap.id → other.st ≠ .reg → other.fp = false)

theorem clear_ended {s t : Core} {id : Nat} (ended : Ended s id t) (clear : AllClear s) : AllClear t := by
  intro cap there up
  rcases ended.caps cap there with shut | ⟨old, before, named, going, fp, list, apart⟩
  · exact absurd shut up
  obtain ⟨able, spares⟩ := clear old before going
  refine ⟨fun opened => ended.ready (able (fp ▸ opened)), fun why halts => ?_⟩
  have reason : old.fp = false ∨ ¬ AllocOk s := why.imp (fun shut => fp ▸ shut) fun short alloc => short (ended.alloc alloc)
  obtain ⟨own, others⟩ := spares reason (ended.halts old before apart (list ▸ halts))
  refine ⟨fun file queued => ?_, fun other member different unshut => ?_⟩
  · rcases ended.queue file queued with early | ⟨closer, listed, here, running, opened⟩
    · exact (own file early).trans named
    · exact nomatch opened.symm.trans (others _ listed (fun same => apart (same.symm.trans here)) running)
  · rcases ended.caps _ member with shut | ⟨former, listed, same, running, otherFp, _, _⟩
    · exact absurd shut unshut
    · rw [otherFp]
      exact others _ listed (fun equal => different (same.symm.trans (equal.trans named))) running

theorem clear_end (clear : AllClear s) {cap : Cap} (there : cap ∈ s.caps) (up : cap.st ≠ .reg) : EndClear s cap := by
  obtain ⟨able, spares⟩ := clear cap there up
  refine ⟨fun opened _ => able opened, fun why halts => (spares (why.imp_right fun short alloc => ?_) halts).1⟩
  exact nomatch (alloc false (mem_of_mem_head? (by rw [short]; rfl)))

theorem alive_all (ids : List Nat) {s : Core} (alive : Alive s) (settled : Settled s) (clear : AllClear s) (once : ids.Nodup)
    (present : ∀ id ∈ ids, id ∈ s.caps.map Cap.id) : Alive (ids.foldl (fun s id => capUploading s id) s) := by
  induction ids generalizing s with
  | nil => exact alive
  | cons id rest ih =>
    obtain ⟨current, wired, serving⟩ := settled
    obtain ⟨cap, member, named⟩ := mem_map.mp (present id mem_cons_self)
    have found : cap? s id = some cap := by
      have some : (s.caps.find? fun other => other.id == id).isSome := find?_isSome.mpr ⟨cap, member, by simp [named]⟩
      obtain ⟨other, found⟩ := Option.isSome_iff_exists.mp some
      rw [found_unique wired (show cap? s id = Option.some _ from found) member named]
      exact found
    obtain ⟨fresh, later⟩ := nodup_cons.mp once
    have first := alive_capUploading alive ⟨current, wired, serving⟩ found fun up => clear_end clear member up
    have ended := ended_capUploading ⟨current, wired, serving⟩ found fun up opened => (clear cap member up).1 opened
    refine ih first (goes_capUploading ⟨current, wired, serving⟩ id).settled (clear_ended ended clear) later fun other there => ?_
    obtain ⟨holder, listed, same⟩ := mem_map.mp (present _ (mem_cons_of_mem _ there))
    rw [← same]
    exact ended.present _ listed fun equal => fresh (by rw [← equal, same]; exact there)

theorem alive_captureHandleMsgStopall (alive : Alive s) (settled : Settled s) (req : Request) (clear : AllClear s) :
    Alive (captureHandleMsgStopall s req) := by
  obtain ⟨current, wired, serving⟩ := settled
  unfold captureHandleMsgStopall
  split
  · exact alive_send alive _
  · exact alive_all _ alive ⟨current, wired, serving⟩ clear wired.ids fun _ there => there

theorem alive_outTimeoutCb (alive : Alive s) (settled : Settled s) (exited : Option Int) : Alive (outTimeoutCb s exited) := by
  unfold outTimeoutCb
  split
  · exact alive
  rename_i running
  cases exited with
  | none => exact alive
  | some code =>
    have polling : s.out.timer = true := by simpa using running
    obtain ⟨current, wired, serving⟩ := settled
    obtain ⟨file, rfl, _, curfl⟩ := serving.polls polling
    have polled := wired_polled wired code
    have touched := touchFile_alive alive.alive (live_held wired.owner (wired.apart file rfl).1)
    have noted : Alive { touchFile s file with out := { s.out with lasterr := code, timer := false, st := .reg } } :=
      alive.frame touched alive.sess rfl rfl rfl rfl
    dsimp only
    rw [outputNotify_eq s file code curfl]
    exact alive_outputContinue _ (alive_capFileUploadFinished noted polled code) (finished_spec polled code).wired

theorem alive_capStatusIntoStart (alive : Alive s) (settled : Settled s) (id : Nat) (req : Request) {cap : Cap}
    (found : cap? s id = some cap) (empty : cap.list = []) : Alive (capStatusIntoStart s id req) := by
  have refused : ∀ lasterr : Int, Alive (capStop (onCap s id fun cap => { cap with lasterr := lasterr }) id) := by
    intro lasterr
    have marked : Alive (onCap s id fun cap => { cap with lasterr := lasterr }) := alive_onCap alive id fun _ => rfl
    have goes : Goes s (onCap s id fun cap => { cap with lasterr := lasterr }) := (goes_refl settled).changed (fun _ => rfl) fun _ => rfl
    obtain ⟨_, wired, _⟩ := goes.settled
    have there : cap? (onCap s id fun cap => { cap with lasterr := lasterr }) id = some _ := changed_found found fun _ => rfl
    refine alive_capStop marked wired there ?_
    rintro ⟨_, file, listed, _⟩
    rw [show ({ cap with lasterr := lasterr } : Cap).list = cap.list from rfl, empty] at listed
    exact nomatch listed
  unfold capStatusIntoStart
  split
  · exact refused _
  split
  · exact refused _
  · have timed : Alive (onCap s id fun cap => if cap.limitTimeuse > 0 then capTimeoutSet cap else cap) :=
      alive_onCap alive id fun cap => by split <;> rfl
    obtain ⟨started, there⟩ : ∃ started, cap? (onCap s id fun cap => if cap.limitTimeuse > 0 then capTimeoutSet cap else cap) id = some started :=
      ⟨_, changed_found found fun cap => by split <;> rfl⟩
    unfold capChangeStatus
    dsimp only
    rw [there]
    dsimp only
    split
    · exact timed
    have marked : Alive (onCap _ id fun cap => { cap with st := .normal }) := alive_onCap timed id fun _ => rfl
    have still : cap? (onCap _ id fun cap => { cap with st := .normal }) id =
        some _ := changed_found there fun _ => rfl
    unfold capStatusIntoCapturing
    rw [still]
    exact alive_onCap (alive_send marked _) id fun _ => rfl

theorem alive_captureStartCapturing (alive : Alive s) (settled : Settled s) (id : Nat) (req : Request) (fresh : ∀ cap ∈ s.caps, cap.id ≠ id)
    (running : s.st = .normal) : Alive (captureStartCapturing s id req) := by
  have absent : id ∉ s.caps.map Cap.id := by
    intro there
    obtain ⟨cap, member, same⟩ := mem_map.mp there
    exact fresh cap member same
  have found : cap? { s with caps := s.caps ++ [newCap s id req] } id = some _ := listed_found s id req absent
  unfold captureStartCapturing
  dsimp only
  rw [removeCap_listed s id req absent]
  split
  · exact alive_send alive _
  · have listing : Alive { s with caps := s.caps ++ [newCap s id req] } := by
      refine ⟨alive.alive, alive.sess, alive.queue, fun cap there => ?_, fun link there => ?_⟩
      · rcases mem_append.mp there with old | new
        · exact alive.lists cap old
        · rw [mem_singleton.mp new]
          exact Pairwise.nil
      · refine ⟨fun still => (alive.gone link there).1 ?_, (alive.gone link there).2⟩
        have files : held { s with caps := s.caps ++ [newCap s id req] } = held s := by
          rw [held, flatMap_append]
          exact append_nil _
        rw [files] at still
        exact still
    unfold capChangeStatus
    rw [found]
    dsimp only
    rw [if_neg (show ¬ (newCap s id req).st = .start from (by rintro ⟨⟩))]
    have added := goes_added settled id req fresh running
    have marked : Alive (onCap _ id fun cap => { cap with st := .start }) := alive_onCap listing id fun _ => rfl
    have begun : cap? (onCap _ id fun cap => { cap with st := .start }) id =
        some _ := changed_found found fun _ => rfl
    exact alive_capStatusIntoStart marked added.settled id req begun rfl

theorem alive_apcfg (alive : Alive s) : Alive (sendApcfg s) := by
  obtain ⟨dead, sess⟩ := apcfg_alive alive.alive alive.sess
  have same := same_apcfg s
  refine alive.frame dead sess ?_ same.caps ?_ same.written
  · rw [same.out]
  · rw [same.out]

theorem alive_captureHandleMsgStart (tidy : Tidy s) (alive : Alive s) (req : Request) : Alive (captureHandleMsgStart s req) := by
  have fresh : ∀ cap ∈ s.caps, cap.id ≠ s.started := fun cap there => Nat.ne_of_lt (tidy.numbered cap there)
  have kept : ∀ t : Core, t.dead = s.dead → t.sess = s.sess → t.out = s.out → t.caps = s.caps → t.written = s.written → Alive t := by
    intro t dead sess out caps written
    refine alive.frame (dead.trans alive.alive) (sess.trans alive.sess) ?_ caps ?_ written
    · rw [out]
    · rw [out]
  have next : Alive (noted s) := kept _ rfl rfl rfl rfl rfl
  have turns (st : Status) : Alive (turned s req st) := by
    have frame : Alive { s with started := s.started + 1, type := req.type, st := st, memLeft := s.memTotal } := kept _ rfl rfl rfl rfl rfl
    exact alive_apcfg frame
  have started := handle_start_started s req
  generalize captureHandleMsgStart s req = after at started ⊢
  cases started with
  | answered => exact alive_send next _
  | slept => exact alive_send (turns _) _
  | woken => exact alive_send (turns _) _
  | wakes _ paused =>
    have sent := same_turned s req .normal
    refine alive_captureStartCapturing (turns _) (goes_turned tidy.settled paused req _).settled _ req ?_ sent.st
    rw [sent.caps]
    exact fresh
  | starts _ running =>
    exact alive_captureStartCapturing next (goes_noted tidy.settled).settled _ req fresh (tidy.known.resolve_left running)

def Before (ids : List Nat) (one two : Nat) : Prop := one = two ∨ [one, two].Sublist ids

theorem before_rest {id : Nat} {rest : List Nat} {one two : Nat} (once : (id :: rest).Nodup) (before : Before (id :: rest) one two) (other : one ≠ id) :
    Before rest one two ∧ two ≠ id := by
  rcases before with rfl | order
  · exact ⟨.inl rfl, other⟩
  · have below : [one, two].Sublist rest := by
      cases order with
      | cons _ below => exact below
      | cons_cons _ _ => exact absurd rfl other
    refine ⟨.inr below, fun same => ?_⟩
    have there : two ∈ rest := below.subset (by simp)
    exact (nodup_cons.mp once).1 (same ▸ there)

structure Leaving (s : Core) : Prop where
  alive : s.dead = false
  sess : s.sess = true
  st : s.st = .stopped
  ids : (s.caps.map Cap.id).Nodup
  owner : ∀ cap ∈ s.caps, ∀ file ∈ cap.list, file.inf = cap.id
  up : ∀ cap ∈ s.caps, cap.st ≠ .stopped
  lists : ∀ cap ∈ s.caps, Rising cap.list
  out : s.out.st = .stopped
  queue : Rising s.out.listFiles
  queued : ∀ file ∈ s.out.listFiles, file ∈ held s
  away : ∀ file ∈ held s, s.out.flg = some file.id → file ∉ s.out.listFiles
  stale : ∀ link ∈ s.out.unlinked, ∀ next, link.2 = some next → link.1 ∈ held s →
    next ∈ held s ∧ link.1.id < next.id ∧ Before (s.caps.map Cap.id) link.1.inf next.inf

structure Left (s : Core) (rest : List Cap) (files : List File) (t : Core) : Prop where
  alive : t.dead = false
  sess : t.sess = true
  st : t.st = .stopped
  caps : t.caps = rest
  out : t.out = { s.out with listFiles := s.out.listFiles.diff files }

theorem leave_one (leaving : Leaving s) {cap : Cap} {rest : List Cap} (shape : s.caps = cap :: rest) :
    Left s rest cap.list (capStop s cap.id) := by
  have member : cap ∈ s.caps := shape ▸ mem_cons_self
  have found : cap? s cap.id = some cap := by rw [cap?, shape, find?_cons_of_pos (by simp)]
  have up := leaving.up cap member
  have listed : ∀ file ∈ cap.list, file ∈ held s := fun file there => mem_held.mpr ⟨cap, member, there⟩
  have dropping : Dropping s cap.id cap.list := by
    refine ⟨leaving.alive, ⟨cap, found, rfl⟩, leaving.owner, leaving.lists cap member, leaving.queue, leaving.queued,
      fun file there => leaving.away file (listed file there), fun link there next points here => ?_⟩
    obtain ⟨live, less, _⟩ := leaving.stale link there next points (listed _ here)
    exact ⟨live, less⟩
  obtain ⟨dead, sess⟩ := capStop_alive leaving.sess found up dropping
  have halts : ¬ Halts _ cap.list := fun halts => halts.1 leaving.out
  have queue := dropped_goes _ _ halts fun file there => leaving.away file (listed file there)
  have marked : cap? (onCap s _ fun cap => { cap with st := .stopped }) _ = some _ := changed_found found fun _ => rfl
  have gone : removeCap cap.id s.caps = rest := by rw [shape, removeCap, if_pos rfl]
  have effect : (capStop s cap.id).st = .stopped ∧ (capStop s cap.id).caps = rest ∧ (capStop s cap.id).out = dropped s.out cap.list := by
    unfold capStop capChangeStatus
    rw [found]
    dsimp only
    rw [if_neg up]
    unfold capStatusIntoStop
    rw [marked]
    dsimp only
    obtain ⟨same, others⟩ := drops_same _ _ _
    generalize cap.list.foldl _ _ = t at same others
    have told := same_send t (capEvent .stop { cap with st := .stopped } cap.lasterr)
    generalize ctrlSendMsg t _ = u at told
    have exited := exit_same u cap.id
    have st : u.st = .stopped := told.st.trans (same.st.trans leaving.st)
    have removed : removeCap cap.id u.caps = rest := by
      rw [told.caps, others]
      refine (removeCap_modify _ _ ?_ _).trans ?_
      · exact fun _ => rfl
      · refine (removeCap_modify _ _ ?_ _).trans gone
        exact fun _ => rfl
    have halted : (captureCapExit u cap.id).st = .stopped := by
      rw [exited.st]
      exact (if_neg fun last => last.2 st).trans st
    rw [captureContinueCapturing, if_pos (show (captureCapExit u _).st ≠ .normal by rw [halted]; rintro ⟨⟩)]
    exact ⟨halted, exited.caps.trans removed, exited.out.trans (told.out.trans same.out)⟩
  exact ⟨dead, sess, effect.1, effect.2.1, effect.2.2.trans queue⟩

theorem leave_step {s t : Core} (leaving : Leaving s) {cap : Cap} {rest : List Cap} (shape : s.caps = cap :: rest) (left : Left s rest cap.list t) :
    Leaving t := by
  have older : ∀ other ∈ rest, other ∈ s.caps := fun other there => shape ▸ mem_cons_of_mem _ there
  have once : (cap.id :: rest.map Cap.id).Nodup := by
    have ids := leaving.ids
    rw [shape] at ids
    exact ids
  have files : ∀ file, file ∈ held t ↔ file ∈ held s ∧ file.inf ≠ cap.id := by
    intro file
    rw [mem_held, mem_held, left.caps]
    constructor
    · rintro ⟨other, there, listed⟩
      refine ⟨⟨other, older _ there, listed⟩, fun same => ?_⟩
      rw [leaving.owner _ (older _ there) file listed] at same
      exact (nodup_cons.mp once).1 (same ▸ mem_map_of_mem there)
    · rintro ⟨⟨other, there, listed⟩, apart⟩
      rw [shape] at there
      rcases mem_cons.mp there with rfl | below
      · exact absurd (leaving.owner _ (shape ▸ mem_cons_self) file listed) apart
      · exact ⟨other, below, listed⟩
  have member : cap ∈ s.caps := shape ▸ mem_cons_self
  have fewer : (s.out.listFiles.diff cap.list).Sublist _ := diff_sublist _ _
  refine ⟨left.alive, left.sess, left.st, ?_, fun other there => ?_, fun other there => ?_, fun other there => ?_, ?_, ?_, ?_, ?_, ?_⟩
  · rw [left.caps]
    exact (nodup_cons.mp once).2
  · exact leaving.owner _ (older _ (left.caps ▸ there))
  · exact leaving.up _ (older _ (left.caps ▸ there))
  · exact leaving.lists _ (older _ (left.caps ▸ there))
  · rw [left.out]
    exact leaving.out
  · rw [left.out]
    exact leaving.queue.sublist fewer
  · rw [left.out]
    intro file there
    obtain ⟨queued, unlisted⟩ := (Nodup.mem_sdiff_iff (rising_nodup leaving.queue)).mp there
    have live := leaving.queued file queued
    refine (files file).mpr ⟨live, fun same => unlisted ?_⟩
    obtain ⟨other, holder, listed⟩ := mem_held.mp live
    have equal : other = cap := by
      refine inj_on_of_nodup_map leaving.ids holder member ?_
      exact (leaving.owner _ holder file listed).symm.trans same
    exact equal ▸ listed
  · rw [left.out]
    exact fun file there flagged queued => leaving.away file ((files file).mp there).1 flagged (fewer.subset queued)
  · rw [left.out, left.caps]
    intro link there next points live
    obtain ⟨early, apart⟩ := (files _).mp live
    obtain ⟨held, less, order⟩ := leaving.stale link there next points early
    rw [shape] at order
    obtain ⟨below, other⟩ := before_rest once order apart
    exact ⟨(files next).mpr ⟨held, other⟩, less, below⟩

theorem leave_all (caps : List Cap) {s : Core} (leaving : Leaving s) (shape : s.caps = caps) :
    ((caps.map Cap.id).foldl (fun s id => capStop s id) s).dead = false := by
  induction caps generalizing s with
  | nil => exact leaving.alive
  | cons cap rest ih =>
    have left := leave_one leaving shape
    exact ih (leave_step leaving shape left) left.caps

def InOrder (s : Core) : Prop := s.out.st ≠ .stopped →
  ∀ link ∈ links s.out.listFiles, ∀ next, link.2 = some next → Before (s.caps.map Cap.id) link.1.inf next.inf

theorem alive_ctrlErr (tidy : Tidy s) (alive : Alive s) (order : InOrder s) : (ctrlErr s).dead = false := by
  obtain ⟨⟨current, wired, serving⟩, _, known⟩ := tidy
  have up : s.st ≠ .stopped := by
    rcases known with paused | running
    · rw [paused]
      exact nofun
    · rw [running]
      exact nofun
  have lives : ∀ file ∈ held s, s.out.flg = some file.id → file ∉ s.out.listFiles := by
    intro file there flagged
    exact (wired.apart file ((wired.marked file there).mp flagged)).2
  have leaving : Leaving { outputIntoStopped { s with ctrl := .err } with st := .stopped } := by
    unfold outputIntoStopped
    split
    · rename_i halted
      exact ⟨alive.alive, alive.sess, rfl, wired.ids, wired.owner, wired.up, alive.lists, halted, alive.queue, wired.queued, lives,
        fun link there _ _ live => absurd live (alive.gone link there).1⟩
    · rename_i going
      refine ⟨alive.alive, alive.sess, rfl, wired.ids, wired.owner, wired.up, alive.lists, rfl, Pairwise.nil, fun file there => (nomatch there),
        fun file _ _ there => (nomatch there), fun link there next points live => ?_⟩
      rcases mem_append.mp there with old | new
      · exact absurd live (alive.gone link old).1
      · obtain ⟨queued, less⟩ := (links_mem _ alive.queue link new).2 next points
        exact ⟨wired.queued next queued, less, order going link new next points⟩
  have still : (outputIntoStopped { s with ctrl := .err }).st = s.st := by
    unfold outputIntoStopped
    split <;> rfl
  show (captureIntoStopped _).dead = false
  unfold captureIntoStopped
  rw [if_neg (by rw [still]; exact up)]
  exact leave_all _ leaving rfl

def AccessSafe (s : Core) (h : Happening) : Prop :=
  match h.event with
  | .stop req => requestError req = 0 → ∀ cap, captureGetCap s req.interface = some cap → cap.st ≠ .reg →
      EndClear { s with forks := h.forks, mallocs := h.mallocs } cap
  | .stopall _ => AllClear { s with forks := h.forks, mallocs := h.mallocs }
  | .packets id error arrived failed => DispatchClear { s with forks := h.forks, mallocs := h.mallocs } id error arrived failed
  | .timeout id => ∀ cap, cap? s id = some cap → cap.timer = true → cap.limitTimeuse ≤ 0 → cap.st ≠ .reg →
      EndClear { s with forks := h.forks, mallocs := h.mallocs } cap
  | .registered status => s.ctrl = .reg → status = 0
  | .lost => InOrder s
  | _ => True

theorem alive_handled (alive : Alive s) : Alive (handled s) := by
  refine alive.frame ?_ alive.sess rfl rfl rfl rfl
  show (s.dead || !s.sess) = false
  rw [alive.alive, alive.sess]
  rfl

theorem react_alive (s : Core) (event : Event) (tidy : Tidy s) (alive : Alive s) (safe : AccessSafe s ⟨event, s.forks, s.mallocs⟩) :
    (react s event).dead = false ∧ ((react s event).ctrl = .stopped ∨ Alive (react s event)) := by
  have both : ∀ {t : Core}, Alive t → t.dead = false ∧ (t.ctrl = .stopped ∨ Alive t) := fun after => ⟨after.alive, .inr after⟩
  cases event with
  | start req =>
    rw [react]
    split
    · exact both alive
    · exact both (alive_handled (alive_captureHandleMsgStart tidy alive req))
  | stop req =>
    rw [react]
    split
    · exact both alive
    · exact both (alive_handled (alive_captureHandleMsgStop alive tidy.settled req safe))
  | stopall req =>
    rw [react]
    split
    · exact both alive
    · exact both (alive_handled (alive_captureHandleMsgStopall alive tidy.settled req safe))
  | packets id error arrived failed => exact both (alive_capEvtCb alive tidy.settled id _ _ _ safe)
  | timeout id => exact both (alive_capTimeoutCb alive tidy.settled id safe)
  | uploaded exited => exact both (alive_outTimeoutCb alive tidy.settled _)
  | connected =>
    rw [react]
    split
    · exact both (alive.frame alive.alive alive.sess rfl rfl rfl rfl)
    · exact both alive
  | registered status =>
    rw [react]
    split
    · exact both alive
    · rename_i waiting
      rw [if_pos (safe (not_not.mp waiting))]
      have taken : Alive { s with ctrl := .normal } := alive.frame alive.alive alive.sess rfl rfl rfl rfl
      exact both (alive_handled taken)
  | lost => exact ⟨alive_ctrlErr tidy alive safe, .inl rfl⟩

-- ems_timeout_handle has the next entry of its list in hand while a timer runs;
-- its list is not part of this model.
def AliveKept (s : Core) : Prop := s.dead = false ∧ (s.ctrl = .stopped ∨ (Tidy s ∧ Alive s))

theorem alive_step (s : Core) (h : Happening) (kept : AliveKept s) (safe : AccessSafe s h) : AliveKept (sniffer s h) := by
  have next := tidy_step s h (kept.2.imp_right And.left)
  unfold sniffer at next ⊢
  split
  · exact kept
  · rename_i going
    rw [if_neg going] at next
    obtain ⟨tidy, alive⟩ := kept.2.resolve_left going
    have given := (tidy_given tidy h.forks h.mallocs).1
    have same : Alive { s with forks := h.forks, mallocs := h.mallocs } := alive.frame alive.alive alive.sess rfl rfl rfl rfl
    obtain ⟨dead, after⟩ := react_alive _ _ given same safe
    refine ⟨dead, ?_⟩
    rcases next with ended | tidied
    · exact .inl ended
    · exact after.imp_right fun done => ⟨tidied, done⟩

theorem nothing_destroyed_used (online : Bool) (memTotal memMaxsingle : Int) (happenings : List Happening)
    (safe : AllSteps sniffer AccessSafe (boot online memTotal memMaxsingle) happenings) :
    (run sniffer (boot online memTotal memMaxsingle) happenings).dead = false := by
  have begun : AliveKept (boot online memTotal memMaxsingle) := by
    refine ⟨rfl, .inr ⟨boot_tidy _ _ _, rfl, rfl, Pairwise.nil, fun cap there => (nomatch there),
      fun link there => (nomatch there)⟩⟩
  exact (run_keeps _ _ _ _ _ begun (fun s h inv ok => alive_step s h inv ok) safe).1

theorem nothing_destroyed_used_sample :
    (run sniffer (boot true 1000 100) [calm (.registered 0), calm (.start plainRequest), calm (.packets 0 false [⟨true, 50⟩] false)]).dead = false :=
  nothing_destroyed_used true 1000 100 _
    ⟨fun _ => rfl, trivial, fun cap found _ => by
      obtain rfl := Option.some.inj found
      rw [if_neg (by decide)]
      refine fun _ => ⟨rfl, fun why => ?_⟩
      rcases why with bare | short
      · exact absurd bare (by decide)
      · exact absurd (fun _ there => (nomatch there)) short, trivial⟩

-- The fork fails for the file that the stop message closes.
theorem destroyed_capture_used : ¬ ∀ (online : Bool) (memTotal memMaxsingle : Int) (happenings : List Happening),
      (run sniffer (boot online memTotal memMaxsingle) happenings).dead = false := by
  intro claim
  exact absurd (claim true 1000 100 [calm (.registered 0), calm (.start plainRequest), calm (.packets 0 false [⟨true, 50⟩] false),
    ⟨.stop plainRequest, [false], []⟩]) (by decide)

end Codec.Sniffer
