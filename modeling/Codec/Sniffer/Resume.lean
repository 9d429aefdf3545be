import Codec.Sniffer.Settled
import Codec.Sniffer.Table

set_option autoImplicit false

namespace Codec.Sniffer

open Codec.Lib

def EndsCapture (cap : Cap) (packet : Packet) : Prop :=
  (¬ cap.fp ∧ ¬ packet.opens) ∨ packet.fsize - cap.size ≤ 0 ∨ (cap.limitFilesize > 0 ∧ cap.limitFilesize ≤ packet.fsize) ∨
    (cap.limitPkg > 0 ∧ cap.limitPkg ≤ cap.pkgs + 1)

instance (cap : Cap) (packet : Packet) : Decidable (EndsCapture cap packet) := inferInstanceAs (Decidable (_ ∨ _ ∨ _ ∨ _))

def grown (cap : Cap) (packet : Packet) : Cap := { cap with fp := true, size := packet.fsize, pkgs := cap.pkgs + 1 }

def rotated (cap : Cap) : Cap := { fileClosed cap with pkgs := 0, size := 0 }

theorem grown_found {s : Core} {id : Nat} {cap : Cap} (found : cap? s id = some cap) (packet : Packet) :
    cap? (packetCounted s id packet.fsize) id = some (grown cap packet) := by
  have opened : cap? (onCap s id fun cap => { cap with fp := true }) id = some _ := changed_found found fun _ => rfl
  have sized : cap? (onCap _ id fun cap => { cap with size := packet.fsize }) id =
      some _ := changed_found opened fun _ => rfl
  exact changed_found sized fun _ => rfl

theorem packages_goes {s : Core} {id : Nat} {cap : Cap} {packet : Packet} (found : cap? s id = some cap) (live : cap.uploading = false)
    (goes : ¬ EndsCapture cap packet) : capPackages s id packet =
      if cap.maxFilesize ≤ packet.fsize then
        if (capFileFinished (packetCounted s id packet.fsize) id).2 then
          capSpend (capFileFinished (packetCounted s id packet.fsize) id).1 id (packet.fsize - cap.size)
        else endCapture (capFileFinished (packetCounted s id packet.fsize) id).1 id
      else capSpend (packetCounted s id packet.fsize) id (packet.fsize - cap.size) := by
  simp only [EndsCapture, not_or] at goes
  obtain ⟨closed, flat, large, many⟩ := goes
  unfold capPackages
  rw [found]
  dsimp only
  rw [if_neg (by simp [live]), if_neg closed, if_neg flat, if_neg large, if_neg many]
  by_cases full : cap.maxFilesize ≤ packet.fsize
  · rw [if_pos full, if_pos full, ite_not]
  · rw [if_neg full, if_neg full, if_neg (by simp)]

-- Where a packet ends the capture: before its file is open, at a file that does
-- not grow, or at a limit.
theorem packages_ends {s : Core} {id : Nat} {cap : Cap} {packet : Packet} (found : cap? s id = some cap) (live : cap.uploading = false)
    (ends : EndsCapture cap packet) : ∃ t lasterr, capPackages s id packet = endCapture (onCap t id fun cap => { cap with lasterr := lasterr }) id ∧
      ((¬ cap.fp ∧ ¬ packet.opens) ∧ t = s ∨ ¬ (¬ cap.fp ∧ ¬ packet.opens) ∧
        ((packet.fsize - cap.size ≤ 0 ∧ t = onCap s id fun cap => { cap with fp := true }) ∨
          (¬ packet.fsize - cap.size ≤ 0 ∧ ∃ last, cap? t id = some last ∧ last.fp = true))) := by
  have counted := grown_found found packet
  have opened : cap? (onCap s id fun cap => { cap with fp := true }) id = some _ := changed_found found fun _ => rfl
  unfold capPackages
  rw [found]
  dsimp only
  rw [if_neg (by simp [live])]
  by_cases closed : ¬ cap.fp ∧ ¬ packet.opens
  · exact ⟨s, _, if_pos closed, .inl ⟨closed, rfl⟩⟩
  rw [if_neg closed]
  by_cases flat : packet.fsize - cap.size ≤ 0
  · exact ⟨_, _, if_pos flat, .inr ⟨closed, .inl ⟨flat, rfl⟩⟩⟩
  rw [if_neg flat]
  by_cases large : cap.limitFilesize > 0 ∧ cap.limitFilesize ≤ packet.fsize
  · exact ⟨_, _, if_pos large, .inr ⟨closed, .inr ⟨flat, _, changed_found opened fun _ => rfl, rfl⟩⟩⟩
  rw [if_neg large]
  have many := ((ends.resolve_left closed).resolve_left flat).resolve_left large
  exact ⟨_, _, if_pos many, .inr ⟨closed, .inr ⟨flat, _, counted, rfl⟩⟩⟩

def flagged (cap : Cap) (left : Int) : Cap := if left ≤ 0 then { cap with pause := true } else cap

def Starves (stopped : Bool) : List Bool → Cap → Int → List Packet → Bool
  | _, cap, _, [] => cap.pause
  | mallocs, cap, left, packet :: rest =>
    if EndsCapture cap packet then false
    else if cap.maxFilesize ≤ packet.fsize then
      if stopped = true ∧ mallocs.head? ≠ some false then
        Starves stopped mallocs.tail (flagged (rotated (grown cap packet)) (left - (packet.fsize - cap.size)))
          (left - (packet.fsize - cap.size)) rest
      else false
    else Starves stopped mallocs (flagged (grown cap packet) (left - (packet.fsize - cap.size))) (left - (packet.fsize - cap.size)) rest

variable (packets : List Packet) (s : Core) (file : File) (id : Nat)

theorem uploadFile_process (busy : s.out.st ≠ .paused) : (outputUploadFile s file).1.out.st = s.out.st := by
  unfold outputUploadFile
  rw [if_neg busy]

theorem capFileFinished_process (busy : s.out.st ≠ .paused) : (capFileFinished s id).1.out.st = s.out.st := by
  unfold capFileFinished
  split
  · rfl
  split
  · rfl
  split
  · rfl
  · exact uploadFile_process _ _ busy

theorem capSpend_out (len : Int) : (capSpend s id len).out.st = s.out.st := by
  unfold capSpend
  dsimp only
  split <;> rfl

theorem capPackages_process (packet : Packet) (busy : s.out.st ≠ .paused) : (capPackages s id packet).out.st = s.out.st :=
  packages_keep s id packet (P := fun t => t.out.st = s.out.st) rfl (fun _ => rfl) (fun _ _ _ same => same) (fun _ same => same)
    (fun _ len same => (capSpend_out _ id len).trans same) fun _ _ _ => capFileFinished_process _ id busy

def Closing (s : Core) (id : Nat) : Prop := ∀ cap, cap? s id = some cap → cap.uploading = true

theorem closing_endCapture : Closing (endCapture s id) id := by
  intro cap found
  have there : cap? _ id = some cap := found
  obtain ⟨old, _, same⟩ := changed_back there fun _ => rfl
  rw [same]

theorem packages_closing {cap : Cap} {packet : Packet} (found : cap? s id = some cap) (live : cap.uploading = false)
    (ends : EndsCapture cap packet) : Closing (capPackages s id packet) id := by
  obtain ⟨_, _, same, _⟩ := packages_ends found live ends
  rw [same]
  exact closing_endCapture _ id

theorem closing_packages (packet : Packet) (closing : Closing s id) : Closing (capPackages s id packet) id := by
  unfold capPackages
  split
  · rename_i none
    intro cap found
    exact nomatch none.symm.trans found
  · rename_i cap found
    rw [if_pos (closing cap found)]
    exact closing

theorem closing_fold (s : Core) (closing : Closing s id) :
    Closing (packets.foldl (fun s packet => capPackages s id packet) s) id := by
  induction packets generalizing s with
  | nil => exact closing
  | cons packet rest ih => exact ih _ (closing_packages s id _ closing)

theorem process_fold (s : Core) (busy : s.out.st ≠ .paused) :
    (packets.foldl (fun s packet => capPackages s id packet) s).out.st = s.out.st := by
  induction packets generalizing s with
  | nil => rfl
  | cons packet rest ih =>
    have kept := capPackages_process s id packet busy
    exact (ih _ (by rw [kept]; exact busy)).trans kept

theorem capSpend_spec (len : Int) (cap : Cap) (files : List File) (found : cap? s id = some { cap with list := files }) :
    (capSpend s id len).out = s.out ∧ (capSpend s id len).mallocs = s.mallocs ∧ (capSpend s id len).memLeft = s.memLeft - len ∧
      cap? (capSpend s id len) id = some { flagged cap (s.memLeft - len) with list := files } := by
  unfold capSpend flagged
  by_cases spent : s.memLeft - len ≤ 0
  · rw [if_pos spent, if_pos spent]
    have paused : cap? (onCap _ id fun cap => { cap with pause := true }) id =
        some _ :=
      changed_found (show cap? _ id = some _ from found) fun _ => rfl
    exact ⟨rfl, rfl, rfl, paused⟩
  · rw [if_neg spent, if_neg spent]
    exact ⟨rfl, rfl, rfl, found⟩

theorem continue_one (forks : List Bool) (s : Core) (file : File) (queue : s.out.listFiles = [file]) (first : forks.head? ≠ some false) :
    outputContinue forks s = outputIntoProcess (outputTake s file []) file forks.tail := by
  unfold outputContinue
  rw [queue]
  cases forks with
  | nil => rfl
  | cons ok rest =>
    cases ok with
    | true => rfl
    | false => exact absurd rfl first

theorem upload_busy (busy : s.out.st ≠ .paused) :
    outputUploadFile s file = ({ s with out := { s.out with listFiles := s.out.listFiles ++ [file] } }, true) := by
  unfold outputUploadFile
  rw [if_neg busy]

theorem upload_started (idle : s.out.st = .paused) (empty : s.out.listFiles = []) (first : s.forks.head? ≠ some false) :
    outputUploadFile s file =
      (outputIntoProcess (outputTake { s with out := { s.out with listFiles := s.out.listFiles ++ [file] } } file []) file s.forks.tail, true) := by
  have queue : s.out.listFiles ++ [file] = [file] := by
    rw [empty]
    rfl
  unfold outputUploadFile
  rw [if_pos idle]
  exact Prod.ext (continue_one _ _ file queue first) (decide_eq_true first)

theorem upload_idle (idle : s.out.st = .paused) (empty : s.out.listFiles = []) :
    (outputUploadFile s file).2 = false ∨ ((outputUploadFile s file).2 = true ∧ (outputUploadFile s file).1.out.st = .normal) := by
  by_cases failed : s.forks.head? = some false
  · unfold outputUploadFile
    rw [if_pos idle]
    exact .inl (by simp [failed])
  · rw [upload_started s file idle empty failed]
    exact .inr ⟨rfl, rfl⟩

theorem rotates_cases (settled : Settled s) (id : Nat) (cap : Cap) (files : List File)
    (found : cap? s id = some { cap with list := files }) (opened : cap.fp = true) :
    (capFileFinished s id).2 = false ∨ ((capFileFinished s id).2 = true ∧ (capFileFinished s id).1.out.st = .normal) ∨
      ((capFileFinished s id).2 = true ∧ s.mallocs.head? ≠ some false ∧ s.out.st = .stopped ∧ (capFileFinished s id).1.out.st = s.out.st ∧
        (capFileFinished s id).1.mallocs = s.mallocs.tail ∧ (capFileFinished s id).1.memLeft = s.memLeft ∧
        ∃ files, cap? (capFileFinished s id).1 id = some { rotated cap with list := files }) := by
  by_cases short : s.mallocs.head? = some false
  · rw [finished_short found opened short]
    exact .inl rfl
  rw [finished_kept found opened short]
  obtain ⟨current, wired, serving⟩ := settled
  cases serving with
  | process file st timer curfl =>
    rw [upload_busy _ _ (show (capFileAdded s id _).out.st ≠ .paused from fun paused => (nomatch paused.symm.trans st))]
    exact .inr (.inl ⟨rfl, st⟩)
  | paused st timer empty =>
    rcases upload_idle (capFileAdded s id _) _ st empty with failed | done
    · exact .inl failed
    · exact .inr (.inl done)
  | stopped st timer =>
    rw [upload_busy _ _ (show (capFileAdded s id _).out.st ≠ .paused from fun paused => (nomatch paused.symm.trans st))]
    have listed : cap? _ id =
        some (fileListed ⟨s.written, id, cap.size⟩ _) := changed_found (closed_found found) fun _ => rfl
    exact .inr (.inr ⟨rfl, short, st, rfl, rfl, rfl, _, listed⟩)

theorem capPackages_cases (settled : Settled s) (id : Nat) (packet : Packet) (cap : Cap) (files : List File)
    (found : cap? s id = some { cap with list := files }) (live : cap.uploading = false) :
    Closing (capPackages s id packet) id ∨ (capPackages s id packet).out.st = .normal ∨
      (¬ EndsCapture cap packet ∧ ¬ cap.maxFilesize ≤ packet.fsize ∧ (capPackages s id packet).out.st = s.out.st ∧
        (capPackages s id packet).mallocs = s.mallocs ∧ (capPackages s id packet).memLeft = s.memLeft - (packet.fsize - cap.size) ∧
        cap? (capPackages s id packet) id =
          some { flagged (grown cap packet) (s.memLeft - (packet.fsize - cap.size)) with list := files }) ∨
      (¬ EndsCapture cap packet ∧ cap.maxFilesize ≤ packet.fsize ∧ s.mallocs.head? ≠ some false ∧ s.out.st = .stopped ∧
        (capPackages s id packet).out.st = s.out.st ∧ (capPackages s id packet).mallocs = s.mallocs.tail ∧
        (capPackages s id packet).memLeft = s.memLeft - (packet.fsize - cap.size) ∧
        ∃ files, cap? (capPackages s id packet) id =
          some { flagged (rotated (grown cap packet)) (s.memLeft - (packet.fsize - cap.size)) with list := files }) := by
  by_cases goes : EndsCapture cap packet
  · exact .inl (packages_closing s id found live goes)
  rw [packages_goes found live goes]
  have counted : cap? _ id = some { grown cap _ with list := files } := grown_found found packet
  have counting := (goes_counted settled id packet.fsize).settled
  by_cases full : cap.maxFilesize ≤ packet.fsize
  · rw [if_pos full]
    rcases rotates_cases _ counting id _ _ counted rfl with failed | ⟨finished, process⟩ | ⟨finished, kept, st, out, mallocs, left, more, still⟩
    · rw [if_neg (by rw [failed]; exact Bool.false_ne_true)]
      exact .inl (closing_endCapture _ id)
    · rw [if_pos finished]
      exact .inr (.inl ((capSpend_out _ id _).trans process))
    · rw [if_pos finished]
      obtain ⟨spentOut, spentMallocs, spentLeft, spentCap⟩ := capSpend_spec _ id _ _ more still
      refine .inr (.inr (.inr ⟨goes, full, kept, st, ?_, ?_, ?_, more, ?_⟩))
      · rw [spentOut, out]
        rfl
      · rw [spentMallocs, mallocs]
        rfl
      · rw [spentLeft, left]
        rfl
      · rw [spentCap, left]
        rfl
  · rw [if_neg full]
    obtain ⟨spentOut, spentMallocs, spentLeft, spentCap⟩ := capSpend_spec _ id _ _ _ counted
    refine .inr (.inr (.inl ⟨goes, full, ?_, ?_, ?_, ?_⟩))
    · exact congrArg _ spentOut
    · exact spentMallocs
    · exact spentLeft
    · exact spentCap

theorem grown_live {cap : Cap} (live : cap.uploading = false) (packet : Packet) (left : Int) :
    (flagged (grown cap packet) left).uploading = false ∧ (flagged (rotated (grown cap packet)) left).uploading = false := by
  unfold flagged
  split <;> exact ⟨live, live⟩

theorem dispatch_cases (settled : Settled s) (id : Nat) (cap : Cap) (files : List File)
    (found : cap? s id = some { cap with list := files }) (live : cap.uploading = false) :
    Closing (packets.foldl (fun s packet => capPackages s id packet) s) id ∨
      (packets.foldl (fun s packet => capPackages s id packet) s).out.st = .normal ∨
      ∃ last, cap? (packets.foldl (fun s packet => capPackages s id packet) s) id = some last ∧
        (last.pause = true → Starves (s.out.st == .stopped) s.mallocs cap s.memLeft packets = true) := by
  induction packets generalizing s cap files with
  | nil => exact .inr (.inr ⟨_, found, fun paused => paused⟩)
  | cons packet rest ih =>
    have goes := goes_capPackages settled id packet
    rw [List.foldl_cons]
    rcases capPackages_cases s settled id _ cap _ found live with
      closing | process | ⟨runs, room, st, mallocs, left, more⟩ | ⟨runs, full, alloc, halted, st, mallocs, left, files, more⟩
    · exact .inl (closing_fold rest id _ closing)
    · exact .inr (.inl ((process_fold rest id _ (by rw [process]; exact nofun)).trans process))
    · refine (ih _ goes.settled _ _ more (grown_live live _ _).1).imp_right (Or.imp_right ?_)
      rintro ⟨last, final, starves⟩
      refine ⟨last, final, fun paused => ?_⟩
      have below := starves paused
      rw [st, mallocs, left] at below
      rw [Starves, if_neg runs, if_neg room]
      exact below
    · refine (ih _ goes.settled _ _ more (grown_live live _ _).2).imp_right (Or.imp_right ?_)
      rintro ⟨last, final, starves⟩
      refine ⟨last, final, fun paused => ?_⟩
      have below := starves paused
      rw [st, mallocs, left] at below
      rw [Starves, if_neg runs, if_pos full, if_pos ⟨by rw [halted]; rfl, alloc⟩]
      exact below

def PauseSafe (s : Core) (h : Happening) : Prop :=
  match h.event with
  | .packets id false arrived false =>
    ∀ cap, cap? s id = some cap → cap.evt = true → cap.st = .normal → cap.uploading = false →
      Starves (s.out.st == .stopped) h.mallocs cap s.memLeft arrived = true → s.out.st = .normal
  | _ => True

theorem settled_paused {s : Core} (settled : Settled s) (id : Nat) :
    Settled (capChangeStatus s id .paused fun id s => capStatusIntoPaused s id) ∧
      (capChangeStatus s id .paused fun id s => capStatusIntoPaused s id).out.st = s.out.st := by
  unfold capChangeStatus
  split
  · exact ⟨(goes_dead settled).settled, rfl⟩
  split
  · exact ⟨settled, rfl⟩
  · have marked : Settled (onCap s id fun cap => { cap with st := .paused }) := by
      obtain ⟨current, wired, serving⟩ := settled
      exact ⟨current, wired_onCap wired (fun _ => rfl) (fun _ _ => nofun), serving⟩
    unfold capStatusIntoPaused
    dsimp only
    split
    · exact ⟨(goes_dead marked).settled, rfl⟩
    · rename_i cap _
      have sent := same_send (onCap s id fun cap => { cap with st := .paused }) (capEvent .paused cap 0)
      have told := sent.goes marked
      exact ⟨Goes.settled (Goes.changed told (fun _ => rfl) fun _ => rfl), congrArg _ sent.out⟩

theorem goes_capEvtCb {s : Core} (settled : Settled s) (id : Nat) (error : Bool) (arrived : List Packet) (failed : Bool) :
    Settled (capEvtCb s id error arrived failed) ∧
      (PauseSafe s ⟨.packets id error arrived failed, [], s.mallocs⟩ → PausedServed s → PausedServed (capEvtCb s id error arrived failed)) := by
  have both : ∀ {t : Core}, Goes s t → Settled t ∧ (PauseSafe s ⟨.packets id error arrived failed, [], s.mallocs⟩ → PausedServed s →
      PausedServed t) := fun goes => ⟨goes.settled, fun _ => goes.served⟩
  unfold capEvtCb
  split
  · exact both (goes_refl settled)
  rename_i cap found
  split
  · exact both (goes_refl settled)
  rename_i set
  split
  · have marked : Goes s (onCap s id fun cap => { cap with lasterr := errPcapError }) := (goes_refl settled).changed (fun _ => rfl) fun _ => rfl
    exact both (marked.trans (goes_capUploading marked.settled id))
  rename_i right
  split
  · exact both (goes_refl settled)
  rename_i capturing
  have dispatched := goes_packets id arrived settled
  extract_lets read checked touched
  have reading : Goes s checked := by
    simp only [checked]
    split
    · refine Goes.ends ?_ id
      exact dispatched.changed (fun _ => rfl) fun _ => rfl
    · exact dispatched
  have before := reading.trans (goes_touchCap reading.settled id)
  split
  · exact both before
  rename_i last final
  split
  · exact both (before.trans (goes_capUploading before.settled id))
  rename_i runs
  split
  · rename_i paused
    obtain ⟨pausing, out⟩ := settled_paused before.settled id
    refine ⟨pausing, fun safe _ => .inr ?_⟩
    rw [out]
    have well : failed = false := by
      cases failed with
      | false => rfl
      | true =>
        have closing : Closing checked id := closing_endCapture _ id
        exact absurd (closing last final) runs
    have fine : error = false := by simpa using right
    subst well fine
    by_cases live : cap.uploading = true
    · have closing : Closing s id := fun other same => by rw [Option.some.inj (same.symm.trans found)]; exact live
      exact absurd (closing_fold _ id s closing last final) runs
    · rcases dispatch_cases _ s settled id cap _ found (by simpa using live) with closing | process | ⟨same, reached, starves⟩
      · exact absurd (closing last final) runs
      · exact process
      · have equal : same = last := Option.some.inj (reached.symm.trans final)
        have starving := starves (equal ▸ paused)
        have process := safe cap found (by simpa using set) (by simpa using capturing) (by simpa using live) starving
        exact (process_fold _ id s (by rw [process]; exact nofun)).trans process
  · exact both before

def Numbered (s : Core) : Prop := ∀ cap ∈ s.caps, cap.id < s.started

theorem Ends.numbered {s t : Core} (ends : Ends s t) (numbered : Numbered s) : Numbered t := by
  intro cap there
  obtain ⟨old, member, same⟩ := List.mem_map.mp (ends.fewer.subset (List.mem_map_of_mem there))
  have id : old.id = cap.id := congrArg Prod.fst same
  rw [ends.started, ← id]
  exact numbered old member

theorem modify_new (change : Cap → Cap) (caps : List Cap) (cap : Cap) (fresh : ∀ other ∈ caps, other.id ≠ id) (named : cap.id = id) :
    modifyCap id change (caps ++ [cap]) = caps ++ [change cap] := by
  induction caps with
  | nil => rw [List.nil_append, modifyCap, if_pos named]; rfl
  | cons first rest ih =>
    rw [List.cons_append, modifyCap, if_neg (fresh _ List.mem_cons_self), ih fun other there => fresh _ (List.mem_cons_of_mem _ there)]
    rfl

theorem goes_frame {s t : Core} (settled : Settled s) (caps : t.caps = s.caps) (out : t.out = s.out) (written : t.written = s.written)
    (awake : Awake t) : Goes s t := by
  obtain ⟨current, wired, serving⟩ := settled
  refine ⟨⟨current, wired_same wired (congrArg _ caps) ?_ awake (congrArg _ out) (congrArg _ out) written, out ▸ serving⟩, fun served => ?_⟩
  · rw [caps]
    exact wired.up
  · rw [PausedServed, out]
    exact served.imp_left fun none => none.caps caps

theorem goes_capStatusIntoStart {s : Core} (settled : Settled s) (id : Nat) (req : Request) : Goes s (capStatusIntoStart s id req) := by
  unfold capStatusIntoStart
  split
  · have marked : Goes s (onCap s id fun cap => { cap with lasterr := errServerFtpHost }) := (goes_refl settled).changed (fun _ => rfl) fun _ => rfl
    exact marked.trans (goes_capStop marked.settled id)
  split
  · have marked : Goes s (onCap s id fun cap => { cap with lasterr := req.pcap }) := (goes_refl settled).changed (fun _ => rfl) fun _ => rfl
    exact marked.trans (goes_capStop marked.settled id)
  · have timed : Goes s (onCap s id fun cap => if cap.limitTimeuse > 0 then capTimeoutSet cap else cap) := by
      refine (goes_refl settled).changed (fun cap => ?_) fun cap => ?_
      · split <;> rfl
      · split <;> rfl
    refine timed.trans (goes_change timed.settled id _ (by decide) _ fun t settled => ?_)
    unfold capStatusIntoCapturing
    split
    · exact goes_dead settled
    · rename_i cap _
      have told := (same_send t (capturingEvent cap)).goes settled
      obtain ⟨current, wired, serving⟩ := told.settled
      refine told.trans ⟨⟨current, wired_onCap wired (fun _ => rfl) (fun _ _ => nofun), serving⟩, fun served => ?_⟩
      refine served.imp_left fun none other there => ?_
      rcases mem_modify there with old | ⟨old, member, _, rfl⟩
      · exact none _ old
      · exact nofun

theorem goes_added {s : Core} (settled : Settled s) (id : Nat) (req : Request) (fresh : ∀ cap ∈ s.caps, cap.id ≠ id) (running : s.st = .normal) :
    Goes s (onCap { s with caps := s.caps ++ [newCap s id req] } id fun cap => { cap with st := .start }) := by
  obtain ⟨current, wired, serving⟩ := settled
  have caps : (onCap { s with caps := s.caps ++ [newCap s id req] } id fun cap => { cap with st := .start }).caps =
      s.caps ++ [{ newCap s id req with st := .start }] := modify_new id _ _ _ fresh rfl
  have files : held (onCap { s with caps := s.caps ++ [newCap s id req] } id fun cap => { cap with st := .start }) = held s := by
    rw [held, caps, List.flatMap_append]
    exact List.append_nil _
  refine ⟨⟨current, ⟨?_, fun cap there file listed => ?_, ?_, ?_, ?_, wired.once, ?_, ?_, fun cap there => ?_, fun _ => running, wired.past⟩, serving⟩,
    fun served => served.imp_left fun none cap there => ?_⟩
  · rw [caps, List.map_append]
    refine List.nodup_append.mpr ⟨wired.ids, by simp, fun old there new added equal => ?_⟩
    obtain ⟨cap, member, same⟩ := List.mem_map.mp there
    exact fresh cap member (same.trans (equal.trans (List.mem_singleton.mp added)))
  · rw [caps] at there
    rcases List.mem_append.mp there with old | new
    · exact wired.owner cap old file listed
    · rw [List.mem_singleton.mp new] at listed
      cases listed
  · rw [files]
    exact wired.unique
  · rw [files]
    exact wired.below
  · rw [files]
    exact wired.queued
  · rw [files]
    exact wired.marked
  · rw [files]
    exact wired.apart
  · rw [caps] at there
    rcases List.mem_append.mp there with old | new
    · exact wired.up cap old
    · rw [List.mem_singleton.mp new]
      rintro ⟨⟩
  · rw [caps] at there
    rcases List.mem_append.mp there with old | new
    · exact none cap old
    · rw [List.mem_singleton.mp new]
      rintro ⟨⟩

theorem goes_captureStartCapturing {s : Core} (settled : Settled s) (id : Nat) (req : Request) (fresh : ∀ cap ∈ s.caps, cap.id ≠ id)
    (running : s.st = .normal) : Goes s (captureStartCapturing s id req) := by
  have absent : id ∉ s.caps.map Cap.id := by
    intro there
    obtain ⟨cap, member, same⟩ := List.mem_map.mp there
    exact fresh cap member same
  unfold captureStartCapturing
  dsimp only
  rw [removeCap_listed s id req absent]
  split
  · exact goes_stopAnswer settled _ req _
  · have found : cap? { s with caps := s.caps ++ [newCap s id req] } id = some _ := listed_found s id req absent
    unfold capChangeStatus
    rw [found]
    dsimp only
    rw [if_neg (show ¬ (newCap s id req).st = .start from nofun)]
    have added := goes_added settled id req fresh running
    exact added.trans (goes_capStatusIntoStart added.settled id req)

theorem same_apcfg : SameStore s (sendApcfg s) := by
  unfold sendApcfg
  split
  · exact SameStore.refl s
  · exact ⟨rfl, rfl, rfl, rfl, rfl, rfl, rfl, rfl⟩

theorem sleeps_empty {s : Core} (settled : Settled s) (paused : s.st = .paused) : s.caps = [] := by
  obtain ⟨_, wired, _⟩ := id settled
  by_contra some
  exact nomatch (wired.awake some).symm.trans paused

theorem goes_noted {s : Core} (settled : Settled s) : Goes s (noted s) := by
  obtain ⟨_, wired, _⟩ := id settled
  exact goes_frame settled rfl rfl rfl wired.awake

theorem same_turned (req : Request) (st : Status) :
    SameStore { s with started := s.started + 1, type := req.type, st := st, memLeft := s.memTotal } (turned s req st) :=
  same_apcfg _

theorem goes_turned {s : Core} (settled : Settled s) (paused : s.st = .paused) (req : Request) (st : Status) :
    Goes s (turned s req st) := by
  have sent := same_turned s req st
  have none := sleeps_empty settled paused
  exact goes_frame settled sent.caps sent.out sent.written fun some => absurd (sent.caps.trans none) some

theorem goes_captureHandleMsgStart {s : Core} (settled : Settled s) (numbered : Numbered s) (connected : s.st = .paused ∨ s.st = .normal)
    (req : Request) : Goes s (captureHandleMsgStart s req) := by
  have fresh : ∀ cap ∈ s.caps, cap.id ≠ s.started := fun cap there => Nat.ne_of_lt (numbered cap there)
  have goes := goes_noted settled
  have started := handle_start_started s req
  generalize captureHandleMsgStart s req = next at started ⊢
  cases started with
  | answered => exact goes.trans (goes_stopAnswer goes.settled _ req _)
  | slept _ paused =>
    have slept := goes_turned settled paused req .paused
    exact slept.trans (goes_stopAnswer slept.settled _ req _)
  | woken _ paused =>
    have woke := goes_turned settled paused req .normal
    exact woke.trans (goes_stopAnswer woke.settled _ req _)
  | wakes _ paused =>
    have woke := goes_turned settled paused req .normal
    have sent := same_turned s req .normal
    refine woke.trans (goes_captureStartCapturing woke.settled _ req ?_ sent.st)
    rw [sent.caps]
    exact fresh
  | starts _ running => exact goes.trans (goes_captureStartCapturing goes.settled _ req fresh (connected.resolve_left running))

structure Tidy (s : Core) : Prop where
  settled : Settled s
  numbered : Numbered s
  known : s.st = .paused ∨ s.st = .normal

def TidyKept (s : Core) : Prop := s.ctrl = .stopped ∨ Tidy s

theorem known_ends {s t : Core} (ends : Ends s t) (known : s.st = .paused ∨ s.st = .normal) : t.st = .paused ∨ t.st = .normal := by
  rcases ends.st with same | paused
  · rw [same]
    exact known
  · exact .inl paused

theorem tidy_ends {s t : Core} (ends : Ends s t) (settled : Settled t) (tidy : Tidy s) : Tidy t :=
  ⟨settled, ends.numbered tidy.numbered, known_ends ends tidy.known⟩

theorem start_rest (req : Request) (tidy : Tidy s) :
    Numbered (captureHandleMsgStart s req) ∧ ((captureHandleMsgStart s req).st = .paused ∨ (captureHandleMsgStart s req).st = .normal) := by
  have answered : ∀ (t : Core) (errcode : Int), t.caps = s.caps → t.started = s.started + 1 → (t.st = .paused ∨ t.st = .normal) →
      Numbered (stopAnswer t (some s.started) req errcode) ∧
        ((stopAnswer t (some s.started) req errcode).st = .paused ∨ (stopAnswer t (some s.started) req errcode).st = .normal) := by
    intro t errcode caps started known
    have sent := same_send t (.event .stop (some s.started) req.type req.wlanid req.radioid req.interface errcode)
    have same : (stopAnswer t (some s.started) req errcode).started = t.started := by
      unfold stopAnswer ctrlSendMsg
      split <;> rfl
    refine ⟨fun cap there => ?_, ?_⟩
    · rw [same, started]
      rw [show (stopAnswer t _ req _).caps = t.caps from sent.caps, caps] at there
      exact Nat.lt_succ_of_lt (tidy.numbered cap there)
    · rw [show (stopAnswer t _ req _).st = t.st from sent.st]
      exact known
  have begun : ∀ t : Core, t.caps = s.caps → t.started = s.started + 1 → (t.st = .paused ∨ t.st = .normal) →
      Numbered (captureStartCapturing t s.started req) ∧
        ((captureStartCapturing t s.started req).st = .paused ∨ (captureStartCapturing t s.started req).st = .normal) := by
    intro t caps started known
    have absent : s.started ∉ t.caps.map Cap.id := by
      rw [caps]
      intro there
      obtain ⟨cap, member, same⟩ := List.mem_map.mp there
      exact Nat.lt_irrefl _ (same ▸ tidy.numbered cap member)
    unfold captureStartCapturing
    dsimp only
    rw [removeCap_listed t _ req absent]
    split
    · exact answered t _ caps started known
    · have ends := ends_started t s.started req
      have new : Numbered (listed t s.started req) := by
        intro cap there
        show cap.id < t.started
        rw [started]
        rcases List.mem_append.mp there with old | new
        · rw [caps] at old
          exact Nat.lt_succ_of_lt (tidy.numbered cap old)
        · rw [List.mem_singleton.mp new]
          exact Nat.lt_succ_self _
      exact ⟨ends.numbered new, known_ends ends known⟩
  have turns (st : Status) : (turned s req st).caps = s.caps ∧ (turned s req st).started = s.started + 1 ∧ (turned s req st).st = st := by
    unfold turned sendApcfg
    split <;> exact ⟨rfl, rfl, rfl⟩
  have ended := handle_start_started s req
  generalize captureHandleMsgStart s req = next at ended ⊢
  cases ended with
  | answered => exact answered _ _ rfl rfl tidy.known
  | slept =>
    obtain ⟨caps, started, st⟩ := turns _
    exact answered _ _ caps started (.inl st)
  | woken =>
    obtain ⟨caps, started, st⟩ := turns _
    exact answered _ _ caps started (.inr st)
  | wakes =>
    obtain ⟨caps, started, st⟩ := turns _
    exact begun _ caps started (.inr st)
  | starts => exact begun _ rfl rfl tidy.known

theorem goes_handled {s t : Core} (goes : Goes s t) : Goes s (handled t) :=
  goes.trans (SameStore.goes ⟨rfl, rfl, rfl, rfl, rfl, rfl, rfl, rfl⟩ goes.settled)

theorem tidy_ctrl (ctrl : Status) (tidy : Tidy s) : Tidy { s with ctrl := ctrl } ∧ Goes s { s with ctrl := ctrl } := by
  obtain ⟨_, wired, _⟩ := id tidy.settled
  have goes : Goes s { s with ctrl := ctrl } := goes_frame tidy.settled rfl rfl rfl wired.awake
  exact ⟨⟨goes.settled, tidy.numbered, tidy.known⟩, goes⟩

theorem react_tidy (event : Event) (tidy : Tidy s) : TidyKept (react s event) ∧
      (PauseSafe s ⟨event, [], s.mallocs⟩ → PausedServed s → (react s event).ctrl = .stopped ∨ PausedServed (react s event)) := by
  have both : ∀ {t : Core}, Goes s t → Ends s t → TidyKept t ∧ (PauseSafe s ⟨event, [], s.mallocs⟩ → PausedServed s →
      t.ctrl = .stopped ∨ PausedServed t) :=
    fun goes ends => ⟨.inr (tidy_ends ends goes.settled tidy), fun _ served => .inr (goes.served served)⟩
  have still := both (goes_refl tidy.settled) (Ends.refl s)
  cases event with
  | start req =>
    rw [react]
    split
    · exact still
    · have goes := goes_captureHandleMsgStart tidy.settled tidy.numbered tidy.known req
      obtain ⟨numbered, known⟩ := start_rest s req tidy
      exact ⟨.inr ⟨(goes_handled goes).settled, numbered, known⟩, fun _ served => .inr ((goes_handled goes).served served)⟩
  | stop req =>
    rw [react]
    split
    · exact still
    · exact both (goes_handled (goes_captureHandleMsgStop tidy.settled req)) ((ends_captureHandleMsgStop s req).trans (ends_handled _))
  | stopall req =>
    rw [react]
    split
    · exact still
    · exact both (goes_handled (goes_captureHandleMsgStopall tidy.settled req)) ((ends_captureHandleMsgStopall s req).trans (ends_handled _))
  | packets id error arrived failed =>
    obtain ⟨settled, served⟩ := goes_capEvtCb tidy.settled id _ _ _
    exact ⟨.inr (tidy_ends (ends_capEvtCb s id _ _ _) settled tidy), fun safe before => .inr (served safe before)⟩
  | timeout id => exact both (goes_capTimeoutCb tidy.settled id) (ends_capTimeoutCb s id)
  | uploaded exited => exact both (goes_outTimeoutCb tidy.settled _) (ends_outTimeoutCb s _)
  | connected =>
    rw [react]
    split
    · obtain ⟨moved, goes⟩ := tidy_ctrl s .reg tidy
      exact ⟨.inr moved, fun _ served => .inr (goes.served served)⟩
    · exact still
  | registered status =>
    rw [react]
    split
    · exact still
    · by_cases taken : status = 0
      · rw [if_pos taken]
        obtain ⟨moved, goes⟩ := tidy_ctrl s _ tidy
        have done := goes_handled goes
        exact ⟨.inr ⟨done.settled, tidy.numbered, tidy.known⟩, fun _ served => .inr (done.served served)⟩
      · rw [if_neg taken]
        exact ⟨.inl rfl, fun _ _ => .inl rfl⟩
  | lost => exact ⟨.inl rfl, fun _ _ => .inl rfl⟩

theorem tidy_given {s : Core} (tidy : Tidy s) (forks mallocs : List Bool) :
    Tidy { s with forks := forks, mallocs := mallocs } ∧ Goes s { s with forks := forks, mallocs := mallocs } := by
  obtain ⟨_, wired, _⟩ := id tidy.settled
  have goes : Goes s { s with forks := forks, mallocs := mallocs } := goes_frame tidy.settled rfl rfl rfl wired.awake
  exact ⟨⟨goes.settled, tidy.numbered, tidy.known⟩, goes⟩

theorem tidy_step (h : Happening) (kept : TidyKept s) : TidyKept (sniffer s h) := by
  unfold sniffer
  split
  · rename_i ended
    exact .inl ended
  · rename_i going
    exact (react_tidy _ _ (tidy_given (kept.resolve_left going) _ _).1).1

def ServedKept (s : Core) : Prop := s.ctrl = .stopped ∨ (Tidy s ∧ PausedServed s)

theorem served_step (h : Happening) (kept : ServedKept s) (safe : PauseSafe s h) : ServedKept (sniffer s h) := by
  have next := tidy_step s h (kept.imp_right And.left)
  unfold sniffer at next ⊢
  split
  · rename_i ended
    exact .inl ended
  · rename_i going
    rw [if_neg going] at next
    obtain ⟨tidy, served⟩ := kept.resolve_left going
    obtain ⟨given, goes⟩ := tidy_given tidy _ _
    rcases next with ended | after
    · exact .inl ended
    · exact ((react_tidy _ _ given).2 safe (goes.served served)).imp_right fun done => ⟨after, done⟩

theorem boot_tidy (online : Bool) (memTotal memMaxsingle : Int) : Tidy (boot online memTotal memMaxsingle) := by
  refine ⟨⟨none, ⟨List.nodup_nil, fun cap there => (nomatch there), List.nodup_nil, fun file there => (nomatch there), fun file there => (nomatch there),
    List.nodup_nil, fun file there => (nomatch there), fun file same => (nomatch same), fun cap there => (nomatch there), fun some => absurd rfl some,
    fun id same => (nomatch same)⟩, Serving.paused rfl rfl rfl⟩, fun cap there => (nomatch there), .inl rfl⟩

def Resumes (s : Core) : Prop :=
  ((∃ cap ∈ s.caps, cap.st = .paused) → s.out.st = .normal ∧ s.out.timer = true) ∧
    ∀ cap ∈ (captureContinueCapturing s).caps, cap.st ≠ .paused

theorem served_resumes {s : Core} (tidy : Tidy s) (served : PausedServed s) : Resumes s := by
  obtain ⟨current, wired, serving⟩ := tidy.settled
  refine ⟨?_, none_paused_continue wired⟩
  rintro ⟨cap, there, paused⟩
  rcases served with none | process
  · exact absurd paused (none cap there)
  · refine ⟨process, ?_⟩
    cases serving with
    | process _ _ timer _ => exact timer
    | paused st _ _ => exact nomatch st.symm.trans process
    | stopped st _ => exact nomatch st.symm.trans process

theorem paused_resumes (online : Bool) (memTotal memMaxsingle : Int) (happenings : List Happening)
    (safe : AllSteps sniffer PauseSafe (boot online memTotal memMaxsingle) happenings)
    (going : (run sniffer (boot online memTotal memMaxsingle) happenings).ctrl ≠ .stopped) :
    Resumes (run sniffer (boot online memTotal memMaxsingle) happenings) := by
  have begun : ServedKept _ := .inr ⟨boot_tidy online memTotal memMaxsingle, .inl fun cap there => (nomatch there)⟩
  have kept := run_keeps _ _ _ _ _ begun (fun s h inv ok => served_step s h inv ok) safe
  obtain ⟨tidy, served⟩ := kept.resolve_left going
  exact served_resumes tidy served

-- The second packet pauses the capture while the first file is uploaded.
theorem paused_resumes_sample :
    Resumes (run sniffer (boot true 100 60) [calm (.registered 0), calm (.start plainRequest), calm (.packets 0 false [⟨true, 70⟩] false),
      calm (.packets 0 false [⟨true, 50⟩] false)]) := by
  refine paused_resumes true 100 60 _ ⟨trivial, trivial, fun cap found _ _ _ starves => ?_, fun cap found _ _ _ starves => ?_, trivial⟩ (by decide)
  · obtain rfl := Option.some.inj found
    exact absurd starves (by decide)
  · decide

-- One packet uses up a memory of 60 bytes before its file of 100 is full.
theorem paused_forever : ¬ ∀ (online : Bool) (memTotal memMaxsingle : Int) (happenings : List Happening),
      (run sniffer (boot online memTotal memMaxsingle) happenings).ctrl ≠ .stopped →
        Resumes (run sniffer (boot online memTotal memMaxsingle) happenings) := by
  intro claim
  have resumes := claim true 60 100 [calm (.registered 0), calm (.start plainRequest), calm (.packets 0 false [⟨true, 70⟩] false)] (by decide)
  exact absurd (resumes.1 (by decide)).1 (by decide)

end Codec.Sniffer
