import Mathlib.Algebra.Ring.Int.Defs
import Codec.Sniffer.Listed

set_option autoImplicit false

namespace Codec.Sniffer

structure SameStore (s t : Core) : Prop where
  ctrl : t.ctrl = s.ctrl
  st : t.st = s.st
  caps : t.caps = s.caps
  total : t.memTotal = s.memTotal
  left : t.memLeft = s.memLeft
  out : t.out = s.out
  written : t.written = s.written
  forks : t.forks = s.forks

variable (s : Core) (id : Nat) (file : File)

theorem SameStore.refl : SameStore s s := ⟨rfl, rfl, rfl, rfl, rfl, rfl, rfl, rfl⟩

theorem SameStore.trans {s t u : Core} (first : SameStore s t) (second : SameStore t u) : SameStore s u :=
  ⟨second.ctrl.trans first.ctrl, second.st.trans first.st, second.caps.trans first.caps, second.total.trans first.total,
    second.left.trans first.left, second.out.trans first.out, second.written.trans first.written, second.forks.trans first.forks⟩

theorem same_touchFile : SameStore s (touchFile s file) := ⟨rfl, rfl, rfl, rfl, rfl, rfl, rfl, rfl⟩

theorem same_touchFiles (files : List File) (s : Core) : SameStore s (touchFiles s files) := by
  induction files generalizing s with
  | nil => exact SameStore.refl s
  | cons file rest ih => exact (same_touchFile s file).trans (ih _)

theorem same_send (entry : Entry) : SameStore s (ctrlSendMsg s entry) := by
  unfold ctrlSendMsg
  split
  · exact SameStore.refl s
  · exact ⟨rfl, rfl, rfl, rfl, rfl, rfl, rfl, rfl⟩

theorem same_taken (cap : Cap) (errcode : Int) :
    SameStore { onCap s file.inf (fun cap => { cap with list := cap.list.erase file }) with
      out := { s.out with flg := none }, memLeft := s.memLeft + file.filesize } (capFileTaken s file cap errcode) := by
  have told := same_send { touchFile s file with out := { (touchFile s file).out with flg := none },
                                                 memLeft := (touchFile s file).memLeft + file.filesize } (capEvent .uploading cap errcode)
  exact ⟨told.ctrl, told.st, congrArg (modifyCap _ _) told.caps, told.total, told.left, told.out, told.written, told.forks⟩

theorem taken_found {s : Core} {file : File} {cap : Cap} (found : cap? s file.inf = some cap) (errcode : Int) :
    cap? (capFileTaken s file cap errcode) file.inf = some { cap with list := cap.list.erase file } := by
  rw [cap?, (same_taken s file cap _).caps]
  exact changed_found found fun _ => rfl

theorem same_sends (caps : List Cap) (s : Core) :
    SameStore s (caps.foldl (fun s cap => ctrlSendMsg s (capturingEvent cap)) s) := by
  induction caps generalizing s with
  | nil => exact SameStore.refl s
  | cons cap rest ih => exact (same_send s _).trans (ih _)

def woken (cap : Cap) : Cap := if cap.st = .paused then resumed cap else cap

theorem continue_caps (running : s.st = .normal) : (captureContinueCapturing s).caps = s.caps.map woken := by
  rw [captureContinueCapturing, if_neg (not_not.mpr running)]
  rfl

theorem continue_rest : SameStore { s with caps := (captureContinueCapturing s).caps } (captureContinueCapturing s) := by
  rw [captureContinueCapturing]
  split
  · exact SameStore.refl s
  · have sent := same_sends (s.caps.filter fun cap => cap.st = .paused) s
    exact ⟨sent.ctrl, sent.st, rfl, sent.total, sent.left, sent.out, sent.written, sent.forks⟩

def sizes (files : List File) : Int := (files.map File.filesize).sum

def halted (out : Output) : Output :=
  { out with st := .stopped, timer := false, curfl := none, listFiles := [], unlinked := out.unlinked ++ links out.listFiles }

def dropOne (out : Output) (file : File) : Output :=
  if out.flg = some file.id then (if out.st = .stopped then out else halted out)
  else { out with listFiles := out.listFiles.erase file }

def dropped (out : Output) (files : List File) : Output := files.foldl dropOne out

theorem drop_same :
    SameStore { s with caps := modifyCap id (fun cap => { cap with list := cap.list.erase file }) s.caps,
                       memLeft := s.memLeft + file.filesize, out := dropped s.out [file] } (capDropFile s id file) := by
  unfold capDropFile
  rw [show dropped _ _ = dropOne _ file from rfl, dropOne]
  dsimp only
  by_cases flagged : s.out.flg = some file.id
  · rw [if_pos flagged, if_pos (show (touchFile s file).out.flg = some _ from flagged)]
    unfold outputIntoStopped
    by_cases stopped : s.out.st = .stopped
    · rw [if_pos stopped, if_pos (show (touchFile s file).out.st = .stopped from stopped)]
      exact ⟨rfl, rfl, rfl, rfl, rfl, rfl, rfl, rfl⟩
    · rw [if_neg stopped, if_neg (show ¬ (touchFile s file).out.st = .stopped from stopped)]
      exact ⟨rfl, rfl, rfl, rfl, rfl, rfl, rfl, rfl⟩
  · rw [if_neg flagged, if_neg (show ¬ (touchFile s file).out.flg = some _ from flagged)]
    unfold outputRemove
    by_cases queued : file ∈ s.out.listFiles
    · rw [if_pos (show file ∈ (touchFile s file).out.listFiles from queued)]
      have same := same_touchFiles (neighbours file s.out.listFiles) (touchFile s file)
      refine ⟨same.ctrl, same.st, ?_, same.total, ?_, ?_, same.written, same.forks⟩
      · exact congrArg (modifyCap id _) same.caps
      · exact congrArg (· + file.filesize) same.left
      · show { (touchFiles _ (neighbours file s.out.listFiles)).out with
          listFiles := (touchFiles (touchFile s file) (neighbours file s.out.listFiles)).out.listFiles.erase file } = _
        rw [same.out]
        rfl
    · rw [if_neg (show ¬ file ∈ (touchFile s file).out.listFiles from queued)]
      have same := same_touchFiles (s.out.unlinked.filterMap fun link => if link.1 = file then link.2 else none) (touchFile s file)
      refine ⟨same.ctrl, same.st, ?_, same.total, ?_, ?_, same.written, same.forks⟩
      · exact congrArg (modifyCap id _) same.caps
      · exact congrArg (· + file.filesize) same.left
      · refine same.out.trans ?_
        rw [List.erase_of_not_mem queued]
        rfl

theorem removeCap_modify (change : Cap → Cap) (keeps : ∀ cap, (change cap).id = cap.id) (caps : List Cap) :
    removeCap id (modifyCap id change caps) = removeCap id caps := by
  induction caps with
  | nil => rfl
  | cons cap rest ih =>
    by_cases found : cap.id = id
    · simp [modifyCap, removeCap, found, keeps]
    · simp [modifyCap, removeCap, found, ih]

theorem drops_same (id : Nat) (files : List File) (s : Core) :
    let t := files.foldl (fun s file => capDropFile s id file) s
    SameStore { s with caps := t.caps, memLeft := s.memLeft + sizes files, out := dropped s.out files } t ∧
      removeCap id t.caps = removeCap id s.caps := by
  induction files generalizing s with
  | nil => exact ⟨⟨rfl, rfl, rfl, rfl, (Int.add_zero _).symm, rfl, rfl, rfl⟩, rfl⟩
  | cons file rest ih =>
    obtain ⟨same, others⟩ := ih _
    have one := drop_same s id file
    refine ⟨⟨same.ctrl.trans one.ctrl, same.st.trans one.st, rfl, same.total.trans one.total, ?_, ?_, same.written.trans one.written,
      same.forks.trans one.forks⟩, ?_⟩
    · refine same.left.trans ?_
      rw [one.left]
      simp only [sizes, List.map_cons, List.sum_cons]
      omega
    · refine same.out.trans ?_
      rw [one.out]
      rfl
    · refine others.trans ?_
      rw [one.caps]
      refine removeCap_modify id _ ?_ _
      exact fun _ => rfl

theorem exit_same :
    SameStore { s with caps := removeCap id s.caps,
                       st := if (removeCap id s.caps).isEmpty ∧ s.st ≠ .stopped then .paused else s.st } (captureCapExit s id) := by
  unfold captureCapExit captureIntoPaused sendApcfg
  by_cases last : (removeCap id s.caps).isEmpty ∧ s.st ≠ .stopped
  · rw [if_pos last, if_pos last]
    by_cases paused : s.st = .paused
    · rw [if_pos paused]
      exact ⟨rfl, paused, rfl, rfl, rfl, rfl, rfl, rfl⟩
    · rw [if_neg paused]
      split <;> exact ⟨rfl, rfl, rfl, rfl, rfl, rfl, rfl, rfl⟩
  · rw [if_neg last, if_neg last]
    exact SameStore.refl _

def Awake (s : Core) : Prop := s.caps ≠ [] → s.st = .normal

theorem cap_nonempty {s : Core} {id : Nat} {cap : Cap} (found : cap? s id = some cap) : s.caps ≠ [] :=
  List.ne_nil_of_mem (List.mem_of_find?_eq_some found)

theorem removeCap_nil {id : Nat} {caps : List Cap} (some : removeCap id caps ≠ []) : caps ≠ [] := by
  intro none
  rw [none] at some
  exact some rfl

structure Stopped (s : Core) (id : Nat) (cap : Cap) (t : Core) : Prop where
  ctrl : t.ctrl = s.ctrl
  caps : t.caps = (removeCap id s.caps).map woken
  st : t.caps ≠ [] → t.st = .normal
  idle : t.st = s.st ∨ t.st = .paused
  total : t.memTotal = s.memTotal
  left : t.memLeft = s.memLeft + sizes cap.list
  out : t.out = dropped s.out cap.list
  written : t.written = s.written
  forks : t.forks = s.forks

theorem intoStop_spec (cap : Cap) (found : cap? s id = some cap) (awake : Awake s) :
    Stopped s id cap (capStatusIntoStop s id) := by
  unfold capStatusIntoStop
  rw [found]
  dsimp only
  obtain ⟨same, others⟩ := drops_same id _ _
  generalize cap.list.foldl _
    _ = t at same others
  have told := same_send t (capEvent .stop cap cap.lasterr)
  generalize ctrlSendMsg t _ = u at told
  have left := exit_same u id
  have removed : removeCap id u.caps = removeCap id s.caps := by
    rw [told.caps, others]
    refine removeCap_modify id _ ?_ _
    exact fun _ => rfl
  have st : u.st = s.st := told.st.trans same.st
  have rest := continue_rest (captureCapExit u id)
  have exited : (captureCapExit u id).caps = removeCap id _ := left.caps.trans removed
  have status : (captureCapExit u id).st = if (removeCap id s.caps).isEmpty ∧ s.st ≠ .stopped then .paused else s.st := by
    rw [left.st, ← removed, ← st]
  have running : removeCap id s.caps ≠ [] → (captureCapExit u id).st = .normal := by
    intro some
    rw [status, if_neg fun last => some (List.isEmpty_iff.mp last.1)]
    exact awake (removeCap_nil some)
  have caps : (captureContinueCapturing (captureCapExit u id)).caps = (removeCap id s.caps).map woken := by
    by_cases some : removeCap id s.caps = []
    · rw [some, List.map_nil]
      unfold captureContinueCapturing
      split
      · rw [exited, some]
      · rw [exited, some]
        rfl
    · rw [continue_caps _ (running some), exited]
  refine ⟨rest.ctrl.trans (left.ctrl.trans (told.ctrl.trans same.ctrl)), caps, fun some => ?_, ?_,
    rest.total.trans (left.total.trans (told.total.trans same.total)), rest.left.trans (left.left.trans (told.left.trans same.left)),
    rest.out.trans (left.out.trans (told.out.trans same.out)), rest.written.trans (left.written.trans (told.written.trans same.written)),
    rest.forks.trans (left.forks.trans (told.forks.trans same.forks))⟩
  · rw [caps] at some
    exact rest.st.trans (running fun none => some (by rw [none]; rfl))
  · have final : (captureContinueCapturing _).st = (captureCapExit u id).st := rest.st
    rw [final, status]
    split
    · exact .inr rfl
    · exact .inl rfl

theorem finished_shut {s : Core} {id : Nat} {cap : Cap} (found : cap? s id = some cap) (shut : cap.fp = false) :
    capFileFinished s id = (onCap s id fun cap => { cap with lasterr := 0 }, false) := by
  unfold capFileFinished
  rw [found]
  exact if_pos (by simp [shut])

theorem finished_short {s : Core} {id : Nat} {cap : Cap} (found : cap? s id = some cap) (opened : cap.fp = true) (short : s.mallocs.head? = some false) :
    capFileFinished s id =
      (onCap { onCap s id fileClosed with mallocs := s.mallocs.tail } id fun cap => { cap with lasterr := errMemoryError }, false) := by
  unfold capFileFinished
  rw [found]
  dsimp only
  rw [if_neg (by simp [opened]), if_pos short]

theorem finished_kept {s : Core} {id : Nat} {cap : Cap} (found : cap? s id = some cap) (opened : cap.fp = true) (alloc : s.mallocs.head? ≠ some false) :
    capFileFinished s id = outputUploadFile (capFileAdded s id ⟨s.written, id, cap.size⟩) ⟨s.written, id, cap.size⟩ := by
  unfold capFileFinished
  rw [found]
  dsimp only
  rw [if_neg (by simp [opened]), if_neg alloc]

theorem capStop_absent {s : Core} {id : Nat} (gone : cap? s id = none) : capStop s id = { s with dead := true } := by
  unfold capStop capChangeStatus
  rw [gone]

theorem capStop_spec (cap : Cap) (found : cap? s id = some cap) (up : cap.st ≠ .stopped) (awake : Awake s) :
    Stopped s id cap (capStop s id) := by
  unfold capStop capChangeStatus
  rw [found]
  dsimp only
  rw [if_neg up]
  have marked : cap? (onCap s id fun cap => { cap with st := .stopped }) id = some _ := changed_found found fun _ => rfl
  have still : Awake (onCap s id fun cap => { cap with st := .stopped }) := fun _ => awake (cap_nonempty found)
  have spec := intoStop_spec _ id _ marked still
  refine ⟨spec.ctrl, spec.caps.trans ?_, spec.st, spec.idle, spec.total, spec.left, spec.out, spec.written, spec.forks⟩
  refine congrArg _ (removeCap_modify id _ ?_ _)
  exact fun _ => rfl

end Codec.Sniffer
