import Mathlib.Algebra.Order.BigOperators.Group.List
import Codec.Sniffer.Resume

set_option autoImplicit false

namespace Codec.Sniffer

open Codec.Lib List

def weight (cap : Cap) : Int := sizes cap.list + if cap.fp then cap.size else 0

def weights (s : Core) : Int := (s.caps.map weight).sum

structure Sane (cap : Cap) : Prop where
  closed : cap.fp = false → cap.size = 0
  ended : cap.st = .reg → cap.fp = false
  positive : 0 ≤ cap.size
  files : ∀ file ∈ cap.list, 0 ≤ file.filesize

def AllSane (s : Core) : Prop := ∀ cap ∈ s.caps, Sane cap

structure Books (s t : Core) (due : Int) : Prop where
  even : t.memLeft + weights t = s.memLeft + weights s + due
  total : t.memTotal = s.memTotal
  sane : AllSane t

theorem Books.trans {s t u : Core} {first second : Int} (one : Books s t first) (two : Books t u second) : Books s u (first + second) :=
  ⟨by rw [two.even, one.even]; omega, two.total.trans one.total, two.sane⟩

variable (id : Nat) (packets : List Packet) {s : Core}

theorem books_refl (sane : AllSane s) : Books s s 0 := ⟨(Int.add_zero _).symm, rfl, sane⟩

theorem Books.next {s t u : Core} {due : Int} (one : Books s t due) (two : Books t u 0) : Books s u due := by
  have both := one.trans two
  rwa [Int.add_zero] at both

theorem books_same {s t : Core} (sane : AllSane s) (caps : t.caps = s.caps) (left : t.memLeft = s.memLeft) (total : t.memTotal = s.memTotal) :
    Books s t 0 := by
  refine ⟨?_, total, fun cap there => sane cap (caps ▸ there)⟩
  rw [weights, weights, caps, left, Int.add_zero]

theorem SameStore.books {s t : Core} (same : SameStore s t) (sane : AllSane s) : Books s t 0 := books_same sane same.caps same.left same.total

theorem modify_absent (change : Cap → Cap) (caps : List Cap) (absent : caps.find? (fun cap => cap.id == id) = none) :
    modifyCap id change caps = caps := by
  induction caps with
  | nil => rfl
  | cons first rest ih =>
    have away := find?_eq_none.mp absent
    have other : first.id ≠ id := by simpa using away _ mem_cons_self
    rw [modifyCap, if_neg other, ih]
    exact find?_eq_none.mpr fun cap there => away cap (mem_cons_of_mem _ there)

theorem books_onCap (sane : AllSane s) (id : Nat) (change : Cap → Cap) (due : Int)
    (adds : ∀ cap, cap? s id = some cap → weight (change cap) = weight cap + due ∧ Sane (change cap)) (none : cap? s id = none → due = 0) :
    Books s (onCap s id change) due := by
  cases found : cap? s id with
  | none =>
    have same : (onCap s id _).caps = s.caps := modify_absent id change _ found
    have books := books_same (t := onCap s id _) sane same rfl rfl
    rw [none found]
    exact books
  | some cap =>
    obtain ⟨before, after, shape, changed⟩ := modify_split id _ _ cap found
    obtain ⟨heavier, well⟩ := adds cap found
    refine ⟨?_, rfl, fun other there => ?_⟩
    · show s.memLeft + ((modifyCap id _ _).map _).sum = _
      rw [weights, changed, shape]
      simp only [map_append, map_cons, sum_append, sum_cons, heavier]
      omega
    · have member : other ∈ before ++ change cap :: after := changed ▸ there
      rcases mem_append.mp member with old | here
      · exact sane _ (shape ▸ mem_append_left _ old)
      · rcases mem_cons.mp here with rfl | old
        · exact well
        · exact sane _ (shape ▸ mem_append_right _ (mem_cons_of_mem _ old))

theorem books_quiet (sane : AllSane s) {id : Nat} {change : Cap → Cap} (keeps : ∀ cap, weight (change cap) = weight cap)
    (well : ∀ cap, Sane cap → Sane (change cap)) : Books s (onCap s id change) 0 := by
  refine books_onCap sane id _ 0 (fun cap found => ⟨?_, well cap (sane cap (found_mem found).1)⟩) fun _ => rfl
  rw [keeps, Int.add_zero]

theorem sane_woken (cap : Cap) (sane : Sane cap) : Sane (woken cap) := by
  unfold woken
  split
  · exact ⟨sane.closed, fun ended => (nomatch ended), sane.positive, sane.files⟩
  · exact sane

theorem woken_fp (cap : Cap) : (woken cap).fp = cap.fp := by
  unfold woken
  split <;> rfl

theorem weights_woken (caps : List Cap) : ((caps.map woken).map weight).sum = (caps.map weight).sum := by
  rw [map_map]
  refine congrArg _ (map_congr_left fun cap _ => ?_)
  show weight _ = weight cap
  unfold woken
  split <;> rfl

theorem books_continue (sane : AllSane s) : Books s (captureContinueCapturing s) 0 := by
  have rest := continue_rest s
  by_cases running : s.st = .normal
  · have caps := continue_caps s running
    refine ⟨?_, rest.total, fun cap there => ?_⟩
    · rw [weights, caps, weights_woken, rest.left, Int.add_zero]
      rfl
    · rw [caps] at there
      obtain ⟨old, member, rfl⟩ := woken_mem there
      exact sane_woken old (sane old member)
  · rw [captureContinueCapturing, if_pos running]
    exact books_refl sane

theorem removeCap_split (caps : List Cap) (cap : Cap) (found : caps.find? (fun cap => cap.id == id) = some cap) :
    ∃ before after, caps = before ++ cap :: after ∧ removeCap id caps = before ++ after := by
  induction caps with
  | nil => exact nomatch found
  | cons first rest ih =>
    by_cases here : first.id = id
    · have same : first = cap := by simpa [here] using found
      exact ⟨[], rest, by rw [same]; rfl, by rw [removeCap, if_pos here]; rfl⟩
    · have below : rest.find? (fun cap => cap.id == id) = some cap := by simpa [here] using found
      obtain ⟨before, after, shape, removed⟩ := ih below
      exact ⟨first :: before, after, by rw [shape]; rfl, by rw [removeCap, if_neg here, removed]; rfl⟩

theorem books_stopped {s t : Core} (sane : AllSane s) {id : Nat} {cap : Cap} (found : cap? s id = some cap) (stopped : Stopped s id cap t)
    (closed : cap.fp = false) : Books s t 0 := by
  obtain ⟨before, after, shape, removed⟩ := removeCap_split id _ cap found
  have light : weight cap = sizes cap.list := by
    rw [weight, closed]
    exact Int.add_zero _
  refine ⟨?_, stopped.total, fun other there => ?_⟩
  · rw [weights, weights, stopped.caps, weights_woken, stopped.left, removed, shape]
    simp only [map_append, map_cons, sum_append, sum_cons, light]
    omega
  · rw [stopped.caps] at there
    obtain ⟨old, member, rfl⟩ := woken_mem there
    exact sane_woken old (sane old ((removeCap_sublist id _).subset member))

theorem books_dead (sane : AllSane s) : Books s { s with dead := true } 0 := books_same sane rfl rfl rfl

theorem books_capStop (settled : Settled s) (sane : AllSane s) (id : Nat) (closed : ∀ cap, cap? s id = some cap → cap.fp = false) :
    Books s (capStop s id) 0 := by
  obtain ⟨current, wired, _⟩ := settled
  cases found : cap? s id with
  | none =>
    rw [capStop_absent found]
    exact books_dead sane
  | some cap =>
    have stopped := capStop_spec s id cap found (wired.up cap (found_mem found).1) wired.awake
    exact books_stopped sane found stopped (closed cap found)

theorem sizes_erase (files : List File) (file : File) (there : file ∈ files) : sizes (files.erase file) + file.filesize = sizes files := by
  induction files with
  | nil => exact nomatch there
  | cons first rest ih =>
    by_cases same : first = file
    · subst same
      rw [erase_cons_head]
      simp only [sizes, map_cons, sum_cons]
      omega
    · have below : file ∈ rest := (mem_cons.mp there).resolve_left fun equal => same equal.symm
      have one := ih below
      rw [erase_cons_tail (by simpa using same)]
      simp only [sizes, map_cons, sum_cons] at one ⊢
      omega

theorem books_taken (sane : AllSane s) {file : File} {cap : Cap} (found : cap? s file.inf = some cap) (listed : file ∈ cap.list)
    (errcode : Int) : Books s (capFileTaken s file cap errcode) 0 := by
  have given : Books s { s with out := { s.out with flg := none }, memLeft := s.memLeft + file.filesize } file.filesize := by
    refine ⟨?_, rfl, sane⟩
    show s.memLeft + file.filesize + weights s = _
    omega
  have erased := books_onCap given.sane _ (fun cap => { cap with list := cap.list.erase file }) (-file.filesize) (fun other same => ?_)
    fun none => (nomatch none.symm.trans found)
  · have both := given.trans erased
    rw [Int.add_right_neg] at both
    exact both.next ((same_taken s file cap _).books both.sane)
  · obtain rfl := Option.some.inj (same.symm.trans found)
    have sound := sane _ (found_mem found).1
    refine ⟨?_, sound.closed, sound.ended, sound.positive, fun other there => sound.files _ (mem_of_mem_erase there)⟩
    have one := sizes_erase _ file listed
    show sizes (other.list.erase file) + (if other.fp then other.size else 0) =
      sizes _ + (if other.fp then other.size else 0) + -file.filesize
    omega

def ClosedOwner (s : Core) (file : File) : Prop := ∀ cap ∈ s.caps, cap.id = file.inf → cap.fp = false

structure Failed (s : Core) (file : File) (t : Core) : Prop where
  books : Books s t 0
  queue : t.out.listFiles = s.out.listFiles.filter fun other => other.inf ≠ file.inf
  owners : ∀ other, ClosedOwner s other → ClosedOwner t other

def uploadFailed (s : Core) (file : File) (cap : Cap) : Core :=
  onCap (capFileTaken s file cap errUploadFailed) file.inf fun cap => { cap with lasterr := errUploadFailed }

theorem failed_found {file : File} {cap : Cap} (found : cap? s file.inf = some cap) :
    cap? (uploadFailed s file cap) file.inf = some { cap with list := cap.list.erase file, lasterr := errUploadFailed } :=
  changed_found (taken_found found _) fun _ => rfl

theorem failed_wired {file : File} (wired : Wired s (some file)) {cap : Cap} (found : cap? s file.inf = some cap) :
    Wired (uploadFailed s file cap) none :=
  wired_onCap (wired_taken wired found _) (fun _ => rfl) fun _ up => up

theorem failed_spec (sane : AllSane s) {file : File} (wired : Wired s (some file)) {code : Int} (failed : code ≠ 0)
    (closed : ClosedOwner s file) : Failed s file (capFileUploadFinished s file code) := by
  obtain ⟨cap, found, listed⟩ := held_found wired (wired.apart file rfl).1
  have left := same_taken s file cap errUploadFailed
  have marked := failed_found found
  have marking := failed_wired wired found
  have given := books_taken sane found listed errUploadFailed
  have noted : Books _ (uploadFailed s file cap) 0 := books_quiet given.sane (fun _ => rfl) fun _ well => { well with }
  have unopened : cap.fp = false := closed cap (found_mem found).1 (found_mem found).2
  have stopped := capStop_spec _ _ _ marked (marking.up _ (found_mem marked).1) marking.awake
  have shape : capFileUploadFinished s file code = capStop (uploadFailed s file cap) file.inf := by
    unfold capFileUploadFinished
    rw [found]
    dsimp only
    rw [if_pos failed]
    rfl
  rw [shape]
  refine ⟨(given.next noted).next (books_stopped noted.sane marked stopped unopened), ?_, fun other owner holder member named => ?_⟩
  · have out : (uploadFailed s file cap).out = { s.out with flg := none } := left.out
    have quiet : ¬ Halts { s.out with flg := none } (cap.list.erase file) := by
      rintro ⟨_, other, _, flagged⟩
      exact nomatch flagged
    rw [stopped.out, out, dropped_goes _ _ quiet fun _ _ flagged => (nomatch flagged)]
    rw [Nodup.sdiff_eq_filter wired.once]
    refine filter_congr fun other queued => ?_
    have owned := list_of_held wired found (wired.queued _ queued)
    have apart : other ≠ file := fun same => (wired.apart file rfl).2 (same ▸ queued)
    have member : other ∈ cap.list.erase file ↔ other ∈ cap.list := mem_erase_of_ne apart
    simp only [member, owned, decide_not]
  · rw [stopped.caps] at member
    obtain ⟨old, before, rfl⟩ := woken_mem member
    have id : (woken old).id = old.id := congrArg Prod.fst (woken_anchored old)
    rw [woken_fp]
    rw [id] at named
    have taken : ∀ holder ∈ (capFileTaken s file cap errUploadFailed).caps, holder.id = other.inf → holder.fp = false := by
      intro holder there named
      rw [left.caps] at there
      rcases mem_modify there with older | ⟨older, old, _, rfl⟩
      · exact owner _ older named
      · exact owner older old named
    rcases mem_modify ((removeCap_sublist _ _).subset before) with older | ⟨older, there, _, rfl⟩
    · exact taken old older named
    · exact taken older there named

theorem uploaded_books (sane : AllSane s) {file : File} (wired : Wired s (some file)) :
    Books s (capFileUploadFinished s file 0) 0 ∧ (capFileUploadFinished s file 0).out.listFiles = s.out.listFiles ∧
      ∀ other, ClosedOwner s other → ClosedOwner (capFileUploadFinished s file 0) other := by
  obtain ⟨cap, found, listed⟩ := held_found wired (wired.apart file rfl).1
  have taken := wired_taken wired found 0
  have left := same_taken s file cap 0
  have still := taken_found found 0
  have given := books_taken sane found listed 0
  have out : (capFileTaken s file cap 0).out = { s.out with flg := none } := left.out
  have owners : ∀ other, ClosedOwner s other → ClosedOwner (capFileTaken s file cap 0) other := by
    intro other owner holder there named
    rw [left.caps] at there
    rcases mem_modify there with older | ⟨older, old, _, rfl⟩
    · exact owner _ older named
    · exact owner older old named
  have awake : ∀ other (caps : List Cap), (∀ holder ∈ caps, holder.id = other → holder.fp = false) →
      ∀ holder ∈ caps.map woken, holder.id = other → holder.fp = false := by
    intro other caps owner holder there named
    obtain ⟨old, member, rfl⟩ := woken_mem there
    have id : (woken old).id = old.id := congrArg Prod.fst (woken_anchored old)
    rw [woken_fp]
    exact owner old member (id ▸ named)
  unfold capFileUploadFinished
  rw [found]
  dsimp only
  rw [if_neg (by simp)]
  split
  · rename_i emptied
    have empty : cap.list.erase file = [] := isEmpty_iff.mp emptied.2
    have stopped := capStop_spec _ _ _ still (taken.up _ (found_mem still).1) taken.awake
    have shut : cap.fp = false := (sane cap (found_mem found).1).ended emptied.1
    refine ⟨given.next (books_stopped given.sane still stopped shut), ?_, fun other owner => ?_⟩
    · rw [stopped.out]
      rw [empty, out]
      rfl
    · unfold ClosedOwner
      rw [stopped.caps]
      refine awake _ _ fun holder there => owners _ owner _ ((removeCap_sublist _ _).subset there)
  · have woke := continue_rest (capFileTaken s file cap 0)
    refine ⟨given.next (books_continue given.sane), ?_, fun other owner => ?_⟩
    · rw [woke.out]
      rw [out]
    · unfold ClosedOwner
      by_cases running : (capFileTaken s file cap 0).st = .normal
      · rw [continue_caps _ running]
        exact awake _ _ (owners _ owner)
      · rw [captureContinueCapturing, if_pos running]
        exact owners _ owner

def forkFailures : List Bool → List File → List File
  | false :: forks, file :: rest => file :: forkFailures forks (rest.filter fun other => other.inf ≠ file.inf)
  | _, _ => []
termination_by structural forks => forks

theorem books_outputContinue (forks : List Bool) {s : Core} (sane : AllSane s) (wired : Wired s none)
    (closed : ∀ file ∈ forkFailures forks s.out.listFiles, ClosedOwner s file) :
    Books s (outputContinue forks s) 0 ∧ ∀ other, ClosedOwner s other → ClosedOwner (outputContinue forks s) other := by
  induction forks generalizing s with
  | nil =>
    unfold outputContinue
    cases s.out.listFiles with
    | nil => exact ⟨books_same sane rfl rfl rfl, fun _ owner => owner⟩
    | cons file rest => exact ⟨books_same sane rfl rfl rfl, fun _ owner => owner⟩
  | cons ok forks ih =>
    unfold outputContinue
    cases queue : s.out.listFiles with
    | nil => exact ⟨books_same sane rfl rfl rfl, fun _ owner => owner⟩
    | cons file rest =>
      cases ok with
      | true => exact ⟨books_same sane rfl rfl rfl, fun _ owner => owner⟩
      | false =>
        rw [queue, forkFailures] at closed
        have taken := wired_take wired queue
        have failing := wired_failing taken
        have given : Books s { outputTake s file rest with out := { (outputTake s file rest).out with lasterr := errMemoryError, st := .reg } } 0 :=
          books_same sane rfl rfl rfl
        have failed := failed_spec given.sane failing (show errMemoryError ≠ 0 by decide) (closed file mem_cons_self)
        have books := given.next failed.books
        obtain ⟨after, owners⟩ := ih books.sane (forkFailed_spec taken).wired fun other there => by
          refine failed.owners _ (closed _ (mem_cons_of_mem _ ?_))
          rw [failed.queue] at there
          exact there
        exact ⟨books.next after, fun other owner => owners _ (failed.owners _ owner)⟩

theorem books_outputUploadFile (sane : AllSane s) {current : Option File} (wired : Wired s current) (serving : Serving s.out current)
    {file : File} (there : file ∈ held s) (unqueued : file ∉ s.out.listFiles) (closed : ClosedOwner s file) :
    Books s (outputUploadFile s file).1 0 ∧ ∀ other, ClosedOwner s other → ClosedOwner (outputUploadFile s file).1 other := by
  by_cases idle : s.out.st = .paused
  · obtain ⟨rfl, _, empty⟩ := serving.idle idle
    have queued := wired_queued wired there unqueued nofun
    unfold outputUploadFile
    rw [if_pos idle]
    have chain := books_outputContinue s.forks (s := { s with out := { s.out with listFiles := s.out.listFiles ++ [file] } }) sane queued
      fun other failing => ?_
    · exact ⟨⟨chain.1.even, chain.1.total, chain.1.sane⟩, chain.2⟩
    have one : other = file := by
      have shape : s.out.listFiles ++ [file] = [file] := by rw [empty]; rfl
      rw [shape] at failing
      cases forks : s.forks with
      | nil => rw [forks] at failing; exact nomatch failing
      | cons ok rest =>
        rw [forks] at failing
        cases ok with
        | true => exact nomatch failing
        | false =>
          rw [forkFailures, filter_nil] at failing
          rcases mem_cons.mp failing with same | more
          · exact same
          · cases rest with
            | nil => exact nomatch more
            | cons ok rest =>
              cases ok with
              | true => exact nomatch more
              | false => exact nomatch more
    rw [one]
    exact closed
  · rw [upload_busy s file idle]
    exact ⟨books_same sane rfl rfl rfl, fun _ owner => owner⟩

theorem modify_twice (first second : Cap → Cap) (keeps : ∀ cap, (first cap).id = cap.id) (caps : List Cap) :
    modifyCap id second (modifyCap id first caps) = modifyCap id (fun cap => second (first cap)) caps := by
  induction caps with
  | nil => rfl
  | cons cap rest ih =>
    by_cases here : cap.id = id
    · rw [modifyCap, if_pos here, modifyCap, if_pos ((keeps cap).trans here), modifyCap, if_pos here]
    · rw [modifyCap, if_neg here, modifyCap, if_neg here, modifyCap, if_neg here, ih]

theorem onCap_twice (s : Core) (id : Nat) (first second : Cap → Cap) (keeps : ∀ cap, (first cap).id = cap.id) :
    onCap (onCap s id first) id second = onCap s id fun cap => second (first cap) := by
  unfold onCap
  rw [modify_twice id _ _ keeps]

structure Light (change : Cap → Cap) : Prop where
  id : ∀ cap, (change cap).id = cap.id
  list : ∀ cap, (change cap).list = cap.list
  fp : ∀ cap, (change cap).fp = cap.fp
  size : ∀ cap, (change cap).size = cap.size

theorem light_weight {change : Cap → Cap} (light : Light change) (cap : Cap) : weight (change cap) = weight cap := by
  rw [weight, weight, light.list, light.fp, light.size]

theorem books_capFileFinished (sane : AllSane s) {id : Nat} {change : Cap → Cap} (light : Light change)
    (settled : Settled (onCap s id change)) (alloc : s.mallocs.head? ≠ some false) :
    Books s (capFileFinished (onCap s id change) id).1 0 ∧
      ∀ cap, cap? (capFileFinished (onCap s id change) id).1 id = some cap → cap.fp = false := by
  obtain ⟨current, wired, serving⟩ := settled
  unfold capFileFinished
  cases found : cap? s id with
  | none =>
    have same : onCap s id change = s := by rw [onCap, modify_absent id _ _ found]
    rw [same, found]
    exact ⟨books_dead sane, fun cap there => (nomatch found.symm.trans there)⟩
  | some cap =>
    have still : cap? _ id = some _ := changed_found found light.id
    have sound := sane cap (found_mem found).1
    rw [still]
    dsimp only
    by_cases shut : cap.fp = false
    · rw [if_pos (by simp [light.fp, shut])]
      have caps : (onCap (onCap s id _) id fun cap => { cap with lasterr := 0 }).caps =
          modifyCap id _ _ := modify_twice id _ _ light.id _
      have books := books_onCap sane id (fun cap => { change cap with lasterr := 0 }) 0 (fun other same => ?_) fun _ => rfl
      · refine ⟨⟨?_, rfl, ?_⟩, fun other there => ?_⟩
        · rw [← books.even, weights, caps]
          rfl
        · unfold AllSane
          rw [caps]
          exact books.sane
        · have last : cap? (onCap _ id fun cap => { cap with lasterr := 0 }) id = some _ :=
            changed_found still fun _ => rfl
          rw [← Option.some.inj (last.symm.trans there)]
          exact (light.fp cap).trans shut
      · obtain rfl := Option.some.inj (same.symm.trans found)
        have closed : (change _).fp = false := (light.fp _).trans shut
        refine ⟨?_, fun _ => ?_, fun _ => closed, ?_, fun file there => ?_⟩
        · rw [Int.add_zero]
          exact light_weight light _
        · exact (light.size _).trans (sound.closed shut)
        · rw [show ({ change _ with lasterr := 0 } : Cap).size = (change _).size from rfl, light.size]
          exact sound.positive
        · rw [show ({ change _ with lasterr := 0 } : Cap).list = (change _).list from rfl, light.list] at there
          exact sound.files file there
    · have opened : cap.fp = true := by simpa using shut
      rw [if_neg (by simp [light.fp, opened]), if_neg (show ¬ (onCap s id _).mallocs.head? = some _ from alloc)]
      obtain ⟨added, there, unqueued, _⟩ := wired_added wired still _
      generalize shape : (⟨(onCap s id _).written, id, (change cap).size⟩ : File) = file at added there unqueued
      have caps : (capFileAdded (onCap s id change) id file).caps = modifyCap id (fun cap => fileListed file (fileClosed (change cap))) s.caps := by
        show modifyCap id _ (modifyCap id _ (modifyCap id _ _)) = _
        rw [modify_twice id _ _ light.id]
        exact modify_twice id (fun cap => fileClosed _) _ (fun cap => light.id cap) _
      have books := books_onCap sane id (fun cap => fileListed file (fileClosed (change cap))) 0 (fun other same => ?_) fun _ => rfl
      · have moved : Books s (capFileAdded (onCap s id change) id file) 0 := by
          refine ⟨?_, rfl, ?_⟩
          · rw [← books.even, weights, caps]
            rfl
          · unfold AllSane
            rw [caps]
            exact books.sane
        have owner : ClosedOwner (capFileAdded (onCap s id change) id file) file := by
          intro holder member named
          have listed : cap? _ id = some (fileListed file _) := changed_found (closed_found still) fun _ => rfl
          have inf : file.inf = id := by rw [← shape]
          rw [found_unique added listed member (named.trans inf)]
          rfl
        obtain ⟨uploaded, owners⟩ := books_outputUploadFile moved.sane added serving there unqueued owner
        refine ⟨moved.next uploaded, fun other last => ?_⟩
        have inf : file.inf = id := by rw [← shape]
        exact owners file owner _ (found_mem last).1 ((found_mem last).2.trans inf.symm)
      · obtain rfl := Option.some.inj (same.symm.trans found)
        have size : file.filesize = other.size := by rw [← shape]; exact light.size _
        refine ⟨?_, fun _ => rfl, fun _ => rfl, Int.le_refl 0, fun file there => ?_⟩
        · show sizes ((change _).list ++ [file]) + 0 = sizes _ + (if other.fp then other.size else 0) + 0
          rw [light.list, opened, if_pos rfl, sizes, sizes, map_append, sum_append, map_singleton, sum_singleton, size]
        · rcases mem_append.mp there with old | new
          · exact sound.files file ((light.list _) ▸ old)
          · rw [mem_singleton.mp new, size]
            exact sound.positive

theorem books_marked (sane : AllSane s) (id : Nat) (lasterr : Int) :
    Books s (onCap s id fun cap => { cap with lasterr := lasterr }) 0 :=
  books_quiet sane (fun _ => rfl) fun _ well => { well with }

def AllocOk (s : Core) : Prop := ∀ ok ∈ s.mallocs, ok = true

theorem AllocOk.head (alloc : AllocOk s) : s.mallocs.head? ≠ some false := by
  intro failed
  exact nomatch alloc false (mem_of_mem_head? (by rw [failed]; rfl))

theorem Ends.alloc {s t : Core} (ends : Ends s t) (alloc : AllocOk s) : AllocOk t := fun ok there => alloc ok (ends.mallocs ok there)

def ending (cap : Cap) : Cap := { cap with st := .reg, timer := false, evt := false }

theorem light_ending : Light ending := ⟨fun _ => rfl, fun _ => rfl, fun _ => rfl, fun _ => rfl⟩

theorem ending_twice (s : Core) (id : Nat) :
    onCap (onCap s id fun cap => { cap with st := .reg }) id (fun cap => { cap with timer := false, evt := false }) = onCap s id ending :=
  onCap_twice s id _ _ fun _ => rfl

theorem settled_ending (settled : Settled s) (id : Nat) : Settled (onCap s id ending) :=
  (goes_onCap settled (fun _ => rfl) (fun _ _ => nofun) fun _ _ => nofun : Goes s (onCap s id ending)).settled

theorem books_capUploading (settled : Settled s) (sane : AllSane s) (alloc : AllocOk s) (id : Nat) : Books s (capUploading s id) 0 := by
  unfold capUploading capChangeStatus
  cases found : cap? s id with
  | none => exact books_dead sane
  | some cap =>
    dsimp only
    split
    · exact books_refl sane
    have marked := settled_ending settled id
    obtain ⟨finished, closed⟩ := books_capFileFinished sane light_ending marked alloc.head
    unfold capStatusIntoUploading
    rw [ending_twice]
    dsimp only
    split
    · have touched : Books _ (touchCap _ id) 0 := books_same finished.sane rfl rfl rfl
      exact (finished.next touched).next (books_marked touched.sane id 0)
    · exact finished.next (books_capStop (goes_capFileFinished marked id).settled finished.sane id closed)

def ready (s : Core) : Bool := decide (s.out.st ≠ .paused) || decide (s.forks.head? ≠ some false)

def Counts (ready : Bool) : Cap → List Packet → Bool
  | _, [] => true
  | cap, packet :: rest =>
    if (¬ cap.fp ∧ ¬ packet.opens) ∨ packet.fsize - cap.size ≤ 0 then true
    else if (cap.limitFilesize > 0 ∧ cap.limitFilesize ≤ packet.fsize) ∨ (cap.limitPkg > 0 ∧ cap.limitPkg ≤ cap.pkgs + 1) then false
    else if cap.maxFilesize ≤ packet.fsize then ready && Counts ready (rotated (grown cap packet)) rest
    else Counts ready (grown cap packet) rest

theorem rotates_done (s : Core) (settled : Settled s) (id : Nat) (cap : Cap) (files : List File) (paused : Bool)
    (found : cap? s id = some { cap with list := files, pause := paused }) (opened : cap.fp = true) (alloc : s.mallocs.head? ≠ some false)
    (able : ready s = true) :
    (capFileFinished s id).2 = true ∧ (capFileFinished s id).1.out.st ≠ .paused ∧
      ∃ files, cap? (capFileFinished s id).1 id = some { rotated cap with list := files, pause := paused } := by
  have listed : cap? _ id =
      some (fileListed ⟨s.written, id, cap.size⟩ _) :=
    changed_found (closed_found found) fun _ => rfl
  rw [finished_kept found opened alloc]
  by_cases idle : s.out.st = .paused
  · have first : s.forks.head? ≠ some false := by simpa [ready, idle] using able
    obtain ⟨current, wired, serving⟩ := settled
    obtain ⟨rfl, _, empty⟩ := serving.idle idle
    rw [upload_started (capFileAdded s id _) _ idle empty first]
    exact ⟨rfl, nofun, _, listed⟩
  · rw [upload_busy (capFileAdded s id _) _ idle]
    exact ⟨rfl, idle, _, listed⟩

theorem books_touchCap (sane : AllSane s) (id : Nat) : Books s (touchCap s id) 0 := books_same sane rfl rfl rfl

theorem books_endCapture (sane : AllSane s) (id : Nat) : Books s (endCapture s id) 0 := by
  have touched := books_touchCap sane id
  have ended : Books _ (endCapture s id) 0 := books_quiet touched.sane (fun _ => rfl) fun _ well => { well with }
  exact touched.next ended

theorem books_capSpend (sane : AllSane s) (id : Nat) (len : Int) : Books s (capSpend s id len) (-len) := by
  have spent : Books s { touchCap s id with memLeft := s.memLeft - len } (-len) := by
    refine ⟨?_, rfl, sane⟩
    show s.memLeft - len + weights s = _
    omega
  unfold capSpend
  dsimp only
  split
  · refine spent.next ?_
    exact books_quiet spent.sane (fun _ => rfl) fun _ well => { well with }
  · exact spent

theorem sane_opened {cap : Cap} (sane : Sane cap) (up : cap.st ≠ .reg) {size : Int} (positive : 0 ≤ size) :
    Sane { cap with fp := true, size := size } :=
  ⟨fun shut => (nomatch shut), fun ended => absurd ended up, positive, sane.files⟩

theorem weight_opened {cap : Cap} (sane : Sane cap) (size : Int) :
    weight { cap with fp := true, size := size } = weight cap + (size - cap.size) := by
  show sizes cap.list + size = sizes _ + (if cap.fp then cap.size else 0) + (size - cap.size)
  cases shut : cap.fp with
  | false =>
    have empty := sane.closed shut
    simp [empty]
  | true =>
    rw [if_pos rfl]
    omega

theorem capSpend_kept {t : Core} {id : Nat} {cap : Cap} {files : List File} {paused : Bool} (len : Int)
    (there : cap? t id = some { cap with list := files, pause := paused }) :
    ready (capSpend t id len) = ready t ∧ ∃ after, cap? (capSpend t id len) id = some { cap with list := files, pause := after } := by
  constructor
  · unfold capSpend
    dsimp only
    split <;> rfl
  · obtain ⟨_, _, _, last⟩ := capSpend_spec t id len { cap with pause := paused } _ there
    unfold flagged at last
    split at last
    · exact ⟨true, last⟩
    · exact ⟨paused, last⟩

theorem books_capPackages (settled : Settled s) (sane : AllSane s) (alloc : AllocOk s) {id : Nat} {packet : Packet} {rest : List Packet}
    {cap : Cap} {files : List File} {paused : Bool} (found : cap? s id = some { cap with list := files, pause := paused })
    (live : cap.uploading = false) (up : cap.st ≠ .reg) (counts : Counts (ready s) cap (packet :: rest) = true) :
    Books s (capPackages s id packet) 0 ∧ (Closing (capPackages s id packet) id ∨ ∃ next files paused,
      cap? (capPackages s id packet) id = some { next with list := files, pause := paused } ∧ next.uploading = false ∧ next.st ≠ .reg ∧
        Counts (ready (capPackages s id packet)) next rest = true) := by
  have sound := sane _ (found_mem found).1
  have only : ∀ other, cap? s id = some _ → other = { cap with list := files, pause := paused } :=
    fun other same => Option.some.inj (same.symm.trans found)
  have ended : ∀ (t : Core) (due lasterr : Int), Books s t due → Books s (endCapture (onCap t id fun cap => { cap with lasterr := lasterr }) id) due := by
    intro t due lasterr before
    have marked := books_marked before.sane id lasterr
    exact (before.next marked).next (books_endCapture marked.sane id)
  rw [Counts] at counts
  by_cases ends : EndsCapture cap packet
  · refine ⟨?_, .inl (packages_closing s id found live ends)⟩
    obtain ⟨t, lasterr, same, ⟨_, rfl⟩ | ⟨shut, ⟨_, rfl⟩ | ⟨flat, _⟩⟩⟩ := packages_ends found live ends
    · exact same ▸ ended _ 0 _ (books_refl sane)
    · refine same ▸ ended _ 0 _ (books_onCap sane id _ 0 (fun other same => ?_) fun _ => rfl)
      rw [only _ same]
      refine ⟨?_, sane_opened sound up sound.positive⟩
      rw [weight_opened sound _]
      exact congrArg _ (Int.sub_self _)
    · rw [if_neg (not_or.mpr ⟨shut, flat⟩), if_pos ((ends.resolve_left shut).resolve_left flat)] at counts
      cases counts
  rw [packages_goes found live ends]
  simp only [EndsCapture, not_or] at ends
  rw [if_neg (not_or.mpr ⟨ends.1, ends.2.1⟩), if_neg (not_or.mpr ends.2.2)] at counts
  have merged : onCap (onCap s id fun cap => { cap with fp := true }) id (fun cap => { cap with size := packet.fsize }) =
      onCap s id fun cap => { cap with fp := true, size := packet.fsize } := onCap_twice s id _ _ fun _ => rfl
  have sized : Books s (onCap s id fun cap => { cap with fp := true, size := packet.fsize }) (packet.fsize - cap.size) := by
    refine books_onCap sane id _ _ (fun other same => ?_) fun none => by cases none.symm.trans found
    rw [only _ same]
    have grown : 0 ≤ cap.size := sound.positive
    exact ⟨weight_opened sound _, sane_opened sound up (by omega)⟩
  have counting := (goes_counted settled id packet.fsize).settled
  have counted := grown_found found packet
  rw [packetCounted, merged] at counting counted ⊢
  have spent (t : Core) (next : Cap) (files : List File) (paused : Bool) (before : Books s t (packet.fsize - cap.size)) (live : next.uploading = false)
      (up : next.st ≠ .reg) (there : cap? t id = some { next with list := files, pause := paused }) (counts : Counts (ready t) next rest = true) :
      Books s (capSpend t id (packet.fsize - cap.size)) 0 ∧ (Closing (capSpend t id (packet.fsize - cap.size)) id ∨ ∃ next files paused,
        cap? (capSpend t id (packet.fsize - cap.size)) id = some { next with list := files, pause := paused } ∧ next.uploading = false ∧
          next.st ≠ .reg ∧ Counts (ready (capSpend t id (packet.fsize - cap.size))) next rest = true) := by
    have paid := before.trans (books_capSpend before.sane id (packet.fsize - cap.size))
    rw [Int.add_right_neg] at paid
    obtain ⟨same, after, last⟩ := capSpend_kept (packet.fsize - cap.size) there
    exact ⟨paid, .inr ⟨next, files, after, last, live, up, same ▸ counts⟩⟩
  by_cases full : cap.maxFilesize ≤ packet.fsize
  · rw [if_pos full, Bool.and_eq_true] at counts
    rw [if_pos full]
    have light : Light fun cap => { cap with pkgs := cap.pkgs + 1 } := ⟨fun _ => rfl, fun _ => rfl, fun _ => rfl, fun _ => rfl⟩
    have able : ready _ = true := counts.1
    obtain ⟨done, busy, more, there⟩ := rotates_done _ counting id (grown cap _) _ _ counted rfl alloc.head able
    have finished := books_capFileFinished sized.sane light counting alloc.head
    rw [if_pos done]
    refine spent _ (rotated (grown cap _)) more _ (sized.next finished.1) live up there ?_
    have after : ready (capFileFinished (onCap (onCap s id fun cap => { cap with fp := true, size := packet.fsize }) id
        fun cap => { cap with pkgs := cap.pkgs + 1 }) id).1 = true := by
      simp [ready, busy]
    have rest := counts.2
    rw [counts.1] at rest
    rw [after]
    exact rest
  · rw [if_neg full] at counts
    rw [if_neg full]
    refine spent _ (grown cap _) _ _ (sized.next ?_) live up counted counts
    exact books_quiet sized.sane (fun _ => rfl) fun _ well => { well with }

theorem packages_over (s : Core) (sane : AllSane s) (id : Nat) (packet : Packet) (closing : Closing s id) :
    Books s (capPackages s id packet) 0 := by
  unfold capPackages
  split
  · exact books_dead sane
  · rename_i cap found
    rw [if_pos (closing cap found)]
    exact books_refl sane

theorem books_over (id : Nat) {s : Core} (sane : AllSane s) (closing : Closing s id) :
    Books s (packets.foldl (fun s packet => capPackages s id packet) s) 0 := by
  induction packets generalizing s with
  | nil => exact books_refl sane
  | cons packet rest ih =>
    have first := packages_over s sane id packet closing
    exact first.next (ih first.sane (closing_packages s id _ closing))

theorem books_packets (settled : Settled s) (sane : AllSane s) (alloc : AllocOk s) {id : Nat}
    {cap : Cap} {files : List File} {paused : Bool} (found : cap? s id = some { cap with list := files, pause := paused })
    (live : cap.uploading = false) (up : cap.st ≠ .reg) (counts : Counts (ready s) cap packets = true) :
    Books s (packets.foldl (fun s packet => capPackages s id packet) s) 0 := by
  induction packets generalizing s cap files paused with
  | nil => exact books_refl sane
  | cons packet rest ih =>
    have goes := goes_capPackages settled id packet
    obtain ⟨first, closing | ⟨next, files, paused, there, live, up, counts⟩⟩ := books_capPackages settled sane alloc found live up counts
    · exact first.next (books_over rest id first.sane closing)
    · exact first.next (ih goes.settled first.sane ((ends_capPackages s id _).alloc alloc) there live up counts)

theorem ends_packets (s : Core) : Ends s (packets.foldl (fun s packet => capPackages s id packet) s) := by
  induction packets generalizing s with
  | nil => exact Ends.refl s
  | cons packet rest ih => exact (ends_capPackages s id _).trans (ih _)

theorem books_paused (sane : AllSane s) (id : Nat) : Books s (capChangeStatus s id .paused fun id s => capStatusIntoPaused s id) 0 := by
  unfold capChangeStatus
  split
  · exact books_dead sane
  split
  · exact books_refl sane
  have marked : Books s (onCap s id fun cap => { cap with st := .paused }) 0 :=
    books_quiet sane (fun _ => rfl) fun _ well => ⟨well.closed, fun ended => (nomatch ended), well.positive, well.files⟩
  unfold capStatusIntoPaused
  dsimp only
  split
  · exact marked.next (books_dead marked.sane)
  · rename_i cap _
    have told := (same_send _ (capEvent .paused cap 0)).books marked.sane
    refine (marked.next told).next ?_
    exact books_quiet told.sane (fun _ => rfl) fun _ well => { well with }

def PacketsCounted (s : Core) (id : Nat) (error : Bool) (arrived : List Packet) : Prop :=
  ∀ cap, cap? s id = some cap → cap.evt = true → error = false → cap.st = .normal → cap.uploading = false → Counts (ready s) cap arrived = true

theorem books_capEvtCb (settled : Settled s) (sane : AllSane s) (alloc : AllocOk s) (id : Nat) (error : Bool) (arrived : List Packet)
    (failed : Bool) (safe : PacketsCounted s id error arrived) : Books s (capEvtCb s id error arrived failed) 0 := by
  unfold capEvtCb
  split
  · exact books_refl sane
  rename_i cap found
  split
  · exact books_refl sane
  rename_i set
  split
  · have marked := books_marked sane id errPcapError
    have goes : Goes s (onCap s id fun cap => { cap with lasterr := errPcapError }) := (goes_refl settled).changed (fun _ => rfl) fun _ => rfl
    exact marked.next (books_capUploading goes.settled marked.sane alloc id)
  rename_i right
  split
  · exact books_refl sane
  rename_i capturing
  have running : cap.st = .normal := by simpa using capturing
  have dispatched : Books s (arrived.foldl (fun s packet => capPackages s id packet) s) 0 := by
    by_cases live : cap.uploading = true
    · exact books_over _ id sane fun other same => by rw [Option.some.inj (same.symm.trans found)]; exact live
    · have going : cap.uploading = false := by simpa using live
      have there : cap? s id = some _ := found
      refine books_packets _ settled sane alloc there going (by rw [running]; exact nofun) ?_
      exact safe cap found (by simpa using set) (by simpa using right) running going
  have goes := goes_packets id arrived settled
  have ends := ends_packets id arrived s
  extract_lets read checked touched
  have reading : Books s checked 0 ∧ Goes s checked ∧ Ends s checked := by
    simp only [checked]
    split
    · have marked := books_marked dispatched.sane id errPcapError
      refine ⟨(dispatched.next marked).next (books_endCapture marked.sane id), Goes.ends ?_ id, (ends_endCapture _ id).after ?_⟩
      · exact goes.changed (fun _ => rfl) fun _ => rfl
      · exact ends.changed fun _ => rfl
    · exact ⟨dispatched, goes, ends⟩
  have before := reading.1.next (books_touchCap reading.1.sane id)
  split
  · exact before
  split
  · exact before.next (books_capUploading (goes_touchCap reading.2.1.settled id).settled before.sane (reading.2.2.alloc alloc) id)
  split
  · exact before.next (books_paused before.sane id)
  · exact before

theorem books_capTimeoutCb (settled : Settled s) (sane : AllSane s) (alloc : AllocOk s) (id : Nat) : Books s (capTimeoutCb s id) 0 := by
  unfold capTimeoutCb
  split
  · exact books_refl sane
  split
  · exact books_refl sane
  split
  · have fired : Books s (onCap s id fun cap => { cap with timer := false, lasterr := 0 }) 0 :=
      books_quiet sane (fun _ => rfl) fun _ well => { well with }
    have goes : Goes s (onCap s id fun cap => { cap with timer := false, lasterr := 0 }) := (goes_refl settled).changed (fun _ => rfl) fun _ => rfl
    exact fired.next (books_capUploading goes.settled fired.sane alloc id)
  · exact books_quiet sane (fun _ => rfl) fun _ well => { well with }

theorem books_stopAnswer (sane : AllSane s) (answers : Option Nat) (req : Request) (errcode : Int) :
    Books s (stopAnswer s answers req errcode) 0 := (same_send s _).books sane

theorem books_captureHandleMsgStop (settled : Settled s) (sane : AllSane s) (alloc : AllocOk s) (req : Request) :
    Books s (captureHandleMsgStop s req) 0 := by
  unfold captureHandleMsgStop
  split
  · exact books_stopAnswer sane none req _
  split
  · exact books_stopAnswer sane none req 0
  split
  · exact books_stopAnswer sane none req 0
  · exact books_capUploading settled sane alloc _

theorem books_captureHandleMsgStopall (settled : Settled s) (sane : AllSane s) (alloc : AllocOk s) (req : Request) :
    Books s (captureHandleMsgStopall s req) 0 := by
  have all : ∀ (ids : List Nat) {s : Core}, Settled s → AllSane s → AllocOk s → Books s (ids.foldl (fun s id => capUploading s id) s) 0 := by
    intro ids
    induction ids with
    | nil => exact fun _ sane _ => books_refl sane
    | cons id rest ih =>
      intro s settled sane alloc
      have first := books_capUploading settled sane alloc id
      exact first.next (ih (goes_capUploading settled id).settled first.sane ((ends_capUploading s id).alloc alloc))
  unfold captureHandleMsgStopall
  split
  · exact books_stopAnswer sane none req 0
  · exact all _ settled sane alloc

def FailsClosed (s : Core) (code : Int) : Prop :=
  (∀ file, s.out.curfl = some file → code ≠ 0 → ClosedOwner s file) ∧
    ∀ current, s.out.curfl = some current →
      ∀ file ∈ forkFailures s.forks (if code = 0 then s.out.listFiles else s.out.listFiles.filter fun other => other.inf ≠ current.inf),
        ClosedOwner s file

theorem books_outTimeoutCb (settled : Settled s) (sane : AllSane s) (exited : Option Int)
    (safe : ∀ code, exited = some code → s.out.timer = true → FailsClosed s code) : Books s (outTimeoutCb s exited) 0 := by
  unfold outTimeoutCb
  split
  · exact books_refl sane
  rename_i running
  cases exited with
  | none => exact books_refl sane
  | some code =>
    have polling : s.out.timer = true := by simpa using running
    obtain ⟨current, wired, serving⟩ := settled
    obtain ⟨file, rfl, _, curfl⟩ := serving.polls polling
    dsimp only
    rw [outputNotify_eq s file code curfl]
    have polled := wired_polled wired code
    have noted : Books s { touchFile s file with out := { s.out with lasterr := code, timer := false, st := .reg } } 0 :=
      books_same sane rfl rfl rfl
    have finished := finished_spec polled code
    obtain ⟨one, more⟩ := safe code rfl polling
    have rest := more file curfl
    have forks : (capFileUploadFinished _ file code).forks =
        s.forks := finished.forks
    by_cases taken : code = 0
    · subst taken
      obtain ⟨books, queue, owners⟩ := uploaded_books noted.sane polled
      refine (noted.next books).next (books_outputContinue _ books.sane finished.wired fun other there => owners _ ?_).1
      rw [forks, queue] at there
      exact rest _ there
    · have failed := failed_spec noted.sane polled taken (one file curfl taken)
      refine (noted.next failed.books).next (books_outputContinue _ failed.books.sane finished.wired fun other there => failed.owners _ ?_).1
      rw [forks, failed.queue] at there
      rw [if_neg taken] at rest
      exact rest _ there

structure Solvent (s : Core) : Prop where
  sane : AllSane s
  even : s.st = .normal → s.memLeft + weights s = s.memTotal

theorem Solvent.next {s t : Core} (solvent : Solvent s) (books : Books s t 0) (st : t.st = s.st ∨ t.st = .paused) : Solvent t := by
  refine ⟨books.sane, fun running => ?_⟩
  rcases st with same | paused
  · rw [books.even, books.total, Int.add_zero]
    exact solvent.even (same.symm.trans running)
  · exact nomatch paused.symm.trans running

theorem SameStore.solvent {s t : Core} (same : SameStore s t) (solvent : Solvent s) : Solvent t :=
  solvent.next (same.books solvent.sane) (.inl same.st)

theorem sane_new (s : Core) (id : Nat) (req : Request) : Sane (newCap s id req) :=
  ⟨fun _ => rfl, fun ended => (nomatch ended), Int.le_refl 0, fun _ there => (nomatch there)⟩

theorem books_capStatusIntoStart (settled : Settled s) (sane : AllSane s) (id : Nat) (req : Request)
    (closed : ∀ cap, cap? s id = some cap → cap.fp = false) : Books s (capStatusIntoStart s id req) 0 := by
  have refused : ∀ lasterr : Int, Books s (capStop (onCap s id fun cap => { cap with lasterr := lasterr }) id) 0 := by
    intro lasterr
    have marked := books_marked sane id lasterr
    have goes : Goes s (onCap s id fun cap => { cap with lasterr := lasterr }) := (goes_refl settled).changed (fun _ => rfl) fun _ => rfl
    refine marked.next (books_capStop goes.settled marked.sane id fun cap found => ?_)
    obtain ⟨old, there, same⟩ := changed_back found fun _ => rfl
    rw [same]
    exact closed old there
  unfold capStatusIntoStart
  split
  · exact refused _
  split
  · exact refused _
  · have timed : Books s (onCap s id fun cap => if cap.limitTimeuse > 0 then capTimeoutSet cap else cap) 0 := by
      refine books_quiet sane (fun cap => ?_) fun cap well => ?_
      · split <;> rfl
      · split
        · exact { well with }
        · exact well
    refine timed.next ?_
    unfold capChangeStatus
    dsimp only
    split
    · exact books_dead timed.sane
    split
    · exact books_refl timed.sane
    have marked : Books _ (onCap _ id fun cap => { cap with st := .normal }) 0 :=
      books_quiet timed.sane (fun _ => rfl) fun _ well => ⟨well.closed, fun ended => (nomatch ended), well.positive, well.files⟩
    unfold capStatusIntoCapturing
    split
    · exact marked.next (books_dead marked.sane)
    · rename_i cap _
      have told := (same_send _ (capturingEvent cap)).books marked.sane
      refine (marked.next told).next ?_
      exact books_quiet told.sane (fun _ => rfl) fun _ well => ⟨well.closed, fun ended => (nomatch ended), well.positive, well.files⟩

theorem solvent_captureStartCapturing (settled : Settled s) (solvent : Solvent s) (id : Nat) (req : Request)
    (fresh : ∀ cap ∈ s.caps, cap.id ≠ id) (running : s.st = .normal) : Solvent (captureStartCapturing s id req) := by
  have absent : id ∉ s.caps.map Cap.id := by
    intro there
    obtain ⟨cap, member, same⟩ := mem_map.mp there
    exact fresh cap member same
  have ends := ends_started s id req
  have found : cap? { s with caps := s.caps ++ [newCap s id req] } id = some _ := listed_found s id req absent
  unfold captureStartCapturing
  dsimp only
  rw [removeCap_listed s id req absent]
  split
  · exact (same_send s _).solvent solvent
  · have listing : Books s { s with caps := s.caps ++ [newCap s id req] } 0 := by
      refine ⟨?_, rfl, fun cap there => ?_⟩
      · have light : weight (newCap s id req) = 0 := rfl
        rw [weights, weights, map_append, sum_append, map_singleton, sum_singleton, light, Int.add_zero, Int.add_zero]
      · rcases mem_append.mp there with old | new
        · exact solvent.sane cap old
        · rw [mem_singleton.mp new]
          exact sane_new s id req
    refine solvent.next ?_ ends.st
    unfold capChangeStatus
    rw [found]
    dsimp only
    rw [if_neg (show ¬ (newCap s id req).st = .start from nofun)]
    have added := goes_added settled id req fresh running
    have marked : Books _ (onCap _ id fun cap => { cap with st := .start }) 0 :=
      books_quiet listing.sane (fun _ => rfl) fun _ well => ⟨well.closed, fun ended => (nomatch ended), well.positive, well.files⟩
    refine (listing.next marked).next (books_capStatusIntoStart added.settled marked.sane id req fun cap there => ?_)
    have started : cap? (onCap _ id fun cap => { cap with st := .start }) id =
        some _ := changed_found found fun _ => rfl
    rw [← Option.some.inj (started.symm.trans there)]
    rfl

theorem solvent_captureHandleMsgStart (tidy : Tidy s) (solvent : Solvent s) (req : Request) : Solvent (captureHandleMsgStart s req) := by
  have fresh : ∀ cap ∈ s.caps, cap.id ≠ s.started := fun cap there => Nat.ne_of_lt (tidy.numbered cap there)
  have next : Solvent (noted s) := ⟨solvent.sane, solvent.even⟩
  have answered : ∀ {t : Core} (answers : Option Nat) (errcode : Int), Solvent t → Solvent (stopAnswer t answers req errcode) :=
    fun answers errcode before => (same_send _ _).solvent before
  have woke (paused : s.st = .paused) : Solvent (turned s req .normal) := by
    refine (same_turned s req _).solvent ⟨solvent.sane, fun _ => ?_⟩
    rw [weights, sleeps_empty tidy.settled paused]
    exact Int.add_zero _
  have started := handle_start_started s req
  generalize captureHandleMsgStart s req = after at started ⊢
  cases started with
  | answered => exact answered _ _ next
  | slept =>
    have slept := (same_turned s req .paused).solvent ⟨solvent.sane, fun running => (nomatch running)⟩
    exact answered _ _ slept
  | woken _ paused => exact answered _ _ (woke paused)
  | wakes _ paused =>
    have sent := same_turned s req .normal
    refine solvent_captureStartCapturing (goes_turned tidy.settled paused req _).settled (woke paused) _ req ?_ sent.st
    rw [sent.caps]
    exact fresh
  | starts _ running =>
    exact solvent_captureStartCapturing (goes_noted tidy.settled).settled next _ req fresh (tidy.known.resolve_left running)

def BalanceSafe (s : Core) (h : Happening) : Prop :=
  (∀ ok ∈ h.mallocs, ok = true) ∧
    match h.event with
    | .packets id error arrived _ => PacketsCounted { s with forks := h.forks } id error arrived
    | .uploaded (some code) => s.out.timer = true → FailsClosed { s with forks := h.forks } code
    | _ => True

theorem react_solvent (s : Core) (event : Event) (tidy : Tidy s) (solvent : Solvent s) (safe : BalanceSafe s ⟨event, s.forks, s.mallocs⟩) :
    (react s event).ctrl = .stopped ∨ Solvent (react s event) := by
  obtain ⟨alloc, given⟩ := safe
  have handling : ∀ {t : Core}, Solvent t → Solvent (handled t) :=
    fun {t} before => SameStore.solvent (s := t) ⟨rfl, rfl, rfl, rfl, rfl, rfl, rfl, rfl⟩ before
  cases event with
  | start req =>
    rw [react]
    split
    · exact .inr solvent
    · exact .inr (handling (solvent_captureHandleMsgStart tidy solvent req))
  | stop req =>
    rw [react]
    split
    · exact .inr solvent
    · have books := books_captureHandleMsgStop tidy.settled solvent.sane alloc req
      exact .inr (handling (solvent.next books (ends_captureHandleMsgStop s req).st))
  | stopall req =>
    rw [react]
    split
    · exact .inr solvent
    · have books := books_captureHandleMsgStopall tidy.settled solvent.sane alloc req
      exact .inr (handling (solvent.next books (ends_captureHandleMsgStopall s req).st))
  | packets id error arrived failed =>
    have books := books_capEvtCb tidy.settled solvent.sane alloc id _ _ failed given
    exact .inr (solvent.next books (ends_capEvtCb s id _ _ _).st)
  | timeout id => exact .inr (solvent.next (books_capTimeoutCb tidy.settled solvent.sane alloc id) (ends_capTimeoutCb s id).st)
  | uploaded exited =>
    have books := books_outTimeoutCb tidy.settled solvent.sane exited fun code same => by
      subst same
      exact given
    exact .inr (solvent.next books (ends_outTimeoutCb s _).st)
  | connected =>
    rw [react]
    split
    · exact .inr ⟨solvent.sane, solvent.even⟩
    · exact .inr solvent
  | registered status =>
    rw [react]
    split
    · exact .inr solvent
    by_cases taken : status = 0
    · rw [if_pos taken]
      exact .inr (handling ⟨solvent.sane, solvent.even⟩)
    · rw [if_neg taken]
      exact .inl rfl
  | lost => exact .inl rfl

def SolventKept (s : Core) : Prop := s.ctrl = .stopped ∨ (Tidy s ∧ Solvent s)

theorem solvent_step (s : Core) (h : Happening) (kept : SolventKept s) (safe : BalanceSafe s h) : SolventKept (sniffer s h) := by
  have next := tidy_step s h (kept.imp_right And.left)
  unfold sniffer at next ⊢
  split
  · rename_i ended
    exact .inl ended
  · rename_i going
    rw [if_neg going] at next
    obtain ⟨tidy, solvent⟩ := kept.resolve_left going
    have given := (tidy_given tidy h.forks h.mallocs).1
    rcases next with ended | after
    · exact .inl ended
    · exact (react_solvent _ _ given ⟨solvent.sane, solvent.even⟩ safe).imp_right fun done => ⟨after, done⟩

def Balanced (s : Core) : Prop := s.st = .normal → s.memLeft + weights s = s.memTotal ∧ s.memLeft ≤ s.memTotal

theorem weight_positive {cap : Cap} (sane : Sane cap) : 0 ≤ weight cap := by
  have files : 0 ≤ sizes _ := sum_nonneg fun size there => by
    obtain ⟨file, listed, rfl⟩ := mem_map.mp there
    exact sane.files file listed
  have positive := sane.positive
  rw [weight]
  split <;> omega

theorem solvent_balanced (solvent : Solvent s) : Balanced s := by
  intro running
  have even := solvent.even running
  have positive : 0 ≤ weights s := sum_nonneg fun size there => by
    obtain ⟨cap, listed, rfl⟩ := mem_map.mp there
    exact weight_positive (solvent.sane cap listed)
  exact ⟨even, by omega⟩

theorem memory_balanced (online : Bool) (memTotal memMaxsingle : Int) (happenings : List Happening)
    (safe : AllSteps sniffer BalanceSafe (boot online memTotal memMaxsingle) happenings)
    (going : (run sniffer (boot online memTotal memMaxsingle) happenings).ctrl ≠ .stopped) :
    Balanced (run sniffer (boot online memTotal memMaxsingle) happenings) := by
  have begun : SolventKept _ :=
    .inr ⟨boot_tidy online memTotal memMaxsingle, fun cap there => (nomatch there), fun running => (nomatch running)⟩
  have kept := run_keeps _ _ _ _ _ begun (fun s h inv ok => solvent_step s h inv ok) safe
  exact solvent_balanced (kept.resolve_left going).2

theorem memory_balanced_sample :
    Balanced (run sniffer (boot true 1000 100) [calm (.registered 0), calm (.start plainRequest), calm (.packets 0 false [⟨true, 50⟩] false)]) :=
  memory_balanced true 1000 100 _
    ⟨⟨fun _ there => (nomatch there), trivial⟩, ⟨fun _ there => (nomatch there), trivial⟩,
      ⟨fun _ there => (nomatch there), fun cap found _ _ _ _ => by
        obtain rfl := Option.some.inj found
        decide⟩, trivial⟩ (by decide)

theorem memory_unbalanced : ¬ ∀ (online : Bool) (memTotal memMaxsingle : Int) (happenings : List Happening),
      (run sniffer (boot online memTotal memMaxsingle) happenings).ctrl ≠ .stopped →
        Balanced (run sniffer (boot online memTotal memMaxsingle) happenings) := by
  intro claim
  have balanced := claim true 1000 100 [calm (.registered 0), calm (.start { plainRequest with limitPackage := 1 }),
    calm (.packets 0 false [⟨true, 50⟩] false)] (by decide)
  exact absurd (balanced (by decide)).1 (by decide)

end Codec.Sniffer
