import Codec.Sniffer.Effects
import Mathlib.Data.List.Nodup
import Mathlib.Data.List.Flatten

set_option autoImplicit false

namespace Codec.Sniffer

open List

def held (s : Core) : List File := s.caps.flatMap Cap.list

-- How files, captures and the upload queue hang together. current is the file
-- that carries FLG_UPLOADING, once it has left the queue.
structure Wired (s : Core) (current : Option File) : Prop where
  ids : (s.caps.map Cap.id).Nodup
  owner : ∀ cap ∈ s.caps, ∀ file ∈ cap.list, file.inf = cap.id
  unique : ((held s).map File.id).Nodup
  below : ∀ file ∈ held s, file.id < s.written
  queued : ∀ file ∈ s.out.listFiles, file ∈ held s
  once : s.out.listFiles.Nodup
  marked : ∀ file ∈ held s, s.out.flg = some file.id ↔ current = some file
  apart : ∀ file, current = some file → file ∈ held s ∧ file ∉ s.out.listFiles
  up : ∀ cap ∈ s.caps, cap.st ≠ .stopped
  awake : Awake s
  past : ∀ id, s.out.flg = some id → id < s.written

def anchored (cap : Cap) : Nat × List File := (cap.id, cap.list)

theorem held_anchored (s : Core) : held s = (s.caps.map anchored).flatMap Prod.snd := by
  rw [held, flatMap_map]
  rfl

theorem ids_anchored (caps : List Cap) : caps.map Cap.id = (caps.map anchored).map Prod.fst := by
  rw [map_map]
  rfl

variable {s t : Core} {current : Option File}

theorem wired_same (wired : Wired s current) (caps : t.caps.map anchored = s.caps.map anchored)
    (up : ∀ cap ∈ t.caps, cap.st ≠ .stopped) (awake : Awake t) (queue : t.out.listFiles = s.out.listFiles)
    (flg : t.out.flg = s.out.flg) (written : t.written = s.written) : Wired t current := by
  have files : held t = held s := by rw [held_anchored, held_anchored, caps]
  refine ⟨?_, fun cap there file listed => ?_, ?_, ?_, ?_, ?_, ?_, ?_, up, awake, ?_⟩
  · rw [ids_anchored, caps, ← ids_anchored]
    exact wired.ids
  · have member : anchored cap ∈ s.caps.map _ := caps ▸ mem_map_of_mem there
    obtain ⟨old, before, same⟩ := mem_map.mp member
    have id : old.id = cap.id := congrArg Prod.fst same
    have list : old.list = cap.list := congrArg Prod.snd same
    rw [← id]
    exact wired.owner old before file (list ▸ listed)
  · rw [files]
    exact wired.unique
  · rw [files, written]
    exact wired.below
  · rw [files, queue]
    exact wired.queued
  · rw [queue]
    exact wired.once
  · rw [files, flg]
    exact wired.marked
  · rw [files, queue]
    exact wired.apart
  · rw [flg, written]
    exact wired.past

theorem anchored_modify (id : Nat) (change : Cap → Cap) (keeps : ∀ cap, anchored (change cap) = anchored cap) (caps : List Cap) :
    (modifyCap id change caps).map anchored = caps.map anchored := by
  induction caps with
  | nil => rfl
  | cons cap rest ih =>
    by_cases found : cap.id = id
    · simp [modifyCap, found, keeps]
    · simp [modifyCap, found, ih]

theorem ids_modify (id : Nat) (change : Cap → Cap) (keeps : ∀ cap, (change cap).id = cap.id) (caps : List Cap) :
    (modifyCap id change caps).map Cap.id = caps.map Cap.id := by
  induction caps with
  | nil => rfl
  | cons cap rest ih =>
    by_cases found : cap.id = id
    · simp [modifyCap, found, keeps]
    · simp [modifyCap, found, ih]

variable (files : List File) (out : Output) {s : Core} {id : Nat} {current : Option File} {file : File}

theorem mem_modify {change : Cap → Cap} {caps : List Cap} {cap : Cap} (there : cap ∈ modifyCap id change caps) :
    cap ∈ caps ∨ ∃ old ∈ caps, old.id = id ∧ cap = change old := by
  induction caps with
  | nil => exact nomatch there
  | cons first rest ih =>
    rw [modifyCap] at there
    split at there
    · rename_i here
      rcases mem_cons.mp there with rfl | below
      · exact .inr ⟨first, mem_cons_self, here, rfl⟩
      · exact .inl (mem_cons_of_mem _ below)
    · rcases mem_cons.mp there with rfl | below
      · exact .inl mem_cons_self
      · rcases ih below with old | ⟨old, member, named, same⟩
        · exact .inl (mem_cons_of_mem _ old)
        · exact .inr ⟨old, mem_cons_of_mem _ member, named, same⟩

theorem modify_nil {change : Cap → Cap} {caps : List Cap} (some : modifyCap id change caps ≠ []) : caps ≠ [] := by
  intro none
  rw [none] at some
  exact some rfl

theorem wired_onCap (wired : Wired s current) {id : Nat} {change : Cap → Cap}
    (keeps : ∀ cap, anchored (change cap) = anchored cap) (up : ∀ cap, cap.st ≠ .stopped → (change cap).st ≠ .stopped) :
    Wired (onCap s id change) current := by
  refine wired_same wired (anchored_modify id _ keeps _) (fun cap there => ?_) (fun some => wired.awake (modify_nil some)) rfl rfl rfl
  rcases mem_modify there with old | ⟨old, member, _, rfl⟩
  · exact wired.up cap old
  · exact up old (wired.up old member)

theorem SameStore.wired (same : SameStore s t) (wired : Wired s current) : Wired t current := by
  refine wired_same wired (congrArg _ same.caps) ?_ ?_ (congrArg _ same.out) (congrArg _ same.out) same.written
  · rw [same.caps]
    exact wired.up
  · rw [Awake, same.caps, same.st]
    exact wired.awake

theorem woken_anchored (cap : Cap) : anchored (woken cap) = anchored cap := by
  unfold woken
  split <;> rfl

theorem woken_st (cap : Cap) (up : cap.st ≠ .stopped) : (woken cap).st ≠ .stopped ∧ (woken cap).st ≠ .paused := by
  unfold woken
  split
  · exact ⟨nofun, nofun⟩
  · rename_i other
    exact ⟨up, other⟩

theorem woken_mem {caps : List Cap} {cap : Cap} (there : cap ∈ caps.map woken) : ∃ old ∈ caps, woken old = cap :=
  mem_map.mp there

theorem wired_continue (wired : Wired s current) : Wired (captureContinueCapturing s) current := by
  refine (continue_rest s).wired ?_
  by_cases running : s.st = .normal
  · rw [continue_caps s running]
    refine wired_same wired ?_ (fun cap there => ?_) (fun _ => running) rfl rfl rfl
    · rw [map_map]
      exact map_congr_left fun cap _ => woken_anchored cap
    · obtain ⟨old, member, rfl⟩ := woken_mem there
      exact (woken_st old (wired.up old member)).1
  · have unchanged : captureContinueCapturing s = s := by
      rw [captureContinueCapturing, if_pos running]
    rw [unchanged]
    exact wired

theorem mem_held : file ∈ held s ↔ ∃ cap ∈ s.caps, file ∈ cap.list := mem_flatMap

theorem mem_removeCap {caps : List Cap} (ids : (caps.map Cap.id).Nodup) (cap : Cap) :
    cap ∈ removeCap id caps ↔ cap ∈ caps ∧ cap.id ≠ id := by
  induction caps with
  | nil => simp [removeCap]
  | cons first rest ih =>
    obtain ⟨fresh, others⟩ := nodup_cons.mp ids
    by_cases found : first.id = id
    · have away : ∀ other ∈ rest, other.id ≠ id := by
        intro other there same
        exact fresh (by rw [found, ← same]; exact mem_map_of_mem there)
      rw [removeCap, if_pos found]
      constructor
      · exact fun there => ⟨mem_cons_of_mem _ there, away cap there⟩
      · rintro ⟨there, other⟩
        rcases mem_cons.mp there with rfl | below
        · exact absurd found other
        · exact below
    · rw [removeCap, if_neg found, mem_cons, mem_cons, ih others]
      constructor
      · rintro (rfl | ⟨there, other⟩)
        · exact ⟨.inl rfl, found⟩
        · exact ⟨.inr there, other⟩
      · rintro ⟨rfl | there, other⟩
        · exact .inl rfl
        · exact .inr ⟨there, other⟩

theorem found_mem {cap : Cap} (found : cap? s id = some cap) : cap ∈ s.caps ∧ cap.id = id :=
  ⟨mem_of_find?_eq_some found, (cap_listed found).2⟩

theorem found_unique (wired : Wired s current) {id : Nat} {cap other : Cap}
    (found : cap? s id = some cap) (there : other ∈ s.caps) (same : other.id = id) : other = cap := by
  obtain ⟨member, named⟩ := found_mem found
  exact inj_on_of_nodup_map wired.ids there member (same.trans named.symm)

theorem held_found (wired : Wired s current) {file : File} (there : file ∈ held s) :
    ∃ cap, cap? s file.inf = some cap ∧ file ∈ cap.list := by
  obtain ⟨cap, member, listed⟩ := mem_held.mp there
  have named := wired.owner cap member file listed
  have present : (s.caps.find? fun cap => cap.id == file.inf).isSome := find?_isSome.mpr ⟨cap, member, by simp [named]⟩
  obtain ⟨other, found⟩ := Option.isSome_iff_exists.mp present
  have same := found_unique wired (show cap? s _ = some _ from found) member named.symm
  exact ⟨other, found, same ▸ listed⟩

theorem list_of_held (wired : Wired s current) {id : Nat} {cap : Cap} (found : cap? s id = some cap)
    {file : File} (there : file ∈ held s) : file ∈ cap.list ↔ file.inf = id := by
  constructor
  · intro listed
    obtain ⟨member, named⟩ := found_mem found
    exact (wired.owner cap member file listed).trans named
  · rintro rfl
    obtain ⟨other, same, listed⟩ := held_found wired there
    have equal : other = cap := Option.some.inj (same.symm.trans found)
    exact equal ▸ listed

def Halts (out : Output) (files : List File) : Prop := out.st ≠ .stopped ∧ ∃ file ∈ files, out.flg = some file.id

theorem dropped_stopped (stopped : out.st = .stopped) (empty : out.listFiles = []) : dropped out files = out := by
  induction files with
  | nil => rfl
  | cons file rest ih =>
    have same : dropOne out file = out := by
      unfold dropOne
      by_cases flagged : out.flg = some file.id
      · rw [if_pos flagged, if_pos stopped]
      · rw [if_neg flagged, empty, erase_nil, ← empty]
    rw [dropped, foldl_cons, same]
    exact ih

-- What the stopped output unlinks are the files that the loop has not reached.
theorem dropped_halts (halts : Halts out files) :
    ∃ waiting, waiting.Sublist out.listFiles ∧ dropped out files = halted { out with listFiles := waiting } := by
  induction files generalizing out with
  | nil => exact absurd halts.2 (by simp)
  | cons file rest ih =>
    rw [show dropped out _ = dropped (dropOne out file) rest from rfl, dropOne]
    by_cases flagged : out.flg = some file.id
    · rw [if_pos flagged, if_neg halts.1, dropped_stopped rest _ rfl rfl]
      exact ⟨out.listFiles, Sublist.refl _, rfl⟩
    · rw [if_neg flagged]
      obtain ⟨up, named, listed, same⟩ := halts
      have below : named ∈ rest := by
        rcases mem_cons.mp listed with rfl | there
        · exact absurd same flagged
        · exact there
      obtain ⟨waiting, sublist, shape⟩ := ih { out with listFiles := out.listFiles.erase file } ⟨up, named, below, same⟩
      exact ⟨waiting, sublist.trans erase_sublist, shape⟩

theorem dropped_goes (goes : ¬ Halts out files) (away : ∀ file ∈ files, out.flg = some file.id → file ∉ out.listFiles) :
    dropped out files = { out with listFiles := out.listFiles.diff files } := by
  induction files generalizing out with
  | nil => rw [diff_nil]; rfl
  | cons file rest ih =>
    rw [show dropped out _ = dropped (dropOne out file) rest from rfl, dropOne, diff_cons]
    by_cases flagged : out.flg = some file.id
    · have stopped : out.st = .stopped := not_not.mp fun up => goes ⟨up, file, mem_cons_self, flagged⟩
      rw [if_pos flagged, if_pos stopped, erase_of_not_mem (away file mem_cons_self flagged)]
      exact ih out (fun halts => halts.1 stopped) fun other there => away _ (mem_cons_of_mem _ there)
    · rw [if_neg flagged]
      refine ih _ ?_ fun other there same => ?_
      · rintro ⟨up, other, there, same⟩
        exact goes ⟨up, other, mem_cons_of_mem _ there, same⟩
      · exact fun queued => away _ (mem_cons_of_mem _ there) same (mem_of_mem_erase queued)

theorem away_marked (wired : Wired s current) {id : Nat} {cap : Cap} (found : cap? s id = some cap) :
    ∀ file ∈ cap.list, s.out.flg = some file.id → file ∉ s.out.listFiles := by
  intro file listed flagged
  have there : file ∈ held s := mem_held.mpr ⟨cap, (found_mem found).1, listed⟩
  exact (wired.apart file ((wired.marked file there).mp flagged)).2

theorem stopped_queue (wired : Wired s current) {id : Nat} {cap : Cap}
    (found : cap? s id = some cap) (stopped : Stopped s id cap t) :
    t.out.flg = s.out.flg ∧ t.out.listFiles.Sublist s.out.listFiles ∧ ∀ file ∈ t.out.listFiles, file ∉ cap.list := by
  rw [stopped.out]
  by_cases halts : Halts s.out cap.list
  · obtain ⟨waiting, -, same⟩ := dropped_halts _ _ halts
    rw [same]
    exact ⟨rfl, nil_sublist _, fun file there => nomatch there⟩
  · rw [dropped_goes _ _ halts (away_marked wired found)]
    exact ⟨rfl, diff_sublist _ _, fun file there => ((Nodup.mem_sdiff_iff wired.once).mp there).2⟩

theorem held_stopped (wired : Wired s current) {id : Nat} {cap : Cap}
    (stopped : Stopped s id cap t) (file : File) : file ∈ held t ↔ file ∈ held s ∧ file.inf ≠ id := by
  have lists : held t = (removeCap id s.caps).flatMap Cap.list := by
    rw [held, stopped.caps, flatMap_map]
    refine flatMap_congr fun cap _ => ?_
    exact congrArg Prod.snd (woken_anchored cap)
  rw [lists, mem_flatMap, mem_held]
  constructor
  · rintro ⟨cap, there, listed⟩
    obtain ⟨member, other⟩ := (mem_removeCap wired.ids cap).mp there
    refine ⟨⟨cap, member, listed⟩, ?_⟩
    rw [wired.owner cap member file listed]
    exact other
  · rintro ⟨⟨cap, member, listed⟩, other⟩
    rw [wired.owner cap member file listed] at other
    exact ⟨cap, (mem_removeCap wired.ids cap).mpr ⟨member, other⟩, listed⟩

theorem held_sublist {id : Nat} {cap : Cap} (stopped : Stopped s id cap t) : (held t).Sublist (held s) := by
  have lists : held t = (removeCap id s.caps).flatMap Cap.list := by
    rw [held, stopped.caps, flatMap_map]
    refine flatMap_congr fun cap _ => ?_
    exact congrArg Prod.snd (woken_anchored cap)
  rw [lists]
  exact (removeCap_sublist id _).flatMap _

-- The file in hand, unless it went with its capture.
def remaining (id : Nat) (current : Option File) : Option File := current.filter fun file => file.inf ≠ id

theorem remaining_some : remaining id current = some file ↔ current = some file ∧ file.inf ≠ id := by
  simp [remaining, Option.filter_eq_some_iff]

theorem wired_stopped (wired : Wired s current) {id : Nat} {cap : Cap}
    (found : cap? s id = some cap) (stopped : Stopped s id cap t) : Wired t (remaining id current) := by
  obtain ⟨flg, fewer, gone⟩ := stopped_queue wired found stopped
  have files := held_stopped wired stopped
  refine ⟨?_, fun other there file listed => ?_, ?_, fun file there => ?_, fun file there => ?_, fewer.nodup wired.once,
    fun file there => ?_, fun file same => ?_, fun other there => ?_, stopped.st, ?_⟩
  · have named : t.caps.map Cap.id = (removeCap id s.caps).map Cap.id := by
      rw [stopped.caps, map_map]
      exact map_congr_left fun cap _ => congrArg Prod.fst (woken_anchored cap)
    rw [named]
    exact ((removeCap_sublist id _).map _).nodup wired.ids
  · rw [stopped.caps] at there
    obtain ⟨old, member, rfl⟩ := woken_mem there
    have list : (woken old).list = old.list := congrArg Prod.snd (woken_anchored old)
    have named : (woken old).id = old.id := congrArg Prod.fst (woken_anchored old)
    rw [named]
    rw [list] at listed
    exact wired.owner old ((removeCap_sublist id _).subset member) file listed
  · exact ((held_sublist stopped).map _).nodup wired.unique
  · rw [stopped.written]
    exact wired.below file ((files file).mp there).1
  · have before := wired.queued file (fewer.subset there)
    refine (files file).mpr ⟨before, fun same => gone file there ?_⟩
    exact (list_of_held wired found before).mpr same
  · obtain ⟨before, other⟩ := (files file).mp there
    rw [flg, wired.marked file before, remaining_some]
    exact ⟨fun same => ⟨same, other⟩, fun both => both.1⟩
  · obtain ⟨before, other⟩ := remaining_some.mp same
    obtain ⟨there, unqueued⟩ := wired.apart file before
    exact ⟨(files file).mpr ⟨there, other⟩, fun queued => unqueued (fewer.subset queued)⟩
  · rw [stopped.caps] at there
    obtain ⟨old, member, rfl⟩ := woken_mem there
    exact (woken_st old (wired.up old ((removeCap_sublist id _).subset member))).1
  · rw [flg, stopped.written]
    exact wired.past

def NonePaused (s : Core) : Prop := ∀ cap ∈ s.caps, cap.st ≠ .paused

theorem none_paused_stopped (wired : Wired s current) {id : Nat} {cap : Cap} (stopped : Stopped s id cap t) : NonePaused t := by
  intro other there
  rw [stopped.caps] at there
  obtain ⟨old, member, rfl⟩ := woken_mem there
  exact (woken_st old (wired.up old ((removeCap_sublist id _).subset member))).2

theorem none_paused_continue (wired : Wired s current) : NonePaused (captureContinueCapturing s) := by
  intro cap there
  by_cases running : s.st = .normal
  · rw [continue_caps s running] at there
    obtain ⟨old, member, rfl⟩ := woken_mem there
    exact (woken_st old (wired.up old member)).2
  · rw [captureContinueCapturing, if_pos running] at there
    exact absurd (wired.awake (ne_nil_of_mem there)) running

theorem file_unique (wired : Wired s current) {first second : File} (one : first ∈ held s)
    (two : second ∈ held s) (same : first.id = second.id) : first = second :=
  inj_on_of_nodup_map wired.unique one two same

theorem held_nodup (wired : Wired s current) : (held s).Nodup := Nodup.of_map _ wired.unique

theorem modify_split (id : Nat) (change : Cap → Cap) (caps : List Cap) (cap : Cap)
    (found : caps.find? (fun cap => cap.id == id) = some cap) :
    ∃ before after, caps = before ++ cap :: after ∧ modifyCap id change caps = before ++ change cap :: after := by
  induction caps with
  | nil => exact nomatch found
  | cons first rest ih =>
    by_cases here : first.id = id
    · have same : first = cap := by simpa [here] using found
      exact ⟨[], rest, by rw [same]; rfl, by rw [modifyCap, if_pos here, same]; rfl⟩
    · have below : rest.find? (fun cap => cap.id == id) = some cap := by simpa [here] using found
      obtain ⟨before, after, shape, changed⟩ := ih below
      exact ⟨first :: before, after, by rw [shape]; rfl, by rw [modifyCap, if_neg here, changed]; rfl⟩

theorem held_erased (wired : Wired s current) {file : File} {cap : Cap}
    (found : cap? s file.inf = some cap) (listed : file ∈ cap.list) :
    (held (onCap s file.inf fun cap => { cap with list := cap.list.erase file })).Sublist (held s) ∧
      ∀ other, other ∈ held (onCap s file.inf fun cap => { cap with list := cap.list.erase file }) ↔ other ∈ held s ∧ other ≠ file := by
  obtain ⟨before, after, shape, changed⟩ := modify_split _ _ _ cap found
  have old : held s = before.flatMap Cap.list ++ (cap.list ++ after.flatMap Cap.list) := by
    rw [held, shape, flatMap_append, flatMap_cons]
  have new : held (onCap s file.inf fun cap => { cap with list := cap.list.erase file }) =
      before.flatMap Cap.list ++ (cap.list.erase file ++ after.flatMap Cap.list) := by
    show (modifyCap _ _ _).flatMap _ = _
    rw [changed, flatMap_append, flatMap_cons]
  have distinct := held_nodup wired
  rw [old] at distinct
  have shape : before.flatMap Cap.list ++ (cap.list.erase file ++ after.flatMap Cap.list) = (held s).erase file := by
    have absent : file ∉ before.flatMap _ := fun there =>
      (nodup_append.mp distinct).2.2 file there file (mem_append_left _ listed) rfl
    rw [old, erase_append_right _ absent, erase_append_left _ listed]
  rw [new, shape]
  refine ⟨erase_sublist, fun other => ?_⟩
  rw [(held_nodup wired).mem_erase_iff]
  exact and_comm

theorem wired_taken (wired : Wired s (some file)) {cap : Cap} (found : cap? s file.inf = some cap)
    (errcode : Int) : Wired (capFileTaken s file cap errcode) none := by
  obtain ⟨there, unqueued⟩ := wired.apart file rfl
  have listed : file ∈ cap.list := (list_of_held wired found there).mpr rfl
  obtain ⟨fewer, files⟩ := held_erased wired found listed
  have erased : Wired { onCap s file.inf (fun cap => { cap with list := cap.list.erase file }) with
      out := { s.out with flg := none }, memLeft := s.memLeft + file.filesize } none := by
    refine ⟨?_, fun other there file listed => ?_, (fewer.map _).nodup wired.unique, fun other there => wired.below _ (fewer.subset there),
      fun other queued => ?_, wired.once, fun other there => ?_, fun other same => (nomatch same), fun other there => ?_, fun some => ?_,
      fun id same => (nomatch same)⟩
    · show ((modifyCap _ _ _).map _).Nodup
      rw [ids_modify]
      · exact wired.ids
      · exact fun _ => rfl
    · rcases mem_modify there with old | ⟨old, member, _, rfl⟩
      · exact wired.owner _ old _ listed
      · exact wired.owner old member _ (mem_of_mem_erase listed)
    · exact (files _).mpr ⟨wired.queued _ queued, fun same => unqueued (same ▸ queued)⟩
    · exact iff_of_false nofun nofun
    · rcases mem_modify there with old | ⟨old, member, _, rfl⟩
      · exact wired.up _ old
      · exact wired.up old member
    · exact wired.awake (modify_nil some)
  exact (same_taken s file cap _).wired erased

end Codec.Sniffer
