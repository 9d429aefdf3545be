import Codec.Sniffer.Resume

set_option autoImplicit false

namespace Codec.Sniffer

open Codec.Lib

structure CapCounts where
  uploading : Bool
  fp : Bool
  pkgs : Int
  size : Int
  limitPkg : Int
  limitTimeuse : Int
  limitFilesize : Int
  maxFilesize : Int
deriving DecidableEq, Repr

def counts (cap : Cap) : CapCounts :=
  ⟨cap.uploading, cap.fp, cap.pkgs, cap.size, cap.limitPkg, cap.limitTimeuse, cap.limitFilesize, cap.maxFilesize⟩

-- A capture as its last packet or timeout left it, with the packets dumped so
-- far, the size of the files that were full and the sum of the intervals armed.
structure Course where
  id : Nat
  cap : Cap
  dumped : Int
  closed : Int
  armed : Int
  done : Bool
deriving DecidableEq, Repr

inductive Turn where
  | packet (packet : Packet)
  | timeout
deriving DecidableEq, Repr

def courseStart (id : Nat) (cap : Cap) : Course :=
  if cap.limitTimeuse > 0 then ⟨id, capTimeoutSet cap, 0, 0, min oneMin cap.limitTimeuse, false⟩ else ⟨id, cap, 0, 0, 0, false⟩

-- Each packet and each timeout finds the module in a state of its own. When the
-- capture is over, cap_packages returns at FLG_UPLOADING, and cap_evt_cb at
-- the status.
def courseStep (course : Course) (turn : Core × Turn) : Course :=
  if course.done then course
  else match turn.2, cap? turn.1 course.id with
    | _, none => { course with done := true }
    | .timeout, some cap =>
      if cap.limitTimeuse ≤ 0 then { course with done := true }
      else { course with cap := capTimeoutSet cap, armed := course.armed + min oneMin cap.limitTimeuse }
    | .packet packet, some cap =>
      let dumped := if cap.fp ∨ packet.opens then course.dumped + 1 else course.dumped
      match cap? (capPackages turn.1 course.id packet) course.id with
      | none => { course with dumped := dumped, done := true }
      | some next => { course with cap := next, dumped := dumped, done := next.uploading,
                                   closed := if next.uploading || next.fp then course.closed else course.closed + packet.fsize }

-- A timer that is armed and has time left: the course has what cap_timeout_cb leaves.
theorem timeout_followed {s : Core} {course : Course} {cap : Cap} (found : cap? s course.id = some cap) (armed : cap.timer = true)
    (goes : (courseStep course (s, .timeout)).done = false) :
    cap? (capTimeoutCb s course.id) course.id = some (courseStep course (s, .timeout)).cap := by
  rw [courseStep] at goes ⊢
  split at goes
  · rename_i done
    exact nomatch goes.symm.trans done
  rename_i running
  rw [if_neg running]
  simp only [found] at goes ⊢
  split at goes
  · exact nomatch goes
  rename_i left
  rw [if_neg left, capTimeoutCb, found]
  simp only [armed, not_true, if_false, if_neg left]
  exact changed_found found fun _ => rfl

-- What the turns take from the rest of the module: between them nothing else
-- changes the counts of the capture.
def Meets (course : Course) (turn : Core × Turn) : Prop :=
  course.done = true ∨ (cap? turn.1 course.id).map counts = some (counts course.cap)

instance (course : Course) (turn : Core × Turn) : Decidable (Meets course turn) := inferInstanceAs (Decidable (_ ∨ _))

def Fails (s : Core) (cap : Cap) (packet : Packet) : Prop :=
  (cap.fp = false ∧ packet.opens = false) ∨ packet.fsize ≤ cap.size ∨
    (cap.maxFilesize ≤ packet.fsize ∧ (s.mallocs.head? = some false ∨ (s.out.st = .paused ∧ s.forks.head? = some false)))

structure LimitsKept (cap : Cap) (course : Course) : Prop where
  packets : 0 < cap.limitPkg → course.dumped ≤ cap.limitPkg
  counted : course.done = false → 0 < cap.limitPkg → 0 < course.cap.limitPkg
  sized : course.done = false → 0 < cap.limitFilesize → 0 < course.cap.limitFilesize
  time : 0 < cap.limitTimeuse → course.armed ≤ cap.limitTimeuse

section Packet

variable {s : Core} {id : Nat} {cap : Cap} (packet : Packet)

theorem upload_started_caps (file : File) (starts : s.out.st = .paused → s.forks.head? ≠ some false) :
    (outputUploadFile s file).2 = true ∧ (outputUploadFile s file).1.caps = s.caps := by
  rw [outputUploadFile]
  by_cases idle : s.out.st = .paused
  · rw [if_pos idle]
    refine ⟨decide_eq_true (starts idle), ?_⟩
    have first := starts idle
    generalize s.forks = forks at first
    unfold outputContinue
    split
    · rfl
    split
    · exact absurd rfl first
    · rfl
  · rw [if_neg idle]
    exact ⟨rfl, rfl⟩

theorem finished_rotated (found : cap? s id = some cap) (opened : cap.fp = true) (alloc : s.mallocs.head? ≠ some false)
    (starts : s.out.st = .paused → s.forks.head? ≠ some false) :
    (capFileFinished s id).2 = true ∧ ∃ files, cap? (capFileFinished s id).1 id = some { rotated cap with list := files } := by
  rw [finished_kept found opened alloc]
  obtain ⟨done, caps⟩ := upload_started_caps (s := capFileAdded s id _) _ starts
  have listed : cap? _ id =
      some (fileListed ⟨s.written, id, cap.size⟩ _) := changed_found (closed_found found) fun _ => rfl
  refine ⟨done, cap.list ++ [⟨s.written, id, cap.size⟩], ?_⟩
  rw [cap?, caps]
  exact listed

theorem unfinished (found : cap? s id = some cap) (opened : cap.fp = true)
    (fails : s.mallocs.head? = some false ∨ (s.out.st = .paused ∧ s.forks.head? = some false)) : (capFileFinished s id).2 = false := by
  by_cases alloc : s.mallocs.head? = some false
  · rw [finished_short found opened alloc]
  · obtain ⟨idle, first⟩ := fails.resolve_left alloc
    rw [finished_kept found opened alloc, outputUploadFile]
    have still : (capFileAdded s id ⟨s.written, id, cap.size⟩).out.st = .paused := idle
    have forks : (capFileAdded s id ⟨s.written, id, cap.size⟩).forks.head? = some _ := first
    simp [still, forks]

def Stops (s : Core) (cap : Cap) (packet : Packet) : Prop :=
  Fails s cap packet ∨ (cap.limitFilesize > 0 ∧ cap.limitFilesize ≤ packet.fsize) ∨ (cap.limitPkg > 0 ∧ cap.limitPkg ≤ cap.pkgs + 1)

theorem packages_turn (found : cap? s id = some cap) (live : cap.uploading = false) :
    (Stops s cap packet ∧ Closing (capPackages s id packet) id) ∨
    (¬ Stops s cap packet ∧ ∃ next, cap? (capPackages s id packet) id = some next ∧
        counts next = counts (if cap.maxFilesize ≤ packet.fsize then rotated (grown cap packet) else grown cap packet)) := by
  have alike : Stops s cap packet ↔ EndsCapture cap packet ∨
      (cap.maxFilesize ≤ packet.fsize ∧ (s.mallocs.head? = some false ∨ (s.out.st = .paused ∧ s.forks.head? = some false))) := by
    have flat : packet.fsize - cap.size ≤ 0 ↔ packet.fsize ≤ cap.size := by omega
    simp only [Stops, Fails, EndsCapture, Bool.not_eq_true, flat, or_assoc]
    exact or_congr_right (or_congr_right (or_comm.trans or_assoc))
  rw [alike]
  by_cases goes : EndsCapture cap packet
  · exact .inl ⟨.inl goes, packages_closing s id found live goes⟩
  rw [packages_goes found live goes, or_iff_right goes]
  have counted := grown_found found packet
  by_cases full : cap.maxFilesize ≤ packet.fsize
  · rw [if_pos full, if_pos full]
    by_cases fails : s.mallocs.head? = some false ∨ (s.out.st = .paused ∧ s.forks.head? = some false)
    · rw [if_neg (by rw [unfinished counted rfl fails]; exact Bool.false_ne_true)]
      exact .inl ⟨⟨full, fails⟩, closing_endCapture _ id⟩
    · obtain ⟨alloc, starts⟩ := not_or.mp fails
      obtain ⟨done, files, listed⟩ := finished_rotated counted rfl alloc fun idle first => starts ⟨idle, first⟩
      rw [if_pos done]
      obtain ⟨-, -, -, spent⟩ := capSpend_spec _ id _ _ _ listed
      refine .inr ⟨fun both => fails both.2, _, spent, ?_⟩
      rw [flagged]
      split <;> rfl
  · rw [if_neg full, if_neg full]
    obtain ⟨-, -, -, spent⟩ := capSpend_spec _ id _ (grown cap _) _ counted
    refine .inr ⟨fun both => full both.1, _, spent, ?_⟩
    rw [flagged]
    split <;> rfl

end Packet

-- What the counts of a capture are between two turns, by its limits at the
-- start.
structure OnCourse (cap : Cap) (course : Course) : Prop where
  live : course.cap.uploading = false
  shut : course.cap.fp = false → course.cap.size = 0
  packets : 0 < cap.limitPkg → course.cap.limitPkg = cap.limitPkg - (course.dumped - course.cap.pkgs) ∧ course.dumped < cap.limitPkg
  bytes : 0 < cap.limitFilesize → course.cap.limitFilesize = cap.limitFilesize - course.closed ∧
    course.closed + course.cap.size < cap.limitFilesize
  free : (cap.limitPkg ≤ 0 → course.cap.limitPkg ≤ 0) ∧ (cap.limitFilesize ≤ 0 → course.cap.limitFilesize ≤ 0)
  nonneg : 0 ≤ course.cap.pkgs ∧ 0 ≤ course.cap.size
  time : 0 < cap.limitTimeuse → course.armed + course.cap.limitTimeuse = cap.limitTimeuse ∧ 0 ≤ course.cap.limitTimeuse

structure CourseInv (cap : Cap) (course : Course) : Prop where
  goes : course.done = false → OnCourse cap course
  packets : 0 < cap.limitPkg → course.dumped ≤ cap.limitPkg
  time : 0 < cap.limitTimeuse → course.armed ≤ cap.limitTimeuse

def Reaches (cap : Cap) (course : Course) (s : Core) (packet : Packet) : Prop :=
  Fails s course.cap packet ∨ (0 < cap.limitPkg ∧ cap.limitPkg ≤ course.dumped + 1) ∨
    (0 < cap.limitFilesize ∧ cap.limitFilesize ≤ course.closed + packet.fsize)

variable {cap : Cap} {course : Course} {s : Core}

theorem meets_found (goes : course.done = false) (turn : Turn) (meets : Meets course (s, turn)) :
    ∃ now, cap? s course.id = some now ∧ counts now = counts course.cap := by
  obtain ⟨now, found, same⟩ := Option.map_eq_some_iff.mp (meets.resolve_left (by simp [goes]))
  exact ⟨now, found, same⟩

theorem packet_turn (goes : course.done = false) (on : OnCourse cap course) (packet : Packet) (meets : Meets course (s, .packet packet)) :
    ((courseStep course (s, .packet packet)).done = true ↔ Reaches cap course s packet) ∧
      CourseInv cap (courseStep course (s, .packet packet)) := by
  obtain ⟨now, found, same⟩ := meets_found goes _ meets
  obtain ⟨live, shut, packets, bytes, free, nonneg, time⟩ := on
  simp only [counts, CapCounts.mk.injEq] at same
  obtain ⟨uploading, fp, pkgs, size, limitPkg, limitTimeuse, limitFilesize, maxFilesize⟩ := same
  have armed : 0 < cap.limitTimeuse → course.armed ≤ cap.limitTimeuse := fun limit => by
    omega
  have dumped : 0 < cap.limitPkg → (if now.fp ∨ packet.opens then course.dumped + 1 else course.dumped) ≤ cap.limitPkg := fun limit => by
    split <;> omega
  have reaches : Stops s now packet ↔ Reaches cap course s packet := by
    have many : (course.cap.limitPkg > 0 ∧ course.cap.limitPkg ≤ course.cap.pkgs + 1) ↔
        (0 < cap.limitPkg ∧ cap.limitPkg ≤ course.dumped + 1) := by
      by_cases limit : 0 < cap.limitPkg
      · have := packets limit
        omega
      · omega
    have large : (course.cap.limitFilesize > 0 ∧ course.cap.limitFilesize ≤ packet.fsize) ↔
        (0 < cap.limitFilesize ∧ cap.limitFilesize ≤ course.closed + packet.fsize) := by
      by_cases limit : 0 < cap.limitFilesize
      · have := bytes limit
        omega
      · omega
    rw [Reaches, Stops, Fails, Fails, fp, size, maxFilesize, limitFilesize, limitPkg, pkgs, many, large]
    exact or_congr_right or_comm
  rw [courseStep, if_neg (by simp [goes])]
  rw [found]
  dsimp only
  obtain ⟨done, closing⟩ | ⟨goesOn, next, there, counted⟩ := packages_turn _ found (uploading.trans live)
  · have ends := reaches.mp done
    cases there : cap? _ _ with
    | none => exact ⟨iff_of_true rfl ends, nofun, dumped, armed⟩
    | some next =>
      have uploading := closing next there
      exact ⟨iff_of_true uploading ends, fun live => (nomatch live.symm.trans uploading), dumped, armed⟩
  · have stays := mt reaches.mpr goesOn
    rw [there]
    have shut : ¬ (now.fp = false ∧ packet.opens = false) := fun shut => goesOn (.inl (.inl shut))
    have opens : now.fp = true ∨ packet.opens = true := by simpa [Classical.or_iff_not_imp_left] using shut
    have grows : ¬ packet.fsize ≤ now.size := fun flat => goesOn (.inl (.inr (.inl flat)))
    have stops := stays
    simp only [Reaches, not_or] at stops
    rw [if_pos opens] at dumped ⊢
    have still : next.uploading = false ∧ OnCourse cap { course with cap := next, dumped := course.dumped + 1, done := next.uploading,
                                                                     closed := if next.uploading || next.fp then course.closed else course.closed + packet.fsize } := by
      by_cases full : now.maxFilesize ≤ packet.fsize
      · rw [if_pos full] at counted
        simp only [counts, rotated, grown, fileClosed, CapCounts.mk.injEq] at counted
        obtain ⟨uploading', fp', pkgs', size', limitPkg', limitTimeuse', limitFilesize', -⟩ := counted
        have going : next.uploading = false := uploading'.trans (uploading.trans live)
        refine ⟨going, going, fun _ => size', fun limit => ?_, fun limit => ?_, ⟨fun limit => ?_, fun limit => ?_⟩, ?_, fun limit => ?_⟩
        · have := packets limit
          have := limitPkg'.trans (if_pos (by omega))
          dsimp only
          omega
        · have := bytes limit
          have := limitFilesize'.trans (if_pos (by omega))
          simp only [going, fp', Bool.or_self, Bool.false_eq_true, if_false]
          omega
        · have := free.1 limit
          dsimp only
          omega
        · have := free.2 limit
          have := limitFilesize'.trans (if_neg (by omega))
          dsimp only
          omega
        · exact ⟨Int.le_of_eq pkgs'.symm, Int.le_of_eq size'.symm⟩
        · have := time limit
          dsimp only
          omega
      · rw [if_neg full] at counted
        simp only [counts, grown, CapCounts.mk.injEq] at counted
        obtain ⟨uploading', fp', pkgs', size', limitPkg', limitTimeuse', limitFilesize', -⟩ := counted
        have going : next.uploading = false := uploading'.trans (uploading.trans live)
        refine ⟨going, going, fun shut => (nomatch fp'.symm.trans shut), fun limit => ?_, fun limit => ?_, ⟨fun limit => ?_, fun limit => ?_⟩, ?_, fun limit => ?_⟩
        · have := packets limit
          dsimp only
          omega
        · have := bytes limit
          simp only [fp', Bool.or_true, if_true]
          omega
        · have := free.1 limit
          dsimp only
          omega
        · have := free.2 limit
          dsimp only
          omega
        · dsimp only
          omega
        · have := time limit
          dsimp only
          omega
    exact ⟨iff_of_false (by simp [still.1]) stays, fun _ => still.2, dumped, armed⟩

theorem timeout_turn (goes : course.done = false) (on : OnCourse cap course) (meets : Meets course (s, .timeout)) :
    CourseInv cap (courseStep course (s, .timeout)) ∧
      (0 < cap.limitTimeuse → ((courseStep course (s, .timeout)).done = true ↔ course.armed = cap.limitTimeuse)) := by
  obtain ⟨now, found, same⟩ := meets_found goes _ meets
  obtain ⟨live, shut, packets, bytes, free, nonneg, time⟩ := on
  have below : 0 < cap.limitPkg → course.dumped ≤ cap.limitPkg := fun limit => Int.le_of_lt (packets limit).2
  simp only [counts, CapCounts.mk.injEq] at same
  obtain ⟨uploading, fp, pkgs, size, limitPkg, limitTimeuse, limitFilesize, -⟩ := same
  rw [← limitTimeuse] at time
  rw [courseStep, if_neg (by simp [goes])]
  rw [found]
  dsimp only
  by_cases spent : now.limitTimeuse ≤ 0
  · rw [if_pos spent]
    refine ⟨⟨nofun, below, fun limit => ?_⟩, fun limit => iff_of_true rfl ?_⟩
    · dsimp only
      omega
    · omega
  · rw [if_neg spent]
    have left : 0 < cap.limitTimeuse → course.armed + min oneMin now.limitTimeuse + (now.limitTimeuse - min oneMin now.limitTimeuse) =
        cap.limitTimeuse ∧ 0 ≤ now.limitTimeuse - min oneMin now.limitTimeuse := fun limit => by
      omega
    refine ⟨⟨fun _ => ?_, below, fun limit => ?_⟩, fun limit => iff_of_false (by simp [goes]) ?_⟩
    · rw [← uploading] at live
      rw [← fp, ← size] at shut
      rw [← limitPkg, ← pkgs] at packets
      rw [← limitFilesize, ← size] at bytes
      rw [← limitPkg, ← limitFilesize] at free
      rw [← pkgs, ← size] at nonneg
      exact ⟨live, shut, packets, bytes, free, nonneg, left⟩
    · dsimp only
      omega
    · omega

theorem course_step_inv (turn : Core × Turn) (inv : CourseInv cap course) (meets : Meets course turn) : CourseInv cap (courseStep course turn) := by
  cases done : course.done with
  | true =>
    rw [courseStep, if_pos done]
    exact inv
  | false =>
    obtain ⟨s, packet | _⟩ := turn
    · exact (packet_turn done (inv.goes done) _ meets).2
    · exact (timeout_turn done (inv.goes done) meets).1

theorem course_start_inv (id : Nat) (live : cap.uploading = false) (none : cap.pkgs = 0 ∧ cap.size = 0) :
    CourseInv cap (courseStart id cap) := by
  obtain ⟨pkgs, size⟩ := none
  rw [courseStart]
  split
  · refine ⟨fun _ => ⟨live, fun _ => size, fun limit => ?_, fun limit => ?_, ⟨fun none => none, fun none => none⟩, ?_, fun limit => ?_⟩, Int.le_of_lt, fun limit => ?_⟩ <;>
      simp only [capTimeoutSet] <;> omega
  · refine ⟨fun _ => ⟨live, fun _ => size, fun limit => ?_, fun limit => ?_, ⟨fun none => none, fun none => none⟩, ?_, fun limit => ?_⟩, Int.le_of_lt, fun limit => ?_⟩ <;>
      dsimp only <;> omega

theorem capture_limits (s : Core) (id : Nat) (req : Request) (turns : List (Core × Turn))
    (meets : AllSteps courseStep Meets (courseStart id (newCap s id req)) turns) :
    let course := run courseStep (courseStart id (newCap s id req)) turns
    LimitsKept (newCap s id req) course ∧
      ∀ s', course.done = false →
        (∀ packet, Meets course (s', .packet packet) →
          ((courseStep course (s', .packet packet)).done = true ↔ Reaches (newCap s id req) course s' packet)) ∧
        (Meets course (s', .timeout) → 0 < req.limitTime →
          ((courseStep course (s', .timeout)).done = true ↔ course.armed = req.limitTime)) := by
  intro course
  have inv : CourseInv _ course := run_keeps _ _ _ _ _
    (course_start_inv id rfl ⟨rfl, rfl⟩) (fun _ turn inv meets => course_step_inv turn inv meets) meets
  refine ⟨⟨inv.packets, fun goes limit => ?_, fun goes limit => ?_, inv.time⟩, fun s' goes => ⟨fun packet meets => ?_, fun meets => ?_⟩⟩
  · have := (inv.goes goes).packets limit
    have := (inv.goes goes).nonneg
    omega
  · have := (inv.goes goes).bytes limit
    have := (inv.goes goes).nonneg
    omega
  · exact (packet_turn goes (inv.goes goes) _ meets).1
  · exact (timeout_turn goes (inv.goes goes) meets).2

def limitedRequest : Request := ⟨1, 0, 0, [0x61], 1000, 90000, 5, none, true, true, 0⟩

def beside (course : Course) : Core := { boot true 10000 10000 with caps := [course.cap] }

theorem capture_limits_sample :
    let start := courseStart 0 (newCap (boot true 10000 150) 0 limitedRequest)
    let first := (beside start, Turn.packet ⟨true, 100⟩)
    let second := (beside (courseStep start first), Turn.packet ⟨true, 160⟩)
    let third := (beside (courseStep (courseStep start first) second), Turn.timeout)
    let course := run courseStep start [first, second, third]
    AllSteps courseStep Meets start [first, second, third] ∧ LimitsKept (newCap (boot true 10000 150) 0 limitedRequest) course ∧
      ((courseStep course (beside course, .packet ⟨true, 840⟩)).done = true ↔
        Reaches (newCap (boot true 10000 150) 0 limitedRequest) course (beside course) ⟨true, 840⟩) := by
  intro start first second third course
  have meets : AllSteps courseStep Meets start [first, second, third] := by decide
  obtain ⟨kept, ends⟩ := capture_limits _ 0 _ _ meets
  exact ⟨meets, kept, (ends _ (by decide)).1 _ (by decide)⟩

theorem limit_not_reached :
    let start := courseStart 0 (newCap (boot true 10000 1000) 0 limitedRequest)
    let first := (beside start, Turn.packet ⟨true, 100⟩)
    let course := courseStep start first
    Meets start first ∧ Meets course (beside course, .packet ⟨true, 100⟩) ∧ course.done = false ∧
      (courseStep course (beside course, .packet ⟨true, 100⟩)).done = true ∧
      (courseStep course (beside course, .packet ⟨true, 100⟩)).dumped < limitedRequest.limitPackage ∧
      course.closed + 100 < limitedRequest.limitFilesize := by
  decide

end Codec.Sniffer
