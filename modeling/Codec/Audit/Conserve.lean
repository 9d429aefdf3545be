import Codec.Lib.Runs
import Codec.Audit.Out

set_option autoImplicit false

namespace Codec.Audit

open Codec.Lib Function

def currentContent (s : Audit) : List UInt8 :=
  match s.current with
  | some node => s.disk.nodes node
  | none => []

structure Conserved (s : Audit) : Prop where
  lines : s.handed.flatMap Prod.snd ++ currentContent s ++ s.data = s.accepted.flatten
  early : s.late = false

def OpensFresh (s : Audit) (meets : Meets) : Prop :=
  meets.openOk → currentContent s = [] ∧ s.uploading ≠ some (meets.now % 2 ^ 32) ∧
    ∀ node, s.disk.names (meets.now % 2 ^ 32) = some node → s.disk.nodes node = [] ∧ node ∉ s.handed.map Prod.fst

def HandsCurrent (s : Audit) (meets : Meets) : Prop :=
  ∀ name node, s.logName = some name → s.disk.names name = some node → s.disk.nodes node ≠ [] →
    (s.uploading = none ∨ meets.exited) → s.current = some node

def Careful (s : Audit) : AuditStep → Prop
  | .log _ meets => meets.scriptThere ∧ (s.st = .error → OpensFresh s meets)
  | .timer meets => meets.scriptThere ∧ HandsCurrent s meets
  | _ => True

structure AuditInv (s : Audit) : Prop extends Conserved s where
  nodes : ∀ name node, s.disk.names name = some node → node < s.disk.fresh
  given : ∀ entry ∈ s.handed, entry.1 < s.disk.fresh
  named : ∀ node, s.current = some node → s.disk.names s.fl = some node ∧ s.uploading ≠ some s.fl ∧ node ∉ s.handed.map Prod.fst
  opened : s.st = .normal → ∃ node, s.current = some node ∧ s.fd = some (node, (s.disk.nodes node).length)

section Keeps

variable (s : Audit) (meets : Meets) (maxFlSz : Nat)

theorem full_inv (inv : AuditInv s) : AuditInv (outFileFull s) := ⟨⟨inv.lines, inv.early⟩, inv.nodes, inv.given, inv.named, inv.opened⟩

theorem truncate_inv (inv : AuditInv s) : AuditInv (outFileTruncate s) :=
  ⟨⟨inv.lines, inv.early⟩, inv.nodes, inv.given, inv.named, nofun⟩

theorem waits_inv (inv : AuditInv s) : AuditInv (waits s meets).2 := by
  rw [waits]
  split
  · split
    · exact ⟨⟨inv.lines, inv.early⟩, inv.nodes, inv.given, fun node there => ⟨(inv.named node there).1, nofun, (inv.named node there).2.2⟩, inv.opened⟩
    · exact inv
  · exact inv

theorem waits_gone (gone : (waits s meets).1 = false) :
    (waits s meets).2 = { s with uploading := none } ∧ (s.uploading = none ∨ meets.exited = true) := by
  rw [waits] at gone ⊢
  split at gone
  · split at gone
    · rename_i exited
      exact ⟨if_pos exited ▸ rfl, .inr exited⟩
    · exact nomatch gone
  · rename_i alone
    exact ⟨by rw [← alone], .inl alone⟩

theorem init_inv (inv : AuditInv s) (fresh : OpensFresh s meets) : AuditInv (outFileInit s meets) := by
  rw [outFileInit]
  split
  · rename_i opens
    obtain ⟨nothing, alone, empty⟩ := fresh opens
    have lines := inv.lines
    rw [nothing] at lines
    rw [Disk.create]
    cases known : s.disk.names _ with
    | some node =>
      obtain ⟨blank, own⟩ := empty node known
      refine ⟨⟨?_, inv.early⟩, inv.nodes, inv.given, fun other same => ?_, fun _ => ⟨node, rfl, ?_⟩⟩
      · show s.handed.flatMap _ ++ s.disk.nodes node ++ s.data = s.accepted.flatten
        rw [blank]
        exact lines
      · obtain rfl := Option.some.inj same
        exact ⟨known, alone, own⟩
      · rw [blank]
        rfl
    | none =>
      have apart : s.disk.fresh ∉ s.handed.map Prod.fst := by
        intro there
        obtain ⟨entry, given, same⟩ := List.mem_map.mp there
        exact absurd same (Nat.ne_of_lt (inv.given _ given))
      refine ⟨⟨?_, inv.early⟩, fun name node there => ?_, fun entry there => Nat.lt_succ_of_lt (inv.given _ there), fun other same => ?_,
        fun _ => ⟨s.disk.fresh, rfl, ?_⟩⟩
      · show s.handed.flatMap _ ++ update s.disk.nodes _ [] _ ++ s.data = s.accepted.flatten
        rw [update_self]
        exact lines
      · dsimp only at there ⊢
        by_cases same : name = meets.now % 2 ^ 32
        · rw [same, update_self] at there
          exact Option.some.inj there ▸ Nat.lt_succ_self _
        · rw [update_of_ne same] at there
          exact Nat.lt_succ_of_lt (inv.nodes name node there)
      · obtain rfl := Option.some.inj same
        exact ⟨update_self _ _ _, alone, apart⟩
      · show some _ = some (s.disk.fresh, (update s.disk.nodes _ [] _).length)
        rw [update_self]
        rfl
  · exact ⟨⟨inv.lines, inv.early⟩, inv.nodes, inv.given, inv.named, nofun⟩

theorem write_inv (inv : AuditInv s) (node pos count : Nat) (current : s.current = some node) (atEnd : pos = (s.disk.nodes node).length)
    (inside : count ≤ s.data.length) : AuditInv (writeFile s node pos count) := by
  obtain ⟨linked, alone, own⟩ := inv.named node current
  have lines := inv.lines
  rw [currentContent, current] at lines
  have grown : (s.disk.writeAt node pos (s.data.take count)).nodes node = s.disk.nodes node ++ s.data.take count := by
    show update _ node _ node = _
    rw [update_self, atEnd, List.take_length, List.drop_eq_nil_of_le (Nat.le_add_right _ _), List.append_nil]
  refine ⟨⟨?_, ?_⟩, inv.nodes, inv.given, inv.named, fun _ => ⟨node, current, ?_⟩⟩
  · have content : currentContent (writeFile s node pos count) = s.disk.nodes node ++ s.data.take count := by
      rw [currentContent, show (writeFile s node pos _).current = some node from current]
      exact grown
    rw [content]
    show s.handed.flatMap _ ++ (s.disk.nodes node ++ s.data.take _) ++ s.data.drop _ = s.accepted.flatten
    rw [← lines]
    simp only [List.append_assoc, List.take_append_drop]
  · show (s.late || decide _) = false
    rw [inv.early, decide_eq_false own]
    rfl
  · show some _ = some (node, ((s.disk.writeAt node pos _).nodes node).length)
    rw [grown, List.length_append, List.length_take, Nat.min_eq_left inside, atEnd]

theorem output_inv (node : Nat) (writes : List Written) (pos : Nat) (some_ : Bool) (inv : AuditInv s) (normal : s.st = .normal)
    (fd : s.fd = some (node, pos)) :
    AuditInv (outputIntoFile node writes pos some_ s).2 ∧ (outputIntoFile node writes pos some_ s).2.st = .normal := by
  have first : ∀ count, count ≤ s.data.length → AuditInv (writeFile s node pos count) := by
    intro count inside
    obtain ⟨other, current, opened⟩ := inv.opened normal
    rw [fd] at opened
    obtain ⟨rfl, atEnd⟩ := Prod.mk.inj (Option.some.inj opened)
    exact write_inv s inv node pos _ current atEnd inside
  induction writes generalizing s pos some_ with
  | nil =>
    rw [outputIntoFile]
    split
    · exact ⟨inv, normal⟩
    · exact ⟨first _ (Nat.le_refl _), normal⟩
  | cons answer rest ih =>
    by_cases empty : s.data = []
    · cases answer <;> rw [outputIntoFile, if_pos empty] <;> exact ⟨inv, normal⟩
    · cases answer with
      | took more =>
        rw [outputIntoFile, if_neg empty]
        have next := first (min (more + 1) _) (Nat.min_le_right _ _)
        refine ih _ _ true next normal rfl ?_
        intro count inside
        obtain ⟨other, current, opened⟩ := next.opened normal
        obtain ⟨rfl, atEnd⟩ := Prod.mk.inj (Option.some.inj opened)
        exact write_inv _ next node _ _ current atEnd inside
      | zero =>
        rw [outputIntoFile, if_neg empty]
        exact ⟨inv, normal⟩
      | fail =>
        rw [outputIntoFile, if_neg empty]
        exact ⟨inv, normal⟩

section

variable (inv : AuditInv s)

include inv

theorem upload_inv (name node : Nat) (script : meets.scriptThere = true) (linked : s.disk.names name = some node)
    (current : s.current = some node) (closed : s.st ≠ .normal) : AuditInv (e6wifiUploadFile s meets name) := by
  rw [e6wifiUploadFile, if_neg (not_not.mpr script)]
  split
  · exact inv
  · rw [linked]
    have lines := inv.lines
    rw [currentContent, current] at lines
    have none_ : (handOver s name node).current = none := if_pos current
    refine ⟨⟨?_, inv.early⟩, inv.nodes, fun entry there => ?_, fun other same => (nomatch none_.symm.trans same), fun normal => absurd normal closed⟩
    · rw [currentContent, none_]
      show (s.handed ++ [(node, s.disk.nodes node)]).flatMap _ ++ [] ++ s.data = s.accepted.flatten
      rw [← lines, List.flatMap_append, List.append_nil]
      simp
    · rcases List.mem_append.mp there with old | new
      · exact inv.given _ old
      · rw [List.mem_singleton.mp new]
        exact inv.nodes name node linked

theorem evt_log_inv (normal : s.st = .normal) (script : meets.scriptThere = true) :
    AuditInv (e6wifiEvtLog s meets maxFlSz s.fl) := by
  obtain ⟨node, current, _⟩ := inv.opened normal
  have linked := (inv.named node current).1
  rw [e6wifiEvtLog]
  split
  · exact inv
  have noted : AuditInv { s with logName := some s.fl } := ⟨⟨inv.lines, inv.early⟩, inv.nodes, inv.given, inv.named, inv.opened⟩
  have waited := waits_inv _ meets noted
  have gone := waits_gone { s with logName := some s.fl } meets
  generalize waits _ _ = answer at waited gone
  obtain ⟨running, behind⟩ := answer
  dsimp only at waited gone ⊢
  split
  · split
    · exact full_inv _ waited
    · exact waited
  split
  · rename_i done _
    obtain ⟨rfl, _⟩ := gone (Bool.eq_false_iff.mpr done)
    exact upload_inv _ _ (truncate_inv _ waited) s.fl node script linked current nofun
  · exact waited

theorem update_normal_inv (normal : s.st = .normal) (script : meets.scriptThere = true) :
    AuditInv (updateNormal s meets maxFlSz) := by
  rw [updateNormal]
  split
  · exact inv
  split
  · exact evt_log_inv s _ _ inv normal script
  · exact inv
  · rename_i node pos _ fd
    obtain ⟨kept, still⟩ := output_inv s node _ pos _ inv normal fd
    split
    · rename_i next out
      rw [out] at kept still
      exact evt_log_inv next _ _ kept still script
    · rename_i next out
      rw [out] at kept
      exact ⟨⟨kept.lines, kept.early⟩, kept.nodes, kept.given, kept.named, nofun⟩

theorem update_inv (script : meets.scriptThere = true) (fresh : s.st = .error → OpensFresh s meets) :
    AuditInv (outFileUpdate s meets maxFlSz) := by
  rw [outFileUpdate]
  split
  · exact inv
  · rename_i error
    have opened := init_inv s _ inv (fresh error)
    dsimp only
    split
    · rename_i normal
      exact update_normal_inv _ _ _ opened normal script
    · exact opened
  · rename_i normal
    exact update_normal_inv s _ _ inv normal script

theorem timer_inv (script : meets.scriptThere = true) (hands : HandsCurrent s meets) :
    AuditInv (e6wifiTimeoutCb s meets maxFlSz) := by
  rw [e6wifiTimeoutCb]
  split
  · exact inv
  rename_i name size known
  obtain ⟨other, named, sized⟩ := Option.bind_eq_some_iff.mp known
  obtain ⟨length, found, same⟩ := Option.map_eq_some_iff.mp sized
  obtain ⟨rfl, rfl⟩ := Prod.mk.inj same
  obtain ⟨node, linked, rfl⟩ := Option.map_eq_some_iff.mp found
  have waited := waits_inv s meets inv
  have gone := waits_gone s meets
  generalize waits s _ = answer at waited gone
  obtain ⟨running, behind⟩ := answer
  dsimp only at waited gone ⊢
  split
  · split
    · exact full_inv _ waited
    · exact waited
  split
  · rename_i done more
    obtain ⟨rfl, exited⟩ := gone (Bool.eq_false_iff.mpr done)
    have current := hands _ node named linked (List.ne_nil_of_length_pos more) exited
    exact upload_inv _ _ (truncate_inv _ waited) _ node script linked current nofun
  · exact waited

theorem buffer_inv (line : List UInt8) (script : meets.scriptThere = true) (fresh : s.st = .error → OpensFresh s meets) :
    AuditInv (outputBuffer maxFlSz s line meets) := by
  rw [outputBuffer]
  split
  · exact inv
  dsimp only
  have written : ∀ trash, AuditInv (bufWrite { s with trash := trash } line) := by
    intro trash
    refine ⟨⟨?_, inv.early⟩, inv.nodes, inv.given, inv.named, inv.opened⟩
    show s.handed.flatMap _ ++ currentContent s ++ (s.data ++ (line ++ [10])) = (s.accepted ++ [line ++ [10]]).flatten
    rw [List.flatten_append, ← inv.lines, List.append_assoc _ _]
    simp
  by_cases short : bufLeft s < line.length + 2
  · rw [if_pos short]
    split
    · exact ⟨⟨inv.lines, inv.early⟩, inv.nodes, inv.given, inv.named, inv.opened⟩
    · exact update_inv _ _ _ (written 0) script fresh
  · rw [if_neg short, if_neg short]
    exact update_inv _ _ _ (written _) script fresh

theorem child_inv (disk : Disk) (name : Nat) (child : s.uploading = some name)
    (names : ∀ other, other ≠ name → disk.names other = s.disk.names other) (nodes : ∀ node, node < s.disk.fresh → disk.nodes node = s.disk.nodes node)
    (later : s.disk.fresh ≤ disk.fresh) (known : ∀ other node, disk.names other = some node → node < disk.fresh) :
    AuditInv { s with disk := disk } := by
  have kept : ∀ node, s.current = some node → disk.names s.fl = some node ∧ disk.nodes node = s.disk.nodes node := by
    intro node current
    obtain ⟨linked, alone, _⟩ := inv.named node current
    exact ⟨(names s.fl fun same => alone (same ▸ child)).trans linked, nodes node (inv.nodes s.fl node linked)⟩
  have content : currentContent { s with disk := disk } = currentContent s := by
    rw [currentContent, currentContent]
    cases current : s.current with
    | none => rfl
    | some node => exact (kept node current).2
  refine ⟨⟨?_, inv.early⟩, known, fun entry there => Nat.lt_of_lt_of_le (inv.given _ there) later,
    fun node current => ⟨(kept node current).1, (inv.named node current).2⟩, fun normal => ?_⟩
  · rw [content]
    exact inv.lines
  · obtain ⟨node, current, fd⟩ := inv.opened normal
    exact ⟨node, current, by rw [(kept node current).2]; exact fd⟩

theorem removes_inv (name : Nat) (child : s.uploading = some name) : AuditInv { s with disk := s.disk.remove name } := by
  refine child_inv s inv _ name child (fun other differs => update_of_ne differs _ _) (fun _ _ => rfl) (Nat.le_refl _)
    fun other node there => ?_
  rw [Disk.remove] at there
  dsimp only at there
  by_cases same : other = name
  · rw [same, update_self] at there
    exact nomatch there
  · rw [update_of_ne same] at there
    exact inv.nodes _ node there

theorem replaces_inv (name : Nat) (content : List UInt8) (child : s.uploading = some name) :
    AuditInv { s with disk := s.disk.replace name content } := by
  refine child_inv s inv _ name child (fun other differs => update_of_ne differs _ _)
    (fun node old => update_of_ne (Nat.ne_of_lt old) _ _) (Nat.le_succ _) fun other node there => ?_
  rw [Disk.replace] at there
  dsimp only at there
  by_cases same : other = name
  · rw [same, update_self] at there
    exact Option.some.inj there ▸ Nat.lt_succ_self _
  · rw [update_of_ne same] at there
    exact Nat.lt_succ_of_lt (inv.nodes _ node there)

end

theorem audit_step (step : AuditStep) (inv : AuditInv s) (careful : Careful s step) : AuditInv (auditStep maxFlSz s step) := by
  cases step with
  | log line meets => exact buffer_inv s _ _ inv line careful.1 careful.2
  | fileFull => exact full_inv s inv
  | fileTruncate => exact truncate_inv s inv
  | timer meets => exact timer_inv s _ _ inv careful.1 careful.2
  | childRemoves =>
    rw [auditStep]
    split
    · rename_i name child
      exact removes_inv s inv name child
    · exact inv
  | childReplaces content =>
    rw [auditStep]
    split
    · rename_i name child
      exact replaces_inv s inv name _ child
    · exact inv

end Keeps

theorem start_inv (disk : Disk) (meets : Meets) (known : ∀ name node, disk.names name = some node → node < disk.fresh)
    (fresh : OpensFresh (auditBlank disk) meets) : AuditInv (auditStart disk meets) := by
  have blank : AuditInv (auditBlank disk) := ⟨⟨rfl, rfl⟩, known, nofun, nofun, nofun⟩
  have opened := init_inv _ _ blank fresh
  rw [auditStart]
  split
  · exact opened
  · exact ⟨⟨opened.lines, opened.early⟩, opened.nodes, opened.given, opened.named, nofun⟩

theorem log_conserved (maxFlSz : Nat) (disk : Disk) (meets : Meets) (known : ∀ name node, disk.names name = some node → node < disk.fresh)
    (fresh : OpensFresh (auditBlank disk) meets) (steps : List AuditStep)
    (careful : AllSteps (auditStep maxFlSz) Careful (auditStart disk meets) steps) :
    Conserved (run (auditStep maxFlSz) (auditStart disk meets) steps) :=
  (run_keeps _ _ _ _ _ (start_inv disk _ known fresh)
    (fun s step inv careful => audit_step s _ step inv careful) careful).toConserved

section Sample

def emptyTmp : Disk := ⟨fun _ => none, fun _ => [], 0⟩

def fine (now : Nat) (exited : Bool) : Meets := ⟨now, true, [], exited, true, true⟩

theorem log_conserved_sample : Conserved (run (auditStep 2) (auditStart emptyTmp (fine 5 true)) [.log [65] (fine 6 true), .log [66] (fine 7 true)]) :=
  log_conserved 2 emptyTmp _ nofun (fun _ => ⟨rfl, nofun, nofun⟩) _
    ⟨⟨rfl, nofun⟩, ⟨rfl, fun _ _ => ⟨rfl, by decide, nofun⟩⟩, trivial⟩

-- The limit is reached and a line comes in the same second: the file that was
-- handed over is opened again and written from its start.
theorem handed_file_written : ¬ Conserved (run (auditStep 2) (auditStart emptyTmp (fine 5 true)) [.log [65] (fine 5 true), .log [66] (fine 5 true)]) :=
  fun conserved => absurd conserved.early (by decide)

end Sample

end Codec.Audit
