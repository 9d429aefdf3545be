import Codec.Lib.Runs
import Mathlib.Data.List.Chain

set_option autoImplicit false

namespace Codec.Fwd.Transfer

open Codec.Lib

-- Signed arithmetic with what C leaves undefined.
section Signed

def intRange : Int := 2147483648
def offRange : Int := 9223372036854775808

def signed (range value : Int) : Option Int := if -range ≤ value ∧ value < range then some value else none

def quotient (dividend divisor : Int) : Option Int := if divisor = 0 then none else some (dividend.tdiv divisor)

end Signed

structure Timeval where
  sec : Nat
  usec : Nat
  below : usec < 1000000

def Timeval.micros (tv : Timeval) : Nat := tv.sec * 1000000 + tv.usec

structure FwdTransinfo where
  realTimeSpeed : Int
  totalBytes : Int
  totalRead : Int
  totalWrite : Int
  readSpeed : Int
  writeSpeed : Int
  averageSpeed : Int
  access : Timeval
  modify : Timeval
  born : Timeval

section Calls

-- now is what gettimeofday stores.
variable (trans : FwdTransinfo) (nbytes : Nat) (now : Timeval)

def fwdTransInit : FwdTransinfo := ⟨0, 0, 0, 0, 0, 0, 0, now, now, now⟩

def transTimeDiff (t1 t2 : Timeval) : Option Int :=
  (signed offRange (((t1.sec : Int) - t2.sec) * 1000000)).bind fun secs => signed offRange (secs + ((t1.usec : Int) - t2.usec))

def speedOf (total diff : Int) : Option Int := (signed offRange (total * 1000000)).bind fun product => quotient product diff

-- nbytes is an int, and so is the first product.
def realTimeSpeed (diff : Int) : Option Int :=
  if 0 < diff then (signed intRange ((nbytes : Int) * 1000000)).bind fun product => quotient product diff
  else some trans.realTimeSpeed

def fwdTransUpdate : Option FwdTransinfo :=
  (transTimeDiff now trans.access).bind fun idle =>
    (realTimeSpeed trans nbytes idle).bind fun speed =>
      (transTimeDiff now trans.modify).bind fun diff =>
        (signed offRange (trans.totalBytes + nbytes)).bind fun total =>
          let trans := { trans with realTimeSpeed := speed, access := now, totalBytes := total }
          if 0 < diff then
            (speedOf trans.totalBytes diff).bind fun average =>
              (speedOf trans.totalRead diff).bind fun reading =>
                (speedOf trans.totalWrite diff).map fun writing =>
                  { trans with averageSpeed := average, readSpeed := reading, writeSpeed := writing }
          else some trans

def fwdTransWrite : Option FwdTransinfo :=
  (signed offRange (trans.totalWrite + nbytes)).bind fun total => fwdTransUpdate { trans with totalWrite := total } nbytes now

def fwdTransRead : Option FwdTransinfo :=
  (signed offRange (trans.totalRead + nbytes)).bind fun total => fwdTransUpdate { trans with totalRead := total } nbytes now

def fwdTransFlush : FwdTransinfo :=
  { trans with realTimeSpeed := 0, totalBytes := 0, totalRead := 0, readSpeed := 0, writeSpeed := 0, modify := now }

end Calls

inductive TransCall
  | read (nbytes : Nat) (now : Timeval)
  | write (nbytes : Nat) (now : Timeval)
  | flush (now : Timeval)

def TransCall.now : TransCall → Timeval
  | .read _ now => now
  | .write _ now => now
  | .flush now => now

def TransCall.nbytes : TransCall → Nat
  | .read nbytes _ => nbytes
  | .write nbytes _ => nbytes
  | .flush _ => 0

def transCall (trans : FwdTransinfo) : TransCall → Option FwdTransinfo
  | .read nbytes now => fwdTransRead trans nbytes now
  | .write nbytes now => fwdTransWrite trans nbytes now
  | .flush now => some (fwdTransFlush trans now)

section Exact

variable (trans : FwdTransinfo) (nbytes : Nat) (now : Timeval)

def perSecond (bytes : Int) (since : Timeval) : Int := bytes * 1000000 / ((now.micros : Int) - since.micros)

def SpeedsExact (next : FwdTransinfo) : Prop :=
  (trans.access.micros < now.micros → next.realTimeSpeed = perSecond now nbytes trans.access) ∧
    (trans.modify.micros < now.micros → next.averageSpeed = perSecond now next.totalBytes trans.modify ∧
      next.readSpeed = perSecond now next.totalRead trans.modify ∧ next.writeSpeed = perSecond now next.totalWrite trans.modify)

def CallExact (call : TransCall) (next : FwdTransinfo) : Prop :=
  next.totalBytes = next.totalRead + next.totalWrite ∧ match call with
    | .read nbytes now => SpeedsExact trans nbytes now next
    | .write nbytes now => SpeedsExact trans nbytes now next
    | .flush _ => True

def ClockFits (t1 t2 : Timeval) : Prop :=
  ((t1.sec : Int) - t2.sec) * 1000000 < offRange ∧ (t1.micros : Int) - t2.micros < offRange

def UpdateFits : Prop :=
  ClockFits now trans.access ∧ (trans.access.micros < now.micros → nbytes ≤ 2147) ∧ ClockFits now trans.modify ∧
    trans.totalBytes + nbytes < offRange ∧ (trans.modify.micros < now.micros → (trans.totalBytes + nbytes) * 1000000 < offRange)

def CallMeets : TransCall → Prop
  | .read nbytes now => UpdateFits trans nbytes now
  | .write nbytes now => UpdateFits trans nbytes now
  | .flush _ => trans.totalWrite = 0

end Exact

section Arithmetic

theorem signed_some (range value : Int) (low : -range ≤ value) (high : value < range) : signed range value = some value :=
  if_pos ⟨low, high⟩

theorem signed_none (range value : Int) (high : ¬ value < range) : signed range value = none := if_neg fun fits => high fits.2

theorem time_diff_some (t1 t2 : Timeval) (later : t2.micros ≤ t1.micros) (fits : ClockFits t1 t2) :
    transTimeDiff t1 t2 = some ((t1.micros : Int) - t2.micros) := by
  obtain ⟨product, sum⟩ := fits
  have first := t1.below
  rw [Timeval.micros, Timeval.micros] at later sum
  have same : ((t1.sec : Int) - t2.sec) * 1000000 + ((t1.usec : Int) - t2.usec) = (t1.micros : Int) - t2.micros := by
    rw [Timeval.micros, Timeval.micros]
    omega
  rw [transTimeDiff, signed_some _ _ (by omega) product, Option.bind_some, same, Timeval.micros, Timeval.micros,
    signed_some _ _ (by omega) sum]

theorem time_diff_none (t1 t2 : Timeval) (later : t2.micros ≤ t1.micros) (fits : ¬ ClockFits t1 t2) : transTimeDiff t1 t2 = none := by
  have first := t1.below
  rw [Timeval.micros, Timeval.micros] at later
  unfold transTimeDiff
  by_cases product : ((t1.sec : Int) - t2.sec) * 1000000 < offRange
  · rw [signed_some _ _ (by omega) product]
    refine signed_none _ _ fun less => fits ⟨product, ?_⟩
    rw [Timeval.micros, Timeval.micros]
    omega
  · rw [signed_none _ _ product]
    rfl

theorem quotient_floor (dividend divisor : Int) (nonneg : 0 ≤ dividend) (positive : 0 < divisor) :
    quotient dividend divisor = some (dividend / divisor) := by
  rw [quotient, if_neg (by omega), Int.tdiv_eq_ediv_of_nonneg nonneg]

theorem speed_some (total diff : Int) (nonneg : 0 ≤ total) (fits : total * 1000000 < offRange) (positive : 0 < diff) :
    speedOf total diff = some (total * 1000000 / diff) := by
  rw [speedOf, signed_some _ _ (by omega) fits, Option.bind_some, quotient_floor _ _ (by omega) positive]

theorem speed_none (total diff : Int) (fits : ¬ total * 1000000 < offRange) : speedOf total diff = none := by
  rw [speedOf, signed_none _ _ fits]
  rfl

variable (trans : FwdTransinfo) (nbytes : Nat)

theorem real_time_some (diff : Int) (fits : 0 < diff → nbytes ≤ 2147) :
    realTimeSpeed trans nbytes diff = some (if 0 < diff then (nbytes : Int) * 1000000 / diff else trans.realTimeSpeed) := by
  unfold realTimeSpeed
  by_cases positive : 0 < diff
  · rw [if_pos positive, if_pos positive, signed_some _ _ (by rw [intRange]; omega) (by rw [intRange]; omega), Option.bind_some,
      quotient_floor _ _ (by omega) positive]
  · rw [if_neg positive, if_neg positive]

theorem real_time_none (diff : Int) (positive : 0 < diff) (large : ¬ nbytes ≤ 2147) : realTimeSpeed trans nbytes diff = none := by
  rw [realTimeSpeed, if_pos positive, signed_none _ _ (by rw [intRange]; omega)]
  rfl

end Arithmetic

section Update

variable (trans : FwdTransinfo) (nbytes : Nat) (now : Timeval)

structure Counted (last : Timeval) : Prop where
  access : trans.access.micros ≤ last.micros
  modify : trans.modify.micros ≤ last.micros
  total : 0 ≤ trans.totalBytes
  read : 0 ≤ trans.totalRead
  write : 0 ≤ trans.totalWrite

theorem update_some (counted : Counted trans now) (sum : trans.totalBytes + nbytes = trans.totalRead + trans.totalWrite)
    (fits : UpdateFits trans nbytes now) :
    ∃ next, fwdTransUpdate trans nbytes now = some next ∧ next.access = now ∧ next.modify = trans.modify ∧
      next.totalBytes = trans.totalBytes + nbytes ∧ next.totalRead = trans.totalRead ∧ next.totalWrite = trans.totalWrite ∧
      SpeedsExact trans nbytes now next := by
  obtain ⟨idle, small, since, total, product⟩ := fits
  obtain ⟨access, modify, bytes, reading, writing⟩ := counted
  unfold fwdTransUpdate
  rw [time_diff_some _ _ access idle, Option.bind_some, real_time_some _ _ _ (by omega), Option.bind_some,
    time_diff_some _ _ modify since, Option.bind_some, signed_some _ _ (by omega) total, Option.bind_some]
  have real : trans.access.micros < now.micros →
      (if (0 : Int) < now.micros - trans.access.micros then (nbytes : Int) * 1000000 / (now.micros - trans.access.micros)
        else trans.realTimeSpeed) = perSecond now _ _ := fun later => if_pos (by omega)
  by_cases later : trans.modify.micros < now.micros
  · have fits := product later
    have positive : (0 : Int) < now.micros - trans.modify.micros := by omega
    rw [if_pos positive, speed_some _ _ (by omega) fits positive, Option.bind_some,
      speed_some _ _ reading (by omega) positive, Option.bind_some, speed_some _ _ writing (by omega) positive]
    exact ⟨_, rfl, rfl, rfl, rfl, rfl, rfl, real, fun _ => ⟨rfl, rfl, rfl⟩⟩
  · rw [if_neg (by omega)]
    exact ⟨_, rfl, rfl, rfl, rfl, rfl, rfl, real, fun less => absurd less later⟩

theorem update_none (counted : Counted trans now) (fits : ¬ UpdateFits trans nbytes now) : fwdTransUpdate trans nbytes now = none := by
  obtain ⟨access, modify, bytes, -, -⟩ := counted
  unfold fwdTransUpdate
  by_cases idle : ClockFits now trans.access
  case neg =>
    rw [time_diff_none _ _ access idle]
    rfl
  rw [time_diff_some _ _ access idle, Option.bind_some]
  by_cases small : trans.access.micros < now.micros → nbytes ≤ 2147
  case neg =>
    obtain ⟨later, large⟩ := Classical.not_imp.mp small
    rw [real_time_none _ _ _ (by omega) large]
    rfl
  rw [real_time_some _ _ _ (by omega), Option.bind_some]
  by_cases since : ClockFits now trans.modify
  case neg =>
    rw [time_diff_none _ _ modify since]
    rfl
  rw [time_diff_some _ _ modify since, Option.bind_some]
  by_cases total : trans.totalBytes + nbytes < offRange
  case neg =>
    rw [signed_none _ _ total]
    rfl
  obtain ⟨later, large⟩ := Classical.not_imp.mp fun product => fits ⟨idle, small, since, total, product⟩
  rw [signed_some _ _ (by omega) total, Option.bind_some]
  rw [if_pos (by omega), speed_none _ _ large]
  rfl

end Update

section Calls

structure Sound (trans : FwdTransinfo) (last : Timeval) : Prop where
  counted : Counted trans last
  sum : trans.totalBytes = trans.totalRead + trans.totalWrite

def CallRight (trans : FwdTransinfo) (call : TransCall) : Prop := ∃ next, transCall trans call = some next ∧ CallExact trans call next

variable (trans : FwdTransinfo) (nbytes : Nat) (now : Timeval)

theorem counted_later (last : Timeval) (counted : Counted trans last) (order : last.micros ≤ now.micros) : Counted trans now :=
  { counted with access := counted.access.trans order, modify := counted.modify.trans order }

theorem update_right (counted : Counted trans now) (sum : trans.totalBytes + nbytes = trans.totalRead + trans.totalWrite) :
    (∃ next, fwdTransUpdate trans nbytes now = some next ∧ next.totalBytes = next.totalRead + next.totalWrite ∧
      SpeedsExact trans nbytes now next) ↔ UpdateFits trans nbytes now := by
  by_cases fits : UpdateFits trans nbytes now
  · obtain ⟨next, done, -, -, total, reading, writing, speeds⟩ := update_some _ _ now counted sum fits
    refine iff_of_true ⟨next, done, ?_, speeds⟩ fits
    rw [total, reading, writing, sum]
  · refine iff_of_false ?_ fits
    rintro ⟨next, done, -⟩
    rw [update_none _ _ now counted fits] at done
    exact nomatch done

theorem update_sound (counted : Counted trans now) (sum : trans.totalBytes + nbytes = trans.totalRead + trans.totalWrite)
    (next : FwdTransinfo) (done : fwdTransUpdate trans nbytes now = some next) : Sound next now := by
  by_cases fits : UpdateFits trans nbytes now
  · obtain ⟨other, same, access, modify, total, reading, writing, -⟩ := update_some _ _ now counted sum fits
    rw [done] at same
    obtain rfl := Option.some.inj same
    have bytes := counted.total
    refine ⟨⟨?_, ?_, ?_, ?_, ?_⟩, ?_⟩
    · rw [access]
    · rw [modify]
      exact counted.modify
    · omega
    · rw [reading]
      exact counted.read
    · rw [writing]
      exact counted.write
    · rw [total, reading, writing, sum]
  · rw [update_none _ _ now counted fits] at done
    exact nomatch done

theorem part_fits (part : Int) (inside : part ≤ trans.totalBytes) (fits : UpdateFits trans nbytes now) : part + nbytes < offRange := by
  have total := fits.2.2.2.1
  omega

variable (last : Timeval) (sound : Sound trans last) (order : last.micros ≤ now.micros)

include sound order

theorem read_counted : Counted { trans with totalRead := trans.totalRead + nbytes } now := by
  have counted := counted_later _ now last sound.counted order
  have nonneg := counted.read
  exact { counted with read := show 0 ≤ trans.totalRead + nbytes by omega }

theorem write_counted : Counted { trans with totalWrite := trans.totalWrite + nbytes } now := by
  have counted := counted_later _ now last sound.counted order
  have nonneg := counted.write
  exact { counted with write := show 0 ≤ trans.totalWrite + nbytes by omega }

omit order

theorem read_call (fits : trans.totalRead + nbytes < offRange) :
    fwdTransRead trans nbytes now = fwdTransUpdate { trans with totalRead := trans.totalRead + nbytes } nbytes now := by
  have nonneg := sound.counted.read
  rw [fwdTransRead, signed_some _ _ (by omega) fits, Option.bind_some]

theorem write_call (fits : trans.totalWrite + nbytes < offRange) :
    fwdTransWrite trans nbytes now = fwdTransUpdate { trans with totalWrite := trans.totalWrite + nbytes } nbytes now := by
  have nonneg := sound.counted.write
  rw [fwdTransWrite, signed_some _ _ (by omega) fits, Option.bind_some]

theorem call_right (call : TransCall) (order : last.micros ≤ call.now.micros) : CallRight trans call ↔ CallMeets trans call := by
  have sum := sound.sum
  cases call with
  | flush now =>
    have written : CallRight _ (.flush now) ↔ (0 : Int) = 0 + trans.totalWrite :=
      ⟨fun ⟨_, done, sums, _⟩ => by rwa [← Option.some.inj done] at sums, fun sums => ⟨_, rfl, sums, trivial⟩⟩
    rw [written, CallMeets]
    omega
  | read nbytes now =>
    by_cases fits : trans.totalRead + nbytes < offRange
    · have right := update_right _ nbytes now
        (read_counted _ nbytes now last sound order) (by dsimp only; omega)
      rw [← read_call _ _ now last sound fits] at right
      exact right
    · refine iff_of_false ?_ fun meets => fits (part_fits _ _ now _ (by have := sound.counted.write; omega) meets)
      rintro ⟨next, done, -⟩
      rw [transCall, fwdTransRead, signed_none _ _ fits] at done
      exact nomatch done
  | write nbytes now =>
    by_cases fits : trans.totalWrite + nbytes < offRange
    · have right := update_right _ nbytes now
        (write_counted _ nbytes now last sound order) (by dsimp only; omega)
      rw [← write_call _ _ now last sound fits] at right
      exact right
    · refine iff_of_false ?_ fun meets => fits (part_fits _ _ now _ (by have := sound.counted.read; omega) meets)
      rintro ⟨next, done, -⟩
      rw [transCall, fwdTransWrite, signed_none _ _ fits] at done
      exact nomatch done

theorem call_sound (call : TransCall) (order : last.micros ≤ call.now.micros) (meets : CallMeets trans call) (next : FwdTransinfo)
    (done : transCall trans call = some next) : Sound next call.now := by
  have sum := sound.sum
  have counted := sound.counted
  cases call with
  | flush now =>
    obtain rfl := Option.some.inj done
    refine ⟨⟨counted.access.trans order, Nat.le_refl _, Int.le_refl _, Int.le_refl _, counted.write⟩, ?_⟩
    show (0 : Int) = 0 + trans.totalWrite
    rw [show trans.totalWrite = 0 from meets]
    rfl
  | read nbytes now =>
    have nonneg := counted.write
    rw [transCall, read_call _ _ now last sound (part_fits _ _ now _ (by omega) meets)] at done
    exact update_sound _ _ now (read_counted _ _ now last sound order) (by dsimp only; omega) next done
  | write nbytes now =>
    have nonneg := counted.read
    rw [transCall, write_call _ _ now last sound (part_fits _ _ now _ (by omega) meets)] at done
    exact update_sound _ _ now (write_counted _ _ now last sound order) (by dsimp only; omega) next done

end Calls

section Run

def transNext (state : Option FwdTransinfo) (call : TransCall) : Option FwdTransinfo := state.bind fun trans => transCall trans call

def Right : Option FwdTransinfo → TransCall → Prop
  | some info, call => CallRight info call
  | none, _ => False

def Meets : Option FwdTransinfo → TransCall → Prop
  | some info, call => CallMeets info call
  | none, _ => False

def Clocked (start : Timeval) (calls : List TransCall) : Prop :=
  (start.micros :: calls.map fun call => call.now.micros).IsChain (· ≤ ·)

theorem right_iff (calls : List TransCall) (trans : FwdTransinfo) (last : Timeval) (sound : Sound trans last) (clocked : Clocked last calls) :
    AllSteps transNext Right (some trans) calls ↔ AllSteps transNext Meets (some trans) calls := by
  induction calls generalizing trans last with
  | nil => exact Iff.rfl
  | cons call rest ih =>
    obtain ⟨order, later⟩ := List.isChain_cons_cons.mp clocked
    have right := call_right _ last sound call order
    refine (and_congr_right ?_).trans (and_congr_left fun _ => right)
    intro called
    obtain ⟨next, done, exact⟩ := show CallRight _ call from called
    have meets := right.mp called
    show AllSteps _ _ (transCall _ call) rest ↔ AllSteps _ _ (transCall _ call) rest
    rw [done]
    exact ih next _ (call_sound _ last sound call order meets next done) later

theorem init_sound (now : Timeval) : Sound (fwdTransInit now) now :=
  ⟨⟨Nat.le_refl _, Nat.le_refl _, Int.le_refl _, Int.le_refl _, Int.le_refl _⟩, rfl⟩

theorem fwd_trans_exact_iff (born : Timeval) (calls : List TransCall) (clocked : Clocked born calls) :
    AllSteps transNext Right (some (fwdTransInit born)) calls ↔ AllSteps transNext Meets (some (fwdTransInit born)) calls :=
  right_iff _ _ born (init_sound born) clocked

def at0 : Timeval := ⟨0, 0, by decide⟩
def at1 : Timeval := ⟨0, 1, by decide⟩

theorem fwd_trans_exact_iff_sample : Clocked at0 [.read 4096 at0, .write 2147 at1, .read 0 at1] ∧
    (AllSteps transNext Right (some (fwdTransInit at0)) [.read 4096 at0, .write 2147 at1, .read 0 at1] ↔
      AllSteps transNext Meets (some (fwdTransInit at0)) [.read 4096 at0, .write 2147 at1, .read 0 at1]) :=
  ⟨by unfold Clocked; decide, fwd_trans_exact_iff at0 _ (by unfold Clocked; decide)⟩

theorem read_overflows : ¬ ∀ born calls, Clocked born calls → (∀ call ∈ calls, call.nbytes ≤ 4096) →
    AllSteps transNext Right (some (fwdTransInit born)) calls := by
  intro claim
  obtain ⟨⟨next, done, -⟩, -⟩ := claim at0 [.read 2148 at1] (by unfold Clocked; decide) (by decide)
  have none : transCall (fwdTransInit at0) (.read 2148 at1) = none := by decide
  rw [none] at done
  exact nomatch done

end Run

end Codec.Fwd.Transfer
