import Codec.Lib.Runs

set_option autoImplicit false

namespace Codec.Client

inductive ClSt
  | start
  | stopped
  | normal
  | updatestatus
  | getdc
  | err
  | connect
  | getconfig
  | getupdatefile
deriving DecidableEq

-- ems_client: its states, whether it runs, whether it has a session and whether
-- the session's timer is pending. A client hangs when a handler does not return.
structure EmsClient where
  st : ClSt
  last : ClSt
  next : ClSt
  running : Bool
  sess : Bool
  timer : Bool
  online : Bool
  nConf : Int
  getconf : Int
  uptPeriod : Int
  getconfPeriod : Int
  hung : Bool
deriving DecidableEq

def clientInit : EmsClient := ⟨.stopped, .start, .stopped, false, false, false, false, -1, 2, 0, 0, false⟩

inductive Reach
  | fails
  | online
  | waits
deriving DecidableEq

inductive Heard
  | part
  | broken
  | closed
  | answer
deriving DecidableEq

inductive Written
  | fails
  | left
  | done
deriving DecidableEq

-- What a handler finds: the flags and the error of its event, the outcomes of its
-- connects, the configuration and the response, and for cl_connect, at each of
-- its calls, what its local variable holds before it is set and what SO_ERROR is.
structure ClInput where
  err : Int
  read : Option Heard
  write : Option Written
  reach : Reach
  again : Reach
  created : Bool
  periods : Int × Int
  address : Bool
  config : Option Int
  client : Option (Int × Int)
  found : Int × Int
  deeper : List (Int × Int)

section Client

variable (inp : ClInput) (cl : EmsClient)

def clStopped : EmsClient := { cl with sess := false, timer := false, online := false, nConf := -1 }

def clErrEnter : EmsClient := if cl.sess then { cl with timer := true } else cl

-- cl_change_status; st_start goes on with cl_start.
def clChangeStatus (st : ClSt) : EmsClient :=
  let cl := { cl with last := cl.st, st := st }
  match st with
  | .stopped => clStopped cl
  | .err => clErrEnter cl
  | .start => cl
  | .connect => cl
  | _ => { cl with timer := true }

def clConnectAndChangeStatus (reach : Reach) (st : ClSt) : Option EmsClient := match reach with
  | .fails => none
  | .online => some (clChangeStatus cl st)
  | .waits => some (clChangeStatus { cl with timer := true, next := st } .connect)

def clConnectOr (reach : Reach) (st : ClSt) : EmsClient := (clConnectAndChangeStatus cl reach st).getD (clChangeStatus cl .err)

def clStart : EmsClient :=
  if inp.err ≠ 0 then clChangeStatus cl .err
  else if ¬ cl.sess ∧ ¬ inp.created then clChangeStatus cl .err
  else
    let upt := if inp.periods.1 ≤ 0 then 300 else inp.periods.1
    let conf := if inp.periods.2 ≤ 0 then 600 else inp.periods.2
    clConnectOr { cl with sess := true, uptPeriod := upt, getconfPeriod := max upt conf } inp.reach .getdc

def clChangeStart : EmsClient := clStart { inp with err := 0 } { cl with last := cl.st, st := .start }

def clErr : EmsClient := if inp.err ≠ 0 then clChangeStatus cl .err else clErrEnter cl

def clNormal : EmsClient := if inp.err ≠ 0 then clChangeStatus cl .normal else cl

def clTransfer (rsp broken unsent : EmsClient → EmsClient) : EmsClient :=
  let send (cl : EmsClient) := match inp.write with
    | some .fails => unsent cl
    | _ => cl
  match inp.read with
  | some .closed => { cl with hung := true }
  | some .broken => broken cl
  | some .answer => send (rsp cl)
  | _ => send cl

def clMsgGetdcRsp : EmsClient := if inp.address then clConnectOr cl inp.reach .getconfig else clChangeStatus cl .err

def clGetdc : EmsClient :=
  if inp.err ≠ 0 then clChangeStatus cl .err
  else clTransfer inp cl (clMsgGetdcRsp inp) (fun cl => clChangeStatus cl .err) fun cl => clChangeStatus cl .err

def clConfProcess : EmsClient := match inp.client with
  | none => cl
  | some (upt, conf) =>
    let upt := if 0 < upt then upt else cl.uptPeriod
    let conf := max upt (if 0 < conf then conf else cl.getconfPeriod)
    { cl with uptPeriod := upt, getconfPeriod := conf, getconf := conf }

def clGetconfigRsp : EmsClient :=
  let cl := match inp.config with
    | none => cl
    | some conf => if conf = cl.nConf then cl else clConfProcess inp { cl with nConf := conf, online := true }
  clConnectOr cl inp.reach .getupdatefile

def clGetconfig : EmsClient :=
  if inp.err ≠ 0 then clConnectOr cl inp.reach .getupdatefile
  else clTransfer inp cl (clGetconfigRsp inp) (fun cl => clConnectOr cl inp.reach .getupdatefile) fun cl => clConnectOr cl inp.again .getupdatefile

def clGetupdatefile : EmsClient :=
  clTransfer inp cl (fun cl => clChangeStatus cl .normal) (fun cl => clChangeStatus cl .err) fun cl => clChangeStatus cl .err

def clUpdatestatus : EmsClient :=
  if inp.err ≠ 0 then clChangeStatus cl .normal
  else match inp.write with
    | some .fails => clChangeStatus cl .normal
    | some .done => clChangeStatus cl .normal
    | _ => cl

-- ctrl_handler, all entries but the one for st_connect.
def ctrlHandler : ClSt → EmsClient
  | .start => clStart inp cl
  | .stopped => clStopped cl
  | .err => clErr inp cl
  | .normal => clNormal inp cl
  | .getdc => clGetdc inp cl
  | .getconfig => clGetconfig inp cl
  | .getupdatefile => clGetupdatefile inp cl
  | .updatestatus => clUpdatestatus inp cl
  | .connect => cl

end Client

-- cl_connect: where an error has been handed over, its own err is read before it
-- is set. The handler of the state before may be cl_connect again.
def clConnect (inp : ClInput) (cl : EmsClient) : Int → Int × Int → List (Int × Int) → EmsClient
  | handed, found, deeper =>
    if handed = 0 ∧ found.2 = 0 then clChangeStatus cl cl.next
    else
      let err := if handed ≠ 0 then found.1 else found.2
      if cl.last = .connect then match deeper with
        | [] => { cl with hung := true }
        | found :: deeper => clConnect inp cl err found deeper
      else ctrlHandler { inp with read := none, write := none, err := err } cl cl.last
termination_by structural _ _ deeper => deeper

def clEvtRun (inp : ClInput) (cl : EmsClient) : EmsClient :=
  if cl.st = .connect then clConnect inp cl inp.err inp.found inp.deeper else ctrlHandler inp cl cl.st

def clToErr (inp : ClInput) (cl : EmsClient) : EmsClient :=
  let cl := { cl with next := .stopped }
  if cl.online then clConnectOr cl inp.reach .getconfig else clChangeStart inp cl

def clToNormal (inp : ClInput) (cl : EmsClient) : EmsClient :=
  if cl.getconf ≤ 0 then clConnectOr { cl with getconf := cl.getconfPeriod } inp.reach .getconfig
  else clConnectOr { cl with getconf := cl.getconf - cl.uptPeriod } inp.reach .updatestatus

def clTimeoutCb (inp : ClInput) (cl : EmsClient) : EmsClient :=
  let cl := { cl with timer := false }
  match cl.st with
  | .err => clToErr inp cl
  | .normal => clToNormal inp cl
  | .getdc => clChangeStatus cl .err
  | .start => cl
  | .stopped => cl
  | _ => clEvtRun { inp with read := none, write := none, err := 1 } cl

inductive ClStep
  | run (inp : ClInput)
  | stop
  | trigger (inp : ClInput)
  | event (inp : ClInput)
  | timeout (inp : ClInput)

def clStep (cl : EmsClient) : ClStep → EmsClient
  | .run inp => if cl.running ∨ cl.hung then cl else clChangeStart inp { cl with running := true, online := false }
  | .stop => if ¬ cl.running ∨ cl.hung then cl else clChangeStatus { cl with running := false } .stopped
  | .trigger inp =>
    if cl.running ∧ ¬ cl.hung ∧ cl.nConf = -1 ∧ (cl.st = .err ∨ cl.st = .normal) then clChangeStart inp (clChangeStatus cl .stopped) else cl
  | .event inp => if cl.sess ∧ ¬ cl.hung then clEvtRun inp cl else cl
  | .timeout inp => if cl.sess ∧ cl.timer ∧ ¬ cl.hung then clTimeoutCb inp cl else cl

end Codec.Client
