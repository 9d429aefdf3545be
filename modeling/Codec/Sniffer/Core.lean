import Mathlib.Data.List.Basic

set_option autoImplicit false

namespace Codec.Sniffer

-- ems_status. st_running, st_capturing and st_process are st_normal,
-- st_uploading and st_notify are st_reg, st_start is st_init.
inductive Status where
  | start | stopped | normal | reg | err | connect | paused | continue
deriving DecidableEq, Repr

def errBase : Int := 0x1200
def errTypeInvalid : Int := errBase + 1
def errInterfaceUnknown : Int := errBase + 2
def errOverMaxCapture : Int := errBase + 3
def errTypeConfilict : Int := errBase + 4
def errNoSpaceLeft : Int := errBase + 5
def errCaptureBusy : Int := errBase + 6
def errMemoryError : Int := errBase + 7
def errServerMissing : Int := errBase + 8
def errServerFtpHost : Int := errBase + 9
def errPcapError : Int := errBase + 12
def errUploadFailed : Int := errBase + 13

def captureTypeRadio : Int := 1
def serverTypeFtp : Int := 1
def oneMin : Int := 60000

abbrev Str := List UInt8

-- ems_sniffer_file: inf is the capture it was written by.
structure File where
  id : Nat
  inf : Nat
  filesize : Int
deriving DecidableEq, Repr

-- ems_do_capture: uploading and pause are FLG_UPLOADING and FLG_PAUSE, evt and
-- timer say that the event and the timer are set.
structure Cap where
  id : Nat
  inf : Str
  type : Int
  wlanid : Int
  radioid : Int
  st : Status
  uploading : Bool
  pause : Bool
  evt : Bool
  timer : Bool
  fp : Bool
  list : List File
  pkgs : Int
  size : Int
  limitPkg : Int
  limitTimeuse : Int
  limitFilesize : Int
  maxFilesize : Int
  lasterr : Int
deriving DecidableEq, Repr

-- ems_output: flg is the file that carries FLG_UPLOADING. unlinked holds the
-- output_entry of each file that ems_queue_clean took off list_files, with the
-- entry its next pointer was left at.
structure Output where
  st : Status
  listFiles : List File
  curfl : Option File
  flg : Option Nat
  timer : Bool
  lasterr : Int
  unlinked : List (File × Option File)
deriving DecidableEq, Repr

inductive WtpEvt where
  | start | stop | uploading | paused | continue
deriving DecidableEq, Repr

-- answers is the start message the event is about, which the program does not
-- record; closed and handed are no messages either.
inductive Entry where
  | event (kind : WtpEvt) (answers : Option Nat) (ctype wlanid radioid : Int) (interface : Str) (errcode : Int)
  | closed (file : File)
  | handed (file : File)
deriving DecidableEq, Repr

-- sess says that the control session exists, dead that something destroyed was
-- read or written. forks and mallocs are the results the system will give.
structure Core where
  ctrl : Status
  sess : Bool
  st : Status
  type : Int
  nCapture : Nat
  maxCaptureNumber : Nat
  caps : List Cap
  memTotal : Int
  memLeft : Int
  memMaxsingle : Int
  out : Output
  started : Nat
  written : Nat
  forks : List Bool
  mallocs : List Bool
  log : List Entry
  dead : Bool
deriving DecidableEq, Repr

def modifyCap (id : Nat) (change : Cap → Cap) : List Cap → List Cap
  | [] => []
  | cap :: rest => if cap.id = id then change cap :: rest else cap :: modifyCap id change rest

def removeCap (id : Nat) : List Cap → List Cap
  | [] => []
  | cap :: rest => if cap.id = id then rest else cap :: removeCap id rest

def neighbours (file : File) : List File → List File
  | first :: second :: rest =>
    if first = file then [second]
    else if second = file then first :: rest.take 1
    else neighbours file (second :: rest)
  | _ => []

def links : List File → List (File × Option File)
  | [] => []
  | file :: rest => (file, rest.head?) :: links rest

section Store

variable (s : Core)

def cap? (id : Nat) : Option Cap := s.caps.find? fun cap => cap.id == id

def onCap (id : Nat) (change : Cap → Cap) : Core := { s with caps := modifyCap id change s.caps }

def liveFile (file : File) : Bool := s.caps.any fun cap => cap.id == file.inf && cap.list.contains file

def touchCap (id : Nat) : Core := { s with dead := s.dead || (cap? s id).isNone }

def touchFile (file : File) : Core := { s with dead := s.dead || !liveFile s file }

def touchSess : Core := { s with dead := s.dead || !s.sess }

def touchFiles (files : List File) : Core := files.foldl touchFile s

-- ctrl_send_msg: nothing is sent once the connection has failed.
def ctrlSendMsg (entry : Entry) : Core :=
  if s.ctrl = .err ∨ s.ctrl = .stopped then s
  else { touchSess s with log := s.log ++ [entry] }

-- An event for APCFG is not logged.
def sendApcfg : Core := if s.ctrl = .err ∨ s.ctrl = .stopped then s else touchSess s

end Store

def capEvent (kind : WtpEvt) (cap : Cap) (errcode : Int) : Entry :=
  .event kind (some cap.id) cap.type cap.wlanid cap.radioid cap.inf errcode

def capturingEvent (cap : Cap) : Entry := capEvent (if cap.pause then .continue else .start) cap 0

def resumed (cap : Cap) : Cap := { cap with st := .normal, pause := false, evt := true }

section Capture

variable (s : Core)

-- cap_change_status: the handler of the new status runs if the status changes.
def capChangeStatus (id : Nat) (st : Status) (into : Nat → Core → Core) : Core :=
  match cap? s id with
  | none => { s with dead := true }
  | some cap => if cap.st = st then s else into id (onCap s id fun cap => { cap with st := st })

def capStatusIntoCapturing (id : Nat) : Core :=
  match cap? s id with
  | none => { s with dead := true }
  | some cap => onCap (ctrlSendMsg s (capturingEvent cap)) id resumed

def capStatusIntoPaused (id : Nat) : Core :=
  match cap? s id with
  | none => { s with dead := true }
  | some cap => onCap (ctrlSendMsg s (capEvent .paused cap 0)) id fun cap => { cap with evt := false }

-- cap_change_status(cap, st_capturing) for each capture that is paused.
def captureContinueCapturing : Core :=
  if s.st ≠ .normal then s
  else
    let paused := s.caps.filter fun cap => cap.st = .paused
    let sent := paused.foldl (fun s cap => ctrlSendMsg s (capturingEvent cap)) s
    { sent with caps := s.caps.map fun cap => if cap.st = .paused then resumed cap else cap }

def captureIntoPaused : Core := if s.st = .paused then s else sendApcfg { s with st := .paused }

def captureIntoRunning : Core × Int :=
  if s.st = .normal then (s, 0)
  else
    let s := { s with st := .normal, memLeft := s.memTotal }
    if s.memLeft ≤ 0 then (captureIntoPaused s, errNoSpaceLeft)
    else (sendApcfg s, 0)

def outputIntoStopped : Core :=
  if s.out.st = .stopped then s
  else { s with out := { s.out with st := .stopped, timer := false, curfl := none, listFiles := [],
                                    unlinked := s.out.unlinked ++ links s.out.listFiles } }

def outputRemove (file : File) : Core :=
  if file ∈ s.out.listFiles then
    let s := touchFiles s (neighbours file s.out.listFiles)
    { s with out := { s.out with listFiles := s.out.listFiles.erase file } }
  else touchFiles s (s.out.unlinked.filterMap fun link => if link.1 = file then link.2 else none)

def capDropFile (id : Nat) (file : File) : Core :=
  let s := touchFile s file
  let s := if s.out.flg = some file.id then outputIntoStopped s else outputRemove s file
  let s := onCap s id fun cap => { cap with list := cap.list.erase file }
  { s with memLeft := s.memLeft + file.filesize }

def captureCapExit (id : Nat) : Core :=
  let s := { s with caps := removeCap id s.caps }
  if s.caps.isEmpty ∧ s.st ≠ .stopped then captureIntoPaused s else s

def capStatusIntoStop (id : Nat) : Core :=
  match cap? s id with
  | none => { s with dead := true }
  | some cap =>
    let s := onCap s id fun cap => { cap with timer := false, evt := false, fp := false }
    let s := cap.list.foldl (fun s file => capDropFile s id file) s
    let s := ctrlSendMsg s (capEvent .stop cap cap.lasterr)
    captureContinueCapturing (captureCapExit s id)

def capStop (id : Nat) : Core := capChangeStatus s id .stopped fun id s => capStatusIntoStop s id

-- cap_file_upload_finished, up to its branches.
def capFileTaken (file : File) (cap : Cap) (errcode : Int) : Core :=
  let s := touchFile s file
  let s := { s with out := { s.out with flg := none }, memLeft := s.memLeft + file.filesize }
  onCap (ctrlSendMsg s (capEvent .uploading cap errcode)) file.inf fun cap => { cap with list := cap.list.erase file }

def capFileUploadFinished (file : File) (st : Int) : Core :=
  match cap? s file.inf with
  | none => { s with dead := true }
  | some cap =>
    if st ≠ 0 then
      capStop (onCap (capFileTaken s file cap errUploadFailed) file.inf fun cap => { cap with lasterr := errUploadFailed }) file.inf
    else if cap.st = .reg ∧ (cap.list.erase file).isEmpty then capStop (capFileTaken s file cap 0) file.inf
    else captureContinueCapturing (capFileTaken s file cap 0)

def outputIntoPaused (forks : List Bool) : Core := { s with forks := forks, out := { s.out with st := .paused } }

-- The head of list_files becomes the file in hand.
def outputTake (file : File) (rest : List File) : Core :=
  { touchFile s file with out := { s.out with st := .continue, listFiles := rest, flg := some file.id, curfl := some file } }

-- A fork that succeeds, and output_change_status(out, st_process).
def outputIntoProcess (file : File) (forks : List Bool) : Core :=
  { s with forks := forks, log := s.log ++ [.handed file], out := { s.out with st := .normal, timer := true } }

-- output_change_status(out, st_notify) after a fork that fails.
def outputForkFailed (file : File) : Core :=
  capFileUploadFinished { s with out := { s.out with lasterr := errMemoryError, st := .reg } } file errMemoryError

-- output_change_status(out, st_continue), down to the next fork that succeeds
-- or the end of the queue. The loop is the one through st_notify.
def outputContinue : List Bool → Core → Core
  | forks, s =>
    match s.out.listFiles with
    | [] => outputIntoPaused s forks
    | file :: rest =>
      match forks with
      | false :: forks => outputContinue forks (outputForkFailed (outputTake s file rest) file)
      | forks => outputIntoProcess (outputTake s file rest) file forks.tail
termination_by structural forks => forks

def outputNotify : Core :=
  match s.out.curfl with
  | none => { s with dead := true }
  | some file =>
    let s := { s with out := { s.out with st := .reg } }
    let s := capFileUploadFinished (touchFile s file) file s.out.lasterr
    outputContinue s.forks s

-- output_upload_file with its result: a fork that failed at once.
def outputUploadFile (file : File) : Core × Bool :=
  let s := { s with out := { s.out with listFiles := s.out.listFiles ++ [file] } }
  if s.out.st = .paused then (outputContinue s.forks s, s.forks.head? ≠ some false) else (s, true)

-- The limits that are left when the file is closed.
def fileClosed (cap : Cap) : Cap :=
  { cap with limitPkg := if cap.limitPkg > 0 then cap.limitPkg - cap.pkgs else cap.limitPkg,
             limitFilesize := if cap.limitFilesize > 0 then cap.limitFilesize - cap.size else cap.limitFilesize,
             fp := false }

def fileListed (file : File) (cap : Cap) : Cap := { cap with list := cap.list ++ [file], pkgs := 0, size := 0 }

-- The file is closed and on the list of its capture.
def capFileAdded (id : Nat) (file : File) : Core :=
  let s := { onCap s id fileClosed with mallocs := s.mallocs.tail }
  { onCap s id (fileListed file) with written := s.written + 1, log := s.log ++ [.closed file] }

def capFileFinished (id : Nat) : Core × Bool :=
  match cap? s id with
  | none => ({ s with dead := true }, false)
  | some cap =>
    if ¬ cap.fp then (onCap s id fun cap => { cap with lasterr := 0 }, false)
    else if s.mallocs.head? = some false then
      (onCap { onCap s id fileClosed with mallocs := s.mallocs.tail } id fun cap => { cap with lasterr := errMemoryError }, false)
    else outputUploadFile (capFileAdded s id ⟨s.written, id, cap.size⟩) ⟨s.written, id, cap.size⟩

def capStatusIntoUploading (id : Nat) : Core :=
  let s := onCap s id fun cap => { cap with timer := false, evt := false }
  let (s, finished) := capFileFinished s id
  if finished then onCap (touchCap s id) id fun cap => { cap with lasterr := 0 } else capStop s id

def capUploading (id : Nat) : Core := capChangeStatus s id .reg fun id s => capStatusIntoUploading s id

-- What the system does to one packet: whether pcap_dump_open succeeds, if the
-- file has to be opened, and where pcap_dump_ftell finds the end of the file.
structure Packet where
  opens : Bool
  fsize : Int
deriving DecidableEq, Repr

def endCapture (id : Nat) : Core := onCap (touchCap s id) id fun cap => { cap with uploading := true }

-- The bytes written come off the memory that is left.
def capSpend (id : Nat) (len : Int) : Core :=
  let s := { touchCap s id with memLeft := s.memLeft - len }
  if s.memLeft ≤ 0 then onCap s id fun cap => { cap with pause := true } else s

def capPackages (id : Nat) (packet : Packet) : Core :=
  match cap? s id with
  | none => { s with dead := true }
  | some cap =>
    if cap.uploading then s
    else if ¬ cap.fp ∧ ¬ packet.opens then endCapture (onCap s id fun cap => { cap with lasterr := errPcapError }) id
    else
      let s := onCap s id fun cap => { cap with fp := true }
      let len := packet.fsize - cap.size
      if len ≤ 0 then endCapture (onCap s id fun cap => { cap with lasterr := errPcapError }) id
      else
        let s := onCap s id fun cap => { cap with size := packet.fsize }
        if cap.limitFilesize > 0 ∧ cap.limitFilesize ≤ packet.fsize then
          endCapture (onCap s id fun cap => { cap with lasterr := 0 }) id
        else
          let s := onCap s id fun cap => { cap with pkgs := cap.pkgs + 1 }
          if cap.limitPkg > 0 ∧ cap.limitPkg ≤ cap.pkgs + 1 then
            endCapture (onCap s id fun cap => { cap with lasterr := 0 }) id
          else
            let (s, finished) := if cap.maxFilesize ≤ packet.fsize then capFileFinished s id else (s, true)
            if ¬ finished then endCapture s id else capSpend s id len

-- cap_evt_cb: error is event->error, failed a negative result of pcap_dispatch.
def capEvtCb (id : Nat) (error : Bool) (packets : List Packet) (failed : Bool) : Core :=
  match cap? s id with
  | none => s
  | some cap =>
    if ¬ cap.evt then s
    else if error then capUploading (onCap s id fun cap => { cap with lasterr := errPcapError }) id
    else if cap.st ≠ .normal then s
    else
      let s := packets.foldl (fun s packet => capPackages s id packet) s
      let s := if failed then endCapture (onCap s id fun cap => { cap with lasterr := errPcapError }) id else s
      let s := touchCap s id
      match cap? s id with
      | none => s
      | some cap =>
        if cap.uploading then capUploading s id
        else if cap.pause then capChangeStatus s id .paused fun id s => capStatusIntoPaused s id
        else s

def capTimeoutSet (cap : Cap) : Cap := { cap with limitTimeuse := cap.limitTimeuse - min oneMin cap.limitTimeuse, timer := true }

def capTimeoutCb (id : Nat) : Core :=
  match cap? s id with
  | none => s
  | some cap =>
    if ¬ cap.timer then s
    else if cap.limitTimeuse ≤ 0 then capUploading (onCap s id fun cap => { cap with timer := false, lasterr := 0 }) id
    else onCap s id capTimeoutSet

-- out_timeout_cb: the result of waitpid is none while the command runs.
def outTimeoutCb (exited : Option Int) : Core :=
  if ¬ s.out.timer then s
  else match exited with
    | none => s
    | some code => outputNotify { s with out := { s.out with lasterr := code, timer := false } }

end Capture

structure Server where
  type : Int
  ftpServer : Str
deriving DecidableEq, Repr

-- The fields of a message that the program reads, and for a start message what
-- the system answers: the allocation, getaddrinfo, and libpcap with its error.
structure Request where
  type : Int
  wlanid : Int
  radioid : Int
  interface : Str
  limitFilesize : Int
  limitTime : Int
  limitPackage : Int
  server : Option Server
  malloc : Bool
  resolved : Bool
  pcap : Int
deriving DecidableEq, Repr

section Messages

variable (s : Core)

def stopAnswer (answers : Option Nat) (req : Request) (errcode : Int) : Core :=
  ctrlSendMsg s (.event .stop answers req.type req.wlanid req.radioid req.interface errcode)

def ftpHeader : Str := [0x66, 0x74, 0x70, 0x3a, 0x2f, 0x2f]

-- capture_parse_server_host_ftp, as far as its result.
def captureParseServerHostFtp (url : Str) : Bool := ftpHeader.isPrefixOf url

def capStatusIntoStart (id : Nat) (req : Request) : Core :=
  if ¬ req.resolved then capStop (onCap s id fun cap => { cap with lasterr := errServerFtpHost }) id
  else if req.pcap ≠ 0 then capStop (onCap s id fun cap => { cap with lasterr := req.pcap }) id
  else
    let s := onCap s id fun cap => if cap.limitTimeuse > 0 then capTimeoutSet cap else cap
    capChangeStatus s id .normal fun id s => capStatusIntoCapturing s id

-- The errors with which capture_start_capturing leaves the capture unstarted.
def captureStartError (req : Request) : Int :=
  match req.server with
  | none => errServerMissing
  | some server =>
    if server.type = serverTypeFtp ∧ ¬ captureParseServerHostFtp server.ftpServer then errServerFtpHost else 0

def newCap (id : Nat) (req : Request) : Cap :=
  { id := id, inf := req.interface, type := req.type, wlanid := req.wlanid, radioid := req.radioid, st := .stopped,
    uploading := false, pause := false, evt := false, timer := false, fp := false, list := [], pkgs := 0, size := 0,
    limitPkg := req.limitPackage, limitTimeuse := req.limitTime, limitFilesize := req.limitFilesize,
    maxFilesize := s.memMaxsingle, lasterr := 0 }

def captureStartCapturing (id : Nat) (req : Request) : Core :=
  let s := { s with caps := s.caps ++ [newCap s id req] }
  if captureStartError req ≠ 0 then stopAnswer { s with caps := removeCap id s.caps } (some id) req (captureStartError req)
  else capChangeStatus s id .start fun id s => capStatusIntoStart s id req

def captureGetCap (inf : Str) : Option Cap := s.caps.find? fun cap => cap.inf == inf

def requestError (req : Request) : Int :=
  if req.type ≤ 0 ∨ 3 < req.type then errTypeInvalid
  else if req.interface = [] then errInterfaceUnknown
  else 0

-- The tests made while the module is running.
def runningError (req : Request) : Int :=
  if s.nCapture ≥ s.maxCaptureNumber then errOverMaxCapture
  else if (s.type = captureTypeRadio ∧ req.type ≠ captureTypeRadio) ∨ (s.type ≠ captureTypeRadio ∧ req.type = captureTypeRadio) then
    errTypeConfilict
  else if (captureGetCap s req.interface).isSome then errCaptureBusy
  else 0

-- started numbers the start messages, and with them the captures.
def captureHandleMsgStart (req : Request) : Core :=
  let id := s.started
  let s := { s with started := s.started + 1 }
  if requestError req ≠ 0 then stopAnswer s (some id) req (requestError req)
  else
    let (s, errcode) := if s.st = .paused then captureIntoRunning { s with type := req.type } else (s, runningError s req)
    if errcode ≠ 0 then stopAnswer s (some id) req errcode
    else if ¬ req.malloc then stopAnswer s (some id) req errMemoryError
    else captureStartCapturing s id req

def captureHandleMsgStop (req : Request) : Core :=
  if requestError req ≠ 0 then stopAnswer s none req (requestError req)
  else if s.st = .paused then stopAnswer s none req 0
  else match captureGetCap s req.interface with
    | none => stopAnswer s none req 0
    | some cap => capUploading s cap.id

def captureHandleMsgStopall (req : Request) : Core :=
  if s.st = .paused ∨ s.caps.isEmpty then stopAnswer s none req 0
  else (s.caps.map Cap.id).foldl (fun s id => capUploading s id) s

def captureIntoStopped : Core :=
  if s.st = .stopped then s
  else (s.caps.map Cap.id).foldl (fun s id => capStop s id) { s with st := .stopped }

def ctrlErr : Core :=
  let s := captureIntoStopped (outputIntoStopped { s with ctrl := .err })
  { s with ctrl := .stopped, sess := false }

end Messages

inductive Event where
  | start (req : Request)
  | stop (req : Request)
  | stopall (req : Request)
  | packets (id : Nat) (error : Bool) (arrived : List Packet) (failed : Bool)
  | timeout (id : Nat)
  | uploaded (exited : Option Int)
  | connected
  | registered (status : Int)
  | lost
deriving DecidableEq, Repr

-- ctrl_process_msg goes on with the buffer of the session.
def handled (s : Core) : Core := touchSess s

def react (s : Core) : Event → Core
  | .start req => if s.ctrl = .connect then s else handled (captureHandleMsgStart s req)
  | .stop req => if s.ctrl = .connect then s else handled (captureHandleMsgStop s req)
  | .stopall req => if s.ctrl = .connect then s else handled (captureHandleMsgStopall s req)
  | .packets id error arrived failed => capEvtCb s id error arrived failed
  | .timeout id => capTimeoutCb s id
  | .uploaded exited => outTimeoutCb s exited
  | .connected => if s.ctrl = .connect then { s with ctrl := .reg } else s
  | .registered status =>
    if s.ctrl ≠ .reg then s
    else handled (if status = 0 then { s with ctrl := .normal } else ctrlErr s)
  | .lost => ctrlErr s

-- The loop of the program ends with the control connection.
structure Happening where
  event : Event
  forks : List Bool
  mallocs : List Bool
deriving DecidableEq, Repr

def sniffer (s : Core) (h : Happening) : Core :=
  if s.ctrl = .stopped then s
  else react { s with forks := h.forks, mallocs := h.mallocs } h.event

-- ems_core_main, up to the event loop.
def boot (online : Bool) (memTotal memMaxsingle : Int) : Core :=
  { ctrl := if online then .reg else .connect, sess := true, st := .paused, type := 0, nCapture := 0, maxCaptureNumber := 3, caps := [],
    memTotal := memTotal, memLeft := 0, memMaxsingle := memMaxsingle,
    out := { st := .paused, listFiles := [], curfl := none, flg := none, timer := false, lasterr := 0, unlinked := [] },
    started := 0, written := 0, forks := [], mallocs := [], log := [], dead := false }

end Codec.Sniffer
