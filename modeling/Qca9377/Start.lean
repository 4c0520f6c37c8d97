import Qca9377.Manager

namespace Qca9377
set_option autoImplicit true

/-- The operations on the hardware that `start` and what it calls carry out. -/
inductive HwOp where
  | enablePci
  | wakeTarget
  | probeRegisters
  | probeCopyEngines
  | coldReset
  | waitForTargetInit
  | resetSi0
  | warmResetCpu
  | clearLfTimer
  | resetCe
  | ensureCE
  | initDiag
  | diagReadHi
  | initConfig
  | wakeTargetCpu
  | getTargetInfo
  | configureTarget
  | downloadBoardData
  | runOtp
  | downloadFirmware
  | doneAndWaitTargetInit
  | initWmi
  | waitTarget
  | connectService
  | setupComplete
  | waitServiceAndReady
  deriving DecidableEq, Repr

/-- The calls by which `start` judges a stage. -/
inductive StageCall where
  | probeRegisters
  | resetChip
  | probeBmi
  | bootFirmware
  | startHtcWmi
  deriving DecidableEq, Repr

inductive StartEvent where
  | run (stage : Nat) (op : HwOp)
  | publishStage (text : String)
  | returned (call : StageCall) (ok : Bool)
  deriving DecidableEq, Repr

/-- What the allocators and probes answer to one `ensureCE`. -/
structure EnsureCE where
  again : Setup
  created : Bool
  setup : Setup

/-- How each hardware step of one `start` turns out; every step is made once at most. -/
structure Outcomes where
  superStart : Bool
  provider : Bool
  bar0Descriptor : Bool
  bar0Map : Bool
  awake : Bool
  awakeBefore : Bool
  awakeAfter : Bool
  announced : Bool
  warmCE1 : EnsureCE
  warmCE2 : EnsureCE
  warmAnnounced : Bool
  probeCE : EnsureCE
  diag : Setup
  initConfig : Bool
  bmiObject : Bool
  targetInfo : Option Nat
  fwParsed : Bool
  configured : Bool
  boardData : Bool
  hasOtp : Bool
  fwDownloaded : Bool
  targetInit : Bool
  wmi : Setup
  htcReady : Bool
  connected : Bool
  setupComplete : Bool
  wmiReady : Bool

/-- The driver object; `fBmi` is the target version of the BMI object. -/
structure QCA9377Driver where
  ce : Driver
  fBmi : Option Nat
  fHtc : Bool
  fWmi : Bool
  log : List StartEvent

def freshQCA9377Driver : QCA9377Driver := ⟨freshDriver, none, false, false, []⟩

namespace QCA9377Driver

def note (e : StartEvent) (t : QCA9377Driver) : QCA9377Driver := { t with log := t.log ++ [e] }

def run (stage : Nat) (op : HwOp) (t : QCA9377Driver) : QCA9377Driver := t.note (.run stage op)

def publishStage (text : String) (t : QCA9377Driver) : QCA9377Driver := t.note (.publishStage text)

def setCe (ce : Driver) (t : QCA9377Driver) : QCA9377Driver := { t with ce := ce }

def teardownHardware (t : QCA9377Driver) : QCA9377Driver :=
  ⟨t.ce.teardownHardware, none, false, false, t.log⟩

/-- The failure exit of the stages: the verdict is published, then everything is torn down. -/
def fail (text : String) (t : QCA9377Driver) : Bool × QCA9377Driver :=
  (false, (t.publishStage text).teardownHardware)

def ensureCE (e : EnsureCE) (t : QCA9377Driver) : Bool × QCA9377Driver :=
  let (ok, ce) := t.ce.ensureCE e.again e.created e.setup
  (ok, (t.run 2 .ensureCE).setCe ce)

def warmReset (o : Outcomes) (t : QCA9377Driver) : Bool × QCA9377Driver :=
  let t := (t.run 2 .resetSi0).publishStage "warm-si0"
  let t := (t.run 2 .warmResetCpu).publishStage "warm-cpu"
  let (ok, t) := t.ensureCE o.warmCE1
  if !ok then (false, t)
  else
    -- the first wait is not fatal
    let t := (t.run 2 .waitForTargetInit).publishStage "warm-wait1"
    let t := (t.run 2 .clearLfTimer).publishStage "warm-lf"
    let t := (t.run 2 .resetCe).publishStage "warm-ce"
    let t := (t.run 2 .warmResetCpu).publishStage "warm-cpu2"
    let (ok, t) := t.ensureCE o.warmCE2
    if !ok then (false, t) else (o.warmAnnounced, t.run 2 .waitForTargetInit)

/-- `resetChip`; `coldReset` itself never fails. -/
def resetChip (o : Outcomes) (t : QCA9377Driver) : Bool × QCA9377Driver :=
  let t := t.run 2 .wakeTarget
  if !o.awakeBefore then (false, t)
  else
    let t := (t.run 2 .coldReset).run 2 .wakeTarget
    if !o.awakeAfter then (false, t)
    else
      let t := t.run 2 .waitForTargetInit
      if o.announced then (true, t.publishStage "M2-reset")
      else
        let (ok, t) := t.warmReset o
        if ok then (true, t.publishStage "M2-reset") else (false, t)

/-- `CEManager::initDiag` on the manager that `ensureCE` has left. -/
def initDiag (s : Setup) (t : QCA9377Driver) : Bool × QCA9377Driver :=
  let t := t.run 2 .initDiag
  match t.ce.fCe with
  | none => (false, t)
  | some m =>
    let (ok, ce) := t.ce.initDiag s m
    (ok, t.setCe ce)

def probeBmi (o : Outcomes) (t : QCA9377Driver) : Bool × QCA9377Driver :=
  let (ok, t) := t.ensureCE o.probeCE
  if !ok then (false, t)
  else
    let (ok, t) := t.initDiag o.diag
    if !ok then (false, t.teardownHardware)
    else
      let t := (t.run 2 .diagReadHi).run 2 .initConfig
      if !o.initConfig then t.fail "FAIL-initcfg"
      else
        let t := (t.publishStage "M2-initcfg").run 2 .wakeTargetCpu
        let t := t.publishStage "M2-cpu"
        if !o.bmiObject then (false, t.teardownHardware)
        else
          let t := t.run 2 .getTargetInfo
          match o.targetInfo with
          | none => (false, t.teardownHardware)
          | some version => (true, { t with fBmi := some version })

def bootFirmware (o : Outcomes) (t : QCA9377Driver) : Bool × QCA9377Driver :=
  if !o.fwParsed then t.fail "M3-FAIL-fw-parse"
  else
    let t := (t.publishStage "M3-fw-parsed").run 3 .configureTarget
    if !o.configured then t.fail "M3-FAIL-configure"
    else
      let t := (t.publishStage "M3-configured").run 3 .downloadBoardData
      if !o.boardData then t.fail "M3-FAIL-board-data"
      else
        let t := t.publishStage "M3-board-ok"
        -- a failed OTP run is tolerated
        let t := if o.hasOtp then t.run 3 .runOtp else t
        let t := t.run 3 .downloadFirmware
        if !o.fwDownloaded then t.fail "M3-FAIL-fw-download"
        else
          let t := (t.publishStage "M3-fw-downloaded").run 3 .doneAndWaitTargetInit
          if !o.targetInit then t.fail "M3-FAIL-init-wait"
          else (true, t.publishStage "M3-booted")

/-- `CEManager::initWmi` on the manager that the earlier stages have left. -/
def initWmi (s : Setup) (t : QCA9377Driver) : Bool × QCA9377Driver :=
  let t := t.run 4 .initWmi
  match t.ce.fCe with
  | none => (false, t)
  | some m =>
    let (ok, ce) := t.ce.initWmi s m
    (ok, t.setCe ce)

def startHtcWmi (o : Outcomes) (t : QCA9377Driver) : Bool × QCA9377Driver :=
  let (ok, t) := t.initWmi o.wmi
  if !ok then t.fail "M4-FAIL-ce-init"
  else
    let t := { t.publishStage "M4-ce-ok" with fHtc := true }
    let t := t.run 4 .waitTarget
    if !o.htcReady then t.fail "M4-FAIL-htc-ready"
    else
      let t := (t.publishStage "M4-htc-ready").run 4 .connectService
      if !o.connected then t.fail "M4-FAIL-connect"
      else
        let t := (t.publishStage "M4-connected").run 4 .setupComplete
        if !o.setupComplete then t.fail "M4-FAIL-setup"
        else
          let t := { t.publishStage "M4-setup-ok" with fWmi := true }
          let t := t.run 4 .waitServiceAndReady
          if !o.wmiReady then t.fail "M4-FAIL-wmi-ready"
          else (true, t.publishStage "M4-wmi-online")

/-- `start` up to the register probe, which itself never fails. -/
def stage1 (o : Outcomes) (t : QCA9377Driver) : Bool × QCA9377Driver :=
  if !o.superStart then (false, t)
  else
    let t := t.publishStage "M0-starting"
    if !o.provider then (false, t.publishStage "FAIL-provider")
    else
      let t := t.run 1 .enablePci
      if !o.bar0Descriptor then (false, t.publishStage "FAIL-bar0-descriptor")
      else
        let t := t.publishStage "M1-bar0"
        if !o.bar0Map then (false, t.publishStage "FAIL-bar0-map")
        else
          let t := t.run 1 .wakeTarget
          if !o.awake then (false, t.publishStage "FAIL-wake")
          else
            let t := (t.publishStage "M1-awake").run 1 .probeRegisters
            let t := (t.note (.returned .probeRegisters true)).publishStage "M1-probe"
            (true, t.run 1 .probeCopyEngines)

/-- The chip reset and the BMI probe, which have no gate of their own. -/
def stage2 (o : Outcomes) (t : QCA9377Driver) : QCA9377Driver :=
  let (ok, t) := t.resetChip o
  let t := t.note (.returned .resetChip ok)
  if !ok then t.publishStage "FAIL-reset"
  else
    let (ok, t) := t.probeBmi o
    let t := t.note (.returned .probeBmi ok)
    if !ok then t.publishStage "FAIL-m2-bmi" else t.publishStage "M2-bmi"

def stage3 (fMaxStage : Nat) (o : Outcomes) (t : QCA9377Driver) : Bool × QCA9377Driver :=
  if fMaxStage < 3 then (false, t.publishStage "M3-skip")
  else if t.fBmi.isSome ∧ t.fBmi ≠ some 0 then
    let (m3ok, t) := t.bootFirmware o
    (m3ok, t.note (.returned .bootFirmware m3ok))
  else (false, t.publishStage "M3-skip")

def stage4 (fMaxStage : Nat) (m3ok : Bool) (o : Outcomes) (t : QCA9377Driver) : QCA9377Driver :=
  if fMaxStage < 4 then t.publishStage "M4-skip"
  else if m3ok then
    let (m4ok, t) := t.startHtcWmi o
    t.note (.returned .startHtcWmi m4ok)
  else t.publishStage "M4-skip"

end QCA9377Driver

/-- The cap that `start` reads from the boot-arg `qca-maxstage`. -/
def maxStage (bootArg : Option Nat) : Nat :=
  let fMaxStage := bootArg.getD 4
  if fMaxStage < 1 ∨ 4 < fMaxStage then 4 else fMaxStage

/-- `start` on a fresh driver object. -/
def start (bootArg : Option Nat) (o : Outcomes) : Bool × QCA9377Driver :=
  let (ok, t) := freshQCA9377Driver.stage1 o
  if !ok then (false, t)
  else
    let fMaxStage := maxStage bootArg
    let (m3ok, t) := (t.stage2 o).stage3 fMaxStage o
    (true, (t.stage4 fMaxStage m3ok o).publishStage "SUMMARY")

end Qca9377
