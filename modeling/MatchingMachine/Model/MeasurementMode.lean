import MatchingMachine.Lib.Scripts
import MatchingMachine.Model.BenchEnv

/-!
# Entering and leaving the measurement mode

`cmd_setup` and `cmd_restore` of `scripts/env/bench_env.sh`.  What they read and write are files of
the kernel under `/sys` and `/proc`, and the two files of the saved state.  Both commands are
scripts of operations (`Lib.Scripts`): under `set -e` a write that the kernel refuses ends the
script, unless it stands before `||`, and the script may be killed before any operation.

* The kernel is a parameter: which CPUs and interrupts there are, and what a write does, to its own
  file and to others.
* The measurement cores, the texts that say why they were chosen, and the interrupts that are left
  on them at the end are what the command finds (`Found`).
* The two files of the saved state are written in one operation.
-/

namespace MatchingMachine

namespace BenchEnv

/-! ## The files of the kernel -/

inductive SysFile where
  /-- `cpu$c/cpufreq/scaling_governor`. -/
  | governor (cpu : Text)
  | noTurbo
  | minPct
  | maxPct
  | online (cpu : Text)
  /-- `cpu$c/topology/thread_siblings_list`. -/
  | siblings (cpu : Text)
  | paranoid
  | defaultIrqMask
  /-- `/proc/irq/$irq/smp_affinity_list`. -/
  | affinity (irq : Text)
  deriving DecidableEq

def SysFile.isAffinity : SysFile → Bool
  | .affinity _ => true
  | _ => false

/-- What the files hold, without the newline at the end; `none` where there is no such file. -/
abbrev Sysfs := SysFile → Option Text

/-- `rd`. -/
def rd (s : Sysfs) (file : SysFile) : Text := (s file).getD (ascii "?")

structure Kernel where
  /-- The directories `cpu[0-9]*`, as `sort -n` orders them. -/
  cpus : List Text
  /-- The directories `/proc/irq/[0-9]*`. -/
  irqs : List Text
  /-- `PSTATE_DIR` is there. -/
  intelPstate : Bool := true
  /-- A write, `none` where it is refused. -/
  write : SysFile → Text → Sysfs → Option Sysfs

namespace Kernel

/-- `online_cpus`. -/
def onlineCpus (k : Kernel) (s : Sysfs) : List Text :=
  k.cpus.filter fun c => s (.online c) = none ∨ rd s (.online c) = ascii "1"

end Kernel

/-- `first_sibling`. -/
def firstSibling (s : Sysfs) (cpu : Text) : Text :=
  let l := rd s (.siblings cpu)
  if l = ascii "?" then cpu else beforeFirst 45 (beforeFirst 44 l)

/-- `sibling_cpus`. -/
def Kernel.siblingCpus (k : Kernel) (s : Sysfs) : List Text :=
  (k.onlineCpus s).filter fun c => c ≠ firstSibling s c

/-- `cpus_to_mask`. -/
def cpusToMask (cpus : List Text) : Text :=
  let mask := cpus.foldl (fun (m : UInt64) c => m ||| 1 <<< UInt64.ofNat (digitsVal c)) 0
  natText 16 mask.toNat

/-! ## What is saved -/

/-- What a setup finds besides the files of the kernel. -/
structure Found where
  date : Text
  /-- The measurement cores, separated by a blank. -/
  measure : Text
  selection : Text
  rationale : Text
  script : Text
  scriptSha256 : Text
  residual : Text

namespace Kernel

/-- The online CPUs that are neither siblings nor measurement cores. -/
def housekeeping (k : Kernel) (s : Sysfs) (measure : Text) : List Text :=
  (k.onlineCpus s).filter fun c => c ∉ k.siblingCpus s ∧ c ∉ words measure

/-- The machine as a setup finds it. -/
def machine (k : Kernel) (s : Sysfs) (found : Found) : Machine where
  date := found.date
  paranoid := rd s .paranoid
  noTurbo := rd s .noTurbo
  minPct := rd s .minPct
  maxPct := rd s .maxPct
  governors := (k.onlineCpus s).map fun c => (c, rd s (.governor c))
  siblings := k.siblingCpus s
  defaultIrqMask := rd s .defaultIrqMask
  irqs := k.irqs.filterMap fun i => (s (.affinity i)).map fun cpus => (i, cpus)
  measure := found.measure
  selection := found.selection
  rationale := found.rationale
  housekeeping := [32].intercalate (k.housekeeping s found.measure)
  script := found.script
  scriptSha256 := found.scriptSha256
  moved := 0
  refused := 0
  residual := []

end Kernel

/-! ## Operations -/

/-- The files that the commands read and write; `none` where there is no state or IRQ file. -/
structure World where
  sysfs : Sysfs
  stateFile : Option Text := none
  irqFile : Option Text := none

/-- A command in progress, with the files whose write has been accepted and refused. -/
structure Process where
  world : World
  accepted : List SysFile := []
  refused : List SysFile := []

inductive Op where
  /-- The state and the IRQ file. -/
  | save (state irqs : Text)
  /-- `echo value > file`; guarded by `[ -e file ]`; fatal unless it stands before `||`. -/
  | write (file : SysFile) (value : Text) (guarded fatal : Bool)
  | summary (residual : Text)
  | verify
  | remove

/-- `echo value > file`. -/
def echo (file : SysFile) (value : Text) : Op := .write file value false true

/-- `echo value > file || ...`. -/
def tryEcho (file : SysFile) (value : Text) : Op := .write file value false false

/-- `if [ -e file ]; then echo value > file; fi`. -/
def echoIfThere (file : SysFile) (value : Text) : Op := .write file value true true

/-- `if [ -e file ]; then echo value > file || ...; fi`. -/
def tryEchoIfThere (file : SysFile) (value : Text) : Op := .write file value true false

/-- What setup looks at in the end. -/
def Kernel.verified (k : Kernel) (s : Sysfs) : Bool :=
  rd s .noTurbo = ascii "1" && rd s .minPct = ascii "100" &&
    rd s (.governor (ascii "0")) = ascii "performance" && rd s .paranoid = ascii "1" &&
      (k.siblingCpus s).isEmpty

/-- One operation; `none` where it ends the script. -/
def Op.run (k : Kernel) (op : Op) (p : Process) : Option Process :=
  match op with
  | .save state irqs =>
      some { p with world := { p.world with stateFile := some state, irqFile := some irqs } }
  | .write file value guarded fatal =>
      if guarded && (p.world.sysfs file).isNone then some p
      else
        match k.write file value p.world.sysfs with
        | some s => some { p with
            world := { p.world with sysfs := s }, accepted := p.accepted ++ [file] }
        | none => if fatal then none else some { p with refused := p.refused ++ [file] }
  | .summary residual =>
      let moved := p.accepted.countP SysFile.isAffinity
      let refused := p.refused.countP SysFile.isAffinity
      some { p with
        world := { p.world with
          stateFile := p.world.stateFile.map fun text =>
            text ++ irqSummary moved refused residual } }
  | .verify => if k.verified p.world.sysfs then some p else none
  | .remove => some { p with world := { p.world with stateFile := none, irqFile := none } }

/-! ## `cmd_setup` -/

/-- The operations of a setup on a machine with the files `s`. -/
def Kernel.setupOps (k : Kernel) (s : Sysfs) (found : Found) : List Op :=
  let m := k.machine s found
  let housekeeping := k.housekeeping s found.measure
  [.save (savedHead m) (savedIrqs m)] ++
  (k.onlineCpus s).map (fun c => tryEcho (.governor c) (ascii "performance")) ++
  [echo .noTurbo (ascii "1"), echo .minPct (ascii "100")] ++
  (k.siblingCpus s).map (fun c => echo (.online c) (ascii "0")) ++
  [echo .paranoid (ascii "1")] ++
  (if housekeeping = [] then []
    else
      tryEcho .defaultIrqMask (cpusToMask housekeeping) ::
        k.irqs.map fun i => tryEchoIfThere (.affinity i) ([44].intercalate housekeeping)) ++
  [.summary found.residual, .verify]

/-- A setup that is killed after `n` operations, if it gets that far. -/
def Kernel.setup (k : Kernel) (found : Found) (n : Nat) (w : World) : Process × Scripts.Exit :=
  if w.stateFile.isSome then ({ world := w }, .died)
  else if ¬k.intelPstate then ({ world := w }, .died)
  else Scripts.perform (Op.run k) n (k.setupOps w.sysfs found) { world := w }

/-! ## `cmd_restore` -/

def stateDir : Path where
  name := ascii "/run/matching-machine-bench"
  owner := 0
  mode := 493
  kind := .directory

def statePath (content : Text) : Path where
  name := ascii "/run/matching-machine-bench/state"
  owner := 0
  mode := 420
  kind := .regular
  content := content

def irqPath (content : Option Text) : Path where
  name := ascii "/run/matching-machine-bench/irq"
  isThere := content.isSome
  owner := 0
  mode := 420
  kind := .regular
  content := content.getD []

/-- `if [ -n "$value" ]; then ...; fi`. -/
def ifSet (value : Text) (op : Text → Op) : List Op := if value = [] then [] else [op value]

/-- The operations of a restore. -/
def restoreOps (r : Restored) : List Op :=
  r.offlined.map (fun c => echoIfThere (.online c) (ascii "1")) ++
  r.irqs.map (fun entry => tryEchoIfThere (.affinity (beforeFirst 32 entry)) (afterFirst 32 entry)) ++
  ifSet r.defaultIrqMask (tryEcho .defaultIrqMask) ++
  ifSet r.maxPct (echo .maxPct) ++
  ifSet r.minPct (echo .minPct) ++
  ifSet r.noTurbo (echo .noTurbo) ++
  r.governors.map (fun pair => tryEchoIfThere (.governor (beforeFirst 58 pair)) (afterFirst 58 pair)) ++
  [echo .paranoid r.paranoid] ++
  [.remove]

/-- A restore that is killed after `n` operations, if it gets that far. -/
def Kernel.restore (k : Kernel) (n : Nat) (w : World) : Process × Scripts.Exit :=
  match w.stateFile with
  | none => ({ world := w }, .died)
  | some state =>
      match loadSavedState 0 stateDir (statePath state) (irqPath w.irqFile) with
      | .error _ => ({ world := w }, .died)
      | .ok r => Scripts.perform (Op.run k) n (restoreOps r) { world := w }

end BenchEnv

end MatchingMachine
