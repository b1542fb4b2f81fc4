/-
  MachineList.Machine.Permission — the operations a control plane may permit on a machine.

  `Permission.values` fixes the order in which permissions are written. A set of them
  keeps its members in that order, so two sets with the same members are equal
  (`Permissions.ext_mem`) and each is written in one way.
-/

namespace MachineList

inductive Permission where
  | attachVdi
  | attachNetwork
  | rename
  | changeDomainType
  | vnc
  | launchPlaybook
  | changingVcpus
  | changingMemoryLimits
  | snapshot
  | clone
  | copy
  | createTemplate
  | revert
  | checkpoint
  | snapshotWithQuiesce
  | start
  | startOn
  | pause
  | unpause
  | cleanShutdown
  | cleanReboot
  | hardShutdown
  | powerStateReset
  | hardReboot
  | suspend
  | csvm
  | resume
  | resumeOn
  | poolMigrate
  | migrateSend
  | shutdown
  | destroy
  | all
  deriving DecidableEq, Repr

namespace Permission

def values : List Permission :=
  [attachVdi, attachNetwork, rename, changeDomainType, vnc, launchPlaybook, changingVcpus,
   changingMemoryLimits, snapshot, clone, copy, createTemplate, revert, checkpoint,
   snapshotWithQuiesce, start, startOn, pause, unpause, cleanShutdown, cleanReboot,
   hardShutdown, powerStateReset, hardReboot, suspend, csvm, resume, resumeOn, poolMigrate,
   migrateSend, shutdown, destroy, all]

def name : Permission → String
  | attachVdi => "attach_vdi"
  | attachNetwork => "attach_network"
  | rename => "rename"
  | changeDomainType => "change_domain_type"
  | vnc => "VNC"
  | launchPlaybook => "launch_playbook"
  | changingVcpus => "changing_VCPUs"
  | changingMemoryLimits => "changing_memory_limits"
  | snapshot => "snapshot"
  | clone => "clone"
  | copy => "copy"
  | createTemplate => "create_template"
  | revert => "revert"
  | checkpoint => "checkpoint"
  | snapshotWithQuiesce => "snapshot_with_quiesce"
  | start => "start"
  | startOn => "start_on"
  | pause => "pause"
  | unpause => "unpause"
  | cleanShutdown => "clean_shutdown"
  | cleanReboot => "clean_reboot"
  | hardShutdown => "hard_shutdown"
  | powerStateReset => "power_state_reset"
  | hardReboot => "hard_reboot"
  | suspend => "suspend"
  | csvm => "csvm"
  | resume => "resume"
  | resumeOn => "resume_on"
  | poolMigrate => "pool_migrate"
  | migrateSend => "migrate_send"
  | shutdown => "shutdown"
  | destroy => "destroy"
  | all => "ALL"

def ofName? (s : String) : Option Permission :=
  values.find? fun p => p.name = s

def index (p : Permission) : Nat :=
  values.idxOf p

theorem mem_values (p : Permission) : p ∈ values := by
  cases p <;> decide

theorem ofName?_name (p : Permission) : ofName? p.name = some p := by
  cases p <;> decide

theorem ofName?_eq_some_iff {s : String} {p : Permission} : ofName? s = some p ↔ p.name = s := by
  constructor
  · intro h
    simpa using List.find?_some h
  · rintro rfl
    exact ofName?_name p

end Permission

/-- A set of permissions, kept in the order of `Permission.values`. -/
structure Permissions where
  toList : List Permission
  inOrder : Permission.values.filter (fun p => decide (p ∈ toList)) = toList
  deriving DecidableEq, Repr

namespace Permissions

instance : Membership Permission Permissions :=
  ⟨fun s p => p ∈ s.toList⟩

instance (p : Permission) (s : Permissions) : Decidable (p ∈ s) :=
  inferInstanceAs (Decidable (p ∈ s.toList))

theorem mem_def {p : Permission} {s : Permissions} : p ∈ s ↔ p ∈ s.toList :=
  Iff.rfl

def ofList (ps : List Permission) : Permissions where
  toList := Permission.values.filter fun p => decide (p ∈ ps)
  inOrder := by
    apply List.filter_congr
    intro p hp
    simp [hp]

@[simp] theorem mem_ofList {p : Permission} {ps : List Permission} : p ∈ ofList ps ↔ p ∈ ps := by
  simp [mem_def, ofList, Permission.mem_values]

theorem ext_mem {s t : Permissions} (h : ∀ p, p ∈ s ↔ p ∈ t) : s = t := by
  obtain ⟨xs, hx⟩ := s
  obtain ⟨ys, hy⟩ := t
  have same : xs = ys := by
    rw [← hx, ← hy]
    apply List.filter_congr
    intro p _
    exact decide_eq_decide.mpr (h p)
  subst same
  rfl

theorem ofList_toList (s : Permissions) : ofList s.toList = s :=
  ext_mem fun _ => mem_ofList

end Permissions

end MachineList
