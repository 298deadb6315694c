import ProcExpX.App.ProcessesView
import ProcExpX.Library.AtEach

/-!
# Attributes of a process

`ProcessInfoEx::GetAttributes` takes a process for a service when the process found under
its parent id is called `services.exe`. The column of the parent accepts that process only
if it is the older one. Attributes are worked out once and then kept, so an answer that
rests on a reused pid stays.
-/

namespace ProcExpX

open Library WinSys

namespace ProcessAttributes

/-- `NotComputed`. -/
def notComputed : Int32 := -1

/-- `None`. -/
def none : Int32 := 0

/-- `Protected`. -/
def protectedProcess : Int32 := 1

/-- `InJob`. -/
def inJob : Int32 := 2

/-- `Service`. -/
def service : Int32 := 4

/-- `Managed`. -/
def managed : Int32 := 8

/-- `Secure`. -/
def secure : Int32 := 0x10

/-- `Immersive`. -/
def immersive : Int32 := 0x20

/-- Add a flag if a condition holds. -/
def addIf (condition : Bool) (flag attributes : Int32) : Int32 :=
  if condition then attributes ||| flag else attributes

end ProcessAttributes

/-- What a process object answers once the process has been opened. -/
structure OpenedProcess where
  /-- `IsManaged`. -/
  isManaged : Bool
  /-- `IsProtected`. -/
  isProtected : Bool
  /-- `IsImmersive`. -/
  isImmersive : Bool
  /-- `IsSecure`. -/
  isSecure : Bool
  /-- `IsInJob`. -/
  isInJob : Bool

/-- Whether a process of the table is called `services.exe`. -/
def isServicesExe (locale : Locale) (m : Impl) (pi : Ref ProcessInfo) : Bool :=
  locale.wcsicmp (cStr (m.process pi).processName) (wide "services.exe") == 0

/-- The part of `ProcessInfoEx` that `GetAttributes` works on. -/
structure CachedAttributes where
  /-- `_pi`. -/
  pi : Ref ProcessInfo
  /-- `_attributes`. -/
  attributes : Int32

namespace CachedAttributes

/-- The constructor. -/
def make (pi : Ref ProcessInfo) : CachedAttributes := ⟨pi, ProcessAttributes.notComputed⟩

/-- The attributes of a process that has been opened. -/
def openedAttributes (locale : Locale) (m : Impl) (px : CachedAttributes)
    (process : OpenedProcess) : Int32 :=
  let attributes := ProcessAttributes.none
  let attributes := ProcessAttributes.addIf process.isManaged ProcessAttributes.managed attributes
  let attributes :=
    ProcessAttributes.addIf process.isProtected ProcessAttributes.protectedProcess attributes
  let attributes :=
    ProcessAttributes.addIf process.isImmersive ProcessAttributes.immersive attributes
  let attributes := ProcessAttributes.addIf process.isSecure ProcessAttributes.secure attributes
  let attributes := ProcessAttributes.addIf process.isInJob ProcessAttributes.inJob attributes
  let parent := m.getProcessById (m.process px.pi).parentId
  ProcessAttributes.addIf (parent.any (isServicesExe locale m)) ProcessAttributes.service attributes

/-- `GetAttributes`, with the processes that `OpenById` opens by pid. -/
def getAttributes (locale : Locale) (m : Impl) (openById : UInt32 → Option OpenedProcess)
    (px : CachedAttributes) : Int32 × CachedAttributes :=
  if px.attributes = ProcessAttributes.notComputed then
    let attributes :=
      match openById (m.process px.pi).id with
      | none => ProcessAttributes.none
      | some process => px.openedAttributes locale m process
    (attributes, { px with attributes := attributes })
  else (px.attributes, px)

/-- The attributes have been computed, and a service is what they say. -/
def IsService (px : CachedAttributes) : Prop :=
  px.attributes ≠ ProcessAttributes.notComputed ∧
    px.attributes &&& ProcessAttributes.service = ProcessAttributes.service

/-- The process found under the parent id is called `services.exe`. -/
def ServicesParent (locale : Locale) (m : Impl) (pi : Ref ProcessInfo) : Prop :=
  ∃ parent, m.getProcessById (m.process pi).parentId = some parent ∧
    isServicesExe locale m parent = true

end CachedAttributes

/-- What the column of the parent shows. -/
inductive ParentCell
  /-- Nothing. -/
  | blank
  /-- The id and the name of the parent. -/
  | parent (id : UInt32) (name : WString)
  /-- The parent id alone. -/
  | parentId (id : UInt32)

/-- The column of the parent in `BuildTable`. -/
def parentCell (m : Impl) (p : Ref ProcessInfo) : ParentCell :=
  if (m.process p).parentId > 0 then
    match m.getProcessById (m.process p).parentId with
    | some parent =>
      if (m.process parent).createTime < (m.process p).createTime then
        .parent (m.process parent).id (m.process parent).processName
      else .parentId (m.process p).parentId
    | none => .parentId (m.process p).parentId
  else .blank

/-- The column shows the process found under the parent id as the parent. -/
def AcceptsParent (m : Impl) (p : Ref ProcessInfo) : Prop :=
  ∃ parent, m.getProcessById (m.process p).parentId = some parent ∧
    parentCell m p = .parent (m.process parent).id (m.process parent).processName

/-- The column accepts the process found under a nonzero parent id if it is older. -/
theorem acceptsParent_iff {m : Impl} {p : Ref ProcessInfo} :
    AcceptsParent m p ↔ (m.process p).parentId > 0 ∧
      ∃ parent, m.getProcessById (m.process p).parentId = some parent ∧
        (m.process parent).createTime < (m.process p).createTime := by
  unfold AcceptsParent parentCell
  constructor
  · rintro ⟨parent, hparent, hcell⟩
    rw [hparent] at hcell
    dsimp only at hcell
    split at hcell
    · rename_i hid
      split at hcell
      · rename_i holder
        exact ⟨hid, parent, hparent, holder⟩
      · cases hcell
    · cases hcell
  · rintro ⟨hid, parent, hparent, holder⟩
    refine ⟨parent, hparent, ?_⟩
    rw [if_pos hid, hparent]
    exact if_pos holder

namespace CachedAttributes

variable {locale : Locale} {m : Impl} {openById : UInt32 → Option OpenedProcess}
  {px : CachedAttributes}

/-- The flags of a process are computed, and contain the one for services precisely when
it has been added. -/
private theorem flags_isService : ∀ managed secured immersed secure job service : Bool,
    let attributes := ProcessAttributes.addIf service ProcessAttributes.service
      (ProcessAttributes.addIf job ProcessAttributes.inJob
        (ProcessAttributes.addIf secure ProcessAttributes.secure
          (ProcessAttributes.addIf immersed ProcessAttributes.immersive
            (ProcessAttributes.addIf secured ProcessAttributes.protectedProcess
              (ProcessAttributes.addIf managed ProcessAttributes.managed
                ProcessAttributes.none)))))
    attributes ≠ ProcessAttributes.notComputed ∧
      (attributes &&& ProcessAttributes.service = ProcessAttributes.service ↔
        service = true) := by
  decide

/-- Attributes that have been computed are kept. -/
theorem getAttributes_computed (h : px.attributes ≠ ProcessAttributes.notComputed) :
    (px.getAttributes locale m openById).2 = px := by
  unfold getAttributes
  rw [if_neg h]

/-- `GetAttributes` keeps the process of a record. -/
theorem getAttributes_pi : (px.getAttributes locale m openById).2.pi = px.pi := by
  unfold getAttributes
  split <;> rfl

/-- `GetAttributes` leaves no attributes uncomputed. -/
theorem getAttributes_isComputed :
    (px.getAttributes locale m openById).2.attributes ≠ ProcessAttributes.notComputed := by
  unfold getAttributes
  split
  · dsimp only
    split
    · decide
    · exact (flags_isService _ _ _ _ _ _).1
  · assumption

/-- The attributes say service precisely when the process could be opened and the process
found under its parent id is called `services.exe`. -/
theorem getAttributes_isService_iff (h : px.attributes = ProcessAttributes.notComputed) :
    (px.getAttributes locale m openById).2.IsService ↔
      (openById (m.process px.pi).id).isSome = true ∧ ServicesParent locale m px.pi := by
  unfold IsService
  rw [and_iff_right getAttributes_isComputed]
  unfold getAttributes
  rw [if_pos h]
  dsimp only
  cases hopened : openById (m.process px.pi).id with
  | none =>
    dsimp only
    exact iff_of_false (by decide) (fun hopen => absurd hopen.1 (by decide))
  | some process =>
    refine (flags_isService _ _ _ _ _ _).2.trans ?_
    rw [Option.any_eq_true, Option.isSome_some, and_iff_right rfl]
    rfl

end CachedAttributes

/-- `_pm` and `_processesEx` of the view. -/
structure AttributesView where
  /-- `_pm`. -/
  pm : Impl
  /-- `_processesEx`. -/
  processesEx : UnorderedMap ProcessOrThreadKey CachedAttributes

/-- What the view does to them. -/
inductive AttributesStep
  /-- The processes are enumerated. -/
  | enumerate (c : Call)
  /-- `GetProcessInfoEx` is called on a process. -/
  | getProcessInfoEx (pi : Ref ProcessInfo)
  /-- `GetAttributes` is called on the record of a process. -/
  | getAttributes (pi : Ref ProcessInfo) (openById : UInt32 → Option OpenedProcess)
  /-- The record of a process is erased. -/
  | erase (pi : Ref ProcessInfo)

namespace AttributesView

variable (host : Host)

/-- The record that `GetProcessInfoEx` returns, made if there is none. -/
def infoEx (s : AttributesView) (pi : Ref ProcessInfo) : CachedAttributes :=
  (s.processesEx.lookup (s.pm.process pi).key).getD (.make pi)

/-- Write through the reference that `GetProcessInfoEx` returned. -/
def setInfoEx (s : AttributesView) (pi : Ref ProcessInfo) (px : CachedAttributes) :
    AttributesView :=
  { s with processesEx := s.processesEx.insert (s.pm.process pi).key px }

/-- One step of the view. -/
def step (s : AttributesView) : AttributesStep → AttributesView
  | .enumerate c => { s with pm := s.pm.step host.env c }
  | .getProcessInfoEx pi => s.setInfoEx pi (s.infoEx pi)
  | .getAttributes pi openById =>
    s.setInfoEx pi ((s.infoEx pi).getAttributes host.locale s.pm openById).2
  | .erase pi => { s with processesEx := s.processesEx.erase (s.pm.process pi).key }

/-- The state after a run of steps on a new view. -/
def run (steps : List AttributesStep) : AttributesView :=
  steps.foldl (step host) ⟨Impl.initial host.rawProcesses host.rawThreads, ∅⟩

/-- One more step. -/
theorem run_concat (steps : List AttributesStep) (e : AttributesStep) :
    run host (steps ++ [e]) = (run host steps).step host e := by
  simp [run]

/-- A step makes no process a service that has no accepted parent. -/
def ServiceHasParent (s : AttributesView) (e : AttributesStep) : Prop :=
  ∀ k px, (s.step host e).processesEx.lookup k = some px → px.IsService →
    s.processesEx.lookup k ≠ some px → AcceptsParent s.pm px.pi

/-- Unless the attributes are known already, a process that can be opened has no process
called `services.exe` under its parent id that is not accepted as its parent. -/
def ServicesAccepted (s : AttributesView) : AttributesStep → Prop
  | .getAttributes pi openById =>
    (s.infoEx pi).attributes = ProcessAttributes.notComputed →
      (openById (s.pm.process (s.infoEx pi).pi).id).isSome = true →
        CachedAttributes.ServicesParent host.locale s.pm (s.infoEx pi).pi →
          AcceptsParent s.pm (s.infoEx pi).pi
  | _ => True

variable {host} {s : AttributesView} {e : AttributesStep} {k : ProcessOrThreadKey}
  {px : CachedAttributes} {pi : Ref ProcessInfo} {openById : UInt32 → Option OpenedProcess}

/-- `GetProcessInfoEx` returns the record found. -/
theorem infoEx_eq (h : s.processesEx.lookup (s.pm.process pi).key = some px) :
    s.infoEx pi = px := by
  unfold infoEx
  rw [h, Option.getD_some]

/-- The record that `GetProcessInfoEx` returns is the one found, or says nothing yet. -/
theorem infoEx_cases (s : AttributesView) (pi : Ref ProcessInfo) :
    s.processesEx.lookup (s.pm.process pi).key = some (s.infoEx pi) ∨
      (s.infoEx pi).attributes = ProcessAttributes.notComputed := by
  unfold infoEx
  cases hlookup : s.processesEx.lookup (s.pm.process pi).key with
  | some px => exact Or.inl rfl
  | none => exact Or.inr rfl

/-- What `GetProcessInfoEx` writes is found under the key of the process. -/
theorem lookup_setInfoEx (s : AttributesView) (pi : Ref ProcessInfo) (px : CachedAttributes)
    (k : ProcessOrThreadKey) :
    (s.setInfoEx pi px).processesEx.lookup k =
      if k = (s.pm.process pi).key then some px else s.processesEx.lookup k := by
  unfold setInfoEx
  by_cases hk : k = (s.pm.process pi).key
  · subst hk
    rw [if_pos rfl, AList.lookup_insert]
  · rw [if_neg hk, AList.lookup_insert_ne hk]

/-- **One step.** A process that is a service after a step was one before, or
`GetAttributes` has just worked out its attributes. -/
theorem isService_step (hpx : (s.step host e).processesEx.lookup k = some px)
    (hservice : px.IsService) :
    s.processesEx.lookup k = some px ∨
      ∃ pi openById, e = .getAttributes pi openById ∧
        (s.infoEx pi).attributes = ProcessAttributes.notComputed ∧
        px = ((s.infoEx pi).getAttributes host.locale s.pm openById).2 := by
  cases e with
  | enumerate c => exact Or.inl hpx
  | getProcessInfoEx pi =>
    rw [step, lookup_setInfoEx] at hpx
    split at hpx
    · rename_i hk
      obtain rfl := Option.some.inj hpx
      rcases infoEx_cases s pi with hfound | hnew
      · exact Or.inl (hk ▸ hfound)
      · exact absurd hnew hservice.1
    · exact Or.inl hpx
  | getAttributes pi openById =>
    rw [step, lookup_setInfoEx] at hpx
    split at hpx
    · rename_i hk
      have hpx' := Option.some.inj hpx
      by_cases hnew : (s.infoEx pi).attributes = ProcessAttributes.notComputed
      · exact Or.inr ⟨pi, openById, rfl, hnew, hpx'.symm⟩
      · rcases infoEx_cases s pi with hfound | hnew'
        · rw [CachedAttributes.getAttributes_computed hnew] at hpx'
          exact Or.inl (hk ▸ hpx' ▸ hfound)
        · exact absurd hnew' hnew
    · exact Or.inl hpx
  | erase pi =>
    rw [step, UnorderedMap.lookup_erase_eq] at hpx
    split at hpx
    · cases hpx
    · exact Or.inl hpx

/-- A step makes services of processes with accepted parents only precisely when the
process found under the parent id is accepted where it decides. -/
theorem serviceHasParent_iff : s.ServiceHasParent host e ↔ s.ServicesAccepted host e := by
  constructor
  · intro h
    cases e with
    | getAttributes pi openById =>
      intro hnew hopened hparent
      have hservice := (CachedAttributes.getAttributes_isService_iff hnew).mpr ⟨hopened, hparent⟩
      have hpx : (s.step host (.getAttributes pi openById)).processesEx.lookup
          (s.pm.process pi).key =
          some ((s.infoEx pi).getAttributes host.locale s.pm openById).2 := by
        rw [step, lookup_setInfoEx, if_pos rfl]
      have hfresh : s.processesEx.lookup (s.pm.process pi).key ≠
          some ((s.infoEx pi).getAttributes host.locale s.pm openById).2 := by
        intro hold
        have hkept := congrArg CachedAttributes.attributes (infoEx_eq hold)
        exact CachedAttributes.getAttributes_isComputed (hkept.symm.trans hnew)
      have haccepted := h _ _ hpx hservice hfresh
      rwa [CachedAttributes.getAttributes_pi] at haccepted
    | enumerate | getProcessInfoEx | erase => exact trivial
  · intro h k px hpx hservice hfresh
    rcases isService_step hpx hservice with hold | ⟨pi, openById, rfl, hnew, rfl⟩
    · exact absurd hold hfresh
    · obtain ⟨hopened, hparent⟩ :=
        (CachedAttributes.getAttributes_isService_iff hnew).mp hservice
      rw [CachedAttributes.getAttributes_pi]
      exact h hnew hopened hparent

/-- A record found in the end was put there by one of the steps, and has not changed since. -/
theorem run_lookup_traced {steps : List AttributesStep}
    (hpx : (run host steps).processesEx.lookup k = some px) :
    ∃ before e after, steps = before ++ e :: after ∧
      (run host before).processesEx.lookup k ≠ some px ∧
        ∀ later more, after = later ++ more →
          (run host (before ++ e :: later)).processesEx.lookup k = some px := by
  induction steps using List.reverseRecOn with
  | nil => cases hpx
  | append_singleton steps e ih =>
    by_cases hold : (run host steps).processesEx.lookup k = some px
    · obtain ⟨before, e', after, rfl, hfresh, hkept⟩ := ih hold
      refine ⟨before, e', after ++ [e], by simp, hfresh, fun later more heq => ?_⟩
      rcases List.eq_nil_or_concat more with rfl | ⟨more, last, rfl⟩
      · rw [List.append_nil] at heq
        rw [← heq, ← List.cons_append, ← List.append_assoc]
        exact hpx
      · rw [List.concat_eq_append, ← List.append_assoc] at heq
        exact hkept later more (List.append_inj' heq rfl).1
    · refine ⟨steps, e, [], rfl, hold, fun later more heq => ?_⟩
      obtain ⟨rfl, _⟩ := List.append_eq_nil_iff.mp heq.symm
      exact hpx

/-- The two places that resolve the parent of a process agree along a run. -/
structure ServicesHaveParents (host : Host) (steps : List AttributesStep) : Prop where
  /-- No step makes a process a service that has no accepted parent at the time. -/
  made : AtEach (fun before e => (run host before).ServiceHasParent host e) steps
  /-- Each record that says service in the end says so since a step at which the process
  had an accepted parent. -/
  kept : ∀ k px, (run host steps).processesEx.lookup k = some px → px.IsService →
    ∃ before e after, steps = before ++ e :: after ∧ AcceptsParent (run host before).pm px.pi ∧
      ∀ later more, after = later ++ more →
        (run host (before ++ e :: later)).processesEx.lookup k = some px

/-- **Services and parents.** In every run the two places agree precisely when, each time
the attributes of a process are worked out, the process found under its parent id is
accepted as its parent or not called `services.exe`. -/
theorem run_servicesHaveParents_iff (host : Host) (steps : List AttributesStep) :
    ServicesHaveParents host steps ↔
      AtEach (fun before e => (run host before).ServicesAccepted host e) steps := by
  constructor
  · exact fun h before e after heq => serviceHasParent_iff.mp (h.made before e after heq)
  · intro h
    have hmade : AtEach (fun before e => (run host before).ServiceHasParent host e) steps :=
      fun before e after heq => serviceHasParent_iff.mpr (h before e after heq)
    refine ⟨hmade, fun k px hpx hservice => ?_⟩
    obtain ⟨before, e, after, heq, hfresh, hkept⟩ := run_lookup_traced hpx
    have hpx' := hkept [] after rfl
    rw [run_concat] at hpx'
    exact ⟨before, e, after, heq, hmade before e after heq k px hpx' hservice hfresh, hkept⟩

/-- The parent of a process ends, and its pid is given to a process of the name
`services.exe` before the attributes of the former are worked out. -/
theorem younger_services_exe_makes_service :
    let parent := SystemProcessInformation.bare 5 12
    let child := { SystemProcessInformation.bare 10 8 with inheritedFromUniqueProcessId := 12 }
    let younger := { SystemProcessInformation.bare 20 12 with imageName := wide "services.exe" }
    let first := Call.answered .enumProcesses 100 parent [child]
    let second := Call.answered .enumProcesses 200 child [younger]
    ¬ ServicesHaveParents .plain [.enumerate first, .enumerate second,
      .getAttributes ⟨1⟩ fun _ => some ⟨false, false, false, false, false⟩] := by
  intro parent child younger first second h
  have haccepted := serviceHasParent_iff.mp
    (h.made [.enumerate first, .enumerate second] _ [] rfl)
  have hfound : (run .plain [.enumerate first, .enumerate second]).pm.getProcessById
      ((run .plain [.enumerate first, .enumerate second]).pm.process ⟨1⟩).parentId =
        some ⟨2⟩ := by decide +kernel
  have hnamed : isServicesExe Host.plain.locale
      (run .plain [.enumerate first, .enumerate second]).pm ⟨2⟩ = true := by decide +kernel
  obtain ⟨_, found, hparent, holder⟩ := acceptsParent_iff.mp
    (haccepted rfl rfl ⟨⟨2⟩, hfound, hnamed⟩)
  obtain rfl := Option.some.inj (hfound.symm.trans hparent)
  exact absurd holder (by decide +kernel)

end AttributesView

end ProcExpX
