import Pisces.Enclave.Status

/-! # Set-up and tear-down of an enclave's channels

`setup_boot_params` creates the control and the long-call channel and may fail
half-way; `PISCES_ENCLAVE_RESET` and `pisces_enclave_free` tear both down
without looking.
-/

namespace Pisces.Enclave

open Ledger Transition

/-- The resources of which an enclave has at most one. -/
def Counted (kind : Resource) : Prop :=
  kind ≠ .lcallDesc

/-- Every tear-down met a live channel, nothing was ever live twice, and once
the enclave is freed everything created has been released exactly once. -/
structure Balanced (enclave : Lifecycle) : Prop where
  sound : Sound enclave.log
  exclusive : Exclusive Handle.kind Counted enclave.log
  settled : enclave.mapped = false → Settled enclave.log

namespace Lifecycle

def holds (enclave : Lifecycle) (kind : Resource) : Bool :=
  (live enclave.log).any (·.kind == kind)

/-- The control channel is initialised: its descriptor is neither NULL nor
released. -/
def ctrlLive (enclave : Lifecycle) : Bool :=
  enclave.ctrlDesc.any (· ∈ live enclave.log)

/-- The long-call channel is initialised: thread, interrupt and descriptor. -/
def lcallLive (enclave : Lifecycle) : Bool :=
  enclave.lcallState.any fun lcall =>
    lcall.kernThread ∈ live enclave.log && lcall.irq ∈ live enclave.log &&
      lcall.xbufDesc ∈ live enclave.log

end Lifecycle

namespace Boot

/-- `setup_boot_params` gets as far as the control channel. -/
def reachesCtrl (boot : Boot) : Bool :=
  boot.bootParams && boot.launchCode

def createsCtrl (boot : Boot) : Bool :=
  boot.reachesCtrl && boot.ctrlAlloc

def createsIrq (boot : Boot) : Bool :=
  boot.reachesCtrl && (!boot.xbufReady && boot.requestIrq)

def createsLcall (boot : Boot) : Bool :=
  boot.createsIrq && boot.irqToVector

end Boot

/-- A launch creates only what is not live yet, and nothing lasting once the
enclave is freed; a reset, or the free that finds the enclave in the map, meets
both channels initialised. -/
def paired : Option Lifecycle → Operation → Bool
  | some enclave, .launch true boot =>
      (!boot.createsCtrl || (!enclave.holds .ctrlDesc && enclave.mapped)) &&
        (!boot.createsIrq || !enclave.holds .lcallIrq) && (!boot.createsLcall || enclave.mapped)
  | some enclave, .reset _ => enclave.ctrlLive && enclave.lcallLive
  | some enclave, .free => !enclave.mapped || (enclave.ctrlLive && enclave.lcallLive)
  | _, _ => true

abbrev Paired (enclave : Option Lifecycle) (operation : Operation) : Prop :=
  paired enclave operation = true

/-- Handles are numbered in the order in which they are acquired. -/
structure Numbered (enclave : Lifecycle) : Prop where
  fresh : Fresh enclave.log
  bound : ∀ handle, .acquire handle ∈ enclave.log → handle.id < enclave.nextId

/-- What the fields of the enclave say about the log. -/
structure Tracked (enclave : Lifecycle) : Prop extends Numbered enclave where
  ctrlKind : ∀ desc, enclave.ctrlDesc = some desc → desc.kind = .ctrlDesc
  lcallKind : ∀ lcall, enclave.lcallState = some lcall → lcall.kernThread.kind = .lcallThread ∧
    lcall.irq.kind = .lcallIrq ∧ lcall.xbufDesc.kind = .lcallDesc
  /-- Only a control descriptor can be live without a pointer to it. -/
  owned : ∀ handle ∈ live enclave.log, handle.kind ≠ .ctrlDesc → enclave.lcallLive = true ∧
    ∃ lcall, enclave.lcallState = some lcall ∧
      (handle = lcall.kernThread ∨ handle = lcall.irq ∨ handle = lcall.xbufDesc)

/-- The part of the balance that does not depend on the enclave being freed. -/
def Proper (enclave : Lifecycle) : Prop :=
  Sound enclave.log ∧ Exclusive Handle.kind Counted enclave.log

variable {enclave : Lifecycle} {boot : Boot} {kind : Resource} {pointer : Option Handle}

theorem holds_eq_false_iff : enclave.holds kind = false ↔ ∀ handle ∈ live enclave.log, handle.kind ≠ kind := by
  simp [Lifecycle.holds]

theorem ctrlLive_iff :
    enclave.ctrlLive = true ↔ ∃ handle ∈ live enclave.log, enclave.ctrlDesc = some handle := by
  simp only [Lifecycle.ctrlLive, Option.any_eq_true]
  constructor
  · rintro ⟨handle, present, member⟩
    exact ⟨handle, by simpa using member, present⟩
  · rintro ⟨handle, member, present⟩
    exact ⟨handle, present, by simpa using member⟩

theorem lcallLive_iff : enclave.lcallLive = true ↔ ∃ lcall, enclave.lcallState = some lcall ∧
    lcall.kernThread ∈ live enclave.log ∧ lcall.irq ∈ live enclave.log ∧
    lcall.xbufDesc ∈ live enclave.log := by
  simp [Lifecycle.lcallLive, Option.any_eq_true, and_assoc]

namespace Numbered

theorem acquire (numbered : Numbered enclave) (kind : Resource) : Numbered (enclave.acquire kind) where
  fresh := by
    apply fresh_acquire numbered.fresh
    intro acquired
    exact Nat.lt_irrefl _ (numbered.bound _ acquired)
  bound := by
    intro handle member
    rcases List.mem_cons.mp member with newest | older
    · cases newest
      exact Nat.lt_succ_self _
    · exact Nat.lt_succ_of_lt (numbered.bound handle older)

theorem release (numbered : Numbered enclave) (pointer : Option Handle) :
    Numbered (enclave.release pointer) where
  fresh := fresh_release numbered.fresh
  bound := by
    intro handle member
    exact numbered.bound handle (by simpa [Lifecycle.release] using member)

theorem ctrlInit (numbered : Numbered enclave) (allocated : Bool) :
    Numbered (enclave.ctrlInit allocated) := by
  cases allocated with
  | false => exact ⟨numbered.fresh, numbered.bound⟩
  | true =>
      have grown := numbered.acquire .ctrlDesc
      exact ⟨grown.fresh, grown.bound⟩

theorem lcallInit (numbered : Numbered enclave) (boot : Boot) :
    Numbered (enclave.lcallInit boot).2 := by
  simp only [Lifecycle.lcallInit, Lifecycle.xbufServerInit]
  have desc := numbered.acquire .lcallDesc
  have irq := desc.acquire .lcallIrq
  cases boot.xbufReady with
  | true => exact numbered
  | false =>
      cases boot.requestIrq with
      | false => exact desc.release _
      | true =>
          cases boot.irqToVector with
          | false => exact (irq.release _).release _
          | true =>
              have thread := irq.acquire .lcallThread
              exact ⟨thread.fresh, thread.bound⟩

end Numbered

namespace Tracked

theorem created : Tracked create where
  fresh := by simp [create, Fresh]
  bound := by simp [create]
  ctrlKind := by simp [create]
  lcallKind := by simp [create]
  owned := by simp [create, live]

theorem lcallLive_mono {after : Lifecycle} (tracked : Tracked enclave)
    (alive : enclave.lcallLive = true) (same : after.lcallState = enclave.lcallState)
    (kept : ∀ handle ∈ live enclave.log, handle.kind ≠ .ctrlDesc → handle ∈ live after.log) :
    after.lcallLive = true := by
  obtain ⟨lcall, present, thread, irq, desc⟩ := lcallLive_iff.mp alive
  have kinds := tracked.lcallKind lcall present
  exact lcallLive_iff.mpr ⟨lcall, same.trans present, kept _ thread (by simp [kinds]),
    kept _ irq (by simp [kinds]), kept _ desc (by simp [kinds])⟩

theorem ctrlInit (tracked : Tracked enclave) (allocated : Bool) :
    Tracked (enclave.ctrlInit allocated) := by
  have numbered := tracked.toNumbered.ctrlInit allocated
  cases allocated with
  | false => exact ⟨numbered, by simp [Lifecycle.ctrlInit], tracked.lcallKind, tracked.owned⟩
  | true =>
      have kept : ∀ handle ∈ live enclave.log, handle.kind ≠ .ctrlDesc →
          handle ∈ live (enclave.ctrlInit true).log :=
        fun _ member _ => List.mem_cons_of_mem _ member
      refine ⟨numbered, ?_, tracked.lcallKind, ?_⟩
      · intro desc present
        cases present
        rfl
      · intro handle member other
        have older : handle ∈ live enclave.log := by
          rcases List.mem_cons.mp member with rfl | older
          · exact absurd rfl other
          · exact older
        obtain ⟨alive, owner⟩ := tracked.owned handle older other
        exact ⟨tracked.lcallLive_mono alive rfl kept, owner⟩

theorem ctrlDeinit_kept (tracked : Tracked enclave) : ∀ handle ∈ live enclave.log,
    handle.kind ≠ .ctrlDesc → handle ∈ live enclave.ctrlDeinit.log := by
  intro handle member other
  cases present : enclave.ctrlDesc with
  | none => simpa [Lifecycle.ctrlDeinit, Lifecycle.release, present, live] using member
  | some desc =>
      have distinct : handle ≠ desc := fun same => other (same ▸ tracked.ctrlKind desc present)
      simpa [Lifecycle.ctrlDeinit, Lifecycle.release, present] using
        (List.mem_erase_of_ne distinct).mpr member

theorem ctrlDeinit (tracked : Tracked enclave) : Tracked enclave.ctrlDeinit := by
  refine ⟨tracked.toNumbered.release _, tracked.ctrlKind, tracked.lcallKind, ?_⟩
  intro handle member other
  obtain ⟨alive, owner⟩ := tracked.owned handle (live_release_sublist.subset member) other
  exact ⟨tracked.lcallLive_mono alive rfl tracked.ctrlDeinit_kept, owner⟩

theorem ctrlDeinit_lcallLive (tracked : Tracked enclave) :
    enclave.ctrlDeinit.lcallLive = enclave.lcallLive := by
  rw [Bool.eq_iff_iff]
  constructor
  · intro alive
    obtain ⟨lcall, present, thread, irq, desc⟩ := lcallLive_iff.mp alive
    exact lcallLive_iff.mpr ⟨lcall, present, live_release_sublist.subset thread,
      live_release_sublist.subset irq, live_release_sublist.subset desc⟩
  · intro alive
    exact tracked.lcallLive_mono alive rfl tracked.ctrlDeinit_kept

theorem only_ctrl (tracked : Tracked enclave) (absent : enclave.holds .lcallIrq = false) :
    ∀ handle ∈ live enclave.log, handle.kind = .ctrlDesc := by
  intro handle member
  by_contra other
  obtain ⟨alive, _⟩ := tracked.owned handle member other
  obtain ⟨lcall, present, _, irq, _⟩ := lcallLive_iff.mp alive
  exact holds_eq_false_iff.mp absent _ irq (tracked.lcallKind lcall present).2.1

end Tracked

theorem lcallInit_log : (enclave.lcallInit boot).2.log =
    (if boot.xbufReady then [] else
      let desc : Handle := ⟨.lcallDesc, enclave.nextId⟩
      let irq : Handle := ⟨.lcallIrq, enclave.nextId + 1⟩
      if boot.requestIrq then
        if boot.irqToVector then
          [.acquire ⟨.lcallThread, enclave.nextId + 2⟩, .acquire irq, .acquire desc]
        else [.release (some desc), .release (some irq), .acquire irq, .acquire desc]
      else [.release (some desc), .acquire desc]) ++ enclave.log := by
  simp only [Lifecycle.lcallInit, Lifecycle.xbufServerInit]
  cases boot.xbufReady <;> cases boot.requestIrq <;> cases boot.irqToVector <;> rfl

theorem lcallInit_created (enclave : Lifecycle)
    (created : (!boot.xbufReady && boot.requestIrq && boot.irqToVector) = true) :
    (enclave.lcallInit boot).2.lcallState = some ⟨⟨.lcallDesc, enclave.nextId⟩,
      ⟨.lcallIrq, enclave.nextId + 1⟩, ⟨.lcallThread, enclave.nextId + 2⟩⟩ ∧
    live (enclave.lcallInit boot).2.log = ⟨.lcallThread, enclave.nextId + 2⟩ ::
      ⟨.lcallIrq, enclave.nextId + 1⟩ :: ⟨.lcallDesc, enclave.nextId⟩ :: live enclave.log := by
  simp only [Bool.and_eq_true, Bool.not_eq_true'] at created
  simp [Lifecycle.lcallInit, Lifecycle.xbufServerInit, created, Lifecycle.acquire,
    Lifecycle.fresh]

theorem lcallInit_failed (enclave : Lifecycle)
    (failed : (!boot.xbufReady && boot.requestIrq && boot.irqToVector) = false) :
    (enclave.lcallInit boot).2.lcallState = enclave.lcallState ∧
    live (enclave.lcallInit boot).2.log = live enclave.log := by
  rw [lcallInit_log]
  simp only [Lifecycle.lcallInit, Lifecycle.xbufServerInit]
  cases ready : boot.xbufReady with
  | true => simp
  | false =>
      cases requested : boot.requestIrq with
      | false => simp [Lifecycle.acquire, Lifecycle.release]
      | true =>
          have noVector : boot.irqToVector = false := by simpa [ready, requested] using failed
          simp [noVector, Lifecycle.acquire, Lifecycle.release]

theorem lcallInit_frame (enclave : Lifecycle) (boot : Boot) :
    (enclave.lcallInit boot).2.ctrlDesc = enclave.ctrlDesc ∧
    (enclave.lcallInit boot).2.mapped = enclave.mapped := by
  simp only [Lifecycle.lcallInit, Lifecycle.xbufServerInit]
  cases boot.xbufReady <;> cases boot.requestIrq <;> cases boot.irqToVector <;>
    simp [Lifecycle.acquire, Lifecycle.release]

theorem proper_ctrlInit {allocated : Bool} : Proper (enclave.ctrlInit allocated) ↔
    Proper enclave ∧ (allocated = true → enclave.holds .ctrlDesc = false) := by
  cases allocated with
  | false => simp [Proper, Lifecycle.ctrlInit]
  | true => simp [Proper, Lifecycle.ctrlInit, Lifecycle.acquire, holds_eq_false_iff, Counted, and_assoc]

theorem proper_ctrlDeinit : Proper enclave.ctrlDeinit ↔ Proper enclave ∧ enclave.ctrlLive = true := by
  simp only [Proper, Lifecycle.ctrlDeinit, Lifecycle.release, sound_release, exclusive_release, ctrlLive_iff]
  tauto

theorem proper_lcallInit (tracked : Tracked enclave) : Proper (enclave.lcallInit boot).2 ↔
    Proper enclave ∧ ((!boot.xbufReady && boot.requestIrq) = true → enclave.holds .lcallIrq = false) := by
  simp only [Proper, lcallInit_log]
  cases boot.xbufReady with
  | true => simp
  | false =>
      cases boot.requestIrq with
      | false => simp [Counted]
      | true =>
          cases boot.irqToVector with
          | false => simp [Counted, holds_eq_false_iff, and_assoc]
          | true =>
              have thread : enclave.holds .lcallIrq = false → enclave.holds .lcallThread = false := by
                intro absent
                apply holds_eq_false_iff.mpr
                intro handle member
                simp [tracked.only_ctrl absent handle member]
              simp [Counted, ← holds_eq_false_iff, and_assoc]
              exact fun _ _ => thread

theorem proper_lcallDeinit (tracked : Tracked enclave) :
    Proper enclave.lcallDeinit ↔ Proper enclave ∧ enclave.lcallLive = true := by
  simp only [Proper, Lifecycle.lcallDeinit, Lifecycle.xbufServerDeinit, Lifecycle.release, sound_release,
    exclusive_release, lcallLive_iff]
  cases present : enclave.lcallState with
  | none => simp
  | some lcall =>
      obtain ⟨thread, irq, desc⟩ := tracked.lcallKind lcall present
      have threadIrq : lcall.irq ≠ lcall.kernThread := fun same => by simp [same, thread] at irq
      have threadDesc : lcall.xbufDesc ≠ lcall.kernThread := fun same => by simp [same, thread] at desc
      have irqDesc : lcall.xbufDesc ≠ lcall.irq := fun same => by simp [same, irq] at desc
      simp [List.mem_erase_of_ne, threadIrq, threadDesc, irqDesc]
      tauto

namespace Tracked

/-- What was acquired and released again at once leaves no trace in the fields. -/
theorem unchanged {after : Lifecycle} (tracked : Tracked enclave) (numbered : Numbered after)
    (ctrlDesc : after.ctrlDesc = enclave.ctrlDesc) (lcallState : after.lcallState = enclave.lcallState)
    (same : live after.log = live enclave.log) : Tracked after := by
  refine ⟨numbered, ctrlDesc ▸ tracked.ctrlKind, lcallState ▸ tracked.lcallKind, ?_⟩
  intro handle member other
  rw [same] at member
  obtain ⟨alive, owner⟩ := tracked.owned handle member other
  rw [lcallState]
  have kept : ∀ handle ∈ live enclave.log, handle.kind ≠ .ctrlDesc → handle ∈ live after.log :=
    fun _ present _ => same ▸ present
  exact ⟨tracked.lcallLive_mono alive lcallState kept, owner⟩

theorem lcallInit (tracked : Tracked enclave)
    (absent : (!boot.xbufReady && boot.requestIrq) = true → enclave.holds .lcallIrq = false) :
    Tracked (enclave.lcallInit boot).2 := by
  have numbered := tracked.toNumbered.lcallInit boot
  have ctrlDesc := (lcallInit_frame enclave boot).1
  cases created : !boot.xbufReady && boot.requestIrq && boot.irqToVector with
  | false =>
      obtain ⟨lcallState, same⟩ := lcallInit_failed enclave created
      exact tracked.unchanged numbered ctrlDesc lcallState same
  | true =>
      obtain ⟨lcallState, grown⟩ := lcallInit_created enclave created
      have onlyCtrl := tracked.only_ctrl (absent (Bool.and_eq_true_iff.mp created).1)
      refine ⟨numbered, ctrlDesc ▸ tracked.ctrlKind, ?_, ?_⟩
      · intro lcall present
        cases lcallState.symm.trans present
        exact ⟨rfl, rfl, rfl⟩
      · intro handle member other
        refine ⟨lcallLive_iff.mpr ⟨_, lcallState, by simp [grown]⟩, _, lcallState, ?_⟩
        simp only [grown, List.mem_cons] at member
        rcases member with thread | irq | desc | older
        · exact .inl thread
        · exact .inr (.inl irq)
        · exact .inr (.inr desc)
        · exact absurd (onlyCtrl handle older) other

theorem lcallDeinit_live (tracked : Tracked enclave) (sound : Sound enclave.log)
    (alive : enclave.lcallLive = true) : ∀ handle, handle ∈ live enclave.lcallDeinit.log ↔
      handle ∈ live enclave.log ∧ handle.kind = .ctrlDesc := by
  obtain ⟨lcall, present, _⟩ := lcallLive_iff.mp alive
  obtain ⟨thread, irq, desc⟩ := tracked.lcallKind lcall present
  have nodup := sound.live_nodup tracked.fresh
  intro handle
  have erased : handle ∈ live enclave.lcallDeinit.log ↔ handle ≠ lcall.xbufDesc ∧
      handle ≠ lcall.irq ∧ handle ≠ lcall.kernThread ∧ handle ∈ live enclave.log := by
    simp only [Lifecycle.lcallDeinit, Lifecycle.xbufServerDeinit, Lifecycle.release, present,
      Option.map_some, live_release_some]
    rw [((nodup.erase _).erase _).mem_erase_iff, (nodup.erase _).mem_erase_iff, nodup.mem_erase_iff]
  rw [erased]
  constructor
  · rintro ⟨notDesc, notIrq, notThread, member⟩
    refine ⟨member, ?_⟩
    by_contra other
    obtain ⟨_, owner, same, owns⟩ := tracked.owned handle member other
    cases present.symm.trans same
    tauto
  · rintro ⟨member, kind⟩
    refine ⟨?_, ?_, ?_, member⟩
    · rintro rfl
      simp [desc] at kind
    · rintro rfl
      simp [irq] at kind
    · rintro rfl
      simp [thread] at kind

theorem lcallDeinit (tracked : Tracked enclave) (sound : Sound enclave.log)
    (alive : enclave.lcallLive = true) : Tracked enclave.lcallDeinit := by
  refine ⟨((tracked.toNumbered.release _).release _).release _, tracked.ctrlKind, tracked.lcallKind, ?_⟩
  intro handle member other
  exact absurd ((tracked.lcallDeinit_live sound alive handle).mp member).2 other

end Tracked

theorem deinit_live (tracked : Tracked enclave) (proper : Proper enclave)
    (ctrl : enclave.ctrlLive = true) (lcall : enclave.ctrlDeinit.lcallLive = true) :
    live enclave.ctrlDeinit.lcallDeinit.log = [] := by
  obtain ⟨sound, exclusive⟩ := proper
  obtain ⟨desc, member, present⟩ := ctrlLive_iff.mp ctrl
  have torn : Sound enclave.ctrlDeinit.log := (proper_ctrlDeinit.mpr ⟨⟨sound, exclusive⟩, ctrl⟩).1
  rw [List.eq_nil_iff_forall_not_mem]
  intro handle left
  obtain ⟨inner, kind⟩ := (tracked.ctrlDeinit.lcallDeinit_live torn lcall handle).mp left
  simp only [Lifecycle.ctrlDeinit, Lifecycle.release, present, live_release_some,
    (sound.live_nodup tracked.fresh).mem_erase_iff] at inner
  have isCtrl := tracked.ctrlKind desc present
  exact inner.1 (exclusive.unique (by simp [Counted, isCtrl]) inner.2 member (kind.trans isCtrl.symm))

/-- The part of a launch that concerns the channels. -/
def Lifecycle.initChannels (enclave : Lifecycle) (boot : Boot) : Lifecycle :=
  if boot.reachesCtrl then ((enclave.ctrlInit boot.ctrlAlloc).lcallInit boot).2 else enclave

/-- The fields that the balance of the channels depends on. -/
structure SameChannels (before after : Lifecycle) : Prop where
  log : after.log = before.log
  nextId : after.nextId = before.nextId
  ctrlDesc : after.ctrlDesc = before.ctrlDesc
  lcallState : after.lcallState = before.lcallState
  mapped : after.mapped = before.mapped

theorem launch_same (enclave : Lifecycle) (boot : Boot) :
    SameChannels (enclave.initChannels boot) (enclave.launch boot).2 := by
  have setup : (enclave.setupBootParams boot).2 = enclave.initChannels boot := by
    unfold Lifecycle.setupBootParams Lifecycle.initChannels Boot.reachesCtrl
    split
    · split
      · rename_i failed
        rw [failed]
      · rename_i created
        rw [created]
    · rfl
  rw [← setup]
  unfold Lifecycle.launch
  split
  · rename_i failed
    rw [failed]
    constructor <;> rfl
  · rename_i prepared
    rw [prepared]
    split <;> constructor <;> rfl

theorem SameChannels.numbered {before after : Lifecycle} (same : SameChannels before after)
    (numbered : Numbered before) : Numbered after := by
  constructor
  · rw [same.log]
    exact numbered.fresh
  · rw [same.log, same.nextId]
    exact numbered.bound

theorem SameChannels.tracked {before after : Lifecycle} (same : SameChannels before after)
    (tracked : Tracked before) : Tracked after :=
  tracked.unchanged (same.numbered tracked.toNumbered) same.ctrlDesc same.lcallState (by rw [same.log])

theorem balanced_iff (numbered : Numbered enclave) :
    Balanced enclave ↔ Proper enclave ∧ (enclave.mapped = false → live enclave.log = []) := by
  constructor
  · intro balanced
    refine ⟨⟨balanced.sound, balanced.exclusive⟩, ?_⟩
    intro freed
    exact (balanced.sound.settled_iff numbered.fresh).mp (balanced.settled freed)
  · rintro ⟨⟨sound, exclusive⟩, empty⟩
    exact ⟨sound, exclusive, fun freed => (sound.settled_iff numbered.fresh).mpr (empty freed)⟩

theorem Proper.of_suffix {before after : Lifecycle} (proper : Proper after)
    (suffix : before.log <:+ after.log) : Proper before :=
  ⟨proper.1.of_suffix suffix, proper.2.of_suffix suffix⟩

theorem initChannels_suffix : enclave.log <:+ (enclave.initChannels boot).log := by
  unfold Lifecycle.initChannels
  split
  · have ctrl : enclave.log <:+ (enclave.ctrlInit boot.ctrlAlloc).log := by
      cases boot.ctrlAlloc with
      | false => exact List.suffix_refl _
      | true => exact List.suffix_cons _ _
    rw [lcallInit_log]
    exact ctrl.trans (List.suffix_append _ _)
  · exact List.suffix_refl _

theorem ctrlInit_holds_irq (allocated : Bool) :
    (enclave.ctrlInit allocated).holds .lcallIrq = enclave.holds .lcallIrq := by
  cases allocated <;> simp [Lifecycle.holds, Lifecycle.ctrlInit, Lifecycle.acquire]

theorem proper_initChannels (tracked : Tracked enclave) : Proper (enclave.initChannels boot) ↔
    Proper enclave ∧ (boot.createsCtrl = true → enclave.holds .ctrlDesc = false) ∧
      (boot.createsIrq = true → enclave.holds .lcallIrq = false) := by
  unfold Lifecycle.initChannels Boot.createsCtrl Boot.createsIrq
  cases boot.reachesCtrl with
  | false => simp
  | true =>
      simp only [if_true, Bool.true_and]
      rw [proper_lcallInit (tracked.ctrlInit _), proper_ctrlInit, ctrlInit_holds_irq, and_assoc]

theorem Tracked.initChannels (tracked : Tracked enclave)
    (absent : boot.createsIrq = true → enclave.holds .lcallIrq = false) :
    Tracked (enclave.initChannels boot) := by
  unfold Lifecycle.initChannels
  split
  · rename_i reaches
    apply (tracked.ctrlInit _).lcallInit
    intro requested
    rw [ctrlInit_holds_irq]
    exact absent (by simp only [Boot.createsIrq, reaches, requested, Bool.true_and])
  · exact tracked

theorem initChannels_live : live (enclave.initChannels boot).log = [] ↔
    live enclave.log = [] ∧ boot.createsCtrl = false ∧ boot.createsLcall = false := by
  unfold Lifecycle.initChannels Boot.createsCtrl Boot.createsLcall Boot.createsIrq
  cases boot.reachesCtrl with
  | false => simp
  | true =>
      simp only [if_true, Bool.true_and]
      cases created : !boot.xbufReady && boot.requestIrq && boot.irqToVector with
      | false =>
          rw [(lcallInit_failed _ created).2]
          cases boot.ctrlAlloc <;> simp [Lifecycle.ctrlInit, Lifecycle.acquire]
      | true =>
          rw [(lcallInit_created _ created).2]
          simp

theorem launch_mapped (enclave : Lifecycle) (boot : Boot) :
    (enclave.launch boot).2.mapped = enclave.mapped := by
  rw [(launch_same enclave boot).mapped]
  unfold Lifecycle.initChannels
  split
  · rw [(lcallInit_frame _ boot).2]
    cases boot.ctrlAlloc <;> rfl
  · rfl

theorem launch_numbered (numbered : Numbered enclave) : Numbered (enclave.launch boot).2 := by
  apply (launch_same enclave boot).numbered
  unfold Lifecycle.initChannels
  split
  · exact (numbered.ctrlInit _).lcallInit boot
  · exact numbered

theorem balanced_launch_iff (tracked : Tracked enclave) (balanced : Balanced enclave) :
    Balanced (enclave.launch boot).2 ↔ Paired (some enclave) (.launch true boot) := by
  obtain ⟨proper, empty⟩ := (balanced_iff tracked.toNumbered).mp balanced
  have log := (launch_same enclave boot).log
  have created : Proper (enclave.launch boot).2 ↔ Proper (enclave.initChannels boot) := by
    simp only [Proper, log]
  rw [balanced_iff (launch_numbered tracked.toNumbered), created, proper_initChannels tracked,
    launch_mapped, log, initChannels_live]
  cases mapped : enclave.mapped with
  | true => simp [Paired, paired, proper, mapped, ← Bool.not_eq_true, imp_iff_not_or]
  | false =>
      have none : ∀ kind, enclave.holds kind = false := by
        intro kind
        simp [Lifecycle.holds, empty mapped]
      simp [Paired, paired, proper, mapped, none, empty mapped]

theorem proper_deinit (tracked : Tracked enclave) : Proper enclave.ctrlDeinit.lcallDeinit ↔
    Proper enclave ∧ enclave.ctrlLive = true ∧ enclave.lcallLive = true := by
  rw [proper_lcallDeinit tracked.ctrlDeinit, proper_ctrlDeinit, tracked.ctrlDeinit_lcallLive, and_assoc]

theorem Tracked.deinit (tracked : Tracked enclave) (proper : Proper enclave)
    (ctrl : enclave.ctrlLive = true) (lcall : enclave.lcallLive = true) :
    Tracked enclave.ctrlDeinit.lcallDeinit :=
  tracked.ctrlDeinit.lcallDeinit (proper_ctrlDeinit.mpr ⟨proper, ctrl⟩).1
    (tracked.ctrlDeinit_lcallLive.trans lcall)

theorem mapped_of_ctrlLive (tracked : Tracked enclave) (balanced : Balanced enclave)
    (ctrl : enclave.ctrlLive = true) : enclave.mapped = true := by
  obtain ⟨_, empty⟩ := (balanced_iff tracked.toNumbered).mp balanced
  obtain ⟨desc, member, _⟩ := ctrlLive_iff.mp ctrl
  by_contra freed
  rw [empty (by simpa using freed)] at member
  cases member

/-- Between the two halves of a reset nothing is live, so the relaunch may
create whatever it reaches. -/
theorem reset_relaunch (boot : Boot) (tracked : Tracked enclave) (balanced : Balanced enclave)
    (ctrl : enclave.ctrlLive = true) (lcall : enclave.lcallLive = true) :
    Tracked enclave.ctrlDeinit.lcallDeinit ∧ Balanced enclave.ctrlDeinit.lcallDeinit ∧
      Paired (some enclave.ctrlDeinit.lcallDeinit) (.launch true boot) := by
  have proper : Proper enclave := ⟨balanced.sound, balanced.exclusive⟩
  have mapped := mapped_of_ctrlLive tracked balanced ctrl
  have torn := tracked.deinit proper ctrl lcall
  have empty := deinit_live tracked proper ctrl (tracked.ctrlDeinit_lcallLive.trans lcall)
  have none : ∀ kind, enclave.ctrlDeinit.lcallDeinit.holds kind = false := by
    intro kind
    simp [Lifecycle.holds, empty]
  refine ⟨torn, ?_, ?_⟩
  · apply (balanced_iff torn.toNumbered).mpr
    exact ⟨(proper_deinit tracked).mpr ⟨proper, ctrl, lcall⟩, fun _ => empty⟩
  · have kept : enclave.ctrlDeinit.lcallDeinit.mapped = true := mapped
    simp [Paired, paired, none, kept]

theorem balanced_reset_iff (tracked : Tracked enclave) (balanced : Balanced enclave) :
    Balanced (enclave.reset boot).2 ↔ Paired (some enclave) (.reset boot) := by
  simp only [Paired, paired, Bool.and_eq_true]
  constructor
  · intro relaunched
    have created : Proper (enclave.ctrlDeinit.lcallDeinit.launch boot).2 :=
      ⟨relaunched.sound, relaunched.exclusive⟩
    have suffix : enclave.ctrlDeinit.lcallDeinit.log <:+
        (enclave.ctrlDeinit.lcallDeinit.launch boot).2.log := by
      rw [(launch_same _ boot).log]
      exact initChannels_suffix
    exact ((proper_deinit tracked).mp (created.of_suffix suffix)).2
  · rintro ⟨ctrl, lcall⟩
    obtain ⟨torn, settled, fits⟩ := reset_relaunch boot tracked balanced ctrl lcall
    exact (balanced_launch_iff torn settled).mpr fits

theorem balanced_free_iff (tracked : Tracked enclave) (balanced : Balanced enclave) :
    Balanced enclave.free ↔ enclave.ctrlLive = true ∧ enclave.lcallLive = true := by
  have proper : Proper enclave := ⟨balanced.sound, balanced.exclusive⟩
  constructor
  · intro freed
    have torn : Proper enclave.ctrlDeinit.lcallDeinit := ⟨freed.sound, freed.exclusive⟩
    exact ((proper_deinit tracked).mp torn).2
  · rintro ⟨ctrl, lcall⟩
    have torn := tracked.deinit proper ctrl lcall
    have empty := deinit_live tracked proper ctrl (tracked.ctrlDeinit_lcallLive.trans lcall)
    obtain ⟨sound, exclusive⟩ := (proper_deinit tracked).mpr ⟨proper, ctrl, lcall⟩
    exact ⟨sound, exclusive, fun _ => (sound.settled_iff torn.fresh).mpr empty⟩

/-- Whether the channels of an enclave that exists are balanced. -/
def AllBalanced (current : Option Lifecycle) : Prop :=
  ∀ enclave, current = some enclave → Balanced enclave

/-- The invariant of runs: a created enclave is also tracked. -/
structure Sane (current : Option Lifecycle) : Prop where
  balanced : AllBalanced current
  tracked : ∀ enclave, current = some enclave → Tracked enclave

theorem balanced_created : Balanced create :=
  ⟨trivial, by simp [create, Exclusive, live], by simp [create]⟩

theorem step_balanced_iff {current next : Option Lifecycle} {operation : Operation}
    (sane : Sane current) (stepped : step current operation = some next) :
    AllBalanced next ↔ Paired current operation := by
  cases current with
  | none =>
      obtain ⟨⟨created, rfl⟩, rfl | rfl⟩ := step_created stepped
      · simp [AllBalanced, Paired, paired]
      · simpa [AllBalanced, Paired, paired] using balanced_created
  | some enclave =>
      have tracked := sane.tracked enclave rfl
      have balanced := sane.balanced enclave rfl
      obtain ⟨after, rfl, requested⟩ := step_requested stepped
      simp only [AllBalanced, Option.some.injEq, forall_eq']
      cases requested with
      | loadImage | notCopied => exact iff_of_true balanced rfl
      | notMapped absent => exact iff_of_true balanced (by simp [Paired, paired, absent])
      | openFile | closeFile =>
          exact iff_of_true ⟨balanced.sound, balanced.exclusive, balanced.settled⟩ rfl
      | launch boot => exact balanced_launch_iff tracked balanced
      | reset boot => exact balanced_reset_iff tracked balanced
      | free mapped => simpa [Paired, paired, mapped] using balanced_free_iff tracked balanced

theorem Tracked.launch (tracked : Tracked enclave) (fits : Paired (some enclave) (.launch true boot)) :
    Tracked (enclave.launch boot).2 := by
  apply (launch_same enclave boot).tracked
  apply tracked.initChannels
  intro created
  simp only [Paired, paired, created, Bool.and_eq_true, Bool.not_true, Bool.false_or,
    Bool.not_eq_true'] at fits
  exact fits.1.2

theorem step_tracked {current next : Option Lifecycle} {operation : Operation} (sane : Sane current)
    (fits : Paired current operation) (stepped : step current operation = some next) :
    ∀ enclave, next = some enclave → Tracked enclave := by
  intro final present
  cases current with
  | none =>
      obtain ⟨_, rfl | rfl⟩ := step_created stepped
      · cases present
      · cases present
        exact Tracked.created
  | some enclave =>
      have tracked := sane.tracked enclave rfl
      have balanced := sane.balanced enclave rfl
      obtain ⟨after, rfl, requested⟩ := step_requested stepped
      cases present
      cases requested with
      | loadImage | notCopied | notMapped => exact tracked
      | openFile | closeFile => exact tracked.unchanged ⟨tracked.fresh, tracked.bound⟩ rfl rfl rfl
      | launch boot => exact tracked.launch fits
      | reset boot =>
          obtain ⟨ctrl, lcall⟩ := Bool.and_eq_true_iff.mp fits
          obtain ⟨torn, _, relaunch⟩ := reset_relaunch boot tracked balanced ctrl lcall
          exact torn.launch relaunch
      | free mapped =>
          obtain ⟨ctrl, lcall⟩ : enclave.ctrlLive = true ∧ enclave.lcallLive = true := by
            simpa [Paired, paired, mapped] using fits
          have torn := tracked.deinit ⟨balanced.sound, balanced.exclusive⟩ ctrl lcall
          exact torn.unchanged ⟨torn.fresh, torn.bound⟩ rfl rfl rfl

theorem sane_of_reachable {current : Option Lifecycle} (reached : system.Reachable Paired current) :
    Sane current := by
  apply reached.invariant
  · intro start initial
    cases initial
    exact ⟨by simp [AllBalanced], by simp⟩
  · intro before operation after sane fits stepped
    exact ⟨(step_balanced_iff sane stepped).mpr fits, step_tracked sane fits stepped⟩

/-- As long as launches create only what is not live and every tear-down meets
live channels, the channels are balanced; and the first request that is not so
breaks the balance. -/
theorem channels_balanced_of_paired {current : Option Lifecycle}
    (reached : system.Reachable Paired current) :
    AllBalanced current ∧ ∀ operation next, system.step current operation = some next →
      (AllBalanced next ↔ Paired current operation) := by
  have sane := sane_of_reachable reached
  refine ⟨sane.balanced, ?_⟩
  intro operation next stepped
  exact step_balanced_iff sane stepped

theorem channels_balanced_freed : ∃ enclave, system.Reachable Paired (some enclave) ∧
    enclave.mapped = false ∧ Settled enclave.log ∧ enclave.log.length = 16 ∧
    ¬ Paired (some enclave) (.reset allWell) := by
  obtain ⟨current, executed, observed⟩ := Option.map_eq_some_iff.mp
    (show (system.run paired none
        [.loadImage true, .openFile, .launch true allWell, .reset timedOut, .free]).map
        (Option.map fun enclave => (enclave.mapped, enclave.log.length, enclave.ctrlLive)) =
      some (some (false, 16, false)) by decide +kernel)
  obtain ⟨enclave, rfl, seen⟩ := Option.map_eq_some_iff.mp observed
  simp only [Prod.mk.injEq] at seen
  have reached : system.Reachable Paired (some enclave) := ⟨none, rfl, System.run_path id executed⟩
  have balanced := (channels_balanced_of_paired reached).1 enclave rfl
  exact ⟨enclave, reached, seen.1, balanced.settled seen.1, seen.2.1, by simp [Paired, paired, seen]⟩

/-- Freeing an enclave that was never launched stops a NULL thread, and
launching twice leaves two long-call threads. -/
theorem unbalanced_free_and_launch :
    (∃ enclave, system.Reachable (fun _ _ => True) (some enclave) ∧
      .release none ∈ enclave.log ∧ ¬ Sound enclave.log) ∧
    ∃ enclave, system.Reachable (fun _ _ => True) (some enclave) ∧
      (live enclave.log).countP (·.kind = .lcallThread) = 2 := by
  constructor
  · obtain ⟨current, executed, observed⟩ := Option.map_eq_some_iff.mp
      (show (system.run (fun _ _ => true) none [.loadImage true, .free]).map
          (Option.map fun enclave => enclave.log) =
        some (some [.release none, .release none, .release none, .release none]) by decide +kernel)
    obtain ⟨enclave, rfl, log⟩ := Option.map_eq_some_iff.mp observed
    exact ⟨enclave, ⟨none, rfl, System.run_path (fun _ => trivial) executed⟩, by simp [log], by simp [log]⟩
  · obtain ⟨current, executed, observed⟩ := Option.map_eq_some_iff.mp
      (show (system.run (fun _ _ => true) none
          [.loadImage true, .openFile, .launch true allWell, .launch true allWell]).map
          (Option.map fun enclave => (live enclave.log).countP (·.kind = .lcallThread)) =
        some (some 2) by decide +kernel)
    obtain ⟨enclave, rfl, counted⟩ := Option.map_eq_some_iff.mp observed
    exact ⟨enclave, ⟨none, rfl, System.run_path (fun _ => trivial) executed⟩, counted⟩

end Pisces.Enclave
