import Pisces.Pci.Resources

/-! # What a PCI device holds

The account of each kind of resource in every run, and which steps keep it
balanced: every release is of something held, and a device that is freed has
given everything back.
-/

namespace Pisces.Pci.Resources

open Ledger Transition

def ofKind (kind : Kind) : Event Handle → Bool
  | .acquire handle => handle.kind = kind
  | .release (some handle) => handle.kind = kind
  | .release none => true

/-- The part of the log about one kind of resource -/
def account (kind : Kind) (log : List (Event Handle)) : List (Event Handle) :=
  log.filter (ofKind kind)

/-- The devices on the list hold a reference each, the initialised ones all the rest. -/
def Held (kind : Kind) (devList : List Listed) (handle : Handle) : Prop :=
  handle.kind = kind ∧ ∃ ready, (handle.owner, ready) ∈ tags devList ∧ (kind ≠ .reference → ready = true)

/-- What is promised of the resources of one kind -/
structure Balanced (kind : Kind) (state : State) : Prop where
  /-- Nothing is released that is not held. -/
  sound : Sound (account kind state.log)
  single : (live (account kind state.log)).Nodup
  /-- Nothing is held for a device off the list. -/
  listed : ∀ handle ∈ live (account kind state.log), handle.owner ∈ state.devList.map (·.id)
  /-- What a freed device acquired was released as often. -/
  freed : ∀ id, .freed id ∈ state.lives →
    (account kind state.log).count (.acquire ⟨kind, id⟩) = (account kind state.log).count (.release (some ⟨kind, id⟩))

/-- Steps that do not meet a defect.  No path but the ladder of
`enclave_pci_add_dev` puts a reference; the other resources of a device are
taken to be there by whoever deinitialises it, and the tear-down of a device
that stays on the list is followed by another. -/
def Orderly (kind : Kind) (state : State) : Operation → Prop
  | .remove spec => kind = .reference → ∀ listed, findDevByName state spec.name = some listed →
      listed.device.removable = false
  | .reset _ => kind ≠ .reference → ∀ listed ∈ state.devList, listed.device.ready = true
  | .deinitTurn _ =>
      ∀ listed, state.devList.head? = some listed → kind ≠ .reference ∧ listed.device.removable = true
  | _ => True

/-- The invariant of the account of one kind -/
structure Kept (kind : Kind) (state : State) : Prop where
  placed : Placed state.devList state.next
  holds : Holds (account kind state.log) (Held kind state.devList)
  gone : ∀ id, .freed id ∈ state.lives → id < state.next ∧ id ∉ state.devList.map (·.id)

section Balance

variable {kind : Kind} {log : List (Event Handle)} {held : Handle → Prop} {devList : List Listed} {state : State}
  {hardware : Hardware} {id : Nat}

theorem account_acquire (kind other : Kind) (id : Nat) (log : List (Event Handle)) :
    account kind (.acquire ⟨other, id⟩ :: log) =
      if other = kind then .acquire ⟨other, id⟩ :: account kind log else account kind log := by
  simp [account, List.filter_cons, ofKind]

theorem account_release (kind other : Kind) (id : Nat) (log : List (Event Handle)) :
    account kind (.release (some ⟨other, id⟩) :: log) =
      if other = kind then .release (some ⟨other, id⟩) :: account kind log else account kind log := by
  simp [account, List.filter_cons, ofKind]

theorem initPciDev_reference (hardware : Hardware) (id : Nat) (log : List (Event Handle)) :
    account .reference (initPciDev hardware id log).2 = account .reference log := by
  unfold initPciDev
  split
  · rfl
  · split
    · simp [account_acquire, account_release]
    · split
      · simp [account_acquire, account_release]
      · simp [account_acquire]

/-- The account of another kind after `__init_pci_dev`: a failure leaves nothing behind. -/
theorem initPciDev_account (notReference : kind ≠ .reference) (hardware : Hardware) (id : Nat)
    (log : List (Event Handle)) :
    ((initPciDev hardware id log).1 = 0 ∧
        account kind (initPciDev hardware id log).2 = .acquire ⟨kind, id⟩ :: account kind log) ∨
      ((initPciDev hardware id log).1 ≠ 0 ∧ (account kind (initPciDev hardware id log).2 = account kind log ∨
        account kind (initPciDev hardware id log).2 =
          .release (some ⟨kind, id⟩) :: .acquire ⟨kind, id⟩ :: account kind log)) := by
  unfold initPciDev
  split
  · exact .inr ⟨(by decide : (-16 : Int) ≠ 0), .inl rfl⟩
  · split
    · rename_i failed
      refine .inr ⟨failed, ?_⟩
      cases kind with
      | reference => contradiction
      | enabled => exact .inr (by simp [account_acquire, account_release])
      | regions => exact .inl (by simp [account_acquire, account_release])
      | domain => exact .inl (by simp [account_acquire, account_release])
    · split
      · refine .inr ⟨(by decide : (-12 : Int) ≠ 0), ?_⟩
        cases kind with
        | reference => contradiction
        | enabled => exact .inr (by simp [account_acquire, account_release])
        | regions => exact .inr (by simp [account_acquire, account_release])
        | domain => exact .inl (by simp [account_acquire, account_release])
      · refine .inl ⟨rfl, ?_⟩
        cases kind with
        | reference => contradiction
        | enabled => simp [account_acquire]
        | regions => simp [account_acquire]
        | domain => simp [account_acquire]

theorem initPciDev_holds (notReference : kind ≠ .reference) (holds : Holds (account kind log) held)
    (new : ¬ held ⟨kind, id⟩) (hardware : Hardware) :
    Holds (account kind (initPciDev hardware id log).2)
      fun handle => (handle = ⟨kind, id⟩ ∧ (initPciDev hardware id log).1 = 0) ∨ held handle := by
  rcases initPciDev_account notReference hardware id log with ⟨succeeded, taken⟩ | ⟨failed, untaken | undone⟩
  · rw [taken]
    refine (holds.acquire new).congr ?_
    intro handle
    simp [succeeded]
  · rw [untaken]
    refine holds.congr ?_
    intro handle
    simp [failed]
  · rw [undone]
    refine ((holds.acquire new).release (.inl rfl)).congr ?_
    intro handle
    constructor
    · rintro (⟨-, succeeded⟩ | own)
      · exact absurd succeeded failed
      · exact ⟨fun same => new (same ▸ own), .inr own⟩
    · rintro ⟨different, same | own⟩
      · exact absurd same different
      · exact .inr own

theorem deinitPciDev_reference (id : Nat) (log : List (Event Handle)) :
    account .reference (deinitPciDev id log) = account .reference log := by
  simp [deinitPciDev, account_release]

theorem deinitPciDev_holds (notReference : kind ≠ .reference) (holds : Holds (account kind log) held)
    (own : held ⟨kind, id⟩) :
    Holds (account kind (deinitPciDev id log)) fun handle => handle ≠ ⟨kind, id⟩ ∧ held handle := by
  have released : account kind (deinitPciDev id log) = .release (some ⟨kind, id⟩) :: account kind log := by
    cases kind with
    | reference => contradiction
    | enabled => simp [deinitPciDev, account_release]
    | regions => simp [deinitPciDev, account_release]
    | domain => simp [deinitPciDev, account_release]
  rw [released]
  exact holds.release own

theorem held_cons {listed : Listed} {handle : Handle} : Held kind (listed :: devList) handle ↔
    (handle = ⟨kind, listed.id⟩ ∧ (kind ≠ .reference → listed.device.ready = true)) ∨ Held kind devList handle := by
  obtain ⟨other, owner⟩ := handle
  constructor
  · rintro ⟨rfl, ready, member, initialised⟩
    rcases List.mem_cons.mp member with same | older
    · obtain ⟨rfl, rfl⟩ := Prod.mk.inj same
      exact .inl ⟨rfl, initialised⟩
    · exact .inr ⟨rfl, ready, older, initialised⟩
  · rintro (⟨same, initialised⟩ | ⟨rfl, ready, member, initialised⟩)
    · cases same
      exact ⟨rfl, listed.device.ready, List.mem_cons_self .., initialised⟩
    · exact ⟨rfl, ready, List.mem_cons_of_mem _ member, initialised⟩

theorem Held.owner_mem {handle : Handle} (own : Held kind devList handle) : handle.owner ∈ devList.map (·.id) := by
  obtain ⟨-, ready, member, -⟩ := own
  rw [← tags_ids]
  exact List.mem_map_of_mem member

theorem held_reference {handle : Handle} :
    Held .reference devList handle ↔ handle.kind = .reference ∧ handle.owner ∈ devList.map (·.id) := by
  constructor
  · intro own
    exact ⟨own.1, own.owner_mem⟩
  · rintro ⟨same, member⟩
    obtain ⟨listed, isListed, owner⟩ := List.mem_map.mp member
    exact ⟨same, listed.device.ready, owner ▸ List.mem_map_of_mem isListed, fun other => absurd rfl other⟩

theorem held_erase {listed : Listed} {before later : List Listed} {handle : Handle}
    (distinct : ((before ++ listed :: later).map (·.id)).Nodup) : Held kind (before ++ later) handle ↔
      handle ≠ ⟨kind, listed.id⟩ ∧ Held kind (before ++ listed :: later) handle := by
  induction before with
  | nil =>
      rw [List.nil_append, List.nil_append, held_cons]
      constructor
      · intro own
        refine ⟨?_, .inr own⟩
        rintro rfl
        exact (List.nodup_cons.mp distinct).1 own.owner_mem
      · rintro ⟨different, ⟨same, -⟩ | own⟩
        · exact absurd same different
        · exact own
  | cons first before ih =>
      have apart : listed.id ≠ first.id := by
        intro same
        have member : listed.id ∈ (before ++ listed :: later).map (·.id) :=
          List.mem_map_of_mem (List.mem_append_right _ (List.mem_cons_self ..))
        rw [same] at member
        exact (List.nodup_cons.mp distinct).1 member
      rw [List.cons_append, List.cons_append, held_cons, held_cons, ih (List.nodup_cons.mp distinct).2]
      constructor
      · rintro (⟨rfl, initialised⟩ | ⟨different, own⟩)
        · exact ⟨fun same => apart (Handle.mk.inj same).2.symm, .inl ⟨rfl, initialised⟩⟩
        · exact ⟨different, .inr own⟩
      · rintro ⟨different, first | own⟩
        · exact .inl first
        · exact .inr ⟨different, own⟩

theorem resetList_reference (hardware : Nat → Hardware) (devList : List Listed) (position : Nat)
    (log : List (Event Handle)) :
    account .reference (resetList hardware devList position log).2 = account .reference log := by
  induction devList generalizing position log with
  | nil => rfl
  | cons listed rest ih => simp only [resetList, ih, initPciDev_reference, deinitPciDev_reference]

/-- `reset_enclave_pci` on initialised devices; the others are `held` besides. -/
theorem resetList_holds (notReference : kind ≠ .reference) (hardware : Nat → Hardware) {position : Nat}
    (holds : Holds (account kind log) fun handle => held handle ∨ Held kind devList handle)
    (ready : ∀ listed ∈ devList, listed.device.ready = true) (distinct : (devList.map (·.id)).Nodup)
    (apart : ∀ listed ∈ devList, ¬ held ⟨kind, listed.id⟩) :
    Holds (account kind (resetList hardware devList position log).2)
      fun handle => held handle ∨ Held kind (resetList hardware devList position log).1 handle := by
  induction devList generalizing held position log with
  | nil => exact holds
  | cons listed rest ih =>
      obtain ⟨absent, distinct⟩ := List.nodup_cons.mp distinct
      have own : Held kind (listed :: rest) ⟨kind, listed.id⟩ :=
        held_cons.mpr (.inl ⟨rfl, fun _ => ready listed (List.mem_cons_self ..)⟩)
      have released : Holds (account kind (deinitPciDev listed.id log)) fun handle => held handle ∨
          Held kind rest handle := by
        refine (deinitPciDev_holds notReference holds (.inr own)).congr ?_
        intro handle
        rw [held_cons]
        constructor
        · rintro (other | later)
          · exact ⟨fun same => apart listed (List.mem_cons_self ..) (same ▸ other), .inl other⟩
          · refine ⟨?_, .inr (.inr later)⟩
            rintro rfl
            exact absent later.owner_mem
        · rintro ⟨different, other | ⟨same, -⟩ | later⟩
          · exact .inl other
          · exact absurd same different
          · exact .inr later
      have gone : ¬ (held ⟨kind, listed.id⟩ ∨ Held kind rest ⟨kind, listed.id⟩) := by
        rintro (other | later)
        · exact apart listed (List.mem_cons_self ..) other
        · exact absent later.owner_mem
      have again := initPciDev_holds notReference released gone (hardware position)
      have rest := @ih _ (fun handle => (handle = ⟨kind, listed.id⟩ ∧ (initPciDev (hardware position) listed.id
          (deinitPciDev listed.id log)).1 = 0) ∨ held handle) (position + 1)
        (again.congr fun handle => or_assoc) (fun other member => ready other (List.mem_cons_of_mem _ member)) distinct ?_
      · refine rest.congr ?_
        intro handle
        simp only [resetList, held_cons]
        by_cases succeeded : (initPciDev (hardware position) listed.id (deinitPciDev listed.id log)).1 = 0
        · simp only [succeeded, if_true, implies_true, and_true]
          tauto
        · simp only [succeeded, if_false, Bool.false_eq_true, imp_false, not_not, notReference, and_false, false_or]
      · rintro other member (⟨same, -⟩ | older)
        · have isListed : other.id ∈ rest.map (·.id) := List.mem_map_of_mem member
          rw [(Handle.mk.inj same).2] at isListed
          exact absent isListed
        · exact apart other (List.mem_cons_of_mem _ member) older

theorem held_tags {other : List Listed} (same : tags other = tags devList) (handle : Handle) :
    Held kind other handle ↔ Held kind devList handle := by
  rw [Held, Held, same]

/-- What is held while `enclave_pci_add_dev` has its reference -/
def Pending (kind : Kind) (held : Handle → Prop) (id : Nat) (handle : Handle) : Prop :=
  (handle = ⟨kind, id⟩ ∧ kind = .reference) ∨ held handle

theorem Pending.take (holds : Holds (account kind log) held) (new : ¬ held ⟨kind, id⟩) :
    Holds (account kind (.acquire ⟨.reference, id⟩ :: log)) (Pending kind held id) := by
  rw [account_acquire]
  by_cases same : .reference = kind
  · subst same
    rw [if_pos rfl]
    refine (holds.acquire new).congr ?_
    intro handle
    simp [Pending]
  · have other : kind ≠ .reference := fun equal => same equal.symm
    rw [if_neg same]
    refine holds.congr ?_
    intro handle
    simp [Pending, other]

theorem Pending.put (holds : Holds (account kind log) (Pending kind held id)) (new : ¬ held ⟨kind, id⟩) :
    Holds (account kind (.release (some ⟨.reference, id⟩) :: log)) held := by
  rw [account_release]
  by_cases same : .reference = kind
  · subst same
    rw [if_pos rfl]
    refine (holds.release (.inl ⟨rfl, rfl⟩)).congr ?_
    intro handle
    constructor
    · intro own
      exact ⟨fun equal => new (equal ▸ own), .inr own⟩
    · rintro ⟨different, ⟨equal, -⟩ | own⟩
      · exact absurd equal different
      · exact own
  · have other : kind ≠ .reference := fun equal => same equal.symm
    rw [if_neg same]
    refine holds.congr ?_
    intro handle
    simp [Pending, other]

theorem Pending.init (holds : Holds (account kind log) (Pending kind held id)) (new : ¬ held ⟨kind, id⟩)
    (hardware : Hardware) :
    Holds (account kind (initPciDev hardware id log).2) fun handle =>
      (handle = ⟨kind, id⟩ ∧ (kind ≠ .reference → (initPciDev hardware id log).1 = 0)) ∨ held handle := by
  by_cases same : kind = .reference
  · subst same
    rw [initPciDev_reference]
    refine holds.congr ?_
    intro handle
    simp [Pending]
  · have absent : ¬ Pending kind held id ⟨kind, id⟩ := by simpa [Pending, same] using new
    refine (initPciDev_holds same holds absent hardware).congr ?_
    intro handle
    simp [Pending, same]

theorem Kept.fresh (kept : Kept kind state) (id : Nat) (owner : state.next ≤ id) :
    ¬ Held kind state.devList ⟨kind, id⟩ := by
  intro own
  obtain ⟨listed, member, same⟩ := List.mem_map.mp own.owner_mem
  have bound := kept.placed.bound listed member
  have equal : listed.id = id := same
  omega

theorem Kept.dropped (kept : Kept kind state) {lives : List Life}
    (holds : Holds (account kind log) (Held kind state.devList))
    (freed : ∀ id, .freed id ∈ lives → id = state.next ∨ .freed id ∈ state.lives) :
    Kept kind { state with next := state.next + 1, log := log, lives := lives } where
  placed := kept.placed.later
  holds := holds
  gone := by
    intro id member
    rcases freed id member with rfl | older
    · refine ⟨Nat.lt_succ_self _, fun isListed => ?_⟩
      obtain ⟨listed, present, same⟩ := List.mem_map.mp isListed
      exact Nat.ne_of_lt (kept.placed.bound listed present) same
    · exact ⟨Nat.lt_succ_of_lt (kept.gone id older).1, (kept.gone id older).2⟩

theorem Kept.outDelList (kept : Kept kind state) (holds : Holds (account kind log) (Held kind state.devList)) :
    Kept kind (state.outDelList log) :=
  kept.dropped holds (by simp)

theorem Kept.outPut (kept : Kept kind state)
    (holds : Holds (account kind log) (Pending kind (Held kind state.devList) state.next)) :
      Kept kind (state.outPut log) :=
  kept.outDelList (Pending.put holds (kept.fresh _ (Nat.le_refl _)))

theorem Kept.add (kept : Kept kind state) (spec : Spec) (hardware : Hardware) :
    Kept kind (enclavePciAddDev state spec hardware) := by
  have new := kept.fresh state.next (Nat.le_refl _)
  have taken := Pending.take kept.holds new
  simp only [enclavePciAddDev]
  split
  · exact kept.dropped kept.holds (by simp)
  · split
    · exact kept.outDelList kept.holds
    · split
      · exact kept.outPut taken
      · have initialised := Pending.init taken new hardware
        split
        · rename_i failed
          refine kept.outPut (initialised.congr ?_)
          intro handle
          simp [Pending, failed]
        · rename_i succeeded
          refine ⟨kept.placed.cons _, initialised.congr ?_, ?_⟩
          · intro handle
            rw [held_cons]
            simp [not_not.mp succeeded, added]
          · intro id member
            obtain ⟨bound, absent⟩ := kept.gone id member
            refine ⟨Nat.lt_succ_of_lt bound, ?_⟩
            rw [List.map_cons, List.mem_cons, not_or]
            exact ⟨Nat.ne_of_lt bound, absent⟩

/-- An initialised device leaves the list with all that it holds but its reference. -/
theorem Kept.discard (kept : Kept kind state) (notReference : kind ≠ .reference) {listed : Listed}
    {before later : List Listed}
    (split : state.devList = before ++ listed :: later) (ready : listed.device.ready = true) :
    Kept kind { state.discard listed.id with devList := before ++ later } := by
  obtain ⟨placed, holds, gone⟩ := kept
  rw [split] at placed holds gone
  have own : Held kind (before ++ listed :: later) ⟨kind, listed.id⟩ :=
    ⟨rfl, true, ready ▸ List.mem_map_of_mem (List.mem_append_right _ (List.mem_cons_self ..)), fun _ => rfl⟩
  have fewer : (before ++ later).Sublist (before ++ listed :: later) :=
    (List.sublist_cons_self listed later).append_left before
  refine ⟨placed.sublist fewer, ?_, ?_⟩
  · exact (deinitPciDev_holds notReference holds own).congr fun handle => held_erase placed.distinct
  · intro id member
    simp only [State.discard, List.mem_cons, Life.freed.injEq, reduceCtorEq, false_or] at member
    rcases member with rfl | older
    · refine ⟨placed.bound listed (List.mem_append_right _ (List.mem_cons_self ..)), fun present => ?_⟩
      have distinct := placed.distinct
      rw [List.map_append, List.map_cons, List.nodup_middle, ← List.map_append, List.nodup_cons] at distinct
      exact distinct.1 present
    · exact ⟨(gone id older).1, fun present => (gone id older).2 ((fewer.map _).subset present)⟩

theorem Kept.remove (kept : Kept kind state) {spec : Spec} (permitted : Orderly kind state (.remove spec)) :
    Kept kind (enclavePciRemoveDev state spec) := by
  simp only [enclavePciRemoveDev]
  split
  · exact kept
  · rename_i listed found
    split
    · rename_i removable
      have notReference : kind ≠ .reference := by
        intro same
        rw [permitted same listed found] at removable
        cases removable
      obtain ⟨named, before, later, split, others⟩ := List.find?_eq_some_iff_append.mp found
      have erased : state.devList.eraseP (·.device.named spec.name) = before ++ later := by
        rw [split, List.eraseP_append_right _ (by simpa using others), List.eraseP_cons, named]
        rfl
      rw [erased]
      exact kept.discard notReference split (by simp_all [Device.removable])
    · exact kept

theorem Kept.reset (kept : Kept kind state) {hardware : Nat → Hardware}
    (permitted : Orderly kind state (.reset hardware)) :
    Kept kind (resetEnclavePci state hardware) := by
  have ids := resetList_ids hardware state.devList 0 state.log
  refine ⟨kept.placed.of_ids ids, ?_, ?_⟩
  · by_cases same : kind = .reference
    · subst same
      refine (Holds.congr (resetList_reference hardware state.devList 0 state.log ▸ kept.holds) ?_)
      intro handle
      rw [held_reference, held_reference]
      exact Iff.and Iff.rfl (by rw [← ids]; rfl)
    · have alone : Holds (account kind state.log) fun handle => False ∨ Held kind state.devList handle :=
        kept.holds.congr fun handle => iff_of_eq (false_or _)
      exact (resetList_holds same hardware alone (permitted same) kept.placed.distinct (fun _ _ => id)).congr
        fun handle => iff_of_eq (false_or _).symm
  · intro id member
    exact ⟨(kept.gone id member).1, fun present => (kept.gone id member).2 (ids ▸ present)⟩

theorem Kept.lcall (kept : Kept kind state) (lcall : Lcall) : Kept kind (handle state lcall) := by
  have tags := handle_tags state lcall
  have ids : (handle state lcall).devList.map (·.id) = state.devList.map (·.id) := by
    rw [← tags_ids, tags, tags_ids]
  refine ⟨kept.placed.of_ids ids, kept.holds.congr (held_tags tags), ?_⟩
  intro id member
  rw [ids]
  exact kept.gone id member

theorem Kept.deinitTurn (kept : Kept kind state) {reused : Device} (permitted : Orderly kind state (.deinitTurn reused)) :
    Kept kind (Resources.deinitTurn state reused) := by
  simp only [Resources.deinitTurn]
  split
  · exact kept
  · rename_i listed rest split
    obtain ⟨notReference, removable⟩ := permitted listed (by rw [split]; rfl)
    rw [if_pos removable]
    have ready : listed.device.ready = true := by simp_all [Device.removable]
    have first : state.devList = [] ++ listed :: rest := split
    exact kept.discard notReference first ready

theorem Kept.step (kept : Kept kind state) {operation : Operation} (permitted : Orderly kind state operation) :
    Kept kind (Resources.step state operation) := by
  cases operation with
  | add spec hardware => exact kept.add spec hardware
  | remove spec => exact kept.remove permitted
  | reset hardware => exact kept.reset permitted
  | lcall lcall => exact kept.lcall lcall
  | deinitTurn reused => exact kept.deinitTurn permitted

theorem Kept.balanced (kept : Kept kind state) : Balanced kind state where
  sound := kept.holds.sound
  single := kept.holds.distinct
  listed handle member := ((kept.holds.exact handle).mp member).owner_mem
  freed id member := kept.holds.settled fun own => (kept.gone id member).2 own.owner_mem

theorem kept_initial (kind : Kind) : Kept kind initEnclavePci where
  placed := ⟨fun _ member => absurd member List.not_mem_nil, List.nodup_nil⟩
  holds := Holds.nil fun _ own => List.not_mem_nil own.owner_mem
  gone _ member := absurd member List.not_mem_nil

end Balance

/-- The resources of the chosen kinds are balanced in runs without a step that
upsets one of them. -/
theorem resources_balanced {kinds : Kind → Prop} {state : State}
    (reached : system.Reachable (fun state operation => ∀ kind, kinds kind → Orderly kind state operation) state) :
    ∀ kind, kinds kind → Balanced kind state := by
  intro kind chosen
  refine Kept.balanced (reached.invariant ?_ ?_)
  · rintro start rfl
    exact kept_initial kind
  · intro state operation next kept permitted stepped
    cases stepped
    exact kept.step (permitted kind chosen)

/-- A host whose device cannot be initialised again -/
def lostDevice : State := step oneDevice (.reset fun _ => { working with requestRegions := -16 })

theorem lostDevice_balanced : Balanced .reference lostDevice ∧ Balanced .enabled lostDevice ∧
    Balanced .regions lostDevice ∧ Balanced .domain lostDevice := by
  have addOrderly : ∀ kind, True → Orderly kind initEnclavePci (.add nic working) := fun _ _ => trivial
  have resetOrderly : ∀ kind, True → Orderly kind oneDevice (.reset fun _ => { working with requestRegions := -16 }) := by
    intro kind _ _
    decide
  have reached : system.Reachable (fun state operation => ∀ kind, True → Orderly kind state operation) lostDevice :=
    ⟨initEnclavePci, rfl, (System.Path.single addOrderly rfl).trans (.single resetOrderly rfl)⟩
  have balanced := resources_balanced reached
  exact ⟨balanced .reference trivial, balanced .enabled trivial, balanced .regions trivial, balanced .domain trivial⟩

/-- The reference to a device that was removed is kept. -/
theorem removed_not_balanced : ¬ ∀ state, system.Reachable (fun _ _ => True) state → ∀ kind, Balanced kind state := by
  intro balanced
  have removed := oneDevice_reached.extend (.single trivial (rfl : system.step oneDevice (.remove nic) = _))
  have listed := (balanced _ removed .reference).listed ⟨.reference, 0⟩
  revert listed
  decide

end Pisces.Pci.Resources
