/-
  File:      Lithograph/Query/Resources.lean
  Subject:   Execution-owned memory leases (`query/resources.rs`).

  A budget counts the bytes in use; a reservation is a claim on some of them. An acquisition counts
  as one step, since its loop ends with an exchange of the count it was computed from. What a debug
  build would panic on is a fault of the model.

  * **`leases_accounted`**: the accounts are kept over whole runs.
-/
import Lithograph.Library.Holdings
import Lithograph.Query.Error

namespace Lithograph.Query.Resources

open Library

/-! ## 1. The budget -/

def memoryError (message : String) : QueryError := ⟨.resource, message⟩

def checkedAdd (left right : Nat) : QueryResult Nat :=
  if left + right < 2 ^ 64 then .ok (left + right)
  else .error (memoryError "query execution memory size overflow")

structure ResourceState where
  limit : Option Nat
  used : Nat
  peak : Nat
  deriving DecidableEq, Repr

def ResourceState.new (limit : Option Nat) : ResourceState := ⟨limit, 0, 0⟩

def ResourceState.acquire (state : ResourceState) (bytes : Nat) : QueryResult ResourceState := do
  let next ← checkedAdd state.used bytes
  if state.limit.any fun limit => decide (limit < next) then
    .error (memoryError "query execution memory limit exceeded")
  else
    .ok { state with used := next, peak := max state.peak next }

/-- `None` where the `debug_assert` does not hold. -/
def ResourceState.release (state : ResourceState) (bytes : Nat) : Option ResourceState :=
  if bytes ≤ state.used then some { state with used := state.used - bytes } else none

/-! ## 2. Reservations -/

/-- What ends a program that the source does not let go on. -/
inductive Fault where
  | unowned | overflow
  deriving DecidableEq, Repr

abbrev Ran (α : Type) := Except Fault α

/-- The budget is named by the place of its shared state. -/
structure MemoryReservation where
  resources : Nat
  bytes : Nat
  deriving DecidableEq, Repr

/-- The budgets of all executions. -/
abbrev States := List ResourceState

def acquire (states : States) (resources bytes : Nat) : Ran (QueryResult States) :=
  match states[resources]? with
  | none => .error .unowned
  | some state =>
    match state.acquire bytes with
    | .error error => .ok (.error error)
    | .ok next => .ok (.ok (states.set resources next))

def release (states : States) (resources bytes : Nat) : Ran States :=
  match states[resources]? with
  | none => .error .unowned
  | some state =>
    match state.release bytes with
    | none => .error .overflow
    | some next => .ok (states.set resources next)

namespace MemoryReservation

def grow (self : MemoryReservation) (states : States) (additional : Nat) :
    Ran (States × MemoryReservation × QueryResult Unit) :=
  match checkedAdd self.bytes additional with
  | .error error => .ok (states, self, .error error)
  | .ok next => do
    match ← acquire states self.resources additional with
    | .error error => .ok (states, self, .error error)
    | .ok states => .ok (states, { self with bytes := next }, .ok ())

def resize (self : MemoryReservation) (states : States) (bytes : Nat) :
    Ran (States × MemoryReservation × QueryResult Unit) :=
  if self.bytes ≤ bytes then self.grow states (bytes - self.bytes)
  else do
    let states ← release states self.resources (self.bytes - bytes)
    .ok (states, { self with bytes := bytes }, .ok ())

/-- The part that stays and the part that leaves. -/
def split (self : MemoryReservation) (bytes : Nat) :
    QueryResult (MemoryReservation × MemoryReservation) :=
  if self.bytes < bytes then
    .error (QueryError.internal "memory lease split exceeds its reservation")
  else
    .ok ({ self with bytes := self.bytes - bytes }, { self with bytes := bytes })

def drop (self : MemoryReservation) (states : States) : Ran States :=
  release states self.resources self.bytes

/-- The other reservation is dropped on every path, after its bytes were taken on the good one. -/
def merge (self other : MemoryReservation) (states : States) :
    Ran (States × MemoryReservation × QueryResult Unit) :=
  if self.resources ≠ other.resources then do
    let states ← other.drop states
    .ok (states, self, .error (QueryError.internal "cannot merge leases from different executions"))
  else
    match checkedAdd self.bytes other.bytes with
    | .error error => do
      let states ← other.drop states
      .ok (states, self, .error error)
    | .ok bytes => do
      let states ← { other with bytes := 0 }.drop states
      .ok (states, { self with bytes := bytes }, .ok ())

end MemoryReservation

/-! ## 3. Programs over reservations -/

/-- The budgets and the variables that hold reservations; a slot is empty once its reservation is
    gone. -/
structure World where
  states : States
  leases : List (Option MemoryReservation)

def World.empty : World := ⟨[], []⟩

inductive Action where
  | new (limit : Option Nat)
  | reserve (resources bytes : Nat)
  | grow (lease additional : Nat)
  | resize (lease bytes : Nat)
  | split (lease bytes : Nat)
  | merge (lease other : Nat)
  | drop (lease : Nat)

/-- The reservation that a variable holds. -/
def World.own (w : World) (lease : Nat) : Ran MemoryReservation :=
  match w.leases[lease]? with
  | some (some self) => .ok self
  | _ => .error .unowned

/-- An operation, and what it returns. -/
def World.step (w : World) : Action → Ran (World × QueryResult Unit)
  | .new limit => .ok ({ w with states := w.states ++ [ResourceState.new limit] }, .ok ())
  | .reserve resources bytes => do
    match ← acquire w.states resources bytes with
    | .error error => .ok (w, .error error)
    | .ok states => .ok (⟨states, w.leases ++ [some ⟨resources, bytes⟩]⟩, .ok ())
  | .grow lease additional => do
    let self ← w.own lease
    let (states, self, result) ← self.grow w.states additional
    .ok (⟨states, w.leases.set lease (some self)⟩, result)
  | .resize lease bytes => do
    let self ← w.own lease
    let (states, self, result) ← self.resize w.states bytes
    .ok (⟨states, w.leases.set lease (some self)⟩, result)
  | .split lease bytes => do
    let self ← w.own lease
    match self.split bytes with
    | .error error => .ok (w, .error error)
    | .ok (self, part) => .ok (⟨w.states, w.leases.set lease (some self) ++ [some part]⟩, .ok ())
  | .merge lease other => do
    let moved ← w.own other
    let w := { w with leases := w.leases.set other none }
    let self ← w.own lease
    let (states, self, result) ← self.merge moved w.states
    .ok (⟨states, w.leases.set lease (some self)⟩, result)
  | .drop lease => do
    let self ← w.own lease
    let states ← self.drop w.states
    .ok (⟨states, w.leases.set lease none⟩, .ok ())

/-- The operations of a program, one after the other; a program may go on after a failure. -/
def World.run (w : World) : List Action → Ran World
  | [] => .ok w
  | action :: actions => do
    let (w, _) ← w.step action
    w.run actions

/-! ## 4. What one operation does -/

/-- The budget with some bytes more in use. -/
def ResourceState.raised (state : ResourceState) (bytes : Nat) : ResourceState :=
  { state with used := state.used + bytes, peak := max state.peak (state.used + bytes) }

/-- The budget with some bytes fewer in use. -/
def ResourceState.lowered (state : ResourceState) (bytes : Nat) : ResourceState :=
  { state with used := state.used - bytes }

/-- The count is a `u64` within the limit. -/
def ResourceState.Fits (state : ResourceState) : Prop :=
  state.used < 2 ^ 64 ∧ ∀ limit ∈ state.limit, state.used ≤ limit

theorem ResourceState.Fits.lowered {state : ResourceState} (h : state.Fits) (bytes : Nat) :
    (state.lowered bytes).Fits :=
  ⟨Nat.lt_of_le_of_lt (Nat.sub_le _ _) h.1,
    fun limit hlimit => Nat.le_trans (Nat.sub_le _ _) (h.2 limit hlimit)⟩

variable {states : States} {state : ResourceState} {self other : MemoryReservation}
  {resources bytes : Nat}

theorem checkedAdd_ok {left right : Nat} (h : left + right < 2 ^ 64) :
    checkedAdd left right = .ok (left + right) := if_pos h

theorem ResourceState.acquire_cases (state : ResourceState) (bytes : Nat) :
    (∃ error, state.acquire bytes = .error error) ∨
      (state.raised bytes).Fits ∧ state.acquire bytes = .ok (state.raised bytes) := by
  unfold ResourceState.acquire
  by_cases hsize : state.used + bytes < 2 ^ 64
  · rw [checkedAdd_ok hsize, ok_bind]
    cases hlimit : state.limit.any fun limit => decide (limit < state.used + bytes) with
    | true => exact .inl ⟨_, if_pos rfl⟩
    | false =>
      refine .inr ⟨⟨hsize, fun limit hmem => ?_⟩, if_neg Bool.false_ne_true⟩
      have hsome : state.limit = some limit := hmem
      rw [hsome, Option.any_some, decide_eq_false_iff_not] at hlimit
      exact Nat.not_lt.mp hlimit
  · have hover : checkedAdd state.used bytes =
        .error (memoryError "query execution memory size overflow") := if_neg hsize
    rw [hover]
    exact .inl ⟨_, rfl⟩

theorem acquire_cases (h : states[resources]? = some state) (bytes : Nat) :
    (∃ error, acquire states resources bytes = .ok (.error error)) ∨
      (state.raised bytes).Fits ∧
        acquire states resources bytes = .ok (.ok (states.set resources (state.raised bytes))) := by
  unfold acquire
  rw [h]
  obtain ⟨error, herror⟩ | ⟨hfits, hnext⟩ := state.acquire_cases bytes
  · exact .inl ⟨error, by simp only [herror]⟩
  · exact .inr ⟨hfits, by simp only [hnext]⟩

theorem release_eq (h : states[resources]? = some state) (hle : bytes ≤ state.used) :
    release states resources bytes = .ok (states.set resources (state.lowered bytes)) := by
  unfold release ResourceState.release
  rw [h]
  simp only [if_pos hle]
  rfl

theorem grow_cases (h : states[self.resources]? = some state) (additional : Nat) :
    (∃ error, self.grow states additional = .ok (states, self, .error error)) ∨
      (state.raised additional).Fits ∧
        self.grow states additional = .ok (states.set self.resources (state.raised additional),
          { self with bytes := self.bytes + additional }, .ok ()) := by
  unfold MemoryReservation.grow
  by_cases hsize : self.bytes + additional < 2 ^ 64
  · rw [checkedAdd_ok hsize]
    obtain ⟨error, herror⟩ | ⟨hfits, hnext⟩ := acquire_cases h additional
    · exact .inl ⟨error, by simp only [herror, ok_bind]⟩
    · exact .inr ⟨hfits, by simp only [hnext, ok_bind]⟩
  · have hover : checkedAdd self.bytes additional =
        .error (memoryError "query execution memory size overflow") := if_neg hsize
    rw [hover]
    exact .inl ⟨_, rfl⟩

theorem resize_cases (h : states[self.resources]? = some state) (hfits : state.Fits)
    (hheld : self.bytes ≤ state.used) (bytes : Nat) :
    (∃ error, self.resize states bytes = .ok (states, self, .error error)) ∨
      ∃ next : ResourceState, next.Fits ∧ next.used + self.bytes = state.used + bytes ∧
        self.resize states bytes =
          .ok (states.set self.resources next, { self with bytes := bytes }, .ok ()) := by
  unfold MemoryReservation.resize
  by_cases hmore : self.bytes ≤ bytes
  · rw [if_pos hmore]
    obtain herror | ⟨hnext, hgrow⟩ := grow_cases h (bytes - self.bytes)
    · exact .inl herror
    · rw [Nat.add_sub_cancel' hmore] at hgrow
      refine .inr ⟨_, hnext, ?_, hgrow⟩
      show state.used + (bytes - self.bytes) + self.bytes = state.used + bytes
      omega
  · rw [if_neg hmore, release_eq h (by omega), ok_bind]
    refine .inr ⟨_, hfits.lowered _, ?_, rfl⟩
    show state.used - (self.bytes - bytes) + self.bytes = state.used + bytes
    omega

/-! ## 5. The accounts -/

/-- What a reservation holds of a budget. -/
def share (resources : Nat) (lease : MemoryReservation) : Nat :=
  if lease.resources = resources then lease.bytes else 0

/-- **What is in use is what the live reservations hold, within the limit.** -/
structure Accounted (w : World) : Prop where
  used : ∀ (resources : Nat) (state : ResourceState), w.states[resources]? = some state →
    state.used = held (share resources) w.leases
  fits : ∀ (resources : Nat) (state : ResourceState), w.states[resources]? = some state → state.Fits
  owned : ∀ (lease : Nat) (self : MemoryReservation), w.leases[lease]? = some (some self) →
    self.resources < w.states.length

variable {w w' : World} {lease lease' : Nat} {leases : List (Option MemoryReservation)}
  {next : ResourceState}

theorem Accounted.budget (hw : Accounted w) (h : w.leases[lease]? = some (some self)) :
    ∃ state : ResourceState, w.states[self.resources]? = some state ∧ state.Fits ∧
      state.used = held (share self.resources) w.leases ∧ self.bytes ≤ state.used := by
  have hstate := List.getElem?_eq_getElem (hw.owned lease self h)
  have hused := hw.used _ _ hstate
  have hle := le_held (share self.resources) h
  have hshare : slotWeight (share self.resources) (some self) = self.bytes := if_pos rfl
  exact ⟨_, hstate, hw.fits _ _ hstate, hused, by omega⟩

theorem Accounted.moved (hw : Accounted w) (h : w.states[resources]? = some state)
    (hfits : next.Fits) (hused : next.used = held (share resources) leases)
    (hother : ∀ r, r ≠ resources → held (share r) leases = held (share r) w.leases)
    (howned : ∀ (i : Nat) (self : MemoryReservation), leases[i]? = some (some self) →
      self.resources < w.states.length) :
    Accounted ⟨w.states.set resources next, leases⟩ := by
  have hlt : resources < w.states.length := (List.getElem?_eq_some_iff.mp h).1
  refine ⟨fun r found hfound => ?_, fun r found hfound => ?_, fun i self hi => ?_⟩
  · by_cases hr : resources = r
    · subst hr
      rw [List.getElem?_set_self hlt] at hfound
      obtain rfl := Option.some.inj hfound
      exact hused
    · rw [List.getElem?_set_ne hr] at hfound
      rw [hother r (Ne.symm hr)]
      exact hw.used r found hfound
  · by_cases hr : resources = r
    · subst hr
      rw [List.getElem?_set_self hlt] at hfound
      obtain rfl := Option.some.inj hfound
      exact hfits
    · rw [List.getElem?_set_ne hr] at hfound
      exact hw.fits r found hfound
  · rw [List.length_set]
    exact howned i self hi

theorem Accounted.passed (hw : Accounted w)
    (hheld : ∀ r, held (share r) leases = held (share r) w.leases)
    (howned : ∀ (i : Nat) (self : MemoryReservation), leases[i]? = some (some self) →
      self.resources < w.states.length) :
    Accounted ⟨w.states, leases⟩ :=
  ⟨fun r state h => (hw.used r state h).trans (hheld r).symm, hw.fits, howned⟩

@[simp] theorem share_same (bytes : Nat) : share resources ⟨resources, bytes⟩ = bytes := if_pos rfl

theorem share_other (h : self.resources ≠ resources) : share resources self = 0 := if_neg h

theorem owned_set {slot : Option MemoryReservation} {size : Nat}
    (howned : ∀ (i : Nat) (self : MemoryReservation), leases[i]? = some (some self) →
      self.resources < size)
    (hslot : ∀ self ∈ slot, self.resources < size) (i : Nat) (self : MemoryReservation)
    (h : (leases.set lease slot)[i]? = some (some self)) : self.resources < size := by
  by_cases hi : lease = i
  · rw [List.getElem?_set] at h
    split at h
    · split at h
      · exact hslot self (Option.some.inj h)
      · cases h
    · contradiction
  · rw [List.getElem?_set_ne hi] at h
    exact howned i self h

theorem Accounted.resized (hw : Accounted w) (h : w.leases[lease]? = some (some self))
    (hstate : w.states[self.resources]? = some state) (hfits : next.Fits)
    {slot : Option MemoryReservation} (hslot : ∀ kept ∈ slot, kept.resources = self.resources)
    (hused : next.used + self.bytes = state.used + slotWeight MemoryReservation.bytes slot) :
    Accounted ⟨w.states.set self.resources next, w.leases.set lease slot⟩ := by
  have hlt := hw.owned lease self h
  refine hw.moved hstate hfits ?_ (fun r hr => ?_) ?_
  · have hset := held_set (share self.resources) slot h
    have hold : slotWeight (share self.resources) (some self) = self.bytes := if_pos rfl
    have hnew :
        slotWeight (share self.resources) slot = slotWeight MemoryReservation.bytes slot := by
      cases slot with
      | none => rfl
      | some kept => exact if_pos (hslot kept rfl)
    have hsum := hw.used _ _ hstate
    omega
  · have hset := held_set (share r) slot h
    have hold : slotWeight (share r) (some self) = 0 := if_neg (Ne.symm hr)
    have hnew : slotWeight (share r) slot = 0 := by
      cases slot with
      | none => rfl
      | some kept => exact if_neg fun hkept => hr ((hslot kept rfl).symm.trans hkept).symm
    omega
  · exact owned_set hw.owned fun kept hkept => (hslot kept hkept).symm ▸ hlt

/-! ## 6. Whole operations -/

/-- What a failed operation leaves: everything, but for the reservation that a refused `merge`
    consumes. That one goes back to its own budget, which is not the one it was to be merged into:
    **within one budget a merge does not fail**. -/
def Refused (w : World) (action : Action) (w' : World) : Prop :=
  match action with
  | .merge lease other => ∃ self moved : MemoryReservation, w.leases[lease]? = some (some self) ∧
      w.leases[other]? = some (some moved) ∧ self.resources ≠ moved.resources ∧
      w'.leases = w.leases.set other none ∧
      ∀ r, r ≠ moved.resources → w'.states[r]? = w.states[r]?
  | _ => w' = w

/-- An operation keeps the accounts, refuses as it should, and faults only for want of a lease. -/
def Settled (w : World) (action : Action) : Ran (World × QueryResult Unit) → Prop
  | .error fault => fault = .unowned
  | .ok (w', .ok _) => Accounted w'
  | .ok (w', .error _) => Accounted w' ∧ Refused w action w'

theorem own_cases (w : World) (lease : Nat) :
    w.own lease = .error .unowned ∨
      ∃ self, w.leases[lease]? = some (some self) ∧ w.own lease = .ok self := by
  unfold World.own
  match h : w.leases[lease]? with
  | none => exact .inl rfl
  | some none => exact .inl rfl
  | some (some self) => exact .inr ⟨self, rfl, rfl⟩

theorem set_own (h : w.leases[lease]? = some (some self)) :
    (⟨w.states, w.leases.set lease (some self)⟩ : World) = w := by
  obtain ⟨hlt, hself⟩ := List.getElem?_eq_some_iff.mp h
  rw [← hself, List.set_getElem_self]

theorem new_settled (hw : Accounted w) (limit : Option Nat) :
    Settled w (.new limit) (w.step (.new limit)) := by
  have hlast : ∀ {r : Nat} {state : ResourceState},
      (w.states ++ [ResourceState.new limit])[r]? = some state →
      w.states[r]? = some state ∨ r = w.states.length ∧ state = ResourceState.new limit := by
    intro r state h
    by_cases hr : r < w.states.length
    · rw [List.getElem?_append_left hr] at h
      exact .inl h
    · rw [List.getElem?_append_right (Nat.le_of_not_lt hr)] at h
      have hzero : r - w.states.length = 0 := by
        have := (List.getElem?_eq_some_iff.mp h).1
        rw [List.length_singleton] at this
        omega
      rw [hzero] at h
      exact .inr ⟨by omega, (Option.some.inj h).symm⟩
  -- no reservation claims bytes of the new budget
  have hnone : held (share w.states.length) w.leases = 0 := by
    refine held_zero fun slot hslot => ?_
    cases slot with
    | none => rfl
    | some self =>
      obtain ⟨i, hi⟩ := List.mem_iff_getElem?.mp hslot
      exact share_other (Nat.ne_of_lt (hw.owned i self hi))
  refine ⟨fun r state h => ?_, fun r state h => ?_, fun i self h => ?_⟩
  · obtain h | ⟨rfl, rfl⟩ := hlast h
    · exact hw.used r state h
    · exact hnone.symm
  · obtain h | ⟨rfl, rfl⟩ := hlast h
    · exact hw.fits r state h
    · exact ⟨Nat.two_pow_pos 64, fun limit _ => Nat.zero_le limit⟩
  · have hlt := hw.owned i self h
    show self.resources < (w.states ++ [ResourceState.new limit]).length
    rw [List.length_append]
    exact Nat.lt_of_lt_of_le hlt (Nat.le_add_right _ _)

theorem reserve_settled (hw : Accounted w) (resources bytes : Nat) :
    Settled w (.reserve resources bytes) (w.step (.reserve resources bytes)) := by
  dsimp only [World.step]
  cases hstate : w.states[resources]? with
  | none =>
    have hnone : acquire w.states resources bytes = .error .unowned := by
      unfold acquire
      rw [hstate]
    rw [hnone]
    rfl
  | some state =>
    obtain ⟨error, herror⟩ | ⟨hfits, hnext⟩ := acquire_cases hstate bytes
    · rw [herror]
      exact ⟨hw, rfl⟩
    · rw [hnext]
      have hlt : resources < w.states.length := (List.getElem?_eq_some_iff.mp hstate).1
      refine hw.moved hstate hfits ?_ (fun r hr => ?_) fun i self hi => ?_
      · rw [held_append, held_single]
        show state.used + bytes = _ + share resources ⟨resources, bytes⟩
        rw [share_same, hw.used _ _ hstate]
      · rw [held_append, held_single]
        show _ + share r ⟨resources, bytes⟩ = _
        rw [share_other (Ne.symm hr), Nat.add_zero]
      · by_cases hin : i < w.leases.length
        · rw [List.getElem?_append_left hin] at hi
          exact hw.owned i self hi
        · rw [List.getElem?_append_right (Nat.le_of_not_lt hin)] at hi
          obtain rfl := Option.some.inj (List.mem_singleton.mp (List.mem_of_getElem? hi))
          exact hlt

theorem grow_settled (hw : Accounted w) (lease additional : Nat) :
    Settled w (.grow lease additional) (w.step (.grow lease additional)) := by
  dsimp only [World.step]
  obtain hnone | ⟨self, hself, hown⟩ := own_cases w lease
  · rw [hnone]
    rfl
  obtain ⟨state, hstate, _, _, _⟩ := hw.budget hself
  rw [hown, ok_bind]
  obtain ⟨error, herror⟩ | ⟨hfits, hnext⟩ := grow_cases hstate additional
  · rw [herror, ok_bind]
    rw [set_own hself]
    exact ⟨hw, rfl⟩
  · rw [hnext, ok_bind]
    refine hw.resized hself hstate hfits (fun kept hkept => ?_) ?_
    · obtain rfl := Option.some.inj hkept
      rfl
    · show state.used + additional + self.bytes = state.used + (self.bytes + additional)
      omega

theorem resize_settled (hw : Accounted w) (lease bytes : Nat) :
    Settled w (.resize lease bytes) (w.step (.resize lease bytes)) := by
  dsimp only [World.step]
  obtain hnone | ⟨self, hself, hown⟩ := own_cases w lease
  · rw [hnone]
    rfl
  obtain ⟨state, hstate, hfits, _, hheld⟩ := hw.budget hself
  rw [hown, ok_bind]
  obtain ⟨error, herror⟩ | ⟨next, hnext, hused, hresize⟩ := resize_cases hstate hfits hheld bytes
  · rw [herror, ok_bind]
    rw [set_own hself]
    exact ⟨hw, rfl⟩
  · rw [hresize, ok_bind]
    refine hw.resized hself hstate hnext (fun kept hkept => ?_) hused
    obtain rfl := Option.some.inj hkept
    rfl

theorem drop_settled (hw : Accounted w) (lease : Nat) :
    Settled w (.drop lease) (w.step (.drop lease)) := by
  dsimp only [World.step]
  obtain hnone | ⟨self, hself, hown⟩ := own_cases w lease
  · rw [hnone]
    rfl
  obtain ⟨state, hstate, hfits, _, hheld⟩ := hw.budget hself
  have hdrop : self.drop w.states = _ := release_eq hstate hheld
  rw [hown, ok_bind, hdrop, ok_bind]
  refine hw.resized hself hstate (hfits.lowered _) (fun kept hkept => by cases hkept) ?_
  show state.used - self.bytes + self.bytes = state.used
  omega

theorem split_settled (hw : Accounted w) (lease bytes : Nat) :
    Settled w (.split lease bytes) (w.step (.split lease bytes)) := by
  dsimp only [World.step]
  obtain hnone | ⟨self, hself, hown⟩ := own_cases w lease
  · rw [hnone]
    rfl
  rw [hown, ok_bind]
  have hlt := hw.owned lease self hself
  unfold MemoryReservation.split
  by_cases hmore : self.bytes < bytes
  · rw [if_pos hmore]
    exact ⟨hw, rfl⟩
  · rw [if_neg hmore]
    refine hw.passed (fun r => ?_) fun i kept hi => ?_
    · rw [held_append, held_single]
      have hset := held_set (share r) (some { self with bytes := self.bytes - bytes }) hself
      have hparts : share r { self with bytes := self.bytes - bytes } +
          share r { self with bytes := bytes } = share r self := by
        unfold share
        split
        · exact Nat.sub_add_cancel (Nat.le_of_not_lt hmore)
        · rfl
      have hslot : ∀ l, slotWeight (share r) (some l) = share r l := fun _ => rfl
      simp only [hslot] at hset ⊢
      omega
    · generalize hleases : w.leases.set lease (some { self with bytes := self.bytes - bytes }) =
        leases at hi
      by_cases hin : i < leases.length
      · rw [List.getElem?_append_left hin, ← hleases] at hi
        refine owned_set hw.owned (fun kept hkept => ?_) i kept hi
        obtain rfl := Option.some.inj hkept
        exact hlt
      · rw [List.getElem?_append_right (Nat.le_of_not_lt hin)] at hi
        obtain rfl := Option.some.inj (List.mem_singleton.mp (List.mem_of_getElem? hi))
        exact hlt

/-- **Within one budget a merge never fails.** -/
theorem merge_same (h : states[self.resources]? = some state)
    (hsame : self.resources = other.resources) (hfits : state.Fits)
    (hheld : self.bytes + other.bytes ≤ state.used) :
    self.merge other states =
      .ok (states, { self with bytes := self.bytes + other.bytes }, .ok ()) := by
  have hnext : states[other.resources]? = some state := hsame ▸ h
  have hdrop : MemoryReservation.drop { other with bytes := 0 } states = .ok states := by
    have hlowered : state.lowered 0 = state := rfl
    obtain ⟨hlt, hget⟩ := List.getElem?_eq_some_iff.mp hnext
    refine (release_eq hnext (Nat.zero_le _)).trans ?_
    rw [hlowered, ← hget, List.set_getElem_self]
  unfold MemoryReservation.merge
  rw [if_neg (fun hne => hne hsame), checkedAdd_ok (Nat.lt_of_le_of_lt hheld hfits.1)]
  rw [hdrop]
  rfl

theorem merge_other (h : states[other.resources]? = some state)
    (hne : self.resources ≠ other.resources) (hheld : other.bytes ≤ state.used) :
    self.merge other states = .ok (states.set other.resources (state.lowered other.bytes), self,
      .error (QueryError.internal "cannot merge leases from different executions")) := by
  have hdrop : other.drop states = _ := release_eq h hheld
  unfold MemoryReservation.merge
  rw [if_pos hne, hdrop]
  rfl

theorem merge_settled (hw : Accounted w) (lease other : Nat) :
    Settled w (.merge lease other) (w.step (.merge lease other)) := by
  dsimp only [World.step]
  obtain hnone | ⟨moved, hmoved, hown⟩ := own_cases w other
  · rw [hnone]
    rfl
  rw [hown, ok_bind]
  obtain hnone | ⟨self, hself, hown⟩ := own_cases ⟨w.states, w.leases.set other none⟩ lease
  · rw [hnone]
    rfl
  rw [hown, ok_bind]
  dsimp only at hself ⊢
  have hne : other ≠ lease := by
    intro heq
    subst heq
    obtain ⟨hlt, _⟩ := List.getElem?_eq_some_iff.mp hmoved
    rw [List.getElem?_set_self hlt] at hself
    cases hself
  have hfirst : w.leases[lease]? = some (some self) := by
    rw [List.getElem?_set_ne hne] at hself
    exact hself
  by_cases hsame : self.resources = moved.resources
  · obtain ⟨state, hstate, hfits, hused, _⟩ := hw.budget hfirst
    have hboth := add_le_held (share self.resources) hne.symm hfirst hmoved
    have hleft : slotWeight (share self.resources) (some self) = self.bytes := if_pos rfl
    have hright : slotWeight (share self.resources) (some moved) = moved.bytes := if_pos hsame.symm
    rw [merge_same hstate hsame hfits (by omega), ok_bind]
    dsimp only
    refine hw.passed (fun r => ?_) fun i kept hi => ?_
    · have htaken := held_set (share r) none hmoved
      have hgiven := held_set (share r) (some { self with bytes := self.bytes + moved.bytes }) hself
      have hsum : share r { self with bytes := self.bytes + moved.bytes } =
          share r self + share r moved := by
        unfold share
        rw [hsame]
        split <;> rfl
      have hslot : ∀ l, slotWeight (share r) (some l) = share r l := fun _ => rfl
      have hempty : slotWeight (share r) none = 0 := rfl
      rw [hslot, hempty] at htaken
      rw [hslot, hslot, hsum] at hgiven
      omega
    · refine owned_set (fun i kept hi => ?_) (fun kept hkept => ?_) i kept hi
      · exact owned_set hw.owned (fun _ hkept => by cases hkept) i kept hi
      · obtain rfl := Option.some.inj hkept
        exact hw.owned lease self hfirst
  · obtain ⟨state, hstate, hfits, _, hheld⟩ := hw.budget hmoved
    rw [merge_other hstate hsame hheld, ok_bind]
    have hback : (w.leases.set other none).set lease (some self) = w.leases.set other none := by
      obtain ⟨hlt, hget⟩ := List.getElem?_eq_some_iff.mp hself
      rw [← hget, List.set_getElem_self]
    rw [hback]
    refine ⟨?_, self, moved, hfirst, hmoved, hsame, rfl, fun r hr => ?_⟩
    · refine hw.resized hmoved hstate (hfits.lowered _) (fun kept hkept => by cases hkept) ?_
      show state.used - moved.bytes + moved.bytes = state.used
      omega
    · exact List.getElem?_set_ne (Ne.symm hr)

/-- **One operation keeps the accounts.** -/
theorem step_accounted (hw : Accounted w) (action : Action) : Settled w action (w.step action) := by
  cases action with
  | new limit => exact new_settled hw limit
  | reserve resources bytes => exact reserve_settled hw resources bytes
  | grow lease additional => exact grow_settled hw lease additional
  | resize lease bytes => exact resize_settled hw lease bytes
  | split lease bytes => exact split_settled hw lease bytes
  | merge lease other => exact merge_settled hw lease other
  | drop lease => exact drop_settled hw lease

theorem Settled.accounted {action : Action} {result : QueryResult Unit}
    (h : Settled w action (.ok (w', result))) : Accounted w' := by
  cases result with
  | ok u => exact h
  | error e => exact h.1

/-! ## 7. Whole runs -/

theorem accounted_empty : Accounted World.empty where
  used _ _ h := by cases h
  fits _ _ h := by cases h
  owned _ _ h := by cases h

theorem run_accounted : ∀ {w : World} (actions : List Action), Accounted w →
    w.run actions = .error .unowned ∨ ∃ w', w.run actions = .ok w' ∧ Accounted w'
  | w, [], hw => .inr ⟨w, rfl, hw⟩
  | w, action :: actions, hw => by
    have hstep := step_accounted hw action
    unfold World.run
    cases hran : w.step action with
    | error fault =>
      rw [hran] at hstep
      exact .inl (congrArg Except.error hstep)
    | ok produced =>
      rw [hran] at hstep
      exact run_accounted actions hstep.accounted

/-- **Leases are accounted for over whole runs.** Whatever reservations are made, changed, split,
    merged and dropped, and in whatever order: no count under- or overflows; each budget has in use
    what its live reservations hold, within its limit, and nothing when they are all dropped; and an
    operation that fails leaves its own reservation and the count of its budget as they were. -/
theorem leases_accounted (actions : List Action) : World.empty.run actions ≠ .error .overflow ∧
    ∀ w, World.empty.run actions = .ok w →
      (∀ (resources : Nat) (state : ResourceState), w.states[resources]? = some state →
        state.used = held (share resources) w.leases ∧ state.Fits ∧
        ((∀ slot ∈ w.leases, slot = none) → state.used = 0)) ∧
      ∀ action, w.step action ≠ .error .overflow ∧
        ∀ w' error, w.step action = .ok (w', .error error) → Refused w action w' := by
  obtain hfault | ⟨last, hran, hlast⟩ := run_accounted actions accounted_empty
  · rw [hfault]
    exact ⟨(by intro h; cases h), (by intro w h; cases h)⟩
  rw [hran]
  refine ⟨(by intro h; cases h), fun w h => ?_⟩
  obtain rfl := Except.ok.inj h
  refine ⟨fun resources state hstate => ?_, fun action => ?_⟩
  · have hused := hlast.used resources state hstate
    refine ⟨hused, hlast.fits resources state hstate, fun hnone => ?_⟩
    rw [hused]
    exact held_zero fun slot hslot => by rw [hnone slot hslot]; rfl
  · have hstep := step_accounted hlast action
    refine ⟨fun hover => ?_, fun w' error hfail => ?_⟩
    · rw [hover] at hstep
      cases hstep
    · rw [hfail] at hstep
      exact hstep.2

/-- A growth beyond the limit is refused, bytes move to a second reservation and back, and the
    budget is empty in the end. -/
theorem leases_accounted_sixty : ∃ w, World.empty.run [.new (some 100), .reserve 0 60, .grow 0 41,
    .split 0 20, .merge 0 1, .resize 0 30, .drop 0] = .ok w ∧
    ∀ state, w.states[0]? = some state → state.used = 0 := by
  refine ⟨⟨[⟨some 100, 0, 60⟩], [none, none]⟩, rfl, fun state hstate => ?_⟩
  obtain ⟨_, haccounts⟩ := leases_accounted [.new (some 100), .reserve 0 60, .grow 0 41,
    .split 0 20, .merge 0 1, .resize 0 30, .drop 0]
  exact ((haccounts ⟨[⟨some 100, 0, 60⟩], [none, none]⟩ rfl).1 0 state hstate).2.2 (by decide)

end Lithograph.Query.Resources
